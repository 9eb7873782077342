import OsRiscv.Bio.Coherence
import OsRiscv.Bio.RawDisk
import OsRiscv.Files.Balance
import OsRiscv.Fat.Lookup
import OsRiscv.Fat.ByteFile
import OsRiscv.Tree.Ends
import OsRiscv.Open.Attached
import OsRiscv.Signal.Nesting
import OsRiscv.Signal.Inherited
import OsRiscv.Futex.Owners
import OsRiscv.Futex.Timed
import OsRiscv.Net.Integrity
import OsRiscv.Net.Requests
import OsRiscv.Net.Unambiguous
import OsRiscv.Image.Blocks
import OsRiscv.Mount.Cycle
import OsRiscv.Exec.Lazy
import OsRiscv.Exec.Script
import OsRiscv.Position.Discipline
import OsRiscv.Position.Append
import OsRiscv.Memory.Regions
import OsRiscv.UserCopy.Handlers
import OsRiscv.Descriptor.Validated
import OsRiscv.Threads.Orphans
import OsRiscv.Signal.Sending
import OsRiscv.Paging.Translate
import OsRiscv.Fat.AnyFat
import OsRiscv.Fat.Exact
import OsRiscv.Tree.NameBounds
import OsRiscv.Tree.OnDisk
import OsRiscv.Pipe.Halts
import OsRiscv.Paging.Brk
import OsRiscv.Kernel.Bitmaps
import OsRiscv.Memory.Zeroing
