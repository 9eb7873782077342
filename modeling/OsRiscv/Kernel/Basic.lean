import Mathlib.Tactic.Ring

/-!
# Basic — enumerations and constants shared by the kernel models
-/

namespace OsRiscv

def pageSize : Nat := 4096
@[irreducible] def processTotalNumber : Nat := 1024
/-- `NOFILE`, the descriptors of a process -/
@[irreducible] def nofile : Nat := 1024
def fat32MaxFilename : Nat := 255
def fat32MaxPath : Nat := 260
def oTrunc : Nat := 0o1000
def seekEnd : Int := 2

/-- `enum ProcessState` of `Process.h`; processes and threads use the same enumeration. -/
inductive ProcessState
  | unused
  | sleeping
  | runnable
  | running
  | zombie
  deriving DecidableEq, Repr

/-- A `panic`, a failing `assert` or a fault of the kernel itself ends the kernel: the functions of
the models return `none` there, so that a `some` always describes a call that completed. -/
abbrev Kernel (α : Type*) := Option α

end OsRiscv
