import OsRiscv.Tree.Model

/-!
# Elf — what `exec` computes from a file

The headers of an ELF file, the segment maps that `exec` records for them, the addresses at which the interpreter is
mapped, the room for the arguments on the stack, and the first line of a script.  All of it is read from the bytes of
files; the state that `exec` changes is in `Model`.

Numbers are `u64` unless something else is said.
-/

namespace OsRiscv
namespace Exec

open Lib OsRiscv.Tree

/-- Three pages, for the trampolines, below `KERNEL_ADDRESS_TOP = 1 << 38` -/
def userStackTop : Nat := 0x3fffffd000
/-- `1 << 30` bytes below the top -/
def userStackBottom : Nat := 0x3fbfffd000
/-- `1 << 32` bytes below the stack -/
def userBrkHeapBottom : Nat := 0x3ebfffd000
/-- `1 << 32` bytes below the heap of `brk` -/
def userMmapHeapBottom : Nat := 0x3dbfffd000
def maxArg : Nat := 32
def binprmBufSize : Nat := 128
def etExec : Nat := 2
def etDyn : Nat := 3
def ptLoad : Nat := 1
def ptInterp : Nat := 3
def ptGnuProperty : Nat := 0x6474e553

def pteRead : Nat := 2
def pteWrite : Nat := 4
def pteExecute : Nat := 8
def pteUser : Nat := 16
def mapZero : Nat := 1

def downAlign (x : Nat) : Nat := x / pageSize * pageSize

def upAlign (x : Nat) : Nat := (downAlign ((x + (2 ^ 64 - 1)) % 2 ^ 64) + pageSize) % 2 ^ 64

/-! ## Headers -/

/-- The number of `n` bytes at offset `o` -/
def field (bytes : List UInt8) (o n : Nat) : Nat := ofLe ((bytes.drop o).take n)

structure Ehdr where
  type : Nat
  entry : Nat
  phoff : Nat
  phnum : Nat

structure Phdr where
  type : Nat
  offset : Nat
  vaddr : Nat
  filesz : Nat
  memsz : Nat
  deriving DecidableEq

def ehdrSize : Nat := 64
def phdrSize : Nat := 56

def ehdrOf (b : List UInt8) : Ehdr where
  type := field b 16 2
  entry := field b 24 8
  phoff := field b 32 8
  phnum := field b 56 2

def phdrOf (b : List UInt8) : Phdr where
  type := field b 0 4
  offset := field b 8 8
  vaddr := field b 16 8
  filesz := field b 32 8
  memsz := field b 40 8

def isElfFormat (b : List UInt8) : Bool := b.take 4 = [0x7f, 0x45, 0x4c, 0x46]

/-- The header, unless the file is too short for it or is not an ELF file. -/
def readEhdr (d : Dirent) : Option Ehdr :=
  let b := eread d 0 ehdrSize
  if b.length ≠ ehdrSize then none else if isElfFormat b = false then none else some (ehdrOf b)

/-- The program header at `off`, an `int`. -/
def readPhdr (d : Dirent) (off : Nat) : Option Phdr :=
  let b := eread d (off % 2 ^ 32) phdrSize
  if b.length ≠ phdrSize then none else some (phdrOf b)

/-! ## Segment maps -/

/-- `ProcessSegmentMap`; `len` has 32 bits. -/
structure SegmentMap where
  sourceFile : Option Ptr
  va : Nat
  fileOffset : Nat
  len : Nat
  flag : Nat
  deriving DecidableEq

/-- The offset for `ET_DYN` -/
def loadOffset (elf : Ehdr) : Nat := if elf.type = etDyn then 0x10000 else 0

/-- The maps that are recorded for a `PT_LOAD` header: one for the bytes from the file, one for the bss. -/
def mapsOf (de : Ptr) (offset : Nat) (ph : Phdr) : List SegmentMap :=
  (if ph.filesz > 0 then
    [{ sourceFile := some de, va := (ph.vaddr + offset) % 2 ^ 64, fileOffset := ph.offset,
       len := ph.filesz % 2 ^ 32, flag := pteExecute ||| pteRead ||| pteWrite }]
  else []) ++
  (if ph.memsz > ph.filesz then
    [{ sourceFile := none, va := (ph.vaddr + ph.filesz + offset) % 2 ^ 64, fileOffset := 0,
       len := (ph.memsz - ph.filesz) % 2 ^ 32, flag := pteRead ||| pteWrite ||| mapZero }]
  else [])

/-! ## The interpreter -/

/-- Where the heaps of a process end. -/
structure Heaps where
  brkHeapBottom : Nat
  mmapHeapBottom : Nat
  deriving DecidableEq

inductive Panic
  | noSegmentMap
  | noPage
  | interpreter
  | assertion
  | kmalloc
  | commit
  | lookup (stop : Stop)
  | undefined
  | fuel
  deriving DecidableEq, Repr

/-- The address space that `do_mmap` takes for a mapping; `fixed` is `MAP_FIXED`.  Its pages are not modelled here. -/
def doMmap (h : Heaps) (start len : Nat) (fixed : Bool) : Except Panic (Nat × Heaps) := do
  if start % pageSize ≠ 0 then
    .error .assertion
  else
    let bottom := upAlign h.mmapHeapBottom
    let h' := if start = 0 then { h with mmapHeapBottom := upAlign ((bottom + len) % 2 ^ 64) } else h
    if start = 0 ∧ userStackBottom ≤ h'.mmapHeapBottom then
      .error .assertion
    else
      let addr := if start = 0 then bottom else start
      if fixed = true then
        if h'.brkHeapBottom < addr then
          .error .assertion
        else
          return (addr, { h' with
            brkHeapBottom := max (upAlign ((addr + len) % 2 ^ 64)) h'.brkHeapBottom })
      else
        return (addr, h')

/-- `total_mapping_size`, from the lowest page to the highest address. -/
def totalMappingSize (phdrs : List Phdr) : Nat :=
  let loads := phdrs.filter fun ph => ph.type = ptLoad
  let minAddr := loads.foldl (fun m ph => min m (downAlign ph.vaddr)) (2 ^ 64 - 1)
  let maxAddr := loads.foldl (fun m ph => max m ((ph.vaddr + ph.memsz) % 2 ^ 64)) 0
  if loads = [] then 0 else (maxAddr + 2 ^ 64 - minAddr) % 2 ^ 64

/-- `elf_map`; the bytes are read by `do_mmap`, which cannot fail here. -/
def elfMap (h : Heaps) (addr : Nat) (ph : Phdr) (fixed : Bool) (totalSize : Nat) : Except Panic (Nat × Heaps) := do
  let size := (ph.filesz + ph.vaddr % pageSize) % 2 ^ 64
  let addr := downAlign addr
  if size = 0 then
    return (addr, h)
  else do
    let (addr, h) ← if totalSize ≠ 0 then doMmap h addr (upAlign totalSize) fixed else pure (addr, h)
    doMmap h addr size fixed

/-- The loop of `load_elf_interp`; only the first mapping is made for the whole image. -/
def interpLoop (type : Nat) : List Phdr → Option Nat → Nat → Heaps → Except Panic (Nat × Heaps)
  | [], loadAddr, _, h => .ok (loadAddr.getD 0, h)
  | ph :: rest, loadAddr, totalSize, h =>
    if ph.type ≠ ptLoad then
      interpLoop type rest loadAddr totalSize h
    else do
      let fixed := decide (type = etExec ∨ loadAddr ≠ none)
      let (mapAddr, h) ← elfMap h ((loadAddr.getD 0 + ph.vaddr) % 2 ^ 64) ph fixed totalSize
      let base := (mapAddr + 2 ^ 64 - ph.vaddr % pageSize) % 2 ^ 64
      interpLoop type rest (if loadAddr = none ∧ type = etDyn then some base else loadAddr) 0 h

/-- `load_elf_interp`: the address at which the interpreter is loaded. -/
def loadElfInterp (elf : Ehdr) (phdrs : List Phdr) (h : Heaps) : Except Panic (Nat × Heaps) :=
  let totalSize := totalMappingSize phdrs
  if totalSize = 0 then .ok (2 ^ 64 - 22, h) else interpLoop elf.type phdrs none totalSize h

/-- The bytes that `eread` leaves in a page of zeros. -/
def readPage (d : Dirent) (off n : Nat) : List UInt8 := slice (overlay (fun _ => 0) 0 (eread d (off % 2 ^ 32) n)) 0 n

/-- Header and program headers of the interpreter. -/
def interpEhdr (d : Dirent) : Ehdr := ehdrOf (readPage d 0 ehdrSize)

def interpPhdrs (d : Dirent) : List Phdr :=
  let elf := interpEhdr d
  let b := readPage d elf.phoff (phdrSize * elf.phnum)
  (List.range elf.phnum).map fun i => phdrOf (b.drop (phdrSize * i))

/-- What loading the interpreter `d` does to the heaps. -/
def mapInterp (d : Dirent) (h : Heaps) : Except Panic Heaps := do
  if phdrSize * (interpEhdr d).phnum > pageSize then
    .error .kmalloc
  else do
    let (_, h) ← loadElfInterp (interpEhdr d) (interpPhdrs d) h
    return h

/-! ## The stack -/

def stackBase : Nat := userStackTop - pageSize

/-- Make room for `n` bytes and align the stack pointer; nothing if the first page is full. -/
def reserve (sp n : Nat) : Option Nat :=
  let sp := sp - n
  let sp := sp - sp % 16
  if sp < stackBase then none else some sp

/-- Push strings with their final 0. -/
def pushStrings : Nat → List Nat → Option Nat
  | sp, [] => some sp
  | sp, len :: rest => do
      let sp ← reserve sp (len + 1)
      pushStrings sp rest

/-- The lengths of the environment strings `LD_LIBRARY_PATH=/` and `PATH=/:/usr/bin:/musl-gcc/include:/bin/` -/
def envLengths : List Nat := [17, 39]

/-- The stack pointer after the arguments, the environment, the random bytes and the vectors have been pushed; 15 is
the number of auxiliary entries.  A vector of `maxArg` strings has no null pointer, and its end is read past it. -/
def buildStack (argv : List Str) : Except Panic (Option Nat) :=
  match pushStrings userStackTop (argv.map List.length) with
  | none => .ok none
  | some sp =>
    if maxArg ≤ argv.length then
      .error .undefined
    else .ok do
      let sp ← pushStrings sp envLengths
      let sp ← reserve sp 32
      reserve sp ((argv.length + envLengths.length + 3 + 2 * 15) * 8)

/-! ## Scripts -/

def blank (c : UInt8) : Bool := c = 32 ∨ c = 9

/-- The words behind `#!` in the first line: `i_name` and `i_arg`. -/
def scriptLine (line : Str) : Option (Str × Option Str) :=
  let line := (line.reverse.dropWhile blank).reverse
  let text := (line.drop 2).dropWhile blank
  if text = [] then
    none
  else
    let rest := (text.dropWhile fun c => !blank c).dropWhile blank
    some (text.takeWhile fun c => !blank c, if rest = [] then none else some rest)

/-- `load_script` up to the call of `exec`: nothing for `-ENOEXEC`.  Without an end of line or string in the buffer,
and with more strings than `script_argv` holds, the behaviour is undefined; a null pointer is not stored. -/
def loadScript (buf : Nat → UInt8) (argv : List Str) : Except Panic (Option (Str × List Str)) :=
  let line := (slice buf 0 binprmBufSize).takeWhile fun c => c ≠ 0 ∧ c ≠ 10
  if line.length = binprmBufSize then
    .error .undefined
  else
    match scriptLine line with
    | none => .ok none
    | some (name, arg) =>
      let argv := name :: arg.toList ++ argv
      if maxArg < argv.length then .error .undefined else .ok (some (name, argv))

end Exec
end OsRiscv
