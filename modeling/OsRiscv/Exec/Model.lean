import OsRiscv.Exec.Elf
import OsRiscv.Open.Model

/-!
# Model — `exec`

`segmentMapAlloc`, `processMapFree`, `exec`, `load_script` and `sys_exec` of `Exec.c`, for the process that calls.
The list from `segmentMapHead` is the list of the indices of its maps.  The pages of the address spaces are left out:
`pgdir` is the address of a page table.

The first lookups, the scripts that name scripts, and with them `exec` itself need fuel.
-/

namespace OsRiscv
namespace Exec

open Lib OsRiscv.Tree

@[irreducible] def segmentMapNumber : Nat := 1024

structure Process where
  pgdir : Nat
  segmentMapHead : List Nat
  heaps : Heaps
  execFile : Option Ptr

structure Sys where
  fs : Fs
  ctx : Ctx
  process : Process
  segmentMap : Nat → SegmentMap
  segmentMapBitmap : Nat → Bool

/-- What a call of `exec` finds, for each level of nested scripts: what was in the buffer on the stack, and the page
for the page table.  `clus` is the cluster that an empty `/proc/self/exe` gets. -/
structure Env where
  fuel : Nat
  bprmbuf : Nat → Nat → UInt8
  pagetable : Nat → Nat
  clus : Nat

abbrev ECall := Call Sys Panic

/-! ## Segment maps -/

def segmentMapAlloc : ECall Nat := do
  let s ← Call.get
  match (List.range segmentMapNumber).find? fun i => s.segmentMapBitmap i = false with
  | some i =>
    Call.modify fun s => { s with segmentMapBitmap := Function.update s.segmentMapBitmap i true }
    return i
  | none => Call.panic .noSegmentMap

def setProcess (p : Process) : ECall Unit := Call.modify fun s => { s with process := p }

/-- Fill a new map and put it in front of the list. -/
def appendSegmentMap (psm : SegmentMap) : ECall Unit := do
  let i ← segmentMapAlloc
  Call.modify fun s => { s with
    segmentMap := Function.update s.segmentMap i psm
    process := { s.process with segmentMapHead := i :: s.process.segmentMapHead } }

/-- The maps are marked as free; the list is empty. -/
def freed (s : Sys) : Sys :=
  { s with
    segmentMapBitmap := fun i => s.segmentMapBitmap i && decide (i ∉ s.process.segmentMapHead)
    process := { s.process with segmentMapHead := [] } }

def processMapFree : ECall Unit := Call.modify freed

/-! ## `exec` -/

def lookup (n : Nat) (path : Str) (follow : Bool) : ECall (Option Ptr) := do
  let s ← Call.get
  match ename n s.fs s.ctx atFdcwd path follow with
  | .ok (entry, _) => return entry
  | .error stop => Call.panic (.lookup stop)

/-- The loop over the program headers that records the segments; false stands for `goto bad`. -/
def recordLoop (de : Ptr) (offset : Nat) : Nat → Nat → ECall Bool
  | 0, _ => return true
  | n + 1, off => do
      let s ← Call.get
      match readPhdr (s.fs.dirent de) off with
      | none => return false
      | some ph =>
        if ph.type ≠ ptLoad then
          recordLoop de offset n (off + phdrSize)
        else if ph.memsz < ph.filesz then
          return false
        else do
          Call.forEach appendSegmentMap (mapsOf de offset ph)
          recordLoop de offset n (off + phdrSize)

/-- The path in a `PT_INTERP` header, of `ph.filesz` bytes in a page of zeros. -/
def interpPath (d : Dirent) (ph : Phdr) : Except Panic Str :=
  let b := readPage d ph.offset ph.filesz
  if ph.filesz > 4096 ∨ ph.filesz < 2 ∨ b.getLast? ≠ some 0 then .error .interpreter else .ok (b.takeWhile (· ≠ 0))

/-- The loop that looks for the interpreter: nothing for `goto bad`, else the last one that is named. -/
def findInterp (n : Nat) (t : Fs) (c : Ctx) (d : Dirent) : Nat → Nat → Option Ptr → Except Panic (Option (Option Ptr))
  | 0, _, interpreter => .ok (some interpreter)
  | k + 1, off, interpreter =>
    match readPhdr d off with
    | none => .ok none
    | some ph =>
      if ph.type = ptGnuProperty then
        .error .interpreter
      else if ph.type ≠ ptInterp then
        findInterp n t c d k (off + phdrSize) interpreter
      else if ph.memsz < ph.filesz then
        .ok none
      else do
        let path ← interpPath d ph
        match ename n t c atFdcwd path true with
        | .error stop => .error (.lookup stop)
        | .ok (none, _) => .error .interpreter
        | .ok (some p, _) => findInterp n t c d k (off + phdrSize) (some p)

def pushArgs (argv : List Str) : ECall Bool :=
  match buildStack argv with
  | .error e => Call.panic e
  | .ok sp => return sp.isSome

/-- The part of `exec` from the header to the stack; false stands for `goto bad`. -/
def loadProgram (env : Env) (de : Ptr) (argv : List Str) : ECall Bool := do
  let s ← Call.get
  match readEhdr (s.fs.dirent de) with
  | none => return false
  | some elf => do
      let recorded ← recordLoop de (loadOffset elf) elf.phnum elf.phoff
      if recorded = false then
        return false
      else do
        match findInterp env.fuel s.fs s.ctx (s.fs.dirent de) elf.phnum elf.phoff none with
        | .error e => Call.panic e
        | .ok none => return false
        | .ok (some none) => pushArgs argv
        | .ok (some (some p)) => do
            match mapInterp (s.fs.dirent p) s.process.heaps with
            | .error e => Call.panic e
            | .ok h => do
                Call.modify fun s => { s with process := { s.process with heaps := h } }
                pushArgs argv

/-- The end of `exec`: the new program is taken over. -/
def commit (env : Env) (de : Ptr) : ECall Unit := do
  let s ← Call.get
  setProcess { s.process with
    heaps := { brkHeapBottom := userBrkHeapBottom, mmapHeapBottom := userMmapHeapBottom }
    execFile := some de }
  match getAbsolutePath s.fs de with
  | none => Call.panic .commit
  | some buf => do
      match ← lookup env.fuel Open.procSelfExe false with
      | none => Call.panic .commit
      | some exe =>
        let written := ewrite (s.fs.dirent exe) 0 (buf ++ [0]) env.clus
        if written.1 < 0 then Call.panic .commit
        else Call.modify fun s => { s with fs := s.fs.set exe written.2 }

def exec (env : Env) : Nat → Str → List Str → ECall Int
  | 0, _, _ => Call.panic .fuel
  | m + 1, path, argv => do
      processMapFree
      match ← lookup env.fuel path true with
      | none => return -1
      | some de => do
          let s ← Call.get
          let buf := overlay (env.bprmbuf m) 0 (eread (s.fs.dirent de) 0 (binprmBufSize - 1))
          if buf 0 = 35 ∧ buf 1 = 33 then
            match loadScript buf argv with
            | .error e => Call.panic e
            | .ok none => return -8
            | .ok (some (name, argv)) => exec env m name argv
          else do
            setProcess { s.process with pgdir := env.pagetable m }
            let loaded ← loadProgram env de argv
            let t ← Call.get
            if loaded = false then do
              setProcess { t.process with pgdir := s.process.pgdir }
              return -1
            else do
              commit env de
              return 0

/-! ## `sys_exec` -/

/-- What is found at a place of the argument vector: the vector cannot be read, its end, or a string unless it cannot
be fetched. -/
inductive Fetched
  | fault
  | null
  | string (s : Option Str)

/-- The loop that fetches the arguments, with room for `n` more. -/
def fetchArgs (fetch : Nat → Fetched) : Nat → Nat → Option (List Str)
  | 0, _ => none
  | n + 1, i =>
    match fetch i with
    | .fault => none
    | .null => some []
    | .string none => none
    | .string (some str) => (fetchArgs fetch n (i + 1)).map (str :: ·)

def sysExec (env : Env) (m : Nat) (path : Option Str) (fetch : Nat → Fetched) : ECall Int :=
  match path with
  | none => return -1
  | some path =>
    match fetchArgs fetch maxArg 0 with
    | none => return -1
    | some argv => exec env m path argv

end Exec
end OsRiscv
