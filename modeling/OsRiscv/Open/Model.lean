import OsRiscv.Files.Opened
import OsRiscv.Tree.Link

/-!
# Model — who refers to a dirent

The file table of `Files` over the directory tree of `Tree`, with the other places that keep a pointer to a
`Dirent`: `cwd` and `execFile` of a process and the segment maps that `exec` records.  Nothing counts these pointers
(`edup` and `eput` are empty), so `do_unlinkat` frees a dirent whoever refers to it, and `direntAlloc` gives it to
the next file.

A file is a dirent together with the number of times that `direntAlloc` has returned this dirent.  `gen` and `opened`,
and the numbers in `cwd`, `execFile` and `segments`, are history variables.  The file table names the dirents by
numbers.
-/

namespace OsRiscv
namespace Open

open Function (update)
open Lib OsRiscv.Tree

def oCreateGlibc : Nat := 0o100
def oDirectory : Nat := 0x0200000

/-- The path `/proc/self/exe` -/
def procSelfExe : Str := [slash, 112, 114, 111, 99, slash, 115, 101, 108, 102, slash, 101, 120, 101]

structure FileId where
  ptr : Ptr
  gen : Nat
  deriving DecidableEq, Repr

structure Sys where
  files : Files.Sys
  fs : Fs
  cwd : Nat → FileId
  execFile : Nat → Option FileId
  /-- `sourceFile` of the segment maps of a process, without those that are NULL -/
  segments : Nat → List FileId
  /-- how often a dirent has been allocated -/
  gen : Nat → Nat
  /-- `gen` of the entry of a file when it was opened -/
  opened : Nat → Nat

/-! ## Names of dirents in the file table -/

def addr : Ptr → Nat
  | .dirent i => 2 * i
  | .root k => 2 * k + 1

def ofAddr (a : Nat) : Ptr := if a % 2 = 0 then .dirent (a / 2) else .root (a / 2)

@[simp] lemma ofAddr_addr (p : Ptr) : ofAddr (addr p) = p := by
  cases p with
  | dirent i =>
    have hdiv : 2 * i / 2 = i := by omega
    simp [addr, ofAddr, hdiv]
  | root k =>
    have hdiv : (2 * k + 1) / 2 = k := by omega
    simp [addr, ofAddr, hdiv]

/-! ## The state -/

/-- Whether the dirent is found on the free list. -/
def isFree (t : Fs) (i : Nat) : Bool := search t.next (fun j => j = i) (direntNum + 1) t.direntHead = some (some i)

namespace Sys

def genOf (s : Sys) : Ptr → Nat
  | .dirent i => s.gen i
  | .root _ => 0

/-- The file that the dirent holds now. -/
def fileOf (s : Sys) (p : Ptr) : FileId := ⟨p, s.genOf p⟩

/-- The tree after a call, with the allocations counted. -/
def withFs (s : Sys) (t : Fs) : Sys :=
  { s with
    fs := t
    gen := fun i => if isFree s.fs i = true ∧ isFree t i = false then s.gen i + 1 else s.gen i }

/-- What a lookup by process `p` reads: `ofile[fd]->ep`, whatever the type of the file is. -/
def ctx (s : Sys) (p : Nat) : Ctx where
  cwd := (s.cwd p).ptr
  ofile := fun fd => (s.files.ofile (p, fd)).map fun f => (s.files.file f).ep.map ofAddr

def setOff (s : Sys) (f off : Nat) : Sys :=
  { s with files := { s.files with file := update s.files.file f { s.files.file f with off := off } } }

end Sys

/-! ## The calls -/

/-- `syscallOpenAt` up to the entry: an error code, or the entry. -/
def openEntry (n : Nat) (s : Sys) (p : Nat) (fd : Int) (path : Str) (flags clus : Nat) :
    Except Stop (Except Int Ptr × Fs) :=
  if flags &&& oCreateGlibc ≠ 0 then do
    let (entry, t) ← create n s.fs (s.ctx p) fd path .file clus
    match entry with
    | none => return (.error (-1), t)
    | some ep => return (.ok ep, t)
  else do
    let (entry, _) ← ename n s.fs (s.ctx p) fd path true
    match entry with
    | none => return (.error (-2), s.fs)
    | some ep =>
      if (s.fs.dirent ep).isDir = false ∧ flags &&& oDirectory ≠ 0 then
        return (.error (-1), s.fs)
      else if (s.fs.dirent ep).isDir = true ∧ flags &&& 0xfff ≠ 0 then
        return (.error (-1), s.fs)
      else
        return (.ok ep, s.fs)

/-- The rest of `syscallOpenAt`. -/
def openFile (s : Sys) (p : Nat) (ep : Ptr) (flags : Nat) : Option Sys := do
  let d := s.fs.dirent ep
  let d := if d.isDir = false ∧ flags &&& oTrunc ≠ 0 then etrunc d else d
  let (r, files) ← (Files.exec s.files (.openAt p (.ok (addr ep)) flags d.fileSize)).toOption
  if r < 0 then
    return { s with files := files }
  else
    return { s with
      files := files
      fs := s.fs.set ep d
      opened := match files.ofile (p, r.toNat) with
        | some f => update s.opened f (s.genOf ep)
        | none => s.opened }

def syscallOpenAt (n : Nat) (s : Sys) (p : Nat) (fd : Int) (path : Str) (flags clus : Nat) : Option Sys := do
  let (entry, t) ← (openEntry n s p fd path flags clus).toOption
  match entry with
  | .error _ => return s.withFs t
  | .ok ep => openFile (s.withFs t) p ep flags

/-- `syscallMakeDirAt`; a path of slashes only is refused. -/
def syscallMakeDirAt (n : Nat) (s : Sys) (p : Nat) (fd : Int) (path : Str) (clus : Nat) : Option Sys :=
  if path.all (· = slash) then
    some s
  else do
    let (_, t) ← (create n s.fs (s.ctx p) fd path .dir clus).toOption
    return s.withFs t

/-- `create` in the code at the start, which also makes files for devices -/
def makeFile (n : Nat) (s : Sys) (p : Nat) (path : Str) (type : FileKind) (clus : Nat) : Option Sys := do
  let (_, t) ← (create n s.fs (s.ctx p) atFdcwd path type clus).toOption
  return s.withFs t

/-- A field of the entry that a path names is set. -/
def setEntry (n : Nat) (s : Sys) (p : Nat) (path : Str) (f : Dirent → Dirent) : Option Sys := do
  let t ← (Tree.update n s.fs (s.ctx p) path f).toOption
  return { s with fs := t }

def syscallUnlinkAt (n : Nat) (s : Sys) (p : Nat) (fd : Int) (path : Str) : Option Sys := do
  let (_, t) ← (doUnlinkat n s.fs (s.ctx p) fd path).toOption
  return s.withFs t

def syscallLinkAt (n : Nat) (s : Sys) (p : Nat) (oldFd : Int) (oldPath : Str) (newFd : Int) (newPath : Str)
    (clus : Nat) : Option Sys := do
  let (_, t) ← (doLinkat n s.fs (s.ctx p) oldFd oldPath newFd newPath clus).toOption
  return s.withFs t

def syscallChangeDir (n : Nat) (s : Sys) (p : Nat) (path : Str) : Option Sys := do
  let (entry, _) ← (ename n s.fs (s.ctx p) atFdcwd path true).toOption
  match entry with
  | none => return s
  | some ep =>
    if (s.fs.dirent ep).isDir = false then
      return s
    else
      return { s with cwd := update s.cwd p (s.fileOf ep) }

/-- `fileread`: the bytes that come from a dirent. -/
def fileread (s : Sys) (f n : Nat) : List UInt8 × Sys :=
  let file := s.files.file f
  match file.type, file.ep with
  | .entry, some ep =>
    if file.readable then
      let bytes := eread (s.fs.dirent (ofAddr ep)) file.off n
      (bytes, s.setOff f (file.off + bytes.length))
    else
      ([], s)
  | _, _ => ([], s)

/-- `syscallPRead` tests neither the type nor `readable`. -/
def pread (s : Sys) (f off n : Nat) : Option (List UInt8) :=
  (s.files.file f).ep.map fun ep => eread (s.fs.dirent (ofAddr ep)) off n

/-- `filewrite`, as far as it changes a dirent. -/
def filewrite (s : Sys) (f : Nat) (bytes : List UInt8) (clus : Nat) : Sys :=
  let file := s.files.file f
  match file.type, file.ep with
  | .entry, some ep =>
    if file.writable then
      let (r, d) := ewrite (s.fs.dirent (ofAddr ep)) file.off bytes clus
      let s := { s with fs := s.fs.set (ofAddr ep) d }
      if r = bytes.length then s.setOff f (file.off + bytes.length) else s
    else
      s
  | _, _ => s

def syscallRead (s : Sys) (p : Nat) (fd : Int) (n : Nat) : Sys :=
  match Files.argfd s.files p fd with
  | none => s
  | some f => (fileread s f n).2

def syscallWrite (s : Sys) (p : Nat) (fd : Int) (bytes : List UInt8) (clus : Nat) : Sys :=
  match Files.argfd s.files p fd with
  | none => s
  | some f => filewrite s f bytes clus

/-- `exec`: the maps of the old program are given up first; `maps` is the number of maps with a source that are
recorded, and `loaded` says whether the rest succeeds.  A script runs `exec` once more, with its interpreter. -/
def exec (n : Nat) (s : Sys) (p : Nat) (path : Str) (maps : Nat) (loaded : Bool) (clus : Nat) : Option Sys := do
  let (entry, _) ← (ename n s.fs (s.ctx p) atFdcwd path true).toOption
  match entry with
  | none => return { s with segments := update s.segments p [] }
  | some de =>
    let s := { s with segments := update s.segments p (List.replicate maps (s.fileOf de)) }
    if loaded = false then
      return s
    else do
      let buf ← getAbsolutePath s.fs de
      let (entry, _) ← (ename n s.fs (s.ctx p) atFdcwd procSelfExe false).toOption
      let exe ← entry
      let (r, d) := ewrite (s.fs.dirent exe) 0 (buf ++ [0]) clus
      if r < 0 then
        none
      else
        return { s with
          fs := s.fs.set exe d
          execFile := update s.execFile p (some (s.fileOf de)) }

/-- `processFork`: the child has the maps in reverse, and the `execFile` of the last process in its place. -/
def processFork (s : Sys) (p child : Nat) : Option Sys := do
  let (_, files) ← (Files.exec s.files (.fork p child)).toOption
  return { s with
    files := files
    cwd := update s.cwd child (s.cwd p)
    segments := update s.segments child (s.segments p).reverse }

def processFree (s : Sys) (p : Nat) : Option Sys := do
  let (_, files) ← (Files.exec s.files (.exit p)).toOption
  return { s with files := files, segments := update s.segments p [] }

/-! ## The system -/

inductive Act
  | openAt (p : Nat) (fd : Int) (path : Str) (flags clus : Nat)
  | mkdirAt (p : Nat) (fd : Int) (path : Str) (clus : Nat)
  | unlinkAt (p : Nat) (fd : Int) (path : Str)
  | linkAt (p : Nat) (oldFd : Int) (oldPath : Str) (newFd : Int) (newPath : Str) (clus : Nat)
  | chdir (p : Nat) (path : Str)
  | read (p : Nat) (fd : Int) (n : Nat)
  | write (p : Nat) (fd : Int) (bytes : List UInt8) (clus : Nat)
  | exec (p : Nat) (path : Str) (maps : Nat) (loaded : Bool) (clus : Nat)
  | fork (p child : Nat)
  | exit (p : Nat)
  | create (p : Nat) (path : Str) (type : FileKind) (clus : Nat)
  /-- `ep->dev = dev`, for the files that the code at the start has made -/
  | device (p : Nat) (path : Str) (dev : Fat.Dev)
  /-- `dp->head = fs`, for `/dev/vda2` and at the end of `syscallMount` -/
  | mount (p : Nat) (path : Str) (k : Nat)
  /-- a call of the file table alone -/
  | files (a : Files.Act)

def Act.caller : Act → Nat
  | .openAt p _ _ _ _ | .mkdirAt p _ _ _ | .unlinkAt p _ _ | .linkAt p _ _ _ _ _ | .chdir p _ | .read p _ _
  | .write p _ _ _ | .exec p _ _ _ _ | .fork p _ | .exit p | .create p _ _ _ | .device p _ _ | .mount p _ _ => p
  | .files a => a.caller

def step (n : Nat) (s : Sys) : Act → Option Sys
  | .openAt p fd path flags clus => syscallOpenAt n s p fd path flags clus
  | .mkdirAt p fd path clus => syscallMakeDirAt n s p fd path clus
  | .unlinkAt p fd path => syscallUnlinkAt n s p fd path
  | .linkAt p oldFd oldPath newFd newPath clus => syscallLinkAt n s p oldFd oldPath newFd newPath clus
  | .chdir p path => syscallChangeDir n s p path
  | .read p fd n => some (syscallRead s p fd n)
  | .write p fd bytes clus => some (syscallWrite s p fd bytes clus)
  | .exec p path maps loaded clus => exec n s p path maps loaded clus
  | .fork p child => processFork s p child
  | .exit p => processFree s p
  | .create p path type clus => makeFile n s p path type clus
  | .device p path dev => setEntry n s p path fun d => { d with dev := dev }
  | .mount p path k => setEntry n s p path fun d => { d with head := some k }
  | .files a => (Files.exec s.files a).toOption.map fun r => { s with files := r.2 }

/-- A live process makes a call; a fork finds a free process. -/
def Enabled (s : Sys) (a : Act) : Prop :=
  s.files.live a.caller = true ∧
    match a with
    | .fork _ child => s.files.live child = false
    | .files a => a.Tabular
    | _ => True

def Step (s : Sys) (a : Act) (s' : Sys) : Prop := Enabled s a ∧ ∃ n, step n s a = some s'

/-- The first process, in the root of the volume that has been loaded. -/
def start (t : Fs) : Sys where
  files := Files.init 0 fun _ => false
  fs := t
  cwd := fun _ => ⟨.root 0, 0⟩
  execFile := fun _ => none
  segments := fun _ => []
  gen := fun _ => 0
  opened := fun _ => 0

/-- A volume has been loaded into an empty tree.  The files and directories that the first thread makes then, before it
enters user mode, are the first acts of a run. -/
def Started (s : Sys) : Prop := ∃ n vol t, fatInit n vol 0 boot = .ok t ∧ s = start t

/-! ## References -/

/-- The places that refer to a file.  `execFile` counts for a process that has ended too, as the next process in its
place has it again. -/
inductive Refers (s : Sys) : FileId → Prop
  | file {f e : Nat} (hopen : 0 < (s.files.file f).ref) (hentry : (s.files.file f).type = .entry)
      (hep : (s.files.file f).ep = some e) : Refers s ⟨ofAddr e, s.opened f⟩
  | cwd {p : Nat} (hlive : s.files.live p = true) : Refers s (s.cwd p)
  | execFile {p : Nat} {file : FileId} (hexec : s.execFile p = some file) : Refers s file
  | segment {p : Nat} {file : FileId} (hlive : s.files.live p = true) (hmap : file ∈ s.segments p) : Refers s file

/-- The dirent is on no free list. -/
def inUse (t : Fs) : Ptr → Bool
  | .dirent i => !isFree t i
  | .root _ => true

/-- The dirent of a file, while it holds the file. -/
def contents (s : Sys) (file : FileId) : Option Dirent :=
  if s.fileOf file.ptr = file ∧ inUse s.fs file.ptr = true then some (s.fs.dirent file.ptr) else none

/-- Each reference is to a dirent in use that has not been allocated again since the reference was taken; what is
read from an open file are bytes of the file that was opened, and what is written to it changes no other file. -/
structure Attached (s : Sys) : Prop where
  notFree : ∀ file, Refers s file → ∀ i, file.ptr = .dirent i → ¬ s.fs.Free i
  same : ∀ file, Refers s file → s.fileOf file.ptr = file
  read : ∀ f e, 0 < (s.files.file f).ref → (s.files.file f).type = .entry → (s.files.file f).ep = some e →
    ∃ d, contents s ⟨ofAddr e, s.opened f⟩ = some d ∧
      (∀ n, (fileread s f n).1 = if (s.files.file f).readable then eread d (s.files.file f).off n else []) ∧
      ∀ off n, pread s f off n = some (eread d off n)
  write : ∀ f e bytes clus, 0 < (s.files.file f).ref → (s.files.file f).type = .entry →
    (s.files.file f).ep = some e → ∀ file, file ≠ ⟨ofAddr e, s.opened f⟩ →
      contents (filewrite s f bytes clus) file = contents s file

end Open
end OsRiscv
