import OsRiscv.Kernel.Basic
import OsRiscv.Lib.Call
import OsRiscv.Lib.Update

/-!
# Table — open files, descriptors and mounts

The file table of `kernel/fs/File.c` and the system calls of `kernel/fs/Sysfile.c`, `Socket.c`,
`Pipe.c` and of process creation and exit that take or drop references to a `File`.

Files, dirents, pipes, sockets and file systems are named by their index in their array, processes
by their index in `processes`.  What a call reads from elsewhere (the result of a path lookup,
whether a connection is pending, whether `copyout` succeeds) is an argument of the call.

`closes` is a history variable: the files for which the current call ran `pipeClose` or
`socketFree`.
-/

namespace OsRiscv
namespace Files

open Function (update)
open Lib

@[irreducible] def nfile : Nat := 512
@[irreducible] def fileSystemNumber : Nat := 32
@[irreducible] def maxPipe : Nat := 128
@[irreducible] def socketCount : Nat := 128
def ndev : Int := 4

inductive FileType
  | none
  | pipe
  | entry
  | device
  | socket
  deriving DecidableEq, Repr

/-- `struct File`, without the directory cursor. -/
structure File where
  type : FileType
  ref : Nat
  readable : Bool
  writable : Bool
  pipe : Nat
  ep : Option Nat
  socket : Nat
  off : Nat
  major : Int

/-- `struct FileSystem`, the fields that mounting uses. -/
structure FileSystem where
  valid : Bool
  image : Option Nat
  next : Option Nat

/-- A pipe: its bit in `pipeBitMap` and its two ends. -/
structure PipeEnds where
  used : Bool
  readopen : Bool
  writeopen : Bool

structure Sys where
  file : Nat → File
  /-- `processes[p].ofile[fd]` -/
  ofile : Nat × Nat → Option Nat
  live : Nat → Bool
  fileSystem : Nat → FileSystem
  /-- `dirents[i].head` -/
  head : Nat → Option Nat
  pipe : Nat → PipeEnds
  socketUsed : Nat → Bool
  closes : List Nat

inductive Panic
  | filedup
  | fileclose
  | noPipe
  | noSocket
  | noFile
  | nullPointer
  | assertion
  | createFlag
  deriving DecidableEq, Repr

abbrev KCall := Call Sys Panic

def setFile (f : Nat) (v : File) : KCall Unit :=
  Call.modify fun s => { s with file := update s.file f v }

def setSlot (p fd : Nat) (v : Option Nat) : KCall Unit :=
  Call.modify fun s => { s with ofile := update s.ofile (p, fd) v }

/-! ## `File.c` -/

def filealloc : KCall (Option Nat) := do
  let s ← Call.get
  match (List.range nfile).find? fun f => (s.file f).ref = 0 with
  | some f =>
    setFile f { s.file f with ref := 1 }
    return some f
  | none => return none

def filedup (f : Nat) : KCall Unit := do
  let s ← Call.get
  if (s.file f).ref < 1 then
    Call.panic .filedup
  else
    setFile f { s.file f with ref := (s.file f).ref + 1 }

def pipeClose (pi : Nat) (writable : Bool) : KCall Unit := do
  let s ← Call.get
  let ends := if writable then { s.pipe pi with writeopen := false }
    else { s.pipe pi with readopen := false }
  -- `pipeFree` once both ends are closed
  let ends := if ends.readopen = false ∧ ends.writeopen = false then { ends with used := false } else ends
  Call.modify fun s => { s with pipe := update s.pipe pi ends }

def socketFree (i : Nat) : KCall Unit :=
  Call.modify fun s => { s with socketUsed := update s.socketUsed i false }

/-- The history of `pipeClose` and `socketFree`. -/
def noteClose (f : Nat) : KCall Unit :=
  Call.modify fun s => { s with closes := s.closes ++ [f] }

def fileclose (f : Nat) : KCall Unit := do
  let s ← Call.get
  let ff := s.file f
  if ff.ref < 1 then
    Call.panic .fileclose
  else if 0 < ff.ref - 1 then
    setFile f { ff with ref := ff.ref - 1 }
  else do
    setFile f { ff with ref := 0, type := .none }
    match ff.type with
    | .pipe => do
        noteClose f
        pipeClose ff.pipe ff.writable
    | .socket => do
        noteClose f
        socketFree ff.socket
    | _ => pure ()

/-! ## Descriptors -/

/-- The check at the start of most calls: the file behind a descriptor of the process. -/
def argfd (s : Sys) (p : Nat) (fd : Int) : Option Nat :=
  if fd < 0 ∨ (nofile : Int) ≤ fd then none else s.ofile (p, fd.toNat)

/-- `fdalloc`; `none` is the result -1.  The loop ends at `fileDescription.hard`, which is `NOFILE` here, as
`processSetup` sets it; `Descriptor.Checks` has other limits. -/
def fdalloc (p f : Nat) : KCall (Option Nat) := do
  let s ← Call.get
  match (List.range nofile).find? fun fd => s.ofile (p, fd) = none with
  | some fd =>
    setSlot p fd (some f)
    return some fd
  | none => return none

def syscallDup (p : Nat) (fd : Int) : KCall Int := do
  let s ← Call.get
  match argfd s p fd with
  | none => return -1
  | some f =>
    match ← fdalloc p f with
    | none => return -24
    | some fd =>
      filedup f
      return fd

def syscallDupAndSet (p : Nat) (fd fdnew : Int) : KCall Int := do
  let s ← Call.get
  match argfd s p fd with
  | none => return -1
  | some f =>
    if fdnew < 0 ∨ (nofile : Int) ≤ fdnew then
      return -1
    else do
      match s.ofile (p, fdnew.toNat) with
      | some f2 => fileclose f2
      | none => pure ()
      setSlot p fdnew.toNat (some f)
      filedup f
      return fdnew

/-- `FCNTL_DUPFD_CLOEXEC` -/
def dupfdCloexec : Nat := 1030

def syscall_fcntl (p : Nat) (fd : Int) (cmd : Nat) : KCall Int := do
  let s ← Call.get
  match argfd s p fd with
  | none => return -1
  | some f =>
    if cmd = 1 then return 1
    else if cmd = 2 then return 0
    else if cmd = 3 then return 0o4000
    else if cmd = dupfdCloexec then do
      -- the result of `fdalloc` is not checked before the reference is taken
      let fd ← fdalloc p f
      filedup f
      return match fd with
        | some fd => fd
        | none => -1
    else if cmd = 4 then return 0
    else Call.panic .assertion

def syscallClose (p : Nat) (fd : Int) : KCall Int := do
  let s ← Call.get
  match argfd s p fd with
  | none => return -1
  | some f =>
    setSlot p fd.toNat none
    fileclose f
    return 0

/-! ## Calls that create files -/

/-- `filealloc` and `fdalloc` as `open` and `dev` combine them: on failure the file is closed. -/
def allocWithFd (p : Nat) : KCall (Option (Nat × Nat)) := do
  match ← filealloc with
  | none => return none
  | some f =>
    match ← fdalloc p f with
    | none =>
      fileclose f
      return none
    | some fd => return some (f, fd)

/-- `syscallOpenAt` and `syscallOpen` from the path lookup on: an error code, or the dirent. -/
def syscallOpenAt (p : Nat) (entry : Except Int Nat) (flags fileSize : Nat) : KCall Int :=
  match entry with
  | .error e => return e
  | .ok ep => do
      match ← allocWithFd p with
      | none => return -24
      | some (f, fd) =>
        let s ← Call.get
        setFile f { s.file f with
          type := .entry
          off := if flags &&& 0o2000 ≠ 0 then fileSize else 0
          ep := some ep
          readable := flags &&& 1 = 0
          writable := flags &&& 1 ≠ 0 ∨ flags &&& 2 ≠ 0 }
        return fd

def syscallDevice (p : Nat) (major : Int) (omode : Nat) : KCall Int := do
  if omode &&& 0o100 ≠ 0 then
    Call.panic .createFlag
  else if major < 0 ∨ ndev ≤ major then
    return -1
  else do
    match ← allocWithFd p with
    | none => return -1
    | some (f, fd) =>
      let s ← Call.get
      setFile f { s.file f with
        type := .device
        off := 0
        ep := none
        major := major
        readable := omode &&& 1 = 0
        writable := omode &&& 1 ≠ 0 ∨ omode &&& 2 ≠ 0 }
      return fd

def pipeAlloc : KCall Nat := do
  let s ← Call.get
  match (List.range maxPipe).find? fun i => (s.pipe i).used = false with
  | some i =>
    Call.modify fun s =>
      { s with pipe := update s.pipe i { used := true, readopen := true, writeopen := true } }
    return i
  | none => Call.panic .noPipe

def pipeNew : KCall (Option (Nat × Nat)) := do
  match ← filealloc with
  | none => return none
  | some f0 =>
    match ← filealloc with
    | none =>
      fileclose f0
      return none
    | some f1 =>
      let pi ← pipeAlloc
      let s ← Call.get
      setFile f0 { s.file f0 with type := .pipe, readable := true, writable := false, pipe := pi }
      let s ← Call.get
      setFile f1 { s.file f1 with type := .pipe, readable := false, writable := true, pipe := pi }
      return some (f0, f1)

/-- `syscallPipe`; `copied` says whether both `copyout` calls succeed. -/
def syscallPipe (p : Nat) (copied : Bool) : KCall Int := do
  match ← pipeNew with
  | none => return -1
  | some (rf, wf) =>
    match ← fdalloc p rf with
    | none =>
      fileclose rf
      fileclose wf
      return -1
    | some fd0 =>
      match ← fdalloc p wf with
      | none =>
        setSlot p fd0 none
        fileclose rf
        fileclose wf
        return -1
      | some fd1 =>
        if copied then
          return 0
        else do
          setSlot p fd0 none
          setSlot p fd1 none
          fileclose rf
          fileclose wf
          return -1

def socketAlloc : KCall (Option Nat) := do
  let s ← Call.get
  match (List.range socketCount).find? fun i => s.socketUsed i = false with
  | some i =>
    Call.modify fun s => { s with socketUsed := update s.socketUsed i true }
    return some i
  | none => return none

/-- The end of `createSocket` and `accept`: the file becomes the socket's and gets a descriptor. -/
def installSocket (p f i : Nat) : KCall Int := do
  let s ← Call.get
  setFile f { s.file f with socket := i, type := .socket, readable := true, writable := true }
  return match ← fdalloc p f with
    | some fd => fd
    | none => -1

def createSocket (p : Nat) : KCall Int := do
  let f ← filealloc
  match ← socketAlloc with
  | none => Call.panic .noSocket
  | some i =>
    match f with
    | none => Call.panic .nullPointer
    | some f => installSocket p f i

/-- `accept`; `pending` says whether a connection request is queued. -/
def accept (p : Nat) (sockfd : Int) (pending : Bool) : KCall Int := do
  let s ← Call.get
  match argfd s p sockfd with
  | none => Call.panic .nullPointer
  | some f =>
    if (s.file f).type ≠ .socket then
      Call.panic .assertion
    else if pending = false then
      return -11
    else do
      match ← socketAlloc with
      | none => Call.panic .noSocket
      | some i =>
        match ← filealloc with
        | none => Call.panic .assertion
        | some new => installSocket p new i

/-! ## Mounts -/

def fsAlloc : KCall (Option Nat) := do
  let s ← Call.get
  match (List.range fileSystemNumber).find? fun i => (s.fileSystem i).valid = false with
  | some i =>
    Call.modify fun s => { s with
      fileSystem := update s.fileSystem i { valid := true, image := none, next := none } }
    return some i
  | none => return none

/-- `syscallMount` from the argument checks on: `none` if one fails, else the image's dirent and the
dirent to mount on. -/
def syscallMount (args : Option (Nat × Nat)) (flag : Int) : KCall Int :=
  match args with
  | none => return -1
  | some (ep, dp) => do
      if flag ≠ 0 then
        Call.panic .assertion
      else do
        match ← fsAlloc with
        | none => return -1
        | some fs =>
          match ← filealloc with
          | none => Call.panic .nullPointer
          | some f =>
            let s ← Call.get
            let ff := { s.file f with off := 0, readable := true, writable := true }
            -- an image that is a mount point itself is taken from the file system mounted there
            match s.head ep with
            | some below =>
              match (s.fileSystem below).image with
              | none => Call.panic .nullPointer
              | some g => setFile f { ff with type := (s.file g).type, ep := (s.file g).ep }
            | none => setFile f { ff with type := .entry, ep := some ep }
            Call.modify fun s => { s with
              fileSystem := update s.fileSystem fs
                { s.fileSystem fs with image := some f, next := s.head dp }
              head := update s.head dp (some fs) }
            return 0

def syscallUmount (ep : Option Nat) (flag : Int) : KCall Int := do
  let s ← Call.get
  match ep with
  | none => return -1
  | some ep =>
    if flag ≠ 0 then
      Call.panic .assertion
    else
      match s.head ep with
      | none => return -1
      | some fs =>
        Call.modify fun s => { s with
          fileSystem := update s.fileSystem fs { s.fileSystem fs with valid := false }
          head := update s.head ep (s.fileSystem fs).next }
        return 0

/-! ## Processes -/

/-- One round of the loop over descriptors in `processFork`. -/
def forkSlot (p child fd : Nat) : KCall Unit := do
  let s ← Call.get
  match s.ofile (p, fd) with
  | some f =>
    filedup f
    setSlot child fd (some f)
  | none => pure ()

def processFork (p child : Nat) : KCall Int := do
  Call.modify fun s => { s with live := update s.live child true }
  Call.forEach (forkSlot p child) (List.range nofile)
  return child

/-- One round of the loop over descriptors in `processFree`. -/
def freeSlot (p fd : Nat) : KCall Unit := do
  let s ← Call.get
  match s.ofile (p, fd) with
  | some f =>
    fileclose f
    setSlot p fd none
  | none => pure ()

def processFree (p : Nat) : KCall Int := do
  Call.forEach (freeSlot p) (List.range nofile)
  Call.modify fun s => { s with live := update s.live p false }
  return 0

/-! ## The system -/

inductive Act
  | openAt (p : Nat) (entry : Except Int Nat) (flags fileSize : Nat)
  | dup (p : Nat) (fd : Int)
  | dupAndSet (p : Nat) (fd fdnew : Int)
  | fcntl (p : Nat) (fd : Int) (cmd : Nat)
  | pipe (p : Nat) (copied : Bool)
  | socket (p : Nat)
  | accept (p : Nat) (sockfd : Int) (pending : Bool)
  | device (p : Nat) (major : Int) (omode : Nat)
  | close (p : Nat) (fd : Int)
  | mount (p : Nat) (args : Option (Nat × Nat)) (flag : Int)
  | umount (p : Nat) (ep : Option Nat) (flag : Int)
  | fork (p child : Nat)
  | exit (p : Nat)

/-- The process that makes the call. -/
def Act.caller : Act → Nat
  | .openAt p _ _ _ | .dup p _ | .dupAndSet p _ _ | .fcntl p _ _ | .pipe p _ | .socket p
  | .accept p _ _ | .device p _ _ | .close p _ | .mount p _ _ | .umount p _ _ | .fork p _
  | .exit p => p

def call : Act → KCall Int
  | .openAt p entry flags fileSize => syscallOpenAt p entry flags fileSize
  | .dup p fd => syscallDup p fd
  | .dupAndSet p fd fdnew => syscallDupAndSet p fd fdnew
  | .fcntl p fd cmd => syscall_fcntl p fd cmd
  | .pipe p copied => syscallPipe p copied
  | .socket p => createSocket p
  | .accept p sockfd pending => accept p sockfd pending
  | .device p major omode => syscallDevice p major omode
  | .close p fd => syscallClose p fd
  | .mount _ args flag => syscallMount args flag
  | .umount _ ep flag => syscallUmount ep flag
  | .fork p child => processFork p child
  | .exit p => processFree p

/-- A live process makes a call; a fork finds a free process. -/
def Enabled (s : Sys) (a : Act) : Prop :=
  s.live a.caller = true ∧
    match a with
    | .fork _ child => s.live child = false ∧ child < processTotalNumber
    | _ => True

/-- The call, with the history of closes started anew. -/
def exec (s : Sys) (a : Act) : Outcome Sys Panic Int := call a { s with closes := [] }

/-- Boot: the root file system is mounted without an image (nothing calls `initRootFileSystem`) and
may be the head of some dirents; process `p` is the first one. -/
def init (p : Nat) (rooted : Nat → Bool) : Sys :=
  { file := fun _ =>
      { type := .none, ref := 0, readable := false, writable := false, pipe := 0, ep := none,
        socket := 0, off := 0, major := 0 }
    ofile := fun _ => none
    live := fun q => q == p
    fileSystem := fun i => { valid := i == 0, image := none, next := none }
    head := fun i => if rooted i then some 0 else none
    pipe := fun _ => { used := false, readopen := false, writeopen := false }
    socketUsed := fun _ => false
    closes := [] }

end Files
end OsRiscv
