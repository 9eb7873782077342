import OsRiscv.Files.Table
import OsRiscv.Lib.Trace
import OsRiscv.Lib.Word
import OsRiscv.Tree.Model

/-!
# Checks — what system calls do with a descriptor

The part of each call that goes from a descriptor to the `File` and to the field of it that the call uses, with a log of
the accesses: to `ofile`, through a pointer to a `File`, and to the fields `ep`, `pipe` and `socket`, which belong to
one type of file each.  What a call does with the field is in other models; here it is the result `Rest`.
-/

namespace OsRiscv
namespace Descriptor

open Lib Files

/-- The file table, and `fileDescription.hard` of each process. -/
structure Sys where
  files : Files.Sys
  hard : Nat → Nat

inductive Access
  | slot (i : Int)
  | file (f : Option Nat)
  | ep (type : FileType)
  | pipe (type : FileType)
  | socket (type : FileType)

/-- The access is to a slot of the table, to a file, or to the field of the type of the file. -/
def Access.Valid : Access → Prop
  | .slot i => 0 ≤ i ∧ i < nofile
  | .file f => f ≠ none
  | .ep type => type = .entry
  | .pipe type => type = .pipe
  | .socket type => type = .socket

inductive Stop
  | wildIndex
  | nullPointer
  | panic
  deriving DecidableEq, Repr

abbrev Op (α : Type) := Trace Access Stop α

/-- What the rest of a call returns, and leaves behind. -/
structure Rest where
  result : Int
  after : Sys

abbrev Done := Int × Sys

def Rest.done (k : Rest) : Done := (k.result, k.after)

/-! ## Accesses -/

/-- `myProcess()->ofile[i]` -/
def ofile (s : Sys) (p : Nat) (i : Int) : Op (Option Nat) := do
  Trace.emit (.slot i)
  if 0 ≤ i ∧ i < nofile then return s.files.ofile (p, i.toNat) else Trace.stop .wildIndex

def deref (s : Sys) (f : Option Nat) : Op File := do
  Trace.emit (.file f)
  match f with
  | some f => return s.files.file f
  | none => Trace.stop .nullPointer

/-- `fd < 0 || fd >= NOFILE || (f = myProcess()->ofile[fd]) == NULL` -/
def checkFd (s : Sys) (p : Nat) (fd : Int) : Op (Option Nat) :=
  if fd < 0 ∨ nofile ≤ fd then return none else ofile s p fd

/-! ## `fdalloc` and `fork` -/

/-- The loop of `fdalloc` from `fd` on. -/
def fdallocLoop (s : Sys) (p : Nat) : Nat → Nat → Op (Option Nat)
  | 0, _ => return none
  | fuel + 1, fd =>
    if s.hard p ≤ fd then
      return none
    else do
      let f ← ofile s p fd
      match f with
      | none => return some fd
      | some _ => fdallocLoop s p fuel (fd + 1)

/-- `fdalloc`; at `NOFILE` the loop is outside of the table. -/
def fdalloc (s : Sys) (p : Nat) : Op (Option Nat) := fdallocLoop s p (nofile + 1) 0

/-- The loop of `processFork` that copies the descriptors; `hard` is the limit of the child. -/
def copyLoop (s : Sys) (p child hard : Nat) : Nat → Nat → Op Unit
  | 0, _ => return ()
  | fuel + 1, i =>
    if hard ≤ i then
      return ()
    else do
      let f ← ofile s p i
      match f with
      | none => copyLoop s p child hard fuel (i + 1)
      | some _ => do
          let f ← ofile s p i
          let _ ← deref s f
          let _ ← ofile s child i
          copyLoop s p child hard fuel (i + 1)

/-- `processFork`; `processSetup` has set the limit of the child to `NOFILE`. -/
def processFork (s : Sys) (p child : Nat) (k : Rest) : Op Done := do
  copyLoop s p child nofile (nofile + 1) 0
  return k.done

/-! ## Calls with a descriptor -/

/-- The switch of `fileread` and `filewrite` over the type. -/
def useFile (s : Sys) (file : File) (allowed : Bool) (k : Rest) : Op Done :=
  if allowed = false then
    return (-1, s)
  else
    match file.type with
    | .pipe => do
        Trace.emit (.pipe file.type)
        return k.done
    | .device => return k.done
    | .entry => do
        Trace.emit (.ep file.type)
        return k.done
    | .socket => do
        Trace.emit (.socket file.type)
        return k.done
    | .none => Trace.stop .panic

/-- `syscallRead` and `syscallWrite` differ in the flag that `fileread` and `filewrite` test. -/
def transfer (allowed : File → Bool) (s : Sys) (p : Nat) (fd len : Int) (k : Rest) : Op Done := do
  match ← checkFd s p fd with
  | none => return (-1, s)
  | some f =>
    if len < 0 then
      return (-1, s)
    else do
      let file ← deref s (some f)
      useFile s file (allowed file) k

def syscallRead : Sys → Nat → Int → Int → Rest → Op Done := transfer File.readable

def syscallWrite : Sys → Nat → Int → Int → Rest → Op Done := transfer File.writable

/-- The descriptor is used as it is. -/
def syscallPRead (s : Sys) (p : Nat) (fd : Int) (k : Rest) : Op Done := do
  match ← ofile s p fd with
  | none => return (-1, s)
  | some f => do
      let file ← deref s (some f)
      Trace.emit (.ep file.type)
      return k.done

/-- Only `SEEK_END` uses `ep`. -/
def syscallLSeek (s : Sys) (p : Nat) (fd mode : Int) (k : Rest) : Op Done := do
  match ← checkFd s p fd with
  | none => return (-1, s)
  | some f => do
      let file ← deref s (some f)
      if mode = 0 ∨ mode = 1 then
        return k.done
      else if mode = seekEnd then do
        Trace.emit (.ep file.type)
        return k.done
      else
        return (-1, s)

/-- The beginning of `bindSocket`, `accept` and `connect`: the type is asserted. -/
def socketOf (s : Sys) (p : Nat) (fd : Int) : Op Unit := do
  let f ← ofile s p fd
  let file ← deref s f
  if file.type ≠ .socket then Trace.stop .panic else Trace.emit (.socket file.type)

def bindSocket (s : Sys) (p : Nat) (fd : Int) (k : Rest) : Op Done := do
  socketOf s p fd
  return k.done

def connect (s : Sys) (p : Nat) (fd : Int) (k : Rest) : Op Done := do
  socketOf s p fd
  return k.done

/-- `listen` panics if there is no file. -/
def listen (s : Sys) (p : Nat) (fd : Int) (k : Rest) : Op Done := do
  match ← ofile s p fd with
  | none => Trace.stop .panic
  | some f => do
      let file ← deref s (some f)
      if file.type ≠ .socket then
        Trace.stop .panic
      else do
        Trace.emit (.socket file.type)
        return k.done

/-- `accept`; `pending` says that there is a pending connection, and a free socket and `File` for it.  With a
connection but without these two, which is left out, it does not come to `fdalloc`. -/
def accept (s : Sys) (p : Nat) (fd : Int) (pending : Bool) (k : Rest) : Op Done := do
  socketOf s p fd
  if pending = false then
    return (-11, s)
  else do
    let _ ← fdalloc s p
    return k.done

/-- `myProcess()->ofile[tf->a0]->socket` in `syscallSendTo` and `syscallReceiveFrom`: the index has 64 bits, and the type
is not looked at. -/
def syscallReceiveFrom (s : Sys) (p a0 : Nat) (k : Rest) : Op Done := do
  let f ← ofile s p a0
  let file ← deref s f
  Trace.emit (.socket file.type)
  return k.done

/-- `syscallSendTo` asserts the length of the address before. -/
def syscallSendTo (s : Sys) (p a0 a5 : Nat) (k : Rest) : Op Done :=
  if a5 ≠ 32 then Trace.stop .panic else syscallReceiveFrom s p a0 k

/-- Where `lookup_path` begins: nothing if it returns NULL at once. -/
def lookupStart (s : Sys) (p : Nat) (fd : Int) (path : Tree.Str) : Op Bool :=
  if path.head? ≠ some Tree.slash ∧ fd ≠ Tree.atFdcwd ∧ 0 ≤ fd ∧ fd < nofile then do
    match ← ofile s p fd with
    | none => return false
    | some _ => do
        let f ← ofile s p fd
        let file ← deref s f
        Trace.emit (.ep file.type)
        return true
  else if path.head? = some Tree.slash then
    return true
  else if path ≠ [] ∧ fd = Tree.atFdcwd then
    return true
  else
    return false

/-- `syscallOpenAt`; `creating` is the flag `O_CREATE`, `found` says whether the rest of the lookup finds an entry that
can be opened and there is a free `File` for it. -/
def syscallOpenAt (s : Sys) (p : Nat) (fd : Int) (path : Tree.Str) (creating found : Bool) (k : Rest) : Op Done := do
  let started ← lookupStart s p fd path
  if started = false then
    return (if creating then -1 else -2, s)
  else if found = false then
    return k.done
  else do
    let _ ← fdalloc s p
    return k.done

end Descriptor
end OsRiscv
