import OsRiscv.Fat.Volume
import OsRiscv.Kernel.Basic
import OsRiscv.Lib.Linked

/-!
# Model — the directory tree in memory

`Dirent.c`, and the functions of `Fat.c` and `Sysfile.c` that read and change the tree: `dirlookup`,
`lookup_path` with the links it follows, `create`, `ealloc`, `eremove`, `getAbsolutePath`, `do_linkat` and
`do_unlinkat`.

A pointer to a `Dirent` points into `dirents` or to the root of an element of `fileSystem`.  The bytes of a
file are a function of the offset, as `Fat.ByteFile` proves of `eread`, `ewrite` and `etrunc`; the clusters
that hold them, and the panic when there are none left, are in `Fat`.  A cluster that is allocated is an
argument.  Strings are without their final 0.

Lookup and links call each other, so the recursion has fuel; `Stop.fuel` means that it has not ended yet.
-/

namespace OsRiscv
namespace Tree

open Lib

abbrev Str := List UInt8

def direntNum : Nat := 8192
def atFdcwd : Int := -100
def dtLnk : Nat := 10
def attrCharacterDevice : BitVec 8 := 0x80

/-- the characters `/` and `.` -/
def slash : UInt8 := 47
def dot : UInt8 := 46

inductive Ptr
  | dirent (i : Nat)
  | root (k : Nat)
  deriving DecidableEq, Repr

/-- `struct Dirent` -/
structure Dirent where
  filename : Str
  /-- `attribute`, a word of Lean -/
  attr : BitVec 8
  firstClus : Nat
  fileSize : Nat
  /-- the bytes in the clusters of the file -/
  data : Nat → UInt8
  ntRes : Nat
  fileSystem : Nat
  dev : Fat.Dev
  head : Option Nat
  off : Nat
  parent : Option Ptr
  nextBrother : Option Nat
  firstChild : Option Nat

structure Fs where
  dirent : Ptr → Dirent
  direntHead : Option Nat
  rootFileSystem : Nat

/-- What the lookup needs of `myProcess()`: `cwd`, and for each open descriptor the `ep` of its file. -/
structure Ctx where
  cwd : Ptr
  ofile : Nat → Option (Option Ptr)

/-- Why a call does not return. -/
inductive Stop
  | assertion
  | notDir
  | nullPointer
  | undefined
  | fuel
  deriving DecidableEq, Repr

namespace Fs

def set (t : Fs) (p : Ptr) (d : Dirent) : Fs := { t with dirent := Function.update t.dirent p d }

def next (t : Fs) (i : Nat) : Option Nat := (t.dirent (.dirent i)).nextBrother

end Fs

namespace Dirent

def isDir (d : Dirent) : Bool := d.attr &&& Fat.attrDirectory ≠ 0

def isLink (d : Dirent) : Bool := d.ntRes = dtLnk

end Dirent

/-! ## Contents -/

/-- The bytes that `eread` copies to its destination. -/
def eread (d : Dirent) (off n : Nat) : List UInt8 :=
  match d.dev with
  | .zero => List.replicate n 0
  | .osrelease => [0x31, 0x30, 0x2e, 0x32, 0x2e, 0x30, 0]
  | _ =>
    if off > d.fileSize ∨ (off + n) % 2 ^ 32 < off ∨ d.isDir then []
    else slice d.data off (min n (d.fileSize - off))

/-- `clus` is the cluster that an empty file gets. -/
def ewrite (d : Dirent) (off : Nat) (bytes : List UInt8) (clus : Nat) : Int × Dirent :=
  let n := bytes.length
  if d.dev = .none then
    (n, d)
  else if (off + n) % 2 ^ 32 < off ∨ off + n > 0xffffffff ∨ d.attr &&& Fat.attrReadOnly ≠ 0 then
    (-1, d)
  else
    (n, { d with
      firstClus := if d.firstClus = 0 then clus else d.firstClus
      data := overlay d.data off bytes
      fileSize := if n > 0 then max d.fileSize (off + n) else d.fileSize })

def etrunc (d : Dirent) : Dirent := { d with fileSize := 0, firstClus := 0, data := fun _ => 0 }

/-! ## The list of free dirents -/

def direntAlloc (t : Fs) : Except Stop (Nat × Fs) :=
  match t.direntHead with
  | none => .error .assertion
  | some i => .ok (i, { t with direntHead := t.next i })

def direntFree (t : Fs) (i : Nat) : Fs :=
  { t.set (.dirent i) { t.dirent (.dirent i) with nextBrother := t.direntHead } with direntHead := some i }

/-! ## Paths -/

/-- `strncmp(a, b, FAT32_MAX_FILENAME) == 0` -/
def sameName (a b : Str) : Bool := a.take fat32MaxFilename = b.take fat32MaxFilename

def dirlookup (t : Fs) (dp : Ptr) (filename : Str) : Except Stop (Option Ptr) :=
  let d := t.dirent dp
  if d.isDir = false then
    .error .notDir
  else if filename = [dot] then
    .ok (some dp)
  else if filename = [dot, dot] then
    if dp = .root d.fileSystem then .ok (some (.root d.fileSystem)) else .ok d.parent
  else
    -- a list with more elements than there are dirents does not end
    match search t.next (fun i => sameName (t.dirent (.dirent i)).filename filename) (direntNum + 1)
        d.firstChild with
    | some r => .ok (r.map Ptr.dirent)
    | none => .error .fuel

/-- The next element of a path and the rest, without the slashes between them. -/
def skipelem (path : Str) : Option (Str × Str) :=
  let path := path.dropWhile (· = slash)
  if path = [] then
    none
  else
    some ((path.takeWhile (· ≠ slash)).take fat32MaxFilename,
      (path.dropWhile (· ≠ slash)).dropWhile (· = slash))

def elemsLoop : Nat → Str → List Str
  | 0, _ => []
  | n + 1, path =>
    match skipelem path with
    | none => []
    | some (name, rest) => name :: elemsLoop n rest

/-- The names that the loop over `skipelem` goes through; each is at least one byte of the path. -/
def elems (path : Str) : List Str := elemsLoop path.length path

/-- The text that `eread` leaves in the buffer of `jumpToLinkDirent`.  Without a 0 among the bytes that
were read it has no defined end. -/
def readLink (d : Dirent) : Except Stop Str :=
  let bytes := eread d 0 fat32MaxFilename
  if 0 ∈ bytes then .ok (bytes.takeWhile (· ≠ 0)) else .error .undefined

/-- Where `lookup_path` starts, unless it returns NULL at once. -/
def startDirent (t : Fs) (c : Ctx) (fd : Int) (path : Str) : Option (Option Ptr) :=
  if path.head? ≠ some slash ∧ fd ≠ atFdcwd ∧ 0 ≤ fd ∧ fd < nofile then
    c.ofile fd.toNat
  else if path.head? = some slash then
    some (some (.root t.rootFileSystem))
  else if path ≠ [] ∧ fd = atFdcwd then
    some (some c.cwd)
  else
    none

/-- How the loop of `lookup_path` ends: the path is used up, or the function returns. -/
inductive Walked
  | ended (entry : Option Ptr)
  | returned (entry : Option Ptr) (name : Str)
  deriving DecidableEq, Repr

section lookup

/- `jump` is `jumpToLinkDirent`, with the entries it came through. -/
variable (t : Fs) (c : Ctx) (jump : Option Ptr → Except Stop (Ptr × List Ptr))

/-- Test for a directory, and cross a mount point. -/
def cross (p : Ptr) : Option Ptr × List Ptr :=
  if (t.dirent p).isDir = false then
    (none, [])
  else
    match (t.dirent p).head with
    | some k => (some (.root k), [.root k])
    | none => (some p, [])

/-- The first part of the loop body: follow links, test for a directory, cross a mount point. -/
def enter (entry : Option Ptr) : Except Stop (Option Ptr × List Ptr) := do
  let (p, via) ← jump entry
  return ((cross t p).1, via ++ (cross t p).2)

/-- The loop of `lookup_path`, and the entries it came through. -/
def lookupLoop (parent : Bool) : Option Ptr → List Str → Except Stop (Walked × List Ptr)
  | entry, [] => .ok (.ended entry, [])
  | entry, name :: names => do
    let (dir, via) ← enter t jump entry
    match dir with
    | none => return (.returned none name, via)
    | some dir =>
      if parent = true ∧ names = [] then
        return (.returned (some dir) name, via)
      else
        match ← dirlookup t dir name with
        | none => return (.returned none name, via)
        | some found => do
            let (r, more) ← lookupLoop parent (some found) names
            return (r, via ++ more)

/-- `lookup_path`: the entry, the name for `enameparent`, and the entries it came through. -/
def lookupPath (fd : Int) (path : Str) (parent follow : Bool) : Except Stop (Option Ptr × Str × List Ptr) :=
  match startDirent t c fd path with
  | none => .ok (none, [], [])
  | some entry => do
      let (r, via) ← lookupLoop t jump parent entry (elems path)
      match r with
      | .returned entry name => return (entry, name, via)
      | .ended entry =>
        if follow then
          let (p, more) ← jump entry
          return (if parent then none else some p, [], via ++ more)
        else
          return (if parent then none else entry, [], via ++ entry.toList)

end lookup

def jumpToLinkDirent (t : Fs) (c : Ctx) : Nat → Option Ptr → Except Stop (Ptr × List Ptr)
  | 0, _ => .error .fuel
  | _ + 1, none => .error .assertion
  | n + 1, some link =>
    if (t.dirent link).isLink then do
      let buf ← readLink (t.dirent link)
      let (p, _, via) ← lookupPath t c (jumpToLinkDirent t c n) atFdcwd buf false true
      let (q, more) ← jumpToLinkDirent t c n p
      return (q, link :: via ++ more)
    else
      .ok (link, [link])

/-- `ename`, with the entries that the lookup came through. -/
def ename (n : Nat) (t : Fs) (c : Ctx) (fd : Int) (path : Str) (jump : Bool) :
    Except Stop (Option Ptr × List Ptr) := do
  let (p, _, via) ← lookupPath t c (jumpToLinkDirent t c n) fd path false jump
  return (p, via)

def enameparent (n : Nat) (t : Fs) (c : Ctx) (fd : Int) (path : Str) : Except Stop (Option Ptr × Str) := do
  let (p, name, _) ← lookupPath t c (jumpToLinkDirent t c n) fd path true true
  return (p, name)

/-! ## Creating -/

/-- The types of `create`; `other` is any other number. -/
inductive FileKind
  | dir
  | file
  | link
  | char
  | other
  deriving DecidableEq, Repr

/-- The attribute that `create` passes to `ealloc`; `O_RDONLY` is 0, so `mode & O_RDONLY` never holds. -/
def attrOf (type : FileKind) : BitVec 8 :=
  match type with
  | .dir => Fat.attrDirectory
  | .link => Fat.attrLink
  | .char => attrCharacterDevice
  | _ => 0

/-- The fields that `ealloc` writes in a dirent; the others keep what they held.  `clus` is the cluster that a
directory gets. -/
def initDirent (d : Dirent) (dp : Ptr) (parent : Dirent) (name : Str) (attr : BitVec 8) (clus : Nat) : Dirent :=
  { d with
    attr := (if attr = Fat.attrLink then 0 else attr) |||
      (if attr = Fat.attrDirectory then Fat.attrDirectory else Fat.attrArchive)
    ntRes := if attr = Fat.attrLink then dtLnk else 0
    fileSize := 0
    firstClus := if attr = Fat.attrDirectory then clus else 0
    data := fun _ => 0
    parent := some dp
    nextBrother := parent.firstChild
    fileSystem := parent.fileSystem
    filename := name.take fat32MaxFilename }

def ealloc (t : Fs) (dp : Ptr) (name : Str) (attr : BitVec 8) (clus : Nat) : Except Stop (Ptr × Fs) := do
  if (t.dirent dp).isDir = false then
    .error .notDir
  else
    match ← dirlookup t dp name with
    | some ep => return (ep, t)
    | none =>
      let (i, t) ← direntAlloc t
      let t := t.set (.dirent i) (initDirent (t.dirent (.dirent i)) dp (t.dirent dp) name attr clus)
      return (.dirent i, t.set dp { t.dirent dp with firstChild := some i })

def create (n : Nat) (t : Fs) (c : Ctx) (fd : Int) (path : Str) (type : FileKind) (clus : Nat) :
    Except Stop (Option Ptr × Fs) := do
  let (dp, name) ← enameparent n t c fd path
  match dp with
  | none => return (none, t)
  | some dp => do
      let (ep, t) ← ealloc t dp name (attrOf type) clus
      if (type = .dir ∧ (t.dirent ep).isDir = false) ∨ (type = .file ∧ (t.dirent ep).isDir = true) then
        return (none, t)
      else
        return (some ep, t)

/-! ## Removing -/

/-- Take `i` out of the list of its parent.  The loop reads `nextBrother` of the first child, so a parent
without children is a null pointer. -/
def unlinkChild (t : Fs) (dp : Ptr) (i : Nat) : Except Stop Fs :=
  let next := (t.dirent (.dirent i)).nextBrother
  match (t.dirent dp).firstChild with
  | none => .error .nullPointer
  | some first =>
    if first = i then
      .ok (t.set dp { t.dirent dp with firstChild := next })
    else
      match before t.next i (direntNum + 1) first with
      | none => .error .fuel
      | some none => .ok t
      | some (some j) => .ok (t.set (.dirent j) { t.dirent (.dirent j) with nextBrother := next })

/-- `eremove`; a root has no parent. -/
def eremove (t : Fs) (entry : Ptr) : Except Stop Fs := do
  match entry, (t.dirent entry).parent with
  | .dirent i, some dp =>
    let t ← unlinkChild t dp i
    return direntFree t i
  | .root _, some _ => .error .undefined
  | _, none => .error .nullPointer

def doUnlinkat (n : Nat) (t : Fs) (c : Ctx) (fd : Int) (path : Str) : Except Stop (Int × Fs) := do
  let (entry, _) ← ename n t c fd path true
  match entry with
  | none => return (-1, t)
  | some entry => do
      let t := t.set entry { etrunc (t.dirent entry) with ntRes := 0 }
      let t ← eremove t entry
      return (0, t)

/-! ## Links -/

/-- The loop of `getAbsolutePath`; `room` is the number of bytes in front of `s`, the path so far.  Each
round needs at least one byte, so there are at most `room + 1` of them. -/
def absoluteLoop (t : Fs) : Nat → Nat → Ptr → Str → Option Str
  | 0, _, _, _ => none
  | n + 1, room, d, s =>
    match (t.dirent d).parent with
    | none => some s
    | some dp =>
      let filename := (t.dirent d).filename
      if room ≤ filename.length then none
      else absoluteLoop t n (room - filename.length - 1) dp (slash :: filename ++ s)

/-- `getAbsolutePath` with `maxLen = FAT32_MAX_PATH`; nothing stands for -1. -/
def getAbsolutePath (t : Fs) (d : Ptr) : Option Str :=
  match (t.dirent d).parent with
  | none => some [slash]
  | some _ => absoluteLoop t fat32MaxPath (fat32MaxPath - 1) d []

/-- `do_linkat` -/
def doLinkat (n : Nat) (t : Fs) (c : Ctx) (oldFd : Int) (oldPath : Str) (newFd : Int) (newPath : Str)
    (clus : Nat) : Except Stop (Int × Fs) := do
  let (entry, _) ← ename n t c oldFd oldPath true
  match entry with
  | none => return (-1, t)
  | some entry => do
      let (target, t) ← create n t c newFd newPath .file clus
      match target with
      | none => return (-1, t)
      | some target =>
        match getAbsolutePath t entry with
        | none => return (-1, ← eremove t target)
        | some buf =>
          let (r, d) := ewrite (t.dirent target) 0 (buf ++ [0]) clus
          let t := t.set target d
          if r ≠ buf.length + 1 then
            return (-1, ← eremove t target)
          else
            return (0, t.set target { t.dirent target with ntRes := dtLnk })

end Tree
end OsRiscv
