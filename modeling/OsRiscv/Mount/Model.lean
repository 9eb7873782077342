import OsRiscv.Open.Model

/-!
# Model — mounting an image and unmounting it

`syscallMount` and `syscallUmount` of `Sysfile.c` over the file table of `Files` and the directory tree of `Tree`.
The heads of the dirents are those in the tree, so `head` of the file table is not used here.

What is in the image is an argument, the volume that `fatInit` reads; that its blocks are the bytes of the image file
is in `Image`.  The pages for the cluster bitmap are left out.
-/

namespace OsRiscv
namespace Mount

open Lib OsRiscv.Tree
open Open (addr)

structure Sys where
  files : Files.Sys
  fs : Fs

/-- The strings that `fetchstr` copies, or nothing where it fails.  `data` is left out if its address is 0. -/
structure Args where
  imagePath : Option Str
  mountPath : Option Str
  type : Option Str
  flag : Int
  data : Option (Option Str)

def vfat : Str := [118, 102, 97, 116]

/-- A call of the file table; those that are used here do not panic. -/
def onTable {α : Type} (x : Files.KCall α) (s : Sys) : Except Stop (α × Sys) :=
  match x s.files with
  | .done a files => .ok (a, { s with files := files })
  | .panic _ _ => .error .assertion

/-- `fsAlloc`; the `memset` clears the root too. -/
def fsAlloc (s : Sys) : Except Stop (Option Nat × Sys) := do
  let (k, s) ← onTable Files.fsAlloc s
  match k with
  | none => return (none, s)
  | some k => return (some k, { s with fs := s.fs.set (.root k) zeroDirent })

/-- The fields of the image's file.  If the image is a mount point itself, the file is that of the image mounted
there. -/
def imageFile (s : Sys) (f : Nat) (ep : Ptr) : Except Stop Files.File :=
  let file := { s.files.file f with off := 0, readable := true, writable := true }
  match (s.fs.dirent ep).head with
  | none => .ok { file with type := .entry, ep := some (addr ep) }
  | some below =>
    match (s.files.fileSystem below).image with
    | none => .error .nullPointer
    | some g => .ok { file with type := (s.files.file g).type, ep := (s.files.file g).ep }

def setImage (s : Sys) (k f : Nat) (file : Files.File) : Sys :=
  { s with files := { s.files with
    file := Function.update s.files.file f file
    fileSystem := Function.update s.files.fileSystem k { s.files.fileSystem k with image := some f } } }

/-- `fs->next = dp->head; dp->head = fs` -/
def attach (s : Sys) (k : Nat) (dp : Ptr) : Sys where
  files := { s.files with
    fileSystem := Function.update s.files.fileSystem k
      { s.files.fileSystem k with next := (s.fs.dirent dp).head } }
  fs := s.fs.set dp { s.fs.dirent dp with head := some k }

/-- `syscallMount` from `fsAlloc` on.  The result of `filealloc` is not checked. -/
def mountOn (n : Nat) (s : Sys) (ep dp : Ptr) (vol : Volume) : Except Stop (Int × Sys) := do
  let (k, s) ← fsAlloc s
  match k with
  | none => return (-1, s)
  | some k => do
      let (f, s) ← onTable Files.filealloc s
      match f with
      | none => .error .nullPointer
      | some f => do
          let file ← imageFile s f ep
          let s := setImage s k f file
          let t ← fatInit n vol k s.fs
          return (0, attach { s with fs := t } k dp)

/-- A path argument: nothing if it cannot be fetched or is not found. -/
def entryOf (n : Nat) (s : Sys) (c : Ctx) (path : Option Str) : Except Stop (Option Ptr) :=
  match path with
  | none => .ok none
  | some path => do
      let (entry, _) ← ename n s.fs c atFdcwd path true
      return entry

def syscallMount (n : Nat) (s : Sys) (c : Ctx) (a : Args) (vol : Volume) : Except Stop (Int × Sys) :=
  match a.type with
  | none => .ok (-1, s)
  | some type =>
    if type.take 4 ≠ vfat then
      .ok (-1, s)
    else do
      match ← entryOf n s c a.imagePath with
      | none => return (-1, s)
      | some ep => do
          match ← entryOf n s c a.mountPath with
          | none => return (-1, s)
          | some dp =>
            if a.data = some none then
              return (-1, s)
            else if a.flag ≠ 0 then
              .error .assertion
            else
              mountOn n s ep dp vol

/-- `ep->head->valid = 0; ep->head = ep->head->next` -/
def detach (s : Sys) (k : Nat) (ep : Ptr) : Sys where
  files := { s.files with
    fileSystem := Function.update s.files.fileSystem k { s.files.fileSystem k with valid := false } }
  fs := s.fs.set ep { s.fs.dirent ep with head := (s.files.fileSystem k).next }

def syscallUmount (n : Nat) (s : Sys) (c : Ctx) (mountPath : Option Str) (flag : Int) : Except Stop (Int × Sys) := do
  match ← entryOf n s c mountPath with
  | none => return (-1, s)
  | some ep =>
    if flag ≠ 0 then
      .error .assertion
    else
      match (s.fs.dirent ep).head with
      | none => return (-1, s)
      | some k => return (0, detach s k ep)

/-! ## What is free -/

/-- The number of free entries of the file table. -/
def freeFiles (s : Files.Sys) : Nat := ((Finset.range Files.nfile).filter fun f => (s.file f).ref = 0).card

/-- The free list has `m` dirents. -/
def FreeDirents (t : Fs) (m : Nat) : Prop := ∃ l, Linked t.next t.direntHead l ∧ l.length = m

/-- Everything is as it was before the mount. -/
structure Restored (dp : Ptr) (s s' : Sys) : Prop where
  head : (s'.fs.dirent dp).head = (s.fs.dirent dp).head
  slots : ∀ k, (s'.files.fileSystem k).valid = (s.files.fileSystem k).valid
  dirents : ∀ m, FreeDirents s'.fs m ↔ FreeDirents s.fs m
  files : freeFiles s'.files = freeFiles s.files
  paths : ∀ n c fd path follow, ename n s'.fs c fd path follow = ename n s.fs c fd path follow

end Mount
end OsRiscv
