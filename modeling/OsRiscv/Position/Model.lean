import OsRiscv.Files.Table
import OsRiscv.Lib.Word
import OsRiscv.Tree.Model

/-!
# Model — the position of an open file

`fileread`, `filewrite` and the file part of `do_mmap` of `File.c`, and `syscallLSeek`, `syscallPRead`,
`syscallSendFile` and the end of `syscallOpenAt` of `Sysfile.c`, with the widths of the source: `off` has 32 bits, the
counts and the results of `fileread` and `filewrite` are of type `int`, `lseek` computes with 64 bits.

A count is given by its 32 bits.  The results of pipes, devices and sockets are arguments.
-/

namespace OsRiscv
namespace Position

open Lib OsRiscv.Tree

def oWronly : Nat := 1
def oRdwr : Nat := 2
def oAppend : Nat := 0o2000
def seekSet : Int := 0
def seekCur : Int := 1

structure Sys where
  file : Nat → Files.File
  dirent : Nat → Dirent

namespace Sys

def setFile (s : Sys) (f : Nat) (v : Files.File) : Sys := { s with file := Function.update s.file f v }

def setOff (s : Sys) (f off : Nat) : Sys := s.setFile f { s.file f with off := off }

def setDirent (s : Sys) (ep : Nat) (d : Dirent) : Sys := { s with dirent := Function.update s.dirent ep d }

end Sys

/-! ## `File.c` -/

/-- The result and the bytes that are copied. -/
def fileread (s : Sys) (f n : Nat) (other : Int) : Int × List UInt8 × Sys :=
  let file := s.file f
  if file.readable = false then
    (-1, [], s)
  else
    match file.type, file.ep with
    | .entry, some ep =>
      let bytes := eread (s.dirent ep) file.off n
      let r := int bytes.length
      (r, bytes, if 0 < r then s.setOff f ((file.off + r.toNat) % 2 ^ 32) else s)
    | _, _ => (other, [], s)

def filewrite (s : Sys) (f : Nat) (bytes : List UInt8) (clus : Nat) (other : Int) : Int × Sys :=
  let file := s.file f
  if file.writable = false then
    (-1, s)
  else
    match file.type, file.ep with
    | .entry, some ep =>
      let w := ewrite (s.dirent ep) file.off bytes clus
      let s := s.setDirent ep w.2
      -- `ewrite` returns -1 for an error, and -1 is also the count of 2^32 - 1 bytes
      if int w.1 = int bytes.length then
        (int bytes.length, s.setOff f ((file.off + bytes.length) % 2 ^ 32))
      else
        (-1, s)
    | _, _ => (other, s)

/-- `do_mmap` of a file; `addr` is where the range begins.  Without pages for the range `pageAlloc` panics, and the call
has no result. -/
def doMmap (s : Sys) (f addr len : Nat) (anonymous : Bool) (off : Nat) : Int × Sys :=
  if anonymous = true then
    (addr, s)
  else
    let r := fileread (s.setOff f (off % 2 ^ 32)) f (len % 2 ^ 32) 0
    if 0 ≤ r.1 then (addr, r.2.2) else (-1, r.2.2)

/-! ## `Sysfile.c` -/

/-- What the offset is added to, if the mode is known. -/
def seekBase (s : Sys) (f : Nat) (mode : Int) : Option Nat :=
  if mode = seekSet then some 0
  else if mode = seekCur then some (s.file f).off
  else if mode = seekEnd then (s.file f).ep.map fun ep => (s.dirent ep).fileSize
  else none

def syscallLSeek (s : Sys) (f offset : Nat) (mode : Int) : Int × Sys :=
  match seekBase s f mode with
  | none => (-1, s)
  | some base =>
    let off : Nat := (offset + base) % 2 ^ 64
    (long off, s.setOff f (off % 2 ^ 32))

/-- The position is saved before the read and restored after it, and `eread` does not use it. -/
def syscallPRead (s : Sys) (f off n : Nat) : Int × List UInt8 :=
  match (s.file f).ep with
  | some ep =>
    let bytes := eread (s.dirent ep) (off % 2 ^ 32) (n % 2 ^ 32)
    (int bytes.length, bytes)
  | none => (-1, [])

/-- The loop of `syscallSendFile`, a round for each 512 bytes; `fuel` counts the rounds that are left. -/
def sendLoop (inFile outFile clus : Nat) (other : Nat → Int) : Nat → Sys → Nat → Nat → Nat × Sys
  | 0, s, _, size => (size, s)
  | fuel + 1, s, count, size =>
    if count = 0 then
      (size, s)
    else
      let len := min count 512
      let rd := fileread s inFile len (other fuel)
      let wr := if 0 < rd.1 then filewrite rd.2.2 outFile rd.2.1 clus (other fuel) else (rd.1, rd.2.2)
      let size := ((size + wr.1) % 2 ^ 32).toNat
      if wr.1 ≠ len then (size, wr.2) else sendLoop inFile outFile clus other fuel wr.2 (count - len) size

/-- `syscallSendFile` with a pointer to an offset. -/
def syscallSendFile (s : Sys) (inFile outFile offset count clus : Nat) (other : Nat → Int) : Int × Sys :=
  let r := sendLoop inFile outFile clus other count (s.setOff inFile offset) count 0
  (r.1, r.2)

/-- The end of `syscallOpenAt`: the file that has been allocated is filled. -/
def openAt (s : Sys) (f ep flags : Nat) : Sys :=
  let d := s.dirent ep
  let d := if d.isDir = false ∧ flags &&& oTrunc ≠ 0 then etrunc d else d
  (s.setDirent ep d).setFile f { s.file f with
    type := .entry
    off := if flags &&& oAppend ≠ 0 then d.fileSize else 0
    ep := some ep
    readable := flags &&& oWronly = 0
    writable := flags &&& oWronly ≠ 0 ∨ flags &&& oRdwr ≠ 0 }

/-- A file of ten bytes 0, 1, 2, ..., open for reading and writing at its beginning. -/
def tenBytes : Sys where
  file _ := { type := .entry, ref := 1, readable := true, writable := true, pipe := 0, ep := some 0, socket := 0,
              off := 0, major := 0 }
  dirent _ := { filename := [], attr := 0, firstClus := 2, fileSize := 10, data := UInt8.ofNat, ntRes := 0,
                fileSystem := 0, dev := .regular, head := none, off := 0, parent := none, nextBrother := none,
                firstChild := none }

/-! ## Widths -/

/-- `off` and `file_size` have 32 bits. -/
structure Typed (s : Sys) : Prop where
  off : ∀ f, (s.file f).off < 2 ^ 32
  size : ∀ ep, (s.dirent ep).fileSize < 2 ^ 32

/-- The file is of type `FD_ENTRY`. -/
def Entry (s : Sys) (f ep : Nat) : Prop := (s.file f).type = .entry ∧ (s.file f).ep = some ep

variable {s : Sys} {f g ep ep' off n clus : Nat} {d : Dirent} {bytes : List UInt8} {other : Int}

@[simp] lemma setOff_off : ((s.setOff f off).file f).off = off := by
  simp [Sys.setOff, Sys.setFile]

@[simp] lemma setOff_dirent : (s.setOff f off).dirent = s.dirent := rfl

@[simp] lemma setDirent_file : (s.setDirent ep d).file = s.file := rfl

lemma setOff_entry (h : Entry s g ep) : Entry (s.setOff f off) g ep := by
  unfold Entry Sys.setOff Sys.setFile at *
  by_cases hg : g = f
  · subst hg
    simpa using h
  · simpa [hg] using h

lemma setOff_typed (h : Typed s) (hoff : off < 2 ^ 32) : Typed (s.setOff f off) := by
  refine ⟨fun g => ?_, h.size⟩
  unfold Sys.setOff Sys.setFile
  by_cases hg : g = f
  · subst hg
    simpa using hoff
  · simpa [hg] using h.off g

lemma setDirent_typed (h : Typed s) (hsize : d.fileSize < 2 ^ 32) : Typed (s.setDirent ep d) := by
  refine ⟨h.off, fun ep' => ?_⟩
  unfold Sys.setDirent
  by_cases hep : ep' = ep
  · subst hep
    simpa using hsize
  · simpa [hep] using h.size ep'

/-! ## Reads and writes -/

lemma eread_length_le (hdev : d.dev ≠ .zero) (hrelease : d.dev ≠ .osrelease) :
    (eread d off n).length = 0 ∨ off + (eread d off n).length ≤ d.fileSize := by
  unfold eread
  cases hd : d.dev with
  | zero => exact absurd hd hdev
  | osrelease => exact absurd hd hrelease
  | regular | none =>
    dsimp only
    split
    · exact .inl rfl
    · rw [length_slice]
      omega

lemma ewrite_size (hsize : d.fileSize < 2 ^ 32) : (ewrite d off bytes clus).2.fileSize < 2 ^ 32 := by
  unfold ewrite
  dsimp only
  split
  · exact hsize
  · split
    · exact hsize
    · dsimp only
      split
      · omega
      · exact hsize

section

variable (h : Entry s f ep) (hread : (s.file f).readable = true)
include h hread

lemma fileread_fst :
    (fileread s f n other).1 = int (eread (s.dirent ep) (s.file f).off n).length := by
  unfold fileread
  simp only [hread, h.1, h.2, Bool.true_eq_false, if_false]

lemma fileread_bytes :
    (fileread s f n other).2.1 = eread (s.dirent ep) (s.file f).off n := by
  unfold fileread
  simp only [hread, h.1, h.2, Bool.true_eq_false, if_false]

lemma fileread_state : (fileread s f n other).2.2 =
      if 0 < int (eread (s.dirent ep) (s.file f).off n).length then
        s.setOff f (((s.file f).off + (int (eread (s.dirent ep) (s.file f).off n).length).toNat) % 2 ^ 32)
      else s := by
  unfold fileread
  simp only [hread, h.1, h.2, Bool.true_eq_false, if_false]

end

lemma fileread_of_not_readable (hread : (s.file f).readable = false) : fileread s f n other = (-1, [], s) :=
  if_pos hread

lemma filewrite_eq (h : Entry s f ep) (hwrite : (s.file f).writable = true) {r : Int} {d : Dirent}
    (hw : ewrite (s.dirent ep) (s.file f).off bytes clus = (r, d)) : filewrite s f bytes clus other =
      if int r = int bytes.length then
        (int bytes.length, (s.setDirent ep d).setOff f (((s.file f).off + bytes.length) % 2 ^ 32))
      else
        (-1, s.setDirent ep d) := by
  unfold filewrite
  simp only [hwrite, h.1, h.2, hw, Bool.true_eq_false, if_false]

lemma filewrite_of_not_writable (hwrite : (s.file f).writable = false) : filewrite s f bytes clus other = (-1, s) :=
  if_pos hwrite

end Position
end OsRiscv
