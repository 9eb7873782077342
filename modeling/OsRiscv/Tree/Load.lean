import OsRiscv.Tree.Model

/-!
# Load — reading the directories of a volume

`loadDirents` and `fatInit` of `FileSystem.c`.  A directory is the list of 32-byte entries that its cluster
chain holds: `reloc_clus` finds the cluster of an offset, and returns -1 behind the end of the chain
(`Fat.Lookup`).  The chain of a directory without a first cluster fails the assertion in `reloc_clus`.
-/

namespace OsRiscv
namespace Tree

open Lib

def attrSystem : BitVec 8 := 0x04
def attrLongName : BitVec 8 := 0x0f
def lastLongEntry : Nat := 0x40
def emptyEntry : Nat := 0xe5
def endOfEntry : Nat := 0x00
def charLongName : Nat := 13

/-- `union dentry`, 32 bytes -/
abbrev Raw := Nat → UInt8

namespace Raw

variable (r : Raw)

def order : Nat := (r 0).toNat
def attr : BitVec 8 := BitVec.ofNat 8 (r 11).toNat
def ntRes : Nat := (r 12).toNat
def firstClus : Nat := ofLe (slice r 20 2) * 2 ^ 16 + ofLe (slice r 26 2)
def fileSize : Nat := ofLe (slice r 28 4)

/-- `n` characters of 16 bits from offset `o` on -/
def wchars (o n : Nat) : List Nat := (List.range n).map fun i => ofLe (slice r (o + 2 * i) 2)

end Raw

/-- The entries in the chain of a directory, and the bytes in the chain of a file, by first cluster. -/
structure Volume where
  rootClus : Nat
  entries : Nat → Option (List Raw)
  bytes : Nat → Nat → UInt8

/-! ## Names -/

/-- `snstr`: the length is counted down before the test for 0, so when a 0 ends the copying one place fewer
is filled. -/
def snstr (buf : Nat → UInt8) (o : Nat) (src : List Nat) : Nat → UInt8 :=
  let chars := (src.takeWhile (· ≠ 0)).map UInt8.ofNat
  overlay (overlay buf o chars) (o + chars.length) (List.replicate (src.length - chars.length - 1) 0)

/-- The name in a short entry: up to 8 characters, and behind a dot up to 3, each part ended by a space. -/
def shortName (r : Raw) : Str :=
  let base := (slice r 0 8).takeWhile (· ≠ 32)
  let ext := (slice r 8 3).takeWhile (· ≠ 32)
  base ++ (if r 8 ≠ 32 then [dot] else []) ++ ext

/-- `read_entry_name`; the entry says whether it is long. -/
def readEntryName (buf : Nat → UInt8) (o : Nat) (r : Raw) : Nat → UInt8 :=
  if r.attr = attrLongName then
    let buf := snstr buf o (r.wchars 1 5)
    let buf := snstr buf (o + 5) (r.wchars 14 6)
    snstr buf (o + 11) (r.wchars 28 2)
  else
    overlay (overlay buf o (List.replicate 13 0)) o (shortName r)

/-- The string in `filename[FAT32_MAX_FILENAME + 1]` -/
def cstr (buf : Nat → UInt8) : Str := (slice buf 0 (fat32MaxFilename + 1)).takeWhile (· ≠ 0)

def readEntryInfo (vol : Volume) (d : Dirent) (r : Raw) : Dirent :=
  { d with
    attr := r.attr, firstClus := r.firstClus, fileSize := r.fileSize, ntRes := r.ntRes
    data := vol.bytes r.firstClus }

/-! ## `enext` -/

/-- What the loop of `enext` does with one entry: it ends, it has found an entry of `k` parts, or it goes on. -/
inductive Round
  | done (out : Except Stop (Int × Nat × Dirent))
  | found (k : Nat) (e : Dirent)
  | next (cnt : Nat) (count : Option Nat) (buf : Nat → UInt8)

/-- `cnt` counts deleted entries; `count` is what `*count` was set to by a first long entry, after which the pointer is
0; `buf` is `ep->filename`.  A number outside 1..20 of a long entry would write outside the dirent. -/
def enextRound (vol : Volume) (de : Raw) (cnt : Nat) (count : Option Nat) (buf : Nat → UInt8) (ep : Dirent) : Round :=
  if de.order = endOfEntry then
    .done (.ok (-1, 0, { ep with filename := cstr buf }))
  else if de.order = emptyEntry then
    .next (cnt + 1) count buf
  else if cnt ≠ 0 then
    match count with
    | some _ => .done (.error .nullPointer)
    | none => .done (.ok (0, cnt, { ep with filename := cstr buf }))
  else if de.attr = attrLongName then
    let lcnt := de.order &&& 0xbf
    if lcnt = 0 ∨ 20 < lcnt then
      .done (.error .undefined)
    else if de.order &&& lastLongEntry ≠ 0 then
      match count with
      | some _ => .done (.error .nullPointer)
      | none => .next 0 (some (lcnt + 1)) (readEntryName buf ((lcnt - 1) * charLongName) de)
    else
      .next 0 count (readEntryName buf ((lcnt - 1) * charLongName) de)
  else
    match count with
    | some k => .found k (readEntryInfo vol { ep with filename := cstr buf } de)
    | none => .found 1 (readEntryInfo vol { ep with filename := cstr (readEntryName buf 0 de) } de)

/-- The loop of `enext` over the entries from `off` on. -/
def enextLoop (vol : Volume) : List Raw → Nat → Option Nat → (Nat → UInt8) → Dirent → Except Stop (Int × Nat × Dirent)
  | [], _, _, buf, ep => .ok (-1, 0, { ep with filename := cstr buf })
  | de :: rest, cnt, count, buf, ep =>
    match enextRound vol de cnt count buf ep with
    | .done out => out
    | .found k e => .ok (1, k, e)
    | .next cnt count buf => enextLoop vol rest cnt count buf ep

/-- `enext`: -1, 0 or 1, the number of entries it went past, and the dirent. -/
def enext (vol : Volume) (entries : List Raw) (ep : Dirent) (off : Nat) : Except Stop (Int × Nat × Dirent) :=
  enextLoop vol (entries.drop (off / 32)) 0 none (fun _ => 0) ep

/-! ## `loadDirents` -/

/-- The part of `loadDirents` before its loop. -/
def loadWith (vol : Volume) (loop : Ptr → List Raw → Nat → Nat → Fs → Except Stop Fs) (parent : Ptr) (t : Fs) :
    Except Stop Fs :=
  match vol.entries (t.dirent parent).firstClus with
  | none => .error .assertion
  | some entries => do
      let (ep, t) ← direntAlloc t
      loop parent entries 0 ep t

/-- The dirent is put in front of the list of its parent. -/
def linkChild (t : Fs) (k : Nat) (parent : Ptr) (off ep : Nat) (d : Dirent) : Fs :=
  let t := t.set (.dirent ep) { d with
    parent := some parent, off := off, nextBrother := (t.dirent parent).firstChild, fileSystem := k }
  t.set parent { t.dirent parent with firstChild := some ep }

/-- A directory is loaded in turn, unless it is one of the first two entries of a directory other than the
root, where the dot entries are. -/
def loadBelow (vol : Volume) (k : Nat) (loop : Ptr → List Raw → Nat → Nat → Fs → Except Stop Fs) (parent : Ptr)
    (off ep : Nat) (isDir : Bool) (t : Fs) : Except Stop Fs :=
  if isDir = true ∧ (off > 32 ∨ parent = .root k) then loadWith vol loop (.dirent ep) t else .ok t

/-- The loop of `loadDirents`, with fuel for its rounds and for the directories below.  In its condition
`type` gets the result of the comparison with -1, so in the body it is never 0. -/
def loadLoop (vol : Volume) (k : Nat) : Nat → Ptr → List Raw → Nat → Nat → Fs → Except Stop Fs
  | 0, _, _, _, _, _ => .error .fuel
  | n + 1, parent, entries, off, ep, t => do
    let (r, count, d) ← enext vol entries (t.dirent (.dirent ep)) off
    if r = -1 then
      return direntFree (t.set (.dirent ep) d) ep
    else
      let t ← loadBelow vol k (loadLoop vol k n) parent off ep d.isDir (linkChild t k parent off ep d)
      let (ep, t) ← direntAlloc t
      loadLoop vol k n parent entries (off + 32 * count) ep t

def loadDirents (n : Nat) (vol : Volume) (k : Nat) (parent : Ptr) (t : Fs) : Except Stop Fs :=
  loadWith vol (loadLoop vol k n) parent t

/-- The root that `fatInit` sets up. -/
def rootDirent (vol : Volume) (k : Nat) : Dirent where
  filename := [slash]
  attr := Fat.attrDirectory ||| attrSystem
  firstClus := vol.rootClus
  fileSize := 0
  data := vol.bytes vol.rootClus
  ntRes := 0
  fileSystem := k
  dev := .regular
  head := none
  off := 0
  parent := none
  nextBrother := none
  firstChild := none

/-- `fatInit` of `fileSystem[k]`, its part about the directory tree. -/
def fatInit (n : Nat) (vol : Volume) (k : Nat) (t : Fs) : Except Stop Fs :=
  loadDirents n vol k (.root k) (t.set (.root k) (rootDirent vol k))

/-- A dirent or a root before it is used. -/
def zeroDirent : Dirent where
  filename := []
  attr := 0
  firstClus := 0
  fileSize := 0
  data := fun _ => 0
  ntRes := 0
  fileSystem := 0
  dev := .regular
  head := none
  off := 0
  parent := none
  nextBrother := none
  firstChild := none

/-- `direntInit` -/
def boot : Fs where
  dirent
    | .dirent i => { zeroDirent with nextBrother := if i = 0 then none else some (i - 1) }
    | .root _ => zeroDirent
  direntHead := some (direntNum - 1)
  rootFileSystem := 0

end Tree
end OsRiscv
