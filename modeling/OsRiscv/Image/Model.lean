import OsRiscv.Fat.Content

/-!
# Model — block reads through mounted images

`mountBlockRead` and `blockRead` of `kernel/fs/Bio.c` and `getBlockNumber` of `kernel/fs/Fat.c`.  A
mounted file system reads its blocks from an image file, which lies on another file system, which may
be mounted itself: `FileSystem` is the tower of file systems below `fs`.

`reloc_clus` and `read_fat` are those of `Fat`, called without `alloc`; here they read the FAT with the
`read` function of their file system, which may move the cursors of the image files below.  All file
systems share the dirents and the inode pool of `Vol`.  `disk` is the card: `bread` reads the same card
whatever the device number is.
-/

namespace OsRiscv
namespace Image

open Lib
open Fat (Vol Geometry Sector FatM fat32Eoc)

inductive Stop
  | fat (r : Fat.Panic)
  | nullPointer
  deriving DecidableEq, Repr

abbrev BCall := Call Vol Stop

/-- `struct buf`, as its readers use it. -/
structure Buf where
  dev : Nat
  blockno : Nat
  data : Sector

/-- A call of `Fat`. -/
def onVol {α : Type} (x : FatM α) : BCall α := fun v =>
  match x v with
  | .done a t => .done a t
  | .panic r t => .panic (.fat r) t

/-- `bread`, which takes the block number as a `uint`. -/
def bread (dev blockno : Nat) : BCall (Option Buf) := do
  let v ← Call.get
  return some { dev, blockno := blockno % 2 ^ 32, data := v.disk (blockno % 2 ^ 32) }

section

variable (read : Nat → BCall (Option Buf)) (g : Geometry)

def readFat (cluster : Nat) : BCall Nat := do
  if cluster ≥ fat32Eoc then
    return cluster
  else if cluster > g.dataClusCnt + 1 then
    return 0
  else
    match ← read (Fat.fatSecOfClus g cluster) with
    | none => Call.panic .nullPointer
    | some b => return ofLe (slice b.data (Fat.fatOffsetOfClus g cluster) 4)

def nextClus (d : Nat) : BCall (Option Nat) := do
  let v ← Call.get
  let clus ← readFat read g (v.dirents d).curClus
  -- as in `Fat.nextClus`, `clus` is an `int`
  if fat32Eoc ≤ clus ∧ clus < 2 ^ 31 then
    return none
  else
    return some clus

def relocLoop (d clusNum : Nat) : Nat → BCall Bool
  | 0 => pure true
  | fuel + 1 => do
    let v ← Call.get
    if clusNum > (v.dirents d).clusCnt then
      match ← nextClus read g d with
      | some clus =>
        onVol (Fat.modifyDirent d fun e => { e with curClus := clus, clusCnt := e.clusCnt + 1 })
        let v ← Call.get
        let pos := (v.dirents d).clusCnt
        if pos ≠ (v.dirents d).inodeMaxCluster then
          Call.panic (.fat .assertion)
        else
          onVol (Fat.modifyDirent d fun e => { e with inodeMaxCluster := e.inodeMaxCluster + 1 })
          onVol (Fat.putInode d pos clus)
          relocLoop d clusNum fuel
      | none =>
        onVol (Fat.modifyDirent d fun e => { e with curClus := e.firstClus, clusCnt := 0 })
        return false
    else
      return true

/-- `reloc_clus` without `alloc`. -/
def relocClus (d off : Nat) : BCall Int := do
  let v ← Call.get
  let entry := v.dirents d
  if entry.firstClus = 0 ∨ entry.inodeMaxCluster = 0 ∨ entry.firstClus ≠ entry.inode 0 then
    Call.panic (.fat .assertion)
  else
    let clusNum := off / g.bytsPerClus
    let ret := off % g.bytsPerClus
    if clusNum < entry.inodeMaxCluster then
      onVol (Fat.eFindInode d clusNum)
      return ret
    else
      onVol (Fat.eFindInode d (entry.inodeMaxCluster - 1))
      if ← relocLoop read g d clusNum clusNum then
        return ret
      else
        return -1

/-- A 32-bit word as an `int`. -/
def toInt (x : Nat) : Int := if x < 2 ^ 31 then x else (x : Int) - 2 ^ 32

/-- `getBlockNumber`.  `offset` has 32 bits and is compared as an unsigned number; the result of
`reloc_clus` is not looked at. -/
def getBlockNumber (entry dataBlockNum : Nat) : BCall Int := do
  let offset := dataBlockNum * 512 % 2 ^ 32
  let v ← Call.get
  if offset > (v.dirents entry).fileSize then
    return -1
  else
    let _ ← relocClus read g entry offset
    let v ← Call.get
    let sec := Fat.firstSecOfClus g (v.dirents entry).curClus +
      offset % g.bytsPerClus / g.bytsPerSec
    return toInt (sec % 2 ^ 32)

/-- `mountBlockRead` on an image that is a file; `read` and `g` are those of the file system on which
the image lies.  The result `none` is 0. -/
def mountBlockRead (image blockNum : Nat) : BCall (Option Buf) := do
  let parentBlockNum ← getBlockNumber read g image blockNum
  if parentBlockNum < 0 then
    return none
  else
    read parentBlockNum.toNat

end

/-- A file system, with all that lie below it. -/
inductive FileSystem
  /-- `read` is `blockRead` -/
  | root (g : Geometry) (deviceNumber : Nat)
  /-- `read` is `mountBlockRead`, and the image is of type `FD_DEVICE` -/
  | device (g : Geometry) (major : Nat)
  /-- `read` is `mountBlockRead`, and the image is the dirent `ep` of the file system `parent` -/
  | image (g : Geometry) (ep : Nat) (parent : FileSystem)

namespace FileSystem

def geometry : FileSystem → Geometry
  | root g _ | device g _ | image g _ _ => g

def read : FileSystem → Nat → BCall (Option Buf)
  | root _ deviceNumber => bread deviceNumber
  | device _ major => bread major
  | image _ ep parent => mountBlockRead parent.read parent.geometry ep

/-! ## Where the bytes are -/

/-- The image files in the tower. -/
def images : FileSystem → List Nat
  | root _ _ | device _ _ => []
  | image _ ep parent => ep :: parent.images

end FileSystem

/-- The chain of a file on a volume with the blocks `disk`. -/
def chain (g : Geometry) (disk : Nat → Sector) (v : Vol) (d : Nat) : List Nat :=
  Fat.chainOf g { v with disk } d

/-- The sector of the volume that has block `b` of the file with the clusters `l`. -/
def sectorOf (g : Geometry) (l : List Nat) (b : Nat) : Nat :=
  Fat.firstSecOfClus g (l.getD (512 * b / g.bytsPerClus) 0) + 512 * b % g.bytsPerClus / 512

/-- The contents of the blocks, given where they are. -/
def contents (v : Vol) (place : Nat → Option (Nat × Nat)) (b : Nat) : Sector :=
  match place b with
  | some (_, blk) => v.disk blk
  | none => fun _ => 0

namespace FileSystem

/-- The device block that has block `b` of the file system; a block past the end of the image is
nowhere. -/
def place (v : Vol) : FileSystem → Nat → Option (Nat × Nat)
  | root _ deviceNumber, b => some (deviceNumber, b)
  | device _ major, b => some (major, b)
  | image _ ep parent, b =>
    if 512 * b < (v.dirents ep).fileSize then
      place v parent (sectorOf parent.geometry
        (chain parent.geometry (contents v (place v parent)) v ep) b)
    else none

/-- The blocks of the file system. -/
def shown (fs : FileSystem) (v : Vol) : Nat → Sector := contents v (fs.place v)

/-- The clusters of a file of the file system. -/
def clusters (fs : FileSystem) (v : Vol) (d : Nat) : List Nat := chain fs.geometry (fs.shown v) v d

end FileSystem

end Image
end OsRiscv
