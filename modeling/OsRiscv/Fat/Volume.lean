import OsRiscv.Lib.Bitmap
import OsRiscv.Lib.Bytes
import OsRiscv.Lib.Call
import OsRiscv.Lib.Update

/-!
# Volume — files on a FAT32 volume

The cluster chains, the cluster bitmap and the inode cache of `kernel/fs/Fat.c` and
`kernel/fs/Inode.c`, and the bitmap that `fatInit` builds.

One volume is modelled, with the dirents of its files and the inode pool.  `fs->read` returns the block
as it was last written, and the buffers of `eread` and `ewrite` are kernel memory, so copying cannot
fail.  `files` are the dirents that hang in the directory tree; the result of `dirlookup` is an argument.
`allocs` is a history variable: each cluster that `alloc_clus` returned, with the FAT it found.
-/

namespace OsRiscv
namespace Fat

open Lib

@[irreducible] def bsize : Nat := 512
def fat32Eoc : Nat := 0x0ffffff8
def inodeNum : Nat := 1024
def inodeItemNum : Nat := 64
def inodeSecondItemBase : Nat := 8
def inodeThirdItemBase : Nat := 24
def inodeSecondLevelBottom : Nat := inodeSecondItemBase
def inodeThirdLevelBottom : Nat :=
  inodeSecondLevelBottom + (inodeThirdItemBase - inodeSecondItemBase) * inodeItemNum
def inodeThirdLevelTop : Nat :=
  inodeThirdLevelBottom + (inodeItemNum - inodeThirdItemBase) * inodeItemNum * inodeItemNum

def attrReadOnly : BitVec 8 := 0x01
def attrDirectory : BitVec 8 := 0x10
def attrArchive : BitVec 8 := 0x20
def attrLink : BitVec 8 := 0x40

abbrev Sector := Nat → UInt8

/-- `struct superblock`, without the hidden sectors. -/
structure SuperBlock where
  bytsPerSec : Nat
  secPerClus : Nat
  rsvdSecCnt : Nat
  fatCnt : Nat
  totSec : Nat
  fatSz : Nat
  rootClus : Nat
  firstDataSec : Nat
  dataClusCnt : Nat
  bytsPerClus : Nat
  deriving DecidableEq

/-- A division of 32-bit words on the machine: by zero it gives all ones. -/
def divuw (a b : Nat) : Nat := if b = 0 then 2 ^ 32 - 1 else a / b

/-- What `fatInit` reads from the boot sector and computes from it. -/
def superBlockOf (b : Sector) : SuperBlock :=
  let bytsPerSec := ofLe (slice b 11 2)
  let secPerClus := ofLe (slice b 13 1)
  let rsvdSecCnt := ofLe (slice b 14 2)
  let fatCnt := ofLe (slice b 16 1)
  let totSec := ofLe (slice b 32 4)
  let fatSz := ofLe (slice b 36 4)
  let firstDataSec := (rsvdSecCnt + fatCnt * fatSz) % 2 ^ 32
  let dataSecCnt := (totSec + 2 ^ 32 - firstDataSec) % 2 ^ 32
  { bytsPerSec, secPerClus, rsvdSecCnt, fatCnt, totSec, fatSz
    rootClus := ofLe (slice b 44 4)
    firstDataSec
    dataClusCnt := divuw dataSecCnt secPerClus
    bytsPerClus := secPerClus * bytsPerSec }

/-- A well-formed volume: the FAT has an entry for every cluster, the regions fit into the volume and
the numbers are within the limits of FAT32. -/
structure Geometry extends SuperBlock where
  bytsPerSec_eq : bytsPerSec = 512
  secPerClus_pos : 0 < secPerClus
  fatCnt_pos : 0 < fatCnt
  firstDataSec_eq : firstDataSec = rsvdSecCnt + fatCnt * fatSz
  data_fits : firstDataSec + dataClusCnt * secPerClus ≤ totSec
  totSec_lt : totSec < 2 ^ 32
  bytsPerClus_eq : bytsPerClus = secPerClus * 512
  table_fits : dataClusCnt + 2 ≤ fatSz * 128
  fatSz_lt : fatSz < 2 ^ 23
  clusters_lt : dataClusCnt + 1 < 0x0ffffff8

inductive Dev
  | regular
  | zero
  | osrelease
  | none
  deriving DecidableEq, Repr

/-- `struct Dirent`, without its name and its links in the directory tree. -/
structure Dirent where
  /-- `attribute`, a word of Lean -/
  attr : BitVec 8
  firstClus : Nat
  fileSize : Nat
  curClus : Nat
  inodeMaxCluster : Nat
  clusCnt : Nat
  /-- `inode.item` -/
  inode : Nat → Nat
  dev : Dev

/-- A call of `alloc_clus`: the cluster it returned and the FAT before it. -/
structure AllocEvent where
  cluster : Nat
  fat : Nat → Nat

structure Vol where
  disk : Nat → Sector
  clusterBitmap : Nat → BitVec 64
  /-- `inodes[x].item[i]` -/
  inodes : Nat → Nat → Nat
  inodeBitmap : Nat → BitVec 64
  dirents : Nat → Dirent
  files : List Nat
  direntHead : List Nat
  allocs : List AllocEvent

inductive Panic
  | assertion
  | noCluster
  /-- No `panic` of the source: `inodeAlloc` found all inodes in use, and what it returned is used as an inode. -/
  | wildInode
  | noDirent
  | inodeTooLarge
  | offsetOutOfRange
  | notDir
  deriving DecidableEq, Repr

abbrev FatM := Call Vol Panic

variable (g : Geometry)

/-! ## Blocks -/

def fsRead (sec : Nat) : FatM Sector := do
  let v ← Call.get
  return v.disk sec

def bwrite (sec : Nat) (data : Sector) : FatM Unit :=
  Call.modify fun v => { v with disk := Function.update v.disk sec data }

def firstSecOfClus (cluster : Nat) : Nat :=
  ((cluster + 2 ^ 32 - 2) % 2 ^ 32 * g.secPerClus + g.firstDataSec) % 2 ^ 32

def fatSecOfClus (cluster : Nat) : Nat :=
  g.rsvdSecCnt + cluster * 4 % 2 ^ 32 / g.bytsPerSec

def fatOffsetOfClus (cluster : Nat) : Nat :=
  cluster * 4 % 2 ^ 32 % g.bytsPerSec

/-- The FAT entry of a cluster, on the disk. -/
def fatEntry (disk : Nat → Sector) (cluster : Nat) : Nat :=
  ofLe (slice (disk (fatSecOfClus g cluster)) (fatOffsetOfClus g cluster) 4)

def readFat (cluster : Nat) : FatM Nat := do
  if cluster ≥ fat32Eoc then
    return cluster
  else if cluster > g.dataClusCnt + 1 then
    return 0
  else
    let b ← fsRead (fatSecOfClus g cluster)
    return ofLe (slice b (fatOffsetOfClus g cluster) 4)

def writeFat (cluster content : Nat) : FatM Int := do
  if cluster > g.dataClusCnt + 1 then
    return -1
  else
    let b ← fsRead (fatSecOfClus g cluster)
    bwrite (fatSecOfClus g cluster) (overlay b (fatOffsetOfClus g cluster) (toLe 4 content))
    return 0

def zeroClus (cluster : Nat) : FatM Unit :=
  Call.forEach (fun i => do
    let sec := firstSecOfClus g cluster + i
    let b ← fsRead sec
    bwrite sec (overlay b 0 (List.replicate bsize 0))) (List.range g.secPerClus)

def totalClusterNumber : Nat := g.fatSz * g.bytsPerSec % 2 ^ 32 / 4

def allocClus : FatM Nat := do
  let v ← Call.get
  match Bitmap.firstFree v.clusterBitmap (totalClusterNumber g / 64) with
  | some cluster =>
    Call.modify fun v => { v with
      clusterBitmap := Bitmap.set v.clusterBitmap cluster
      allocs := ⟨cluster, fatEntry g v.disk⟩ :: v.allocs }
    let entPerSec := g.bytsPerSec / 4
    let sec := g.rsvdSecCnt + cluster / entPerSec
    let b ← fsRead sec
    bwrite sec (overlay b (4 * (cluster % entPerSec)) (toLe 4 (fat32Eoc + 7)))
    zeroClus g cluster
    return cluster
  | none => Call.panic .noCluster

def freeClus (cluster : Nat) : FatM Unit := do
  let _ ← writeFat g cluster 0
  Call.modify fun v => { v with clusterBitmap := Bitmap.clear v.clusterBitmap cluster }

/-- The bitmap that `fatInit` builds: a bit for each non-zero entry of the FAT. -/
def fatInitBitmap (disk : Nat → Sector) : Nat → BitVec 64 :=
  (List.range g.fatSz).foldl (fun words i =>
    (List.range (g.bytsPerSec / 4)).foldl (fun words j =>
      if ofLe (slice (disk (g.rsvdSecCnt + i)) (4 * j) 4) ≠ 0 then
        Bitmap.set words (i * (g.bytsPerSec / 4) + j)
      else words) words) fun _ => 0

/-! ## The inode pool and the inode of a dirent -/

/-- The loop of `inodeAlloc`.  It compares the number of the word with `sizeof(inodeBitmap)`, which counts bytes: with
all inodes in use it goes on through the words behind the bitmap. -/
def inodeScan : (Nat → BitVec 64) → Option (Nat × (Nat → BitVec 64)) := Bitmap.scan (inodeNum / 64 * 8)

def inodeAlloc : FatM Nat := do
  let v ← Call.get
  match inodeScan v.inodeBitmap with
  | some (x, words) =>
    if x < inodeNum then
      Call.modify fun v => { v with inodeBitmap := words }
      return x
    else Call.panic .wildInode
  -- the result is -1
  | none => Call.panic .wildInode

def inodeFree (x : Nat) : FatM Unit := do
  let v ← Call.get
  if Bitmap.bit v.inodeBitmap x then
    Call.modify fun v => { v with inodeBitmap := Bitmap.clear v.inodeBitmap x }
  else
    Call.panic .assertion

def modifyDirent (d : Nat) (f : Dirent → Dirent) : FatM Unit :=
  Call.modify fun v => { v with dirents := Function.update v.dirents d (f (v.dirents d)) }

def setInode (x i clus : Nat) : FatM Unit :=
  Call.modify fun v => { v with
    inodes := Function.update v.inodes x (Function.update (v.inodes x) i clus) }

def eFreeInode (d : Nat) : FatM Unit := do
  let v ← Call.get
  let ep := v.dirents d
  let used (base : Nat) : Bool := ep.inodeMaxCluster > base
  Call.forEach (fun i => inodeFree (ep.inode i))
    ((List.range' inodeSecondItemBase (inodeThirdItemBase - inodeSecondItemBase)).takeWhile fun i =>
      used (inodeSecondLevelBottom + (i - inodeSecondItemBase) * inodeItemNum))
  -- the third level counts its blocks from the second level's first item
  let base (i : Nat) := inodeThirdLevelBottom + (i - inodeSecondItemBase) * inodeItemNum * inodeItemNum
  Call.forEach (fun i => do
      Call.forEach (fun j => do
          let v ← Call.get
          inodeFree (v.inodes (ep.inode i) j))
        ((List.range inodeItemNum).takeWhile fun j => used (base i + j * inodeItemNum))
      inodeFree (ep.inode i))
    ((List.range' inodeThirdItemBase (inodeItemNum - inodeThirdItemBase)).takeWhile fun i =>
      used (base i))
  modifyDirent d fun e => { e with inodeMaxCluster := 0 }

/-- The cluster that the inode has at a position: direct, in an inode of the pool, or in an inode that
an inode of the pool points to. -/
def inodeAt (inodes : Nat → Nat → Nat) (inode : Nat → Nat) (pos : Nat) : Option Nat :=
  if pos < inodeSecondLevelBottom then
    some (inode pos)
  else if pos < inodeThirdLevelBottom then
    let idx := inodeSecondItemBase + (pos - inodeSecondLevelBottom) / inodeItemNum
    some (inodes (inode idx) ((pos - inodeSecondLevelBottom) % inodeItemNum))
  else if pos < inodeThirdLevelTop then
    let idx1 := inodeThirdItemBase + (pos - inodeThirdLevelBottom) / inodeItemNum / inodeItemNum
    let idx2 := (pos - inodeThirdLevelBottom) / inodeItemNum % inodeItemNum
    some (inodes (inodes (inode idx1) idx2) ((pos - inodeThirdLevelBottom) % inodeItemNum))
  else
    none

def eFindInode (d pos : Nat) : FatM Unit := do
  let v ← Call.get
  if ¬ pos < (v.dirents d).inodeMaxCluster then
    Call.panic .assertion
  else
    match inodeAt v.inodes (v.dirents d).inode pos with
    | some clus => modifyDirent d fun e => { e with clusCnt := pos, curClus := clus }
    | none => Call.panic .inodeTooLarge

/-! ## `reloc_clus` -/

def setItem (d i x : Nat) : FatM Unit :=
  modifyDirent d fun e => { e with inode := Function.update e.inode i x }

/-- Enter a cluster into the inode at the next position. -/
def putInode (d pos clus : Nat) : FatM Unit := do
  if pos < inodeSecondLevelBottom then
    setItem d pos clus
  else if pos < inodeThirdLevelBottom then
    let idx1 := inodeSecondItemBase + (pos - inodeSecondLevelBottom) / inodeItemNum
    let idx2 := (pos - inodeSecondLevelBottom) % inodeItemNum
    if idx2 = 0 then
      let x ← inodeAlloc
      setItem d idx1 x
    let v ← Call.get
    setInode ((v.dirents d).inode idx1) idx2 clus
  else if pos < inodeThirdLevelTop then
    let idx1 := inodeThirdItemBase + (pos - inodeThirdLevelBottom) / inodeItemNum / inodeItemNum
    let idx2 := (pos - inodeThirdLevelBottom) / inodeItemNum % inodeItemNum
    let idx3 := (pos - inodeThirdLevelBottom) % inodeItemNum
    if idx3 = 0 then
      if idx2 = 0 then
        let x ← inodeAlloc
        setItem d idx1 x
      let y ← inodeAlloc
      let v ← Call.get
      setInode ((v.dirents d).inode idx1) idx2 y
    let v ← Call.get
    setInode (v.inodes ((v.dirents d).inode idx1) idx2) idx3 clus
  else
    Call.panic .inodeTooLarge

/-- The cluster after `cur_clus`; at the end of the chain a new one if `alloc`. -/
def nextClus (d : Nat) (alloc : Bool) : FatM (Option Nat) := do
  let v ← Call.get
  let clus ← readFat g (v.dirents d).curClus
  -- `clus` is an `int`: an entry with the top bit is negative
  if fat32Eoc ≤ clus ∧ clus < 2 ^ 31 then
    if alloc then
      let clus ← allocClus g
      let _ ← writeFat g (v.dirents d).curClus clus
      return some clus
    else
      return none
  else
    return some clus

/-- The loop of `reloc_clus`; each round adds one to `clus_cnt`, so `clus_num` rounds are enough. -/
def relocLoop (d clusNum : Nat) (alloc : Bool) : Nat → FatM Bool
  | 0 => pure true
  | fuel + 1 => do
    let v ← Call.get
    if clusNum > (v.dirents d).clusCnt then
      match ← nextClus g d alloc with
      | some clus =>
        modifyDirent d fun e => { e with curClus := clus, clusCnt := e.clusCnt + 1 }
        let v ← Call.get
        let pos := (v.dirents d).clusCnt
        if pos ≠ (v.dirents d).inodeMaxCluster then
          Call.panic .assertion
        else
          modifyDirent d fun e => { e with inodeMaxCluster := e.inodeMaxCluster + 1 }
          putInode d pos clus
          relocLoop d clusNum alloc fuel
      | none =>
        modifyDirent d fun e => { e with curClus := e.firstClus, clusCnt := 0 }
        return false
    else
      return true

def relocClus (d off : Nat) (alloc : Bool) : FatM Int := do
  let v ← Call.get
  let entry := v.dirents d
  if entry.firstClus = 0 ∨ entry.inodeMaxCluster = 0 ∨ entry.firstClus ≠ entry.inode 0 then
    Call.panic .assertion
  else
    let clusNum := off / g.bytsPerClus
    let ret := off % g.bytsPerClus
    if clusNum < entry.inodeMaxCluster then
      eFindInode d clusNum
      return ret
    else
      eFindInode d (entry.inodeMaxCluster - 1)
      if ← relocLoop g d clusNum alloc clusNum then
        return ret
      else
        return -1

/-! ## Reading and writing -/

/-- `rw_clus` for writing, sector by sector. -/
def copyIn : Nat → Nat → Nat → List UInt8 → FatM Unit
  | 0, _, _, _ => pure ()
  | fuel + 1, sec, off, data =>
    if data = [] then
      pure ()
    else do
      let b ← fsRead sec
      let m := min (bsize - off % bsize) data.length
      bwrite sec (overlay b (off % bsize) (data.take m))
      copyIn fuel (sec + 1) (off + m) (data.drop m)

/-- `rw_clus` for reading. -/
def copyOut : Nat → Nat → Nat → Nat → FatM (List UInt8)
  | 0, _, _, _ => pure []
  | fuel + 1, sec, off, n =>
    if n = 0 then
      pure []
    else do
      let b ← fsRead sec
      let m := min (bsize - off % bsize) n
      let rest ← copyOut fuel (sec + 1) (off + m) (n - m)
      return slice b (off % bsize) m ++ rest

/-- The sum in the test has 32 bits, here and for reading. -/
def rwClusWrite (cluster off : Nat) (data : List UInt8) : FatM Unit :=
  if (off + data.length) % 2 ^ 32 > g.bytsPerClus then
    Call.panic .offsetOutOfRange
  else
    copyIn data.length (firstSecOfClus g cluster + off / g.bytsPerSec) (off % g.bytsPerSec) data

def rwClusRead (cluster off n : Nat) : FatM (List UInt8) :=
  if (off + n) % 2 ^ 32 > g.bytsPerClus then
    Call.panic .offsetOutOfRange
  else
    copyOut n (firstSecOfClus g cluster + off / g.bytsPerSec) (off % g.bytsPerSec) n

def ereadLoop (d : Nat) : Nat → Nat → Nat → FatM (List UInt8)
  | 0, _, _ => pure []
  | fuel + 1, off, n => do
    let v ← Call.get
    if (v.dirents d).curClus < fat32Eoc ∧ 0 < n then
      let _ ← relocClus g d off false
      let m := min (g.bytsPerClus - off % g.bytsPerClus) n
      let v ← Call.get
      let bytes ← rwClusRead g (v.dirents d).curClus (off % g.bytsPerClus) m
      let rest ← ereadLoop d fuel (off + m) (n - m)
      return bytes ++ rest
    else
      return []

/-- The bytes that `eread` copies to its destination; it returns their number. -/
def eread (d off n : Nat) : FatM (List UInt8) := do
  let v ← Call.get
  let entry := v.dirents d
  match entry.dev with
  | .zero => return List.replicate n 0
  | .osrelease => return [0x31, 0x30, 0x2e, 0x32, 0x2e, 0x30, 0]
  | _ =>
    if off > entry.fileSize ∨ (off + n) % 2 ^ 32 < off ∨ entry.attr &&& attrDirectory ≠ 0 then
      return []
    else
      let n := if off + n > entry.fileSize then entry.fileSize - off else n
      ereadLoop g d n off n

def ewriteLoop (d : Nat) : Nat → Nat → List UInt8 → FatM Unit
  | 0, _, _ => pure ()
  | fuel + 1, off, data =>
    if data = [] then
      pure ()
    else do
      let _ ← relocClus g d off true
      let m := min (g.bytsPerClus - off % g.bytsPerClus) data.length
      let v ← Call.get
      rwClusWrite g (v.dirents d).curClus (off % g.bytsPerClus) (data.take m)
      ewriteLoop d fuel (off + m) (data.drop m)

/-- Give a dirent its first cluster. -/
def firstCluster (d : Nat) : FatM Unit := do
  let clus ← allocClus g
  modifyDirent d fun e => { e with
    curClus := clus, firstClus := clus, inode := Function.update e.inode 0 clus, inodeMaxCluster := 1 }

def ewrite (d off : Nat) (data : List UInt8) : FatM Int := do
  let v ← Call.get
  let n := data.length
  if (v.dirents d).dev = .none then
    return n
  else if (off + n) % 2 ^ 32 < off ∨ off + n > 0xffffffff
      ∨ (v.dirents d).attr &&& attrReadOnly ≠ 0 then
    return -1
  else
    if (v.dirents d).firstClus = 0 then
      firstCluster g d
      modifyDirent d fun e => { e with clusCnt := 0 }
    ewriteLoop g d n off data
    if n > 0 then
      modifyDirent d fun e => { e with fileSize := if off + n > e.fileSize then off + n else e.fileSize }
    return n

/-! ## Creating and truncating -/

def ealloc (dp : Nat) (found : Option Nat) (attr : BitVec 8) : FatM Nat := do
  let v ← Call.get
  if (v.dirents dp).attr &&& attrDirectory = 0 then
    Call.panic .notDir
  else
    match found with
    | some ep => return ep
    | none =>
      match v.direntHead with
      | [] => Call.panic .noDirent
      | ep :: rest =>
        Call.modify fun v => { v with direntHead := rest }
        modifyDirent ep fun e => { e with
          attr := if attr = attrLink then 0 else attr, fileSize := 0, firstClus := 0 }
        eFreeInode ep
        modifyDirent ep fun e => { e with clusCnt := 0, curClus := 0 }
        Call.modify fun v => { v with files := ep :: v.files }
        if attr = attrDirectory then
          modifyDirent ep fun e => { e with attr := e.attr ||| attrDirectory }
          firstCluster g ep
        else
          modifyDirent ep fun e => { e with attr := e.attr ||| attrArchive }
        return ep

/-- Free the clusters of a chain; no chain has more clusters than the volume. -/
def truncLoop : Nat → Nat → FatM Unit
  | 0, _ => pure ()
  | fuel + 1, clus => do
    if 2 ≤ clus ∧ clus < fat32Eoc then
      let next ← readFat g clus
      freeClus g clus
      truncLoop fuel next

def etrunc (d : Nat) : FatM Unit := do
  let v ← Call.get
  truncLoop g (g.dataClusCnt + 1) (v.dirents d).firstClus
  modifyDirent d fun e => { e with fileSize := 0, firstClus := 0 }
  eFreeInode d

end Fat
end OsRiscv
