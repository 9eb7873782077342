import OsRiscv.Fat.Volume

/-!
# Raw — the volume that a boot sector describes

`fatInit` accepts a boot sector by two checks, its mark and the size of a sector.  Here the functions of `Fat.c`
that find sectors and clusters are taken as they are for any superblock, without the well-formedness of
`Geometry`; on a `Geometry` they are those of `Volume`.

The first half of the module is about the numbers in an accepted boot sector.
-/

namespace OsRiscv
namespace Fat

open Lib

/-- "FAT32" -/
def fat32Mark : List UInt8 := [0x46, 0x41, 0x54, 0x33, 0x32]

/-- The checks that `fatInit` makes; it panics when one fails. -/
def accepts (b : Sector) : Bool := slice b 82 5 = fat32Mark ∧ (superBlockOf b).bytsPerSec = 512

namespace SuperBlock

variable (s : SuperBlock)

/-- `data_sec_cnt` -/
def dataSecCnt : Nat := (s.totSec + 2 ^ 32 - s.firstDataSec) % 2 ^ 32

/-- `data_clus_cnt + 1`, in 32 bits -/
def lastClus : Nat := (s.dataClusCnt + 1) % 2 ^ 32

def firstSecOfClus (cluster : Nat) : Nat :=
  ((cluster + 2 ^ 32 - 2) % 2 ^ 32 * s.secPerClus + s.firstDataSec) % 2 ^ 32

def fatSecOfClus (cluster fatNum : Nat) : Nat :=
  (s.rsvdSecCnt + cluster * 4 % 2 ^ 32 / s.bytsPerSec + s.fatSz * (fatNum - 1)) % 2 ^ 32

def fatOffsetOfClus (cluster : Nat) : Nat := cluster * 4 % 2 ^ 32 % s.bytsPerSec

/-- The FAT entry of a cluster, on the disk. -/
def fatEntry (disk : Nat → Sector) (cluster : Nat) : Nat :=
  ofLe (slice (disk (s.fatSecOfClus cluster 1)) (s.fatOffsetOfClus cluster) 4)

end SuperBlock

/-! ## The same on a `Geometry` -/

lemma fatSecOfClus_raw (g : Geometry) {c : Nat} (hc : c < g.fatSz * 128) :
    fatSecOfClus g c = g.toSuperBlock.fatSecOfClus c 1 := by
  have hfirst := g.firstDataSec_eq
  have hfits := g.data_fits
  have htot := g.totSec_lt
  have hcnt := Nat.mul_le_mul_right g.fatSz g.fatCnt_pos
  unfold fatSecOfClus SuperBlock.fatSecOfClus
  rw [g.bytsPerSec_eq]
  omega

lemma fatEntry_raw (g : Geometry) {c : Nat} (hc : c < g.fatSz * 128) (disk : Nat → Sector) :
    fatEntry g disk c = g.toSuperBlock.fatEntry disk c := by
  unfold fatEntry SuperBlock.fatEntry
  rw [fatSecOfClus_raw g hc]
  rfl

/-! ## An accepted boot sector -/

/-- The geometry of a volume is consistent. -/
structure SuperBlock.Consistent (s : SuperBlock) : Prop where
  secPerClus : s.secPerClus ≠ 0
  firstDataSec : s.firstDataSec = s.rsvdSecCnt + s.fatCnt * s.fatSz
  dataSecCnt : s.firstDataSec + s.dataSecCnt = s.totSec
  fat : ∀ c < 2 ^ 32, c ≤ s.dataClusCnt + 1 →
    s.rsvdSecCnt ≤ s.fatSecOfClus c 1 ∧ s.fatSecOfClus c 1 < s.rsvdSecCnt + s.fatSz
  data : ∀ c, 2 ≤ c → c < 2 ^ 32 → c ≤ s.dataClusCnt + 1 → ∀ i < s.secPerClus,
    s.firstDataSec ≤ s.firstSecOfClus c + i ∧ s.firstSecOfClus c + i < s.totSec
  apart : ∀ c c', 2 ≤ c → c < 2 ^ 32 → c ≤ s.dataClusCnt + 1 → 2 ≤ c' → c' < 2 ^ 32 → c' ≤ s.dataClusCnt + 1 →
    c ≠ c' → ∀ i < s.secPerClus, ∀ j < s.secPerClus, s.firstSecOfClus c + i ≠ s.firstSecOfClus c' + j

/-- What `fatInit` would have to check: clusters have sectors, the FATs and the reserved sectors fit into the volume,
and a FAT has an entry for every cluster (there are 2 ^ 30 numbers of clusters that a shift by 2 keeps apart). -/
structure SuperBlock.Fits (s : SuperBlock) : Prop where
  secPerClus : s.secPerClus ≠ 0
  tables : s.rsvdSecCnt + s.fatCnt * s.fatSz ≤ s.totSec
  entries : min (s.dataClusCnt + 1) (2 ^ 30 - 1) / 128 < s.fatSz

/-- What the widths of the fields say. -/
structure SuperBlock.Read (s : SuperBlock) : Prop where
  bytsPerSec : s.bytsPerSec = 512
  secPerClus : s.secPerClus < 2 ^ 8
  rsvdSecCnt : s.rsvdSecCnt < 2 ^ 16
  totSec : s.totSec < 2 ^ 32
  fatSz : s.fatSz < 2 ^ 32
  firstDataSec : s.firstDataSec = (s.rsvdSecCnt + s.fatCnt * s.fatSz) % 2 ^ 32
  dataClusCnt : s.dataClusCnt = divuw s.dataSecCnt s.secPerClus

lemma ofLe_slice_lt (b : Sector) (o n : Nat) : ofLe (slice b o n) < 256 ^ n := by
  simpa using ofLe_lt (slice b o n)

lemma accepts_read {b : Sector} (h : accepts b = true) : (superBlockOf b).Read where
  bytsPerSec := (of_decide_eq_true h).2
  secPerClus := ofLe_slice_lt b 13 1
  rsvdSecCnt := ofLe_slice_lt b 14 2
  totSec := ofLe_slice_lt b 32 4
  fatSz := ofLe_slice_lt b 36 4
  firstDataSec := rfl
  dataClusCnt := rfl

variable {s : SuperBlock} {c : Nat}

lemma SuperBlock.Read.fatSecOfClus_eq (h : s.Read) (c : Nat) :
    s.fatSecOfClus c 1 = s.rsvdSecCnt + c * 4 % 2 ^ 32 / 512 := by
  have hrsvd := h.rsvdSecCnt
  unfold SuperBlock.fatSecOfClus
  rw [h.bytsPerSec]
  omega

section

variable (h : s.Read) (hf : s.Fits)
include h hf

lemma SuperBlock.Fits.firstDataSec_eq :
    s.firstDataSec = s.rsvdSecCnt + s.fatCnt * s.fatSz ∧ s.firstDataSec + s.dataSecCnt = s.totSec := by
  have htables := hf.tables
  have htot := h.totSec
  have hfirst : s.firstDataSec = s.rsvdSecCnt + s.fatCnt * s.fatSz := by
    rw [h.firstDataSec]
    exact Nat.mod_eq_of_lt (by omega)
  unfold SuperBlock.dataSecCnt
  omega

lemma SuperBlock.Fits.secs_le (hc : 2 ≤ c) (hlast : c ≤ s.dataClusCnt + 1) :
    (c - 2) * s.secPerClus + s.secPerClus ≤ s.dataSecCnt := by
  have hdiv : s.dataClusCnt = s.dataSecCnt / s.secPerClus := by
    rw [h.dataClusCnt, divuw, if_neg hf.secPerClus]
  have hle : c - 2 + 1 ≤ s.dataSecCnt / s.secPerClus := by omega
  have hmul := Nat.le_trans (Nat.mul_le_mul_right s.secPerClus hle) (Nat.div_mul_le_self _ _)
  rwa [Nat.add_mul, Nat.one_mul] at hmul

lemma SuperBlock.Fits.firstSecOfClus_eq (hc : 2 ≤ c) (hlt : c < 2 ^ 32)
    (hlast : c ≤ s.dataClusCnt + 1) : s.firstSecOfClus c = (c - 2) * s.secPerClus + s.firstDataSec := by
  have hsecs := hf.secs_le h hc hlast
  have htot := h.totSec
  have hdata := (hf.firstDataSec_eq h).2
  have hsub : (c + 2 ^ 32 - 2) % 2 ^ 32 = c - 2 := by omega
  unfold SuperBlock.firstSecOfClus
  rw [hsub]
  exact Nat.mod_eq_of_lt (by omega)

lemma SuperBlock.Fits.consistent : s.Consistent := by
  rcases hf.firstDataSec_eq h with ⟨hfirst, hdata⟩
  refine ⟨hf.secPerClus, hfirst, hdata, ?_, ?_, ?_⟩
  · intro c hlt hlast
    have hentries := hf.entries
    rw [h.fatSecOfClus_eq]
    omega
  · intro c hc hlt hlast i hi
    have hsecs := hf.secs_le h hc hlast
    rw [hf.firstSecOfClus_eq h hc hlt hlast]
    omega
  · intro c c' hc hlt hlast hc' hlt' hlast' hne i hi j hj
    rw [hf.firstSecOfClus_eq h hc hlt hlast, hf.firstSecOfClus_eq h hc' hlt' hlast']
    -- the one with the smaller number ends before the other begins
    rcases Nat.lt_or_gt_of_ne hne with hbefore | hafter
    · have hmul := Nat.mul_le_mul_right s.secPerClus (show c - 2 + 1 ≤ c' - 2 by omega)
      rw [Nat.add_mul, Nat.one_mul] at hmul
      omega
    · have hmul := Nat.mul_le_mul_right s.secPerClus (show c' - 2 + 1 ≤ c - 2 by omega)
      rw [Nat.add_mul, Nat.one_mul] at hmul
      omega

end

lemma SuperBlock.Consistent.fits (h : s.Read) (hc : s.Consistent) : s.Fits := by
  refine ⟨hc.secPerClus, ?_, ?_⟩
  · have hfirst := hc.firstDataSec
    have hdata := hc.dataSecCnt
    omega
  · have hlast := (hc.fat (min (s.dataClusCnt + 1) (2 ^ 30 - 1)) (by omega) (by omega)).2
    rw [h.fatSecOfClus_eq] at hlast
    omega

theorem volume_consistent_iff {b : Sector} (h : accepts b = true) :
    (superBlockOf b).Consistent ↔ (superBlockOf b).Fits :=
  ⟨fun hc => hc.fits (accepts_read h), fun hf => hf.consistent (accepts_read h)⟩

/-- A boot sector with the mark: the sectors per cluster, the reserved sectors, the number of FATs, all sectors and the
sectors of a FAT are arguments. -/
def markedSector (secPerClus rsvdSecCnt fatCnt totSec fatSz : Nat) : Sector :=
  let b := overlay (fun _ => 0) 11 (toLe 2 512 ++ toLe 1 secPerClus ++ toLe 2 rsvdSecCnt ++ toLe 1 fatCnt)
  let b := overlay b 32 (toLe 4 totSec ++ toLe 4 fatSz ++ toLe 4 0 ++ toLe 4 2)
  overlay b 82 fat32Mark

theorem volume_consistent_small : accepts (markedSector 1 1 1 5 1) = true ∧
    (superBlockOf (markedSector 1 1 1 5 1)).Consistent := by
  have haccepts : accepts (markedSector 1 1 1 5 1) = true := by decide +kernel
  exact ⟨haccepts, (volume_consistent_iff haccepts).2 ⟨by decide +kernel, by decide +kernel, by decide +kernel⟩⟩

/-- A boot sector with 0 sectors per cluster is accepted; so is one whose FATs are larger than the volume. -/
theorem accepted_inconsistent :
    (accepts (markedSector 0 1 1 5 1) = true ∧ ¬(superBlockOf (markedSector 0 1 1 5 1)).Consistent) ∧
      accepts (markedSector 1 1 2 5 100) = true ∧ ¬(superBlockOf (markedSector 1 1 2 5 100)).Consistent := by
  refine ⟨⟨by decide +kernel, ?_⟩, by decide +kernel, ?_⟩
  · intro hc
    exact hc.secPerClus (by decide +kernel)
  · intro hc
    exact absurd hc.dataSecCnt (by decide +kernel)

end Fat
end OsRiscv
