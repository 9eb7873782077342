import OsRiscv.Fat.Reloc

/-!
# Init — a volume as `fatInit` leaves it

The bitmap has a bit for each non-zero entry of the FAT, and each file has its first cluster in the
cache.  If the first two entries of the FAT are non-zero and the chains of the files are well formed, the
invariant holds.
-/

namespace OsRiscv
namespace Fat

open Lib List

variable {g : Geometry} {v : Vol} {ch : Nat → List Nat} {disk : Nat → Sector} {c d : Nat} {l : List Nat}
  {fat : List Nat} {n : Fin 100}

/-! ## The bitmap -/

lemma fatEntry_sector {i j : Nat} (hi : i < g.fatSz) (hj : j < 128) :
    ofLe (slice (disk (g.rsvdSecCnt + i)) (4 * j) 4) = fatEntry g disk (i * 128 + j) := by
  have hsz := g.fatSz_lt
  have hmod : (i * 128 + j) * 4 % 2 ^ 32 = (i * 128 + j) * 4 := Nat.mod_eq_of_lt (by omega)
  have hsec : (i * 128 + j) * 4 / 512 = i := by omega
  have hoff : (i * 128 + j) * 4 % 512 = 4 * j := by omega
  unfold fatEntry fatSecOfClus fatOffsetOfClus
  rw [g.bytsPerSec_eq, hmod, hsec, hoff]

lemma bit_fatInitBitmap (hc : c < g.fatSz * 128) :
    Bitmap.bit (fatInitBitmap g disk) c = true ↔ fatEntry g disk c ≠ 0 := by
  unfold fatInitBitmap
  rw [g.bytsPerSec_eq]
  -- a round of the outer loop adds the clusters of one sector of the FAT
  have hround : ∀ w, ∀ i ∈ List.range g.fatSz, Bitmap.bit ((List.range (512 / 4)).foldl (fun words j =>
      if ofLe (slice (disk (g.rsvdSecCnt + i)) (4 * j) 4) ≠ 0 then Bitmap.set words (i * (512 / 4) + j)
      else words) w) c = true ↔ Bitmap.bit w c = true ∨ (c / 128 = i ∧ fatEntry g disk c ≠ 0) := by
    intro w i hi
    have hi' := mem_range.1 hi
    refine (Bitmap.bit_foldl (R := fun j => c = i * 128 + j ∧ fatEntry g disk c ≠ 0) ?_ w).trans ?_
    · intro w j hj
      have hj' : j < 128 := mem_range.1 hj
      rw [fatEntry_sector hi' hj']
      by_cases hcj : c = i * 128 + j
      · subst hcj
        by_cases hzero : fatEntry g disk (i * 128 + j) = 0
        · simp [hzero]
        · simp [hzero]
      · split <;> simp [hcj]
    · refine or_congr .rfl ⟨?_, ?_⟩
      · rintro ⟨j, hj, hcj, hne⟩
        have hj' : j < 128 := mem_range.1 hj
        exact ⟨by omega, hne⟩
      · rintro ⟨hdiv, hne⟩
        exact ⟨c % 128, mem_range.2 (Nat.mod_lt _ (by decide)), by omega, hne⟩
  refine (Bitmap.bit_foldl hround _).trans ?_
  constructor
  · rintro (hzero | ⟨i, _, _, hne⟩)
    · simp [Bitmap.bit] at hzero
    · exact hne
  · intro hne
    exact .inr ⟨c / 128, mem_range.2 (by omega), rfl, hne⟩

/-! ## Chains that can be computed -/

lemma FileChain.length_le {fat : Nat → Nat} (h : FileChain g fat c l) : l.length ≤ g.dataClusCnt := by
  have hsub : l ⊆ List.range' 2 g.dataClusCnt := by
    intro x hx
    have hr := h.ok_of_mem hx
    have h2 := hr.1
    have hup := hr.2
    exact mem_range'_1.2 ⟨h2, by omega⟩
  simpa using (subperm_of_subset h.nodup hsub).length_le

/-- The chain of a file, obtained by following the FAT from its first cluster. -/
def chainOf (g : Geometry) (v : Vol) (d : Nat) : List Nat :=
  if (v.dirents d).firstClus = 0 then []
  else Chain.walk (fatEntry g v.disk) EndMark g.dataClusCnt (v.dirents d).firstClus

lemma chainOf_eq (hfirst : (v.dirents d).firstClus ≠ 0)
    (h : FileChain g (fatEntry g v.disk) (v.dirents d).firstClus l) : chainOf g v d = l := by
  unfold chainOf
  rw [if_neg hfirst]
  exact h.walk_eq (FileChain.length_le h)

lemma Inv.chainOf (h : Inv g v ch) (hd : d ∈ v.files) : Fat.chainOf g v d = ch d := by
  by_cases hfirst : (v.dirents d).firstClus = 0
  · rw [(h.empty d hd hfirst).1]
    exact if_pos hfirst
  · exact chainOf_eq hfirst (h.chain d hd hfirst).chain

/-! ## The initial volume -/

/-- A volume after `fatInit`: the dirents are as `read_entry_info` leaves them. -/
structure Initialised (g : Geometry) (v : Vol) : Prop where
  boot : superBlockOf (v.disk 0) = g.toSuperBlock
  bitmap : v.clusterBitmap = fatInitBitmap g v.disk
  files : ∀ d ∈ v.files, (v.dirents d).inodeMaxCluster = 1 ∧ (v.dirents d).inode 0 = (v.dirents d).firstClus
  spare : v.direntHead.Nodup ∧
    ∀ d ∈ v.direntHead, d ∉ v.files ∧ (v.dirents d).inodeMaxCluster ≤ 1
  allocs : v.allocs = []

lemma held_le_two (h : Initialised g v) : held v d ≤ 2 := by
  unfold held
  split
  · rename_i hd
    rw [(h.files d hd).1]
  · omega

lemma Initialised.inv (h : Initialised g v) (hzero : fatEntry g v.disk 0 ≠ 0) (hone : fatEntry g v.disk 1 ≠ 0)
    (hchains : ∀ d ∈ v.files, (v.dirents d).firstClus ≠ 0 →
      ∃ l, FileChain g (fatEntry g v.disk) (v.dirents d).firstClus l) :
    Inv g v (chainOf g v) := by
  have htable := g.table_fits
  constructor
  · intro c hc
    rw [h.bitmap]
    refine (bit_fatInitBitmap (by omega)).2 ?_
    have hcases : c = 0 ∨ c = 1 := by omega
    rcases hcases with rfl | rfl
    · exact hzero
    · exact hone
  · intro c hc
    rw [h.bitmap]
    exact bit_fatInitBitmap hc.lt_table
  · intro d hd hfirst
    exact ⟨if_pos hfirst, Nat.le_of_eq (h.files d hd).1⟩
  · intro d hd hfirst
    rcases hchains d hd hfirst with ⟨l, hl⟩
    rcases h.files d hd with ⟨hmax, hitem⟩
    rw [chainOf_eq hfirst hl]
    have hpos := hl.length_pos
    constructor
    · exact hl
    · omega
    · omega
    · omega
    · intro j hj
      have hj0 : j = 0 := by omega
      subst hj0
      rw [hl.getElem?_zero, ← hitem]
      rfl
  · -- no inode of the pool is in use yet
    have hnone : ∀ (d : Nat) (n : Node), ¬ n.Owned (held v d) := by
      intro d n hn
      have hle := held_le_two h (d := d)
      have hlt := hn.2
      cases n <;> simp only [Node.start] at hlt <;> omega
    exact ⟨fun d n hn => absurd hn (hnone d n), fun d n _ _ hn => absurd hn (hnone d n)⟩
  · exact h.spare
  · rw [h.allocs]
    intro ev hev
    cases hev

/-! ## Small volumes -/

instance neZero_100 : NeZero 100 := ⟨nofun⟩

/-- A volume of `n` clusters of one sector. -/
def smallGeometry (n : Fin 100) : Geometry where
  bytsPerSec := 512
  secPerClus := 1
  rsvdSecCnt := 1
  fatCnt := 1
  totSec := 2 + n.val
  fatSz := 1
  rootClus := 2
  firstDataSec := 2
  dataClusCnt := n.val
  bytsPerClus := 512
  bytsPerSec_eq := rfl
  secPerClus_pos := by decide
  fatCnt_pos := by decide
  firstDataSec_eq := rfl
  data_fits := by simp
  totSec_lt := by omega
  bytsPerClus_eq := rfl
  table_fits := by omega
  fatSz_lt := by decide
  clusters_lt := by omega

/-- A volume of 71000 clusters of one sector. -/
def longGeometry : Geometry where
  bytsPerSec := 512
  secPerClus := 1
  rsvdSecCnt := 1
  fatCnt := 1
  totSec := 71556
  fatSz := 555
  rootClus := 2
  firstDataSec := 556
  dataClusCnt := 71000
  bytsPerClus := 512
  bytsPerSec_eq := rfl
  secPerClus_pos := by decide
  fatCnt_pos := by decide
  firstDataSec_eq := rfl
  data_fits := by decide
  totSec_lt := by decide
  bytsPerClus_eq := rfl
  table_fits := by decide
  fatSz_lt := by decide
  clusters_lt := by decide

def bootSectorOf (totSec fatSz : Nat) : Sector :=
  let b := overlay (fun _ => 0) 11 (toLe 2 512 ++ [1] ++ toLe 2 1 ++ [1])
  let b := overlay b 32 (toLe 4 totSec ++ toLe 4 fatSz)
  overlay b 44 (toLe 4 2)

def bootSector (n : Fin 100) : Sector := bootSectorOf (2 + n.val) 1

def smallDisk (n : Fin 100) (fat : List Nat) : Nat → Sector
  | 0 => bootSector n
  | 1 => overlay (fun _ => 0) 0 (fat.flatMap (toLe 4))
  | _ => fun _ => 0

/-- The dirents of a small volume: dirent 0 is the root, which starts at cluster 2. -/
def smallDirents (d : Nat) : Dirent where
  attr := if d = 0 then attrDirectory else 0
  firstClus := if d = 0 then 2 else 0
  fileSize := 0
  curClus := if d = 0 then 2 else 0
  inodeMaxCluster := if d = 0 then 1 else 0
  clusCnt := 0
  inode _ := if d = 0 then 2 else 0
  dev := .regular

def smallVolume (n : Fin 100) (fat : List Nat) : Vol where
  disk := smallDisk n fat
  clusterBitmap := fatInitBitmap (smallGeometry n) (smallDisk n fat)
  inodes _ _ := 0
  inodeBitmap _ := 0
  dirents := smallDirents
  files := [0]
  direntHead := [1, 2]
  allocs := []

lemma smallVolume_initialised (hboot : superBlockOf (bootSector n) = (smallGeometry n).toSuperBlock) :
    Initialised (smallGeometry n) (smallVolume n fat) where
  boot := hboot
  bitmap := rfl
  files := by simp [smallVolume, smallDirents]
  spare := by simp [smallVolume, smallDirents]
  allocs := rfl

lemma smallVolume_chain (hn : 0 < n.val)
    (hend : EndMark (fatEntry (smallGeometry n) (smallDisk n fat) 2)) :
    FileChain (smallGeometry n) (fatEntry (smallGeometry n) (smallDisk n fat)) 2 [2] :=
  Chain.last ⟨Nat.le_refl 2, Nat.succ_le_succ hn⟩ hend

/-- The FAT of an otherwise empty small volume. -/
def smallFat : List Nat := [0x0ffffff8, 0x0fffffff, 0x0fffffff]

end Fat
end OsRiscv
