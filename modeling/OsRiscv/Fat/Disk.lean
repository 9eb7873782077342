import OsRiscv.Fat.Volume

/-!
# Disk — what the FAT functions do to the FAT and to the clusters

The disk is read as one memory (`flat`).  The entries of the FAT and the clusters are disjoint parts of
it, so a write to one of them leaves the others as they were.  The rules of the functions that touch the
disk speak of FAT entries (`fatEntry`) and of the bytes of a cluster (`clusByte`) only.
-/

namespace OsRiscv
namespace Fat

open Lib List

variable {g : Geometry} {disk disk' : Nat → Sector} {c x o n off : Nat} {data : List UInt8} {Q : Unit → Vol → Prop}
  {fuel sec : Nat}

/-- The clusters of the volume. -/
def InRange (g : Geometry) (c : Nat) : Prop := 2 ≤ c ∧ c ≤ g.dataClusCnt + 1

instance (g : Geometry) (c : Nat) : Decidable (InRange g c) := instDecidableAnd

/-- Byte `o` of cluster `c`. -/
def clusByte (g : Geometry) (disk : Nat → Sector) (c o : Nat) : UInt8 :=
  flat 512 disk (firstSecOfClus g c * 512 + o)

/-! ## Where things are -/

def fatAddr (g : Geometry) (c : Nat) : Nat := g.rsvdSecCnt * 512 + 4 * c

def clusAddr (g : Geometry) (c : Nat) : Nat := g.firstDataSec * 512 + (c - 2) * g.bytsPerClus

lemma InRange.lt_table (h : InRange g c) : c < g.fatSz * 128 := by
  have := g.table_fits
  have := h.2
  omega

lemma bytsPerClus_pos (g : Geometry) : 0 < g.bytsPerClus := by
  have := g.secPerClus_pos
  have := g.bytsPerClus_eq
  omega

lemma fatSec_mul_add (hc : c < g.fatSz * 128) : fatSecOfClus g c * 512 + fatOffsetOfClus g c = fatAddr g c := by
  have hsz := g.fatSz_lt
  unfold fatSecOfClus fatOffsetOfClus fatAddr
  rw [g.bytsPerSec_eq]
  omega

lemma fatOffset_le (g : Geometry) (c : Nat) : fatOffsetOfClus g c + 4 ≤ 512 := by
  unfold fatOffsetOfClus
  rw [g.bytsPerSec_eq]
  omega

lemma fatEntry_eq (hc : c < g.fatSz * 128) : fatEntry g disk c = ofLe (slice (flat 512 disk) (fatAddr g c) 4) := by
  unfold fatEntry
  rw [← fatSec_mul_add hc, slice_flat (fatOffset_le g c)]

lemma secs_of_range (h : InRange g c) : (c - 2) * g.secPerClus + g.secPerClus ≤ g.dataClusCnt * g.secPerClus := by
  have hle : c - 2 + 1 ≤ g.dataClusCnt := by
    have := h.1
    have := h.2
    omega
  have hmul := Nat.mul_le_mul_right g.secPerClus hle
  rwa [Nat.add_mul, Nat.one_mul] at hmul

lemma firstSec_eq (h : InRange g c) : firstSecOfClus g c = (c - 2) * g.secPerClus + g.firstDataSec := by
  have hsecs := secs_of_range h
  have hfits := g.data_fits
  have hlt := g.totSec_lt
  have hclus := g.clusters_lt
  have h2 := h.1
  have hup := h.2
  unfold firstSecOfClus
  have hsub : (c + 2 ^ 32 - 2) % 2 ^ 32 = c - 2 := by omega
  rw [hsub, Nat.mod_eq_of_lt (by omega)]

lemma firstSec_mul (h : InRange g c) : firstSecOfClus g c * 512 = clusAddr g c := by
  unfold clusAddr
  rw [firstSec_eq h, g.bytsPerClus_eq, Nat.add_mul, Nat.mul_assoc, Nat.add_comm]

lemma clusByte_eq (h : InRange g c) : clusByte g disk c o = flat 512 disk (clusAddr g c + o) := by
  unfold clusByte
  rw [firstSec_mul h]

lemma fatAddr_lt_clusAddr (hc : c < g.fatSz * 128) : fatAddr g c + 4 ≤ clusAddr g x := by
  have hfat := Nat.mul_le_mul_right g.fatSz g.fatCnt_pos
  have hfirst := g.firstDataSec_eq
  unfold fatAddr clusAddr
  omega

lemma clusAddr_apart (hc : 2 ≤ c) (hx : 2 ≤ x) (hne : c ≠ x) :
    clusAddr g c + g.bytsPerClus ≤ clusAddr g x ∨ clusAddr g x + g.bytsPerClus ≤ clusAddr g c := by
  unfold clusAddr
  rcases Nat.lt_or_gt_of_ne hne with hlt | hgt
  · have hmul := Nat.mul_le_mul_right g.bytsPerClus (show c - 2 + 1 ≤ x - 2 by omega)
    rw [Nat.add_mul] at hmul
    omega
  · have hmul := Nat.mul_le_mul_right g.bytsPerClus (show x - 2 + 1 ≤ c - 2 by omega)
    rw [Nat.add_mul] at hmul
    omega

/-! ## Writing a FAT entry, writing in a cluster -/

/-- The disk after FAT entry `c` was set to `x`. -/
structure FatWritten (g : Geometry) (disk : Nat → Sector) (c x : Nat) (disk' : Nat → Sector) : Prop where
  fat : ∀ c' < g.fatSz * 128, fatEntry g disk' c' = if c' = c then x else fatEntry g disk c'
  byte : ∀ c' o, InRange g c' → clusByte g disk' c' o = clusByte g disk c' o

/-- The disk after `data` was written at offset `off` of cluster `c`. -/
structure ClusWritten (g : Geometry) (disk : Nat → Sector) (c off : Nat) (data : List UInt8)
    (disk' : Nat → Sector) : Prop where
  fat : ∀ c' < g.fatSz * 128, fatEntry g disk' c' = fatEntry g disk c'
  same : ∀ o, clusByte g disk' c o = overlay (clusByte g disk c) off data o
  other : ∀ c' o, InRange g c' → c' ≠ c → o < g.bytsPerClus →
    clusByte g disk' c' o = clusByte g disk c' o

lemma fatWritten_of_flat (hc : c < g.fatSz * 128) (hx : x < 2 ^ 32)
    (h : flat 512 disk' = overlay (flat 512 disk) (fatAddr g c) (toLe 4 x)) : FatWritten g disk c x disk' := by
  constructor
  · intro c' hc'
    rw [fatEntry_eq hc', h]
    by_cases heq : c' = c
    · have hself := slice_overlay_self (f := flat 512 disk) (o := fatAddr g c) (l := toLe 4 x)
      rw [length_toLe] at hself
      rw [if_pos heq, heq, hself, ofLe_toLe (by simpa using hx)]
    · rw [if_neg heq, fatEntry_eq hc', slice_overlay_of_disjoint]
      rw [length_toLe]
      unfold fatAddr
      omega
  · intro c' o hc'
    have hapart := fatAddr_lt_clusAddr (x := c') hc
    rw [clusByte_eq hc', clusByte_eq hc', h, overlay_of_ge]
    rw [length_toLe]
    omega

lemma clusWritten_of_flat (hc : InRange g c) (hfit : off + data.length ≤ g.bytsPerClus)
    (h : flat 512 disk' = overlay (flat 512 disk) (clusAddr g c + off) data) :
    ClusWritten g disk c off data disk' := by
  constructor
  · intro c' hc'
    have hapart := fatAddr_lt_clusAddr (x := c) hc'
    rw [fatEntry_eq hc', fatEntry_eq hc', h, slice_overlay_of_disjoint (.inl (by omega))]
  · intro o
    have hle : clusAddr g c + off ≤ clusAddr g c + o ↔ off ≤ o := by omega
    have hsub : clusAddr g c + o - (clusAddr g c + off) = o - off := by omega
    rw [clusByte_eq hc, h]
    unfold overlay
    simp only [hle, hsub, clusByte_eq hc]
  · intro c' o hc' hne ho
    have hapart := clusAddr_apart (g := g) hc.1 hc'.1 (Ne.symm hne)
    rw [clusByte_eq hc', clusByte_eq hc', h, overlay_of_not_mem (by omega)]

/-! ## Rules -/

section Rules

variable {E : Panic → Vol → Prop} {v : Vol}

lemma readFat_wp {Q : Nat → Vol → Prop} (hc : c ≤ g.dataClusCnt + 1)
    (hQ : Q (fatEntry g v.disk c) v) : wp (readFat g c) Q E v := by
  have hlim := g.clusters_lt
  have heoc : ¬ c ≥ fat32Eoc := by unfold fat32Eoc; omega
  unfold readFat
  rw [if_neg heoc, if_neg (by omega)]
  exact hQ

lemma writeFat_wp {Q : Int → Vol → Prop} (hc : c ≤ g.dataClusCnt + 1) (hx : x < 2 ^ 32)
    (hQ : ∀ disk', FatWritten g v.disk c x disk' → Q 0 { v with disk := disk' }) :
    wp (writeFat g c x) Q E v := by
  have htable := g.table_fits
  have hfat : c < g.fatSz * 128 := by omega
  unfold writeFat
  rw [if_neg (by omega)]
  apply hQ
  apply fatWritten_of_flat hfat hx
  rw [← fatSec_mul_add hfat]
  exact flat_update (by rw [length_toLe]; exact fatOffset_le g c)

lemma bsize_eq : bsize = 512 := by
  unfold bsize
  rfl

/-- The rule for the loop of `zero_clus`: after `i` rounds the first `i` sectors are zero. -/
theorem zeroClus_loop (sec i k : Nat)
    (hQ : ∀ disk', flat 512 disk' = overlay (flat 512 v.disk) ((sec + i) * 512) (List.replicate (k * 512) 0) →
      Q () { v with disk := disk' }) :
    wp (Call.forEach (fun i => do
      let b ← fsRead (sec + i)
      bwrite (sec + i) (overlay b 0 (List.replicate bsize 0))) (List.range' i k)) Q E v := by
  induction k generalizing i v with
  | zero =>
    have h := hQ v.disk (by simp)
    exact h
  | succ k ih =>
    refine ih (i + 1) fun disk' hdisk' => ?_
    apply hQ
    have hlen : (List.replicate bsize (0 : UInt8)).length = 512 := by
      rw [length_replicate, bsize_eq]
    have hfirst := @flat_update _ 512 v.disk (sec + i) 0 (List.replicate bsize 0) (by omega)
    have hnext : (sec + (i + 1)) * 512 = (sec + i) * 512 + 0 + (List.replicate bsize (0 : UInt8)).length := by
      omega
    have hsum : (k + 1) * 512 = bsize + k * 512 := by
      rw [bsize_eq, Nat.succ_mul, Nat.add_comm]
    rw [hdisk', hfirst, hnext, overlay_append, hsum, replicate_append_replicate, Nat.add_zero]

lemma zeroClus_wp (hc : InRange g c)
    (hQ : ∀ disk', ClusWritten g v.disk c 0 (List.replicate g.bytsPerClus 0) disk' →
      Q () { v with disk := disk' }) : wp (zeroClus g c) Q E v := by
  unfold zeroClus
  rw [range_eq_range']
  refine zeroClus_loop (firstSecOfClus g c) 0 g.secPerClus fun disk' hdisk' => ?_
  apply hQ
  apply clusWritten_of_flat hc (by simp)
  rw [hdisk', Nat.add_zero, Nat.add_zero, firstSec_mul hc, g.bytsPerClus_eq]

/-! ## Allocating and freeing a cluster -/

lemma totalClusterNumber_eq (g : Geometry) : 64 * (totalClusterNumber g / 64) = g.fatSz * 128 := by
  have hsz := g.fatSz_lt
  unfold totalClusterNumber
  rw [g.bytsPerSec_eq]
  omega

/-- The state after `alloc_clus` returned `c`. -/
structure Allocated (g : Geometry) (v : Vol) (c : Nat) (t : Vol) : Prop where
  range : InRange g c
  free : Bitmap.bit v.clusterBitmap c = false
  fat : ∀ c' < g.fatSz * 128, fatEntry g t.disk c' = if c' = c then fat32Eoc + 7 else fatEntry g v.disk c'
  zero : ∀ o < g.bytsPerClus, clusByte g t.disk c o = 0
  byte : ∀ c' o, InRange g c' → c' ≠ c → o < g.bytsPerClus →
    clusByte g t.disk c' o = clusByte g v.disk c' o
  rest : t = { v with
    disk := t.disk
    clusterBitmap := Bitmap.set v.clusterBitmap c
    allocs := ⟨c, fatEntry g v.disk⟩ :: v.allocs }

lemma fatSlot_eq (g : Geometry) (c : Nat) :
    (g.rsvdSecCnt + c / (g.bytsPerSec / 4)) * 512 + 4 * (c % (g.bytsPerSec / 4)) = fatAddr g c := by
  unfold fatAddr
  rw [g.bytsPerSec_eq]
  omega

lemma allocClus_wp {Q : Nat → Vol → Prop} (hreserved : ∀ c < 2, Bitmap.bit v.clusterBitmap c = true)
    (hroom : ∃ c, InRange g c ∧ Bitmap.bit v.clusterBitmap c = false)
    (hQ : ∀ c t, Allocated g v c t → Q c t) : wp (allocClus g) Q E v := by
  rcases hroom with ⟨r, hr, hrfree⟩
  have hwords := totalClusterNumber_eq g
  have hrtable := hr.lt_table
  have hrwords : r < 64 * (totalClusterNumber g / 64) := by omega
  rcases Bitmap.firstFree_of_free hrwords hrfree with ⟨c, hfirst, hcr⟩
  rcases Bitmap.firstFree_eq_some hfirst with ⟨_, hfree, _⟩
  have hc : InRange g c := by
    refine ⟨?_, Nat.le_trans hcr hr.2⟩
    by_contra hlt
    rw [hreserved c (by omega)] at hfree
    cases hfree
  unfold allocClus
  simp only [wp_bind, wp_get, hfirst, wp_modify, fsRead, bwrite, wp_pure]
  refine zeroClus_wp hc fun disk' hzero => ?_
  have hslot : 4 * (c % (g.bytsPerSec / 4)) + (toLe 4 (fat32Eoc + 7)).length ≤ 512 := by
    rw [length_toLe, g.bytsPerSec_eq]
    omega
  have hmark := @flat_update _ 512 v.disk (g.rsvdSecCnt + c / (g.bytsPerSec / 4)) _ _ hslot
  rw [fatSlot_eq] at hmark
  have hmark' := fatWritten_of_flat hc.lt_table (by decide) hmark
  apply hQ
  constructor
  · exact hc
  · exact hfree
  · intro c' hc'
    rw [hzero.fat c' hc']
    exact hmark'.fat c' hc'
  · intro o ho
    rw [hzero.same, overlay_of_mem (Nat.zero_le o) (by simpa using ho), getElem_replicate]
  · intro c' o hc' hne ho
    rw [hzero.other c' o hc' hne ho]
    exact hmark'.byte c' o hc'
  · rfl

lemma freeClus_wp (hc : InRange g c) (hQ : ∀ disk', FatWritten g v.disk c 0 disk' →
      Q () { v with disk := disk', clusterBitmap := Bitmap.clear v.clusterBitmap c }) :
    wp (freeClus g c) Q E v := by
  unfold freeClus
  simp only [wp_bind, wp_modify]
  exact writeFat_wp hc.2 (by decide) hQ

/-! ## Reading and writing in a cluster -/

lemma next_address {sec off m len : Nat} (hm : m = min (512 - off % 512) len) (hlt : m < len) :
    (sec + 1) * 512 + (off + m) % 512 = sec * 512 + off % 512 + m := by
  omega

lemma copyIn_wp (hfuel : data.length ≤ fuel)
    (hQ : ∀ disk', flat 512 disk' = overlay (flat 512 v.disk) (sec * 512 + off % 512) data →
      Q () { v with disk := disk' }) :
    wp (copyIn fuel sec off data) Q E v := by
  induction fuel generalizing v sec off data with
  | zero =>
    have hnil : data = [] := length_eq_zero_iff.1 (by omega)
    have h := hQ v.disk (by rw [hnil, overlay_nil])
    exact h
  | succ fuel ih =>
    unfold copyIn
    split
    · rename_i hnil
      have h := hQ v.disk (by rw [hnil, overlay_nil])
      exact h
    rename_i hdata
    have hpos : 0 < data.length := length_pos_iff.2 hdata
    rcases hm : min (512 - off % 512) data.length with _ | m
    · omega
    have htake : (data.take (m + 1)).length = m + 1 := by
      rw [length_take]
      omega
    have hfirst := @flat_update _ 512 v.disk sec (off % 512) (data.take (m + 1)) (by omega)
    simp only [wp_bind, wp_get, wp_pure, wp_modify, fsRead, bwrite, bsize_eq, hm]
    refine ih (by rw [length_drop]; omega) fun disk' hdisk' => hQ disk' ?_
    rw [hdisk', hfirst]
    -- either this round took all the data, or the next one goes on behind it
    rcases Nat.lt_or_ge (m + 1) data.length with hlt | hge
    · have happend := @overlay_append _ (flat 512 v.disk) (sec * 512 + off % 512) (data.take (m + 1))
        (data.drop (m + 1))
      rw [htake, take_append_drop] at happend
      rw [next_address hm.symm hlt, happend]
    · rw [drop_eq_nil_of_le hge, overlay_nil, take_of_length_le hge]

lemma copyOut_wp {Q : List UInt8 → Vol → Prop} (hfuel : n ≤ fuel)
    (hQ : Q (slice (flat 512 v.disk) (sec * 512 + off % 512) n) v) : wp (copyOut fuel sec off n) Q E v := by
  induction fuel generalizing sec off n Q with
  | zero =>
    have hn : n = 0 := by omega
    subst hn
    exact hQ
  | succ fuel ih =>
    unfold copyOut
    split
    · rename_i hn
      subst hn
      exact hQ
    rcases hm : min (512 - off % 512) n with _ | m
    · omega
    simp only [wp_bind, wp_get, wp_pure, fsRead, bsize_eq, hm]
    refine ih (by omega) ?_
    rw [← slice_flat (B := 512) (by omega)]
    have hsum : m + 1 + (n - (m + 1)) = n := by omega
    rcases Nat.lt_or_ge (m + 1) n with hlt | hge
    · rwa [next_address hm.symm hlt, ← slice_add, hsum]
    · have hzero : n - (m + 1) = 0 := by omega
      have hall : m + 1 = n := by omega
      rwa [hzero, slice_zero, append_nil, hall]

lemma sec_mul_add (hc : InRange g c) :
    (firstSecOfClus g c + off / g.bytsPerSec) * 512 + off % g.bytsPerSec % 512 = clusAddr g c + off := by
  rw [g.bytsPerSec_eq, Nat.add_mul, firstSec_mul hc]
  omega

lemma rwClusWrite_wp (hc : InRange g c) (hfit : off + data.length ≤ g.bytsPerClus)
    (hQ : ∀ disk', ClusWritten g v.disk c off data disk' → Q () { v with disk := disk' }) :
    wp (rwClusWrite g c off data) Q E v := by
  unfold rwClusWrite
  rw [if_neg (by omega)]
  refine copyIn_wp (Nat.le_refl _) fun disk' hdisk' => hQ disk' ?_
  rw [sec_mul_add hc] at hdisk'
  exact clusWritten_of_flat hc hfit hdisk'

lemma rwClusRead_wp {Q : List UInt8 → Vol → Prop} (hc : InRange g c) (hfit : off + n ≤ g.bytsPerClus)
    (hQ : Q (slice (clusByte g v.disk c) off n) v) : wp (rwClusRead g c off n) Q E v := by
  unfold rwClusRead
  rw [if_neg (by omega)]
  refine copyOut_wp (Nat.le_refl _) ?_
  rw [sec_mul_add hc]
  have hsame : slice (flat 512 v.disk) (clusAddr g c + off) n = slice (clusByte g v.disk c) off n := by
    apply map_congr_left
    intro i _
    rw [clusByte_eq hc, Nat.add_assoc]
  rwa [hsame]

end Rules

end Fat
end OsRiscv
