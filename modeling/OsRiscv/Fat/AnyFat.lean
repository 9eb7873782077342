import Mathlib.Data.Set.Card
import Mathlib.Order.Interval.Finset.Nat
import OsRiscv.Fat.Raw

/-!
# AnyFat — freeing and allocating clusters, whatever is on the disk

The loop of `etrunc` and `alloc_clus`, on the volume of any superblock and with any FAT and bitmap.

`free_clus` clears the bit of every cluster that the chain leads to, also of one behind the end of the volume.  The
words of the bitmap are in pages that `fatInit` maps, as many as the FAT has entries for (`mapped`); a store to
another word is a page fault in the kernel.
-/

namespace OsRiscv
namespace Fat

open Lib List

/-- The part of the state that these functions work on.  `written` is a history variable: the sectors written. -/
structure Device where
  disk : Nat → Sector
  clusterBitmap : Nat → BitVec 64
  mapped : Nat → Bool
  written : List Nat

inductive Halt
  | pageFault
  | noCluster
  | fuel
  deriving DecidableEq, Repr

def Device.bwrite (r : Device) (sec : Nat) (data : Sector) : Device :=
  { r with disk := Function.update r.disk sec data, written := sec :: r.written }

namespace SuperBlock

variable (s : SuperBlock)

def readFat (r : Device) (cluster : Nat) : Nat :=
  if cluster ≥ fat32Eoc then cluster
  else if cluster > s.lastClus then 0
  else s.fatEntry r.disk cluster

def writeFat (r : Device) (cluster content : Nat) : Device :=
  if cluster > s.lastClus then r
  else
    let sec := s.fatSecOfClus cluster 1
    r.bwrite sec (overlay (r.disk sec) (s.fatOffsetOfClus cluster) (toLe 4 content))

def freeClus (r : Device) (cluster : Nat) : Except Halt Device :=
  let r := s.writeFat r cluster 0
  if r.mapped (cluster / 64) then .ok { r with clusterBitmap := Bitmap.clear r.clusterBitmap cluster }
  else .error .pageFault

/-- The loop of `etrunc`. -/
def truncLoop : Nat → Nat → Device → Except Halt Device
  | 0, _, _ => .error .fuel
  | n + 1, clus, r =>
    if 2 ≤ clus ∧ clus < fat32Eoc then do
      let next := s.readFat r clus
      let r ← s.freeClus r clus
      truncLoop n next r
    else .ok r

def totalClusterNumber : Nat := s.fatSz * s.bytsPerSec % 2 ^ 32 / 4

/-- The words in the pages that `fatInit` maps: one page at least, and until there is a bit for each entry. -/
def bitmapWord (w : Nat) : Bool := w < 512 * max 1 ((s.totalClusterNumber + 32767) / 32768)

def zeroClus (r : Device) (cluster : Nat) : Device :=
  (List.range s.secPerClus).foldl (fun r i =>
    let sec := (s.firstSecOfClus cluster + i) % 2 ^ 32
    r.bwrite sec (overlay (r.disk sec) 0 (List.replicate bsize 0))) r

def allocClus (r : Device) : Except Halt (Nat × Device) :=
  match Bitmap.firstFree r.clusterBitmap (s.totalClusterNumber / 64) with
  | some cluster =>
    let r := { r with clusterBitmap := Bitmap.set r.clusterBitmap cluster }
    let entPerSec := s.bytsPerSec / 4
    let sec := (s.rsvdSecCnt + cluster / entPerSec) % 2 ^ 32
    let r := r.bwrite sec (overlay (r.disk sec) (4 * (cluster % entPerSec)) (toLe 4 (fat32Eoc + 7)))
    .ok (cluster, s.zeroClus r cluster)
  | none => .error .noCluster

end SuperBlock

variable {s : SuperBlock} {r r' t : Device} {c x clus n : Nat}

/-! ## Entries of the FAT -/

namespace SuperBlock

lemma Read.fatEntry_eq (h : s.Read) (hc : c < 2 ^ 30) (disk : Nat → Sector) :
    s.fatEntry disk c = ofLe (slice (flat 512 disk) (s.rsvdSecCnt * 512 + 4 * c) 4) := by
  have hmod : c * 4 % 2 ^ 32 = c * 4 := Nat.mod_eq_of_lt (by omega)
  have haddr : s.rsvdSecCnt * 512 + 4 * c = (s.rsvdSecCnt + c * 4 / 512) * 512 + c * 4 % 512 := by omega
  unfold fatEntry fatOffsetOfClus
  rw [h.fatSecOfClus_eq, h.bytsPerSec, hmod, haddr, slice_flat (by omega)]

lemma Read.flat_writeFat (h : s.Read) (hc : c < 2 ^ 30) (hlast : c ≤ s.lastClus) (x : Nat) :
    flat 512 (s.writeFat r c x).disk = overlay (flat 512 r.disk) (s.rsvdSecCnt * 512 + 4 * c) (toLe 4 x) := by
  have hmod : c * 4 % 2 ^ 32 = c * 4 := Nat.mod_eq_of_lt (by omega)
  have haddr : s.rsvdSecCnt * 512 + 4 * c = (s.rsvdSecCnt + c * 4 / 512) * 512 + c * 4 % 512 := by omega
  have hfit : c * 4 % 512 + (toLe 4 x).length ≤ 512 := by
    rw [length_toLe]
    omega
  unfold writeFat
  rw [if_neg (Nat.not_lt.2 hlast)]
  unfold fatOffsetOfClus
  rw [h.fatSecOfClus_eq, h.bytsPerSec, hmod, haddr]
  exact flat_update hfit

lemma Read.fatEntry_writeFat (h : s.Read) (hc : c < 2 ^ 30) (hlast : c ≤ s.lastClus) (hx : x < 2 ^ 32) {c' : Nat}
    (hc' : c' < 2 ^ 30) : s.fatEntry (s.writeFat r c x).disk c' = if c' = c then x else s.fatEntry r.disk c' := by
  rw [h.fatEntry_eq hc', h.flat_writeFat hc hlast]
  by_cases heq : c' = c
  · have hself := slice_overlay_self (f := flat 512 r.disk) (o := s.rsvdSecCnt * 512 + 4 * c) (l := toLe 4 x)
    rw [length_toLe] at hself
    rw [if_pos heq, heq, hself, ofLe_toLe (by simpa using hx)]
  · rw [if_neg heq, h.fatEntry_eq hc', slice_overlay_of_disjoint]
    rw [length_toLe]
    omega

end SuperBlock

lemma writeFat_behind (hlast : s.lastClus < clus) : s.writeFat r clus x = r := by
  unfold SuperBlock.writeFat
  rw [if_pos hlast]

lemma writeFat_bitmap : (s.writeFat r clus x).mapped = r.mapped ∧
    (s.writeFat r clus x).clusterBitmap = r.clusterBitmap := by
  unfold SuperBlock.writeFat
  split
  · exact ⟨rfl, rfl⟩
  · exact ⟨rfl, rfl⟩

lemma freeClus_eq : s.freeClus r clus = if r.mapped (clus / 64) = true then
      .ok { s.writeFat r clus 0 with clusterBitmap := Bitmap.clear r.clusterBitmap clus }
    else .error .pageFault := by
  unfold SuperBlock.freeClus
  dsimp only
  rw [writeFat_bitmap.1, writeFat_bitmap.2]

lemma freeClus_mapped (hfree : s.freeClus r clus = .ok r') : r.mapped (clus / 64) = true := by
  by_contra hnot
  rw [freeClus_eq, if_neg hnot] at hfree
  cases hfree

/-! ## The same on a `Geometry` -/

def Vol.device (v : Vol) (mapped : Nat → Bool) : Device := ⟨v.disk, v.clusterBitmap, mapped, []⟩

section Geometry

variable (g : Geometry) (v : Vol) (mapped : Nat → Bool)

lemma lastClus_raw : g.toSuperBlock.lastClus = g.dataClusCnt + 1 := by
  have hlt := g.clusters_lt
  exact Nat.mod_eq_of_lt (by omega)

lemma readFat_raw : readFat g c v = .done (g.toSuperBlock.readFat (v.device mapped) c) v := by
  have htable := g.table_fits
  unfold readFat SuperBlock.readFat
  rw [lastClus_raw]
  split
  · rfl
  · split
    · rfl
    · change Outcome.done (fatEntry g v.disk c) v = _
      rw [fatEntry_raw g (by omega)]
      rfl

lemma writeFat_raw : ∃ i, writeFat g c x v =
    .done i { v with disk := (g.toSuperBlock.writeFat (v.device mapped) c x).disk } := by
  have htable := g.table_fits
  unfold writeFat SuperBlock.writeFat
  rw [lastClus_raw]
  split
  · exact ⟨-1, rfl⟩
  · refine ⟨0, ?_⟩
    rw [fatSecOfClus_raw g (by omega)]
    rfl

lemma freeClus_raw (h : g.toSuperBlock.freeClus (v.device mapped) c = .ok r') :
    freeClus g c v = .done () { v with disk := r'.disk, clusterBitmap := r'.clusterBitmap } := by
  rcases writeFat_raw (c := c) (x := 0) g v mapped with ⟨i, hwrite⟩
  rw [freeClus_eq] at h
  split at h
  · cases h
    change Call.bind (writeFat g c 0) _ v = _
    unfold Call.bind
    rw [hwrite]
    rfl
  · cases h

omit v mapped in
lemma zeroClus_clusterBitmap : (s.zeroClus r c).clusterBitmap = r.clusterBitmap := by
  unfold SuperBlock.zeroClus
  generalize List.range s.secPerClus = l
  induction l generalizing r with
  | nil => rfl
  | cons a l ih => exact ih

lemma zeroClus_raw (hsec : ∀ i < g.secPerClus, firstSecOfClus g c + i < 2 ^ 32) (hdisk : r.disk = v.disk) :
    zeroClus g c v = .done () { v with disk := (g.toSuperBlock.zeroClus r c).disk } := by
  have hmem : ∀ i ∈ List.range g.secPerClus, firstSecOfClus g c + i < 2 ^ 32 :=
    fun i hi => hsec i (mem_range.1 hi)
  unfold zeroClus SuperBlock.zeroClus
  generalize List.range g.secPerClus = l at hmem ⊢
  induction l generalizing v r with
  | nil =>
    rw [foldl_nil, hdisk]
    rfl
  | cons a l ih =>
    have hmod : (g.toSuperBlock.firstSecOfClus c + a) % 2 ^ 32 = firstSecOfClus g c + a :=
      Nat.mod_eq_of_lt (hmem a mem_cons_self)
    have hrest := fun i hi => hmem i (mem_cons_of_mem a hi)
    apply ih _ _ hrest
    simp only [Device.bwrite, hmod, hdisk]

lemma allocClus_raw (h : g.toSuperBlock.allocClus (v.device mapped) = .ok (c, t))
    (htable : g.rsvdSecCnt + c / 128 < 2 ^ 32) (hsec : ∀ i < g.secPerClus, firstSecOfClus g c + i < 2 ^ 32) :
    allocClus g v = .done c { v with disk := t.disk, clusterBitmap := t.clusterBitmap
                                     allocs := ⟨c, fatEntry g v.disk⟩ :: v.allocs } := by
  unfold SuperBlock.allocClus at h
  split at h
  · rename_i cluster hfree
    cases h
    have hentries : g.bytsPerSec / 4 = 128 := by rw [g.bytsPerSec_eq]
    have hmod := Nat.mod_eq_of_lt htable
    have hfound : Bitmap.firstFree v.clusterBitmap (totalClusterNumber g / 64) = some c := hfree
    have hrun : allocClus g v = Call.bind (zeroClus g c) (fun _ => Call.pure c)
        { v with
          disk := Function.update v.disk (g.rsvdSecCnt + c / (g.bytsPerSec / 4))
            (overlay (v.disk (g.rsvdSecCnt + c / (g.bytsPerSec / 4))) (4 * (c % (g.bytsPerSec / 4)))
              (toLe 4 (fat32Eoc + 7)))
          clusterBitmap := Bitmap.set v.clusterBitmap c
          allocs := ⟨c, fatEntry g v.disk⟩ :: v.allocs } := by
      change (match Bitmap.firstFree v.clusterBitmap (totalClusterNumber g / 64) with
        | some cluster => _
        | none => _ : FatM Nat) v = _
      rw [hfound]
      rfl
    rw [hrun, hentries, hmod]
    unfold Call.bind
    rw [zeroClus_raw (r := Device.bwrite { v.device mapped with clusterBitmap := Bitmap.set v.clusterBitmap c }
      (g.rsvdSecCnt + c / 128) (overlay (v.disk (g.rsvdSecCnt + c / 128)) (4 * (c % 128)) (toLe 4 (fat32Eoc + 7))))
      g _ hsec, zeroClus_clusterBitmap]
    · rfl
    · rfl
  · cases h

end Geometry

/-! ## Following a chain -/

/-- The numbers of clusters of the volume; from `FAT32_EOC` on a number ends a chain. -/
structure IsCluster (s : SuperBlock) (c : Nat) : Prop where
  two_le : 2 ≤ c
  le_last : c ≤ s.lastClus
  lt_eoc : c < fat32Eoc

/-- What is reached from a first cluster by following the entries of the FAT. -/
inductive Follows (s : SuperBlock) (disk : Nat → Sector) (first : Nat) : Nat → Prop
  | first : Follows s disk first first
  | next {c : Nat} : Follows s disk first c → IsCluster s c → Follows s disk first (s.fatEntry disk c)

lemma IsCluster.lt_two_pow (h : IsCluster s c) : c < 2 ^ 30 := by
  have heoc : fat32Eoc < 2 ^ 30 := by decide
  exact Nat.lt_trans h.lt_eoc heoc

lemma IsCluster.readFat (h : IsCluster s c) : s.readFat r c = s.fatEntry r.disk c := by
  unfold SuperBlock.readFat
  rw [if_neg (Nat.not_le.2 h.lt_eoc), if_neg (Nat.not_lt.2 h.le_last)]

lemma Follows.eq_of_not_isCluster (hf : Follows s r.disk clus c) (hnot : ¬IsCluster s clus) : c = clus := by
  induction hf with
  | first => rfl
  | next _ hc ih => exact absurd (ih ▸ hc) hnot

section Step

variable (hfat : ∀ c, IsCluster s c → s.fatEntry r'.disk c = if c = clus then 0 else s.fatEntry r.disk c)
include hfat

/-- With the entry of `clus` gone, the rest of what it leads to is reached from the next cluster. -/
theorem Follows.tail (hf : Follows s r.disk clus c) : c = clus ∨ Follows s r'.disk (s.fatEntry r.disk clus) c := by
  induction hf with
  | first => exact .inl rfl
  | @next d _ hd ih =>
    right
    by_cases hdc : d = clus
    · rw [hdc]
      exact Follows.first
    · rcases ih with heq | hrest
      · exact absurd heq hdc
      · have hsame := hfat d hd
        rw [if_neg hdc] at hsame
        rw [← hsame]
        exact Follows.next hrest hd

lemma Follows.of_tail (hclus : IsCluster s clus) (hf : Follows s r'.disk (s.fatEntry r.disk clus) c) :
    Follows s r.disk clus c ∨ c = 0 := by
  induction hf with
  | first => exact .inl (Follows.next Follows.first hclus)
  | @next d _ hd ih =>
    rw [hfat d hd]
    by_cases hdc : d = clus
    · rw [if_pos hdc]
      exact .inr rfl
    · rw [if_neg hdc]
      rcases ih with hf | hzero
      · exact .inl (Follows.next hf hd)
      · exact absurd hd.two_le (by omega)

end Step

/-! ## One round -/

lemma freeClus_of_mapped (hmapped : r.mapped (clus / 64) = true) : ∃ r', s.freeClus r clus = .ok r' := by
  rw [freeClus_eq, if_pos hmapped]
  exact ⟨_, rfl⟩

lemma freeClus_ok (hread : s.Read) (hclus : IsCluster s clus) (hfree : s.freeClus r clus = .ok r') :
    r'.mapped = r.mapped ∧
      (∀ c, IsCluster s c → s.fatEntry r'.disk c = if c = clus then 0 else s.fatEntry r.disk c) ∧
      ∀ c, Bitmap.bit r'.clusterBitmap c = (!decide (c = clus) && Bitmap.bit r.clusterBitmap c) := by
  have hmapped := freeClus_mapped hfree
  rw [freeClus_eq, if_pos hmapped] at hfree
  cases hfree
  refine ⟨writeFat_bitmap.1, ?_, ?_⟩
  · intro c hc
    exact hread.fatEntry_writeFat hclus.lt_two_pow hclus.le_last (by decide) hc.lt_two_pow
  · intro c
    exact Bitmap.bit_clear

lemma freeClus_behind (hlast : s.lastClus < clus) (hmapped : r.mapped (clus / 64) = true) :
    s.freeClus r clus = .ok { r with clusterBitmap := Bitmap.clear r.clusterBitmap clus } := by
  rw [freeClus_eq, if_pos hmapped, writeFat_behind hlast]

lemma truncLoop_stop (hstop : ¬(2 ≤ clus ∧ clus < fat32Eoc)) : s.truncLoop (n + 1) clus r = .ok r := by
  unfold SuperBlock.truncLoop
  rw [if_neg hstop]

lemma truncLoop_round (hgo : 2 ≤ clus ∧ clus < fat32Eoc) (hfree : s.freeClus r clus = .ok r') :
    s.truncLoop (n + 1) clus r = s.truncLoop n (s.readFat r clus) r' := by
  rw [SuperBlock.truncLoop, if_pos hgo, hfree]
  rfl

/-! ## The whole loop -/

/-- Every cluster that the chain leads to is free, and the others are as they were. -/
def Truncated (s : SuperBlock) (r : Device) (clus : Nat) (t : Device) : Prop :=
  ∀ c, IsCluster s c →
    (Follows s r.disk clus c → s.fatEntry t.disk c = 0 ∧ Bitmap.bit t.clusterBitmap c = false) ∧
    (¬Follows s r.disk clus c → s.fatEntry t.disk c = s.fatEntry r.disk c ∧
      Bitmap.bit t.clusterBitmap c = Bitmap.bit r.clusterBitmap c)

/-- The loop ends, and with the right result. -/
def TruncExact (s : SuperBlock) (r : Device) (clus : Nat) : Prop :=
  ∃ n t, s.truncLoop n clus r = .ok t ∧ Truncated s r clus t

/-- The bitmap has a word for every number that the chain leads to. -/
def ChainMapped (s : SuperBlock) (r : Device) (clus : Nat) : Prop :=
  ∀ c, Follows s r.disk clus c → 2 ≤ c → c < fat32Eoc → r.mapped (c / 64) = true

lemma Truncated.refl (hnot : ¬IsCluster s clus) : Truncated s r clus r := by
  intro c hc
  refine ⟨?_, fun _ => ⟨rfl, rfl⟩⟩
  intro hf
  exact absurd (hf.eq_of_not_isCluster hnot ▸ hc) hnot

lemma Truncated.step (hread : s.Read) (hclus : IsCluster s clus) (hfree : s.freeClus r clus = .ok r')
    (h : Truncated s r' (s.fatEntry r.disk clus) t) : Truncated s r clus t := by
  rcases freeClus_ok hread hclus hfree with ⟨_, hfat, hbit⟩
  intro c hc
  rcases h c hc with ⟨hreached, hother⟩
  constructor
  · intro hf
    by_cases hrest : Follows s r'.disk (s.fatEntry r.disk clus) c
    · exact hreached hrest
    · -- only the cluster of this round is not reached again
      rcases hf.tail hfat with heq | habs
      · rcases hother hrest with ⟨hentry, hb⟩
        rw [hfat c hc, if_pos heq] at hentry
        rw [hbit c, decide_eq_true heq] at hb
        exact ⟨hentry, hb⟩
      · exact absurd habs hrest
  · intro hf
    have hne : c ≠ clus := by
      intro heq
      exact hf (heq ▸ Follows.first)
    have hrest : ¬Follows s r'.disk (s.fatEntry r.disk clus) c := by
      intro hrest
      rcases hrest.of_tail hfat hclus with habs | hzero
      · exact hf habs
      · exact absurd hc.two_le (by omega)
    rcases hother hrest with ⟨hentry, hb⟩
    rw [hfat c hc, if_neg hne] at hentry
    rw [hbit c, decide_eq_false hne] at hb
    exact ⟨hentry, hb⟩

lemma ChainMapped.step (hread : s.Read) (hclus : IsCluster s clus) (hfree : s.freeClus r clus = .ok r')
    (h : ChainMapped s r clus) : ChainMapped s r' (s.fatEntry r.disk clus) := by
  rcases freeClus_ok hread hclus hfree with ⟨hmapped, hfat, _⟩
  intro c hf htwo heoc
  rw [hmapped]
  rcases hf.of_tail hfat hclus with hold | hzero
  · exact h c hold htwo heoc
  · exact absurd htwo (by omega)

/-- The clusters whose entry is not 0: their number is what decreases. -/
def linkedClusters (s : SuperBlock) (disk : Nat → Sector) : Set Nat := {c | IsCluster s c ∧ s.fatEntry disk c ≠ 0}

lemma linkedClusters_finite (s : SuperBlock) (disk : Nat → Sector) : (linkedClusters s disk).Finite := by
  apply (Set.finite_Iio fat32Eoc).subset
  intro c hc
  exact hc.1.lt_eoc

lemma linkedClusters_ncard_lt (hclus : IsCluster s clus) (hne : s.fatEntry r.disk clus ≠ 0)
    (hfat : ∀ c, IsCluster s c → s.fatEntry r'.disk c = if c = clus then 0 else s.fatEntry r.disk c) :
    (linkedClusters s r'.disk).ncard < (linkedClusters s r.disk).ncard := by
  apply Set.ncard_lt_ncard _ (linkedClusters_finite s r.disk)
  refine ⟨?_, ?_⟩
  · intro c hc
    rcases hc with ⟨hcl, hentry⟩
    rw [hfat c hcl] at hentry
    split at hentry
    · exact absurd rfl hentry
    · exact ⟨hcl, hentry⟩
  · intro hsub
    have habs := (hsub ⟨hclus, hne⟩ : clus ∈ linkedClusters s r'.disk).2
    rw [hfat clus hclus, if_pos rfl] at habs
    exact habs rfl

lemma truncExact_of_stop (hstop : ¬(2 ≤ clus ∧ clus < fat32Eoc)) : TruncExact s r clus :=
  ⟨1, r, truncLoop_stop hstop, Truncated.refl fun hc => hstop ⟨hc.two_le, hc.lt_eoc⟩⟩

lemma truncExact_of_behind (hgo : 2 ≤ clus ∧ clus < fat32Eoc) (hlast : s.lastClus < clus)
    (hmapped : r.mapped (clus / 64) = true) : TruncExact s r clus := by
  have hnext : s.readFat r clus = 0 := by
    unfold SuperBlock.readFat
    rw [if_neg (Nat.not_le.2 hgo.2), if_pos hlast]
  have hnot : ¬IsCluster s clus := fun hc => Nat.not_lt.2 hc.le_last hlast
  refine ⟨2, { r with clusterBitmap := Bitmap.clear r.clusterBitmap clus }, ?_, ?_⟩
  · rw [truncLoop_round hgo (freeClus_behind hlast hmapped)]
    exact truncLoop_stop (by omega)
  · intro c hc
    have hne : c ≠ clus := fun heq => hnot (heq ▸ hc)
    refine ⟨?_, ?_⟩
    · intro hf
      exact absurd (hf.eq_of_not_isCluster hnot) hne
    · intro _
      refine ⟨rfl, ?_⟩
      rw [Bitmap.bit_clear, decide_eq_false hne]
      rfl

lemma TruncExact.step (hread : s.Read) (hclus : IsCluster s clus) (hfree : s.freeClus r clus = .ok r')
    (h : TruncExact s r' (s.fatEntry r.disk clus)) : TruncExact s r clus := by
  rcases h with ⟨n, t, hloop, hpost⟩
  refine ⟨n + 1, t, ?_, hpost.step hread hclus hfree⟩
  rw [truncLoop_round ⟨hclus.two_le, hclus.lt_eoc⟩ hfree, hclus.readFat]
  exact hloop

lemma ChainMapped.truncExact (hread : s.Read) (h : ChainMapped s r clus) : TruncExact s r clus := by
  -- each round but the last takes one cluster out of `linkedClusters`
  induction hm : (linkedClusters s r.disk).ncard using Nat.strong_induction_on generalizing r clus with
  | _ m ih =>
    by_cases hgo : 2 ≤ clus ∧ clus < fat32Eoc
    · have hmapped := h clus Follows.first hgo.1 hgo.2
      by_cases hlast : s.lastClus < clus
      · exact truncExact_of_behind hgo hlast hmapped
      · have hclus : IsCluster s clus := ⟨hgo.1, Nat.not_lt.1 hlast, hgo.2⟩
        rcases freeClus_of_mapped hmapped with ⟨r', hfree⟩
        apply TruncExact.step hread hclus hfree
        by_cases hzero : s.fatEntry r.disk clus = 0
        · exact truncExact_of_stop (by omega)
        · have hfat := (freeClus_ok hread hclus hfree).2.1
          exact ih _ (hm ▸ linkedClusters_ncard_lt hclus hzero hfat) (h.step hread hclus hfree) rfl
    · exact truncExact_of_stop hgo

lemma chainMapped_of_ok (hread : s.Read) (hok : s.truncLoop n clus r = .ok t) : ChainMapped s r clus := by
  induction n generalizing clus r with
  | zero => cases hok
  | succ n ih =>
    intro c hf htwo heoc
    by_cases hgo : 2 ≤ clus ∧ clus < fat32Eoc
    · cases hfree : s.freeClus r clus with
      | error e =>
        rw [SuperBlock.truncLoop, if_pos hgo, hfree] at hok
        cases hok
      | ok r' =>
        by_cases hlast : s.lastClus < clus
        · have heq := hf.eq_of_not_isCluster fun hc => Nat.not_lt.2 hc.le_last hlast
          exact heq ▸ freeClus_mapped hfree
        · have hclus : IsCluster s clus := ⟨hgo.1, Nat.not_lt.1 hlast, hgo.2⟩
          rcases freeClus_ok hread hclus hfree with ⟨hsame, hfat, _⟩
          rcases hf.tail hfat with heq | hrest
          · exact heq ▸ freeClus_mapped hfree
          · rw [truncLoop_round hgo hfree, hclus.readFat] at hok
            rw [← hsame]
            exact ih hok c hrest htwo heoc
    · have heq := hf.eq_of_not_isCluster fun hc => hgo ⟨hc.two_le, hc.lt_eoc⟩
      exact absurd ⟨heq ▸ htwo, heq ▸ heoc⟩ hgo

/-- `etrunc` ends, and with the right result, exactly when it is not led to a number that the bitmap has no page for. -/
theorem trunc_exact_iff {b : Sector} (h : accepts b = true) (r : Device) (clus : Nat) :
    TruncExact (superBlockOf b) r clus ↔ ChainMapped (superBlockOf b) r clus := by
  constructor
  · rintro ⟨n, t, hok, _⟩
    exact chainMapped_of_ok (accepts_read h) hok
  · intro hmapped
    exact hmapped.truncExact (accepts_read h)

/-- One reserved sector, one FAT of 128 entries, and three clusters of one sector. -/
def smallBoot : Sector := markedSector 1 1 1 5 1

/-- A device just after `fatInit`: the boot sector, a FAT of one sector, and the bits of its first word. -/
def freshDevice (b : Sector) (entries : List Nat) (word : BitVec 64) : Device where
  disk sec := if sec = 0 then b else if sec = 1 then overlay (fun _ => 0) 0 (entries.flatMap (toLe 4)) else fun _ => 0
  clusterBitmap w := if w = 0 then word else 0
  mapped := (superBlockOf b).bitmapWord
  written := []

lemma freshDevice_written (b : Sector) (entries : List Nat) (word : BitVec 64) :
    { freshDevice b entries word with written := [] } = freshDevice b entries word := rfl

/-- A chain that is a cycle: cluster 2 leads to 3, and 3 leads to 2. -/
theorem trunc_exact_cycle : accepts smallBoot = true ∧
    TruncExact (superBlockOf smallBoot) (freshDevice smallBoot [1, 1, 3, 2] 0xf) 2 := by
  have haccepts : accepts smallBoot = true := by decide +kernel
  refine ⟨haccepts, (trunc_exact_iff haccepts _ 2).2 ?_⟩
  have hreached : ∀ c, Follows (superBlockOf smallBoot) (freshDevice smallBoot [1, 1, 3, 2] 0xf).disk 2 c →
      c = 2 ∨ c = 3 := by
    intro c hf
    induction hf with
    | first => exact .inl rfl
    | next _ _ ih =>
      rcases ih with heq | heq
      · rw [heq]
        exact .inr (by decide +kernel)
      · rw [heq]
        exact .inl (by decide +kernel)
  intro c hf _ _
  rcases hreached c hf with heq | heq
  · rw [heq]
    decide +kernel
  · rw [heq]
    decide +kernel

/-- Cluster 2 leads to 0x100000, far behind the end: the store to the bitmap is a page fault. -/
theorem trunc_page_fault : accepts smallBoot = true ∧
    ¬TruncExact (superBlockOf smallBoot) (freshDevice smallBoot [1, 1, 0x100000] 0x7) 2 := by
  have haccepts : accepts smallBoot = true := by decide +kernel
  refine ⟨haccepts, ?_⟩
  rintro ⟨n, t, hok, _⟩
  have hclus : IsCluster (superBlockOf smallBoot) 2 :=
    ⟨by decide, by decide +kernel, by decide⟩
  have hfirst : Follows (superBlockOf smallBoot) (freshDevice smallBoot [1, 1, 0x100000] 0x7).disk 2 2 :=
    Follows.first
  have hreached := Follows.next hfirst hclus
  have hmapped := chainMapped_of_ok (accepts_read haccepts) hok 0x100000 hreached (by decide) (by decide)
  exact absurd hmapped (by decide +kernel)

/-! ## Allocating -/

/-- What `alloc_clus` should do.  The panic is its report that no cluster is free. -/
def AllocSound (s : SuperBlock) (r : Device) : Prop :=
  match s.allocClus { r with written := [] } with
  | .ok (c, t) =>
    2 ≤ c ∧ c ≤ s.dataClusCnt + 1 ∧ (∀ i < s.secPerClus, s.firstSecOfClus c + i < s.totSec) ∧
      ∀ sec ∈ t.written, sec < s.totSec
  | .error _ => ∀ c, 2 ≤ c → c ≤ s.dataClusCnt + 1 → Bitmap.bit r.clusterBitmap c = true

/-- A data cluster whose sectors, with that of its FAT entry, are in the volume. -/
structure InVolume (s : SuperBlock) (c : Nat) : Prop where
  two_le : 2 ≤ c
  le_last : c ≤ s.dataClusCnt + 1
  table : s.rsvdSecCnt + c / 128 < s.totSec
  sectors : ∀ i < s.secPerClus, s.firstSecOfClus c + i < s.totSec

/-- The numbers that `alloc_clus` tries. -/
def SuperBlock.tried (s : SuperBlock) : Nat := 64 * (s.totalClusterNumber / 64)

/-- The first free number that is tried is a data cluster in the volume, and when there is none, then no data cluster
that is not tried is free either. -/
structure Allocatable (s : SuperBlock) (r : Device) : Prop where
  first : ∀ c < s.tried, Bitmap.bit r.clusterBitmap c = false → (∀ d < c, Bitmap.bit r.clusterBitmap d = true) →
    InVolume s c
  full : (∀ c < s.tried, Bitmap.bit r.clusterBitmap c = true) →
    ∀ c, 2 ≤ c → c ≤ s.dataClusCnt + 1 → Bitmap.bit r.clusterBitmap c = true

lemma mem_written_foldl {secOf : Nat → Nat} {data : Device → Nat → Sector} (l : List Nat) (r : Device) (sec : Nat) :
    sec ∈ (l.foldl (fun r i => r.bwrite (secOf i) (data r i)) r).written ↔
      sec ∈ r.written ∨ ∃ i ∈ l, sec = secOf i := by
  induction l generalizing r with
  | nil => simp
  | cons a l ih =>
    rw [foldl_cons, ih]
    simp only [Device.bwrite, mem_cons, exists_eq_or_imp]
    tauto

lemma mem_written_zeroClus {sec : Nat} : sec ∈ (s.zeroClus r c).written ↔
    sec ∈ r.written ∨ ∃ i < s.secPerClus, sec = (s.firstSecOfClus c + i) % 2 ^ 32 := by
  unfold SuperBlock.zeroClus
  rw [mem_written_foldl]
  simp only [mem_range]

lemma allocClus_found (hread : s.Read) (hfree : Bitmap.firstFree r.clusterBitmap (s.totalClusterNumber / 64) = some c) :
    ∃ t, s.allocClus r = .ok (c, t) ∧ ∀ sec, sec ∈ t.written ↔ sec = s.rsvdSecCnt + c / 128 ∨ sec ∈ r.written ∨
      ∃ i < s.secPerClus, sec = (s.firstSecOfClus c + i) % 2 ^ 32 := by
  have hrsvd := hread.rsvdSecCnt
  have htotal : s.totalClusterNumber < 2 ^ 30 := by
    unfold SuperBlock.totalClusterNumber
    omega
  have hc := (Bitmap.firstFree_eq_some hfree).1
  have hsec : (s.rsvdSecCnt + c / (s.bytsPerSec / 4)) % 2 ^ 32 = s.rsvdSecCnt + c / 128 := by
    rw [hread.bytsPerSec]
    omega
  unfold SuperBlock.allocClus
  rw [hfree]
  refine ⟨_, rfl, ?_⟩
  intro sec
  rw [mem_written_zeroClus]
  simp only [Device.bwrite, mem_cons, hsec, or_assoc]

theorem alloc_sound_iff {b : Sector} (h : accepts b = true) (r : Device) :
    AllocSound (superBlockOf b) r ↔ Allocatable (superBlockOf b) r := by
  have hread := accepts_read h
  generalize superBlockOf b = s at hread ⊢
  unfold AllocSound
  cases hfree : Bitmap.firstFree r.clusterBitmap (s.totalClusterNumber / 64) with
  | some c =>
    rcases allocClus_found (r := { r with written := [] }) hread hfree with ⟨t, halloc, hwritten⟩
    rcases Bitmap.firstFree_eq_some hfree with ⟨hlt, hbit, hbefore⟩
    rw [halloc]
    constructor
    · rintro ⟨htwo, hlast, hsectors, hbelow⟩
      have hin : InVolume s c := ⟨htwo, hlast, hbelow _ ((hwritten _).2 (.inl rfl)), hsectors⟩
      refine ⟨?_, ?_⟩
      · intro d hd hdfree hdbefore
        rcases Nat.lt_trichotomy d c with hless | heq | hmore
        · rw [hbefore d hless] at hdfree
          cases hdfree
        · exact heq ▸ hin
        · rw [hdbefore c hmore] at hbit
          cases hbit
      · intro hall
        rw [hall c hlt] at hbit
        cases hbit
    · intro hcond
      have hin := hcond.first c hlt hbit hbefore
      refine ⟨hin.two_le, hin.le_last, hin.sectors, ?_⟩
      intro sec hsec
      rcases (hwritten sec).1 hsec with heq | hold | ⟨i, hi, heq⟩
      · rw [heq]
        exact hin.table
      · cases hold
      · rw [heq]
        exact Nat.lt_of_le_of_lt (Nat.mod_le _ _) (hin.sectors i hi)
  | none =>
    have halloc : s.allocClus { r with written := [] } = .error .noCluster := by
      unfold SuperBlock.allocClus
      rw [hfree]
    have hall : ∀ c < s.tried, Bitmap.bit r.clusterBitmap c = true :=
      fun c hc => Bitmap.firstFree_eq_none hfree hc
    rw [halloc]
    constructor
    · intro hfull
      refine ⟨?_, fun _ => hfull⟩
      intro c hc hbit _
      rw [hall c hc] at hbit
      cases hbit
    · intro hcond
      exact hcond.full hall

/-- With cluster 4 free, cluster 4 is handed out. -/
theorem alloc_sound_last_cluster : accepts smallBoot = true ∧
    AllocSound (superBlockOf smallBoot) (freshDevice smallBoot [1, 1, 3, fat32Eoc] 0xf) := by
  have haccepts : accepts smallBoot = true := by decide +kernel
  have hfour : Bitmap.bit (freshDevice smallBoot [1, 1, 3, fat32Eoc] 0xf).clusterBitmap 4 = false := by decide +kernel
  refine ⟨haccepts, (alloc_sound_iff haccepts _).2 ⟨?_, ?_⟩⟩
  · intro c hc hfree hbefore
    rcases Nat.lt_trichotomy c 4 with hless | heq | hmore
    · have htaken : ∀ d < 4, Bitmap.bit (freshDevice smallBoot [1, 1, 3, fat32Eoc] 0xf).clusterBitmap d = true := by
        decide +kernel
      rw [htaken c hless] at hfree
      cases hfree
    · rw [heq]
      exact ⟨by decide, by decide +kernel, by decide +kernel, by decide +kernel⟩
    · rw [hbefore 4 hmore] at hfour
      cases hfour
  · intro hall
    rw [hall 4 (by decide +kernel)] at hfour
    cases hfour

/-- With all three clusters taken, the number 5 is handed out and the sector behind the volume is zeroed. -/
theorem alloc_past_end : accepts smallBoot = true ∧
    ((superBlockOf smallBoot).allocClus (freshDevice smallBoot [1, 1, 3, 4, fat32Eoc] 0x1f)).toOption.map
      (fun p => (p.1, p.2.written)) = some (5, [5, 1]) ∧
    (superBlockOf smallBoot).dataClusCnt = 3 ∧ (superBlockOf smallBoot).totSec = 5 ∧
    ¬AllocSound (superBlockOf smallBoot) (freshDevice smallBoot [1, 1, 3, 4, fat32Eoc] 0x1f) := by
  have hresult : ((superBlockOf smallBoot).allocClus
      (freshDevice smallBoot [1, 1, 3, 4, fat32Eoc] 0x1f)).toOption.map (fun p => (p.1, p.2.written)) =
        some (5, [5, 1]) := by decide +kernel
  have hcnt : (superBlockOf smallBoot).dataClusCnt = 3 := by decide +kernel
  refine ⟨by decide +kernel, hresult, hcnt, by decide +kernel, ?_⟩
  intro hsound
  unfold AllocSound at hsound
  rw [freshDevice_written] at hsound
  cases halloc : (superBlockOf smallBoot).allocClus (freshDevice smallBoot [1, 1, 3, 4, fat32Eoc] 0x1f) with
  | error e =>
    rw [halloc] at hresult
    cases hresult
  | ok p =>
    rw [halloc] at hresult hsound
    have hnumber : p.1 = 5 := congrArg Prod.fst (Option.some.inj hresult)
    have hlast := hsound.2.1
    rw [hnumber] at hlast
    exact absurd hlast (by decide)

end Fat
end OsRiscv
