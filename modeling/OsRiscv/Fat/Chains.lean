import OsRiscv.Fat.Disk
import OsRiscv.Fat.Inode
import OsRiscv.Lib.Chain

/-!
# Chains — the cluster chains of the files

`Inv` is the invariant of a volume: the bitmap agrees with the FAT, every file has a chain, the inode
cache holds the first clusters of the chain and each inode in use belongs to one file.  `ch d` is the
chain of file `d`, empty if the file has no cluster.  `Grown` says what extending the chain of one file
does to the volume.
-/

namespace OsRiscv
namespace Fat

open Lib List

variable {g : Geometry} {v t u : Vol} {ch ch' ch'' : Nat → List Nat} {c d e x k : Nat} {l : List Nat}

/-- An end mark, with the top four bits clear. -/
def EndMark (x : Nat) : Prop := 0x0ffffff8 ≤ x ∧ x < 2 ^ 28

instance : DecidablePred EndMark := fun _ => instDecidableAnd

/-- The chain that starts at a cluster. -/
abbrev FileChain (g : Geometry) (fat : Nat → Nat) (c : Nat) (l : List Nat) : Prop :=
  Chain fat (InRange g) EndMark c l

lemma InRange.not_endMark (h : InRange g c) : ¬ EndMark c := by
  rintro ⟨hlo, _⟩
  have := h.2
  have := g.clusters_lt
  omega

lemma InRange.lt (h : InRange g c) : c < 2 ^ 28 := by
  have := h.2
  have := g.clusters_lt
  omega

lemma fat_ne_zero {fat : Nat → Nat} (h : FileChain g fat c l) (hx : x ∈ l) : fat x ≠ 0 := by
  intro hzero
  rcases h.suffix hx with ⟨_, rest, _, hrest⟩
  cases hrest with
  | last _ hstop =>
    rw [hzero] at hstop
    exact absurd hstop.1 (by decide)
  | link _ _ hrest =>
    rw [hzero] at hrest
    exact absurd (hrest.ok_of_mem hrest.mem_self).1 (by decide)

/-- What a call of `alloc_clus` may return: a cluster of the volume that is in no chain. -/
def AllocEvent.Good (g : Geometry) (ev : AllocEvent) : Prop :=
  InRange g ev.cluster ∧ ∀ c l, FileChain g ev.fat c l → ev.cluster ∉ l

/-- The clusters that are free. -/
def freeClusters (g : Geometry) (v : Vol) : Finset Nat :=
  (Finset.range (g.dataClusCnt + 2)).filter fun c => 2 ≤ c ∧ Bitmap.bit v.clusterBitmap c = false

lemma mem_freeClusters : c ∈ freeClusters g v ↔ InRange g c ∧ Bitmap.bit v.clusterBitmap c = false := by
  unfold freeClusters InRange
  rw [Finset.mem_filter, Finset.mem_range]
  constructor
  · rintro ⟨hlt, hle, hfree⟩
    exact ⟨⟨hle, by omega⟩, hfree⟩
  · rintro ⟨⟨hle, hlt⟩, hfree⟩
    exact ⟨by omega, hle, hfree⟩

lemma card_freeClusters_set (hc : InRange g c) (hfree : Bitmap.bit v.clusterBitmap c = false)
    (hbitmap : t.clusterBitmap = Bitmap.set v.clusterBitmap c) :
    (freeClusters g t).card + 1 = (freeClusters g v).card := by
  have hmem : c ∈ freeClusters g v := mem_freeClusters.2 ⟨hc, hfree⟩
  have heq : freeClusters g t = (freeClusters g v).erase c := by
    ext y
    rw [Finset.mem_erase, mem_freeClusters, mem_freeClusters, hbitmap]
    by_cases hy : y = c
    · simp [hy]
    · simp [hy]
  rw [heq]
  exact Finset.card_erase_add_one hmem

/-- The step up to which a file has its nodes in the inode pool. -/
def held (v : Vol) (d : Nat) : Nat := if d ∈ v.files then 2 * (v.dirents d).inodeMaxCluster else 0

lemma held_update {m : Nat} (hd : d ∈ t.files) (hm : (t.dirents d).inodeMaxCluster = m)
    (hother : ∀ e, e ≠ d → (e ∈ t.files ↔ e ∈ v.files) ∧
      (t.dirents e).inodeMaxCluster = (v.dirents e).inodeMaxCluster) : held t = Function.update (held v) d (2 * m) := by
  funext e
  unfold held
  by_cases he : e = d
  · rw [he, Function.update_self, if_pos hd, hm]
  · simp only [Function.update_of_ne he, hother e he]

/-- What is known of a file that has clusters. -/
structure HasChain (g : Geometry) (v : Vol) (l : List Nat) (d : Nat) : Prop where
  chain : FileChain g (fatEntry g v.disk) (v.dirents d).firstClus l
  pos : 0 < (v.dirents d).inodeMaxCluster
  le_length : (v.dirents d).inodeMaxCluster ≤ l.length
  le_top : (v.dirents d).inodeMaxCluster ≤ 164872
  cached : ∀ j < (v.dirents d).inodeMaxCluster, l[j]? = some (v.pool.slot d j)

lemma HasChain.frame {l : List Nat} (h : HasChain g v l d)
    (hfirst : (t.dirents d).firstClus = (v.dirents d).firstClus)
    (hmax : (t.dirents d).inodeMaxCluster = (v.dirents d).inodeMaxCluster)
    (hfat : ∀ y ∈ l, InRange g y → fatEntry g t.disk y = fatEntry g v.disk y)
    (hslot : ∀ j < (v.dirents d).inodeMaxCluster, t.pool.slot d j = v.pool.slot d j) : HasChain g t l d := by
  constructor
  · rw [hfirst]
    exact h.chain.congr fun y hy => hfat y hy (h.chain.ok_of_mem hy)
  · exact hmax ▸ h.pos
  · exact hmax ▸ h.le_length
  · exact hmax ▸ h.le_top
  · intro j hj
    rw [hmax] at hj
    rw [hslot j hj]
    exact h.cached j hj

lemma HasChain.next {l : List Nat} (h : HasChain g v l d) (hdisk : t.disk = v.disk)
    (hfirst : (t.dirents d).firstClus = (v.dirents d).firstClus)
    (hmax : (t.dirents d).inodeMaxCluster = (v.dirents d).inodeMaxCluster + 1)
    (hm : (v.dirents d).inodeMaxCluster < 164872)
    (hslot : ∀ j < (v.dirents d).inodeMaxCluster, t.pool.slot d j = v.pool.slot d j)
    (hnew : l[(v.dirents d).inodeMaxCluster]? = some (t.pool.slot d (v.dirents d).inodeMaxCluster)) :
    HasChain g t l d := by
  constructor
  · rw [hfirst, hdisk]
    exact h.chain
  · exact hmax ▸ Nat.succ_pos _
  · exact hmax ▸ (List.getElem?_eq_some_iff.1 hnew).1
  · exact hmax ▸ hm
  · intro j hj
    rw [hmax] at hj
    rcases Nat.lt_or_eq_of_le (Nat.le_of_lt_succ hj) with hlt | rfl
    · rw [hslot j hlt]
      exact h.cached j hlt
    · exact hnew

structure Inv (g : Geometry) (v : Vol) (ch : Nat → List Nat) : Prop where
  reserved : ∀ c < 2, Bitmap.bit v.clusterBitmap c = true
  bits : ∀ c, InRange g c → (Bitmap.bit v.clusterBitmap c = true ↔ fatEntry g v.disk c ≠ 0)
  empty : ∀ d ∈ v.files, (v.dirents d).firstClus = 0 → ch d = [] ∧ (v.dirents d).inodeMaxCluster ≤ 1
  chain : ∀ d ∈ v.files, (v.dirents d).firstClus ≠ 0 → HasChain g v (ch d) d
  owns : v.pool.Owns (held v)
  spare : v.direntHead.Nodup ∧
    ∀ d ∈ v.direntHead, d ∉ v.files ∧ (v.dirents d).inodeMaxCluster ≤ 1
  log : ∀ ev ∈ v.allocs, ev.Good g

/-- The chains of different files have no cluster in common. -/
def Apart (v : Vol) (ch : Nat → List Nat) : Prop :=
  ∀ d ∈ v.files, ∀ e ∈ v.files, d ≠ e → List.Disjoint (ch d) (ch e)

lemma Inv.used_of_mem (h : Inv g v ch) (hd : d ∈ v.files) (hx : x ∈ ch d) :
    InRange g x ∧ fatEntry g v.disk x ≠ 0 := by
  by_cases hfirst : (v.dirents d).firstClus = 0
  · rw [(h.empty d hd hfirst).1] at hx
    cases hx
  · have hchain := (h.chain d hd hfirst).chain
    exact ⟨hchain.ok_of_mem hx, fat_ne_zero hchain hx⟩

lemma Inv.fat_of_free (h : Inv g v ch) (hc : InRange g c)
    (hfree : Bitmap.bit v.clusterBitmap c = false) : fatEntry g v.disk c = 0 := by
  by_contra hne
  rw [(h.bits c hc).2 hne] at hfree
  cases hfree

/-! ## Growing -/

/-- There are free inodes for the nodes that file `d` needs for `m` positions and does not have yet. -/
def Vol.Room (v : Vol) (d m : Nat) : Prop :=
  v.pool.count + nodes (2 * m) ≤ 1024 + nodes (2 * (v.dirents d).inodeMaxCluster)

lemma Vol.Room.mono {m m' : Nat} (h : v.Room d m) (hle : m' ≤ m) : v.Room d m' := by
  have hnodes : nodes (2 * m') ≤ nodes (2 * m) := nodes_mono (by omega)
  unfold Vol.Room at h ⊢
  omega

lemma Vol.Room.congr {m : Nat} (h : v.Room d m) (hcount : t.pool.count +
    nodes (2 * (v.dirents d).inodeMaxCluster) = v.pool.count + nodes (2 * (t.dirents d).inodeMaxCluster)) :
    t.Room d m := by
  unfold Vol.Room at h ⊢
  omega

/-- From `v` to `t` nothing happened but that file `d` got new clusters and inodes. -/
structure OneFile (g : Geometry) (d : Nat) (v : Vol) (ch : Nat → List Nat) (t : Vol) (ch' : Nat → List Nat) :
    Prop where
  files : t.files = v.files
  others : ∀ e, e ≠ d → t.dirents e = { v.dirents e with inode := (t.dirents e).inode }
  fileSize : (t.dirents d).fileSize = (v.dirents d).fileSize
  attr : (t.dirents d).attr = (v.dirents d).attr
  dev : (t.dirents d).dev = (v.dirents d).dev
  room : (freeClusters g t).card + (ch' d).length = (freeClusters g v).card + (ch d).length
  apart : Apart v ch → Apart t ch' ∧ ∀ e ∈ v.files, e ≠ d → ch' e = ch e
  count : t.pool.count + nodes (2 * (v.dirents d).inodeMaxCluster) =
    v.pool.count + nodes (2 * (t.dirents d).inodeMaxCluster)

lemma OneFile.trans (h : OneFile g d v ch t ch') (h' : OneFile g d t ch' u ch'') : OneFile g d v ch u ch'' where
  files := h'.files.trans h.files
  others e he := by
    rw [h'.others e he, h.others e he]
  fileSize := h'.fileSize.trans h.fileSize
  attr := h'.attr.trans h.attr
  dev := h'.dev.trans h.dev
  room := h'.room.trans h.room
  apart hap := by
    rcases h.apart hap with ⟨hap', hkeep⟩
    rcases h'.apart hap' with ⟨hap'', hkeep'⟩
    refine ⟨hap'', fun e he hne => ?_⟩
    have he' : e ∈ t.files := by rwa [h.files]
    rw [hkeep' e he' hne, hkeep e he hne]
  count := by
    have hfirst := h.count
    have hsecond := h'.count
    omega

/-- From `v` to `t` the chain of file `d` got new clusters, which are zeroed, and its cursor moved. -/
structure Grown (g : Geometry) (d : Nat) (v : Vol) (ch : Nat → List Nat) (t : Vol) (ch' : Nat → List Nat) : Prop
    extends OneFile g d v ch t ch' where
  firstClus : (t.dirents d).firstClus = (v.dirents d).firstClus
  ext : ∃ new, ch' d = ch d ++ new ∧ ∀ x ∈ new, InRange g x ∧ fatEntry g v.disk x = 0 ∧
    fatEntry g t.disk x ≠ 0 ∧ ∀ o < g.bytsPerClus, clusByte g t.disk x o = 0
  used : ∀ x, InRange g x → fatEntry g v.disk x ≠ 0 → fatEntry g t.disk x ≠ 0 ∧
    ∀ o < g.bytsPerClus, clusByte g t.disk x o = clusByte g v.disk x o

lemma Grown.refl (g : Geometry) (d : Nat) (v : Vol) (ch : Nat → List Nat) : Grown g d v ch v ch where
  files := rfl
  others _ _ := rfl
  firstClus := rfl
  fileSize := rfl
  attr := rfl
  dev := rfl
  ext := ⟨[], by simp⟩
  used _ _ hne := ⟨hne, fun _ _ => rfl⟩
  room := rfl
  apart h := ⟨h, fun _ _ _ => rfl⟩
  count := rfl

lemma Grown.trans (h : Grown g d v ch t ch') (h' : Grown g d t ch' u ch'') : Grown g d v ch u ch'' where
  toOneFile := h.toOneFile.trans h'.toOneFile
  firstClus := h'.firstClus.trans h.firstClus
  ext := by
    rcases h.ext with ⟨new, hnew, hfresh⟩
    rcases h'.ext with ⟨new', hnew', hfresh'⟩
    refine ⟨new ++ new', by rw [hnew', hnew, append_assoc], fun x hx => ?_⟩
    rcases mem_append.1 hx with hx | hx
    · rcases hfresh x hx with ⟨hr, hz, hu, hbytes⟩
      rcases h'.used x hr hu with ⟨hu', hsame⟩
      exact ⟨hr, hz, hu', fun o ho => (hsame o ho).trans (hbytes o ho)⟩
    · rcases hfresh' x hx with ⟨hr, hz, hu, hbytes⟩
      refine ⟨hr, ?_, hu, hbytes⟩
      by_contra hne
      exact (h.used x hr hne).1 hz
  used x hr hne := by
    rcases h.used x hr hne with ⟨hu, hsame⟩
    rcases h'.used x hr hu with ⟨hu', hsame'⟩
    exact ⟨hu', fun o ho => (hsame' o ho).trans (hsame o ho)⟩

/-! ## A new cluster at the end of a chain -/

/-- The chains after cluster `c` was linked behind cluster `x`. -/
def linked (ch : Nat → List Nat) (x c : Nat) : Nat → List Nat := fun e =>
  if x ∈ ch e then ch e ++ [c] else ch e

/-- `alloc_clus` followed by `write_fat`: a free cluster `c` was linked behind cluster `x`. -/
structure Linked (g : Geometry) (v : Vol) (x c : Nat) (t : Vol) : Prop where
  range : InRange g c
  free : Bitmap.bit v.clusterBitmap c = false
  fat : ∀ y < g.fatSz * 128, fatEntry g t.disk y =
    if y = x then c else if y = c then 0x0fffffff else fatEntry g v.disk y
  zero : ∀ o < g.bytsPerClus, clusByte g t.disk c o = 0
  byte : ∀ y o, InRange g y → y ≠ c → o < g.bytsPerClus → clusByte g t.disk y o = clusByte g v.disk y o
  rest : t = { v with
    disk := t.disk
    clusterBitmap := Bitmap.set v.clusterBitmap c
    allocs := ⟨c, fatEntry g v.disk⟩ :: v.allocs }

lemma linked_of_allocated {disk' : Nat → Sector} (ha : Allocated g v c t)
    (hw : FatWritten g t.disk x c disk') : Linked g v x c { t with disk := disk' } := by
  constructor
  · exact ha.range
  · exact ha.free
  · intro y hy
    rw [hw.fat y hy, ha.fat y hy]
    rfl
  · intro o ho
    rw [hw.byte c o ha.range, ha.zero o ho]
  · intro y o hy hne ho
    rw [hw.byte y o hy, ha.byte y o hy hne ho]
  · rw [ha.rest]

section Linked

variable (h : Inv g v ch) (hl : Linked g v x c t)
include h hl

lemma linked_not_mem (hd : d ∈ v.files) : c ∉ ch d := fun hmem =>
  (h.used_of_mem hd hmem).2 (h.fat_of_free hl.range hl.free)

lemma linked_chain (hxend : EndMark (fatEntry g v.disk x)) (hd : d ∈ v.files)
    (hfirst : (v.dirents d).firstClus ≠ 0) :
    FileChain g (fatEntry g t.disk) (v.dirents d).firstClus (linked ch x c d) := by
  have hchain := (h.chain d hd hfirst).chain
  have hfresh := linked_not_mem h hl hd
  have hfat : ∀ y ∈ ch d, y ≠ x → fatEntry g t.disk y = fatEntry g v.disk y := by
    intro y hy hyx
    have hyc : y ≠ c := fun heq => hfresh (heq ▸ hy)
    rw [hl.fat y (hchain.ok_of_mem hy).lt_table, if_neg hyx, if_neg hyc]
  unfold linked
  by_cases hx : x ∈ ch d
  · rw [if_pos hx]
    rcases mem_iff_getElem?.1 hx with ⟨i, hi⟩
    have hlen := hchain.length_of_stop hi hxend
    have hxr := hchain.ok_of_mem hx
    have hcx : c ≠ x := fun heq => hfresh (heq ▸ hx)
    have hlast : (ch d)[(ch d).length - 1]? = some x := by
      rwa [hlen]
    refine hchain.snoc hlast hfresh hl.range hl.range.not_endMark hfat ?_ ?_
    · rw [hl.fat x hxr.lt_table, if_pos rfl]
    · rw [hl.fat c hl.range.lt_table, if_neg hcx, if_pos rfl]
      decide
  · rw [if_neg hx]
    exact hchain.congr fun y hy => hfat y hy fun heq => hx (heq ▸ hy)

lemma linked_inv (hxr : InRange g x) (hxend : EndMark (fatEntry g v.disk x)) : Inv g t (linked ch x c) := by
  have hfiles : t.files = v.files := by rw [hl.rest]
  have hhead : t.direntHead = v.direntHead := by rw [hl.rest]
  have hdirents : t.dirents = v.dirents := by rw [hl.rest]
  have hpool : t.pool = v.pool := by rw [hl.rest]; rfl
  have hbitmap : t.clusterBitmap = Bitmap.set v.clusterBitmap c := by rw [hl.rest]
  have hallocs : t.allocs = ⟨c, fatEntry g v.disk⟩ :: v.allocs := by rw [hl.rest]
  have hheld : held t = held v := by
    unfold held
    rw [hfiles, hdirents]
  have hxne : fatEntry g v.disk x ≠ 0 := by
    intro hzero
    rw [hzero] at hxend
    exact absurd hxend.1 (by decide)
  constructor
  · intro y hy
    rw [hbitmap, Bitmap.bit_set, h.reserved y hy, Bool.or_true]
  · intro y hy
    have hc2 := hl.range.1
    rw [hbitmap, Bitmap.bit_set, hl.fat y hy.lt_table]
    by_cases hyx : y = x
    · subst hyx
      rw [if_pos rfl, (h.bits y hy).2 hxne, Bool.or_true]
      simp only [true_iff]
      omega
    · rw [if_neg hyx]
      by_cases hyc : y = c
      · simp [hyc]
      · simpa [hyc] using h.bits y hy
  · intro d hd hfirst
    rw [hfiles] at hd
    rw [hdirents] at hfirst ⊢
    rcases h.empty d hd hfirst with ⟨hnil, hmax⟩
    refine ⟨?_, hmax⟩
    unfold linked
    rw [hnil]
    exact if_neg (not_mem_nil)
  · intro d hd hfirst
    rw [hfiles] at hd
    rw [hdirents] at hfirst
    have hfile := h.chain d hd hfirst
    have hpre : ∀ j, j < (ch d).length → (linked ch x c d)[j]? = (ch d)[j]? := by
      intro j hj
      unfold linked
      split
      · exact getElem?_append_left hj
      · rfl
    have hlen : (ch d).length ≤ (linked ch x c d).length := by
      unfold linked
      split
      · simp
      · exact Nat.le_refl _
    have hmax := hfile.le_length
    constructor
    · rw [hdirents]
      exact linked_chain h hl hxend hd hfirst
    · rw [hdirents]
      exact hfile.pos
    · rw [hdirents]
      exact Nat.le_trans hmax hlen
    · rw [hdirents]
      exact hfile.le_top
    · intro j hj
      rw [hdirents] at hj
      rw [hpre j (Nat.lt_of_lt_of_le hj hmax), hpool]
      exact hfile.cached j hj
  · rw [hpool, hheld]
    exact h.owns
  · rw [hhead, hfiles, hdirents]
    exact h.spare
  · intro ev hev
    rw [hallocs] at hev
    rcases mem_cons.1 hev with rfl | hev
    · exact ⟨hl.range, fun c' l' hchain hmem =>
        fat_ne_zero hchain hmem (h.fat_of_free hl.range hl.free)⟩
    · exact h.log ev hev

lemma linked_grown (hd : d ∈ v.files) (hx : x ∈ ch d) : Grown g d v ch t (linked ch x c) := by
  have hfiles : t.files = v.files := by rw [hl.rest]
  have hnew : linked ch x c d = ch d ++ [c] := if_pos hx
  have hrange := hl.range
  have hxne : c ≠ x := fun heq => linked_not_mem h hl hd (heq ▸ hx)
  have hapart : Apart v ch → ∀ e ∈ v.files, e ≠ d → linked ch x c e = ch e := fun hap e he hne =>
    if_neg fun hxe => hap d hd e he (Ne.symm hne) hx hxe
  have hdirents : t.dirents = v.dirents := by rw [hl.rest]
  refine ⟨⟨hfiles, fun e _ => by rw [hdirents], by rw [hdirents], by rw [hdirents], by rw [hdirents], ?room, ?apart,
    ?count⟩, by rw [hdirents], ?ext, ?used⟩
  case ext =>
    refine ⟨[c], hnew, fun y hy => ?_⟩
    rw [mem_singleton.1 hy]
    refine ⟨hrange, h.fat_of_free hrange hl.free, ?_, hl.zero⟩
    rw [hl.fat c hrange.lt_table, if_neg hxne, if_pos rfl]
    decide
  case used =>
    intro y hy hne
    have hyc : y ≠ c := by
      rintro rfl
      exact hne (h.fat_of_free hrange hl.free)
    refine ⟨?_, fun o ho => hl.byte y o hy hyc ho⟩
    rw [hl.fat y hy.lt_table]
    split
    · have := hrange.1
      omega
    · exact hne
  case room =>
    have hfree := card_freeClusters_set hrange hl.free (show t.clusterBitmap = _ by rw [hl.rest])
    rw [hnew, length_append, length_singleton]
    omega
  case apart =>
    intro hap
    refine ⟨?_, hapart hap⟩
    -- only file `d` got the new cluster, and no other file had it
    have hsym : ∀ e ∈ v.files, e ≠ d → List.Disjoint (ch d ++ [c]) (ch e) := by
      intro e he hne y hyd hye
      rcases mem_append.1 hyd with hyd | hyd
      · exact hap d hd e he (Ne.symm hne) hyd hye
      · rw [mem_singleton.1 hyd] at hye
        exact linked_not_mem h hl he hye
    intro a ha b hb hne
    rw [hfiles] at ha hb
    by_cases had : a = d
    · subst had
      rw [hnew, hapart hap b hb (Ne.symm hne)]
      exact hsym b hb (Ne.symm hne)
    · rw [hapart hap a ha had]
      by_cases hbd : b = d
      · subst hbd
        rw [hnew]
        exact (hsym a ha had).symm
      · rw [hapart hap b hb hbd]
        exact hap a ha b hb hne
  case count =>
    rw [hl.rest]
    rfl

end Linked

end Fat
end OsRiscv
