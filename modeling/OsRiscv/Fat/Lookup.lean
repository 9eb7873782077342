import OsRiscv.Fat.Init
import OsRiscv.Lib.Run

/-!
# Lookup — histories of `reloc_clus` calls

Whatever calls of `reloc_clus` were made on whatever files, the inode cache of each file is the beginning
of its chain and no two slots of the pool are the same, so the next call finds the cluster that following
the FAT would find.

An allocation takes the lowest free cluster of the bitmap, which may be one past the last cluster of the
volume when the volume is full: calls with `alloc` are made while there are free clusters.
-/

namespace OsRiscv
namespace Fat

open Lib List

/-- A call of `reloc_clus`. -/
structure Lookup where
  file : Nat
  off : Nat
  alloc : Bool

namespace Lookup

variable {g : Geometry} {v t : Vol} {ch : Nat → List Nat} {a : Lookup}

/-- The call is on a file, below the largest offset of the cache, and there are clusters for it. -/
def Ok (g : Geometry) (v : Vol) (a : Lookup) : Prop :=
  a.file ∈ v.files ∧ a.off / g.bytsPerClus < inodeThirdLevelTop ∧
    (a.alloc = true →
      a.off / g.bytsPerClus + 1 ≤ (chainOf g v a.file).length + (freeClusters g v).card)

instance (g : Geometry) (v : Vol) (a : Lookup) : Decidable (a.Ok g v) := by
  unfold Ok
  infer_instance

def step (g : Geometry) (v : Vol) (a : Lookup) : Option Vol :=
  match relocClus g a.file a.off a.alloc v with
  | .done _ t => some t
  | .panic _ _ => none

/-- What the call has to do: without `alloc` it goes to the cluster of the offset in the chain, or fails
when the chain is shorter; with `alloc` it first extends the chain. -/
def Result (g : Geometry) (v : Vol) (a : Lookup) (r : Int) (t : Vol) : Prop :=
  if a.alloc = true then
    chainOf g v a.file <+: chainOf g t a.file ∧
      (chainOf g t a.file).length = max (chainOf g v a.file).length (a.off / g.bytsPerClus + 1) ∧
      r = (a.off % g.bytsPerClus : Nat) ∧
      (chainOf g t a.file)[a.off / g.bytsPerClus]? = some (t.dirents a.file).curClus
  else
    chainOf g t a.file = chainOf g v a.file ∧
      if a.off / g.bytsPerClus < (chainOf g v a.file).length then
        r = (a.off % g.bytsPerClus : Nat) ∧
          (chainOf g v a.file)[a.off / g.bytsPerClus]? = some (t.dirents a.file).curClus
      else r = -1

/-- The invariant of the histories: all files have chains. -/
def Good (g : Geometry) (v : Vol) : Prop :=
  (∃ ch, Inv g v ch) ∧ ∀ d ∈ v.files, (v.dirents d).firstClus ≠ 0

lemma Grown.good {d : Nat} {ch' : Nat → List Nat} (h : Good g v) (hinv : Inv g t ch')
    (hgrown : Grown g d v ch t ch') : Good g t := by
  refine ⟨⟨ch', hinv⟩, fun e he => ?_⟩
  rw [hgrown.files] at he
  by_cases hed : e = d
  · subst hed
    rw [hgrown.firstClus]
    exact h.2 e he
  · rw [hgrown.others e hed]
    exact h.2 e he

/-- One call. -/
theorem wp_relocClus (h : Good g v) (hok : a.Ok g v) :
    wp (relocClus g a.file a.off a.alloc) (fun r t => Good g t ∧ a.Result g v r t)
      (fun r t => r = .wildInode ∧ t.pool.Full) v := by
  rcases h.1 with ⟨ch, hinv⟩
  rcases hok with ⟨hfile, htop, hroom⟩
  have htop' : a.off / g.bytsPerClus < 164872 := htop
  have hch := hinv.chainOf hfile
  rw [hch] at hroom
  refine relocClus_wp hinv hfile (h.2 a.file hfile) hroom (fun t ht _ => ⟨rfl, ht⟩)
    (fun hlarge => absurd hlarge (by omega)) ?_ ?_
  · intro t ch' hr hshort
    have hch' : chainOf g t a.file = ch' a.file := hr.inv.chainOf (by rw [hr.grown.files]; exact hfile)
    rcases hr.grown.ext with ⟨new, hnew, _⟩
    refine ⟨Grown.good h hr.inv hr.grown, ?_⟩
    unfold Result
    rw [hch, hch']
    cases halloc : a.alloc with
    | true =>
      exact ⟨⟨new, hnew.symm⟩, hr.length, rfl, hr.cur⟩
    | false =>
      have hlt := hshort halloc
      have hnil : new = [] := by
        have hlen := hr.length
        rw [hnew, length_append] at hlen
        exact length_eq_zero_iff.1 (by omega)
      rw [if_neg Bool.false_ne_true, if_pos hlt, hnew, hnil, append_nil]
      refine ⟨rfl, rfl, ?_⟩
      rw [← hr.cur, hnew, hnil, append_nil]
  · intro t halloc hshort hinv' hgrown _
    have hch' : chainOf g t a.file = ch a.file := hinv'.chainOf (by rw [hgrown.files]; exact hfile)
    refine ⟨Grown.good h hinv' hgrown, ?_⟩
    unfold Result
    rw [hch, hch', halloc, if_neg Bool.false_ne_true, if_neg (by omega)]
    exact ⟨rfl, rfl⟩

lemma step_good (h : Good g v) (hok : a.Ok g v) (hstep : a.step g v = some t) : Good g t := by
  have hw := wp_relocClus h hok
  unfold step at hstep
  unfold wp at hw
  cases hout : relocClus g a.file a.off a.alloc v with
  | done r u =>
    rw [hout] at hstep hw
    cases hstep
    exact hw.1
  | panic r u =>
    rw [hout] at hstep
    cases hstep

end Lookup

/-! ## The slots of the pool -/

/-- Where position `pos` of file `d` is in the pool: which inode, and which item of it. -/
def slotAddr (v : Vol) (d pos : Nat) : Option (Nat × Nat) :=
  (slotNode pos).map fun n => (v.pool.index d n, slotItem pos)

/-- No two positions of the caches of the files are in one slot. -/
def SlotsApart (v : Vol) : Prop :=
  ∀ d ∈ v.files, ∀ e ∈ v.files, ∀ i < (v.dirents d).inodeMaxCluster, ∀ j < (v.dirents e).inodeMaxCluster,
    slotAddr v d i ≠ none → slotAddr v d i = slotAddr v e j → d = e ∧ i = j

lemma Inv.slotsApart {g : Geometry} {v : Vol} {ch : Nat → List Nat} (h : Inv g v ch)
    (hfirst : ∀ d ∈ v.files, (v.dirents d).firstClus ≠ 0) : SlotsApart v := by
  intro d hd e he i hi j hj hsome heq
  have howned : ∀ d ∈ v.files, ∀ i < (v.dirents d).inodeMaxCluster, ∀ n, slotNode i = some n →
      n.Owned (held v d) := by
    intro d hd i hi n hn
    have htop := (h.chain d hd (hfirst d hd)).le_top
    refine (slotNode_owned (by omega) hn).mono ?_
    unfold held
    rw [if_pos hd]
    omega
  unfold slotAddr at hsome heq
  cases hn : slotNode i with
  | none =>
    rw [hn] at hsome
    exact absurd rfl hsome
  | some n =>
    cases hm : slotNode j with
    | none =>
      rw [hn, hm] at heq
      cases heq
    | some m =>
      rw [hn, hm] at heq
      rcases Prod.mk.inj (Option.some.inj heq) with ⟨hindex, hitem⟩
      rcases h.owns.inj d n e m (howned d hd i hi n hn) (howned e he j hj m hm) hindex with ⟨rfl, rfl⟩
      exact ⟨rfl, slot_inj (hn.trans hm.symm) hitem⟩

/-! ## Histories -/

/-- After any history of calls the cache of every file is the beginning of its chain, no two slots of the
pool are the same, and the next call follows the chain; it fails only when all inodes are in use. -/
theorem lookup_follows_chain (g : Geometry) {v₀ v : Vol} {as : List Lookup} (hinit : Initialised g v₀)
    (hzero : fatEntry g v₀.disk 0 ≠ 0) (hone : fatEntry g v₀.disk 1 ≠ 0)
    (hchains : ∀ d ∈ v₀.files, ∃ l, FileChain g (fatEntry g v₀.disk) (v₀.dirents d).firstClus l)
    (hrun : Run (fun s a t => a.Ok g s ∧ a.step g s = some t) v₀ as v) :
    (∀ d ∈ v.files, FileChain g (fatEntry g v.disk) (v.dirents d).firstClus (chainOf g v d) ∧
      ∀ j < (v.dirents d).inodeMaxCluster, inodeAt v.inodes (v.dirents d).inode j = (chainOf g v d)[j]?) ∧
    SlotsApart v ∧
    ∀ a : Lookup, a.Ok g v →
      wp (relocClus g a.file a.off a.alloc) (a.Result g v) (fun r t => r = .wildInode ∧ t.pool.Full) v := by
  have hfirst₀ : ∀ d ∈ v₀.files, (v₀.dirents d).firstClus ≠ 0 := by
    intro d hd hfirst
    rcases hchains d hd with ⟨l, hl⟩
    rw [hfirst] at hl
    exact absurd (hl.ok_of_mem hl.mem_self).1 (by decide)
  have hgood : Lookup.Good g v := by
    refine hrun.invariant ⟨⟨_, hinit.inv hzero hone fun d hd _ => hchains d hd⟩, hfirst₀⟩ ?_
    rintro s a t hs ⟨hok, hstep⟩
    exact Lookup.step_good hs hok hstep
  rcases hgood.1 with ⟨ch, hinv⟩
  refine ⟨fun d hd => ?_, hinv.slotsApart hgood.2, fun a hok => ?_⟩
  · have hfile := hinv.chain d hd (hgood.2 d hd)
    rw [hinv.chainOf hd]
    refine ⟨hfile.chain, fun j hj => ?_⟩
    rw [hfile.cached j hj]
    exact Pool.inodeAt_eq (p := v.pool) (Nat.lt_of_lt_of_le hj hfile.le_top)
  · exact wp_mono (Lookup.wp_relocClus hgood hok) fun _ _ hres => hres.2

/-! ## A full volume -/

/-- On a volume without a free cluster the allocation takes a number past its last cluster: the chain of
the root then has no end. -/
theorem lookup_leaves_full_volume : ∃ (g : Geometry) (v t : Vol) (a : Lookup) (r : Int),
      Initialised g v ∧ fatEntry g v.disk 0 ≠ 0 ∧ fatEntry g v.disk 1 ≠ 0 ∧
      (∀ d ∈ v.files, ∃ l, FileChain g (fatEntry g v.disk) (v.dirents d).firstClus l) ∧
      a.file ∈ v.files ∧ a.alloc = true ∧ a.off / g.bytsPerClus < inodeThirdLevelTop ∧
      relocClus g a.file a.off a.alloc v = .done r t ∧ ¬ InRange g (t.dirents a.file).curClus ∧
      ¬ ∃ l, FileChain g (fatEntry g t.disk) (t.dirents a.file).firstClus l := by
  have hrun : (match relocClus (smallGeometry 1) 0 512 true (smallVolume 1 smallFat) with
      | .done _ t => some ((t.dirents 0).firstClus, fatEntry (smallGeometry 1) t.disk 2, (t.dirents 0).curClus)
      | .panic _ _ => none) = some (2, 3, 3) := by decide +kernel
  cases hout : relocClus (smallGeometry 1) 0 512 true (smallVolume 1 smallFat) with
  | panic r t =>
    rw [hout] at hrun
    cases hrun
  | done r t =>
    rw [hout] at hrun
    rcases Prod.mk.inj (Option.some.inj hrun) with ⟨hfirst, hrest⟩
    rcases Prod.mk.inj hrest with ⟨hentry, hcur⟩
    have hout3 : ¬ InRange (smallGeometry 1) 3 := by decide
    refine ⟨smallGeometry 1, smallVolume 1 smallFat, t, ⟨0, 512, true⟩, r,
      smallVolume_initialised (by decide +kernel), by decide +kernel, by decide +kernel, ?_, by decide, rfl,
      by decide, hout, by rwa [hcur], ?_⟩
    · intro d hd
      rw [mem_singleton.1 hd]
      exact ⟨[2], smallVolume_chain (by decide) (by decide +kernel)⟩
    · rintro ⟨l, hl⟩
      rw [hfirst] at hl
      -- the entry of cluster 2 is neither an end mark nor a cluster of the volume
      cases hl with
      | last _ hstop =>
        rw [hentry] at hstop
        exact absurd hstop (by decide)
      | link _ _ hrest =>
        rw [hentry] at hrest
        exact hout3 (hrest.ok_of_mem hrest.mem_self)

/-- With a second cluster the same call extends the chain. -/
theorem lookup_extends_chain :
    ∃ v, Run (fun s a t => Lookup.Ok (smallGeometry 2) s a ∧ Lookup.step (smallGeometry 2) s a = some t)
        (smallVolume 2 smallFat) [⟨0, 512, true⟩] v ∧
      ∀ d ∈ v.files, FileChain (smallGeometry 2) (fatEntry (smallGeometry 2) v.disk) (v.dirents d).firstClus
        (chainOf (smallGeometry 2) v d) := by
  refine exists_run_guarded (P := fun _ => True) (by decide +kernel) ?_
  intro v hrun _ d hd
  refine ((lookup_follows_chain (smallGeometry 2) (smallVolume_initialised (by decide +kernel))
    (by decide +kernel) (by decide +kernel) ?_ hrun).1 d hd).1
  intro d hd
  rw [mem_singleton.1 hd]
  exact ⟨[2], smallVolume_chain (by decide) (by decide +kernel)⟩

end Fat
end OsRiscv
