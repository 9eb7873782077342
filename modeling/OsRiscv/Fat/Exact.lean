import Mathlib.Algebra.BigOperators.Group.Finset.Sigma
import OsRiscv.Fat.ByteFile

/-!
# Exact — what is in use of the inode pool

Over a history of calls the inodes in use stay exactly those that the files need: each is needed once, and there are as
many of them as nodes.  It ends when a file with nodes of the third level is truncated: `eFreeInode` takes such a node
for one that begins later, and leaves inodes in use that no file needs.
-/

namespace OsRiscv
namespace Fat

open Function (update update_of_ne update_self)
open Lib List

variable {g : Geometry} {v t : Vol} {ch ch' : Nat → List Nat} {arr : Nat → Option (List UInt8)} {d e m : Nat}

/-! ## The inodes in use -/

namespace Node

/-- The first position that needs the node. -/
def first : Node → Nat
  | second i => 8 + 64 * i
  | top k => 1032 + 4096 * k
  | leaf k j => 1032 + 4096 * k + 64 * j

/-- The node is needed for the first `m` positions. -/
def Caches (m : Nat) (n : Node) : Prop := n.Valid ∧ n.first < m

lemma caches_iff {n : Node} : n.Caches m ↔ n.Owned (2 * m) := by
  apply and_congr .rfl
  cases n <;> simp only [first, start] <;> omega

lemma not_caches {n : Node} (hm : m ≤ 1) : ¬n.Caches m := by
  intro hn
  have hlt := hn.2
  cases n <;> simp only [first] at hlt <;> omega

end Node

/-- The inodes in use are those that the cached positions of the files need, each needed once. -/
structure PoolExact (v : Vol) : Prop where
  used : ∀ x < 1024, Bitmap.bit v.inodeBitmap x = true ↔
    ∃ d ∈ v.files, ∃ n : Node, n.Caches (v.dirents d).inodeMaxCluster ∧ v.pool.index d n = x
  inPool : ∀ d ∈ v.files, ∀ n : Node, n.Caches (v.dirents d).inodeMaxCluster → v.pool.index d n < 1024
  apart : ∀ d ∈ v.files, ∀ e ∈ v.files, ∀ n m : Node, n.Caches (v.dirents d).inodeMaxCluster →
    m.Caches (v.dirents e).inodeMaxCluster → v.pool.index d n = v.pool.index e m → d = e ∧ n = m

/-- As many inodes are in use as the files have nodes. -/
def Counted (v : Vol) : Prop :=
  v.pool.count = ∑ d ∈ v.files.toFinset, nodes (2 * (v.dirents d).inodeMaxCluster)

/-- The pairs of a file and one of its nodes. -/
def nodesOf (v : Vol) : Finset (Σ _ : Nat, Node) :=
  v.files.toFinset.sigma fun d => ownedNodes (2 * (v.dirents d).inodeMaxCluster)

lemma held_of_mem (hd : d ∈ v.files) : held v d = 2 * (v.dirents d).inodeMaxCluster := if_pos hd

lemma mem_nodesOf {q : Σ _ : Nat, Node} :
    q ∈ nodesOf v ↔ q.1 ∈ v.files ∧ q.2.Caches (v.dirents q.1).inodeMaxCluster := by
  unfold nodesOf
  rw [Finset.mem_sigma, mem_toFinset, mem_ownedNodes, Node.caches_iff]

/-- The nodes go into the inodes in use without collision, and there are as many of both. -/
theorem Counted.exact (h : Counted v) (hown : v.pool.Owns (held v)) : PoolExact v := by
  have howned : ∀ d ∈ v.files, ∀ n : Node, n.Caches (v.dirents d).inodeMaxCluster → n.Owned (held v d) := by
    intro d hd n hn
    rw [held_of_mem hd]
    exact Node.caches_iff.1 hn
  have hsub : (nodesOf v).image (fun q => v.pool.index q.1 q.2) ⊆
      (Finset.range 1024).filter fun x => Bitmap.bit v.inodeBitmap x = true := by
    intro x hx
    rcases Finset.mem_image.1 hx with ⟨⟨d, n⟩, hq, rfl⟩
    rcases mem_nodesOf.1 hq with ⟨hd, hn⟩
    have hlive := hown.live d n (howned d hd n hn)
    exact Finset.mem_filter.2 ⟨Finset.mem_range.2 hlive.1, hlive.2⟩
  have hinj : Set.InjOn (fun q : Σ _ : Nat, Node => v.pool.index q.1 q.2) (nodesOf v) := by
    rintro ⟨d, n⟩ hq ⟨e, m⟩ hr heq
    rcases mem_nodesOf.1 hq with ⟨hd, hn⟩
    rcases mem_nodesOf.1 hr with ⟨he, hm⟩
    rcases hown.inj d n e m (howned d hd n hn) (howned e he m hm) heq with ⟨rfl, rfl⟩
    rfl
  have hcard : ((nodesOf v).image fun q => v.pool.index q.1 q.2).card = v.pool.count := by
    rw [Finset.card_image_of_injOn hinj, h]
    unfold nodes
    exact Finset.card_sigma _ _
  have heq := Finset.eq_of_subset_of_card_le hsub (Nat.le_of_eq hcard.symm)
  refine ⟨fun x hx => ?_, fun d hd n hn => (hown.live d n (howned d hd n hn)).1, fun d hd e he n m hn hm =>
    hown.inj d n e m (howned d hd n hn) (howned e he m hm)⟩
  have hmem : Bitmap.bit v.inodeBitmap x = true ↔ x ∈ (nodesOf v).image fun q => v.pool.index q.1 q.2 := by
    rw [heq]
    simp [hx]
  rw [hmem, Finset.mem_image]
  constructor
  · rintro ⟨⟨d, n⟩, hq, hindex⟩
    rcases mem_nodesOf.1 hq with ⟨hd, hn⟩
    exact ⟨d, hd, n, hn, hindex⟩
  · rintro ⟨d, hd, n, hn, hindex⟩
    exact ⟨⟨d, n⟩, mem_nodesOf.2 ⟨hd, hn⟩, hindex⟩

/-! ## What the calls count -/

/-- A call on file `d`: its nodes and the inodes in use change by the same number. -/
theorem Counted.changed (h : Counted v) (hd : d ∈ v.files) (hfiles : t.files = v.files)
    (hothers : ∀ e, e ≠ d → (t.dirents e).inodeMaxCluster = (v.dirents e).inodeMaxCluster)
    (hcount : t.pool.count + nodes (2 * (v.dirents d).inodeMaxCluster) =
      v.pool.count + nodes (2 * (t.dirents d).inodeMaxCluster)) : Counted t := by
  have hrest : ∑ e ∈ v.files.toFinset.erase d, nodes (2 * (t.dirents e).inodeMaxCluster) =
      ∑ e ∈ v.files.toFinset.erase d, nodes (2 * (v.dirents e).inodeMaxCluster) := by
    refine Finset.sum_congr rfl fun e he => ?_
    rw [hothers e (Finset.ne_of_mem_erase he)]
  unfold Counted at h ⊢
  rw [← Finset.add_sum_erase _ _ (mem_toFinset.2 hd)] at h
  rw [hfiles, ← Finset.add_sum_erase _ _ (mem_toFinset.2 hd), hrest]
  omega

lemma Counted.changes (h : Counted v) (hd : d ∈ v.files) (hc : OneFile g d v ch t ch') : Counted t :=
  h.changed hd hc.files (fun e he => by rw [hc.others e he]) hc.count

lemma Counted.created (h : Counted v) (hc : Created g d v ch t ch') : Counted t := by
  have hrest : ∑ e ∈ v.files.toFinset, nodes (2 * (t.dirents e).inodeMaxCluster) =
      ∑ e ∈ v.files.toFinset, nodes (2 * (v.dirents e).inodeMaxCluster) := by
    refine Finset.sum_congr rfl fun e he => ?_
    rw [hc.others e fun heq => hc.spare (heq ▸ mem_toFinset.1 he)]
  have hcount := hc.count
  unfold Counted at h ⊢
  rw [hc.files, toFinset_cons, Finset.sum_insert (fun hmem => hc.spare (mem_toFinset.1 hmem)), hrest]
  omega

lemma Counted.emptied (h : Counted v) (hd : d ∈ v.files) (hm : (v.dirents d).inodeMaxCluster ≤ 1032)
    (he : Emptied g d v ch t) : Counted t := by
  refine h.changed hd he.files (fun e hne => by rw [he.others e hne]) ?_
  rw [he.count hm, he.self, Nat.mul_zero, nodes_few (Nat.zero_le 16), Nat.add_zero]

/-! ## Removing a file -/

/-- `eremove`: the entry leaves its directory and becomes a spare dirent. -/
def eremove (d : Nat) : FatM Unit :=
  Call.modify fun v => { v with files := v.files.filter (· ≠ d), direntHead := d :: v.direntHead }

def doUnlinkat (g : Geometry) (d : Nat) : FatM Unit := do
  etrunc g d
  eremove d

section Removed

variable (hmax : (v.dirents d).inodeMaxCluster = 0)
include hmax

lemma Holds.removed (h : Holds g v ch arr) (hd : d ∈ v.files) :
    Holds g { v with files := v.files.filter (· ≠ d), direntHead := d :: v.direntHead } ch (update arr d none) := by
  have hmem : ∀ {e}, e ∈ v.files.filter (· ≠ d) ↔ e ∈ v.files ∧ e ≠ d := by simp
  refine ⟨⟨h.inv.reserved, h.inv.bits, fun e he => h.inv.empty e (hmem.1 he).1,
    fun e he hne => ?_, ?_, ⟨?_, fun e he => ?_⟩, h.inv.log⟩,
    fun a ha b hb => h.apart a (hmem.1 ha).1 b (hmem.1 hb).1, fun e he => ?_, fun e hlive => ?_⟩
  · exact (h.inv.chain e (hmem.1 he).1 hne).frame rfl rfl (fun _ _ _ => rfl) fun _ _ => rfl
  · refine h.inv.owns.shrink fun e => ?_
    unfold held
    split
    · rename_i he
      rw [if_pos (hmem.1 he).1]
    · exact Nat.zero_le _
  · exact nodup_cons.2 ⟨fun hspare => (h.inv.spare.2 d hspare).1 hd, h.inv.spare.1⟩
  · rcases mem_cons.1 he with rfl | he
    · exact ⟨fun hin => (hmem.1 hin).2 rfl, by rw [hmax]; exact Nat.zero_le 1⟩
    · exact ⟨fun hin => (h.inv.spare.2 e he).1 (hmem.1 hin).1, (h.inv.spare.2 e he).2⟩
  · rw [update_of_ne (hmem.1 he).2]
    exact (h.files e (hmem.1 he).1).kept rfl rfl
  · have hne : e ≠ d := by
      rintro rfl
      exact hlive (update_self e none arr)
    rw [update_of_ne hne] at hlive
    exact hmem.2 ⟨h.live e hlive, hne⟩

lemma Counted.removed (h : Counted v) :
    Counted { v with files := v.files.filter (· ≠ d), direntHead := d :: v.direntHead } := by
  have hfiles : (v.files.filter (· ≠ d)).toFinset = v.files.toFinset.erase d := by
    ext e
    simp [and_comm]
  have hzero : nodes (2 * (v.dirents d).inodeMaxCluster) = 0 := by
    rw [hmax]
    exact nodes_few (Nat.zero_le 16)
  have hsum := Finset.sum_erase (f := fun e => nodes (2 * (v.dirents e).inodeMaxCluster)) v.files.toFinset hzero
  unfold Counted at h ⊢
  dsimp only
  rw [hfiles, hsum]
  exact h

end Removed

/-! ## Histories -/

inductive FileAct
  | call (a : Act)
  | eread (d off n : Nat)
  | unlink (d : Nat)

namespace FileAct

def run (g : Geometry) : FileAct → FatM Unit
  | call a => a.run g
  | eread d off n => Fat.eread g d off n >>= fun _ => pure ()
  | unlink d => doUnlinkat g d

def step (g : Geometry) (v : Vol) (a : FileAct) : Option Vol :=
  match a.run g v with
  | .done _ t => some t
  | .panic _ _ => none

/-- The call is on a file, there are free clusters for what it allocates, and a file that is truncated or removed has no
nodes of the third level. -/
def Ok (g : Geometry) (v : Vol) : FileAct → Prop
  | call a => a.Ok g v ∧ ∀ d, a = .etrunc d → (v.dirents d).inodeMaxCluster ≤ inodeThirdLevelBottom
  | eread d _ _ => d ∈ v.files
  | unlink d => d ∈ v.files ∧ (v.dirents d).inodeMaxCluster ≤ inodeThirdLevelBottom

/-- There are free inodes for the positions that the call adds to the cache of its file. -/
def Room (g : Geometry) (v : Vol) : FileAct → Prop
  | call a => a.Room g v
  | eread d off n => v.Room d (clustersFor g off (min n ((v.dirents d).fileSize - off)))
  | unlink _ => True

variable {a : FileAct}

lemma wp_run (h : Holds g v ch arr) (hcount : Counted v) (hok : a.Ok g v) : wp (a.run g)
    (fun _ t => (∃ ch arr, Holds g t ch arr) ∧ Counted t) (fun r _ => r = .wildInode → ¬a.Room g v) v := by
  have hstop : ∀ (a : Act) (r : Panic) (t : Vol), a.Stops g v r t → r = .wildInode → ¬a.Room g v := by
    rintro a r t hs rfl
    exact hs
  have hcall : ∀ a : Act, (call a).Ok g v → wp (a.run g)
      (fun _ t => (∃ ch arr, Holds g t ch arr) ∧ Counted t) (fun r _ => r = .wildInode → ¬a.Room g v) v := by
    rintro a ⟨hok, hsmall⟩
    have hw := Act.wp_run h.inv h.apart hok
    unfold wp at hw ⊢
    cases hout : a.run g v with
    | panic r t =>
      rw [hout] at hw
      exact hstop a r t hw
    | done r t =>
      rw [hout] at hw
      rcases hw with ⟨ch', he⟩
      refine ⟨⟨ch', _, h.act hok he⟩, ?_⟩
      cases a with
      | ewrite d off data =>
        rcases he with ⟨_, rfl, rfl⟩ | ⟨_, u, hs, rfl⟩
        · exact hcount
        · have hu := hcount.changes hok.1 hs.changed.toOneFile
          split
          · exact hu
          · refine hu.changed (hs.changed.files ▸ hok.1) rfl (fun e he => by rw [resized_of_ne he]) ?_
            rw [resized_self, resized_sameFiles.pool]
      | reloc d off alloc => exact hcount.changes hok.1 he.2.1.toOneFile
      | ealloc dp found attr =>
        rcases he with ⟨_, rfl, rfl⟩ | ⟨_, ep, rest, _, hc⟩
        · exact hcount
        · exact hcount.created hc
      | etrunc d => exact hcount.emptied hok (hsmall d rfl) he.2
  cases a with
  | call a => exact hcall a hok
  | eread d off n =>
    refine (wp_bind _ _).2 ?_
    have hread := @Holds.eread g v ch d off n arr h hok
    unfold wp at hread ⊢
    cases hout : Fat.eread g d off n v with
    | panic r t =>
      rw [hout] at hread
      rintro rfl
      rcases hread with ⟨_, _, hneed⟩ | ⟨hlarge, _⟩
      · exact hneed
      · cases hlarge
    | done bytes t =>
      rw [hout] at hread
      rcases hread.1 with ⟨ch', h', hg⟩
      exact ⟨⟨ch', arr, h'⟩, hcount.changes hok hg.toOneFile⟩
  | unlink d =>
    refine (wp_bind _ _).2 (etrunc_wp h.inv h.apart hok.1 fun t he => ?_)
    have hmax : (t.dirents d).inodeMaxCluster = 0 := by rw [he.self]
    have hd : d ∈ t.files := he.files ▸ hok.1
    exact ⟨⟨_, _, (h.etrunc hok.1 ⟨rfl, he⟩).removed hmax hd⟩, (hcount.emptied hok.1 hok.2 he).removed hmax⟩

end FileAct

/-- No inode is in use, and no file has a node. -/
lemma Fresh.counted (h : Fresh g v) (hfree : ∀ x < 1024, Bitmap.bit v.inodeBitmap x = false) : Counted v := by
  have hzero : v.pool.count = 0 := Bitmap.count_of_empty hfree
  unfold Counted
  rw [hzero]
  refine (Finset.sum_eq_zero fun d hd => nodes_few ?_).symm
  rw [(h.files d (mem_toFinset.1 hd)).1]
  decide

/-- After any history of calls in which only files without nodes of the third level are truncated or removed: the
inodes in use are exactly those that the files need, any file can be truncated without freeing an inode that is not in
use, and while there are free inodes for it no call uses an inode that is none. -/
theorem inode_pool_exact (g : Geometry) {v₀ v : Vol} {as : List FileAct} (hfresh : Fresh g v₀)
    (hfree : ∀ x < 1024, Bitmap.bit v₀.inodeBitmap x = false)
    (hzero : fatEntry g v₀.disk 0 ≠ 0) (hone : fatEntry g v₀.disk 1 ≠ 0)
    (hchains : ∀ d ∈ v₀.files, (v₀.dirents d).firstClus ≠ 0 →
      ∃ l, FileChain g (fatEntry g v₀.disk) (v₀.dirents d).firstClus l)
    (hdisj : ∀ d ∈ v₀.files, ∀ e ∈ v₀.files, d ≠ e → List.Disjoint (chainOf g v₀ d) (chainOf g v₀ e))
    (hrun : Run (fun s a t => a.Ok g s ∧ a.step g s = some t) v₀ as v) :
    PoolExact v ∧ (∀ d ∈ v.files, ∃ t, etrunc g d v = .done () t) ∧
      ∀ a : FileAct, a.Ok g v → a.Room g v → ∀ t, a.run g v ≠ .panic .wildInode t := by
  have hinv : (∃ ch arr, Holds g v ch arr) ∧ Counted v := by
    refine hrun.invariant (P := fun v => (∃ ch arr, Holds g v ch arr) ∧ Counted v)
      ⟨⟨_, _, hfresh.holds hzero hone hchains hdisj⟩, hfresh.counted hfree⟩ ?_
    rintro s a t ⟨⟨ch, arr, h⟩, hcount⟩ ⟨hok, hstep⟩
    unfold FileAct.step at hstep
    cases hout : a.run g s with
    | panic r u =>
      rw [hout] at hstep
      cases hstep
    | done r u =>
      rw [hout] at hstep
      cases hstep
      have hdone := wp_done (FileAct.wp_run h hcount hok) hout
      exact hdone
  rcases hinv with ⟨⟨ch, arr, h⟩, hcount⟩
  refine ⟨hcount.exact h.inv.owns, fun d hd => ?_, fun a hok hr t hout =>
    wp_panicked (FileAct.wp_run h hcount hok) hout rfl hr⟩
  rcases exists_done (etrunc_wp (Q := fun _ _ => True) h.inv h.apart hd fun _ _ => trivial) with ⟨_, t, ht, _⟩
  exact ⟨t, ht⟩

instance decidableOk (g : Geometry) (v : Vol) (a : FileAct) : Decidable (a.Ok g v) :=
  match a with
  | .call (.etrunc d) => decidable_of_iff
      ((Act.etrunc d).Ok g v ∧ (v.dirents d).inodeMaxCluster ≤ inodeThirdLevelBottom) <|
    and_congr .rfl ⟨fun hm _ heq => Act.etrunc.inj heq ▸ hm, fun hm => hm d rfl⟩
  | .call (.ewrite d off data) => decidable_of_iff ((Act.ewrite d off data).Ok g v) (iff_self_and.2 fun _ => nofun)
  | .call (.reloc d off alloc) => decidable_of_iff ((Act.reloc d off alloc).Ok g v) (iff_self_and.2 fun _ => nofun)
  | .call (.ealloc dp found attr) =>
    decidable_of_iff ((Act.ealloc dp found attr).Ok g v) (iff_self_and.2 fun _ => nofun)
  | .eread d _ _ => inferInstanceAs (Decidable (d ∈ v.files))
  | .unlink _ => inferInstanceAs (Decidable (_ ∧ _))

/-- A file of nine clusters, which takes an inode of the pool, is written, read and removed. -/
theorem inode_pool_after_unlink :
    ∃ v, Run (fun s a t => FileAct.Ok (smallGeometry 20) s a ∧ FileAct.step (smallGeometry 20) s a = some t)
        (smallVolume 20 smallFat) [.call (.ealloc 0 none 0), .call (.ewrite 1 4096 [7]), .eread 1 0 1, .unlink 1] v ∧
      v.files = [0] ∧ PoolExact v := by
  refine exists_run_guarded (P := fun v => v.files = [0]) (by decide +kernel) ?_
  intro v hrun hroot
  refine ⟨hroot, (inode_pool_exact (smallGeometry 20) (smallVolume_fresh (by decide +kernel))
    (fun x _ => BitVec.getLsbD_zero) (by decide +kernel) (by decide +kernel) ?_ ?_ hrun).1⟩
  · intro d hd _
    rw [mem_singleton.1 hd]
    exact ⟨[2], smallVolume_chain (by decide) (by decide +kernel)⟩
  · intro d hd e he hne
    exact absurd ((mem_singleton.1 hd).trans (mem_singleton.1 he).symm) hne

/-! ## The third level -/

lemma longVolume_fresh : Fresh longGeometry longVolume where
  toInitialised := longVolume_initialised
  cur d _ := rfl
  size d hd := by
    rcases mem_pair.1 hd with rfl | rfl
    · exact Nat.zero_le _
    · rw [chainOf_long.2, length_range']
      exact Nat.le_refl _

/-- The last leaf of a file with nodes of the third level is not freed. -/
lemma last_leaf (hlo : 1032 < m) (hhi : m ≤ 164872) : ∃ n : Node, n.Owned (2 * m) ∧ ¬n.Freeable m := by
  refine ⟨.leaf ((m - 1033) / 4096) ((m - 1033) / 64 % 64), ⟨⟨by omega, Nat.mod_lt _ (by decide)⟩, ?_⟩, ?_⟩
  · simp only [Node.start]
    omega
  · simp only [Node.Freeable]
    omega

namespace FileAct

variable {off n : Nat}

/-- Reading a position of the file caches it. -/
theorem step_caches (h : Inv g v ch) (hd : d ∈ v.files) (hfirst : (v.dirents d).firstClus ≠ 0)
    (hn : off / g.bytsPerClus = n) (hlen : n < (ch d).length) (htop : n < 164872) (hroom : v.Room d (n + 1)) :
    ∃ t ch', (call (.reloc d off false)).step g v = some t ∧ Reached g d n v ch t ch' := by
  subst hn
  have hreach : reach false (ch d).length (off / g.bytsPerClus) = off / g.bytsPerClus + 1 := Nat.min_eq_right hlen
  have hwp : wp ((call (.reloc d off false)).run g)
      (fun _ t => ∃ ch', Reached g d (off / g.bytsPerClus) v ch t ch') (fun _ _ => False) v := by
    refine (wp_bind _ _).2 (relocClus_wp h hd hfirst nofun ?_ (fun hlarge => absurd htop (Nat.not_lt.2 hlarge)) ?_ ?_)
    · intro t _ hneed
      rw [hreach] at hneed
      exact hneed hroom
    · exact fun t ch' hr _ => ⟨ch', hr⟩
    · exact fun t _ hle => absurd hlen (Nat.not_lt.2 hle)
  rcases exists_done hwp with ⟨r, t, hout, ch', hr⟩
  refine ⟨t, ch', ?_, hr⟩
  unfold step
  rw [hout]

/-- Truncating a file with nodes of the third level leaves an inode in use that no file needs. -/
theorem step_leaks (h : Inv g v ch) (hap : Apart v ch) (hd : d ∈ v.files) (hlo : 1032 < (v.dirents d).inodeMaxCluster)
    (hfew : ∀ e ∈ v.files, e ≠ d → (v.dirents e).inodeMaxCluster ≤ 1) :
    ∃ t, (call (.etrunc d)).step g v = some t ∧ ¬PoolExact t := by
  have hwp : wp ((call (.etrunc d)).run g) (fun _ t => Emptied g d v ch t) (fun _ _ => False) v :=
    etrunc_wp h hap hd fun _ he => he
  rcases exists_done hwp with ⟨r, t, hout, he⟩
  have hstep : (call (.etrunc d)).step g v = some t := by
    unfold step
    rw [hout]
  refine ⟨t, hstep, fun hexact => ?_⟩
  have hfirst : (v.dirents d).firstClus ≠ 0 := by
    intro hzero
    have hle := (h.empty d hd hzero).2
    omega
  rcases last_leaf hlo (h.chain d hd hfirst).le_top with ⟨n, hn, hkept⟩
  rw [← held_of_mem hd] at hn
  -- no file of what is left has a node
  rcases (hexact.used _ (h.owns.live d n hn).1).1 (he.left n hn hkept) with ⟨e, hfile, m, hm, _⟩
  refine Node.not_caches ?_ hm
  by_cases hed : e = d
  · rw [hed, he.self]
    exact Nat.zero_le 1
  · rw [he.others e hed]
    exact hfew e (he.files ▸ hfile) hed

end FileAct

/-- Position 1032 of the file of 70664 clusters is read, and then the file is truncated. -/
theorem truncated_file_leaks : Fresh longGeometry longVolume ∧
    (∀ x < 1024, Bitmap.bit longVolume.inodeBitmap x = false) ∧
    (fatEntry longGeometry longVolume.disk 0 ≠ 0 ∧ fatEntry longGeometry longVolume.disk 1 ≠ 0) ∧
    (∀ d ∈ longVolume.files, (longVolume.dirents d).firstClus ≠ 0 →
      ∃ l, FileChain longGeometry (fatEntry longGeometry longVolume.disk) (longVolume.dirents d).firstClus l) ∧
    Apart longVolume (chainOf longGeometry longVolume) ∧
    ∃ v t, FileAct.step longGeometry longVolume (.call (.reloc 1 (1032 * 512) false)) = some v ∧
      FileAct.step longGeometry v (.call (.etrunc 1)) = some t ∧ ¬PoolExact t := by
  have hfree : ∀ x < 1024, Bitmap.bit longVolume.inodeBitmap x = false := fun x _ => BitVec.getLsbD_zero
  have hfile : 1 ∈ longVolume.files := mem_cons_of_mem 0 mem_cons_self
  have hdiv : 1032 * 512 / longGeometry.bytsPerClus = 1032 := by decide
  have hroom : longVolume.Room 1 (1032 + 1) := by
    have hzero : longVolume.pool.count = 0 := Bitmap.count_of_empty hfree
    have hsecond := nodes_second (Nat.le_refl 1032)
    have hnext := @nodes_next_le 1032
    unfold Vol.Room
    omega
  have hlen : 1032 < (chainOf longGeometry longVolume 1).length := by
    rw [chainOf_long.2, length_range']
    decide
  rcases @FileAct.step_caches longGeometry longVolume _ 1 (1032 * 512) 1032 longVolume_inv hfile nofun hdiv hlen
    (by decide) hroom with ⟨v, ch, hstep, hr⟩
  refine ⟨longVolume_fresh, hfree, longVolume_reserved, longVolume_hasChains, longVolume_apart, v, ?_⟩
  have hfew : ∀ e ∈ v.files, e ≠ 1 → (v.dirents e).inodeMaxCluster ≤ 1 := by
    intro e _ hne
    rw [hr.grown.others e hne]
    exact Nat.le_refl 1
  rcases FileAct.step_leaks hr.inv (hr.grown.apart longVolume_apart).1 (hr.grown.files ▸ hfile) hr.cached hfew
    with ⟨t, ht, hnot⟩
  exact ⟨t, hstep, ht, hnot⟩

end Fat
end OsRiscv
