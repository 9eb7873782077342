import OsRiscv.Fat.Trunc
import OsRiscv.Lib.Run

/-!
# Alloc — histories of the calls that allocate and free clusters

The calls are `ewrite`, `reloc_clus`, `ealloc` and `etrunc`, on any files.  As long as there are free
clusters and free inodes for what a call allocates, the bitmap stays what the FAT says, the files keep finite
chains with no cluster in common, and every cluster that `alloc_clus` handed out was one of the volume and in
no chain.
-/

namespace OsRiscv
namespace Fat

open Lib List

/-- A call of one of the functions that allocate or free; `found` of `ealloc` is what `dirlookup` found. -/
inductive Act
  | ewrite (d off : Nat) (data : List UInt8)
  | reloc (d off : Nat) (alloc : Bool)
  | ealloc (dp : Nat) (found : Option Nat) (attr : BitVec 8)
  | etrunc (d : Nat)

namespace Act

def run (g : Geometry) : Act → FatM Unit
  | ewrite d off data => Fat.ewrite g d off data >>= fun _ => pure ()
  | reloc d off alloc => relocClus g d off alloc >>= fun _ => pure ()
  | ealloc dp found attr => Fat.ealloc g dp found attr >>= fun _ => pure ()
  | etrunc d => Fat.etrunc g d

def step (g : Geometry) (v : Vol) (a : Act) : Option Vol :=
  match a.run g v with
  | .done _ t => some t
  | .panic _ _ => none

/-- The call is on a file, and there are free clusters for what it allocates. -/
def Ok (g : Geometry) (v : Vol) : Act → Prop
  | ewrite d off data => d ∈ v.files ∧ (Writes v d off data →
      clustersFor g off data.length ≤ (chainOf g v d).length + (freeClusters g v).card)
  | reloc d off alloc => d ∈ v.files ∧ (alloc = true →
      off / g.bytsPerClus + 1 ≤ (chainOf g v d).length + (freeClusters g v).card)
  | ealloc _ found attr => found = none → attr = attrDirectory → 0 < (freeClusters g v).card
  | etrunc d => d ∈ v.files

instance (g : Geometry) (v : Vol) (a : Act) : Decidable (a.Ok g v) := by
  cases a <;> unfold Ok <;> infer_instance

/-- There are free inodes for the positions that the call adds to the cache of its file. -/
def Room (g : Geometry) (v : Vol) : Act → Prop
  | ewrite d off data => Writes v d off data → v.Room d (clustersFor g off data.length)
  | reloc d off alloc => v.Room d (reach alloc (chainOf g v d).length (off / g.bytsPerClus))
  | ealloc _ _ _ => True
  | etrunc _ => True

variable {g : Geometry} {v t : Vol} {ch ch' : Nat → List Nat} {a : Act} {d off : Nat}

/-! ## One call -/

/-- What a completed call did. -/
def Effect (g : Geometry) (v : Vol) (ch : Nat → List Nat) (t : Vol) (ch' : Nat → List Nat) : Act → Prop
  | ewrite d off data => (¬ Writes v d off data ∧ t = v ∧ ch' = ch) ∨
      (Writes v d off data ∧ ∃ u, Stored g d off data v ch u ch' ∧
        t = if data = [] then u else u.resized d (max (v.dirents d).fileSize (off + data.length)))
  | reloc d _ _ => Inv g t ch' ∧ Grown g d v ch t ch' ∧
      (InRange g (t.dirents d).curClus ∨ (t.dirents d).curClus = (v.dirents d).firstClus)
  | ealloc _ found _ => (found ≠ none ∧ t = v ∧ ch' = ch) ∨
      (found = none ∧ ∃ ep rest, v.direntHead = ep :: rest ∧ Created g ep v ch t ch')
  | etrunc d => ch' = Function.update ch d [] ∧ Emptied g d v ch t

/-- What a call can stop in. -/
def Stops (g : Geometry) (v : Vol) (a : Act) (r : Panic) (_ : Vol) : Prop :=
  match r, a with
  | .wildInode, a => ¬a.Room g v
  | .inodeTooLarge, ewrite _ off data => inodeThirdLevelTop < clustersFor g off data.length
  | .inodeTooLarge, reloc _ off _ => inodeThirdLevelTop ≤ off / g.bytsPerClus
  | .assertion, reloc d _ _ => (v.dirents d).firstClus = 0
  | .notDir, ealloc _ _ _ => True
  | .noDirent, ealloc _ _ _ => True
  | _, _ => False

lemma wp_ewrite {data : List UInt8} (h : Inv g v ch) (hok : (ewrite d off data).Ok g v) :
    wp ((ewrite d off data).run g) (fun _ t => ∃ ch', (ewrite d off data).Effect g v ch t ch')
      ((ewrite d off data).Stops g v) v := by
  rcases hok with ⟨hd, hroom⟩
  rw [h.chainOf hd] at hroom
  unfold run
  rw [wp_bind]
  refine ewrite_wp h hd hroom (fun t _ hw hneed hr => hneed (hr hw)) (fun _ hlarge _ => hlarge) ?_ ?_ ?_
  · intro hdev
    exact ⟨ch, .inl ⟨fun hw => hw.1 hdev, rfl, rfl⟩⟩
  · intro _ hfail
    refine ⟨ch, .inl ⟨fun hw => ?_, rfl, rfl⟩⟩
    rcases hfail with hbig | hro
    · exact absurd hw.2.1 (by omega)
    · exact hro hw.2.2
  · intro hw t ch' hs
    exact ⟨ch', .inr ⟨hw, t, hs, rfl⟩⟩

lemma wp_reloc {alloc : Bool} (h : Inv g v ch) (hok : (reloc d off alloc).Ok g v) :
    wp ((reloc d off alloc).run g) (fun _ t => ∃ ch', (reloc d off alloc).Effect g v ch t ch')
      ((reloc d off alloc).Stops g v) v := by
  rcases hok with ⟨hd, hroom⟩
  rw [h.chainOf hd] at hroom
  unfold run
  rw [wp_bind]
  by_cases hfirst : (v.dirents d).firstClus = 0
  · -- the assertion at the head of `reloc_clus`
    unfold relocClus
    rw [wp_bind, wp_get]
    rw [if_pos (.inl hfirst)]
    exact hfirst
  · have hstop : ∀ t : Vol, t.pool.Full → ¬v.Room d (reach alloc (ch d).length (off / g.bytsPerClus)) →
        (reloc d off alloc).Stops g v .wildInode t := by
      intro t _ hneed hr
      rw [Room, h.chainOf hd] at hr
      exact hneed hr
    refine relocClus_wp h hd hfirst hroom hstop (fun hlarge _ => hlarge) ?_ ?_
    · intro t ch' hr _
      have hchain := hr.inv.used_of_mem (by rw [hr.grown.files]; exact hd) (mem_of_getElem? hr.cur)
      exact ⟨ch', hr.inv, hr.grown, .inl hchain.1⟩
    · intro t _ _ hinv hgrown hcur
      exact ⟨ch, hinv, hgrown, .inr hcur⟩

lemma wp_run (h : Inv g v ch) (hap : Apart v ch) (hok : a.Ok g v) :
    wp (a.run g) (fun _ t => ∃ ch', a.Effect g v ch t ch') (a.Stops g v) v := by
  cases a with
  | ewrite d off data => exact wp_ewrite h hok
  | reloc d off alloc => exact wp_reloc h hok
  | ealloc dp found attr =>
    unfold run
    rw [wp_bind]
    refine ealloc_wp h (fun t => ⟨trivial, trivial⟩) hok ?_ ?_
    · intro ep hfound
      exact ⟨ch, .inl ⟨by rw [hfound]; exact Option.some_ne_none ep, rfl, rfl⟩⟩
    · intro ep rest t ch' hnone hhead hc
      exact ⟨ch', .inr ⟨hnone, ep, rest, hhead, hc⟩⟩
  | etrunc d => exact etrunc_wp h hap hok fun t ht => ⟨_, rfl, ht⟩

lemma Effect.inv (h : Inv g v ch) (he : a.Effect g v ch t ch') : Inv g t ch' := by
  cases a with
  | ewrite d off data =>
    rcases he with ⟨_, rfl, rfl⟩ | ⟨_, u, hs, rfl⟩
    · exact h
    · split
      · exact hs.inv
      · exact hs.inv.congr resized_sameFiles
  | reloc d off alloc => exact he.1
  | ealloc dp found attr =>
    rcases he with ⟨_, rfl, rfl⟩ | ⟨_, ep, _, _, hc⟩
    · exact h
    · exact hc.inv
  | etrunc d =>
    rcases he with ⟨rfl, hem⟩
    exact hem.inv

lemma Effect.apart (hap : Apart v ch) (he : a.Effect g v ch t ch') : Apart t ch' := by
  cases a with
  | ewrite d off data =>
    rcases he with ⟨_, rfl, rfl⟩ | ⟨_, u, hs, rfl⟩
    · exact hap
    · split
      · exact (hs.changed.apart hap).1
      · exact (hs.changed.apart hap).1
  | reloc d off alloc => exact (he.2.1.apart hap).1
  | ealloc dp found attr =>
    rcases he with ⟨_, rfl, rfl⟩ | ⟨_, ep, _, _, hc⟩
    · exact hap
    · exact (hc.apart hap).1
  | etrunc d =>
    rcases he with ⟨rfl, hem⟩
    exact hem.apart

lemma step_effect (h : Inv g v ch) (hap : Apart v ch) (hok : a.Ok g v) (hstep : a.step g v = some t) :
    ∃ ch', a.Effect g v ch t ch' := by
  have hw := wp_run h hap hok
  unfold step at hstep
  unfold wp at hw
  cases hout : a.run g v with
  | done r u =>
    rw [hout] at hstep hw
    cases hstep
    exact hw
  | panic r u =>
    rw [hout] at hstep
    cases hstep

end Act

/-! ## Histories -/

/-- The volume is consistent: its files have chains with no cluster in common. -/
def Sound (g : Geometry) (v : Vol) : Prop := ∃ ch, Inv g v ch ∧ Apart v ch

lemma Initialised.sound {g : Geometry} {v : Vol} (h : Initialised g v)
    (hzero : fatEntry g v.disk 0 ≠ 0) (hone : fatEntry g v.disk 1 ≠ 0)
    (hchains : ∀ d ∈ v.files, (v.dirents d).firstClus ≠ 0 →
      ∃ l, FileChain g (fatEntry g v.disk) (v.dirents d).firstClus l)
    (hdisj : Apart v (chainOf g v)) : Sound g v :=
  ⟨chainOf g v, h.inv hzero hone hchains, hdisj⟩

lemma Act.step_sound {g : Geometry} {v t : Vol} {a : Act} (h : Sound g v) (hok : a.Ok g v)
    (hstep : a.step g v = some t) : Sound g t := by
  rcases h with ⟨ch, hinv, hap⟩
  rcases Act.step_effect hinv hap hok hstep with ⟨ch', he⟩
  exact ⟨ch', he.inv hinv, he.apart hap⟩

/-- After any history of calls made while there were free clusters: the bitmap and the FAT agree on which
clusters are in use, every file with a first cluster has a chain that ends, chains of different files have no
cluster in common, and every allocation was of a cluster of the volume that was in no chain.  While there are free
inodes as well, no call uses an inode that is none. -/
theorem clusters_allocated_once (g : Geometry) {v₀ v : Vol} {as : List Act} (hinit : Initialised g v₀)
    (hzero : fatEntry g v₀.disk 0 ≠ 0) (hone : fatEntry g v₀.disk 1 ≠ 0)
    (hchains : ∀ d ∈ v₀.files, (v₀.dirents d).firstClus ≠ 0 →
      ∃ l, FileChain g (fatEntry g v₀.disk) (v₀.dirents d).firstClus l)
    (hdisj : ∀ d ∈ v₀.files, ∀ e ∈ v₀.files, d ≠ e → List.Disjoint (chainOf g v₀ d) (chainOf g v₀ e))
    (hrun : Run (fun s a t => a.Ok g s ∧ a.step g s = some t) v₀ as v) :
    (∀ c, InRange g c → (Bitmap.bit v.clusterBitmap c = true ↔ fatEntry g v.disk c ≠ 0)) ∧
    (∀ d ∈ v.files, (v.dirents d).firstClus ≠ 0 →
      FileChain g (fatEntry g v.disk) (v.dirents d).firstClus (chainOf g v d)) ∧
    (∀ d ∈ v.files, ∀ e ∈ v.files, d ≠ e → List.Disjoint (chainOf g v d) (chainOf g v e)) ∧
    (∀ ev ∈ v.allocs, InRange g ev.cluster ∧ ∀ c l, FileChain g ev.fat c l → ev.cluster ∉ l) ∧
    ∀ a : Act, a.Ok g v → a.Room g v → ∀ t, a.run g v ≠ .panic .wildInode t := by
  have hsound : Sound g v := by
    refine hrun.invariant (hinit.sound hzero hone hchains hdisj) ?_
    rintro s a t hs ⟨hok, hstep⟩
    exact Act.step_sound hs hok hstep
  rcases hsound with ⟨ch, hinv, hap⟩
  refine ⟨hinv.bits, fun d hd hfirst => ?_, fun d hd e he hne => ?_, hinv.log,
    fun a hok hr t hout => wp_panicked (Act.wp_run hinv hap hok) hout hr⟩
  · rw [hinv.chainOf hd]
    exact (hinv.chain d hd hfirst).chain
  · rw [hinv.chainOf hd, hinv.chainOf he]
    exact hap d hd e he hne

/-- On a volume of three clusters a file is created and written over two clusters, and then truncated. -/
theorem clusters_of_new_file :
    ∃ v, Run (fun s a t => Act.Ok (smallGeometry 3) s a ∧ Act.step (smallGeometry 3) s a = some t)
        (smallVolume 3 smallFat)
        [.ealloc 0 none 0, .ewrite 1 511 [7, 8], .etrunc 1, .ealloc 0 none attrDirectory] v ∧
      v.allocs.length = 3 ∧
      ∀ ev ∈ v.allocs, InRange (smallGeometry 3) ev.cluster ∧
        ∀ c l, FileChain (smallGeometry 3) ev.fat c l → ev.cluster ∉ l := by
  refine exists_run_guarded (P := fun v => v.allocs.length = 3) (by decide +kernel) ?_
  intro v hrun hthree
  refine ⟨hthree, ?_⟩
  refine (clusters_allocated_once (smallGeometry 3) (smallVolume_initialised (by decide +kernel))
    (by decide +kernel) (by decide +kernel) ?_ ?_ hrun).2.2.2.1
  · intro d hd _
    rw [mem_singleton.1 hd]
    exact ⟨[2], smallVolume_chain (by decide) (by decide +kernel)⟩
  · intro d hd e he hne
    exact absurd ((mem_singleton.1 hd).trans (mem_singleton.1 he).symm) hne

/-! ## A file of 70664 clusters -/

/-- The FAT of a volume with two files: the root has cluster 70666, the other file the clusters 2 to 70665. -/
def longEntry (c : Nat) : Nat :=
  if c = 0 then 0x0ffffff8 else if c = 1 then 0x0fffffff else if c < 70665 then c + 1
  else if c < 70667 then 0x0fffffff else 0

def longDisk (sec : Nat) : Sector :=
  if sec = 0 then bootSectorOf 71556 555
  else fun o => flat 4 (fun c => memOf 0 (toLe 4 (longEntry c))) ((sec - 1) * 512 + o)

def longVolume : Vol where
  disk := longDisk
  clusterBitmap := fatInitBitmap longGeometry longDisk
  inodes _ _ := 0
  inodeBitmap _ := 0
  dirents d :=
    { attr := if d = 0 then attrDirectory else attrArchive
      firstClus := if d = 0 then 70666 else 2
      fileSize := if d = 0 then 0 else 70664 * 512
      curClus := if d = 0 then 70666 else 2
      inodeMaxCluster := 1
      clusCnt := 0
      inode := fun _ => if d = 0 then 70666 else 2
      dev := .regular }
  files := [0, 1]
  direntHead := []
  allocs := []

lemma fatEntry_long {c : Nat} (hc : c < 71040) : fatEntry longGeometry longDisk c = longEntry c := by
  have hmod : c * 4 % 2 ^ 32 = c * 4 := Nat.mod_eq_of_lt (by omega)
  have hlt : longEntry c < 256 ^ 4 := by
    unfold longEntry
    split
    · decide
    split
    · decide
    split
    · omega
    split <;> decide
  have hsec : fatSecOfClus longGeometry c = c * 4 / 512 + 1 := by
    unfold fatSecOfClus
    rw [hmod]
    exact Nat.add_comm _ _
  have hoff : fatOffsetOfClus longGeometry c = c * 4 % 512 := by
    unfold fatOffsetOfClus
    rw [hmod]
    rfl
  have hslice : slice (longDisk (c * 4 / 512 + 1)) (c * 4 % 512) 4 =
      slice (flat 4 fun c => memOf 0 (toLe 4 (longEntry c))) (c * 4 + 0) 4 := by
    apply map_congr_left
    intro i _
    unfold longDisk
    rw [if_neg (Nat.succ_ne_zero _)]
    congr 1
    omega
  unfold fatEntry
  rw [hsec, hoff, hslice, slice_flat (by decide), slice_memOf (by simp), drop_zero, take_of_length_le (by simp),
    ofLe_toLe hlt]

/-- A chain whose entries lead from each cluster to the next one. -/
theorem chain_range' {g : Geometry} {fat : Nat → Nat} {c n : Nat} (hrange : ∀ x, c ≤ x → x ≤ c + n → InRange g x)
    (hnext : ∀ x, c ≤ x → x < c + n → fat x = x + 1) (hend : EndMark (fat (c + n))) :
    FileChain g fat c (range' c (n + 1)) := by
  induction n generalizing c with
  | zero => exact Chain.last (hrange c (Nat.le_refl c) (Nat.le_refl c)) hend
  | succ n ih =>
    have hfirst := hnext c (Nat.le_refl c) (by omega)
    rw [range'_succ]
    refine Chain.link (hrange c (Nat.le_refl c) (by omega)) ?_ ?_
    · rw [hfirst]
      exact (hrange (c + 1) (by omega) (by omega)).not_endMark
    · rw [hfirst]
      have hsum : c + 1 + n = c + (n + 1) := by omega
      exact ih (fun x hlo hhi => hrange x (by omega) (by omega)) (fun x hlo hhi => hnext x (by omega) (by omega))
        (by rw [hsum]; exact hend)

lemma longVolume_chains : FileChain longGeometry (fatEntry longGeometry longDisk) 70666 [70666] ∧
    FileChain longGeometry (fatEntry longGeometry longDisk) 2 (range' 2 70664) := by
  constructor
  · refine Chain.last (by decide) ?_
    rw [fatEntry_long (by decide)]
    decide
  · refine chain_range' (n := 70663) (fun x hlo hhi => ⟨hlo, ?_⟩) (fun x hlo hhi => ?_) ?_
    · exact show x ≤ 71001 by omega
    · rw [fatEntry_long (by omega)]
      unfold longEntry
      rw [if_neg (by omega), if_neg (by omega), if_pos (by omega)]
    · rw [fatEntry_long (by decide)]
      decide

lemma longVolume_initialised : Initialised longGeometry longVolume where
  boot := by decide +kernel
  bitmap := by simp only [longVolume]
  files d _ := ⟨rfl, rfl⟩
  spare := ⟨nodup_nil, fun d hd => absurd hd not_mem_nil⟩
  allocs := rfl

lemma longVolume_reserved : fatEntry longGeometry longVolume.disk 0 ≠ 0 ∧ fatEntry longGeometry longVolume.disk 1 ≠ 0 := by
  constructor
  · exact ne_of_eq_of_ne (fatEntry_long (by decide)) (by decide)
  · exact ne_of_eq_of_ne (fatEntry_long (by decide)) (by decide)

lemma chainOf_long : chainOf longGeometry longVolume 0 = [70666] ∧
    chainOf longGeometry longVolume 1 = range' 2 70664 :=
  ⟨chainOf_eq nofun longVolume_chains.1, chainOf_eq nofun longVolume_chains.2⟩

lemma longVolume_hasChains : ∀ d ∈ longVolume.files, (longVolume.dirents d).firstClus ≠ 0 →
    ∃ l, FileChain longGeometry (fatEntry longGeometry longVolume.disk) (longVolume.dirents d).firstClus l := by
  intro d hd _
  rcases mem_pair.1 hd with rfl | rfl
  · exact ⟨_, longVolume_chains.1⟩
  · exact ⟨_, longVolume_chains.2⟩

lemma longVolume_apart : Apart longVolume (chainOf longGeometry longVolume) := by
  have hnot : List.Disjoint [70666] (range' 2 70664) := by
    refine singleton_disjoint.2 fun hmem => ?_
    have hlt := (mem_range'_1.1 hmem).2
    omega
  intro d hd e he hne
  rcases mem_pair.1 hd with rfl | rfl <;> rcases mem_pair.1 he with rfl | rfl
  · exact absurd rfl hne
  · rw [chainOf_long.1, chainOf_long.2]
    exact hnot
  · rw [chainOf_long.1, chainOf_long.2]
    exact hnot.symm
  · exact absurd rfl hne

lemma longVolume_inv : Inv longGeometry longVolume (chainOf longGeometry longVolume) :=
  longVolume_initialised.inv longVolume_reserved.1 longVolume_reserved.2 longVolume_hasChains

/-- The pool is too small for a cache of 70664 positions. -/
theorem Pool.Owns.bound_lt {p : Pool} {bound : Nat → Nat} {d : Nat} (h : p.Owns bound) : bound d < 2 * 70664 := by
  by_contra hlarge
  have howned : ∀ q ∈ Finset.range 17 ×ˢ Finset.range 64, (Node.leaf q.1 q.2).Owned (bound d) := by
    intro q hq
    have hmem := Finset.mem_product.1 hq
    rw [Finset.mem_range, Finset.mem_range] at hmem
    refine ⟨⟨by omega, hmem.2⟩, ?_⟩
    simp only [Node.start]
    omega
  have hcard := Finset.card_le_card_of_injOn (t := Finset.range 1024) (fun q => p.index d (.leaf q.1 q.2))
    (fun q hq => Finset.mem_range.2 (h.live d _ (howned q hq)).1) ?_
  · simp at hcard
  · intro q hq r hr heq
    rcases Node.leaf.inj (h.inj d _ d _ (howned q hq) (howned r hr) heq).2 with ⟨hk, hj⟩
    exact Prod.ext hk hj

/-- So position 70664 of a file cannot be reached. -/
theorem Act.reloc_wild {g : Geometry} {v : Vol} {ch : Nat → List Nat} {d off : Nat} (h : Inv g v ch) (hd : d ∈ v.files)
    (hfirst : (v.dirents d).firstClus ≠ 0) (hn : off / g.bytsPerClus = 70664)
    (hroom : off / g.bytsPerClus + 1 ≤ (ch d).length + (freeClusters g v).card) :
    ∃ t, (Act.reloc d off true).run g v = .panic .wildInode t := by
  have hwp : wp ((Act.reloc d off true).run g) (fun _ _ => False) (fun r _ => r = .wildInode) v := by
    unfold run
    rw [wp_bind]
    refine relocClus_wp h hd hfirst (fun _ => hroom) (fun _ _ _ => rfl) (fun hlarge => absurd hlarge (by omega)) ?_ nofun
    intro t ch' hr _
    have hlt := hr.inv.owns.bound_lt (d := d)
    have hcached := hr.cached
    unfold held at hlt
    rw [if_pos (hr.grown.files ▸ hd)] at hlt
    omega
  unfold wp at hwp
  cases hout : (Act.reloc d off true).run g v with
  | done r t =>
    rw [hout] at hwp
    exact hwp.elim
  | panic r t =>
    rw [hout] at hwp
    cases hwp
    exact ⟨t, rfl⟩

/-- The file of 70664 clusters is to get one more, and there is a free cluster for it: the pool runs out of inodes, and
what `inodeAlloc` then returns is used as one. -/
theorem long_file_wild_inode : Initialised longGeometry longVolume ∧
    (fatEntry longGeometry longVolume.disk 0 ≠ 0 ∧ fatEntry longGeometry longVolume.disk 1 ≠ 0) ∧
    (∀ d ∈ longVolume.files, (longVolume.dirents d).firstClus ≠ 0 →
      ∃ l, FileChain longGeometry (fatEntry longGeometry longVolume.disk) (longVolume.dirents d).firstClus l) ∧
    Apart longVolume (chainOf longGeometry longVolume) ∧
    (Act.reloc 1 (70664 * 512) true).Ok longGeometry longVolume ∧
    ∃ t, (Act.reloc 1 (70664 * 512) true).run longGeometry longVolume = .panic .wildInode t := by
  have hfree : 70667 ∈ freeClusters longGeometry longVolume := by
    refine mem_freeClusters.2 ⟨⟨by decide, show 70667 ≤ 71001 by decide⟩, ?_⟩
    have hzero : fatEntry longGeometry longVolume.disk 70667 = 0 :=
      (fatEntry_long (by decide)).trans (by decide +kernel)
    rw [longVolume_initialised.bitmap, ← Bool.not_eq_true]
    exact fun hbit => (bit_fatInitBitmap (show 70667 < 555 * 128 by decide)).1 hbit hzero
  have hdiv : 70664 * 512 / longGeometry.bytsPerClus = 70664 := Nat.mul_div_cancel 70664 (show 0 < 512 by decide)
  have hroom : 70664 * 512 / longGeometry.bytsPerClus + 1 ≤
      (chainOf longGeometry longVolume 1).length + (freeClusters longGeometry longVolume).card := by
    have hcard := Finset.card_pos.2 ⟨_, hfree⟩
    rw [chainOf_long.2, length_range', hdiv]
    omega
  have hfile : 1 ∈ longVolume.files := mem_cons_of_mem 0 mem_cons_self
  exact ⟨longVolume_initialised, longVolume_reserved, longVolume_hasChains, longVolume_apart, ⟨hfile, fun _ => hroom⟩,
    @Act.reloc_wild longGeometry longVolume _ 1 (70664 * 512) longVolume_inv hfile nofun hdiv hroom⟩

end Fat
end OsRiscv
