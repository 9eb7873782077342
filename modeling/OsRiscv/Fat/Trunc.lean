import OsRiscv.Fat.Content
import OsRiscv.Fat.PoolCount

/-!
# Trunc — truncating and creating files

`etrunc` frees the clusters of the chain one by one and gives the inodes back; no other chain is touched
because the chains are disjoint.  `ealloc` takes a spare dirent, which has no clusters and no inodes.
-/

namespace OsRiscv
namespace Fat

open Function (update update_idem update_of_ne update_self)
open Lib List

variable {g : Geometry} {v t u : Vol} {ch ch' : Nat → List Nat} {c d e x : Nat} {l : List Nat}
  {E : Panic → Vol → Prop} {bits : Nat → BitVec 64} {Q : Unit → Vol → Prop} {rest : List Nat} {attr : BitVec 8}
  {k : FatM Nat}

/-! ## Freeing a chain -/

/-- The volume after the clusters `l` were freed. -/
structure Cleared (g : Geometry) (v : Vol) (l : List Nat) (t : Vol) : Prop where
  fat : ∀ x < g.fatSz * 128, fatEntry g t.disk x = if x ∈ l then 0 else fatEntry g v.disk x
  byte : ∀ x o, InRange g x → clusByte g t.disk x o = clusByte g v.disk x o
  bits : ∀ x, Bitmap.bit t.clusterBitmap x = (!decide (x ∈ l) && Bitmap.bit v.clusterBitmap x)
  rest : t = { v with disk := t.disk, clusterBitmap := t.clusterBitmap }

lemma Cleared.nil (g : Geometry) (v : Vol) : Cleared g v [] v := by
  constructor <;> simp

lemma Cleared.cons {disk' : Nat → Sector} (hw : FatWritten g v.disk c 0 disk')
    (h : Cleared g { v with disk := disk', clusterBitmap := Bitmap.clear v.clusterBitmap c } l t) :
    Cleared g v (c :: l) t := by
  constructor
  · intro x hx
    rw [h.fat x hx]
    by_cases hxl : x ∈ l
    · rw [if_pos hxl, if_pos (mem_cons_of_mem c hxl)]
    · rw [if_neg hxl]
      rw [hw.fat x hx]
      by_cases hxc : x = c
      · rw [if_pos hxc, if_pos (hxc ▸ mem_cons_self)]
      · simp [hxc, hxl]
  · intro x o hx
    rw [h.byte x o hx]
    exact hw.byte x o hx
  · intro x
    rw [h.bits x]
    by_cases hxc : x = c <;> simp [hxc]
  · rw [h.rest]

lemma truncLoop_of_endMark {fuel : Nat} (h : EndMark x) (hQ : Q () v) :
    wp (truncLoop g fuel x) Q E v := by
  cases fuel with
  | zero => exact hQ
  | succ fuel =>
    have hcond : ¬ (2 ≤ x ∧ x < fat32Eoc) := fun hx => absurd h.1 (Nat.not_le.2 hx.2)
    unfold truncLoop
    rw [if_neg hcond]
    exact hQ

lemma truncLoop_wp {fuel : Nat}
    (h : FileChain g (fatEntry g v.disk) c l) (hfuel : l.length ≤ fuel)
    (hQ : ∀ t, Cleared g v l t → Q () t) : wp (truncLoop g fuel c) Q E v := by
  induction l generalizing v c fuel Q with
  | nil => exact absurd h.length_pos (Nat.not_lt_zero _)
  | cons y l ih =>
    have hyc : y = c := Option.some.inj (h.getElem?_zero)
    subst hyc
    have hr := h.ok_of_mem h.mem_self
    cases fuel with
    | zero => exact absurd hfuel (Nat.not_succ_le_zero _)
    | succ fuel =>
      have hcond : 2 ≤ y ∧ y < fat32Eoc := by
        have hlim := g.clusters_lt
        have hup := hr.2
        refine ⟨hr.1, ?_⟩
        unfold fat32Eoc
        omega
      unfold truncLoop
      rw [if_pos hcond, wp_bind]
      refine readFat_wp hr.2 ?_
      rw [wp_bind]
      refine freeClus_wp hr fun disk' hw => ?_
      cases h with
      | last _ hstop => exact truncLoop_of_endMark hstop (hQ _ (Cleared.cons hw (Cleared.nil g _)))
      | link hok hgo hrest =>
        refine ih (hrest.congr fun z hz => ?_) (Nat.le_of_succ_le_succ hfuel) fun t ht =>
          hQ t (Cleared.cons hw ht)
        -- the freed cluster is not in the rest of the chain
        have hne : z ≠ y := by
          rintro rfl
          exact (nodup_cons.1 (Chain.link hok hgo hrest).nodup).1 hz
        rw [hw.fat z (hrest.ok_of_mem hz).lt_table, if_neg hne]

/-! ## `etrunc` -/

/-- The volume with file `d` empty and its inodes given back. -/
def Vol.emptied (v : Vol) (d : Nat) (bits : Nat → BitVec 64) : Vol :=
  { v with
    inodeBitmap := bits
    dirents := update v.dirents d
      { v.dirents d with fileSize := 0, firstClus := 0, inodeMaxCluster := 0 } }

section Emptied

variable {bits : Nat → BitVec 64}

lemma emptied_self : (v.emptied d bits).dirents d =
    { v.dirents d with fileSize := 0, firstClus := 0, inodeMaxCluster := 0 } :=
  update_self _ _ _

lemma emptied_of_ne (hne : e ≠ d) : (v.emptied d bits).dirents e = v.dirents e :=
  update_of_ne hne _ _

lemma emptied_pool : (v.emptied d bits).pool = { v.pool with bits := bits } :=
  pool_update (v := { v with inodeBitmap := bits }) rfl rfl rfl rfl

lemma emptied_held (hd : d ∈ v.files) : held (v.emptied d bits) = update (held v) d 0 :=
  held_update (m := 0) (t := v.emptied d bits) hd (by rw [emptied_self]) fun e he => ⟨.rfl, by rw [emptied_of_ne he]⟩

variable (h : Inv g v ch) (hap : Apart v ch) (hd : d ∈ v.files) (hc : Cleared g v (ch d) t)
  (hown : ({ v.pool with bits := bits } : Pool).Owns (update (held v) d 0))
include h hap hd hc hown

lemma emptied_inv : Inv g (t.emptied d bits) (update ch d []) := by
  have hfiles : t.files = v.files := by rw [hc.rest]
  have hhead : t.direntHead = v.direntHead := by rw [hc.rest]
  have hdirents : t.dirents = v.dirents := by rw [hc.rest]
  have hpool : t.pool = v.pool := by rw [hc.rest]; rfl
  have hallocs : t.allocs = v.allocs := by rw [hc.rest]
  constructor
  · intro x hx
    have hout : x ∉ ch d := fun hmem => by
      have := (h.used_of_mem hd hmem).1.1
      omega
    change Bitmap.bit t.clusterBitmap x = true
    rw [hc.bits, h.reserved x hx]
    simp [hout]
  · intro x hx
    change Bitmap.bit t.clusterBitmap x = true ↔ fatEntry g t.disk x ≠ 0
    rw [hc.bits, hc.fat x hx.lt_table]
    by_cases hmem : x ∈ ch d
    · simp [hmem]
    · simpa [hmem] using h.bits x hx
  · intro e he hfirst
    change e ∈ t.files at he
    rw [hfiles] at he
    by_cases hed : e = d
    · subst hed
      rw [update_self, emptied_self]
      exact ⟨rfl, Nat.zero_le 1⟩
    · rw [emptied_of_ne hed, hdirents] at hfirst ⊢
      rw [update_of_ne hed]
      exact h.empty e he hfirst
  · intro e he hfirst
    change e ∈ t.files at he
    rw [hfiles] at he
    have hed : e ≠ d := by
      rintro rfl
      rw [emptied_self] at hfirst
      exact hfirst rfl
    have hdirent : (t.emptied d bits).dirents e = v.dirents e := by rw [emptied_of_ne hed, hdirents]
    rw [hdirent] at hfirst
    have hfile := h.chain e he hfirst
    rw [update_of_ne hed]
    refine hfile.frame (by rw [hdirent]) (by rw [hdirent]) (fun y hy hyr => ?_) fun j _ => ?_
    · change fatEntry g t.disk y = _
      rw [hc.fat y hyr.lt_table, if_neg fun hmem => hap e he d hd hed hy hmem]
    · rw [emptied_pool, hpool]
      rfl
  · have hheld : held t = held v := by
      unfold held
      rw [hfiles, hdirents]
    rw [emptied_pool, hpool, emptied_held (by rwa [hfiles]), hheld]
    exact hown
  · change t.direntHead.Nodup ∧ ∀ e ∈ t.direntHead, e ∉ t.files ∧ _
    rw [hhead, hfiles]
    refine ⟨h.spare.1, fun e he => ?_⟩
    have hed : e ≠ d := fun heq => (h.spare.2 e he).1 (heq ▸ hd)
    rw [emptied_of_ne hed, hdirents]
    exact h.spare.2 e he
  · change ∀ ev ∈ t.allocs, ev.Good g
    rw [hallocs]
    exact h.log

end Emptied

/-- What `etrunc` leaves: the file is empty, the other files are as they were. -/
structure Emptied (g : Geometry) (d : Nat) (v : Vol) (ch : Nat → List Nat) (t : Vol) : Prop where
  inv : Inv g t (update ch d [])
  apart : Apart t (update ch d [])
  files : t.files = v.files
  others : ∀ e, e ≠ d → t.dirents e = v.dirents e
  self : t.dirents d = { v.dirents d with fileSize := 0, firstClus := 0, inodeMaxCluster := 0 }
  bytes : ∀ x o, InRange g x → clusByte g t.disk x o = clusByte g v.disk x o
  count : (v.dirents d).inodeMaxCluster ≤ 1032 →
    t.pool.count + nodes (2 * (v.dirents d).inodeMaxCluster) = v.pool.count
  left : ∀ n : Node, n.Owned (held v d) → ¬n.Freeable (v.dirents d).inodeMaxCluster →
    Bitmap.bit t.inodeBitmap (v.pool.index d n) = true

lemma Apart.emptied (hap : Apart v ch) (hfiles : ∀ e ∈ t.files, e ≠ d → e ∈ v.files) :
    Apart t (update ch d []) := by
  intro a ha b hb hne
  by_cases had : a = d
  · subst had
    rw [update_self]
    exact disjoint_nil_left _
  · rw [update_of_ne had]
    by_cases hbd : b = d
    · subst hbd
      rw [update_self]
      exact disjoint_nil_right _
    · rw [update_of_ne hbd]
      exact hap a (hfiles a ha had) b (hfiles b hb hbd) hne

/-- The volume with the size and the first cluster of file `d` zero. -/
def Vol.zeroed (v : Vol) (d : Nat) : Vol :=
  { v with dirents := update v.dirents d { v.dirents d with fileSize := 0, firstClus := 0 } }

lemma zeroed_pool : (v.zeroed d).pool = v.pool := pool_update rfl rfl rfl rfl

lemma zeroed_withPool : (v.zeroed d).withPool v.pool = v.zeroed d := by
  rw [← zeroed_pool (d := d), Vol.withPool_pool]

lemma zeroed_emptied : ({ (v.zeroed d).withPool { v.pool with bits := bits } with
      dirents := update ((v.zeroed d).withPool { v.pool with bits := bits }).dirents d
        { ((v.zeroed d).withPool { v.pool with bits := bits }).dirents d with inodeMaxCluster := 0 } } : Vol)
      = v.emptied d bits := by
  have hdirents : update ((v.zeroed d).withPool { v.pool with bits := bits }).dirents d
      { ((v.zeroed d).withPool { v.pool with bits := bits }).dirents d with inodeMaxCluster := 0 }
      = (v.emptied d bits).dirents := by
    funext e
    by_cases he : e = d
    · subst he
      simp [Vol.zeroed, Vol.withPool, Vol.emptied, Vol.pool]
    · simp [Vol.zeroed, Vol.withPool, Vol.emptied, Vol.pool, update_of_ne he]
  rw [hdirents]
  rfl

lemma etrunc_wp (h : Inv g v ch) (hap : Apart v ch) (hd : d ∈ v.files)
    (hQ : ∀ t, Emptied g d v ch t → Q () t) : wp (etrunc g d) Q E v := by
  -- once the chain is cleared, the inodes are freed
  have hrest : ∀ t, Cleared g v (ch d) t → wp (do
      modifyDirent d fun e => { e with fileSize := 0, firstClus := 0 }
      eFreeInode d) Q E t := by
    intro t hc
    have hfiles : t.files = v.files := by rw [hc.rest]
    have hpool : t.pool = v.pool := by rw [hc.rest]; rfl
    have hzero : (t.zeroed d).pool = v.pool := zeroed_pool.trans hpool
    have hmax : ((t.zeroed d).dirents d).inodeMaxCluster = (v.dirents d).inodeMaxCluster := by
      rw [show (t.zeroed d).dirents d = { t.dirents d with fileSize := 0, firstClus := 0 } from update_self _ _ _,
        hc.rest]
    have hheld : held v d = 2 * ((t.zeroed d).dirents d).inodeMaxCluster := by
      rw [hmax]
      exact if_pos hd
    have hdone : wp (eFreeInode d) (fun _ u => ∃ bits, u = t.emptied d bits ∧
        ({ v.pool with bits := bits } : Pool).Owns (update (held v) d 0) ∧
        ∀ n : Node, n.Owned (held v d) → ¬n.Freeable (v.dirents d).inodeMaxCluster →
          Bitmap.bit bits (v.pool.index d n) = true) (fun _ _ => False) (t.zeroed d) := by
      rw [← zeroed_withPool, hpool]
      refine eFreeInode_wp h.owns hheld fun bits hown hleft => ⟨bits, ?_, hown, ?_⟩
      · rw [← hpool]
        exact zeroed_emptied
      · rwa [hmax] at hleft
    rcases exists_done hdone with ⟨_, _, hrun, bits, rfl, hown, hleft⟩
    change wp (eFreeInode d) Q E (t.zeroed d)
    unfold wp
    rw [hrun]
    refine hQ _ ⟨emptied_inv h hap hd hc hown, hap.emptied fun e he _ => hfiles ▸ he, hfiles, fun e he => ?_, ?_,
      hc.byte, fun hm => ?_, hleft⟩
    · rw [emptied_of_ne he, hc.rest]
    · rw [emptied_self, hc.rest]
    · have hcount := wp_done (eFreeInode_count (by rw [hzero]; exact h.owns) hheld (by rw [hmax]; exact hm)) hrun
      rwa [hmax, hzero] at hcount
  unfold etrunc
  rw [wp_bind, wp_get, wp_bind]
  by_cases hfirst : (v.dirents d).firstClus = 0
  · have hnil := (h.empty d hd hfirst).1
    have hcond : ¬ (2 ≤ (v.dirents d).firstClus ∧ (v.dirents d).firstClus < fat32Eoc) := by
      rw [hfirst]
      exact fun hx => absurd hx.1 (by decide)
    unfold truncLoop
    rw [if_neg hcond]
    exact hrest v (by rw [hnil]; exact Cleared.nil g v)
  · have hchain := (h.chain d hd hfirst).chain
    exact truncLoop_wp hchain (Nat.le_trans (FileChain.length_le hchain) (Nat.le_succ _)) hrest

/-! ## `ealloc` -/

/-- The volume with the spare dirent `d` made an empty file. -/
def Vol.opened (v : Vol) (d : Nat) (rest : List Nat) (attr : BitVec 8) : Vol :=
  { v with
    direntHead := rest
    files := d :: v.files
    dirents := update v.dirents d { v.dirents d with
      attr := attr, fileSize := 0, firstClus := 0, curClus := 0, clusCnt := 0, inodeMaxCluster := 0 } }

section Opened

lemma opened_self : (v.opened d rest attr).dirents d = { v.dirents d with
    attr := attr, fileSize := 0, firstClus := 0, curClus := 0, clusCnt := 0, inodeMaxCluster := 0 } :=
  update_self _ _ _

lemma opened_of_ne (hne : e ≠ d) : (v.opened d rest attr).dirents e = v.dirents e :=
  update_of_ne hne _ _

lemma opened_pool : (v.opened d rest attr).pool = v.pool := pool_update rfl rfl rfl rfl

lemma opened_held : held (v.opened d rest attr) = update (held v) d 0 := by
  refine held_update (m := 0) mem_cons_self (by rw [opened_self]) fun e he => ⟨?_, by rw [opened_of_ne he]⟩
  simp [Vol.opened, he]

lemma opened_files (e : Nat) (he : e ∈ (v.opened d rest attr).files) (hne : e ≠ d) : e ∈ v.files := by
  rcases mem_cons.1 he with rfl | he
  · exact absurd rfl hne
  · exact he

lemma opened_apart (hap : Apart v ch) : Apart (v.opened d rest attr) (update ch d []) :=
  hap.emptied opened_files

variable (h : Inv g v ch) (hhead : v.direntHead = d :: rest)
include h hhead

lemma opened_spare : d ∉ v.files ∧ (v.dirents d).inodeMaxCluster ≤ 1 :=
  h.spare.2 d (by rw [hhead]; exact mem_cons_self)

lemma opened_inv : Inv g (v.opened d rest attr) (update ch d []) := by
  have hnodup := h.spare.1
  rw [hhead] at hnodup
  constructor
  · exact h.reserved
  · exact h.bits
  · intro e he hfirst
    by_cases hed : e = d
    · subst hed
      rw [update_self, opened_self]
      exact ⟨rfl, Nat.zero_le 1⟩
    · rw [opened_of_ne hed] at hfirst ⊢
      rw [update_of_ne hed]
      exact h.empty e (opened_files e he hed) hfirst
  · intro e he hfirst
    have hed : e ≠ d := by
      rintro rfl
      rw [opened_self] at hfirst
      exact hfirst rfl
    have hdirent : (v.opened d rest attr).dirents e = v.dirents e := opened_of_ne hed
    rw [hdirent] at hfirst
    have hfile := h.chain e (opened_files e he hed) hfirst
    rw [update_of_ne hed]
    refine hfile.frame (by rw [hdirent]) (by rw [hdirent]) (fun _ _ _ => rfl) fun j _ => ?_
    rw [opened_pool]
  · rw [opened_pool, opened_held]
    exact h.owns.shrink (update_le_self_iff.2 (Nat.zero_le _))
  · refine ⟨(nodup_cons.1 hnodup).2, fun e he => ?_⟩
    have hed : e ≠ d := by
      rintro rfl
      exact (nodup_cons.1 hnodup).1 he
    have hspare := h.spare.2 e (by rw [hhead]; exact mem_cons_of_mem d he)
    rw [opened_of_ne hed]
    refine ⟨?_, hspare.2⟩
    change e ∉ d :: v.files
    simp [hed, hspare.1]
  · exact h.log

end Opened

/-- What `ealloc` leaves when it made a new file: the file is empty, the other files are as they were. -/
structure Created (g : Geometry) (d : Nat) (v : Vol) (ch : Nat → List Nat) (t : Vol) (ch' : Nat → List Nat) :
    Prop where
  inv : Inv g t ch'
  spare : d ∉ v.files
  files : t.files = d :: v.files
  others : ∀ e, e ≠ d → t.dirents e = { v.dirents e with inode := (t.dirents e).inode }
  fileSize : (t.dirents d).fileSize = 0
  cur : (t.dirents d).curClus < fat32Eoc
  zero : fileBytes g t.disk (ch' d) = fun _ => 0
  bytes : Apart v ch → ∀ e ∈ v.files, fileBytes g t.disk (ch' e) = fileBytes g v.disk (ch e)
  apart : Apart v ch → Apart t ch' ∧ ∀ e ∈ v.files, ch' e = ch e
  count : t.pool.count = v.pool.count + nodes (2 * (t.dirents d).inodeMaxCluster)

section Opened

variable (h : Inv g v ch) (hhead : v.direntHead = d :: rest)
include h hhead

lemma opened_created : Created g d v ch (v.opened d rest attr) (update ch d []) := by
  have hspare := (opened_spare h hhead).1
  have hkeep : ∀ e ∈ v.files, update ch d [] e = ch e := fun e he =>
    update_of_ne (show e ≠ d from fun heq => hspare (heq ▸ he)) _ _
  refine ⟨opened_inv h hhead, hspare, rfl, fun e he => ?_, ?_, ?_, ?_, fun _ e he => ?_, fun hap =>
    ⟨opened_apart hap, hkeep⟩, ?_⟩
  · rw [opened_of_ne he]
  · rw [opened_self]
  · rw [opened_self]
    exact show 0 < fat32Eoc by decide
  · funext o
    simp [fileBytes]
  · rw [hkeep e he]
    rfl
  · rw [opened_pool, opened_self, Nat.mul_zero, nodes_few (Nat.zero_le 16), Nat.add_zero]

lemma opened_changed (hc : Changed g d (v.opened d rest attr) (update ch d []) t ch')
    (hinv : Inv g t ch') (hcur : InRange g (t.dirents d).curClus)
    (hzero : fileBytes g t.disk (ch' d) = fun _ => 0) : Created g d v ch t ch' := by
  have hspare := (opened_spare h hhead).1
  have hopen : Inv g (v.opened d rest attr) (update ch d []) := opened_inv h hhead
  have hd : d ∈ (v.opened d rest attr).files := mem_cons_self
  have hne : ∀ e ∈ v.files, e ≠ d := fun e he heq => hspare (heq ▸ he)
  have hkeep : ∀ e ∈ v.files, update ch d [] e = ch e := fun e he =>
    update_of_ne (hne e he) _ _
  refine ⟨hinv, hspare, hc.files, fun e he => ?_, ?_, ?_, hzero, fun hap e he => ?_, fun hap => ?_, ?_⟩
  · rw [hc.others e he, opened_of_ne he]
  · rw [hc.fileSize, opened_self]
  · have hup := hcur.2
    have hlim := g.clusters_lt
    unfold fat32Eoc
    omega
  · rw [hc.fileBytes hopen (opened_apart hap) hd (mem_cons_of_mem d he) (hne e he), hkeep e he]
    rfl
  · rcases hc.apart (opened_apart hap) with ⟨hap', hsame⟩
    refine ⟨hap', fun e he => ?_⟩
    rw [hsame e (mem_cons_of_mem d he) (hne e he), hkeep e he]
  · have hcount := hc.count
    rwa [opened_pool, opened_self, Nat.mul_zero, nodes_few (Nat.zero_le 16), Nat.add_zero] at hcount

end Opened

/-- The volume with the spare dirent `d` taken and its fields set. -/
def Vol.claimed (v : Vol) (d : Nat) (rest : List Nat) (attr : BitVec 8) : Vol :=
  { v with
    direntHead := rest
    dirents := update v.dirents d { v.dirents d with attr := attr, fileSize := 0, firstClus := 0 } }

/-- The fields that `ealloc` sets after `eFreeInode`. -/
theorem claimed_opened {Q : Nat → Vol → Prop}
    (hQ : wp k Q E (v.opened d rest attr)) :
    wp (modifyDirent d fun e => { e with inodeMaxCluster := 0 }) (fun _ t => wp (do
        modifyDirent d fun e => { e with clusCnt := 0, curClus := 0 }
        Call.modify fun v => { v with files := d :: v.files }
        k) Q E t) E (v.claimed d rest attr) := by
  have hdirents : update (update (v.claimed d rest attr).dirents d
      { (v.claimed d rest attr).dirents d with inodeMaxCluster := 0 }) d
      { (v.claimed d rest attr).dirents d with inodeMaxCluster := 0, clusCnt := 0, curClus := 0 } =
      (v.opened d rest attr).dirents := by
    simp only [Vol.claimed, Vol.opened, update_self, update_idem]
  simp only [wp_bind, modifyDirent, wp_modify, update_self]
  rw [hdirents]
  exact hQ

lemma opened_setAttr {Q : Nat → Vol → Prop} {attr attr' : BitVec 8}
    (hQ : wp k Q E (v.opened d rest (attr ||| attr'))) : wp (do
      modifyDirent d fun e => { e with attr := e.attr ||| attr' }
      k) Q E (v.opened d rest attr) := by
  have hdirents : update (v.opened d rest attr).dirents d
      { (v.opened d rest attr).dirents d with
        attr := ((v.opened d rest attr).dirents d).attr ||| attr' }
      = (v.opened d rest (attr ||| attr')).dirents := by
    rw [opened_self]
    exact update_idem _ _ _
  simp only [wp_bind, modifyDirent, wp_modify]
  rw [hdirents]
  exact hQ

/-- The attributes that `ealloc` gives to a new entry. -/
def newAttr (attr : BitVec 8) : BitVec 8 :=
  (if attr = attrLink then 0 else attr) ||| if attr = attrDirectory then attrDirectory else attrArchive

/-- `ealloc` where the first spare dirent has no inodes of the pool. -/
theorem ealloc_new_wp {Q : Nat → Vol → Prop} {dp ep : Nat} (hdir : (v.dirents dp).attr &&& attrDirectory ≠ 0)
    (hhead : v.direntHead = ep :: rest) (hmax : (v.dirents ep).inodeMaxCluster ≤ 8)
    (hQ : wp (if attr = attrDirectory then do firstCluster g ep; return ep else return ep) Q E
      (v.opened ep rest (newAttr attr))) : wp (ealloc g dp none attr) Q E v := by
  unfold ealloc
  rw [wp_bind, wp_get, if_neg hdir, hhead]
  change wp (eFreeInode ep >>= _) Q E (v.claimed ep rest (if attr = attrLink then 0 else attr))
  rw [wp_bind]
  apply eFreeInode_none
  · simp only [Vol.claimed, update_self]
    exact hmax
  · unfold newAttr at hQ
    split at hQ
    · rename_i hdir'
      rw [if_pos hdir']
      exact claimed_opened (opened_setAttr hQ)
    · rename_i hdir'
      rw [if_neg hdir']
      exact claimed_opened (opened_setAttr hQ)

lemma ealloc_wp {Q : Nat → Vol → Prop} {dp : Nat} {found : Option Nat}
    (h : Inv g v ch) (hE : ∀ t, E .notDir t ∧ E .noDirent t)
    (hroom : found = none → attr = attrDirectory → 0 < (freeClusters g v).card)
    (hfound : ∀ ep, found = some ep → Q ep v)
    (hnew : ∀ ep rest t ch', found = none → v.direntHead = ep :: rest → Created g ep v ch t ch' → Q ep t) :
    wp (ealloc g dp found attr) Q E v := by
  by_cases hdp : (v.dirents dp).attr &&& attrDirectory = 0
  · unfold ealloc
    rw [wp_bind, wp_get, if_pos hdp]
    exact (hE v).1
  cases found with
  | some ep =>
    unfold ealloc
    rw [wp_bind, wp_get, if_neg hdp]
    exact hfound ep rfl
  | none =>
    cases hhead : v.direntHead with
    | nil =>
      unfold ealloc
      rw [wp_bind, wp_get, if_neg hdp, hhead]
      exact (hE v).2
    | cons ep rest =>
      have hspare := opened_spare h hhead
      refine ealloc_new_wp hdp hhead (by omega) ?_
      split
      · rename_i hdir
        rw [wp_bind]
        have hinv : Inv g (v.opened ep rest (newAttr attr)) (update ch ep []) := opened_inv h hhead
        refine firstCluster_wp hinv mem_cons_self (by rw [opened_self]) (hroom rfl hdir)
          fun c t hc hinv' hchanged hbytes => ?_
        have hself := started_self (v := t) (d := ep) (c := c)
        refine hnew ep rest _ _ rfl hhead (opened_changed h hhead hchanged hinv' (by rwa [hself]) ?_)
        rw [update_self] at hbytes ⊢
        refine hbytes.trans ?_
        funext o
        simp [fileBytes]
      · exact hnew ep rest _ _ rfl hhead (opened_created h hhead)

end Fat
end OsRiscv
