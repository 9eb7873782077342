import OsRiscv.Fat.Chains

/-!
# Reloc — `reloc_clus` follows the chain

`reloc_clus` looks the position up in the inode cache and, past its end, follows the FAT and enters what
it finds, so that the cache is always the beginning of the chain.
-/

namespace OsRiscv
namespace Fat

open Function (update update_idem update_of_ne update_self)
open Lib

variable {g : Geometry} {v t u : Vol} {ch ch' : Nat → List Nat} {c d e k : Nat}
  {E : Panic → Vol → Prop} {alloc : Bool} {l : List Nat} {clus cnt : Nat}

/-! ## Moving the cursor -/

/-- The dirents of `t` are those of `v` but for the cursor and the size of file `d`. -/
structure SameFiles (v t : Vol) : Prop where
  disk : t.disk = v.disk
  bitmap : t.clusterBitmap = v.clusterBitmap
  inodes : t.inodes = v.inodes
  inodeBitmap : t.inodeBitmap = v.inodeBitmap
  files : t.files = v.files
  head : t.direntHead = v.direntHead
  allocs : t.allocs = v.allocs
  firstClus : ∀ e, (t.dirents e).firstClus = (v.dirents e).firstClus
  max : ∀ e, (t.dirents e).inodeMaxCluster = (v.dirents e).inodeMaxCluster
  inode : ∀ e, (t.dirents e).inode = (v.dirents e).inode

lemma SameFiles.refl (v : Vol) : SameFiles v v :=
  ⟨rfl, rfl, rfl, rfl, rfl, rfl, rfl, fun _ => rfl, fun _ => rfl, fun _ => rfl⟩

lemma SameFiles.pool (h : SameFiles v t) : t.pool = v.pool := by
  unfold Vol.pool
  rw [h.inodes, h.inodeBitmap]
  simp only [h.inode]

lemma SameFiles.held (h : SameFiles v t) : held t = held v := by
  funext e
  unfold Fat.held
  rw [h.files, h.max]

lemma HasChain.congr (h : HasChain g v l d) (hs : SameFiles v t) : HasChain g t l d :=
  h.frame (hs.firstClus d) (hs.max d) (fun _ _ _ => by rw [hs.disk]) fun _ _ => by rw [hs.pool]

lemma Inv.congr (h : Inv g v ch) (hs : SameFiles v t) : Inv g t ch := by
  constructor
  · rw [hs.bitmap]
    exact h.reserved
  · rw [hs.bitmap, hs.disk]
    exact h.bits
  · intro d hd hfirst
    rw [hs.files] at hd
    rw [hs.firstClus] at hfirst
    rw [hs.max]
    exact h.empty d hd hfirst
  · intro d hd hfirst
    rw [hs.files] at hd
    rw [hs.firstClus] at hfirst
    exact (h.chain d hd hfirst).congr hs
  · rw [hs.pool, hs.held]
    exact h.owns
  · rw [hs.head, hs.files]
    refine ⟨h.spare.1, fun d hd => ?_⟩
    rw [hs.max]
    exact h.spare.2 d hd
  · rw [hs.allocs]
    exact h.log

/-- The volume with the cursor of file `d` moved. -/
def Vol.cursor (v : Vol) (d clus cnt : Nat) : Vol :=
  { v with dirents := update v.dirents d { v.dirents d with curClus := clus, clusCnt := cnt } }

lemma cursor_sameFiles : SameFiles v (v.cursor d clus cnt) := by
  have hdirent : ∀ e, ((v.cursor d clus cnt).dirents e).firstClus = (v.dirents e).firstClus ∧
      ((v.cursor d clus cnt).dirents e).inodeMaxCluster = (v.dirents e).inodeMaxCluster ∧
      ((v.cursor d clus cnt).dirents e).inode = (v.dirents e).inode := by
    intro e
    by_cases he : e = d
    · subst he
      simp [Vol.cursor]
    · simp [Vol.cursor, update_of_ne he]
  exact ⟨rfl, rfl, rfl, rfl, rfl, rfl, rfl, fun e => (hdirent e).1, fun e => (hdirent e).2.1,
    fun e => (hdirent e).2.2⟩

lemma Grown.cursor (h : Grown g d v ch t ch') : Grown g d v ch (t.cursor d clus cnt) ch' := by
  have hself : (t.cursor d clus cnt).dirents d = { t.dirents d with curClus := clus, clusCnt := cnt } :=
    update_self _ _ _
  have hmoved : OneFile g d t ch' (t.cursor d clus cnt) ch' := by
    refine ⟨rfl, fun e he => ?_, ?_, ?_, ?_, rfl, fun hap => ⟨hap, fun _ _ _ => rfl⟩, ?_⟩
    · rw [show (t.cursor d clus cnt).dirents e = t.dirents e from update_of_ne he _ _]
    · rw [hself]
    · rw [hself]
    · rw [hself]
    · rw [hself, cursor_sameFiles.pool]
  exact ⟨h.toOneFile.trans hmoved, by rw [hself, h.firstClus], h.ext, h.used⟩

/-! ## The next cluster of the chain -/

/-- `next_clus` stops just at the end of the chain. -/
theorem next_cases {fat : Nat → Nat} {x : Nat} (hchain : FileChain g fat c l) (hcur : l[k]? = some x) :
    ((fat32Eoc ≤ fat x ∧ fat x < 2 ^ 31) ∧ EndMark (fat x) ∧ l.length = k + 1) ∨
      (¬ (fat32Eoc ≤ fat x ∧ fat x < 2 ^ 31) ∧ l[k + 1]? = some (fat x)) := by
  by_cases hstop : EndMark (fat x)
  · exact .inl ⟨⟨hstop.1, Nat.lt_trans hstop.2 (by decide)⟩, hstop, hchain.length_of_stop hcur hstop⟩
  · have hnext := hchain.getElem?_succ hcur hstop
    have hnr := hchain.ok_of_mem (List.mem_of_getElem? hnext)
    exact .inr ⟨fun hmark => hnr.not_endMark ⟨hmark.1, hnr.lt⟩, hnext⟩

lemma nextClus_wp {Q : Option Nat → Vol → Prop} (h : Inv g v ch) (hd : d ∈ v.files)
    (hfirst : (v.dirents d).firstClus ≠ 0) (hcur : (ch d)[k]? = some (v.dirents d).curClus)
    (hroom : alloc = true → k + 2 ≤ (ch d).length + (freeClusters g v).card)
    (hgo : ∀ clus t ch', Inv g t ch' → Grown g d v ch t ch' → t.dirents = v.dirents →
      (ch' d)[k + 1]? = some clus → (ch' d).length = max (ch d).length (k + 2) →
      (alloc = false → ch' = ch) → Q (some clus) t)
    (hend : alloc = false → (ch d).length = k + 1 → Q none v) :
    wp (nextClus g d alloc) Q E v := by
  have hchain := (h.chain d hd hfirst).chain
  have hxd : (v.dirents d).curClus ∈ ch d := List.mem_of_getElem? hcur
  have hxr := hchain.ok_of_mem hxd
  unfold nextClus
  rw [wp_bind, wp_get, wp_bind]
  refine readFat_wp hxr.2 ?_
  rcases next_cases hchain hcur with ⟨hmark, hstop, hlen⟩ | ⟨hmark, hnext⟩
  · rw [if_pos hmark]
    cases alloc with
    | false => exact hend rfl hlen
    | true =>
      have hfree := hroom rfl
      rcases Finset.card_pos.1 (show 0 < (freeClusters g v).card by omega) with ⟨r, hr⟩
      rw [if_pos rfl, wp_bind]
      refine allocClus_wp h.reserved ⟨r, mem_freeClusters.1 hr⟩ fun c t ha => ?_
      rw [wp_bind]
      refine writeFat_wp hxr.2 (Nat.lt_trans ha.range.lt (by decide)) fun disk' hw => ?_
      have hl := linked_of_allocated ha hw
      have hnew : linked ch (v.dirents d).curClus c d = ch d ++ [c] := if_pos hxd
      refine hgo c _ _ (linked_inv h hl hxr hstop) (linked_grown h hl hd hxd) ?_ ?_ ?_ ?_
      · rw [ha.rest]
      · rw [hnew, ← hlen]
        simp
      · rw [hnew, List.length_append, List.length_singleton]
        omega
      · intro hfalse
        cases hfalse
  · have hlong : k + 1 < (ch d).length := (List.getElem?_eq_some_iff.1 hnext).1
    rw [if_neg hmark]
    exact hgo _ v ch h (.refl g d v ch) rfl hnext (by omega) fun _ => rfl

/-! ## Entering it into the cache -/

/-- The volume with the cursor of file `d` on the new position `m` of its cache. -/
def Vol.advanced (v : Vol) (d clus m : Nat) : Vol :=
  { v with
    dirents := update v.dirents d
      { v.dirents d with curClus := clus, clusCnt := m, inodeMaxCluster := m + 1 } }

section Advanced

variable {clus m : Nat} {p : Pool}

lemma advanced_self : ((v.advanced d clus m).withPool p).dirents d =
      { v.dirents d with curClus := clus, clusCnt := m, inodeMaxCluster := m + 1, inode := p.item d } := by
  simp [Vol.advanced, Vol.withPool]

lemma advanced_of_ne (he : e ≠ d) :
    ((v.advanced d clus m).withPool p).dirents e = { v.dirents e with inode := p.item e } := by
  simp [Vol.advanced, Vol.withPool, update_of_ne he]

lemma advanced_held (hd : d ∈ v.files) : held ((v.advanced d clus m).withPool p) = update (held v) d (2 * (m + 1)) :=
  held_update hd (by rw [advanced_self]) fun e he => ⟨.rfl, by rw [advanced_of_ne he]⟩

variable (h : Inv g v ch) (hmax : (v.dirents d).inodeMaxCluster = m)
  (hput : v.pool.Put (held v) d m clus p)
include h hmax hput

lemma advanced_hasChain (hm : m < 164872)
    (hnew : (ch d)[m]? = some clus) (he : e ∈ v.files) (hefirst : (v.dirents e).firstClus ≠ 0) :
    HasChain g ((v.advanced d clus m).withPool p) (ch e) e := by
  have hfile := h.chain e he hefirst
  have hkeep : ∀ j < (v.dirents e).inodeMaxCluster, p.slot e j = v.pool.slot e j := by
    intro j hj
    have htop := hfile.le_top
    refine hput.old e j (by omega) ?_
    unfold held
    rw [if_pos he]
    omega
  by_cases hed : e = d
  · subst hed
    subst hmax
    refine hfile.next rfl (by rw [advanced_self]) (by rw [advanced_self]) hm hkeep ?_
    exact hnew.trans (congrArg some hput.new.symm)
  · exact hfile.frame (by rw [advanced_of_ne hed]) (by rw [advanced_of_ne hed]) (fun _ _ _ => rfl) hkeep

lemma advanced_inv (hd : d ∈ v.files) (hfirst : (v.dirents d).firstClus ≠ 0) (hm : m < 164872)
    (hnew : (ch d)[m]? = some clus) : Inv g ((v.advanced d clus m).withPool p) ch := by
  have hfirstClus : ∀ e, (((v.advanced d clus m).withPool p).dirents e).firstClus = (v.dirents e).firstClus := by
    intro e
    by_cases he : e = d
    · rw [he, advanced_self]
    · rw [advanced_of_ne he]
  constructor
  · exact h.reserved
  · exact h.bits
  · intro e he hempty
    rw [hfirstClus] at hempty
    have hne : e ≠ d := fun heq => hfirst (heq ▸ hempty)
    rw [advanced_of_ne hne]
    exact h.empty e he hempty
  · intro e he hefirst
    rw [hfirstClus] at hefirst
    exact advanced_hasChain h hmax hput hm hnew he hefirst
  · rw [advanced_held hd]
    exact hput.owns
  · refine ⟨h.spare.1, fun e he => ?_⟩
    have hne : e ≠ d := fun heq => (h.spare.2 e he).1 (heq ▸ hd)
    rw [advanced_of_ne hne]
    exact h.spare.2 e he
  · exact h.log

omit h in
lemma advanced_grown : Grown g d v ch ((v.advanced d clus m).withPool p) ch where
  files := rfl
  others e he := by rw [advanced_of_ne he]
  firstClus := by rw [advanced_self]
  fileSize := by rw [advanced_self]
  attr := by rw [advanced_self]
  dev := by rw [advanced_self]
  ext := ⟨[], by simp⟩
  used _ _ hne := ⟨hne, fun _ _ => rfl⟩
  room := rfl
  apart hap := ⟨hap, fun _ _ _ => rfl⟩
  count := by
    rw [hmax, advanced_self]
    exact hput.count

end Advanced

lemma advanced_withPool {clus m : Nat} : (v.advanced d clus m).withPool v.pool = v.advanced d clus m := by
  have hpool : (v.advanced d clus m).pool = v.pool := pool_update rfl rfl rfl rfl
  rw [← hpool, Vol.withPool_pool]

/-! ## The loop -/

/-- The cursor of file `d` is on the last position of its cache. -/
structure AtEnd (v : Vol) (ch : Nat → List Nat) (d k : Nat) : Prop where
  file : d ∈ v.files
  first : (v.dirents d).firstClus ≠ 0
  cnt : (v.dirents d).clusCnt = k
  max : (v.dirents d).inodeMaxCluster = k + 1
  cur : (ch d)[k]? = some (v.dirents d).curClus

/-- How many positions `reloc_clus` has cached when it is on position `n`, or at the end of a chain of `len` clusters. -/
def reach (alloc : Bool) (len n : Nat) : Nat := if alloc then n + 1 else min len (n + 1)

/-- What `reloc_clus` reaches: the chain has position `n`, and the cursor is on it. -/
structure Reached (g : Geometry) (d n : Nat) (v : Vol) (ch : Nat → List Nat) (t : Vol)
    (ch' : Nat → List Nat) : Prop where
  inv : Inv g t ch'
  grown : Grown g d v ch t ch'
  length : (ch' d).length = max (ch d).length (n + 1)
  cur : (ch' d)[n]? = some (t.dirents d).curClus
  cached : n < (t.dirents d).inodeMaxCluster

lemma relocLoop_wp {Q : Bool → Vol → Prop} {n fuel : Nat} (hfuel : n ≤ k + fuel) (hk : k ≤ n)
    (h : Inv g v ch) (hat : AtEnd v ch d k) (hroom : alloc = true → n + 1 ≤ (ch d).length + (freeClusters g v).card)
    (hfull : ∀ t, t.pool.Full → ¬v.Room d (reach alloc (ch d).length n) → E .wildInode t)
    (hlarge : 164872 ≤ n → ∀ t, E .inodeTooLarge t)
    (hdone : ∀ t ch', Reached g d n v ch t ch' → (alloc = false → n < (ch d).length) → Q true t)
    (hend : ∀ t, alloc = false → (ch d).length ≤ n → Inv g t ch → Grown g d v ch t ch →
      (t.dirents d).curClus = (v.dirents d).firstClus → Q false t) :
    wp (relocLoop g d n alloc fuel) Q E v := by
  have hlen : k < (ch d).length := (List.getElem?_eq_some_iff.1 hat.cur).1
  induction fuel generalizing v ch k with
  | zero =>
    have hkn : k = n := by omega
    subst hkn
    exact hdone v ch ⟨h, .refl g d v ch, by omega, hat.cur, by rw [hat.max]; omega⟩ fun _ => hlen
  | succ fuel ih =>
    unfold relocLoop
    rw [wp_bind, wp_get, hat.cnt]
    split
    case isFalse hle =>
      have hkn : k = n := by omega
      subst hkn
      exact hdone v ch ⟨h, .refl g d v ch, by omega, hat.cur, by rw [hat.max]; omega⟩ fun _ => hlen
    case isTrue hlt =>
      rw [wp_bind]
      refine nextClus_wp h hat.file hat.first hat.cur (fun ha => by have := hroom ha; omega) ?_ ?_
      · intro clus t ch' hinv hgrown hdirents hnew hlen' hsame
        have hfile : d ∈ t.files := by
          rw [hgrown.files]
          exact hat.file
        have hcnt : (t.dirents d).clusCnt = k := by rw [hdirents, hat.cnt]
        have hmax : (t.dirents d).inodeMaxCluster = k + 1 := by rw [hdirents, hat.max]
        have hfirst : (t.dirents d).firstClus ≠ 0 := by
          rw [hdirents]
          exact hat.first
        have hheld : held t d = 2 * (k + 1) := by
          unfold held
          rw [if_pos hfile, hmax]
        simp only [wp_bind, modifyDirent, wp_modify, wp_get, update_self, hcnt, hmax,
          update_idem, ne_eq, not_true, if_false]
        change wp (putInode d (k + 1) clus) _ E (t.advanced d clus (k + 1))
        rw [← advanced_withPool]
        -- the position that is to be entered is on the way
        have hreach : k + 1 + 1 ≤ reach alloc (ch d).length n ∧
            reach alloc (ch' d).length n = reach alloc (ch d).length n := by
          have hlong := (List.getElem?_eq_some_iff.1 hnew).1
          unfold reach
          cases alloc with
          | true => exact ⟨by simp only [if_true]; omega, rfl⟩
          | false =>
            rw [hsame rfl] at hlong ⊢
            exact ⟨by simp only [Bool.false_eq_true, if_false]; omega, rfl⟩
        refine putInode_wp hinv.owns hheld (fun p hp hneed => hfull _ hp fun hr => ?_)
          (fun hk => hlarge (by omega) _) ?_
        · have hr' := (hr.congr hgrown.count).mono hreach.1
          unfold Vol.Room at hr'
          rw [hmax] at hr'
          omega
        intro hk p hput
        -- the cache is one longer, with the cursor on its end again
        have hinv' := advanced_inv hinv hmax hput hfile hfirst hk hnew
        have hgrown' := hgrown.trans (@advanced_grown g t ch' d clus (k + 1) p hmax hput)
        have hself := @advanced_self t d clus (k + 1) p
        refine ih (k := k + 1) (by omega) (by omega) hinv' ?_ ?_ ?_ ?_ ?_ ?_
        · constructor
          · exact hfile
          · rwa [hself]
          · rw [hself]
          · rw [hself]
          · rw [hself]
            exact hnew
        · intro ha
          have := hroom ha
          have := hgrown'.room
          omega
        · intro w hw hneed
          rw [hreach.2] at hneed
          exact hfull w hw fun hr => hneed (hr.congr hgrown'.count)
        · intro w ch'' hreached hshort
          refine hdone w ch'' ⟨hreached.inv, hgrown'.trans hreached.grown, ?_, hreached.cur, hreached.cached⟩ fun ha => ?_
          · have := hreached.length
            omega
          · have := hshort ha
            rwa [hsame ha] at this
        · intro w ha hshort hw hgw hcur
          rw [hsame ha] at hshort hw hgw hgrown'
          refine hend w ha hshort hw (hgrown'.trans hgw) ?_
          rw [hcur, hself, hdirents]
        · exact (List.getElem?_eq_some_iff.1 hnew).1
      · intro ha hshort
        refine hend _ ha (by omega) (h.congr cursor_sameFiles) (Grown.refl g d v ch).cursor ?_
        simp

/-- Only the cached part of the chain counts, not the disk that the chain is on. -/
theorem eFindInode_wp {Q : Unit → Vol → Prop} {pos : Nat} {disk : Nat → Sector}
    (h : HasChain g { v with disk := disk } l d) (hpos : pos < (v.dirents d).inodeMaxCluster)
    (hQ : ∀ clus, l[pos]? = some clus → Q () (v.cursor d clus pos)) : wp (eFindInode d pos) Q E v := by
  have htop : pos < 164872 := Nat.lt_of_lt_of_le hpos h.le_top
  have hat : inodeAt v.inodes (v.dirents d).inode pos = some (v.pool.slot d pos) :=
    Pool.inodeAt_eq (p := v.pool) htop
  unfold eFindInode
  rw [wp_bind, wp_get, if_neg (not_not.2 hpos), hat]
  exact hQ _ (h.cached pos hpos)

lemma HasChain.item_zero (h : HasChain g v l d) :
    (v.dirents d).inode 0 = (v.dirents d).firstClus := by
  have hzero := h.cached 0 h.pos
  rw [h.chain.getElem?_zero] at hzero
  exact (Option.some.inj hzero).symm

/-- The assertion at the start of `reloc_clus`. -/
theorem HasChain.asserted (h : HasChain g v l d) (hfirst : (v.dirents d).firstClus ≠ 0) :
    ¬ ((v.dirents d).firstClus = 0 ∨ (v.dirents d).inodeMaxCluster = 0 ∨
      (v.dirents d).firstClus ≠ (v.dirents d).inode 0) := by
  rintro (hzero | hzero | hne)
  · exact hfirst hzero
  · exact absurd h.pos (by omega)
  · exact hne h.item_zero.symm

lemma atEnd_cursor (hd : d ∈ v.files) (hfirst : (v.dirents d).firstClus ≠ 0)
    (hpos : 0 < (v.dirents d).inodeMaxCluster) (hclus : (ch d)[(v.dirents d).inodeMaxCluster - 1]? = some clus) :
    AtEnd (v.cursor d clus ((v.dirents d).inodeMaxCluster - 1)) ch d ((v.dirents d).inodeMaxCluster - 1) := by
  have hself : (v.cursor d clus ((v.dirents d).inodeMaxCluster - 1)).dirents d = { v.dirents d with
      curClus := clus, clusCnt := (v.dirents d).inodeMaxCluster - 1 } := update_self _ _ _
  constructor
  · exact hd
  · rwa [hself]
  · rw [hself]
  · rw [hself]
    exact (Nat.sub_add_cancel hpos).symm
  · rw [hself]
    exact hclus

/-- `reloc_clus` goes to the cluster of the offset; with `alloc` it extends the chain up to it, without
it fails exactly when the chain is too short. -/
theorem relocClus_wp {Q : Int → Vol → Prop} {off : Nat} (h : Inv g v ch) (hd : d ∈ v.files)
    (hfirst : (v.dirents d).firstClus ≠ 0)
    (hroom : alloc = true → off / g.bytsPerClus + 1 ≤ (ch d).length + (freeClusters g v).card)
    (hfull : ∀ t, t.pool.Full → ¬v.Room d (reach alloc (ch d).length (off / g.bytsPerClus)) → E .wildInode t)
    (hlarge : 164872 ≤ off / g.bytsPerClus → ∀ t, E .inodeTooLarge t)
    (hdone : ∀ t ch', Reached g d (off / g.bytsPerClus) v ch t ch' →
      (alloc = false → off / g.bytsPerClus < (ch d).length) → Q (off % g.bytsPerClus : Nat) t)
    (hend : ∀ t, alloc = false → (ch d).length ≤ off / g.bytsPerClus → Inv g t ch → Grown g d v ch t ch →
      (t.dirents d).curClus = (v.dirents d).firstClus → Q (-1) t) :
    wp (relocClus g d off alloc) Q E v := by
  have hfile := h.chain d hd hfirst
  unfold relocClus
  rw [wp_bind, wp_get, if_neg (hfile.asserted hfirst)]
  dsimp only
  split
  case isTrue hcached =>
    rw [wp_bind]
    refine eFindInode_wp hfile hcached fun clus hclus => ?_
    have hlt := Nat.lt_of_lt_of_le hcached hfile.le_length
    refine hdone _ ch ⟨h.congr cursor_sameFiles, (Grown.refl g d v ch).cursor, by omega, ?_, ?_⟩ fun _ => hlt
    · rw [hclus]
      simp [Vol.cursor]
    · rw [cursor_sameFiles.max]
      exact hcached
  case isFalse huncached =>
    have hpos := hfile.pos
    rw [wp_bind]
    refine eFindInode_wp hfile (by omega) fun clus hclus => ?_
    rw [wp_bind]
    have hat := atEnd_cursor hd hfirst hpos hclus
    have hstart : Grown g d v ch (v.cursor d clus ((v.dirents d).inodeMaxCluster - 1)) ch :=
      (Grown.refl g d v ch).cursor
    refine relocLoop_wp (by omega) (by omega) (h.congr cursor_sameFiles) hat hroom ?_ hlarge ?_ ?_
    · intro t ht hneed
      exact hfull t ht fun hr => hneed (hr.congr hstart.count)
    · intro t ch' hr hshort
      exact hdone t ch' ⟨hr.inv, hstart.trans hr.grown, hr.length, hr.cur, hr.cached⟩ hshort
    · intro t ha hshort hinv hgrown hcur
      refine hend t ha hshort hinv (hstart.trans hgrown) ?_
      rw [hcur, hstart.firstClus]

end Fat
end OsRiscv
