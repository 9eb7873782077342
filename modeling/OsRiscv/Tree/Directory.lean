import OsRiscv.Tree.Loading

/-!
# Directory — the children that `loadDirents` makes for a directory of valid items

`layout x` are the items in the directory with first cluster `x`.  `Left` says what the loop leaves behind for
any such items, level by level.  From it the exactness of the loading is read off: there is one child for each
live entry just if no deleted entry stands before a live one, and a directory is loaded in turn just if it is
not where the dot entries are.
-/

namespace OsRiscv
namespace Tree

open List hiding tail
open Lib

/-! ## Directories on the volume -/

section defs

variable (vol : Volume) (layout : Nat → List Item) (k : Nat) {oes : List (Nat × Entry)} {tail : List Raw}
  {rest new : List Nat} {ep' off' : Nat}

/-- The directory with first cluster `x` and the directories below it, to depth `d`, hold their items. -/
def OnDisk : Nat → Nat → Prop
  | 0, _ => False
  | d + 1, x => (∃ raws, vol.entries x = some raws ∧ Holds raws (layout x)) ∧
      ∀ oe ∈ liveAt 0 (layout x), oe.2.isDir = true → oe.2.isDot = false → OnDisk d oe.2.short.firstClus

/-- The number of live entries in the directory and in those below it. -/
def diskSize : Nat → Nat → Nat
  | 0, _ => 0
  | d + 1, x => ((liveAt 0 (layout x)).map fun oe =>
    1 + if oe.2.isDir = true ∧ oe.2.isDot = false then diskSize d oe.2.short.firstClus else 0).sum

/-- The directory attribute and the place of an entry, from which the loop decides to load it in turn. -/
def descends (isRoot : Prop) (oe : Nat × Entry) : Prop := oe.2.isDir = true ∧ (oe.1 > 32 ∨ isRoot)

/-- The loop decides right for the entry, or there is nothing to load. -/
def Decided (isRoot : Prop) (oe : Nat × Entry) : Prop :=
  oe.2.isDir = true → ((oe.1 > 32 ∨ isRoot) ↔ oe.2.isDot = false) ∨ NoLive vol oe.2.short.firstClus

/-- No deleted entry before a live one, and dot entries where the loop expects them, in all directories. -/
def InOrder : Nat → Prop → Nat → Prop
  | 0, _, _ => False
  | d + 1, isRoot, x => Tidy (layout x) ∧ ∀ oe ∈ liveAt 0 (layout x),
      Decided vol isRoot oe ∧ (oe.2.isDir = true → oe.2.isDot = false → InOrder d False oe.2.short.firstClus)

/-- The names of siblings differ, in all directories. -/
def NamesDiffer : Nat → Nat → Prop
  | 0, _ => False
  | d + 1, x =>
    (liveAt 0 (layout x)).Pairwise (fun a b => sameName b.2.filename a.2.filename = false) ∧
    ∀ oe ∈ liveAt 0 (layout x), oe.2.isDir = true → oe.2.isDot = false → NamesDiffer d oe.2.short.firstClus

/-- No entry is a link, in all directories. -/
def NoLinks : Nat → Nat → Prop
  | 0, _ => False
  | d + 1, x => ∀ oe ∈ liveAt 0 (layout x), oe.2.short.ntRes ≠ dtLnk ∧
      (oe.2.isDir = true → oe.2.isDot = false → NoLinks d oe.2.short.firstClus)

/-- The part of `InOrder` about a list of entries. -/
def EntriesInOrder (d : Nat) (isRoot : Prop) (oes : List (Nat × Entry)) : Prop :=
  ∀ oe ∈ oes, Decided vol isRoot oe ∧
    (oe.2.isDir = true → oe.2.isDot = false → InOrder vol layout d False oe.2.short.firstClus)

/-- The part of `NamesDiffer` about a list of entries. -/
def EntriesNamesDiffer (d : Nat) (oes : List (Nat × Entry)) : Prop :=
  oes.Pairwise (fun a b => sameName b.2.filename a.2.filename = false) ∧
    ∀ oe ∈ oes, oe.2.isDir = true → oe.2.isDot = false → NamesDiffer layout d oe.2.short.firstClus

/-- The part of `NoLinks` about a list of entries. -/
def EntriesNoLinks (d : Nat) (oes : List (Nat × Entry)) : Prop :=
  ∀ oe ∈ oes, oe.2.short.ntRes ≠ dtLnk ∧
    (oe.2.isDir = true → oe.2.isDot = false → NoLinks layout d oe.2.short.firstClus)

/-- The number of the entries and of those below them. -/
def entriesSize (d : Nat) (oes : List (Nat × Entry)) : Nat :=
  (oes.map fun oe =>
    1 + if oe.2.isDir = true ∧ oe.2.isDot = false then diskSize layout d oe.2.short.firstClus else 0).sum

/-- The dirent holds what the entry says. -/
structure Loaded (t : Fs) (oe : Nat × Entry) (i : Nat) : Prop where
  filename : (t.dirent (.dirent i)).filename = oe.2.filename
  attr : (t.dirent (.dirent i)).attr = oe.2.short.attr
  firstClus : (t.dirent (.dirent i)).firstClus = oe.2.short.firstClus
  fileSize : (t.dirent (.dirent i)).fileSize = oe.2.short.fileSize
  ntRes : (t.dirent (.dirent i)).ntRes = oe.2.short.ntRes
  off : (t.dirent (.dirent i)).off = oe.1

/-- What is below the dirent `i` of an entry in the directory `p`. -/
structure BelowLeft (sub : Ptr → Nat → Prop) (sh : Shape) (p : Ptr) (oe : Nat × Entry) (i : Nat) : Prop where
  dots : descends (p = .root k) oe → oe.2.isDot = true →
    (sh.kids (.dirent i) = [] ↔ NoLive vol oe.2.short.firstClus)
  dirs : descends (p = .root k) oe → oe.2.isDot = false → sub (.dirent i) oe.2.short.firstClus
  rest : ¬ descends (p = .root k) oe → sh.kids (.dirent i) = []

/-- The dirent `i` of an entry, and what is below it; `S` are the entries that were in the tree before. -/
def ChildLeft (sub : Ptr → Nat → Prop) (S : Ptr → Prop) (t : Fs) (sh : Shape) (p : Ptr) (oe : Nat × Entry)
    (i : Nat) : Prop :=
  ¬ S (.dirent i) ∧ Loaded t oe i ∧ BelowLeft vol k sub sh p oe i

/-- What loading the directory `x` leaves in front of the children `old` of `p`. -/
def Left (t : Fs) (sh : Shape) (S : Ptr → Prop) : Nat → Ptr → Nat → List Nat → Prop
  | 0, _, _, _ => False
  | d + 1, p, x, old => ∃ new, sh.kids p = new ++ old ∧ new.length = rounds false (layout x) ∧
      (Tidy (layout x) → List.Forall₂ (ChildLeft vol k (fun q y => Left t sh S d q y []) S t sh p)
        (liveAt 0 (layout x)) new.reverse)

/-- What loading does to the number of free dirents, the names and the links. -/
structure Counted (d : Nat) (p : Ptr) (oes : List (Nat × Entry)) (t : Fs) (sh : Shape) (t' : Fs) (sh' : Shape)
    (more : Nat) : Prop where
  count : EntriesInOrder vol layout d (p = .root k) oes →
    sh'.free.length + entriesSize layout d oes = sh.free.length + more
  names : EntriesInOrder vol layout d (p = .root k) oes → EntriesNamesDiffer layout d oes → Distinct t sh →
    (∀ oe ∈ oes, ∀ j ∈ sh.kids p, sameName oe.2.filename (t.dirent (.dirent j)).filename = false) → Distinct t' sh'
  links : EntriesInOrder vol layout d (p = .root k) oes → EntriesNoLinks layout d oes →
    ∀ q, sh'.Live q → ¬ sh.Live q → (t'.dirent q).isLink = false

/-- What the loop over the items `its` does. -/
structure LoopResult (d : Nat) (p : Ptr) (off : Nat) (its : List Item) (t : Fs) (sh : Shape) (t' : Fs) (sh' : Shape)
    (new : List Nat) : Prop where
  sound : Sound t' sh' none
  grown : Grown t sh p t' sh'
  kids : sh'.kids p = new ++ sh.kids p
  rounds : new.length = rounds false its
  left : Tidy its →
    List.Forall₂ (ChildLeft vol k (fun q y => Left vol layout k t' sh' sh.Live d q y []) sh.Live t' sh' p)
      (liveAt off its) new.reverse
  counted : Tidy its → Counted vol layout k d p (liveAt off its) t sh t' sh' 1

end defs

variable {vol : Volume} {layout : Nat → List Item} {k d n m off ep : Nat} {t t' : Fs} {sh sh' : Shape} {p q : Ptr}
  {S S' : Ptr → Prop} {i x : Nat} {oe : Nat × Entry} {f : Entry} {its : List Item} {raws : List Raw}

lemma forall₂_imp_mem {α β : Type*} {R R' : α → β → Prop} {l : List α} {l' : List β} (h : List.Forall₂ R l l')
    (himp : ∀ a ∈ l, ∀ b ∈ l', R a b → R' a b) : List.Forall₂ R' l l' := by
  induction h with
  | nil => exact List.Forall₂.nil
  | cons hab _ ih =>
    exact List.Forall₂.cons (himp _ (by simp) _ (by simp) hab) (ih fun a ha b hb =>
      himp a (by simp [ha]) b (by simp [hb]))

/-! ## What later rounds leave alone -/

lemma Loaded.congr (h : Loaded t oe i)
    (hcontent : (t'.dirent (.dirent i)).content = (t.dirent (.dirent i)).content) : Loaded t' oe i := by
  refine ⟨?_, ?_, ?_, ?_, ?_, ?_⟩
  · rw [filename_congr hcontent]
    exact h.filename
  · rw [field_content Dirent.attr (fun _ => rfl) hcontent]
    exact h.attr
  · rw [field_content Dirent.firstClus (fun _ => rfl) hcontent]
    exact h.firstClus
  · rw [field_content Dirent.fileSize (fun _ => rfl) hcontent]
    exact h.fileSize
  · rw [field_content Dirent.ntRes (fun _ => rfl) hcontent]
    exact h.ntRes
  · rw [field_content Dirent.off (fun _ => rfl) hcontent]
    exact h.off

lemma BelowLeft.congr {sub sub' : Ptr → Nat → Prop} (h : BelowLeft vol k sub sh p oe i)
    (hkids : sh'.kids (.dirent i) = sh.kids (.dirent i))
    (hsub : sub (.dirent i) oe.2.short.firstClus → sub' (.dirent i) oe.2.short.firstClus) :
    BelowLeft vol k sub' sh' p oe i := by
  refine ⟨?_, fun hd hdot => hsub (h.dirs hd hdot), ?_⟩
  · rw [hkids]
    exact h.dots
  · rw [hkids]
    exact h.rest

/-- `Left` speaks about entries that were not there before, and so of none that later changes. -/
theorem Left.congr (h : Left vol layout k t sh S d q x []) (hq : sh'.kids q = sh.kids q)
    (hkids : ∀ q, sh.Live q → ¬ S q → sh'.kids q = sh.kids q)
    (hcontent : ∀ q, sh.Live q → (t'.dirent q).content = (t.dirent q).content) (hS : ∀ q, S' q → S q) :
    Left vol layout k t' sh' S' d q x [] := by
  induction d generalizing q x with
  | zero => cases h
  | succ d ih =>
    rcases h with ⟨new, hnew, hlen, hleft⟩
    refine ⟨new, by rw [hq, hnew], hlen, fun htidy => ?_⟩
    have hlive : ∀ i ∈ new.reverse, sh.Live (.dirent i) := by
      intro i hi
      refine ⟨q, ?_⟩
      rw [hnew]
      simpa using hi
    refine forall₂_imp_mem (hleft htidy) fun oe _ i hi hchild => ?_
    rcases hchild with ⟨hnot, hloaded, hbelow⟩
    have hkeep := hkids _ (hlive i hi) hnot
    exact ⟨fun hS' => hnot (hS _ hS'), hloaded.congr (hcontent _ (hlive i hi)),
      hbelow.congr hkeep fun hsub => ih hsub hkeep⟩

lemma ChildLeft.mono
    (h : ChildLeft vol k (fun q y => Left vol layout k t sh S d q y []) S t sh p oe i) (hS : ∀ q, S' q → S q) :
    ChildLeft vol k (fun q y => Left vol layout k t sh S' d q y []) S' t sh p oe i :=
  ⟨fun hS' => h.1 (hS _ hS'), h.2.1,
    h.2.2.congr rfl fun hsub => hsub.congr rfl (fun _ _ _ => rfl) (fun _ _ => rfl) hS⟩

/-! ## One directory -/

lemma enextLoop_noLive {e : Dirent} (hv : ∀ it ∈ its, it.Valid) (hend : IsEnd tail) :
    (∃ count d, enextLoop vol (its.flatMap Item.raws ++ tail) 0 none (fun _ => 0) e = .ok (-1, count, d)) ↔
      liveAt off its = [] := by
  rcases exists_split its with ⟨dels, rest, rfl, hdels, hrest⟩
  have hvd : ∀ it ∈ dels, it.Valid := fun it hit => hv it (by simp [hit])
  rw [flatMap_append, append_assoc, enextLoop_dels hdels hvd, liveAt_dels hdels]
  rcases hrest with rfl | ⟨f, its', rfl⟩
  · rw [flatMap_nil, nil_append, enextLoop_end hend]
    simp [liveAt]
  · have hf : f.Valid := hv (.live f) (by simp)
    simp only [liveAt, reduceCtorEq, iff_false]
    rintro ⟨count, d, hd⟩
    rw [flatMap_cons, append_assoc] at hd
    by_cases hcnt : 0 + dels.length = 0
    · rw [hcnt, enextLoop_front hf] at hd
      cases hd
    · rw [enextLoop_behind hf hcnt] at hd
      cases hd

lemma noLive_iff (hon : OnDisk vol layout d x) : NoLive vol x ↔ liveAt 0 (layout x) = [] := by
  cases d with
  | zero => cases hon
  | succ d =>
    rcases hon.1 with ⟨raws, hentries, hv, tail, hend, rfl⟩
    constructor
    · rintro ⟨raws', hentries', hnone⟩
      rw [hentries] at hentries'
      cases hentries'
      exact (enextLoop_noLive hv hend).1 (hnone zeroDirent)
    · intro hnil
      exact ⟨_, hentries, fun e => (enextLoop_noLive hv hend).2 hnil⟩

/-- What loading the directory `x` does. -/
structure WithResult (vol : Volume) (layout : Nat → List Item) (k d : Nat) (p : Ptr) (x : Nat) (t : Fs) (sh : Shape)
    (t' : Fs) (sh' : Shape) : Prop where
  sound : Sound t' sh' none
  grown : Grown t sh p t' sh'
  left : Left vol layout k t' sh' sh.Live d p x (sh.kids p)
  count : InOrder vol layout d (p = .root k) x → sh'.free.length + diskSize layout d x = sh.free.length
  names : InOrder vol layout d (p = .root k) x → NamesDiffer layout d x → Distinct t sh → sh.kids p = [] →
    Distinct t' sh'
  links : InOrder vol layout d (p = .root k) x → NoLinks layout d x →
    ∀ q, sh'.Live q → ¬ sh.Live q → (t'.dirent q).isLink = false

/-- The statement about the loop with fuel `n`. -/
def LoopSpec (vol : Volume) (layout : Nat → List Item) (k n : Nat) : Prop :=
  ∀ d p m its tail raws ep t sh t', Sound t sh (some ep) → sh.Live p → (t.dirent p).isDir = true →
    (∀ it ∈ its, it.Valid) → IsEnd tail → raws.drop m = its.flatMap Item.raws ++ tail →
    (∀ oe ∈ liveAt (32 * m) its, oe.2.isDir = true → oe.2.isDot = false → OnDisk vol layout d oe.2.short.firstClus) →
    loadLoop vol k n p raws (32 * m) ep t = .ok t' →
    ∃ sh' new, LoopResult vol layout k d p (32 * m) its t sh t' sh' new

lemma loadWith_result (hspec : LoopSpec vol layout k n) (h : Sound t sh none) (hp : sh.Live p)
    (hdir : (t.dirent p).isDir = true) (hx : (t.dirent p).firstClus = x) (hon : OnDisk vol layout d x)
    (hok : loadWith vol (loadLoop vol k n) p t = .ok t') : ∃ sh', WithResult vol layout k d p x t sh t' sh' := by
  cases d with
  | zero => cases hon
  | succ d =>
    rcases hon with ⟨⟨raws, hentries, hv, tail, hend, hraws⟩, hbelow⟩
    unfold loadWith at hok
    rw [hx, hentries] at hok
    rcases bind_eq_ok.1 hok with ⟨⟨ep, u⟩, halloc, hok⟩
    rcases h.direntAlloc_ok halloc with ⟨rest, hfree, rfl⟩
    have hlive : ∀ q, Shape.Live { sh with free := rest } q = sh.Live q := by
      intro q
      cases q <;> rfl
    rcases hspec d p 0 (layout x) tail raws ep _ _ t' (h.alloc hfree).2 (by rw [hlive]; exact hp) hdir hv hend hraws
      hbelow hok with ⟨sh', new, hres⟩
    refine ⟨sh', hres.sound, (Grown.alloc ep rest).trans h hres.grown, ⟨new, hres.kids, hres.rounds, ?_⟩, ?_, ?_, ?_⟩
    · exact hres.left
    · intro horder
      have hcount := (hres.counted horder.1).count horder.2
      rw [hfree, length_cons]
      exact hcount
    · intro horder hdiff hdist hnil
      refine (hres.counted horder.1).names horder.2 hdiff hdist ?_
      intro oe _ j hj
      rw [show Shape.kids { sh with free := rest } p = [] from hnil] at hj
      cases hj
    · intro horder hnolinks q hq hnot
      refine (hres.counted horder.1).links horder.2 hnolinks q hq ?_
      exact hnot

/-- What `loadBelow` does for the child `ep` of an entry. -/
structure BelowResult (vol : Volume) (layout : Nat → List Item) (k d : Nat) (p : Ptr) (oe : Nat × Entry) (ep : Nat)
    (t : Fs) (sh : Shape) (t' : Fs) (sh' : Shape) : Prop where
  sound : Sound t' sh' none
  grown : Grown t sh (.dirent ep) t' sh'
  left : BelowLeft vol k (fun q y => Left vol layout k t' sh' sh.Live d q y []) sh' p oe ep
  count : EntriesInOrder vol layout d (p = .root k) [oe] →
    sh'.free.length + entriesSize layout d [oe] = sh.free.length + 1
  names : EntriesInOrder vol layout d (p = .root k) [oe] → EntriesNamesDiffer layout d [oe] → Distinct t sh →
    Distinct t' sh'
  links : EntriesInOrder vol layout d (p = .root k) [oe] → EntriesNoLinks layout d [oe] →
    ∀ q, sh'.Live q → ¬ sh.Live q → (t'.dirent q).isLink = false

lemma diskSize_of_noLive (hon : OnDisk vol layout d x) (hno : NoLive vol x) : diskSize layout d x = 0 := by
  have hnil := (noLive_iff hon).1 hno
  cases d with
  | zero => cases hon
  | succ d =>
    unfold diskSize
    rw [hnil]
    rfl

section below

variable (h : Sound t sh none) (hnil : sh.kids (.dirent ep) = [])
  (hon : oe.2.isDir = true → oe.2.isDot = false → OnDisk vol layout d oe.2.short.firstClus)
include h hnil hon

lemma belowResult_stay (hdesc : ¬ descends (p = .root k) oe) : BelowResult vol layout k d p oe ep t sh t sh := by
  refine ⟨h, .refl, ⟨fun hd => absurd hd hdesc, fun hd => absurd hd hdesc, fun _ => hnil⟩, ?_,
    fun _ _ hdist => hdist, fun _ _ q hq hnot => absurd hq hnot⟩
  intro horder
  have hsize : (if oe.2.isDir = true ∧ oe.2.isDot = false then diskSize layout d oe.2.short.firstClus else 0) = 0 := by
    split
    · -- a directory where the loop expects a dot entry
      rename_i hdir
      refine diskSize_of_noLive (hon hdir.1 hdir.2) ?_
      rcases (horder oe (by simp)).1 hdir.1 with hiff | hno
      · exact absurd ⟨hdir.1, hiff.2 hdir.2⟩ hdesc
      · exact hno
    · rfl
  simp [entriesSize, hsize]

variable (hep : sh.Live (.dirent ep)) (hloaded : Loaded t oe ep)
  (hok : loadWith vol (loadLoop vol k n) (.dirent ep) t = .ok t')
include hep hloaded hok

omit hon in
lemma belowResult_dot (hdesc : descends (p = .root k) oe) (hdot : oe.2.isDot = true) :
    ∃ sh', BelowResult vol layout k d p oe ep t sh t' sh' := by
  have hdir : (t.dirent (.dirent ep)).isDir = true := by
    have hd := hdesc.1
    unfold Dirent.isDir
    rw [hloaded.attr]
    exact hd
  rcases loadWith_grown loopGrows h hep hdir hok with ⟨sh', hs', hg'⟩
  have hempty : NoLive vol oe.2.short.firstClus → sh' = sh := by
    intro hno
    rw [← hloaded.firstClus] at hno
    exact hs'.toRep.unique (loadWith_noLive h hno hok).toRep
  -- a dot entry in the wrong place is loaded; it must have nothing in it
  have hsame : EntriesInOrder vol layout d (p = .root k) [oe] → sh' = sh := by
    intro horder
    rcases (horder oe (by simp)).1 hdesc.1 with hiff | hno
    · rw [hdot] at hiff
      cases hiff.1 hdesc.2
    · exact hempty hno
  refine ⟨sh', hs', hg', ⟨fun _ _ => ⟨?_, ?_⟩, ?_, fun hd => absurd hdesc hd⟩, ?_, ?_, ?_⟩
  · intro hkids
    rw [← hloaded.firstClus]
    exact noLive_of_loadWith h hep hdir hok hs'.toRep (by rw [hkids, hnil])
  · intro hno
    rw [hempty hno, hnil]
  · intro _ hnot
    rw [hdot] at hnot
    cases hnot
  · intro horder
    rw [hsame horder]
    simp [entriesSize, hdot]
  · intro horder _ hdist
    have heq := hsame horder
    subst heq
    refine hdist.mono (fun _ => .refl _) fun q i hi => ?_
    exact filename_congr (hg'.content _ ⟨q, hi⟩)
  · intro horder _ q hq hnot
    rw [hsame horder] at hq
    exact absurd hq hnot

lemma belowResult_dir (hspec : LoopSpec vol layout k n) (hdesc : descends (p = .root k) oe)
    (hdot : oe.2.isDot = false) : ∃ sh', BelowResult vol layout k d p oe ep t sh t' sh' := by
  have hdir : (t.dirent (.dirent ep)).isDir = true := by
    have hd := hdesc.1
    unfold Dirent.isDir
    rw [hloaded.attr]
    exact hd
  rcases loadWith_result hspec h hep hdir hloaded.firstClus (hon hdesc.1 hdot) hok with ⟨sh', hres⟩
  have hroot : (Ptr.dirent ep = .root k) = False := by simp
  have hleft := hres.left
  have hcount := hres.count
  have hnames := hres.names
  have hlinks := hres.links
  rw [hnil] at hleft
  rw [hroot] at hcount hnames hlinks
  refine ⟨sh', hres.sound, hres.grown, ⟨?_, fun _ _ => hleft, fun hd => absurd hdesc hd⟩, ?_, ?_, ?_⟩
  · intro _ hnot
    rw [hdot] at hnot
    cases hnot
  · intro horder
    have hsum := hcount ((horder oe (by simp)).2 hdesc.1 hdot)
    simp only [entriesSize, map_cons, map_nil, sum_cons, sum_nil, hdesc.1, hdot, and_self,
      if_true]
    omega
  · intro horder hdiff hdist
    exact hnames ((horder oe (by simp)).2 hdesc.1 hdot) (hdiff.2 oe (by simp) hdesc.1 hdot) hdist hnil
  · intro horder hnolinks
    exact hlinks ((horder oe (by simp)).2 hdesc.1 hdot) ((hnolinks oe (by simp)).2 hdesc.1 hdot)

end below

lemma loadBelow_result (hspec : LoopSpec vol layout k n) (h : Sound t sh none) (hep : sh.Live (.dirent ep))
    (hnil : sh.kids (.dirent ep) = []) (hloaded : Loaded t oe ep)
    (hon : oe.2.isDir = true → oe.2.isDot = false → OnDisk vol layout d oe.2.short.firstClus)
    (hok : loadBelow vol k (loadLoop vol k n) p oe.1 ep oe.2.isDir t = .ok t') :
    ∃ sh', BelowResult vol layout k d p oe ep t sh t' sh' := by
  unfold loadBelow at hok
  by_cases hdesc : descends (p = .root k) oe
  · rw [if_pos (show _ ∧ _ from hdesc)] at hok
    cases hdot : oe.2.isDot with
    | true => exact belowResult_dot h hnil hep hloaded hok hdesc hdot
    | false => exact belowResult_dir h hnil hon hep hloaded hok hspec hdesc hdot
  · rw [if_neg (show ¬ (_ ∧ _) from hdesc)] at hok
    cases hok
    exact ⟨sh, belowResult_stay h hnil hon hdesc⟩

/-! ## The loop -/

lemma entriesInOrder_cons {isRoot : Prop} (h : EntriesInOrder vol layout d isRoot (oe :: oes)) :
    EntriesInOrder vol layout d isRoot [oe] ∧ EntriesInOrder vol layout d isRoot oes := by
  refine ⟨fun a ha => h a ?_, fun a ha => h a (by simp [ha])⟩
  rw [mem_singleton.1 ha]
  simp

lemma entriesNamesDiffer_cons (h : EntriesNamesDiffer layout d (oe :: oes)) :
    EntriesNamesDiffer layout d [oe] ∧ EntriesNamesDiffer layout d oes ∧
      ∀ a ∈ oes, sameName a.2.filename oe.2.filename = false := by
  rcases h with ⟨hpair, hall⟩
  rw [pairwise_cons] at hpair
  refine ⟨⟨by simp, fun a ha => hall a ?_⟩, ⟨hpair.2, fun a ha => hall a (by simp [ha])⟩, hpair.1⟩
  rw [mem_singleton.1 ha]
  simp

lemma entriesNoLinks_cons (h : EntriesNoLinks layout d (oe :: oes)) :
    EntriesNoLinks layout d [oe] ∧ EntriesNoLinks layout d oes := by
  refine ⟨fun a ha => h a ?_, fun a ha => h a (by simp [ha])⟩
  rw [mem_singleton.1 ha]
  simp

lemma entriesSize_cons (oes : List (Nat × Entry)) :
    entriesSize layout d (oe :: oes) = entriesSize layout d [oe] + entriesSize layout d oes := by
  simp [entriesSize]

lemma rounds_false_dels {dels : List Item} (hdels : ∀ it ∈ dels, ∃ r, it = Item.deleted r) :
    rounds false dels = 0 := by
  cases dels with
  | nil => rfl
  | cons it dels =>
    rcases hdels it (by simp) with ⟨r, rfl⟩
    have hrest : rounds true (dels ++ []) = rounds true [] := rounds_dels fun it hit => hdels it (by simp [hit])
    rw [append_nil] at hrest
    exact hrest

lemma loaded_linkChild {e : Dirent} :
    Loaded (linkChild t k p off ep (readEntryInfo vol { e with filename := f.filename } f.short)) (off, f) ep := by
  have hfield : ∀ {β : Type} (g : Dirent → β), (∀ d o, g { d with firstChild := o } = g d) →
      g ((linkChild t k p off ep (readEntryInfo vol { e with filename := f.filename } f.short)).dirent (.dirent ep)) =
        g { readEntryInfo vol { e with filename := f.filename } f.short with
          parent := some p, off := off, nextBrother := (t.dirent p).firstChild, fileSystem := k } := by
    intro β g hg
    unfold linkChild
    rw [field_set g (hg _ _), dirent_set_self]
  exact ⟨hfield Dirent.filename fun _ _ => rfl, hfield Dirent.attr fun _ _ => rfl,
    hfield Dirent.firstClus fun _ _ => rfl, hfield Dirent.fileSize fun _ _ => rfl,
    hfield Dirent.ntRes fun _ _ => rfl, hfield Dirent.off fun _ _ => rfl⟩

/-- The round for a live entry, and the rounds after it. -/
theorem LoopResult.live {t₁ t₂ : Fs} {sh₁ sh₂ : Shape}
    (h : Sound t sh (some ep)) (hp : sh.Live p) (hs₁ : Sound t₁ sh₁ none) (hg₁ : Grown t sh p t₁ sh₁)
    (hsh₁ : sh₁ = sh.add p ep) (hloaded : Loaded t₁ (off, f) ep)
    (hbelow : BelowResult vol layout k d p (off, f) ep t₁ sh₁ t₂ sh₂) (hfree : sh₂.free = ep' :: rest)
    (hoff : off' = off + 32 * (f.longs.length + 1))
    (hrest : LoopResult vol layout k d p off' its { t₂ with direntHead := t₂.next ep' } { sh₂ with free := rest }
      t' sh' new) :
    LoopResult vol layout k d p off (.live f :: its) t sh t' sh' (new ++ [ep]) := by
  subst hoff
  have hlive₁ : sh₁.Live (.dirent ep) := ⟨p, by rw [hsh₁]; simp⟩
  have hnep : ∀ q, sh.Live q → q ≠ .dirent ep := by
    rintro q hq rfl
    exact h.not_live hq
  have hpe : p ≠ .dirent ep := hnep p hp
  have hg₂ := hg₁.trans_below h hp h.not_live hbelow.grown
  have hg₃ := hg₂.trans h (Grown.alloc ep' rest)
  have hlive₃ : ∀ q, sh₂.Live q → Shape.Live { sh₂ with free := rest } q := by
    intro q hq
    cases q <;> exact hq
  have hlive₁₂ : ∀ q, sh₁.Live q → sh₂.Live q := fun q hq => hbelow.grown.live hs₁ hq
  have hkids₂ : sh₂.kids p = ep :: sh.kids p := by
    rw [hbelow.grown.kids p (hg₁.live h hp) hpe, hsh₁, Shape.kids_add_self]
  -- what the later rounds keep
  have hkeepk : ∀ q, sh₂.Live q → q ≠ p → sh'.kids q = sh₂.kids q :=
    fun q hq hqp => hrest.grown.kids q (hlive₃ q hq) hqp
  have hkeepc : ∀ q, sh₂.Live q → (t'.dirent q).content = (t₂.dirent q).content :=
    fun q hq => hrest.grown.content q (hlive₃ q hq)
  have hloaded₂ : Loaded t₂ (off, f) ep := hloaded.congr (hbelow.grown.content _ hlive₁)
  refine ⟨hrest.sound, hg₃.trans h hrest.grown, ?_, ?_, ?_, ?_⟩
  · rw [hrest.kids, append_assoc]
    exact congrArg (new ++ ·) hkids₂
  · rw [length_append, hrest.rounds]
    exact Nat.add_comm _ 1
  · intro htidy
    rw [reverse_append]
    refine List.Forall₂.cons ⟨h.not_live, hloaded₂.congr (hkeepc _ (hlive₁₂ _ hlive₁)), ?_⟩ ?_
    · refine hbelow.left.congr (hkeepk _ (hlive₁₂ _ hlive₁) hpe.symm) fun hsub => ?_
      refine hsub.congr (hkeepk _ (hlive₁₂ _ hlive₁) hpe.symm) ?_ hkeepc fun q hq => hg₁.live h hq
      intro q hq hnot
      refine hkeepk q hq ?_
      rintro rfl
      exact hnot (hg₁.live h hp)
    · exact (hrest.left htidy).imp fun oe i hchild => hchild.mono fun q hq => hg₃.live h hq
  · intro htidy
    refine ⟨fun horder => ?_, fun horder hdiff hdist hfresh => ?_, fun horder hnolinks q hq hnot => ?_⟩
    · have hone := hbelow.count (entriesInOrder_cons horder).1
      have hothers := (hrest.counted htidy).count (entriesInOrder_cons horder).2
      have hfree₁ : sh₁.free = sh.free := by rw [hsh₁]; rfl
      have hlen : sh₂.free.length = rest.length + 1 := by rw [hfree, length_cons]
      rw [liveAt, entriesSize_cons]
      rw [hfree₁] at hone
      dsimp only at hothers
      omega
    · rcases entriesInOrder_cons horder with ⟨horder₁, horder₂⟩
      rcases entriesNamesDiffer_cons hdiff with ⟨hdiff₁, hdiff₂, hfirst⟩
      have hname₁ : ∀ q, ∀ j ∈ sh.kids q, (t₁.dirent (.dirent j)).filename = (t.dirent (.dirent j)).filename :=
        fun q j hj => filename_congr (hg₁.content _ ⟨q, hj⟩)
      have hdist₁ : Distinct t₁ sh₁ := by
        rw [hsh₁]
        refine hdist.add hname₁ fun j hj => ?_
        rw [hloaded.filename]
        exact hfresh (off, f) (by simp [liveAt]) j hj
      refine (hrest.counted htidy).names horder₂ hdiff₂ (hbelow.names horder₁ hdiff₁ hdist₁) ?_
      intro oe hoe j hj
      rw [show Shape.kids { sh₂ with free := rest } p = ep :: sh.kids p from hkids₂] at hj
      rcases mem_cons.1 hj with rfl | hj
      · rw [hloaded₂.filename]
        exact hfirst oe hoe
      · have hname : (t₂.dirent (.dirent j)).filename = (t.dirent (.dirent j)).filename :=
          filename_congr (hg₂.content _ ⟨p, hj⟩)
        rw [hname]
        exact hfresh oe (by simp [liveAt, hoe]) j hj
    · rcases entriesInOrder_cons horder with ⟨horder₁, horder₂⟩
      rcases entriesNoLinks_cons hnolinks with ⟨hnolinks₁, hnolinks₂⟩
      by_cases hq₂ : sh₂.Live q
      · rw [isLink_congr (hkeepc q hq₂)]
        by_cases hq₁ : sh₁.Live q
        · -- the child itself
          have hqe : q = .dirent ep := by
            cases q with
            | root k => exact absurd trivial hnot
            | dirent i =>
              rcases hq₁ with ⟨r, hr⟩
              rw [hsh₁] at hr
              rcases Shape.mem_add.1 hr with ⟨_, rfl⟩ | hr
              · rfl
              · exact absurd ⟨r, hr⟩ hnot
          rw [hqe]
          unfold Dirent.isLink
          rw [hloaded₂.ntRes]
          simpa using (hnolinks₁ (off, f) (by simp)).1
        · exact hbelow.links horder₁ hnolinks₁ q hq₂ hq₁
      · refine (hrest.counted htidy).links horder₂ hnolinks₂ q hq fun hq₃ => hq₂ ?_
        cases q <;> exact hq₃

lemma LoopResult.skipped {dels : List Item} {t₂ : Fs} {sh₂ : Shape}
    (hdels : ∀ it ∈ dels, ∃ r, it = Item.deleted r) (hne : dels ≠ []) (h : Sound t sh (some ep))
    (hg₂ : Grown t sh p t₂ sh₂) (hkids₂ : sh₂.kids p = ep :: sh.kids p)
    (hrest : LoopResult vol layout k d p off' (.live f :: its) { t₂ with direntHead := t₂.next ep' }
      { sh₂ with free := rest } t' sh' new) :
    LoopResult vol layout k d p off (dels ++ .live f :: its) t sh t' sh' (new ++ [ep]) := by
  rcases exists_cons_of_ne_nil hne with ⟨it, dels', rfl⟩
  rcases hdels it (by simp) with ⟨r, rfl⟩
  have hdels' : ∀ it ∈ dels', ∃ r, it = Item.deleted r := fun it hit => hdels it (by simp [hit])
  have huntidy : ¬ Tidy (.deleted r :: dels' ++ .live f :: its) := by
    intro htidy
    have hnil : liveAt 0 (dels' ++ .live f :: its) = [] := htidy 0
    rw [liveAt_dels hdels'] at hnil
    cases hnil
  refine ⟨hrest.sound, (hg₂.trans h (Grown.alloc ep' rest)).trans h hrest.grown, ?_, ?_, fun ht => absurd ht huntidy,
    fun ht => absurd ht huntidy⟩
  · rw [hrest.kids, append_assoc]
    exact congrArg (new ++ ·) hkids₂
  · have hrounds : Tree.rounds false (.deleted r :: dels' ++ .live f :: its) = Tree.rounds true (.live f :: its) :=
      rounds_dels hdels'
    rw [length_append, hrest.rounds, hrounds]
    simp only [Tree.rounds, length_singleton, Bool.false_eq_true, if_false, if_true]
    omega

lemma drop_raws (hraws : raws.drop m = (Item.live f).raws ++ tail) :
    raws.drop (m + (f.longs.length + 1)) = tail := by
  rw [← drop_drop, hraws]
  exact drop_left' (by simp [Item.raws])

lemma drop_dels {dels : List Item} (hdels : ∀ it ∈ dels, ∃ r, it = Item.deleted r)
    (hraws : raws.drop m = dels.flatMap Item.raws ++ tail) : raws.drop (m + dels.length) = tail := by
  have hlen : (dels.flatMap Item.raws).length = dels.length := by
    clear hraws
    induction dels with
    | nil => rfl
    | cons it dels ih =>
      rcases hdels it (by simp) with ⟨r, rfl⟩
      rw [flatMap_cons, length_append, ih fun it hit => hdels it (by simp [hit])]
      simp [Item.raws, Nat.add_comm]
  rw [← drop_drop, hraws]
  exact drop_left' hlen

lemma loopSpec (vol : Volume) (layout : Nat → List Item) (k n : Nat) : LoopSpec vol layout k n := by
  induction n with
  | zero =>
    intro d p m its tail raws ep t sh t' _ _ _ _ _ _ _ hok
    cases hok
  | succ n ih =>
    intro d p m its tail raws ep t sh t' h hp hdir hv hend hraws hon hok
    rcases exists_split its with ⟨dels, its, rfl, hdels, hsplit⟩
    have hvd : ∀ it ∈ dels, it.Valid := fun it hit => hv it (by simp [hit])
    have hfront : enext vol raws (t.dirent (.dirent ep)) (32 * m) =
        enextLoop vol (its.flatMap Item.raws ++ tail) dels.length none (fun _ => 0) (t.dirent (.dirent ep)) := by
      have hm : 32 * m / 32 = m := Nat.mul_div_cancel_left m (by decide)
      unfold enext
      rw [hm, hraws, flatMap_append, append_assoc, enextLoop_dels hdels hvd, Nat.zero_add]
    rw [flatMap_append, append_assoc] at hraws
    have hraws' := drop_dels hdels hraws
    rw [liveAt_dels hdels] at hon
    rcases bind_eq_ok.1 hok with ⟨⟨r, count, dd⟩, hd, hok⟩
    rcases hsplit with rfl | ⟨f, its, rfl⟩
    · have hend' := hfront
      rw [flatMap_nil, nil_append, enextLoop_end hend, hd] at hend'
      cases hend'
      cases hok
      rcases loadLoop_done h hd with ⟨hs, hg⟩
      have hnil : liveAt (32 * m) (dels ++ []) = [] := by
        rw [liveAt_dels hdels]
        rfl
      refine ⟨_, [], hs, hg, rfl, ?_, fun _ => ?_, fun _ => ⟨fun _ => ?_, fun _ _ hdist _ => ?_, fun _ _ q hq hnot => ?_⟩⟩
      · rw [append_nil, rounds_false_dels hdels]
        rfl
      · rw [hnil]
        exact List.Forall₂.nil
      · rw [hnil]
        rfl
      · refine hdist.mono (fun _ => .refl _) fun q i hi => ?_
        exact filename_congr (hg.content _ ⟨q, hi⟩)
      · refine absurd ?_ hnot
        cases q <;> exact hq
    · have hf : f.Valid := hv (.live f) (by simp)
      have hvi : ∀ it ∈ its, it.Valid := fun it hit => hv it (by simp [hit])
      have hpe : p ≠ .dirent ep := by
        rintro rfl
        exact h.not_live hp
      rw [flatMap_cons, append_assoc] at hfront hraws'
      by_cases hnodel : dels = []
      · subst hnodel
        rw [length_nil, enextLoop_front hf, hd] at hfront
        cases hfront
        rcases bind_eq_ok.1 hok with ⟨t₂, hbelow, hok⟩
        rcases bind_eq_ok.1 hok with ⟨⟨ep', v⟩, halloc, hok⟩
        rcases linkChild_grown h hp hdir hd with ⟨hs₁, hg₁⟩
        have hnil : (sh.add p ep).kids (.dirent ep) = [] := by
          rw [Shape.kids_add_of_ne hpe.symm]
          exact h.kids_eq_nil (h.hold ep rfl).2
        rcases loadBelow_result ih hs₁ ⟨p, by simp⟩ hnil loaded_linkChild
          (hon (32 * m, f) (by simp [liveAt])) hbelow with ⟨sh₂, hres⟩
        rcases hres.sound.direntAlloc_ok halloc with ⟨rest, hfree, rfl⟩
        have hg₃ := (hg₁.trans_below h hp h.not_live hres.grown).trans h (Grown.alloc ep' rest)
        have hoff : 32 * (m + (f.longs.length + 1)) = 32 * m + 32 * (f.longs.length + 1) := Nat.mul_add _ _ _
        have hdir₃ : (t₂.dirent p).isDir = true := (isDir_congr (hg₃.content p hp)).trans hdir
        rcases ih d p (m + (f.longs.length + 1)) its tail raws ep' _ _ t' (hres.sound.alloc hfree).2 (hg₃.live h hp) hdir₃ hvi
          hend (drop_raws hraws') (fun oe hoe => hon oe (by simp [liveAt, ← hoff, hoe])) (by rw [hoff]; exact hok)
          with ⟨sh', new, hrest⟩
        exact ⟨sh', new ++ [ep], hrest.live h hp hs₁ hg₁ rfl loaded_linkChild hres hfree hoff⟩
      · rw [enextLoop_behind hf (by simpa using hnodel), hd] at hfront
        cases hfront
        rcases bind_eq_ok.1 hok with ⟨t₂, hbelow, hok⟩
        rcases bind_eq_ok.1 hok with ⟨⟨ep', v⟩, halloc, hok⟩
        rcases linkChild_grown h hp hdir hd with ⟨hs₁, hg₁⟩
        rcases loadBelow_grown loopGrows hs₁ ⟨p, by simp⟩ isDir_linkChild hbelow with ⟨sh₂, hs₂, hg₁₂⟩
        rcases hs₂.direntAlloc_ok halloc with ⟨rest, hfree, rfl⟩
        have hg₂ := hg₁.trans_below h hp h.not_live hg₁₂
        have hg₃ := hg₂.trans h (Grown.alloc ep' rest)
        have hkids : sh₂.kids p = ep :: sh.kids p := by
          rw [hg₁₂.kids p (hg₁.live h hp) hpe, Shape.kids_add_self]
        have hoff : 32 * (m + dels.length) = 32 * m + 32 * dels.length := Nat.mul_add _ _ _
        have hdir₃ : (t₂.dirent p).isDir = true := (isDir_congr (hg₃.content p hp)).trans hdir
        rcases ih d p (m + dels.length) (.live f :: its) tail raws ep' _ _ t' (hs₂.alloc hfree).2 (hg₃.live h hp) hdir₃
          (fun it hit => hv it (by simp only [mem_append]; exact .inr hit)) hend
          (by rw [flatMap_cons, append_assoc]; exact hraws') (by rw [hoff]; exact hon)
          (by rw [hoff]; exact hok) with ⟨sh', new, hrest⟩
        exact ⟨sh', new ++ [ep], hrest.skipped hdels hnodel h hg₂ hkids⟩

lemma loadDirents_result (h : Sound t sh none) (hp : sh.Live p) (hdir : (t.dirent p).isDir = true)
    (hon : OnDisk vol layout d (t.dirent p).firstClus) (hok : loadDirents n vol k p t = .ok t') :
    ∃ sh', WithResult vol layout k d p (t.dirent p).firstClus t sh t' sh' :=
  loadWith_result (loopSpec vol layout k n) h hp hdir rfl hon hok

end Tree
end OsRiscv
