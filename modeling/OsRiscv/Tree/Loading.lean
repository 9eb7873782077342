import OsRiscv.Tree.Entries
import OsRiscv.Tree.Sound

/-!
# Loading — what `loadDirents` does to the tree

Whatever the volume holds, `loadDirents` puts new children in front of its parent and leaves the rest of the
tree alone (`Grown`).  What the new children are depends on the entries: `Left` says what it leaves behind for
a directory of valid items, including the children it makes for runs of deleted entries.
-/

namespace OsRiscv
namespace Tree

open Lib List

variable {t t' u : Fs} {sh sh' : Shape} {p q : Ptr} {vol : Volume} {k n off ep count : Nat} {r : Int}
  {d e : Dirent} {raws entries : List Raw} {loop : Ptr → List Raw → Nat → Nat → Fs → Except Stop Fs} {o : Option Nat}
  {buf : Nat → UInt8} {cnt : Nat} {tail : List Raw} {sh'' : Shape}

/-! ## Any volume -/

/-- What `enext` returns is the dirent it was given with a name, and for an entry with what that says. -/
theorem enextLoop_fills (h : enextLoop vol raws cnt o buf e = .ok (r, count, d)) :
    ∃ buf' fill, (∀ e', enextLoop vol raws cnt o buf e' = .ok (r, count, fill e')) ∧
      (fill = (fun e' => { e' with filename := cstr buf' }) ∨
        ∃ de, fill = fun e' => readEntryInfo vol { e' with filename := cstr buf' } de) := by
  induction raws generalizing cnt o buf with
  | nil =>
    cases h
    exact ⟨buf, _, fun _ => rfl, .inl rfl⟩
  | cons de raws ih =>
    simp only [enextLoop] at h ⊢
    -- which entry decides does not depend on the dirent
    rcases enextRound_uniform vol de cnt o buf with
      ⟨out, hround⟩ | ⟨cnt', o', buf', hround⟩ | ⟨buf', r', k, hround⟩ | ⟨buf', k, hround⟩
    · simp only [hround] at h
      cases h
    · simp only [hround] at h ⊢
      exact ih h
    · simp only [hround] at h ⊢
      cases h
      exact ⟨buf', _, fun _ => rfl, .inl rfl⟩
    · simp only [hround] at h ⊢
      cases h
      exact ⟨buf', _, fun _ => rfl, .inr ⟨de, rfl⟩⟩

lemma enextLoop_keeps {β : Type*} (f : Dirent → β)
    (hname : ∀ e s, f { e with filename := s } = f e) (hinfo : ∀ e r, f (readEntryInfo vol e r) = f e)
    (h : enextLoop vol raws cnt o buf e = .ok (r, count, d)) : f d = f e := by
  rcases enextLoop_fills h with ⟨buf', fill, hfill, rfl | ⟨de, rfl⟩⟩
  · cases h.symm.trans (hfill e)
    exact hname _ _
  · cases h.symm.trans (hfill e)
    rw [hinfo, hname]

/-- Seen from the tree before, only the list of `p` has changed, and it has grown at its front. -/
structure Grown (t : Fs) (sh : Shape) (p : Ptr) (t' : Fs) (sh' : Shape) : Prop where
  root : t'.rootFileSystem = t.rootFileSystem
  front : ∃ new, sh'.kids p = new ++ sh.kids p
  kids : ∀ q, sh.Live q → q ≠ p → sh'.kids q = sh.kids q
  content : ∀ q, sh.Live q → (t'.dirent q).content = (t.dirent q).content
  head : ∀ q, (t'.dirent q).head = (t.dirent q).head
  dev : ∀ q, (t'.dirent q).dev = (t.dirent q).dev

namespace Grown

section

variable (h : Grown t sh p t' sh') (hs : Sound t sh o)
include h hs

lemma live (hq : sh.Live q) : sh'.Live q := by
  cases q with
  | root k => trivial
  | dirent i =>
    rcases hq with ⟨r, hr⟩
    refine ⟨r, ?_⟩
    by_cases hrp : r = p
    · subst hrp
      rcases h.front with ⟨new, hnew⟩
      rw [hnew]
      exact mem_append_right _ hr
    · rwa [h.kids r (hs.inner hr) hrp]

omit h hs in
lemma refl : Grown t sh p t sh :=
  ⟨rfl, ⟨[], rfl⟩, fun _ _ _ => rfl, fun _ _ => rfl, fun _ => rfl, fun _ => rfl⟩

lemma trans {t'' : Fs}
    (h' : Grown t' sh' p t'' sh'') : Grown t sh p t'' sh'' := by
  refine ⟨h'.root.trans h.root, ?_, ?_, ?_, ?_, ?_⟩
  · rcases h.front with ⟨new, hnew⟩
    rcases h'.front with ⟨new', hnew'⟩
    exact ⟨new' ++ new, by rw [hnew', hnew, append_assoc]⟩
  · intro q hq hqp
    rw [h'.kids q (h.live hs hq) hqp, h.kids q hq hqp]
  · intro q hq
    rw [h'.content q (h.live hs hq), h.content q hq]
  · intro q
    rw [h'.head, h.head]
  · intro q
    rw [h'.dev, h.dev]

lemma trans_below {t'' : Fs} {i : Nat}
    (hp : sh.Live p) (hi : ¬ sh.Live (.dirent i)) (h' : Grown t' sh' (.dirent i) t'' sh'') :
    Grown t sh p t'' sh'' := by
  have hne : ∀ q, sh.Live q → q ≠ .dirent i := by
    rintro q hq rfl
    exact hi hq
  refine ⟨h'.root.trans h.root, ?_, ?_, ?_, ?_, ?_⟩
  · rw [h'.kids p (h.live hs hp) (hne p hp)]
    exact h.front
  · intro q hq hqp
    rw [h'.kids q (h.live hs hq) (hne q hq), h.kids q hq hqp]
  · intro q hq
    rw [h'.content q (h.live hs hq), h.content q hq]
  · intro q
    rw [h'.head, h.head]
  · intro q
    rw [h'.dev, h.dev]

end

lemma alloc (i : Nat) (rest : List Nat) : Grown t sh p { t with direntHead := t.next i } { sh with free := rest } :=
  ⟨rfl, ⟨[], rfl⟩, fun _ _ _ => rfl, fun _ _ => rfl, fun _ => rfl, fun _ => rfl⟩

end Grown

section

variable (h : Sound t sh (some ep))
include h

lemma Sound.setOff (hnext : d.nextBrother = (t.dirent (.dirent ep)).nextBrother)
    (hfirst : d.firstChild = (t.dirent (.dirent ep)).firstChild)
    (hparent : d.parent = (t.dirent (.dirent ep)).parent) : Sound (t.set (.dirent ep) d) sh (some ep) := by
  refine h.congr (h.toRep.set hnext hfirst hparent) ?_ ?_
  · intro p i hi
    have hne : p ≠ .dirent ep := by
      rintro rfl
      rw [h.kids_eq_nil (h.hold ep rfl).2] at hi
      cases hi
    rw [dirent_set_of_ne hne]
  · intro k
    exact h.roots k

lemma Sound.not_live : ¬ sh.Live (.dirent ep) := by
  rintro ⟨p, hp⟩
  exact (h.hold ep rfl).2 p hp

lemma loadLoop_done (hd : enext vol entries (t.dirent (.dirent ep)) off = .ok (r, count, d)) :
    Sound (direntFree (t.set (.dirent ep) d) ep) { sh with free := ep :: sh.free } none ∧
      Grown t sh p (direntFree (t.set (.dirent ep) d) ep) { sh with free := ep :: sh.free } := by
  have hkeeps : ∀ {β : Type} (f : Dirent → β), (∀ e s, f { e with filename := s } = f e) →
      (∀ e r, f (readEntryInfo vol e r) = f e) → f d = f (t.dirent (.dirent ep)) := by
    intro β f hname hinfo
    exact enextLoop_keeps f hname hinfo hd
  have hset := h.setOff (hkeeps Dirent.nextBrother (fun _ _ => rfl) fun _ _ => rfl)
    (hkeeps Dirent.firstChild (fun _ _ => rfl) fun _ _ => rfl) (hkeeps Dirent.parent (fun _ _ => rfl) fun _ _ => rfl)
  refine ⟨hset.release, rfl, ⟨[], rfl⟩, fun _ _ _ => rfl, fun q hq => ?_, fun q => ?_, fun q => ?_⟩
  · rw [content_direntFree, dirent_set_of_ne]
    rintro rfl
    exact h.not_live hq
  · rw [field_direntFree Dirent.head fun _ _ => rfl]
    exact field_set Dirent.head (hkeeps Dirent.head (fun _ _ => rfl) fun _ _ => rfl) q
  · rw [field_direntFree Dirent.dev fun _ _ => rfl]
    exact field_set Dirent.dev (hkeeps Dirent.dev (fun _ _ => rfl) fun _ _ => rfl) q

lemma linkChild_grown (hp : sh.Live p) (hdir : (t.dirent p).isDir = true)
    (hd : enext vol entries (t.dirent (.dirent ep)) off = .ok (r, count, d)) :
    Sound (linkChild t k p off ep d) (sh.add p ep) none ∧ Grown t sh p (linkChild t k p off ep d) (sh.add p ep) := by
  have hfirst : d.firstChild = none := by
    rw [enextLoop_keeps Dirent.firstChild (fun _ _ => rfl) (fun _ _ => rfl) hd]
    exact h.firstChild_eq_none (h.kids_eq_nil (h.hold ep rfl).2)
  have hne : ∀ q, sh.Live q → q ≠ .dirent ep := by
    rintro q hq rfl
    exact h.not_live hq
  refine ⟨h.adopt (h.below_of_live hp) hdir rfl rfl hfirst, rfl, ⟨[ep], Shape.kids_add_self⟩, ?_, ?_, ?_, ?_⟩
  · intro q _ hqp
    exact Shape.kids_add_of_ne hqp
  · intro q hq
    unfold linkChild
    rw [field_set Dirent.content (by rfl), dirent_set_of_ne (hne q hq)]
  · intro q
    unfold linkChild
    rw [field_set Dirent.head (by rfl)]
    have hkeep : d.head = (t.dirent (.dirent ep)).head :=
      enextLoop_keeps Dirent.head (fun _ _ => rfl) (fun _ _ => rfl) hd
    rw [field_set Dirent.head (by exact hkeep)]
  · intro q
    unfold linkChild
    rw [field_set Dirent.dev (by rfl)]
    have hkeep : d.dev = (t.dirent (.dirent ep)).dev :=
      enextLoop_keeps Dirent.dev (fun _ _ => rfl) (fun _ _ => rfl) hd
    rw [field_set Dirent.dev (by exact hkeep)]

end

lemma loadWith_ok (hok : loadWith vol loop p t = .ok t') : ∃ entries ep u,
    vol.entries (t.dirent p).firstClus = some entries ∧ direntAlloc t = .ok (ep, u) ∧
      loop p entries 0 ep u = .ok t' := by
  unfold loadWith at hok
  cases hentries : vol.entries (t.dirent p).firstClus with
  | none =>
    rw [hentries] at hok
    cases hok
  | some entries =>
    rw [hentries] at hok
    rcases bind_eq_ok.1 hok with ⟨⟨ep, u⟩, halloc, hok⟩
    exact ⟨entries, ep, u, rfl, halloc, hok⟩

lemma live_alloc {rest : List Nat} (hp : sh.Live p) : Shape.Live { sh with free := rest } p := by
  cases p with
  | root k => trivial
  | dirent i => exact hp

/-- The rule for the loop of `loadDirents`. -/
def LoopGrows (loop : Ptr → List Raw → Nat → Nat → Fs → Except Stop Fs) (p : Ptr) : Prop :=
  ∀ {entries ep t sh t'}, Sound t sh (some ep) → sh.Live p → (t.dirent p).isDir = true →
    loop p entries 0 ep t = .ok t' → ∃ sh', Sound t' sh' none ∧ Grown t sh p t' sh'

/-- The rule for `loadDirents` from the rule for its loop. -/
theorem loadWith_grown (hloop : LoopGrows loop p) (h : Sound t sh none) (hp : sh.Live p)
    (hdir : (t.dirent p).isDir = true) (hok : loadWith vol loop p t = .ok t') :
    ∃ sh', Sound t' sh' none ∧ Grown t sh p t' sh' := by
  rcases loadWith_ok hok with ⟨entries, ep, u, _, halloc, hok⟩
  rcases h.direntAlloc_ok halloc with ⟨rest, hfree, rfl⟩
  rcases hloop (h.alloc hfree).2 (live_alloc hp) hdir hok with ⟨sh', hs', hg⟩
  exact ⟨sh', hs', (Grown.alloc ep rest).trans h hg⟩

lemma loadBelow_grown {isDir : Bool} (hloop : LoopGrows loop (.dirent ep)) (h : Sound t sh none)
    (hep : sh.Live (.dirent ep)) (hdir : (t.dirent (.dirent ep)).isDir = isDir)
    (hok : loadBelow vol k loop p off ep isDir t = .ok t') :
    ∃ sh', Sound t' sh' none ∧ Grown t sh (.dirent ep) t' sh' := by
  unfold loadBelow at hok
  split at hok
  · rename_i hrec
    exact loadWith_grown hloop h hep (by rw [hdir]; exact hrec.1) hok
  · cases hok
    exact ⟨sh, h, .refl⟩

lemma isDir_linkChild : ((linkChild t k p off ep d).dirent (.dirent ep)).isDir = d.isDir := by
  unfold linkChild
  rw [field_set Dirent.isDir (by rfl), dirent_set_self]
  rfl

/-- The last part says that the loop ends at once or makes `ep` a child. -/
theorem loadLoop_grown (h : Sound t sh (some ep)) (hp : sh.Live p) (hdir : (t.dirent p).isDir = true)
    (hok : loadLoop vol k n p entries off ep t = .ok t') : ∃ sh', Sound t' sh' none ∧ Grown t sh p t' sh' ∧
      ((∃ count d, enext vol entries (t.dirent (.dirent ep)) off = .ok (-1, count, d)) ∨
        ∃ new, sh'.kids p = new ++ ep :: sh.kids p) := by
  induction n generalizing p entries off ep t sh t' with
  | zero => cases hok
  | succ n ih =>
    rcases bind_eq_ok.1 hok with ⟨⟨r, count, d⟩, hd, hok⟩
    dsimp only at hok
    split at hok
    · rename_i hr
      subst hr
      cases hok
      have hdone := loadLoop_done (p := p) h hd
      exact ⟨_, hdone.1, hdone.2, .inl ⟨count, d, hd⟩⟩
    · rcases bind_eq_ok.1 hok with ⟨u, hsub, hok⟩
      rcases bind_eq_ok.1 hok with ⟨⟨ep', v⟩, halloc, hok⟩
      rcases linkChild_grown h hp hdir hd with ⟨hs₁, hg₁⟩
      have hlive : (sh.add p ep).Live (.dirent ep) := ⟨p, by simp⟩
      have hloop : LoopGrows (loadLoop vol k n) (.dirent ep) := by
        intro _ _ _ _ _ h hp hdir hok
        rcases ih h hp hdir hok with ⟨sh', hs', hg', _⟩
        exact ⟨sh', hs', hg'⟩
      rcases loadBelow_grown hloop hs₁ hlive isDir_linkChild hsub with ⟨sh₂, hs₂, hg₁₂⟩
      have hg₂ := hg₁.trans_below h hp h.not_live hg₁₂
      have hkids : sh₂.kids p = ep :: sh.kids p := by
        rw [hg₁₂.kids p (hg₁.live h hp) fun heq => h.not_live (heq ▸ hp), Shape.kids_add_self]
      rcases hs₂.direntAlloc_ok halloc with ⟨rest, hfree, rfl⟩
      have hg₃ := hg₂.trans h (Grown.alloc ep' rest)
      have hdir₃ : (u.dirent p).isDir = true := (isDir_congr (hg₂.content p hp)).trans hdir
      rcases ih (hs₂.alloc hfree).2 (hg₃.live h hp) hdir₃ hok with ⟨sh₄, hs₄, hg₄, _⟩
      rcases hg₄.front with ⟨new, hnew⟩
      exact ⟨sh₄, hs₄, hg₃.trans h hg₄, .inr ⟨new, by rw [hnew]; exact congrArg (new ++ ·) hkids⟩⟩

lemma loopGrows : LoopGrows (loadLoop vol k n) p := by
  intro _ _ _ _ _ h hp hdir hok
  rcases loadLoop_grown h hp hdir hok with ⟨sh', hs', hg', _⟩
  exact ⟨sh', hs', hg'⟩

/-- No name holds a 0, as the names are strings. -/
def ZeroFree (t : Fs) : Prop := ∀ q, 0 ∉ (t.dirent q).filename

lemma zero_notMem_cstr (buf : Nat → UInt8) : 0 ∉ cstr buf := by
  intro h
  simpa using mem_takeWhile_imp h

lemma enextLoop_zeroFree (h : enextLoop vol raws cnt o buf e = .ok (r, count, d)) : 0 ∉ d.filename := by
  rcases enextLoop_fills h with ⟨buf', fill, hfill, rfl | ⟨de, rfl⟩⟩
  · cases h.symm.trans (hfill e)
    exact zero_notMem_cstr buf'
  · cases h.symm.trans (hfill e)
    exact zero_notMem_cstr buf'

lemma ZeroFree.set (h : ZeroFree t) (hd : 0 ∉ d.filename) : ZeroFree (t.set p d) := by
  intro q
  by_cases hq : q = p
  · subst hq
    rw [dirent_set_self]
    exact hd
  · rw [dirent_set_of_ne hq]
    exact h q

lemma direntAlloc_dirent {i : Nat} (h : direntAlloc t = .ok (i, t')) : t'.dirent = t.dirent := by
  unfold direntAlloc at h
  split at h
  · cases h
  · cases h
    rfl

/-- What every child that is linked and every dirent that is given back keeps, the loading keeps. -/
theorem loadDirents_keeps {P : Fs → Prop} (halloc : ∀ {t u}, u.dirent = t.dirent → P t → P u)
    (hnext : ∀ {t ep entries off r count d} p, P t →
      enext vol entries (t.dirent (.dirent ep)) off = .ok (r, count, d) →
        P (linkChild t k p off ep d) ∧ P (direntFree (t.set (.dirent ep) d) ep))
    (h : P t) (hok : loadDirents n vol k p t = .ok t') : P t' := by
  have hwith : ∀ n, (∀ {p entries off ep t t'}, P t → loadLoop vol k n p entries off ep t = .ok t' → P t') →
      ∀ {p t t'}, P t → loadWith vol (loadLoop vol k n) p t = .ok t' → P t' := by
    intro n hloop p t t' h hok
    rcases loadWith_ok hok with ⟨entries, ep, u, _, hu, hok⟩
    exact hloop (halloc (direntAlloc_dirent hu) h) hok
  refine hwith n ?_ h hok
  clear h hok
  induction n with
  | zero => nofun
  | succ n ih =>
    intro p entries off ep t t' h hok
    rcases bind_eq_ok.1 hok with ⟨⟨r, count, d⟩, hd, hrest⟩
    have hstep := hnext p h hd
    dsimp only at hrest
    split at hrest
    · cases hrest
      exact hstep.2
    · rcases bind_eq_ok.1 hrest with ⟨u, hsub, hmore⟩
      rcases bind_eq_ok.1 hmore with ⟨⟨ep', v⟩, hv, hloop⟩
      refine ih (halloc (direntAlloc_dirent hv) ?_) hloop
      unfold loadBelow at hsub
      split at hsub
      · exact hwith n ih hstep.1 hsub
      · cases hsub
        exact hstep.1

lemma loadDirents_zeroFree (h : ZeroFree t) (hok : loadDirents n vol k p t = .ok t') : ZeroFree t' := by
  refine loadDirents_keeps (fun hsame h q => by rw [hsame]; exact h q) ?_ h hok
  intro t ep entries off r count d p h hd
  have hname : 0 ∉ d.filename := enextLoop_zeroFree hd
  constructor
  · have hset : ZeroFree (t.set (.dirent ep) { d with
        parent := some p, off := off, nextBrother := (t.dirent p).firstChild, fileSystem := k }) := h.set hname
    exact hset.set (hset p)
  · intro q
    rw [field_direntFree Dirent.filename fun _ _ => rfl]
    exact h.set hname q

/-! ## Directories of valid items -/

/-- The live entries with their offsets. -/
def liveAt : Nat → List Item → List (Nat × Entry)
  | _, [] => []
  | off, .live e :: its => (off, e) :: liveAt (off + 32 * (e.longs.length + 1)) its
  | off, .deleted _ :: its => liveAt (off + 32) its

/-- No deleted entry stands before a live one. -/
def Tidy : List Item → Prop
  | [] => True
  | .live _ :: its => Tidy its
  | .deleted _ :: its => ∀ off, liveAt off its = []

/-- The number of children that the loop makes: one for a live entry, and one for deleted entries in front of
it. -/
def rounds : Bool → List Item → Nat
  | _, [] => 0
  | skipped, .live _ :: its => (if skipped then 2 else 1) + rounds false its
  | _, .deleted _ :: its => rounds true its

/-- The entries in a chain are these items, up to the end. -/
def Holds (raws : List Raw) (its : List Item) : Prop :=
  (∀ it ∈ its, it.Valid) ∧ ∃ tail, IsEnd tail ∧ raws = its.flatMap Item.raws ++ tail

/-- A directory in which `enext` finds nothing. -/
def NoLive (vol : Volume) (x : Nat) : Prop :=
  ∃ raws, vol.entries x = some raws ∧ ∀ e, ∃ count d, enext vol raws e 0 = .ok (-1, count, d)

lemma liveAt_length (off off' : Nat) (its : List Item) : (liveAt off its).length = (liveAt off' its).length := by
  induction its generalizing off off' with
  | nil => rfl
  | cons it its ih =>
    cases it with
    | live e => exact congrArg (· + 1) (ih _ _)
    | deleted r => exact ih _ _

lemma liveAt_eq_nil_of (off' : Nat) {its : List Item} (h : liveAt off its = []) : liveAt off' its = [] := by
  rw [← length_eq_zero_iff, liveAt_length off' off, h]
  rfl

lemma le_rounds (b : Bool) (its : List Item) (off : Nat) : (liveAt off its).length ≤ rounds b its := by
  induction its generalizing b off with
  | nil => exact Nat.zero_le _
  | cons it its ih =>
    cases it with
    | live e =>
      have hle := ih false (off + 32 * (e.longs.length + 1))
      cases b <;> simp only [liveAt, rounds, length_cons, if_true, Bool.false_eq_true, if_false] <;> omega
    | deleted r => exact ih true _

lemma rounds_true_eq_iff (its : List Item) (off : Nat) :
    rounds true its = (liveAt off its).length ↔ liveAt off its = [] := by
  induction its generalizing off with
  | nil => simp [rounds, liveAt]
  | cons it its ih =>
    cases it with
    | live e =>
      have hle := le_rounds false its (off + 32 * (e.longs.length + 1))
      simp only [liveAt, rounds, length_cons, if_true, reduceCtorEq, iff_false]
      omega
    | deleted r => exact ih _

lemma rounds_eq_iff (its : List Item) (off : Nat) : rounds false its = (liveAt off its).length ↔ Tidy its := by
  induction its generalizing off with
  | nil => simp [rounds, liveAt, Tidy]
  | cons it its ih =>
    cases it with
    | live e =>
      have h := ih (off + 32 * (e.longs.length + 1))
      simp only [liveAt, rounds, Tidy, length_cons, Bool.false_eq_true, if_false]
      rw [← h]
      omega
    | deleted r =>
      refine (rounds_true_eq_iff its (off + 32)).trans ⟨fun h off' => liveAt_eq_nil_of off' h, fun h => h _⟩

lemma exists_split (its : List Item) : ∃ dels rest, its = dels ++ rest ∧ (∀ it ∈ dels, ∃ r, it = .deleted r) ∧
      (rest = [] ∨ ∃ f its', rest = .live f :: its') := by
  induction its with
  | nil => exact ⟨[], [], rfl, nofun, .inl rfl⟩
  | cons it its ih =>
    cases it with
    | live f => exact ⟨[], _, rfl, nofun, .inr ⟨f, its, rfl⟩⟩
    | deleted r =>
      rcases ih with ⟨dels, rest, rfl, hdels, hrest⟩
      refine ⟨.deleted r :: dels, rest, rfl, ?_, hrest⟩
      intro it hit
      rcases mem_cons.1 hit with rfl | hit
      · exact ⟨r, rfl⟩
      · exact hdels it hit

section dels

variable {dels rest its' : List Item} {f : Entry} (hdels : ∀ it ∈ dels, ∃ r, it = Item.deleted r)
include hdels

lemma liveAt_dels : liveAt off (dels ++ rest) = liveAt (off + 32 * dels.length) rest := by
  induction dels generalizing off with
  | nil => rfl
  | cons it dels ih =>
    rcases hdels it (by simp) with ⟨r, rfl⟩
    rw [cons_append, liveAt, ih fun it hit => hdels it (by simp [hit])]
    congr 1
    simp only [length_cons]
    omega

lemma rounds_dels : rounds true (dels ++ rest) = rounds true rest := by
  induction dels with
  | nil => rfl
  | cons it dels ih =>
    rcases hdels it (by simp) with ⟨r, rfl⟩
    rw [cons_append, rounds, ih fun it hit => hdels it (by simp [hit])]

lemma enextLoop_dels {raws : List Raw} (hv : ∀ it ∈ dels, it.Valid) :
    enextLoop vol (dels.flatMap Item.raws ++ raws) cnt none buf e =
      enextLoop vol raws (cnt + dels.length) none buf e := by
  induction dels generalizing cnt with
  | nil => rfl
  | cons it dels ih =>
    rcases hdels it (by simp) with ⟨r, rfl⟩
    have hr : r.order = emptyEntry := hv (.deleted r) (by simp)
    change enextLoop vol (r :: (dels.flatMap Item.raws ++ raws)) cnt none buf e = _
    rw [enextLoop_deleted hr, ih (fun it hit => hdels it (by simp [hit])) fun it hit => hv it (by simp [hit])]
    congr 1
    simp only [length_cons]
    omega

end dels

lemma cstr_zero : cstr (fun _ => 0) = [] := by
  decide

lemma enextLoop_front {f : Entry} (hf : f.Valid) :
    enextLoop vol (Item.raws (.live f) ++ tail) 0 none (fun _ => 0) e =
      .ok (1, f.longs.length + 1, readEntryInfo vol { e with filename := f.filename } f.short) := by
  rw [Item.raws, append_assoc, singleton_append]
  exact enextLoop_live hf

lemma enextLoop_behind {f : Entry} (hf : f.Valid) (hcnt : cnt ≠ 0) :
    enextLoop vol (Item.raws (.live f) ++ tail) cnt none (fun _ => 0) e =
      .ok (0, cnt, { e with filename := [] }) := by
  rw [Item.raws, append_assoc, singleton_append]
  rcases hf.run with hlongs | ⟨n, r, longs, hlongs, horder, _, _, hn⟩
  · rw [hlongs, nil_append, enextLoop_skipped hf.short_order hcnt, cstr_zero]
  · have hne : r.order ≠ endOfEntry ∧ r.order ≠ emptyEntry := by
      rw [horder]
      simp only [endOfEntry, emptyEntry, lastLongEntry]
      omega
    rw [hlongs, cons_append, enextLoop_skipped hne hcnt, cstr_zero]

lemma loadWith_noLive (h : Sound t sh none) (hno : NoLive vol (t.dirent p).firstClus)
    (hok : loadWith vol (loadLoop vol k n) p t = .ok t') : Sound t' sh none := by
  rcases hno with ⟨raws, hentries, hnone⟩
  unfold loadWith at hok
  rw [hentries] at hok
  rcases bind_eq_ok.1 hok with ⟨⟨ep, u⟩, halloc, hok⟩
  rcases h.direntAlloc_ok halloc with ⟨rest, hfree, rfl⟩
  cases n with
  | zero => cases hok
  | succ n =>
    rcases hnone (t.dirent (.dirent ep)) with ⟨count, d, hd⟩
    have hdone := loadLoop_done (p := p) (h.alloc hfree).2 hd
    change (enext vol raws (t.dirent (.dirent ep)) 0 >>= _) = _ at hok
    rw [hd, ok_bind] at hok
    cases hok
    have hsh : sh = { sh with free := ep :: rest } := by rw [← hfree]
    rw [hsh]
    exact hdone.1

lemma noLive_of_loadWith (h : Sound t sh none) (hp : sh.Live p) (hdir : (t.dirent p).isDir = true)
    (hok : loadWith vol (loadLoop vol k n) p t = .ok t') (hrep : Rep t' sh') (hkids : sh'.kids p = sh.kids p) :
    NoLive vol (t.dirent p).firstClus := by
  rcases loadWith_ok hok with ⟨raws, ep, u, hentries, halloc, hok⟩
  rcases h.direntAlloc_ok halloc with ⟨rest, hfree, rfl⟩
  refine ⟨raws, hentries, fun e => ?_⟩
  rcases loadLoop_grown (h.alloc hfree).2 (live_alloc hp) hdir hok with
    ⟨sh₂, hs₂, _, ⟨count, d, hd⟩ | ⟨new, hnew⟩⟩
  · rcases enextLoop_fills hd with ⟨_, fill, hfill, _⟩
    exact ⟨count, fill e, hfill e⟩
  · -- the list of the children has become longer
    have hsame : sh₂.kids p = sh'.kids p := (hs₂.kids p).unique (hrep.kids p)
    rw [hsame, hkids] at hnew
    have hlen := congrArg List.length hnew
    simp only [length_append, length_cons] at hlen
    omega

end Tree
end OsRiscv
