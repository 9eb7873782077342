import Mathlib.Data.List.Pairwise
import OsRiscv.Tree.Orderly

/-!
# Unlink — what `do_unlinkat` takes away

`do_unlinkat` removes the entry at the end of the links.  Afterwards the tree has all its other entries under their
names, and the path names nothing, unless the entry was reached in another way than by its name: as the directory
the path starts from, or through a link.  A link that leads through the removed entry makes later lookups fail the
assertion in `jumpToLinkDirent`.
-/

namespace OsRiscv
namespace Tree

open Lib List

/-- The children of the entry are dot entries, which have no children. -/
def Fs.Childless (t : Fs) (e : Ptr) : Prop :=
  ∀ l, Linked t.next (t.dirent e).firstChild l → ∀ j ∈ l,
    ((t.dirent (.dirent j)).filename = [dot] ∨ (t.dirent (.dirent j)).filename = [dot, dot]) ∧
      (t.dirent (.dirent j)).firstChild = none

/-- The loop of `lookup_path` gets from `o` to the directory `dir` by no link that leads through `e`. -/
def Past (t : Fs) (c : Ctx) (e : Ptr) (o : Option Ptr) (dir : Ptr) : Prop :=
  ∃ n via, enter t (jumpToLinkDirent t c n) o = .ok (some dir, via) ∧
    ∀ q, o = some q → (t.dirent q).isLink = true → e ∉ via

/-- On the way from `o` along the names `e` is found under its own name, and no link before leads through `e`. -/
inductive ByName (t : Fs) (c : Ctx) (e : Ptr) : Option Ptr → List Str → Prop where
  | here {o : Option Ptr} {dir : Ptr} {name : Str} {names : List Str} : Past t c e o dir →
      dirlookup t dir name = .ok (some e) → name ≠ [dot] → name ≠ [dot, dot] → ByName t c e o (name :: names)
  | step {o : Option Ptr} {dir q : Ptr} {name : Str} {names : List Str} : Past t c e o dir →
      dirlookup t dir name = .ok (some q) → ByName t c e (some q) names → ByName t c e o (name :: names)

/-- `e` is what the path names: no link, without children, and reached by its name. -/
structure Unlinkable (t : Fs) (c : Ctx) (fd : Int) (path : Str) (e : Ptr) : Prop where
  plain : (t.dirent e).isLink = false
  childless : t.Childless e
  byName : ∃ o, startDirent t c fd path = some o ∧ ByName t c e o (elems path)

/-- The path, which named `e` in `t`, names nothing in `t'`; the lookups that do not come through `e` have the
results they had; a link is removed and not its target; no root and no directory with children is removed. -/
structure Unlinks (t : Fs) (c : Ctx) (fd : Int) (path : Str) (e : Ptr) (t' : Fs) : Prop where
  gone : ∃ n via, ename n t' c fd path false = .ok (none, via)
  others : ∀ n c' fd' path' follow r via, ename n t c' fd' path' follow = .ok (r, via) → e ∉ via →
    ename n t' c' fd' path' follow = .ok (r, via) ∧ ∀ q, r = some q → (t'.dirent q).content = (t.dirent q).content
  link : (t.dirent e).isLink = true → ¬ t'.InTree e ∧ ∀ n q via, ename n t c fd path true = .ok (some q, via) →
    t'.InTree q ∧ (t'.dirent q).content = (t.dirent q).content
  notRoot : ∀ k, e ≠ .root k
  childless : t.Childless e

/-- The fields that `do_unlinkat` leaves as they are. -/
def Dirent.lasting (d : Dirent) : Dirent :=
  { d.content with fileSize := 0, firstClus := 0, data := fun _ => 0, ntRes := 0 }

/-- `t'` is `t` without the child `i` of `p`. -/
structure Removed (t : Fs) (sh : Shape) (p : Ptr) (i : Nat) (t' : Fs) : Prop where
  rep : Rep t sh
  rep' : Rep t' (sh.freed p i)
  distinct : Distinct t sh
  mem : i ∈ sh.kids p
  root : t'.rootFileSystem = t.rootFileSystem
  content : ∀ q, q ≠ .dirent i → (t'.dirent q).content = (t.dirent q).content
  lasting : (t'.dirent (.dirent i)).lasting = (t.dirent (.dirent i)).lasting
  notLink : (t'.dirent (.dirent i)).isLink = false

variable {t t' : Fs} {sh : Shape} {c : Ctx} {p q e : Ptr} {o : Option Ptr} {i j n m : Nat} {fd : Int}
  {path name : Str} {names : List Str} {via : List Ptr} {dir : Option Ptr} {via' : List Ptr}

lemma find?_erase_of_ne {α : Type*} [DecidableEq α] {P : α → Bool} {x : α} {l : List α} (h : l.find? P ≠ some x) :
    (l.erase x).find? P = l.find? P := by
  induction l with
  | nil => rfl
  | cons a l ih =>
    by_cases hax : a = x
    · subst hax
      cases hP : P a with
      | true => simp [hP] at h
      | false => simp [hP]
    · rw [erase_cons_tail (by simpa using hax)]
      cases hP : P a with
      | true => simp [hP]
      | false =>
        simp only [find?_cons, hP] at h ⊢
        exact ih h

namespace Removed

variable (h : Removed t sh p i t')
include h

lemma field {β : Type*} (f : Dirent → β) (hf : ∀ d : Dirent, f d.lasting = f d) (q : Ptr) :
    f (t'.dirent q) = f (t.dirent q) := by
  have hlasting : (t'.dirent q).lasting = (t.dirent q).lasting := by
    by_cases hq : q = .dirent i
    · subst hq
      exact h.lasting
    · exact field_content Dirent.lasting (fun _ => rfl) (h.content q hq)
  rw [← hf, hlasting, hf]

lemma isLink (hq : q ≠ .dirent i) : (t'.dirent q).isLink = (t.dirent q).isLink :=
  isLink_congr (h.content q hq)

lemma childNamed_of_ne (hne : childNamed t (sh.kids q) name ≠ some i) :
    childNamed t' ((sh.freed p i).kids q) name = childNamed t (sh.kids q) name := by
  unfold childNamed
  have hname : (fun j => sameName (t'.dirent (.dirent j)).filename name) =
      fun j => sameName (t.dirent (.dirent j)).filename name := by
    funext j
    rw [h.field Dirent.filename fun _ => rfl]
  rw [hname]
  by_cases hqp : q = p
  · subst hqp
    rw [Shape.kids_freed, Shape.remove]
    dsimp only
    rw [Function.update_self]
    exact find?_erase_of_ne hne
  · rw [Shape.kids_freed, Shape.kids_remove_of_ne hqp]

lemma childNamed_self (hsome : childNamed t (sh.kids q) name = some i) :
    childNamed t' ((sh.freed p i).kids q) name = none := by
  have hnamed : sameName (t.dirent (.dirent i)).filename name = true := by
    simpa using find?_some hsome
  refine find?_eq_none.2 fun j hj hsame => ?_
  have hj' : j ∈ sh.kids q := Shape.mem_of_mem_remove hj
  have hi' : i ∈ sh.kids q := childNamed_mem hsome
  have hji : j ≠ i := by
    rintro rfl
    exact (h.rep.off_remove h.mem).2 q hj
  rw [h.field Dirent.filename fun _ => rfl] at hsame
  -- both have the name that is looked for
  have hboth : sameName (t.dirent (.dirent i)).filename (t.dirent (.dirent j)).filename = true := by
    simp only [sameName, decide_eq_true_eq] at hnamed hsame ⊢
    rw [hnamed, hsame]
  have hsymm : Std.Symm fun i j =>
      sameName (t.dirent (.dirent i)).filename (t.dirent (.dirent j)).filename = false := by
    refine ⟨fun a b hab => ?_⟩
    simp only [sameName, decide_eq_false_iff_not] at hab ⊢
    exact fun heq => hab heq.symm
  rw [(h.distinct q).forall hi' hj' hji.symm] at hboth
  cases hboth

lemma named_of_ne (hne : named t sh q name ≠ some (.dirent i) ∨ name = [dot] ∨ name = [dot, dot]) :
    named t' (sh.freed p i) q name = named t sh q name := by
  unfold named at hne ⊢
  rw [h.field Dirent.fileSystem fun _ => rfl, h.field Dirent.parent fun _ => rfl]
  split
  · rfl
  · rename_i hdot
    split
    · rfl
    · rename_i hdotdot
      have hchild : childNamed t (sh.kids q) name ≠ some i := by
        intro hsome
        rw [hsome] at hne
        simp [hdot, hdotdot] at hne
      rw [h.childNamed_of_ne hchild]

lemma dirlookup_of_ne {r : Option Ptr} (hr : dirlookup t q name = .ok r)
    (hne : r ≠ some (.dirent i) ∨ name = [dot] ∨ name = [dot, dot]) : dirlookup t' q name = .ok r := by
  rcases (dirlookup_ok_iff h.rep).1 hr with ⟨hdir, rfl⟩
  refine (dirlookup_ok_iff h.rep').2 ⟨?_, h.named_of_ne hne⟩
  rw [h.field Dirent.isDir fun _ => rfl]
  exact hdir

lemma dirlookup_self (hr : dirlookup t q name = .ok (some (.dirent i))) (hdot : name ≠ [dot])
    (hdotdot : name ≠ [dot, dot]) : dirlookup t' q name = .ok none := by
  rcases (dirlookup_ok_iff h.rep).1 hr with ⟨hdir, hname⟩
  refine (dirlookup_ok_iff h.rep').2 ⟨?_, ?_⟩
  · rw [h.field Dirent.isDir fun _ => rfl]
    exact hdir
  · unfold named at hname ⊢
    rw [if_neg hdot, if_neg hdotdot] at hname ⊢
    rcases Option.map_eq_some_iff.1 hname with ⟨j, hj, heq⟩
    cases heq
    rw [h.childNamed_self hj]
    rfl

lemma frame : Frame t t' (· ≠ .dirent i) where
  root := h.root
  isDir := fun q _ => h.field Dirent.isDir (fun _ => rfl) q
  head := fun q _ => h.field Dirent.head (fun _ => rfl) q
  isLink := fun _ hq => h.isLink hq
  text := fun q hq _ => field_content readLink (fun _ => rfl) (h.content q hq)
  found := fun _ _ _ _ hq hfound => h.dirlookup_of_ne hfound (.inl fun heq => hq (Option.some.inj heq))

lemma missing : Missing t t' (· ≠ .dirent i) := fun _ _ _ hnone => h.dirlookup_of_ne hnone (.inl nofun)

lemma cross : Tree.cross t' q = Tree.cross t q := by
  unfold Tree.cross
  rw [h.field Dirent.isDir fun _ => rfl, h.field Dirent.head fun _ => rfl]

lemma enter (henter : Tree.enter t (jumpToLinkDirent t c n) o = .ok (dir, via))
    (hpast : ∀ q, o = some q → (t.dirent q).isLink = true → .dirent i ∉ via) :
    Tree.enter t' (jumpToLinkDirent t' c n) o = .ok (dir, via) := by
  rcases bind_eq_ok.1 henter with ⟨⟨p', via₁⟩, hjump, _⟩
  cases o with
  | none =>
    rcases (jumpToLinkDirent_mem hjump).2 with ⟨_, _, heq⟩
    cases heq
  | some q =>
    by_cases hlink : (t.dirent q).isLink = true
    · refine h.frame.enter (fun o q via => h.frame.jumpToLinkDirent) (fun o q via => jumpToLinkDirent_mem) henter ?_
      rintro x hx rfl
      exact hpast q rfl hlink hx
    · have hlink' : (t'.dirent q).isLink = false := by
        by_cases hq : q = .dirent i
        · subst hq
          exact h.notLink
        · rw [h.isLink hq]
          simpa using hlink
      cases n with
      | zero => cases hjump
      | succ n =>
        unfold Tree.enter jumpToLinkDirent at henter ⊢
        rw [if_neg hlink, ok_bind] at henter
        rw [if_neg (by simp [hlink']), ok_bind]
        dsimp only at henter ⊢
        rw [h.cross]
        exact henter

/-- A path along which the entry is found under its name leads nowhere. -/
theorem gone (hby : ByName t c (.dirent i) o names) :
    ∃ n via name, lookupLoop t' (jumpToLinkDirent t' c n) false o names = .ok (.returned none name, via) := by
  induction hby with
  | @here o dir name names hpast hfound hdot hdotdot =>
    rcases hpast with ⟨n, via, henter, hvia⟩
    refine ⟨n, via, name, ?_⟩
    unfold lookupLoop
    rw [h.enter henter hvia, ok_bind]
    dsimp only
    rw [if_neg (by simp), h.dirlookup_self hfound hdot hdotdot]
    rfl
  | @step o dir q name names hpast hfound _ ih =>
    rcases hpast with ⟨n₁, via₁, henter, hvia⟩
    rcases ih with ⟨n₂, via₂, name', hloop⟩
    by_cases hself : q = .dirent i ∧ name ≠ [dot] ∧ name ≠ [dot, dot]
    · rcases hself with ⟨rfl, hdot, hdotdot⟩
      refine ⟨n₁, via₁, name, ?_⟩
      unfold lookupLoop
      rw [h.enter henter hvia, ok_bind]
      dsimp only
      rw [if_neg (by simp), h.dirlookup_self hfound hdot hdotdot]
      rfl
    · have hne : some q ≠ some (.dirent i) ∨ name = [dot] ∨ name = [dot, dot] := by
        by_contra hnot
        push Not at hnot
        exact hself ⟨Option.some.inj hnot.1, hnot.2⟩
      have henter' := ok_of_le (fun n => enter_below (jumpToLinkDirent_below n) o) (le_max_left n₁ n₂)
        (h.enter henter hvia)
      have hloop' := ok_of_le (fun n => lookupLoop_below (jumpToLinkDirent_below n) false (some q) names)
        (le_max_right n₁ n₂) hloop
      refine ⟨max n₁ n₂, via₁ ++ via₂, name', ?_⟩
      unfold lookupLoop
      rw [henter', ok_bind]
      dsimp only
      rw [if_neg (by simp), h.dirlookup_of_ne hfound hne, ok_bind]
      dsimp only
      rw [hloop']
      rfl

end Removed

/-! ## Links that lead through the removed entry -/

/-- In the tree, and neither `i` nor a child of it. -/
structure Outside (sh : Shape) (i : Nat) (q : Ptr) : Prop where
  live : sh.Live q
  ne : q ≠ .dirent i
  notKid : ∀ j, q = .dirent j → j ∉ sh.kids (.dirent i)

lemma outside_root {k : Nat} : Outside sh i (.root k) := ⟨trivial, nofun, nofun⟩

section diverge

variable (h : Removed t sh p i t') (hs : Settled t sh) (hkids : ∀ j ∈ sh.kids (.dirent i), sh.kids (.dirent j) = [])
  (hplain : (t.dirent (.dirent i)).isLink = false)
include h hs hkids

/-- From outside, the entry is found under its name only. -/
theorem Outside.found (hq : Outside sh i q) (hfound : dirlookup t q name = .ok (some e)) :
    Outside sh i e ∨ (e = .dirent i ∧ name ≠ [dot] ∧ name ≠ [dot, dot]) := by
  have hnamed := ((dirlookup_ok_iff h.rep).1 hfound).2
  have hlive : sh.Live e := named_live h.rep hq.live (fun _ _ => hs.sound.inner) hnamed
  unfold named at hnamed
  split at hnamed
  · cases hnamed
    exact .inl hq
  · rename_i hdot
    split at hnamed
    · split at hnamed
      · cases hnamed
        exact .inl hq
      · -- the parent of an entry outside
        cases q with
        | root k =>
          rw [h.rep.rootless k] at hnamed
          cases hnamed
        | dirent j =>
          rcases hq.live with ⟨d, hd⟩
          rw [h.rep.parent d j hd] at hnamed
          cases hnamed
          refine .inl ⟨hlive, ?_, ?_⟩
          · rintro rfl
            exact hq.notKid j rfl hd
          · rintro j' rfl hj'
            rw [hkids j' hj'] at hd
            cases hd
    · rename_i hdotdot
      rcases Option.map_eq_some_iff.1 hnamed with ⟨j, hj, rfl⟩
      by_cases hji : j = i
      · exact .inr ⟨by rw [hji], hdot, hdotdot⟩
      · refine .inl ⟨hlive, fun heq => hji (Ptr.dirent.inj heq), ?_⟩
        rintro j' heq hj'
        cases heq
        exact hq.ne (h.rep.kid_unique (childNamed_mem hj) hj')

/-- What following a link means for the tree without the entry: the same, or the assertion fails. -/
def Survives (t t' : Fs) (sh : Shape) (i : Nat) (c : Ctx) (n : Nat) : Prop :=
  ∀ q p via, sh.Live q → (t.dirent q).isLink = true → jumpToLinkDirent t c n (some q) = .ok (p, via) →
    (Outside sh i p ∧ .dirent i ∉ via) ∨ ∀ r, jumpToLinkDirent t' c n (some q) ≠ .ok r

omit h hs hkids in
lemma Outside.cross (hq : Outside sh i q) (hdir : (Tree.cross t q).1 = some e) :
    Outside sh i e ∧ .dirent i ∉ (Tree.cross t q).2 := by
  unfold Tree.cross at hdir ⊢
  by_cases hfile : (t.dirent q).isDir = false
  · rw [if_pos hfile] at hdir
    cases hdir
  · rw [if_neg hfile] at hdir ⊢
    cases hhead : (t.dirent q).head with
    | none =>
      rw [hhead] at hdir
      cases hdir
      exact ⟨hq, by simp⟩
    | some k =>
      rw [hhead] at hdir
      cases hdir
      exact ⟨outside_root, by simp⟩

omit h hs hkids in
lemma Outside.enter (ih : Survives t t' sh i c n) (hq : Outside sh i q)
    (henter : Tree.enter t (jumpToLinkDirent t c n) (some q) = .ok (some e, via)) :
    (Outside sh i e ∧ .dirent i ∉ via) ∨ ∀ r, Tree.enter t' (jumpToLinkDirent t' c n) (some q) ≠ .ok r := by
  rcases bind_eq_ok.1 henter with ⟨⟨p', via₁⟩, hjump, heq⟩
  rcases Prod.mk.inj (Except.ok.inj heq) with ⟨hdir, rfl⟩
  -- what is entered is outside if the end of the link is
  have hlast : Outside sh i p' → .dirent i ∉ via₁ → Outside sh i e ∧ .dirent i ∉ via₁ ++ (Tree.cross t p').2 := by
    intro hp' hvia
    rcases hp'.cross hdir with ⟨he, hmore⟩
    refine ⟨he, fun hi => ?_⟩
    rcases mem_append.1 hi with hi | hi
    · exact hvia hi
    · exact hmore hi
  by_cases hlink : (t.dirent q).isLink = true
  · rcases ih q p' via₁ hq.live hlink hjump with ⟨hp', hvia⟩ | hdiv
    · exact .inl (hlast hp' hvia)
    · refine .inr fun r hr => ?_
      rcases bind_eq_ok.1 hr with ⟨r', hr', _⟩
      exact hdiv r' hr'
  · rcases jumpToLinkDirent_plain (by simpa using hlink) hjump with ⟨rfl, rfl⟩
    exact .inl (hlast hq (by simpa using hq.ne.symm))

lemma Outside.lookupLoop {x : Ptr} (ih : Survives t t' sh i c n) (hq : Outside sh i q)
    (hloop : Tree.lookupLoop t (jumpToLinkDirent t c n) false (some q) names = .ok (.ended (some x), via)) :
    (Outside sh i x ∧ .dirent i ∉ via) ∨
      ∀ r via', Tree.lookupLoop t' (jumpToLinkDirent t' c n) false (some q) names = .ok (r, via') →
        ∃ name, r = .returned none name := by
  induction names generalizing q via with
  | nil =>
    cases hloop
    exact .inl ⟨hq, by simp⟩
  | cons name names ihn =>
    unfold Tree.lookupLoop
    rcases lookupLoop_cons_ended hloop with ⟨dir, via₁, found, via₂, henter, hfound, hmore, rfl⟩
    rcases hq.enter ih henter with ⟨hdir, hvia₁⟩ | hdiv
    · have henter' := h.enter henter fun _ _ _ => hvia₁
      rw [henter', ok_bind]
      dsimp only
      rcases hdir.found h hs hkids hfound with hout | ⟨rfl, hdot, hdotdot⟩
      · -- the loop goes on outside, in both trees
        rw [h.dirlookup_of_ne hfound (.inl fun heq => hout.ne (Option.some.inj heq)), ok_bind]
        rcases ihn hout hmore with ⟨hx, hvia₂⟩ | hnone
        · refine .inl ⟨hx, fun hi => ?_⟩
          rcases mem_append.1 hi with hi | hi
          · exact hvia₁ hi
          · exact hvia₂ hi
        · refine .inr fun r via' hr => ?_
          rcases bind_eq_ok.1 hr with ⟨⟨r'', via''⟩, hr'', heq⟩
          cases heq
          exact hnone _ via'' hr''
      · -- the entry is gone
        rw [h.dirlookup_self hfound hdot hdotdot, ok_bind]
        refine .inr fun r via' hr => ?_
        cases hr
        exact ⟨name, rfl⟩
    · refine .inr fun r via' hr => ?_
      rcases bind_eq_ok.1 hr with ⟨r'', hr'', _⟩
      exact absurd hr'' (hdiv r'')

include hplain in
lemma survives (n : Nat) : Survives t t' sh i c n := by
  induction n with
  | zero => exact fun _ _ _ _ _ hjump => by cases hjump
  | succ n ih =>
    intro q p' via hq hlink hjump
    have hqi : q ≠ .dirent i := by
      rintro rfl
      rw [hplain] at hlink
      cases hlink
    rcases (hs.kept q).link hq hlink with ⟨s, htext⟩
    have htext' : readLink (t'.dirent q) = .ok (slash :: s) := by
      rw [h.frame.text q hqi hlink]
      exact htext
    have hlink' : (t'.dirent q).isLink = true := by
      rw [h.isLink hqi]
      exact hlink
    rcases (jumpToLinkDirent_absolute_iff hlink htext).1 hjump with ⟨x, v₁, v₂, hloop, hx, rfl⟩
    -- the end of the link, if it is outside
    have hleft : .dirent i ∉ v₁ → Outside sh i p' → .dirent i ∉ v₂ →
        Outside sh i p' ∧ .dirent i ∉ q :: (v₁ ++ v₂) ++ [p'] := by
      intro hv₁ hout hv₂
      refine ⟨hout, ?_⟩
      simp [hqi.symm, hv₁, hv₂, hout.ne.symm]
    rcases outside_root.lookupLoop h hs hkids ih hloop with ⟨hout, hv₁⟩ | hnone
    · -- the text names the same in both trees
      have hloop' : Tree.lookupLoop t' (jumpToLinkDirent t' c n) false (some (.root t.rootFileSystem))
          (elems (slash :: s)) = .ok (.ended (some x), v₁) := by
        refine h.frame.lookupLoop (fun o q via => h.frame.jumpToLinkDirent) (fun o q via => jumpToLinkDirent_mem)
          hloop (fun z hz heq => hv₁ (heq ▸ hz)) (fun z hz => ?_) nofun
        cases hz
        exact hout.ne
      by_cases hxlink : (t.dirent x).isLink = true
      · rcases ih x p' v₂ hout.live hxlink hx with ⟨hout', hv₂⟩ | hdiv
        · exact .inl (hleft hv₁ hout' hv₂)
        · refine .inr fun r hr => ?_
          rcases (jumpToLinkDirent_absolute_iff hlink' htext').1 hr with ⟨x', v₁', v₂', hloop'', hx', _⟩
          rw [h.root, hloop'] at hloop''
          cases hloop''
          exact hdiv _ hx'
      · rcases jumpToLinkDirent_plain (by simpa using hxlink) hx with ⟨rfl, rfl⟩
        exact .inl (hleft hv₁ hout (by simpa using hout.ne.symm))
    · refine .inr fun r hr => ?_
      rcases (jumpToLinkDirent_absolute_iff hlink' htext').1 hr with ⟨x', v₁', v₂', hloop', _⟩
      rw [h.root] at hloop'
      rcases hnone _ v₁' hloop' with ⟨_, heq⟩
      cases heq

omit hkids in
/-- If the path names nothing any more, the entry was found under its name. -/
theorem byName_of_gone (hsurvives : Survives t t' sh i c n) (hc : c.Live sh) (ho : ∀ q, o = some q → sh.Live q) {r : Walked}
    (hloop : lookupLoop t (jumpToLinkDirent t c n) false o names = .ok (.ended (some (.dirent i)), via))
    (hgone : lookupLoop t' (jumpToLinkDirent t' c n) false o names = .ok (r, via'))
    (hr : ∀ q, r ≠ .ended (some q)) : ByName t c (.dirent i) o names := by
  induction names generalizing o via via' with
  | nil =>
    cases hloop
    cases hgone
    exact absurd rfl (hr _)
  | cons name names ih =>
    unfold lookupLoop at hgone
    rcases lookupLoop_cons_ended hloop with ⟨dir, via₁, found, via₂, henter, hfound, hmore, rfl⟩
    -- a link through the entry would have failed
    have hpast : ∀ q, o = some q → (t.dirent q).isLink = true → .dirent i ∉ via₁ := by
      rintro q rfl hlink
      rcases bind_eq_ok.1 henter with ⟨⟨p', v⟩, hjump, heq⟩
      rcases Prod.mk.inj (Except.ok.inj heq) with ⟨hdir, rfl⟩
      rcases hsurvives q p' v (ho q rfl) hlink hjump with ⟨hout, hv⟩ | hdiv
      · intro hi
        rcases mem_append.1 hi with hi | hi
        · exact hv hi
        · exact (hout.cross hdir).2 hi
      · rcases bind_eq_ok.1 hgone with ⟨x, henter', _⟩
        rcases bind_eq_ok.1 henter' with ⟨x', hjump', _⟩
        exact absurd hjump' (hdiv x')
    have hPast : Past t c (.dirent i) o dir := ⟨n, via₁, henter, hpast⟩
    by_cases hself : found = .dirent i ∧ name ≠ [dot] ∧ name ≠ [dot, dot]
    · rcases hself with ⟨rfl, hdot, hdotdot⟩
      exact ByName.here hPast hfound hdot hdotdot
    · have hne : some found ≠ some (.dirent i) ∨ name = [dot] ∨ name = [dot, dot] := by
        by_contra hnot
        push Not at hnot
        exact hself ⟨Option.some.inj hnot.1, hnot.2⟩
      rw [h.enter henter hpast, ok_bind] at hgone
      dsimp only at hgone
      rw [if_neg (by simp), h.dirlookup_of_ne hfound hne, ok_bind] at hgone
      rcases bind_eq_ok.1 hgone with ⟨⟨r'', via''⟩, hgone', heq⟩
      cases heq
      refine ByName.step hPast hfound (ih (fun q hq => ?_) hmore hgone')
      cases hq
      have hclosed := hs.sound.closed hc
      have hdir : sh.Live dir := (hclosed.enter (hclosed.jumpToLinkDirent n) ho henter).1 dir rfl
      exact named_live h.rep hdir (fun _ _ => hs.sound.inner) ((dirlookup_ok_iff h.rep).1 hfound).2

end diverge

/-! ## The call -/

lemma Rep.removed (hrep : Rep t sh) (hdist : Distinct t sh) (hi : i ∈ sh.kids p)
    (hremove : eremove (Tree.unlinked t (.dirent i)) (.dirent i) = .ok t') : Removed t sh p i t' := by
  rcases (hrep.unlinked (.dirent i)).eremove_spec hi with ⟨u, hu, hrep', hsame⟩
  rw [hremove] at hu
  cases hu
  have hself : (t'.dirent (.dirent i)).content = ({ etrunc (t.dirent (.dirent i)) with ntRes := 0 } : Dirent).content := by
    rw [hsame.content, Tree.unlinked, dirent_set_self]
  refine ⟨hrep, hrep', hdist, hi, hsame.root, fun q hq => ?_, ?_, ?_⟩
  · rw [hsame.content, Tree.unlinked, dirent_set_of_ne hq]
  · exact (field_content Dirent.lasting (fun _ => rfl) hself).trans rfl
  · exact isLink_congr hself

lemma ename_follow_of_plain (hplain : ename m t c fd path false = .ok (some e, via))
    (hfollow : ename n t c fd path true = .ok (some q, via')) :
    ∃ k via'', jumpToLinkDirent t c k (some e) = .ok (q, via'') := by
  have hplain' := ok_of_le (fun n => ename_below fd path false n) (le_max_left m n) hplain
  have hfollow' := ok_of_le (fun n => ename_below fd path true n) (le_max_right m n) hfollow
  rcases ename_plain_iff.1 hplain' with ⟨o, v, hstart, hloop, _⟩
  rcases ename_follow_iff.1 hfollow' with ⟨o', x, v₁, v₂, hstart', hloop', hjump, _⟩
  rw [hstart] at hstart'
  cases hstart'
  rw [hloop] at hloop'
  cases hloop'
  exact ⟨_, v₂, hjump⟩

lemma Removed.unlinks (h : Removed t sh p i t') (hcond : Unlinkable t c fd path (.dirent i)) :
    Unlinks t c fd path (.dirent i) t' := by
  rcases hcond with ⟨hplain, hchildless, o, hstart, hby⟩
  refine ⟨?_, ?_, ?_, nofun, hchildless⟩
  · rcases h.gone hby with ⟨n, via, name, hloop⟩
    refine ⟨n, ename_none_iff.2 (.inr ⟨o, _, via, ?_, hloop, nofun⟩)⟩
    rw [h.frame.start]
    exact hstart
  · intro n c' fd' path' follow r via hname hvia
    have hne : ∀ q ∈ via, q ≠ .dirent i := fun q hq heq => hvia (heq ▸ hq)
    refine ⟨h.frame.ename hname hne fun _ => h.missing, ?_⟩
    rintro q rfl
    exact h.content q (hne q (ename_mem hname))
  · intro hlink
    rw [hplain] at hlink
    cases hlink

/-- Unlinking takes away just what the path names if the path names a file, or a directory without children, and
no link, and comes to it by its name. -/
theorem unlink_exact_iff {as : List Act} (hrun : OrderlyRun as t) (hc : c.InTree t)
    (hname : ename m t c fd path false = .ok (some e, via)) (hok : doUnlinkat n t c fd path = .ok (0, t')) :
    Unlinks t c fd path e t' ↔ Unlinkable t c fd path e := by
  rcases hrun.settled with ⟨sh, hs⟩
  have hlive := hs.sound.toRep.ctx_inTree_iff.1 hc
  rcases doUnlinkat_ok hs.sound hlive hok with ⟨_, _, hr, _⟩ | ⟨i, p, via', hfollow, hi, _, hremove⟩
  · cases hr
  have h := hs.sound.toRep.removed hs.distinct hi hremove
  -- what is removed is what the path names, if that is no link
  have hself : (t.dirent e).isLink = false → e = .dirent i := by
    intro hplain
    rcases ename_follow_of_plain hname hfollow with ⟨k, via'', hjump⟩
    exact (jumpToLinkDirent_plain hplain hjump).1.symm
  constructor
  · intro hun
    have hplain : (t.dirent e).isLink = false := by
      rw [Bool.eq_false_iff]
      intro hlink
      have htree := ((hun.link hlink).2 n _ via' hfollow).1
      rw [h.rep'.inTree_iff, hs.sound.toRep.live_freed hi] at htree
      exact htree.1 rfl
    have heq := hself hplain
    subst heq
    refine ⟨hplain, hun.childless, ?_⟩
    have hkids : ∀ j ∈ sh.kids (.dirent i), sh.kids (.dirent j) = [] := by
      intro j hj
      exact hs.sound.kids_of_childless (hun.childless _ (hs.sound.kids _) j hj).2
    rcases hun.gone with ⟨k, via₂, hnone⟩
    -- both lookups with the same fuel
    have hname' := ok_of_le (fun n => ename_below fd path false n) (le_max_left m k) hname
    have hnone' := ok_of_le (fun n => ename_below fd path false n) (le_max_right m k) hnone
    rcases ename_plain_iff.1 hname' with ⟨o, v, hstart, hloop, _⟩
    rcases ename_none_iff.1 ⟨via₂, hnone'⟩ with hstart' | ⟨o', r, v', hstart', hgone, hr⟩
    · rw [h.frame.start, hstart] at hstart'
      cases hstart'
    · rw [h.frame.start, hstart] at hstart'
      cases hstart'
      have hsurvives := survives h hs hkids hplain (c := c) (max m k)
      refine ⟨o, hstart, byName_of_gone h hs hsurvives hlive ?_ hloop hgone hr⟩
      rintro q rfl
      exact (hs.sound.closed hlive).start hstart
  · intro hcond
    have heq := hself hcond.plain
    subst heq
    exact h.unlinks hcond

/-- The path `/l` -/
def pathL : Str := [slash, 108]

def linkActs : List Act :=
  [.fatInit 0 (rootVolume []), .create rootCtx atFdcwd pathD .file 0, .linkat rootCtx atFdcwd pathD atFdcwd pathL 7]

/-- Unlinking a link to a file removes the file, and the link stays. -/
theorem unlink_removes_target : ∃ t t' via, Run Step boot linkActs t ∧
    ename 2 t rootCtx atFdcwd pathL false = .ok (some (.dirent 8190), via) ∧
    doUnlinkat 2 t rootCtx atFdcwd pathL = .ok (0, t') ∧ ¬ Unlinks t rootCtx atFdcwd pathL (.dirent 8190) t' := by
  rcases exists_of_any (o := after linkActs) (P := fun t =>
    ename 2 t rootCtx atFdcwd pathL false = .ok (some (.dirent 8190), [.root 0, .dirent 8190]) ∧
    (doUnlinkat 2 t rootCtx atFdcwd pathL).toOption.any (fun x => x.1 = 0 ∧
      ename 2 x.2 rootCtx atFdcwd pathL false = .ok (some (.dirent 8190), [.root 0, .dirent 8190])) = true)
    (by decide +kernel) with ⟨t, ht, hbefore, hun⟩
  rcases exists_of_any hun with ⟨⟨r, t'⟩, hun, hzero, hafter⟩
  obtain rfl : r = 0 := hzero
  refine ⟨t, t', _, run_after ht, hbefore, eq_ok_of_toOption hun, fun hunlinks => ?_⟩
  rcases hunlinks.gone with ⟨n, via, hgone⟩
  cases ename_unique hgone hafter

lemma linkless_empty : (rootVolume []).Linkless :=
  ⟨rootLayout [], 1, onDisk_root nofun nofun, ⟨trivial, nofun⟩, ⟨List.Pairwise.nil, nofun⟩, nofun⟩

def mkdirActs : List Act := [.fatInit 0 (rootVolume []), .create rootCtx atFdcwd pathD .dir 5]

theorem unlink_exact_mkdir : ∃ t t', OrderlyRun mkdirActs t ∧ doUnlinkat 2 t rootCtx atFdcwd pathD = .ok (0, t') ∧
    Unlinks t rootCtx atFdcwd pathD (.dirent 8191) t' := by
  set t₁ := boot.stepped (.fatInit 0 (rootVolume []))
  set t₂ := t₁.stepped (.create rootCtx atFdcwd pathD .dir 5)
  rcases exists_ok_of_fst (y := doUnlinkat 2 t₂ rootCtx atFdcwd pathD) (a := 0) (by decide +kernel) with ⟨t', h₃⟩
  have hrun : OrderlyRun mkdirActs t₂ := by
    refine .cons ⟨⟨⟨by decide +kernel, fit_empty⟩, linkless_empty⟩, step_stepped (by decide +kernel)⟩ ?_
    exact .cons ⟨⟨rootCtx_inTree _, by decide, by decide⟩, step_stepped (by decide +kernel)⟩ (.nil _)
  have hname : ename 2 t₂ rootCtx atFdcwd pathD false = .ok (some (.dirent 8191), [.root 0, .dirent 8191]) := by
    decide +kernel
  refine ⟨t₂, t', hrun, h₃, (unlink_exact_iff hrun (rootCtx_inTree _) hname h₃).2 ⟨by decide +kernel, ?_, ?_⟩⟩
  · intro l hl
    have hfirst : (t₂.dirent (.dirent 8191)).firstChild = none := by decide +kernel
    rw [hfirst] at hl
    cases hl
    nofun
  · refine ⟨some (.root 0), by decide +kernel, ?_⟩
    have hpast : Past t₂ rootCtx (.dirent 8191) (some (.root 0)) (.root 0) := by
      refine ⟨2, [.root 0], by decide +kernel, ?_⟩
      rintro q ⟨⟩ hlink
      exact absurd hlink (by decide +kernel)
    exact ByName.here hpast (by decide +kernel) (by decide) (by decide)

end Tree
end OsRiscv
