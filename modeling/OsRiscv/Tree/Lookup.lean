import OsRiscv.Lib.Fuel
import OsRiscv.Tree.Shape

/-!
# Lookup — paths, links and what a lookup depends on

Three facts carry what is proved about paths.  More fuel does not change a result.  A lookup reads nothing but
the entries it comes through, so two trees that agree on those give the same result (`Frame`).  On lists
that represent a shape, `dirlookup` is `find?` in the list of children.
-/

namespace OsRiscv
namespace Tree

open Lib List

variable {t t' : Fs} {sh : Shape} {c : Ctx} {p q : Ptr} {o : Option Ptr} {fd : Int} {path name : Str}
  {names : List Str} {via : List Ptr} {parent follow : Bool} {n m : Nat}
  {jump jump' : Option Ptr → Except Stop (Ptr × List Ptr)} {r : Option Ptr} {dir : Option Ptr} {dp : Ptr}

/-! ## Fuel -/

section fuel

variable (hjump : ∀ o, Below Stop.fuel (jump o) (jump' o))
include hjump

lemma enter_below (o : Option Ptr) : Below Stop.fuel (enter t jump o) (enter t jump' o) :=
  (hjump o).bind fun _ => .refl _

lemma lookupLoop_below (parent : Bool) (o : Option Ptr) (names : List Str) :
    Below Stop.fuel (lookupLoop t jump parent o names) (lookupLoop t jump' parent o names) := by
  induction names generalizing o with
  | nil => exact .refl _
  | cons name names ih =>
    refine (enter_below hjump o).bind ?_
    rintro ⟨dir, via⟩
    cases dir with
    | none => exact .refl _
    | some dir =>
      dsimp only
      by_cases hlast : parent = true ∧ names = []
      · rw [if_pos hlast, if_pos hlast]
        exact .refl _
      · rw [if_neg hlast, if_neg hlast]
        refine (Below.refl _).bind ?_
        intro found
        cases found with
        | none => exact .refl _
        | some found => exact (ih (some found)).bind fun _ => .refl _

lemma lookupPath_below (fd : Int) (path : Str) (parent follow : Bool) :
    Below Stop.fuel (lookupPath t c jump fd path parent follow) (lookupPath t c jump' fd path parent follow) := by
  unfold lookupPath
  cases startDirent t c fd path with
  | none => exact .refl _
  | some entry =>
    refine (lookupLoop_below hjump parent entry _).bind ?_
    rintro ⟨r, via⟩
    cases r with
    | returned entry name => exact .refl _
    | ended entry =>
      cases follow with
      | false => exact .refl _
      | true => exact (hjump entry).bind fun _ => .refl _

end fuel

lemma jumpToLinkDirent_below (n : Nat) (o : Option Ptr) :
    Below Stop.fuel (jumpToLinkDirent t c n o) (jumpToLinkDirent t c (n + 1) o) := by
  induction n generalizing o with
  | zero => exact .bot _
  | succ n ih =>
    cases o with
    | none => exact .refl _
    | some link =>
      unfold jumpToLinkDirent
      by_cases hlink : (t.dirent link).isLink = true
      · rw [if_pos hlink, if_pos hlink]
        refine (Below.refl _).bind fun buf => (lookupPath_below ih _ _ _ _).bind ?_
        rintro ⟨p, name, via⟩
        exact (ih p).bind fun _ => .refl _
      · rw [if_neg hlink, if_neg hlink]
        exact .refl _

lemma ename_below (fd : Int) (path : Str) (follow : Bool) (n : Nat) :
    Below Stop.fuel (ename n t c fd path follow) (ename (n + 1) t c fd path follow) :=
  (lookupPath_below (jumpToLinkDirent_below n) fd path false follow).bind fun _ => .refl _

lemma ename_unique {m : Nat} {path : Str} {follow : Bool} {x y : Option Ptr × List Ptr}
    (hx : ename m t c fd path follow = .ok x) (hy : ename n t c fd path follow = .ok y) : x = y :=
  ok_unique (fun n => ename_below fd path follow n) hx hy

lemma enameparent_below (fd : Int) (path : Str) (n : Nat) :
    Below Stop.fuel (enameparent n t c fd path) (enameparent (n + 1) t c fd path) :=
  (lookupPath_below (jumpToLinkDirent_below n) fd path true true).bind fun _ => .refl _

/-! ## The entries a lookup comes through -/

/-- A call returns a plain entry at once, or looks up the text of a link and calls itself. -/
theorem jumpToLinkDirent_succ (h : jumpToLinkDirent t c (n + 1) o = .ok (q, via)) : ∃ link, o = some link ∧
    (((t.dirent link).isLink = true ∧ ∃ buf p name via₁ via₂, readLink (t.dirent link) = .ok buf ∧
      lookupPath t c (jumpToLinkDirent t c n) atFdcwd buf false true = .ok (p, name, via₁) ∧
      jumpToLinkDirent t c n p = .ok (q, via₂) ∧ via = link :: via₁ ++ via₂) ∨
    ((t.dirent link).isLink = false ∧ q = link ∧ via = [link])) := by
  cases o with
  | none => cases h
  | some link =>
    unfold jumpToLinkDirent at h
    split at h
    · rename_i hlink
      rcases bind_eq_ok.1 h with ⟨buf, hbuf, hpath⟩
      rcases bind_eq_ok.1 hpath with ⟨⟨p, name, via₁⟩, h₁, hnext⟩
      rcases bind_eq_ok.1 hnext with ⟨⟨q', via₂⟩, h₂, heq⟩
      cases heq
      exact ⟨link, rfl, .inl ⟨hlink, buf, p, name, via₁, via₂, hbuf, h₁, h₂, rfl⟩⟩
    · rename_i hlink
      cases h
      exact ⟨q, rfl, .inr ⟨by simpa using hlink, rfl, rfl⟩⟩

lemma jumpToLinkDirent_mem (h : jumpToLinkDirent t c n o = .ok (q, via)) : q ∈ via ∧ ∃ p ∈ via, o = some p := by
  induction n generalizing o q via with
  | zero => cases h
  | succ n ih =>
    rcases jumpToLinkDirent_succ h with ⟨link, rfl, ⟨_, _, _, _, _, _, _, _, h₂, rfl⟩ | ⟨_, rfl, rfl⟩⟩
    · have hq := (ih h₂).1
      exact ⟨by simp [hq], link, by simp, rfl⟩
    · simp

/-- A round of the loop: it returns, or goes on with the entry it found. -/
theorem lookupLoop_cons {w : Walked} (h : lookupLoop t jump parent o (name :: names) = .ok (w, via)) :
    ∃ dir via₁, enter t jump o = .ok (dir, via₁) ∧
      ((via = via₁ ∧ ∃ r, w = .returned r name ∧ (r = none ∨ parent = true ∧ names = [] ∧ r = dir)) ∨
      ∃ p found via₂, dir = some p ∧ dirlookup t p name = .ok (some found) ∧
        lookupLoop t jump parent (some found) names = .ok (w, via₂) ∧ via = via₁ ++ via₂) := by
  rcases bind_eq_ok.1 h with ⟨⟨dir, via₁⟩, henter, hrest⟩
  refine ⟨dir, via₁, henter, ?_⟩
  cases dir with
  | none =>
    cases hrest
    exact .inl ⟨rfl, none, rfl, .inl rfl⟩
  | some p =>
    dsimp only at hrest
    split at hrest
    · rename_i hlast
      cases hrest
      exact .inl ⟨rfl, some p, rfl, .inr ⟨hlast.1, hlast.2, rfl⟩⟩
    · rcases bind_eq_ok.1 hrest with ⟨found, hfound, hmore⟩
      cases found with
      | none =>
        cases hmore
        exact .inl ⟨rfl, none, rfl, .inl rfl⟩
      | some found =>
        rcases bind_eq_ok.1 hmore with ⟨⟨r', more⟩, hloop, heq⟩
        cases heq
        exact .inr ⟨p, found, more, rfl, hfound, hloop, rfl⟩

section mem

variable (hmem : ∀ o q via, jump o = .ok (q, via) → q ∈ via ∧ ∃ p ∈ via, o = some p)
include hmem

lemma enter_mem (h : enter t jump o = .ok (dir, via)) :
    (∀ d, dir = some d → d ∈ via) ∧ ∃ p ∈ via, o = some p := by
  rcases bind_eq_ok.1 h with ⟨⟨p, via₁⟩, h₁, h⟩
  cases h
  rcases hmem o p via₁ h₁ with ⟨hp, q, hq, rfl⟩
  refine ⟨fun d hd => ?_, q, mem_append_left _ hq, rfl⟩
  unfold cross at hd ⊢
  split at hd
  · cases hd
  · cases hhead : (t.dirent p).head with
    | none =>
      rw [hhead] at hd
      cases hd
      exact mem_append_left _ hp
    | some k =>
      simp_all

lemma lookupLoop_mem {r : Walked} (h : lookupLoop t jump parent (some p) names = .ok (r, via)) :
    r = .ended (some p) ∨ p ∈ via := by
  cases names with
  | nil =>
    cases h
    exact .inl rfl
  | cons name names =>
    rcases lookupLoop_cons h with ⟨dir, via₁, henter, hround⟩
    rcases (enter_mem hmem henter).2 with ⟨_, hp, heq⟩
    cases heq
    rcases hround with ⟨rfl, _⟩ | ⟨_, _, via₂, _, _, _, rfl⟩
    · exact .inr hp
    · exact .inr (mem_append_left _ hp)

end mem

/-! ## The results -/

lemma jumpToLinkDirent_isLink (h : jumpToLinkDirent t c n o = .ok (q, via)) : (t.dirent q).isLink = false := by
  induction n generalizing o q via with
  | zero => cases h
  | succ n ih =>
    rcases jumpToLinkDirent_succ h with ⟨link, rfl, ⟨_, _, _, _, _, _, _, _, h₂, rfl⟩ | ⟨hlink, rfl, rfl⟩⟩
    · exact ih h₂
    · exact hlink

lemma jumpToLinkDirent_plain (hlink : (t.dirent q).isLink = false)
    (hjump : jumpToLinkDirent t c n (some q) = .ok (p, via)) : p = q ∧ via = [q] := by
  cases n with
  | zero => cases hjump
  | succ n =>
    unfold jumpToLinkDirent at hjump
    rw [if_neg (by simp [hlink])] at hjump
    cases hjump
    exact ⟨rfl, rfl⟩

lemma lookupLoop_cons_ended (h : lookupLoop t jump parent o (name :: names) = .ok (.ended r, via)) :
    ∃ dir via₁ found via₂, enter t jump o = .ok (some dir, via₁) ∧ dirlookup t dir name = .ok (some found) ∧
      lookupLoop t jump parent (some found) names = .ok (.ended r, via₂) ∧ via = via₁ ++ via₂ := by
  rcases lookupLoop_cons h with ⟨dir, via₁, henter, ⟨_, r', hr, _⟩ | ⟨p, found, via₂, rfl, hfound, hloop, hvia⟩⟩
  · cases hr
  · exact ⟨p, via₁, found, via₂, henter, hfound, hloop, hvia⟩

lemma lookupLoop_returned (h : lookupLoop t jump false o names = .ok (.returned r name, via)) :
    r = none := by
  induction names generalizing o via with
  | nil => cases h
  | cons first names ih =>
    rcases lookupLoop_cons h with ⟨_, _, _, ⟨_, r', heq, hnone | hparent⟩ | ⟨_, _, _, _, _, hloop, _⟩⟩
    · cases heq
      exact hnone
    · cases hparent.1
    · exact ih hloop

lemma lookupPath_follow_iff : lookupPath t c jump fd path false true = .ok (some q, name, via) ↔
    name = [] ∧ ∃ o x via₁ via₂, startDirent t c fd path = some o ∧
      lookupLoop t jump false o (elems path) = .ok (.ended x, via₁) ∧ jump x = .ok (q, via₂) ∧ via = via₁ ++ via₂ := by
  unfold lookupPath
  constructor
  · intro h
    cases hstart : startDirent t c fd path with
    | none =>
      rw [hstart] at h
      cases h
    | some o =>
      rw [hstart] at h
      rcases bind_eq_ok.1 h with ⟨⟨w, via₁⟩, hloop, hrest⟩
      cases w with
      | returned entry name' =>
        rw [lookupLoop_returned hloop] at hrest
        cases hrest
      | ended x =>
        rcases bind_eq_ok.1 hrest with ⟨⟨p, via₂⟩, hjump, heq⟩
        cases heq
        exact ⟨rfl, o, x, via₁, via₂, rfl, hloop, hjump, rfl⟩
  · rintro ⟨rfl, o, x, via₁, via₂, hstart, hloop, hjump, rfl⟩
    rw [hstart]
    dsimp only
    rw [hloop, ok_bind]
    dsimp only
    rw [if_pos rfl, hjump]
    rfl

lemma lookupPath_plain_iff : lookupPath t c jump fd path false false = .ok (some q, name, via) ↔
    name = [] ∧ ∃ o via₁, startDirent t c fd path = some o ∧
      lookupLoop t jump false o (elems path) = .ok (.ended (some q), via₁) ∧ via = via₁ ++ [q] := by
  unfold lookupPath
  constructor
  · intro h
    cases hstart : startDirent t c fd path with
    | none =>
      rw [hstart] at h
      cases h
    | some o =>
      rw [hstart] at h
      rcases bind_eq_ok.1 h with ⟨⟨w, via₁⟩, hloop, hrest⟩
      cases w with
      | returned entry name' =>
        rw [lookupLoop_returned hloop] at hrest
        cases hrest
      | ended x =>
        cases hrest
        exact ⟨rfl, o, via₁, rfl, hloop, rfl⟩
  · rintro ⟨rfl, o, via₁, hstart, hloop, rfl⟩
    rw [hstart]
    dsimp only
    rw [hloop]
    rfl

lemma ename_follow_iff : ename n t c fd path true = .ok (some q, via) ↔
    ∃ o x via₁ via₂, startDirent t c fd path = some o ∧
      lookupLoop t (jumpToLinkDirent t c n) false o (elems path) = .ok (.ended x, via₁) ∧
      jumpToLinkDirent t c n x = .ok (q, via₂) ∧ via = via₁ ++ via₂ := by
  unfold ename
  constructor
  · intro h
    rcases bind_eq_ok.1 h with ⟨⟨p, name, via'⟩, hpath, heq⟩
    cases heq
    exact (lookupPath_follow_iff.1 hpath).2
  · intro h
    rw [lookupPath_follow_iff.2 ⟨rfl, h⟩]
    rfl

lemma ename_plain_iff : ename n t c fd path false = .ok (some q, via) ↔ ∃ o via₁, startDirent t c fd path = some o ∧
      lookupLoop t (jumpToLinkDirent t c n) false o (elems path) = .ok (.ended (some q), via₁) ∧ via = via₁ ++ [q] := by
  unfold ename
  constructor
  · intro h
    rcases bind_eq_ok.1 h with ⟨⟨p, name, via'⟩, hpath, heq⟩
    cases heq
    exact (lookupPath_plain_iff.1 hpath).2
  · intro h
    rw [lookupPath_plain_iff.2 ⟨rfl, h⟩]
    rfl

lemma ename_mem {follow : Bool} (h : ename n t c fd path follow = .ok (some q, via)) : q ∈ via := by
  cases follow with
  | false =>
    rcases ename_plain_iff.1 h with ⟨_, _, _, _, rfl⟩
    simp
  | true =>
    rcases ename_follow_iff.1 h with ⟨_, _, _, _, _, _, hjump, rfl⟩
    exact mem_append_right _ (jumpToLinkDirent_mem hjump).1

lemma ename_none_iff : (∃ via, ename n t c fd path false = .ok (none, via)) ↔
    startDirent t c fd path = none ∨ ∃ o r via, startDirent t c fd path = some o ∧
      lookupLoop t (jumpToLinkDirent t c n) false o (elems path) = .ok (r, via) ∧ ∀ q, r ≠ .ended (some q) := by
  unfold ename lookupPath
  cases hstart : startDirent t c fd path with
  | none => simp [bind, Except.bind, pure, Except.pure]
  | some o =>
    dsimp only
    constructor
    · rintro ⟨via, h⟩
      rcases bind_eq_ok.1 h with ⟨⟨p, name, via'⟩, hpath, heq⟩
      cases heq
      rcases bind_eq_ok.1 hpath with ⟨⟨w, via₁⟩, hloop, hrest⟩
      refine .inr ⟨o, w, via₁, rfl, hloop, ?_⟩
      rintro q rfl
      cases hrest
    · rintro (h | ⟨o', r, via, heq, hloop, hr⟩)
      · cases h
      · cases heq
        rw [hloop, ok_bind]
        cases r with
        | returned entry name =>
          rw [lookupLoop_returned hloop]
          exact ⟨_, rfl⟩
        | ended entry =>
          cases entry with
          | none => exact ⟨_, rfl⟩
          | some q => exact absurd rfl (hr q)

lemma ename_isLink (h : ename n t c fd path true = .ok (some q, via)) : (t.dirent q).isLink = false := by
  rcases ename_follow_iff.1 h with ⟨_, _, _, _, _, _, hjump, _⟩
  exact jumpToLinkDirent_isLink hjump

/-- Following a link with an absolute path: the path is looked up from the root. -/
theorem jumpToLinkDirent_absolute_iff {s : Str} (hlink : (t.dirent q).isLink = true)
    (htext : readLink (t.dirent q) = .ok (slash :: s)) : jumpToLinkDirent t c (n + 1) (some q) = .ok (p, via) ↔
      ∃ x via₁ via₂, lookupLoop t (jumpToLinkDirent t c n) false (some (.root t.rootFileSystem)) (elems (slash :: s)) =
          .ok (.ended (some x), via₁) ∧ jumpToLinkDirent t c n (some x) = .ok (p, via₂) ∧
        via = q :: (via₁ ++ via₂) ++ [p] := by
  have hroot : startDirent t c atFdcwd (slash :: s) = some (some (.root t.rootFileSystem)) := by
    simp [startDirent]
  conv_lhs => unfold jumpToLinkDirent
  rw [if_pos hlink, htext, ok_bind]
  constructor
  · intro h
    rcases bind_eq_ok.1 h with ⟨⟨found, name, via₁⟩, hpath, hnext⟩
    rcases bind_eq_ok.1 hnext with ⟨⟨last, via₂⟩, hlast, heq⟩
    cases heq
    rcases (jumpToLinkDirent_mem hlast).2 with ⟨y, _, rfl⟩
    rcases lookupPath_follow_iff.1 hpath with ⟨_, o, x, v₁, v₂, hstart, hloop, hy, rfl⟩
    cases hstart
    rcases (jumpToLinkDirent_mem hy).2 with ⟨x, _, rfl⟩
    -- what the text names is no link any more
    rcases jumpToLinkDirent_plain (jumpToLinkDirent_isLink hy) hlast with ⟨rfl, rfl⟩
    exact ⟨x, v₁, v₂, hloop, hy, rfl⟩
  · rintro ⟨x, v₁, v₂, hloop, hx, rfl⟩
    have hpath := lookupPath_follow_iff.2 ⟨rfl, _, _, v₁, v₂, hroot, hloop, hx, rfl⟩
    rw [hpath, ok_bind]
    dsimp only
    cases n with
    | zero => cases hx
    | succ n =>
      have hplain := jumpToLinkDirent_isLink hx
      conv_lhs => unfold jumpToLinkDirent
      rw [if_neg (by simp [hplain])]
      rfl

lemma lookupLoop_name (h : lookupLoop t jump parent o names = .ok (.returned r name, via)) :
    name ∈ names := by
  induction names generalizing o via with
  | nil => cases h
  | cons first names ih =>
    rcases lookupLoop_cons h with ⟨_, _, _, ⟨_, r', heq, _⟩ | ⟨_, _, _, _, _, hloop, _⟩⟩
    · cases heq
      exact mem_cons_self
    · exact mem_cons_of_mem _ (ih hloop)

lemma enameparent_ok (h : enameparent n t c fd path = .ok (some dp, name)) : ∃ o via, startDirent t c fd path = some o ∧
    lookupLoop t (jumpToLinkDirent t c n) true o (elems path) = .ok (.returned (some dp) name, via) := by
  rcases bind_eq_ok.1 h with ⟨⟨p, name', via₁⟩, hpath, heq⟩
  cases heq
  unfold lookupPath at hpath
  cases hstart : startDirent t c fd path with
  | none =>
    rw [hstart] at hpath
    cases hpath
  | some entry =>
    rw [hstart] at hpath
    rcases bind_eq_ok.1 hpath with ⟨⟨w, via₂⟩, hloop, hrest⟩
    cases w with
    | returned entry' name' =>
      cases hrest
      exact ⟨entry, via₁, rfl, hloop⟩
    | ended entry' =>
      rcases bind_eq_ok.1 hrest with ⟨⟨p', more⟩, _, heq⟩
      cases heq

lemma enameparent_name (h : enameparent n t c fd path = .ok (some dp, name)) : name ∈ elems path := by
  rcases enameparent_ok h with ⟨_, _, _, hloop⟩
  exact lookupLoop_name hloop

lemma skipelem_subset {rest : Str} (h : skipelem path = some (name, rest)) : name ⊆ path ∧ rest ⊆ path := by
  unfold skipelem at h
  dsimp only at h
  split at h
  · cases h
  · cases h
    have hdrop : path.dropWhile (· = slash) ⊆ path := (dropWhile_sublist _).subset
    refine ⟨fun x hx => ?_, fun x hx => ?_⟩
    · exact hdrop ((takeWhile_sublist _).subset (mem_of_mem_take hx))
    · exact hdrop ((dropWhile_sublist _).subset ((dropWhile_sublist _).subset hx))

lemma elemsLoop_subset (hname : name ∈ elemsLoop n path) : name ⊆ path := by
  induction n generalizing path with
  | zero => cases hname
  | succ n ih =>
    unfold elemsLoop at hname
    split at hname
    · cases hname
    · rename_i first rest hskip
      rcases mem_cons.1 hname with rfl | hname
      · exact (skipelem_subset hskip).1
      · exact fun x hx => (skipelem_subset hskip).2 (ih hname hx)

/-- How a loop ends whose last name is looked up with the result `r`. -/
def lastFound (name : Str) : Option Ptr → Walked
  | some q => .ended (some q)
  | none => .returned none name

/-- The search for an entry goes on where the search for its parent returns. -/
theorem lookupLoop_parent
    (h : lookupLoop t jump true o names = .ok (.returned (some dp) name, via)) (hr : dirlookup t dp name = .ok r) :
    lookupLoop t jump false o names = .ok (lastFound name r, via) := by
  induction names generalizing o via with
  | nil => cases h
  | cons first names ih =>
    unfold lookupLoop at h ⊢
    rcases bind_eq_ok.1 h with ⟨⟨dir, via₁⟩, henter, hrest⟩
    rw [henter, ok_bind]
    cases dir with
    | none => cases hrest
    | some dir =>
      dsimp only at hrest ⊢
      split at hrest
      · rename_i hlast
        cases hrest
        rw [hlast.2, hr, ok_bind]
        cases r with
        | none => rfl
        | some q =>
          unfold lookupLoop
          dsimp only
          rw [ok_bind, append_nil]
          rfl
      · rcases bind_eq_ok.1 hrest with ⟨found, hfound, hmore⟩
        rw [hfound, ok_bind]
        cases found with
        | none => cases hmore
        | some found =>
          rcases bind_eq_ok.1 hmore with ⟨⟨r', more⟩, hloop, heq⟩
          cases heq
          dsimp only
          rw [ih hloop]
          rfl

lemma ename_of_enameparent (h : enameparent n t c fd path = .ok (some dp, name))
    (hr : dirlookup t dp name = .ok r) : ∃ via, ename n t c fd path false = .ok (r, via) := by
  rcases enameparent_ok h with ⟨o, via, hstart, hloop⟩
  unfold ename lookupPath
  rw [hstart]
  dsimp only
  rw [lookupLoop_parent hloop hr, ok_bind]
  cases r with
  | none => exact ⟨_, rfl⟩
  | some q => exact ⟨_, rfl⟩

/-! ## What a lookup reads -/

/-- The two trees agree on the entries in `S`, and on the names in them that lead to `S`. -/
structure Frame (t t' : Fs) (S : Ptr → Prop) : Prop where
  root : t'.rootFileSystem = t.rootFileSystem
  isDir : ∀ p, S p → (t'.dirent p).isDir = (t.dirent p).isDir
  head : ∀ p, S p → (t'.dirent p).head = (t.dirent p).head
  isLink : ∀ p, S p → (t'.dirent p).isLink = (t.dirent p).isLink
  text : ∀ p, S p → (t.dirent p).isLink = true → readLink (t'.dirent p) = readLink (t.dirent p)
  found : ∀ p name q, S p → S q → dirlookup t p name = .ok (some q) → dirlookup t' p name = .ok (some q)

/-- They also agree on the names that are not there. -/
def Missing (t t' : Fs) (S : Ptr → Prop) : Prop :=
  ∀ p name, S p → dirlookup t p name = .ok none → dirlookup t' p name = .ok none

namespace Frame

variable {S : Ptr → Prop}

lemma start (hF : Frame t t' S) : startDirent t' c fd path = startDirent t c fd path := by
  unfold startDirent
  rw [hF.root]

lemma cross (hF : Frame t t' S) (hp : S p) : Tree.cross t' p = Tree.cross t p := by
  unfold Tree.cross
  rw [hF.isDir p hp, hF.head p hp]

section loop

variable (hF : Frame t t' S)
  (hjump : ∀ o q via, jump o = .ok (q, via) → (∀ p ∈ via, S p) → jump' o = .ok (q, via))
  (hmem : ∀ o q via, jump o = .ok (q, via) → q ∈ via ∧ ∃ p ∈ via, o = some p)
include hF hjump hmem

lemma enter (h : Tree.enter t jump o = .ok (dir, via)) (hvia : ∀ p ∈ via, S p) :
    Tree.enter t' jump' o = .ok (dir, via) := by
  rcases bind_eq_ok.1 h with ⟨⟨p, via₁⟩, h₁, h⟩
  cases h
  have hvia₁ : ∀ q ∈ via₁, S q := fun q hq => hvia q (mem_append_left _ hq)
  unfold Tree.enter
  rw [hjump o p via₁ h₁ hvia₁, ok_bind]
  dsimp only
  rw [hF.cross (hvia₁ p (hmem o p via₁ h₁).1)]
  rfl

lemma lookupLoop {r : Walked} (h : Tree.lookupLoop t jump parent o names = .ok (r, via))
    (hvia : ∀ p ∈ via, S p) (hend : ∀ p, r = .ended (some p) → S p)
    (hnone : ∀ name, r = .returned none name → Missing t t' S) :
    Tree.lookupLoop t' jump' parent o names = .ok (r, via) := by
  induction names generalizing o via with
  | nil =>
    cases h
    rfl
  | cons name names ih =>
    unfold Tree.lookupLoop at h ⊢
    rcases bind_eq_ok.1 h with ⟨⟨dir, via₁⟩, h₁, h⟩
    cases dir with
    | none =>
      cases h
      rw [hF.enter hjump hmem h₁ hvia]
      rfl
    | some dir =>
      dsimp only at h
      by_cases hlast : parent = true ∧ names = []
      · rw [if_pos hlast] at h
        cases h
        rw [hF.enter hjump hmem h₁ hvia]
        exact if_pos hlast
      · rw [if_neg hlast] at h
        rcases bind_eq_ok.1 h with ⟨found, hfound, h⟩
        have hdir := (enter_mem hmem h₁).1 dir rfl
        cases found with
        | none =>
          cases h
          rw [hF.enter hjump hmem h₁ hvia, ok_bind]
          dsimp only
          rw [if_neg hlast, hnone name rfl dir name (hvia dir hdir) hfound]
          rfl
        | some found =>
          rcases bind_eq_ok.1 h with ⟨⟨r', more⟩, hrest, h⟩
          cases h
          have hvia₁ : ∀ p ∈ via₁, S p := fun p hp => hvia p (mem_append_left _ hp)
          have hmore : ∀ p ∈ more, S p := fun p hp => hvia p (mem_append_right _ hp)
          -- the entry that was found is come through next, or it is the end
          have hS : S found := by
            rcases lookupLoop_mem hmem hrest with rfl | hin
            · exact hend found rfl
            · exact hmore found hin
          rw [hF.enter hjump hmem h₁ hvia₁, ok_bind]
          dsimp only
          rw [if_neg hlast, hF.found dir name found (hvia₁ dir hdir) hS hfound, ok_bind]
          dsimp only
          rw [ih hrest hmore]
          rfl

lemma lookupPath (h : Tree.lookupPath t c jump fd path parent follow = .ok (r, name, via))
    (hvia : ∀ p ∈ via, S p) (hnone : r = none → Missing t t' S) :
    Tree.lookupPath t' c jump' fd path parent follow = .ok (r, name, via) := by
  unfold Tree.lookupPath at h ⊢
  rw [hF.start]
  cases hstart : startDirent t c fd path with
  | none =>
    rw [hstart] at h
    exact h
  | some entry =>
    rw [hstart] at h
    dsimp only at h ⊢
    rcases bind_eq_ok.1 h with ⟨⟨w, via₁⟩, hloop, h⟩
    cases w with
    | returned entry' name' =>
      cases h
      rw [hF.lookupLoop hjump hmem hloop hvia (fun p hp => by cases hp) fun name' hr => by
        cases hr
        exact hnone rfl]
      rfl
    | ended entry' =>
      cases follow with
      | false =>
        cases h
        have hvia₁ : ∀ p ∈ via₁, S p := fun p hp => hvia p (mem_append_left _ hp)
        rw [hF.lookupLoop hjump hmem hloop hvia₁ (fun p hp => by
          cases hp
          exact hvia p (mem_append_right _ (by simp))) fun name' hr => by cases hr]
        rfl
      | true =>
        rcases bind_eq_ok.1 h with ⟨⟨q, more⟩, hq, h⟩
        cases h
        have hvia₁ : ∀ p ∈ via₁, S p := fun p hp => hvia p (mem_append_left _ hp)
        have hmore : ∀ p ∈ more, S p := fun p hp => hvia p (mem_append_right _ hp)
        rw [hF.lookupLoop hjump hmem hloop hvia₁ (fun p hp => by
          cases hp
          rcases (hmem _ _ _ hq).2 with ⟨p', hp', heq⟩
          cases heq
          exact hmore p hp') fun name' hr => by cases hr]
        show (jump' entry' >>= _) = _
        rw [hjump _ _ _ hq hmore]
        rfl

end loop

lemma jumpToLinkDirent (hF : Frame t t' S) (h : Tree.jumpToLinkDirent t c n o = .ok (q, via))
    (hvia : ∀ p ∈ via, S p) : Tree.jumpToLinkDirent t' c n o = .ok (q, via) := by
  induction n generalizing o q via with
  | zero => cases h
  | succ n ih =>
    rcases jumpToLinkDirent_succ h with
      ⟨link, rfl, ⟨hlink, buf, p, name, via₁, via₂, hbuf, h₁, h₂, rfl⟩ | ⟨hlink, rfl, rfl⟩⟩
    · have hS : S link := hvia link (by simp)
      have hvia₁ : ∀ p ∈ via₁, S p := fun p hp => hvia p (by simp [hp])
      have hvia₂ : ∀ p ∈ via₂, S p := fun p hp => hvia p (by simp [hp])
      -- the link is followed, so the lookup of its text has found something
      have hsome : p ≠ none := by
        rintro rfl
        rcases (jumpToLinkDirent_mem h₂).2 with ⟨_, _, heq⟩
        cases heq
      unfold Tree.jumpToLinkDirent
      rw [if_pos (by rw [hF.isLink link hS]; exact hlink), hF.text link hS hlink, hbuf, ok_bind,
        hF.lookupPath (fun o q via => ih) (fun o q via => jumpToLinkDirent_mem) h₁ hvia₁
          fun hp => absurd hp hsome, ok_bind]
      dsimp only
      rw [ih h₂ hvia₂]
      rfl
    · unfold Tree.jumpToLinkDirent
      rw [if_neg (by rw [hF.isLink q (hvia q (by simp)), hlink]; decide)]

lemma ename (hF : Frame t t' S) (h : Tree.ename n t c fd path follow = .ok (r, via))
    (hvia : ∀ p ∈ via, S p) (hnone : r = none → Missing t t' S) :
    Tree.ename n t' c fd path follow = .ok (r, via) := by
  rcases bind_eq_ok.1 h with ⟨⟨p, name, via₁⟩, h₁, h⟩
  cases h
  unfold Tree.ename
  rw [hF.lookupPath (fun o q via => hF.jumpToLinkDirent) (fun o q via => jumpToLinkDirent_mem) h₁ hvia hnone]
  rfl

end Frame

/-! ## Directories -/

/-- The child of a name, in the list of the children. -/
def childNamed (t : Fs) (kids : List Nat) (name : Str) : Option Nat :=
  kids.find? fun i => sameName (t.dirent (.dirent i)).filename name

/-- What a name in a directory stands for. -/
def named (t : Fs) (sh : Shape) (p : Ptr) (name : Str) : Option Ptr :=
  if name = [dot] then some p
  else if name = [dot, dot] then
    if p = .root (t.dirent p).fileSystem then some p else (t.dirent p).parent
  else (childNamed t (sh.kids p) name).map Ptr.dirent

/-- `dirlookup` in a tree of which the shape is known. -/
theorem dirlookup_eq (h : Rep t sh) (p : Ptr) (name : Str) : dirlookup t p name =
      if (t.dirent p).isDir = false then .error .notDir else .ok (named t sh p name) := by
  unfold dirlookup named childNamed
  dsimp only
  rw [(h.kids p).search_eq (h.length_kids p)]
  split
  · rfl
  · split
    · rfl
    · split
      · split
        · rename_i hroot
          rw [← hroot]
        · rfl
      · rfl

lemma dirlookup_ok_iff (h : Rep t sh) :
    dirlookup t p name = .ok r ↔ (t.dirent p).isDir = true ∧ named t sh p name = r := by
  rw [dirlookup_eq h]
  cases (t.dirent p).isDir with
  | false => simp
  | true => simp

namespace Shape

/-- In the tree, as a child or as a root. -/
def Live (sh : Shape) : Ptr → Prop
  | .root _ => True
  | .dirent i => ∃ p, i ∈ sh.kids p

end Shape

lemma childNamed_mem {kids : List Nat} {i : Nat} (h : childNamed t kids name = some i) : i ∈ kids :=
  mem_of_find?_eq_some h

lemma named_live (h : Rep t sh) (hp : sh.Live p) (hin : ∀ q i, i ∈ sh.kids q → sh.Live q)
    (hq : named t sh p name = some q) : sh.Live q := by
  unfold named at hq
  split at hq
  · cases hq
    exact hp
  · split at hq
    · split at hq
      · cases hq
        exact hp
      · cases p with
        | root k => rw [h.rootless k] at hq; cases hq
        | dirent i =>
          rcases hp with ⟨d, hd⟩
          rw [h.parent d i hd] at hq
          cases hq
          exact hin _ i hd
    · rcases Option.map_eq_some_iff.1 hq with ⟨i, hi, rfl⟩
      exact ⟨p, childNamed_mem hi⟩

/-! ## Lookups stay in the tree -/

/-- The directories that the process refers to are in the tree. -/
def Ctx.Live (sh : Shape) (c : Ctx) : Prop :=
  sh.Live c.cwd ∧ ∀ fd p, c.ofile fd = some (some p) → sh.Live p

/-- A set of entries that no lookup of the process leaves. -/
structure Closed (t : Fs) (c : Ctx) (S : Ptr → Prop) : Prop where
  roots : ∀ k, S (.root k)
  found : ∀ p name q, S p → dirlookup t p name = .ok (some q) → S q
  cwd : S c.cwd
  files : ∀ fd p, c.ofile fd = some (some p) → S p

lemma Rep.closed (h : Rep t sh) (hin : ∀ q i, i ∈ sh.kids q → sh.Live q) (hc : c.Live sh) : Closed t c sh.Live where
  roots := fun _ => trivial
  found := fun _ _ _ hp hq => named_live h hp hin ((dirlookup_ok_iff h).1 hq).2
  cwd := hc.1
  files := hc.2

/-- How a loop over `S` ends. -/
def Walked.In (S : Ptr → Prop) : Walked → Prop
  | .ended entry => ∀ q, entry = some q → S q
  | .returned entry _ => ∀ q, entry = some q → S q

namespace Closed

variable {S : Ptr → Prop} (h : Closed t c S)
include h

lemma start (hstart : startDirent t c fd path = some (some p)) : S p := by
  unfold startDirent at hstart
  split at hstart
  · exact h.files _ p hstart
  · split at hstart
    · cases hstart
      exact h.roots _
    · split at hstart
      · cases hstart
        exact h.cwd
      · cases hstart

lemma cross (hp : S p) : (∀ q, (Tree.cross t p).1 = some q → S q) ∧ ∀ q ∈ (Tree.cross t p).2, S q := by
  unfold Tree.cross
  split
  · exact ⟨nofun, nofun⟩
  · split
    · refine ⟨fun q hq => ?_, fun q hq => ?_⟩
      · cases hq
        exact h.roots _
      · rw [mem_singleton.1 hq]
        exact h.roots _
    · refine ⟨fun q hq => ?_, nofun⟩
      cases hq
      exact hp

section loop

variable (hjump : ∀ o q via, (∀ p, o = some p → S p) → jump o = .ok (q, via) → S q ∧ ∀ p ∈ via, S p)
include hjump

lemma enter (ho : ∀ p, o = some p → S p) (henter : Tree.enter t jump o = .ok (dir, via)) :
    (∀ d, dir = some d → S d) ∧ ∀ p ∈ via, S p := by
  rcases bind_eq_ok.1 henter with ⟨⟨p, via₁⟩, hp, heq⟩
  cases heq
  rcases hjump o p via₁ ho hp with ⟨hp, hvia⟩
  refine ⟨(h.cross hp).1, fun q hq => ?_⟩
  rcases mem_append.1 hq with hq | hq
  · exact hvia q hq
  · exact (h.cross hp).2 q hq

lemma lookupLoop {r : Walked} (ho : ∀ p, o = some p → S p)
    (hloop : Tree.lookupLoop t jump parent o names = .ok (r, via)) : r.In S ∧ ∀ p ∈ via, S p := by
  induction names generalizing o via with
  | nil =>
    cases hloop
    exact ⟨ho, nofun⟩
  | cons name names ih =>
    rcases lookupLoop_cons hloop with ⟨dir, via₁, henter, hround⟩
    rcases h.enter hjump ho henter with ⟨hdir, hvia⟩
    rcases hround with ⟨rfl, r, rfl, rfl | ⟨_, _, rfl⟩⟩ | ⟨p, found, via₂, rfl, hfound, hrest, rfl⟩
    · exact ⟨nofun, hvia⟩
    · exact ⟨hdir, hvia⟩
    · have hS : S found := h.found p name found (hdir p rfl) hfound
      rcases ih (fun q hq => by cases hq; exact hS) hrest with ⟨hr, hmore⟩
      refine ⟨hr, fun p hp => ?_⟩
      rcases mem_append.1 hp with hp | hp
      · exact hvia p hp
      · exact hmore p hp

lemma lookupPath (hpath : Tree.lookupPath t c jump fd path parent follow = .ok (r, name, via)) :
    (∀ q, r = some q → S q) ∧ ∀ p ∈ via, S p := by
  unfold Tree.lookupPath at hpath
  cases hstart : startDirent t c fd path with
  | none =>
    rw [hstart] at hpath
    cases hpath
    exact ⟨nofun, nofun⟩
  | some entry =>
    rw [hstart] at hpath
    rcases bind_eq_ok.1 hpath with ⟨⟨w, via₁⟩, hloop, hrest⟩
    have ho : ∀ p, entry = some p → S p := by
      rintro p rfl
      exact h.start hstart
    rcases h.lookupLoop hjump ho hloop with ⟨hw, hvia⟩
    cases w with
    | returned entry' name' =>
      cases hrest
      exact ⟨hw, hvia⟩
    | ended entry' =>
      cases follow with
      | false =>
        cases hrest
        refine ⟨fun q hq => ?_, fun p hp => ?_⟩
        · split at hq
          · cases hq
          · exact hw q hq
        · rcases mem_append.1 hp with hp | hp
          · exact hvia p hp
          · exact hw p (Option.mem_toList.1 hp)
      | true =>
        rcases bind_eq_ok.1 hrest with ⟨⟨p, more⟩, hp, heq⟩
        cases heq
        rcases hjump entry' p more hw hp with ⟨hp, hmore⟩
        refine ⟨fun q hq => ?_, fun q hq => ?_⟩
        · split at hq
          · cases hq
          · cases hq
            exact hp
        · rcases mem_append.1 hq with hq | hq
          · exact hvia q hq
          · exact hmore q hq

end loop

lemma jumpToLinkDirent (n : Nat) (o : Option Ptr) (q : Ptr) (via : List Ptr) (ho : ∀ p, o = some p → S p)
    (hjump : Tree.jumpToLinkDirent t c n o = .ok (q, via)) : S q ∧ ∀ p ∈ via, S p := by
  induction n generalizing o q via with
  | zero => cases hjump
  | succ n ih =>
    rcases jumpToLinkDirent_succ hjump with
      ⟨link, rfl, ⟨_, _, p, _, via₁, via₂, _, h₁, h₂, rfl⟩ | ⟨_, rfl, rfl⟩⟩
    · rcases h.lookupPath ih h₁ with ⟨hp, hvia₁⟩
      rcases ih p q via₂ hp h₂ with ⟨hq, hvia₂⟩
      refine ⟨hq, fun p' hp' => ?_⟩
      rcases mem_append.1 hp' with hp' | hp'
      · rcases mem_cons.1 hp' with rfl | hp'
        · exact ho _ rfl
        · exact hvia₁ p' hp'
      · exact hvia₂ p' hp'
    · refine ⟨ho q rfl, fun p hp => ?_⟩
      rw [mem_singleton.1 hp]
      exact ho q rfl

lemma ename (hname : Tree.ename n t c fd path follow = .ok (r, via)) :
    (∀ q, r = some q → S q) ∧ ∀ p ∈ via, S p := by
  rcases bind_eq_ok.1 hname with ⟨⟨p, name, via₁⟩, h₁, heq⟩
  cases heq
  exact h.lookupPath (h.jumpToLinkDirent n) h₁

lemma enameparent (hname : Tree.enameparent n t c fd path = .ok (r, name)) :
    ∀ q, r = some q → S q := by
  rcases bind_eq_ok.1 hname with ⟨⟨p, name', via₁⟩, h₁, heq⟩
  cases heq
  exact (h.lookupPath (h.jumpToLinkDirent n) h₁).1

end Closed

/-! ## What a lookup reads of the process

Behind the start of the path a lookup uses `cwd` only, where links that are not absolute begin. -/

lemma startDirent_atFdcwd {c c' : Ctx} (hcwd : c.cwd = c'.cwd) :
    startDirent t c atFdcwd path = startDirent t c' atFdcwd path := by
  have hfd : ∀ c : Ctx, startDirent t c atFdcwd path =
      if path.head? = some slash then some (some (.root t.rootFileSystem))
      else if path ≠ [] ∧ atFdcwd = atFdcwd then some (some c.cwd) else none := fun c => if_neg fun h => h.2.1 rfl
  rw [hfd, hfd, hcwd]

lemma lookupPath_congr {c c' : Ctx} {jump : Option Ptr → Except Stop (Ptr × List Ptr)} {parent follow : Bool}
    (hstart : startDirent t c fd path = startDirent t c' fd path) :
    lookupPath t c jump fd path parent follow = lookupPath t c' jump fd path parent follow := by
  unfold lookupPath
  rw [hstart]

lemma jumpToLinkDirent_congr {c c' : Ctx} (hcwd : c.cwd = c'.cwd) (n : Nat) :
    jumpToLinkDirent t c n = jumpToLinkDirent t c' n := by
  induction n with
  | zero => rfl
  | succ n ih =>
    funext link
    cases link with
    | none => rfl
    | some link =>
      have hlook : ∀ buf, lookupPath t c (jumpToLinkDirent t c' n) atFdcwd buf false true =
          lookupPath t c' (jumpToLinkDirent t c' n) atFdcwd buf false true :=
        fun _ => lookupPath_congr (startDirent_atFdcwd hcwd)
      simp only [jumpToLinkDirent, ih, hlook]

lemma ename_congr {c c' : Ctx} {follow : Bool} (hcwd : c.cwd = c'.cwd)
    (hstart : startDirent t c fd path = startDirent t c' fd path) :
    ename n t c fd path follow = ename n t c' fd path follow := by
  unfold ename
  rw [jumpToLinkDirent_congr hcwd, lookupPath_congr hstart]

lemma enameparent_congr {c c' : Ctx} (hcwd : c.cwd = c'.cwd)
    (hstart : startDirent t c fd path = startDirent t c' fd path) :
    enameparent n t c fd path = enameparent n t c' fd path := by
  unfold enameparent
  rw [jumpToLinkDirent_congr hcwd, lookupPath_congr hstart]

end Tree
end OsRiscv
