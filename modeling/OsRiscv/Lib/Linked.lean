import Mathlib.Data.List.Nodup
import Mathlib.Tactic.Ring

/-!
# Linked — singly linked lists in a table of cells

`next` gives for each cell the cell that follows it, if any.  `Linked next o l`: from the pointer `o` the
links run through the cells `l` and end.  The two searches are loops with fuel, as a list of a corrupted
table need not end; on a list that does, fuel for its cells is enough.
-/

namespace OsRiscv
namespace Lib

open List

variable {α : Type*}

inductive Linked (next : α → Option α) : Option α → List α → Prop where
  | nil : Linked next none []
  | cons {a : α} {l : List α} : Linked next (next a) l → Linked next (some a) (a :: l)

/-- The first cell with the property `P`, or nothing at the end of the list. -/
def search (next : α → Option α) (P : α → Bool) : Nat → Option α → Option (Option α)
  | 0, _ => none
  | _ + 1, none => some none
  | n + 1, some a => if P a then some (some a) else search next P n (next a)

/-- The cell in front of `x`, if `x` follows `a` at all. -/
def before [DecidableEq α] (next : α → Option α) (x : α) : Nat → α → Option (Option α)
  | 0, _ => none
  | n + 1, a =>
    match next a with
    | none => some none
    | some b => if b = x then some (some a) else before next x n b

namespace Linked

variable {next next' : α → Option α} {o : Option α} {l l' front back : List α} {a x : α}

lemma unique (h : Linked next o l) (h' : Linked next o l') : l = l' := by
  induction h generalizing l' with
  | nil =>
    cases h'
    rfl
  | cons _ ih =>
    cases h' with
    | cons hrest => rw [ih hrest]

lemma nil_iff : Linked next none l ↔ l = [] := by
  constructor
  · intro h
    cases h
    rfl
  · rintro rfl
    exact Linked.nil

lemma cons_iff : Linked next (some a) (x :: l) ↔ a = x ∧ Linked next (next a) l := by
  constructor
  · intro h
    cases h with
    | cons hrest => exact ⟨rfl, hrest⟩
  · rintro ⟨rfl, hrest⟩
    exact Linked.cons hrest

section

variable (h : Linked next o l)
include h

/-- From each cell of a list the rest of the list starts. -/
theorem suffix (hx : x ∈ l) :
    ∃ front back, l = front ++ x :: back ∧ Linked next (next x) back := by
  induction h with
  | nil => cases hx
  | @cons a l hrest ih =>
    rcases mem_cons.1 hx with rfl | hx
    · exact ⟨[], l, rfl, hrest⟩
    · rcases ih hx with ⟨front, back, rfl, hback⟩
      exact ⟨a :: front, back, rfl, hback⟩

lemma nodup : l.Nodup := by
  induction h with
  | nil => exact nodup_nil
  | @cons a l hrest ih =>
    refine nodup_cons.2 ⟨fun hmem => ?_, ih⟩
    -- a second visit would start the same list again, which is longer than its own suffix
    rcases hrest.suffix hmem with ⟨front, back, heq, hback⟩
    have hsame := congrArg List.length (hback.unique hrest)
    have hlen := congrArg List.length heq
    simp only [length_append, length_cons] at hlen
    omega

/-- A list depends on the table only at its own cells. -/
theorem congr (hsame : ∀ x ∈ l, next' x = next x) : Linked next' o l := by
  induction h with
  | nil => exact Linked.nil
  | @cons a l _ ih =>
    refine Linked.cons ?_
    rw [hsame a (by simp)]
    exact ih fun x hx => hsame x (mem_cons_of_mem _ hx)

/-- Put a cell in front. -/
theorem push [DecidableEq α] (ha : a ∉ l) :
    Linked (Function.update next a o) (some a) (a :: l) := by
  refine Linked.cons ?_
  rw [Function.update_self]
  refine h.congr fun x hx => Function.update_of_ne ?_ _ _
  rintro rfl
  exact ha hx

end

/-- Link a cell past its successor. -/
theorem skip [DecidableEq α] (h : Linked next o (front ++ a :: x :: back)) :
    Linked (Function.update next a (next x)) o (front ++ a :: back) := by
  have hnodup := h.nodup
  induction front generalizing o with
  | nil =>
    cases h with
    | cons hrest =>
      generalize hb : next a = b at hrest
      cases hrest with
      | cons hback =>
        refine Linked.cons ?_
        rw [Function.update_self]
        refine hback.congr fun y hy => Function.update_of_ne ?_ _ _
        rintro rfl
        simp [hy] at hnodup
  | cons c front ih =>
    cases h with
    | cons hrest =>
      have hca : c ≠ a := by
        rintro rfl
        simp at hnodup
      refine Linked.cons ?_
      rw [Function.update_of_ne hca]
      exact ih hrest (nodup_cons.1 hnodup).2

/-! ## The searches -/

lemma search_eq {P : α → Bool} {n : Nat} (h : Linked next o l) (hn : l.length < n) :
    search next P n o = some (l.find? P) := by
  induction h generalizing n with
  | nil =>
    cases n with
    | zero => simp at hn
    | succ n => rfl
  | @cons a l _ ih =>
    cases n with
    | zero => simp at hn
    | succ n =>
      rw [search, find?_cons]
      cases P a with
      | true => rfl
      | false => exact ih (by simpa using hn)

lemma before_eq [DecidableEq α] {n : Nat} {c : α} (h : Linked next (some c) l)
    (hl : l = front ++ a :: x :: back) (hn : l.length ≤ n) : before next x n c = some (some a) := by
  have hnodup := h.nodup
  subst hl
  induction front generalizing c n with
  | nil =>
    rcases cons_iff.1 h with ⟨rfl, hrest⟩
    cases n with
    | zero => simp at hn
    | succ n =>
      generalize hb : next c = b at hrest
      cases hrest with
      | cons _ => simp [before, hb]
  | cons d front ih =>
    rcases cons_iff.1 h with ⟨rfl, hrest⟩
    cases n with
    | zero => simp at hn
    | succ n =>
      rw [before]
      cases hnext : next c with
      | none =>
        rw [hnext] at hrest
        have := nil_iff.1 hrest
        simp at this
      | some b =>
        rw [hnext] at hrest
        -- the next cell is not yet `x`, which comes after `a`
        have hbx : b ≠ x := by
          rintro rfl
          have hin := (nodup_cons.1 hnodup).2
          cases front with
          | nil =>
            rcases cons_iff.1 hrest with ⟨rfl, _⟩
            simp at hin
          | cons e front =>
            rcases cons_iff.1 hrest with ⟨rfl, _⟩
            simp at hin
        dsimp only
        rw [if_neg hbx]
        exact ih hrest (by simpa using hn) (nodup_cons.1 hnodup).2

end Linked

end Lib
end OsRiscv
