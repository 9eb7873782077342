import Mathlib.Algebra.BigOperators.Group.Finset.Basic
import Mathlib.Tactic.Ring

/-!
# Pool — objects that move between one free list and the lists of their holders

`total` counts how often an object occurs in the free list and in the lists of the holders of a finite set
together.  A transfer changes the free list and the list of one holder and keeps the objects of the two
together, so it keeps every `total`.  An object with `total` 1 is in exactly one of the lists, once.
-/

namespace OsRiscv
namespace Lib

open List

variable {κ α : Type*} [DecidableEq κ] [DecidableEq α]

def total (S : Finset κ) (free : List α) (held : κ → List α) (a : α) : Nat :=
  free.count a + ∑ k ∈ S, (held k).count a

variable {S : Finset κ} {free free' : List α} {held : κ → List α} {k : κ} {a : α} {l : List α}

lemma sum_count_erase (hk : k ∈ S) :
    ∑ j ∈ S, (held j).count a = (held k).count a + ∑ j ∈ S.erase k, (held j).count a :=
  (Finset.add_sum_erase S (fun j => (held j).count a) hk).symm

lemma sum_count_update :
    ∑ j ∈ S.erase k, (Function.update held k l j).count a = ∑ j ∈ S.erase k, (held j).count a := by
  refine Finset.sum_congr rfl ?_
  intro j hj
  rw [Function.update_of_ne (Finset.ne_of_mem_erase hj)]

/-- The transfer of objects between the free list and one holder. -/
theorem total_transfer (hk : k ∈ S) (hperm : (free' ++ l).Perm (free ++ held k)) :
    total S free' (Function.update held k l) a = total S free held a := by
  have hcount := hperm.count_eq a
  rw [count_append, count_append] at hcount
  unfold total
  rw [sum_count_erase hk, sum_count_erase hk, sum_count_update, Function.update_self]
  omega

/-- Where an object is that occurs once. -/
theorem total_eq_one (h : total S free held a = 1) : (free.count a = 1 ∧ ∀ k ∈ S, a ∉ held k) ∨
      (a ∉ free ∧ ∃ k ∈ S, (held k).count a = 1 ∧ ∀ j ∈ S, j ≠ k → a ∉ held j) := by
  unfold total at h
  by_cases hheld : ∃ k ∈ S, a ∈ held k
  · rcases hheld with ⟨k, hk, hin⟩
    have hpos := count_pos_iff.2 hin
    rw [sum_count_erase hk] at h
    have hrest : ∑ j ∈ S.erase k, (held j).count a = 0 := by omega
    refine .inr ⟨count_eq_zero.1 (by omega), k, hk, by omega, ?_⟩
    intro j hj hne
    exact count_eq_zero.1 (Finset.sum_eq_zero_iff.1 hrest j (Finset.mem_erase.2 ⟨hne, hj⟩))
  · have hnone : ∀ k ∈ S, a ∉ held k := fun k hk hin => hheld ⟨k, hk, hin⟩
    have hzero : ∑ k ∈ S, (held k).count a = 0 :=
      Finset.sum_eq_zero fun k hk => count_eq_zero.2 (hnone k hk)
    exact .inl ⟨by omega, hnone⟩

end Lib
end OsRiscv
