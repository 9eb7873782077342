import Mathlib.Data.Finset.Card
import Mathlib.Tactic.Ring

/-!
# Occurrences — how many slots of a table hold a given value

A table is a function from slots to optional values; only the slots of a finite set count.
-/

namespace OsRiscv
namespace Lib

variable {κ α : Type*} [DecidableEq κ] [DecidableEq α]

/-- The number of slots of `S` that hold `a`. -/
def occ (S : Finset κ) (g : κ → Option α) (a : α) : Nat :=
  (S.filter fun k => g k = some a).card

variable {S : Finset κ} {g : κ → Option α} {k : κ} {a : α}

omit [DecidableEq κ] in
lemma occ_pos (hk : k ∈ S) (h : g k = some a) : 0 < occ S g a := by
  refine Finset.card_pos.2 ⟨k, ?_⟩
  simp [hk, h]

omit [DecidableEq κ] in
lemma occ_none : occ S (fun _ => none) a = 0 := by
  simp [occ]

lemma occ_erase (hk : k ∈ S) : occ S g a = occ (S.erase k) g a + if g k = some a then 1 else 0 := by
  unfold occ
  rw [Finset.filter_erase]
  by_cases h : g k = some a
  · have hmem : k ∈ S.filter fun k => g k = some a := by simp [hk, h]
    simp only [h, if_true]
    exact (Finset.card_erase_add_one hmem).symm
  · simp [h]

/-- Two different slots with the same value count twice. -/
theorem occ_two {k' : κ} (hk : k ∈ S) (hk' : k' ∈ S) (hne : k ≠ k') (h : g k = some a)
    (h' : g k' = some a) : 2 ≤ occ S g a := by
  have hrest : 0 < occ (S.erase k) g a := occ_pos (Finset.mem_erase.2 ⟨hne.symm, hk'⟩) h'
  rw [occ_erase hk]
  simp only [h, if_true]
  omega

/-- Overwriting one slot. -/
theorem occ_update (hk : k ∈ S) (v : Option α) : occ S (Function.update g k v) a + (if g k = some a then 1 else 0) =
      occ S g a + if v = some a then 1 else 0 := by
  have hrest : occ (S.erase k) (Function.update g k v) a = occ (S.erase k) g a := by
    refine congrArg Finset.card (Finset.filter_congr ?_)
    intro x hx
    have hne : x ≠ k := Finset.ne_of_mem_erase hx
    simp [hne]
  have hnew := occ_erase (g := Function.update g k v) (a := a) hk
  have hold := occ_erase (g := g) (a := a) hk
  simp only [Function.update_self] at hnew
  omega

end Lib
end OsRiscv
