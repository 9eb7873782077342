import Mathlib.Data.List.Count
import Mathlib.Tactic.Ring

/-!
# Release — giving up references, and a list of the objects that have none left

Objects have reference counts.  A release lowers the count of one object, and the object whose count reaches 0
is put on a list.  `Released R` is what releasing the objects of `R`, one after the other, does: when no object is
released more often than it is referenced, each object is put on the list once, if its count was exactly the
number of its releases.
-/

namespace OsRiscv
namespace Lib

open List

variable {κ : Type*} [DecidableEq κ]

structure Released (R : List κ) (ref ref' : κ → Nat) (free free' : List κ) : Prop where
  count : ∀ p, ref' p + R.count p = ref p
  free : ∀ p, free'.count p = free.count p + if p ∈ R ∧ ref' p = 0 then 1 else 0

namespace Released

variable {R R' : List κ} {ref ref' ref'' : κ → Nat} {free free' free'' : List κ} {a : κ}

lemma nil : Released [] ref ref free free := by
  refine ⟨fun _ => rfl, ?_⟩
  simp

/-- One release after the others. -/
theorem append (h : Released R ref ref' free free') (h' : Released R' ref' ref'' free' free'') :
    Released (R ++ R') ref ref'' free free'' := by
  refine ⟨?_, ?_⟩
  · intro p
    have hfirst := h.count p
    have hsecond := h'.count p
    rw [count_append]
    omega
  · intro p
    have hsecond := h'.count p
    rw [h'.free, h.free]
    by_cases hin' : p ∈ R'
    · -- an object with a release to come has not reached 0
      have hpos : 0 < R'.count p := count_pos_iff.2 hin'
      have hne : ¬(p ∈ R ∧ ref' p = 0) := by
        omega
      rw [if_neg hne]
      simp [hin']
    · have hsame : ref'' p = ref' p := by
        rw [count_eq_zero_of_not_mem hin'] at hsecond
        omega
      simp [hin', hsame]

/-- The last reference is given up. -/
theorem single_last (href : ∀ p, ref' p + [a].count p = ref p) (hzero : ref' a = 0) :
    Released [a] ref ref' free (a :: free) := by
  refine ⟨href, ?_⟩
  intro p
  rw [count_cons]
  by_cases hp : p = a
  · subst hp
    simp [hzero]
  · have hne : ¬(a == p) = true := by
      simpa using fun h => hp h.symm
    simp [hp, hne]

/-- A reference is given up, and others are left. -/
theorem single_more (href : ∀ p, ref' p + [a].count p = ref p) (hmore : ref' a ≠ 0) :
    Released [a] ref ref' free free := by
  refine ⟨href, ?_⟩
  intro p
  have hne : ¬(p ∈ [a] ∧ ref' p = 0) := by
    rintro ⟨hp, hzero⟩
    rw [mem_singleton] at hp
    subst hp
    exact hmore hzero
  rw [if_neg hne, Nat.add_zero]

end Released

end Lib
end OsRiscv
