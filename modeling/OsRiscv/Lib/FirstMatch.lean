import Mathlib.Tactic.Ring

/-!
# FirstMatch — the first element of a list that passes a test

A linked list that is searched from its head returns the *first* match.  These lemmas say when the
answer of such a search survives a change of the test or of the order.
-/

namespace OsRiscv
namespace Lib

variable {α : Type*} {l : List α} {Q : α → Bool}

/-- A test that passes on fewer elements, but still on the first match, has the same first match. -/
theorem find?_of_imp {P Q : α → Bool} {a : α} (h : l.find? P = some a)
    (hQ : Q a = true) (himp : ∀ b ∈ l, Q b = true → P b = true) : l.find? Q = some a := by
  induction l with
  | nil => simp at h
  | cons x xs ih =>
    by_cases hP : P x = true
    · have hx : x = a := by simpa [hP] using h
      subst hx
      simp [hQ]
    · have hnQ : ¬ Q x = true := fun hq => hP (himp x (by simp) hq)
      have hrest : xs.find? P = some a := by simpa [hP] using h
      simpa [hnQ] using ih hrest fun b hb => himp b (by simp [hb])

/-- The only match is the first match. -/
theorem find?_of_unique {a : α} (hmem : a ∈ l) (hQ : Q a = true)
    (huniq : ∀ b ∈ l, Q b = true → b = a) : l.find? Q = some a := by
  cases hf : l.find? Q with
  | none => exact absurd hQ (List.find?_eq_none.1 hf a hmem)
  | some b =>
    have hb := huniq b (List.mem_of_find?_eq_some hf) (List.find?_some hf)
    rw [hb]

/-- Moving an element that does not match to the front keeps the first match. -/
theorem find?_moveToFront [BEq α] [LawfulBEq α] {a x : α}
    (h : l.find? Q = some a) (hx : Q x = true → x = a) : (x :: l.erase x).find? Q = some a := by
  by_cases hQx : Q x = true
  · have := hx hQx
    subst this
    simp [hQx]
  · have herase : ∀ l : List α, (l.erase x).find? Q = l.find? Q := by
      intro l
      induction l with
      | nil => simp
      | cons y ys ih =>
        by_cases hyx : y = x
        · subst hyx
          simp [hQx]
        · by_cases hQy : Q y = true
          · simp [hyx, hQy]
          · simp [hyx, hQy, ih]
    simp [hQx, herase, h]

end Lib
end OsRiscv
