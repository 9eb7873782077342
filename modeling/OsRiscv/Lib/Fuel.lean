import Mathlib.Tactic.Ring

/-!
# Fuel — computations that may run out of it

A function with fuel returns `Except.error oof` when the fuel is used up.  `Below oof x y` says that `y` is
what `x` is, unless `x` has run out.  A function whose results grow in this order with the fuel has one
result, whatever fuel it is found with.
-/

namespace OsRiscv
namespace Lib

universe u

variable {ε : Type*} {α β : Type u} {oof : ε} {m n : Nat} {x : Except ε α}

@[simp] lemma ok_bind (a : α) (f : α → Except ε β) : (Except.ok a >>= f) = f a := rfl

lemma bind_eq_ok {f : α → Except ε β} {b : β} :
    (x >>= f) = .ok b ↔ ∃ a, x = .ok a ∧ f a = .ok b := by
  cases x with
  | error e => simp [bind, Except.bind]
  | ok a => simp [bind, Except.bind]

lemma eq_ok_of_toOption {a : α} (h : x.toOption = some a) : x = .ok a := by
  cases x with
  | error e => cases h
  | ok b =>
    cases h
    rfl

lemma exists_ok_of_fst {β : Type*} {y : Except ε (α × β)} {a : α} (h : y.toOption.map Prod.fst = some a) :
    ∃ b, y = .ok (a, b) := by
  cases y with
  | error e => cases h
  | ok p =>
    cases h
    exact ⟨p.2, rfl⟩

lemma eq_ok_of_isOk (h : x.isOk = true) (a : α) : x = .ok (x.toOption.getD a) := by
  cases x with
  | error e => cases h
  | ok b => rfl

def Below (oof : ε) (x y : Except ε α) : Prop := x = .error oof ∨ y = x

namespace Below

lemma refl (x : Except ε α) : Below oof x x := .inr rfl

lemma bot (y : Except ε α) : Below oof (.error oof) y := .inl rfl

lemma trans {x y z : Except ε α} (h : Below oof x y) (h' : Below oof y z) : Below oof x z := by
  rcases h with h | rfl
  · exact .inl h
  · exact h'

lemma bind {x y : Except ε α} {f g : α → Except ε β} (h : Below oof x y) (hf : ∀ a, Below oof (f a) (g a)) :
    Below oof (x >>= f) (y >>= g) := by
  rcases h with rfl | rfl
  · exact bot _
  · cases y with
    | error e => exact refl _
    | ok a => exact hf a

end Below

section grow

variable {f : Nat → Except ε α} (hgrow : ∀ n, Below oof (f n) (f (n + 1)))
include hgrow

lemma below_of_le (h : m ≤ n) : Below oof (f m) (f n) := by
  induction h with
  | refl => exact .refl _
  | step _ ih => exact ih.trans (hgrow _)

lemma ok_of_le {a : α} (h : m ≤ n) (hm : f m = .ok a) : f n = .ok a := by
  rcases below_of_le hgrow h with hoof | heq
  · rw [hm] at hoof
    cases hoof
  · rw [heq, hm]

/-- The result does not depend on the fuel. -/
theorem eq_of_ne_oof (hm : f m ≠ .error oof) (hn : f n ≠ .error oof) : f m = f n := by
  rcases Nat.le_total m n with h | h
  · rcases below_of_le hgrow h with hoof | heq
    · exact absurd hoof hm
    · exact heq.symm
  · rcases below_of_le hgrow h with hoof | heq
    · exact absurd hoof hn
    · exact heq

lemma ok_unique {a b : α} (hm : f m = .ok a) (hn : f n = .ok b) : a = b := by
  have heq := eq_of_ne_oof hgrow (by rw [hm]; nofun) (by rw [hn]; nofun)
  rw [hm, hn] at heq
  exact Except.ok.inj heq

end grow

end Lib
end OsRiscv
