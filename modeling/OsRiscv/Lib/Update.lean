import Mathlib.Logic.Function.Basic

/-!
# Update — functions that change at one place
-/

namespace OsRiscv
namespace Lib

/-- A field that the new value has from the old one is the same everywhere. -/
theorem apply_update_of_eq {α β γ : Type*} [DecidableEq α] {f : β → γ} {g : α → β} {i : α} {v : β} (k : α)
    (h : f v = f (g i) := by rfl) : f (Function.update g i v k) = f (g k) := by
  rcases eq_or_ne k i with rfl | hk
  · rw [Function.update_self, h]
  · rw [Function.update_of_ne hk]

end Lib
end OsRiscv
