import Mathlib.Data.List.Basic
import OsRiscv.Lib.Bytes

/-!
# Ring — a circular buffer read and written through running counters

The buffer has `N` cells.  Two counters only ever grow: `h` counts the elements taken and `t` the
elements stored, and the element with running number `k` lives in cell `k % N`.  `window N data h t`
is the queue the two counters delimit.  Blocks are stored and taken in pieces that do not go past the
last cell.
-/

namespace OsRiscv
namespace Lib

open List

variable {α : Type*} {data : Nat → α}

/-- The queue between the counters `h` (taken) and `t` (stored), oldest element first. -/
def window (N : Nat) (data : Nat → α) (h t : Nat) : List α :=
  (List.range (t - h)).map fun k => data ((h + k) % N)

@[simp] lemma window_self (N : Nat) (data : Nat → α) (h : Nat) : window N data h h = [] := by
  simp [window]

@[simp] lemma length_window (N : Nat) (data : Nat → α) (h t : Nat) : (window N data h t).length = t - h := by
  simp [window]

/-- Two running numbers less than `N` apart that share a cell are equal. -/
theorem eq_of_mod_eq {N a b : Nat} (hle : a ≤ b) (hlt : b < a + N) (h : a % N = b % N) : a = b := by
  have hsub : (b - a) % N = 0 := Nat.sub_mod_eq_zero_of_mod_eq h.symm
  have hsmall : (b - a) % N = b - a := Nat.mod_eq_of_lt (by omega)
  omega

/-- Storing into the cell of the next running number appends to the queue. -/
theorem window_push {N : Nat} {h t : Nat} (x : α) (hle : h ≤ t) (hroom : t < h + N) :
    window N (Function.update data (t % N) x) h (t + 1) = window N data h t ++ [x] := by
  have hlen : t + 1 - h = (t - h) + 1 := by omega
  rw [window, hlen, range_succ, map_append]
  congr 1
  · -- the cells of the older elements are different from the one written
    refine map_congr_left ?_
    intro k hk
    have hk' : k < t - h := mem_range.1 hk
    have hne : (h + k) % N ≠ t % N := by
      intro heq
      have := eq_of_mod_eq (by omega) (by omega) heq
      omega
    simp [Function.update_of_ne hne]
  · have : h + (t - h) = t := by omega
    simp [this]

/-- Advancing the counter of taken elements removes the oldest one. -/
theorem window_pop {N : Nat} {h t : Nat} (hlt : h < t) :
    window N data h t = data (h % N) :: window N data (h + 1) t := by
  have hlen : t - h = (t - (h + 1)) + 1 := by omega
  rw [window, hlen, range_succ_eq_map, map_cons, map_map]
  refine congrArg₂ List.cons (by simp) ?_
  refine map_congr_left ?_
  intro k _
  have : h + (k + 1) = h + 1 + k := by omega
  simp [this]

/-! ## Blocks -/

variable {N h m n t : Nat} {data data' : Nat → α}

lemma window_split (hhm : h ≤ m) (hmt : m ≤ t) : window N data h t = window N data h m ++ window N data m t := by
  have hlen : t - h = (m - h) + (t - m) := by omega
  unfold window
  rw [hlen, range_add, map_append, map_map]
  congr 1
  refine map_congr_left ?_
  intro k _
  have : h + (m - h + k) = m + k := by omega
  simp [this]

/-- The cell of a running number that lies `k` after `t`, before the last cell. -/
theorem add_mod_of_le {k : Nat} (hk : t % N + k < N) : (t + k) % N = t % N + k := by
  rw [Nat.add_mod, Nat.mod_eq_of_lt (by omega : k < N), Nat.mod_eq_of_lt hk]

/-- A piece that does not go past the last cell is a slice of the cells. -/
theorem window_eq_slice (hn : h % N + n ≤ N) : window N data h (h + n) = slice data (h % N) n := by
  unfold window slice
  rw [Nat.add_sub_cancel_left]
  refine map_congr_left ?_
  intro k hk
  have hk' := mem_range.1 hk
  rw [add_mod_of_le (by omega)]

lemma window_congr (heq : ∀ k, h ≤ k → k < t → data (k % N) = data' (k % N)) :
    window N data h t = window N data' h t := by
  refine map_congr_left ?_
  intro k hk
  have hk' := mem_range.1 hk
  exact heq (h + k) (by omega) (by omega)

/-- Storing a block that does not go past the last cell appends it to the queue. -/
theorem window_overlay {l : List α} (hle : h ≤ t) (hroom : t + l.length ≤ h + N) (hpiece : t % N + l.length ≤ N) :
    window N (overlay data (t % N) l) h (t + l.length) = window N data h t ++ l := by
  rw [window_split hle (Nat.le_add_right t l.length), window_eq_slice hpiece, slice_overlay_self]
  congr 1
  refine window_congr ?_
  intro k hk hkt
  apply overlay_of_not_mem
  -- a cell of the block is the cell of a running number less than `N` after `k`
  by_contra hnot
  have hcell : k % N = (t + (k % N - t % N)) % N := by
    rw [add_mod_of_le (by omega)]
    omega
  have := eq_of_mod_eq (by omega) (by omega) hcell
  omega

end Lib
end OsRiscv
