import Mathlib.Data.List.GetD
import Mathlib.Tactic.Ring

/-!
# Bytes — overlays, slices, numbers in memory and devices made of blocks

A memory is a function from addresses to contents.  `overlay f o l` is `f` with the list `l` written at
`o`; `slice f o n` are the `n` contents from `o`.  A device of blocks of size `B` is read as one memory
by `flat`, under which writing in a block is an overlay; a list is read as one by `memOf`, under which
writing in a list that grows is an overlay too.
-/

namespace OsRiscv
namespace Lib

open List

section Overlay

variable {β : Type*} {f g : Nat → β} {o k m n : Nat} {l l' : List β}

def overlay (f : Nat → β) (o : Nat) (l : List β) : Nat → β := fun k =>
  if o ≤ k then (l[k - o]?).getD (f k) else f k

lemma overlay_of_lt (h : k < o) : overlay f o l k = f k :=
  if_neg (by omega)

lemma overlay_of_ge (h : o + l.length ≤ k) : overlay f o l k = f k := by
  unfold overlay
  rw [if_pos (by omega), getElem?_eq_none (by omega), Option.getD_none]

lemma overlay_of_mem (h : o ≤ k) (hk : k - o < l.length) : overlay f o l k = l[k - o] := by
  unfold overlay
  rw [if_pos h, getElem?_eq_getElem hk, Option.getD_some]

@[simp] lemma overlay_nil : overlay f o [] = f := by
  funext k
  simp [overlay]

/-- What an overlay does not reach. -/
theorem overlay_of_not_mem (h : k < o ∨ o + l.length ≤ k) : overlay f o l k = f k := by
  rcases h with h | h
  · exact overlay_of_lt h
  · exact overlay_of_ge h

lemma overlay_append : overlay (overlay f o l) (o + l.length) l' = overlay f o (l ++ l') := by
  funext k
  rcases Nat.lt_or_ge k (o + l.length) with hk | hk
  · rw [overlay_of_lt hk]
    unfold overlay
    rcases Nat.lt_or_ge k o with hko | hko
    · simp [Nat.not_le.2 hko]
    · rw [getElem?_append_left (by omega)]
  · unfold overlay
    have hsub : k - (o + l.length) = k - o - l.length := by omega
    rw [if_pos hk, if_pos (by omega), if_pos (by omega), getElem?_append_right (by omega),
      getElem?_eq_none (l := l) (by omega), Option.getD_none, hsub]

lemma overlay_congr (h : f k = g k) : overlay f o l k = overlay g o l k := by
  unfold overlay
  rw [h]

def slice (f : Nat → β) (o n : Nat) : List β := (List.range n).map fun i => f (o + i)

@[simp] lemma length_slice : (slice f o n).length = n := by
  simp [slice]

lemma slice_zero : slice f o 0 = [] := rfl

lemma slice_add : slice f o (m + n) = slice f o m ++ slice f (o + m) n := by
  simp [slice, range_add, Nat.add_assoc, Function.comp_def]

lemma slice_congr (h : ∀ k, o ≤ k → k < o + n → f k = g k) : slice f o n = slice g o n := by
  apply map_congr_left
  intro i hi
  have hin := mem_range.1 hi
  exact h (o + i) (by omega) (by omega)

lemma slice_overlay_self : slice (overlay f o l) o l.length = l := by
  apply ext_getElem (by simp)
  intro i h1 h2
  have hi : o + i - o < l.length := by omega
  simp [slice, overlay_of_mem (Nat.le_add_right o i) hi]

lemma slice_overlay_take : slice (overlay f o l) o (min n l.length) = l.take n := by
  refine ext_getElem (by simp) fun i h₁ h₂ => ?_
  have hi : i < l.length := by
    simp only [length_slice] at h₁
    omega
  rw [getElem_take]
  simp only [slice, getElem_map, getElem_range]
  rw [overlay_of_mem (by omega) (by omega)]
  simp

/-- A slice away from an overlay does not see it. -/
theorem slice_overlay_of_disjoint (h : o + n ≤ m ∨ m + l.length ≤ o) : slice (overlay f m l) o n = slice f o n := by
  refine slice_congr fun k hlo hhi => ?_
  exact overlay_of_not_mem (by omega)

end Overlay

/-! ## Arrays that grow

A list read as a memory has the value `z` behind its end, and writing behind the end fills the gap with
`z`. -/

section Arrays

variable {β : Type*} {z : β} {a l : List β} {o n : Nat}

def memOf (z : β) (a : List β) : Nat → β := fun k => a.getD k z

def writeAt (z : β) (a : List β) (o : Nat) (l : List β) : List β :=
  slice (overlay (memOf z a) o l) 0 (max a.length (o + l.length))

@[simp] lemma length_writeAt : (writeAt z a o l).length = max a.length (o + l.length) :=
  length_slice

lemma memOf_of_ge {k : Nat} (h : a.length ≤ k) : memOf z a k = z :=
  getD_eq_default a z h

lemma memOf_slice_zero {f : Nat → β} {m : Nat} (h : ∀ k, m ≤ k → f k = z) : memOf z (slice f 0 m) = f := by
  funext k
  rcases Nat.lt_or_ge k m with hk | hk
  · unfold memOf
    rw [getD_eq_getElem _ z (by simpa using hk)]
    simp [slice]
  · rw [memOf_of_ge (by simpa using hk), h k hk]

lemma memOf_writeAt : memOf z (writeAt z a o l) = overlay (memOf z a) o l := by
  refine memOf_slice_zero fun k hk => ?_
  rw [overlay_of_ge (by omega), memOf_of_ge (by omega)]

lemma slice_memOf (h : o + n ≤ a.length) : slice (memOf z a) o n = (a.drop o).take n := by
  apply ext_getElem
  · simp
    omega
  · intro i hi _
    have hin : i < n := by simpa using hi
    have hlt : o + i < a.length := by omega
    simp [slice, memOf, hlt]

end Arrays

/-! ## Little-endian numbers -/

def ofLe : List UInt8 → Nat
  | [] => 0
  | b :: bs => b.toNat + 256 * ofLe bs

/-- The `n` low bytes of a number, lowest first. -/
def toLe : Nat → Nat → List UInt8
  | 0, _ => []
  | n + 1, v => UInt8.ofNat v :: toLe n (v / 256)

@[simp] lemma length_toLe (n v : Nat) : (toLe n v).length = n := by
  induction n generalizing v with
  | zero => rfl
  | succ n ih => simp [toLe, ih]

lemma ofLe_toLe {n v : Nat} (h : v < 256 ^ n) : ofLe (toLe n v) = v := by
  induction n generalizing v with
  | zero =>
    have : v = 0 := by simpa using h
    simp [toLe, ofLe, this]
  | succ n ih =>
    have hdiv : v / 256 < 256 ^ n := Nat.div_lt_of_lt_mul (by rw [← Nat.pow_succ']; exact h)
    simp only [toLe, ofLe, ih hdiv, UInt8.toNat_ofNat']
    omega

lemma ofLe_lt (l : List UInt8) : ofLe l < 256 ^ l.length := by
  induction l with
  | nil => simp [ofLe]
  | cons b bs ih =>
    have hb : b.toNat < 256 := b.toNat_lt
    rw [length_cons, Nat.pow_succ]
    simp only [ofLe]
    omega

/-! ## Blocks -/

section Blocks

variable {β : Type*} {B : Nat} {disk : Nat → Nat → β}

/-- A device of blocks of size `B`, read as one memory. -/
def flat (B : Nat) (disk : Nat → Nat → β) : Nat → β := fun a => disk (a / B) (a % B)

lemma flat_mul_add {s o : Nat} (ho : o < B) : flat B disk (s * B + o) = disk s o := by
  have hB : 0 < B := by omega
  unfold flat
  rw [Nat.mul_comm, Nat.mul_add_div hB, Nat.div_eq_of_lt ho, Nat.mul_add_mod, Nat.mod_eq_of_lt ho,
    Nat.add_zero]

/-- A slice within one block. -/
theorem slice_flat {s o n : Nat} (h : o + n ≤ B) : slice (flat B disk) (s * B + o) n = slice (disk s) o n := by
  apply map_congr_left
  intro i hi
  have hin := mem_range.1 hi
  rw [Nat.add_assoc, flat_mul_add (by omega)]

lemma flat_update {s o : Nat} {l : List β} (h : o + l.length ≤ B) :
    flat B (Function.update disk s (overlay (disk s) o l)) = overlay (flat B disk) (s * B + o) l := by
  funext a
  rcases Nat.eq_zero_or_pos l.length with hl | hl
  · rw [length_eq_zero_iff.1 hl]
    simp
  have hB : 0 < B := by omega
  have hmod : a % B < B := Nat.mod_lt a hB
  have ha : a = a / B * B + a % B := by rw [Nat.mul_comm]; exact (Nat.div_add_mod a B).symm
  by_cases hs : a / B = s
  · rw [hs] at ha
    have hsub : a - (s * B + o) = a % B - o := by omega
    have hle : s * B + o ≤ a ↔ o ≤ a % B := by omega
    unfold flat overlay
    simp only [hs, Function.update_self, hsub, hle]
  · -- another block: the address lies below or above the whole block `s`
    have hout : a < s * B + o ∨ s * B + o + l.length ≤ a := by
      rcases Nat.lt_or_gt_of_ne hs with hlt | hgt
      · have := Nat.mul_le_mul_right B (Nat.succ_le_of_lt hlt)
        rw [Nat.succ_mul] at this
        omega
      · have := Nat.mul_le_mul_right B (Nat.succ_le_of_lt hgt)
        rw [Nat.succ_mul] at this
        omega
    rw [overlay_of_not_mem hout]
    unfold flat
    rw [Function.update_of_ne hs]

end Blocks

end Lib
end OsRiscv
