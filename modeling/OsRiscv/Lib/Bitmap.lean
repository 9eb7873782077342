import Mathlib.Data.Finset.Card
import Mathlib.Tactic.Ring

/-!
# Bitmap — sets of numbers kept in 64-bit words

Bit `c` of a bitmap is bit `c % 64` of word `c / 64`.  A free number is found word by word; in the
word, the lowest zero bit is found by halving.
-/

namespace OsRiscv
namespace Lib
namespace Bitmap

open List

/-! ## The lowest set bit of a word -/

/-- One halving: drop the low `k` bits when they are all zero. -/
def halve (k : Nat) (p : BitVec 64 × Nat) : BitVec 64 × Nat :=
  if p.1 &&& BitVec.ofNat 64 (2 ^ k - 1) = 0 then (p.1 >>> k, p.2 + k) else p

/-- The number of the lowest set bit. -/
def lowBit64 (x : BitVec 64) : Option Nat :=
  let p := halve 1 (halve 2 (halve 4 (halve 8 (halve 16 (halve 32 (x, 0))))))
  if p.1 ≠ 0 then some p.2 else none

/-- The search stands at `p`: the bits dropped are zero, and one of the next `k` bits is set. -/
structure Searching (x : BitVec 64) (k : Nat) (p : BitVec 64 × Nat) : Prop where
  dropped : ∀ j < p.2, x.getLsbD j = false
  rest : ∀ j, p.1.getLsbD j = x.getLsbD (p.2 + j)
  found : ∃ j < k, p.1.getLsbD j = true

lemma getLsbD_mask {k j : Nat} (hj : j < 64) : (BitVec.ofNat 64 (2 ^ k - 1)).getLsbD j = decide (j < k) := by
  rw [BitVec.getLsbD_ofNat, Nat.testBit_two_pow_sub_one, decide_eq_true hj, Bool.true_and]

lemma and_mask_eq_zero {y : BitVec 64} {k : Nat} (hk : k ≤ 64) :
    y &&& BitVec.ofNat 64 (2 ^ k - 1) = 0 ↔ ∀ j < k, y.getLsbD j = false := by
  constructor
  · intro h j hj
    have hbit : (y &&& BitVec.ofNat 64 (2 ^ k - 1)).getLsbD j = false := by
      rw [h]
      exact BitVec.getLsbD_zero
    rwa [BitVec.getLsbD_and, getLsbD_mask (by omega), decide_eq_true hj, Bool.and_true] at hbit
  · intro h
    apply BitVec.eq_of_getLsbD_eq
    intro j hj
    rw [BitVec.getLsbD_and, getLsbD_mask hj]
    by_cases hjk : j < k
    · simp [h j hjk]
    · simp [hjk]

lemma Searching.halve {x : BitVec 64} {k : Nat} {p : BitVec 64 × Nat} (hk : k ≤ 64)
    (h : Searching x (k + k) p) : Searching x k (halve k p) := by
  unfold Bitmap.halve
  split
  · rename_i hzero
    have hlow := (and_mask_eq_zero hk).1 hzero
    constructor
    · intro j hj
      by_cases hjp : j < p.2
      · exact h.dropped j hjp
      · have hrest := h.rest (j - p.2)
        rw [hlow (j - p.2) (by simp only at hj; omega)] at hrest
        have hj' : p.2 + (j - p.2) = j := by omega
        rw [hj'] at hrest
        exact hrest.symm
    · intro j
      rw [BitVec.getLsbD_ushiftRight, h.rest]
      simp [Nat.add_assoc]
    · rcases h.found with ⟨j, hj, hset⟩
      have hkj : k ≤ j := by
        by_contra hlt
        rw [hlow j (by omega)] at hset
        cases hset
      refine ⟨j - k, by omega, ?_⟩
      rw [BitVec.getLsbD_ushiftRight]
      simpa [Nat.add_sub_cancel' hkj] using hset
  · rename_i hnonzero
    refine ⟨h.dropped, h.rest, ?_⟩
    by_contra hnone
    apply hnonzero
    refine (and_mask_eq_zero hk).2 fun j hj => ?_
    cases hbit : p.1.getLsbD j with
    | false => rfl
    | true => exact absurd ⟨j, hj, hbit⟩ hnone

lemma searching_self {x : BitVec 64} (hx : x ≠ 0) : Searching x 64 (x, 0) := by
  refine ⟨fun j hj => absurd hj (Nat.not_lt_zero j), fun j => by simp, ?_⟩
  by_contra hnone
  apply hx
  apply BitVec.eq_of_getLsbD_eq
  intro j hj
  cases hbit : x.getLsbD j with
  | false => simp
  | true => exact absurd ⟨j, hj, hbit⟩ hnone

lemma lowBit64_spec {x : BitVec 64} (hx : x ≠ 0) :
    ∃ b, lowBit64 x = some b ∧ x.getLsbD b = true ∧ ∀ j < b, x.getLsbD j = false := by
  have h32 := Searching.halve (k := 32) (by decide) (searching_self hx)
  have h16 := Searching.halve (k := 16) (by decide) h32
  have h8 := Searching.halve (k := 8) (by decide) h16
  have h4 := Searching.halve (k := 4) (by decide) h8
  have h2 := Searching.halve (k := 2) (by decide) h4
  have h1 := Searching.halve (k := 1) (by decide) h2
  rcases h1.found with ⟨j, hj, hset⟩
  have hj0 : j = 0 := by omega
  subst hj0
  refine ⟨_, if_pos ?_, ?_, h1.dropped⟩
  · intro hzero
    rw [hzero] at hset
    simp at hset
  · rw [h1.rest, Nat.add_zero] at hset
    exact hset

lemma lt_64_of_getLsbD {x : BitVec 64} {b : Nat} (h : x.getLsbD b = true) : b < 64 := by
  by_contra hge
  rw [BitVec.getLsbD_of_ge x b (by omega)] at h
  cases h

/-! ## Bits of a bitmap -/

variable {words : Nat → BitVec 64} {c d n : Nat}

def bit (words : Nat → BitVec 64) (c : Nat) : Bool := (words (c / 64)).getLsbD (c % 64)

def set (words : Nat → BitVec 64) (c : Nat) : Nat → BitVec 64 :=
  Function.update words (c / 64) (words (c / 64) ||| 1#64 <<< (c % 64))

def clear (words : Nat → BitVec 64) (c : Nat) : Nat → BitVec 64 :=
  Function.update words (c / 64) (words (c / 64) &&& ~~~(1#64 <<< (c % 64)))

lemma getLsbD_one_shiftLeft {i j : Nat} (hi : i < 64) : (1#64 <<< j).getLsbD i = decide (i = j) := by
  by_cases hij : i = j
  · subst hij
    simp [hi]
  · by_cases hlt : i < j
    · simp [hij, hlt]
    · have : ¬ i - j = 0 := by omega
      simp [hij, this]

@[simp] lemma bit_set : bit (set words c) d = (decide (d = c) || bit words d) := by
  have hd : d % 64 < 64 := Nat.mod_lt _ (by decide)
  unfold bit set
  by_cases hword : d / 64 = c / 64
  · rw [hword, Function.update_self, BitVec.getLsbD_or, getLsbD_one_shiftLeft hd, Bool.or_comm]
    have hiff : d % 64 = c % 64 ↔ d = c := by omega
    simp only [hiff]
  · have hne : d ≠ c := fun h => hword (by rw [h])
    simp [Function.update_of_ne hword, hne]

@[simp] lemma bit_clear : bit (clear words c) d = (!decide (d = c) && bit words d) := by
  have hd : d % 64 < 64 := Nat.mod_lt _ (by decide)
  unfold bit clear
  by_cases hword : d / 64 = c / 64
  · rw [hword, Function.update_self, BitVec.getLsbD_and, BitVec.getLsbD_not,
      getLsbD_one_shiftLeft hd, Bool.and_comm]
    have hiff : d % 64 = c % 64 ↔ d = c := by omega
    simp only [hiff, hd, decide_true, Bool.true_and]
  · have hne : d ≠ c := fun h => hword (by rw [h])
    simp [Function.update_of_ne hword, hne]

/-- How many of the numbers below `n` are in the set. -/
def count (words : Nat → BitVec 64) (n : Nat) : Nat := ((Finset.range n).filter fun c => bit words c = true).card

lemma count_set (hc : c < n) (hfree : bit words c = false) : count (set words c) n = count words n + 1 := by
  have hinsert : (Finset.range n).filter (fun d => bit (set words c) d = true) =
      insert c ((Finset.range n).filter fun d => bit words d = true) := by
    ext d
    simp only [Finset.mem_filter, Finset.mem_range, Finset.mem_insert, bit_set, Bool.or_eq_true, decide_eq_true_eq]
    constructor
    · rintro ⟨hd, heq | hset⟩
      · exact .inl heq
      · exact .inr ⟨hd, hset⟩
    · rintro (heq | ⟨hd, hset⟩)
      · exact ⟨heq ▸ hc, .inl heq⟩
      · exact ⟨hd, .inr hset⟩
  unfold count
  rw [hinsert, Finset.card_insert_of_notMem]
  simp [hfree]

lemma count_of_full (hfull : ∀ c < n, bit words c = true) : count words n = n := by
  unfold count
  rw [Finset.filter_true_of_mem fun c hc => hfull c (Finset.mem_range.1 hc), Finset.card_range]

lemma count_of_empty (hempty : ∀ c < n, bit words c = false) : count words n = 0 := by
  refine Finset.card_eq_zero.2 (Finset.filter_eq_empty_iff.2 fun c hc => ?_)
  rw [hempty c (Finset.mem_range.1 hc)]
  exact Bool.false_ne_true

lemma count_clear (hc : c < n) (hset : bit words c = true) : count (clear words c) n + 1 = count words n := by
  have hfree : bit (clear words c) c = false := by simp
  have hback : ∀ d, bit (set (clear words c) c) d = bit words d := by
    intro d
    by_cases heq : d = c
    · simp [heq, hset]
    · simp [heq]
  rw [← count_set hc hfree]
  unfold count
  simp only [hback]

/-- A loop each of whose rounds adds the numbers that satisfy `R`. -/
theorem bit_foldl {α : Type*} {F : (Nat → BitVec 64) → α → Nat → BitVec 64} {R : α → Prop}
    {l : List α} (hF : ∀ w, ∀ a ∈ l, bit (F w a) c = true ↔ bit w c = true ∨ R a) (w : Nat → BitVec 64) :
    bit (l.foldl F w) c = true ↔ bit w c = true ∨ ∃ a ∈ l, R a := by
  induction l generalizing w with
  | nil => simp
  | cons a l ih =>
    rw [foldl_cons, ih (fun w b hb => hF w b (mem_cons_of_mem a hb)),
      hF w a mem_cons_self]
    simp [or_assoc]

/-! ## The first number that is not in the set -/

/-- Scan `n` words for the lowest zero bit. -/
def firstFree (words : Nat → BitVec 64) (n : Nat) : Option Nat :=
  ((List.range n).find? fun i => ~~~(words i) ≠ 0).bind fun i =>
    (lowBit64 (~~~(words i))).map fun b => 64 * i + b

/-- The lowest zero bit of `n` words is set and its number returned. -/
def scan (n : Nat) (words : Nat → BitVec 64) : Option (Nat × (Nat → BitVec 64)) :=
  (firstFree words n).map fun x => (x, set words x)

lemma bit_of_full {i : Nat} (hfull : ¬ (~~~(words i) ≠ 0)) (hc : c / 64 = i) : bit words c = true := by
  have hones : ~~~(words i) = 0 := not_not.1 hfull
  have hbit := congrArg (fun w : BitVec 64 => w.getLsbD (c % 64)) hones
  have hlt : c % 64 < 64 := Nat.mod_lt _ (by decide)
  unfold bit
  rw [hc]
  simpa [BitVec.getLsbD_not, hlt] using hbit

/-- What `firstFree` finds: the lowest number below `64 * n` that is not in the set. -/
theorem firstFree_eq_some (h : firstFree words n = some c) :
    c < 64 * n ∧ bit words c = false ∧ ∀ d < c, bit words d = true := by
  rcases Option.bind_eq_some_iff.1 h with ⟨i, hfind, hlow⟩
  rcases find?_range_eq_some.1 hfind with ⟨hi, hmem, hbefore⟩
  have hnonzero : ~~~(words i) ≠ 0 := by simpa using hi
  rcases lowBit64_spec hnonzero with ⟨b, hb, hset, hlower⟩
  rw [hb] at hlow
  have hc : c = 64 * i + b := by simpa using hlow.symm
  have hb64 := lt_64_of_getLsbD hset
  have hin : i < n := mem_range.1 hmem
  have hdiv : c / 64 = i := by omega
  have hmod : c % 64 = b := by omega
  refine ⟨by omega, ?_, fun d hd => ?_⟩
  · unfold bit
    rw [hdiv, hmod]
    simpa [BitVec.getLsbD_not, hb64] using hset
  · by_cases hword : d / 64 = i
    · have hbit := hlower (d % 64) (by omega)
      have hlt : d % 64 < 64 := Nat.mod_lt _ (by decide)
      unfold bit
      rw [hword]
      simpa [BitVec.getLsbD_not, hlt] using hbit
    · have hfull := hbefore (d / 64) (by omega)
      exact bit_of_full (by simpa using hfull) rfl

/-- `firstFree` fails only on a full bitmap. -/
theorem firstFree_eq_none (h : firstFree words n = none) (hc : c < 64 * n) : bit words c = true := by
  rcases Option.bind_eq_none_iff.1 h with hall
  cases hfind : (List.range n).find? fun i => ~~~(words i) ≠ 0 with
  | none =>
    have hfull := find?_eq_none.1 hfind (c / 64) (mem_range.2 (by omega))
    exact bit_of_full (by simpa using hfull) rfl
  | some i =>
    have hnonzero : ~~~(words i) ≠ 0 := by simpa using find?_some hfind
    rcases lowBit64_spec hnonzero with ⟨b, hb, _⟩
    have hnone := hall i hfind
    rw [hb] at hnone
    cases hnone

lemma firstFree_of_free (hc : c < 64 * n) (hfree : bit words c = false) :
    ∃ d, firstFree words n = some d ∧ d ≤ c := by
  cases hfirst : firstFree words n with
  | none =>
    rw [firstFree_eq_none hfirst hc] at hfree
    cases hfree
  | some d =>
    refine ⟨d, rfl, ?_⟩
    by_contra hlt
    rw [(firstFree_eq_some hfirst).2.2 c (by omega)] at hfree
    cases hfree

example : lowBit64 0x50 = some 4 := by decide

end Bitmap
end Lib
end OsRiscv
