import OsRiscv.Paging.Model

/-!
# Entries — what the words of a table hold

A table entry keeps the page in the bits 10 to 53 and the permissions in the others, so the two parts of an
entry that was put together are found again.  An address is three indices and an offset.
-/

namespace OsRiscv
namespace Paging

open BitVec (allOnes eq_of_getLsbD_eq getLsbD_and getLsbD_not getLsbD_or getLsbD_shiftLeft toNat_or)

/-- The addresses of pages that fit into an entry. -/
structure IsPage (pa : Word) : Prop where
  aligned : downAlign pa = pa
  fits : pa.toNat < 2 ^ 56

/-- Permissions have no bit where an entry keeps the page. -/
def IsPerm (perm : Word) : Prop := perm &&& paMask = 0

instance (perm : Word) : Decidable (IsPerm perm) := inferInstanceAs (Decidable (_ = _))

lemma paMask_getLsbD (i : Nat) : paMask.getLsbD i = decide (10 ≤ i ∧ i < 54) := by
  have hmask : paMask = (allOnes 44).setWidth 64 <<< 10 := by decide
  rw [hmask, getLsbD_shiftLeft, BitVec.getLsbD_setWidth, BitVec.getLsbD_allOnes]
  rw [Bool.eq_iff_iff]
  simp only [Bool.and_eq_true, Bool.not_eq_true', decide_eq_true_eq, decide_eq_false_iff_not]
  omega

lemma pageMask_getLsbD (i : Nat) : (0xfff : Word).getLsbD i = decide (i < 12) := by
  have hmask : (0xfff : Word) = (allOnes 12).setWidth 64 := by decide
  rw [hmask, BitVec.getLsbD_setWidth, BitVec.getLsbD_allOnes]
  rw [Bool.eq_iff_iff]
  simp only [Bool.and_eq_true, decide_eq_true_eq]
  omega

lemma downAlign_getLsbD (x : Word) {i : Nat} (hi : i < 64) :
    (downAlign x).getLsbD i = (x.getLsbD i && !decide (i < 12)) := by
  simp only [downAlign, getLsbD_and, getLsbD_not, pageMask_getLsbD, hi, decide_true, Bool.true_and]

namespace IsPage

variable {pa : Word} {i : Nat}

lemma low (h : IsPage pa) (hi : i < 12) : pa.getLsbD i = false := by
  have hbit := congrArg (fun x : Word => x.getLsbD i) h.aligned
  simp only [downAlign_getLsbD pa (Nat.lt_trans hi (by decide : 12 < 64)), hi, decide_true, Bool.not_true,
    Bool.and_false] at hbit
  exact hbit.symm

lemma high (h : IsPage pa) (hi : 56 ≤ i) : pa.getLsbD i = false :=
  Nat.testBit_lt_two_pow (Nat.lt_of_lt_of_le h.fits (Nat.pow_le_pow_right (by omega) hi))

end IsPage

lemma IsPerm.bit {perm : Word} (h : IsPerm perm) (hlow : 10 ≤ i) (hhigh : i < 54) :
    perm.getLsbD i = false := by
  have hbit := congrArg (fun x : Word => x.getLsbD i) h
  simpa [paMask_getLsbD, hlow, hhigh] using hbit

lemma IsPerm.or {p q : Word} (hp : IsPerm p) (hq : IsPerm q) : IsPerm (p ||| q) := by
  apply eq_of_getLsbD_eq
  intro i _
  by_cases hin : 10 ≤ i ∧ i < 54
  · simp only [getLsbD_and, getLsbD_or, hp.bit hin.1 hin.2, hq.bit hin.1 hin.2, Bool.or_false,
      Bool.false_and]
    simp
  · simp only [getLsbD_and, paMask_getLsbD, hin, decide_false, Bool.and_false]
    simp

/-! ## Putting an entry together -/

variable {pa perm : Word}

lemma pte2Pa_entry (hpa : IsPage pa) (hperm : IsPerm perm) : pte2Pa (pa2Pte pa ||| perm) = pa := by
  apply eq_of_getLsbD_eq
  intro i hi
  by_cases hlow : i < 12
  · rw [hpa.low hlow]
    simp [pte2Pa, hlow]
  · -- bit `i` of the page is bit `i - 2` of the entry
    have hshift : 10 + (i - 12) = i - 2 := by omega
    have hback : 12 + (i - 2 - 10) = i := by omega
    simp only [pte2Pa, pa2Pte, getLsbD_shiftLeft, BitVec.getLsbD_ushiftRight, getLsbD_and,
      getLsbD_or, hshift, paMask_getLsbD, hi, hlow, hback, decide_true, decide_false, Bool.not_false,
      Bool.true_and]
    by_cases hhigh : i < 56
    · have hperm' : perm.getLsbD (i - 2) = false := hperm.bit (by omega) (by omega)
      have hin : 10 ≤ i - 2 ∧ i - 2 < 54 := by omega
      have h64 : i - 2 < 64 := by omega
      have h10 : ¬i - 2 < 10 := by omega
      simp only [hperm', hin, h64, h10, decide_true, decide_false, Bool.not_false, Bool.true_and, Bool.or_false,
        Bool.and_true, and_self]
    · have hout : ¬(10 ≤ i - 2 ∧ i - 2 < 54) := by omega
      rw [hpa.high (by omega), decide_eq_false hout, Bool.and_false]

lemma pte2Perm_entry (hpa : IsPage pa) (hperm : IsPerm perm) : pte2Perm (pa2Pte pa ||| perm) = perm := by
  apply eq_of_getLsbD_eq
  intro i hi
  by_cases hin : 10 ≤ i ∧ i < 54
  · rw [hperm.bit hin.1 hin.2]
    simp [pte2Perm, paMask_getLsbD, hin]
  · -- the page leaves these bits free
    have hpage : (pa2Pte pa).getLsbD i = false := by
      by_cases hlow : i < 10
      · simp [pa2Pte, hlow]
      · have hbit : pa.getLsbD (12 + (i - 10)) = false := hpa.high (by omega)
        simp [pa2Pte, hlow, hbit]
    simp only [pte2Perm, getLsbD_and, getLsbD_or, getLsbD_not, paMask_getLsbD, hin, hpage, hi,
      decide_true, decide_false, Bool.false_or, Bool.not_false, Bool.and_true]

lemma isPerm_valid : IsPerm pteValid := by decide

lemma isPerm_flags : IsPerm (pteAccessed ||| pteDirty) := by decide

lemma has_valid_or (e : Word) : has (e ||| pteValid) pteValid = true := by
  unfold has
  rw [bne_iff_ne]
  intro h
  have hbit := congrArg (fun x : Word => x.getLsbD 0) h
  have hone : pteValid.getLsbD 0 = true := by decide
  simp only [getLsbD_and, getLsbD_or, hone, Bool.or_true, Bool.and_true] at hbit
  cases hbit

lemma ne_zero_of_valid {e : Word} (h : has e pteValid = true) : e ≠ 0 := by
  rintro rfl
  simp [has] at h

/-! ## Pages of the machine -/

lemma isRam_iff {pa : Word} : isRam pa = true ↔ 0x80000000 ≤ pa.toNat ∧ pa.toNat < 0x90000000 := by
  simp [isRam, physicalAddressBase, physicalMemoryTop, BitVec.le_def, BitVec.lt_def]

lemma isPage_of_isRam {pa : Word} (hram : isRam pa = true) (haligned : downAlign pa = pa) : IsPage pa := by
  refine ⟨haligned, ?_⟩
  have := (isRam_iff.1 hram).2
  omega

lemma downAlign_pte2Pa (pte : Word) : downAlign (pte2Pa pte) = pte2Pa pte := by
  apply eq_of_getLsbD_eq
  intro i hi
  by_cases hlow : i < 12
  · simp only [downAlign_getLsbD _ hi, pte2Pa, getLsbD_shiftLeft, hlow, decide_true, Bool.not_true,
      Bool.and_false, Bool.false_and]
  · simp only [downAlign_getLsbD _ hi, hlow, decide_false, Bool.not_false, Bool.and_true]

/-! ## Addresses -/

/-- The page of a virtual address. -/
def pageOf (va : Word) : Nat := va.toNat / 4096

lemma getPageTableIndex_val (va : Word) (level : Nat) :
    (getPageTableIndex va level).val = va.toNat / 2 ^ (12 + 9 * level) % 512 := by
  unfold getPageTableIndex
  rw [Fin.val_ofNat, BitVec.toNat_ushiftRight, Nat.shiftRight_eq_div_pow]

lemma pageOf_eq_iff {va va' : Word} (hva : va.toNat < 2 ^ 39) (hva' : va'.toNat < 2 ^ 39) :
    pageOf va' = pageOf va ↔ getPageTableIndex va' 2 = getPageTableIndex va 2 ∧
      getPageTableIndex va' 1 = getPageTableIndex va 1 ∧ getPageTableIndex va' 0 = getPageTableIndex va 0 := by
  simp only [Fin.ext_iff, getPageTableIndex_val, pageOf]
  omega

lemma downAlign_toNat (va : Word) : (downAlign va).toNat = va.toNat / 4096 * 4096 := by
  have hsplit : downAlign va = (va >>> 12) <<< 12 := by
    apply eq_of_getLsbD_eq
    intro i hi
    by_cases hlow : i < 12
    · simp only [downAlign_getLsbD _ hi, getLsbD_shiftLeft, hlow, decide_true, Bool.not_true,
        Bool.and_false, Bool.false_and]
    · have hback : 12 + (i - 12) = i := by omega
      simp only [downAlign_getLsbD _ hi, getLsbD_shiftLeft, BitVec.getLsbD_ushiftRight, hi, hlow, hback,
        decide_true, decide_false, Bool.not_false, Bool.and_true, Bool.true_and]
  rw [hsplit, BitVec.toNat_shiftLeft, BitVec.toNat_ushiftRight, Nat.shiftRight_eq_div_pow, Nat.shiftLeft_eq]
  omega

lemma getPageTableIndex_downAlign (va : Word) (level : Nat) :
    getPageTableIndex (downAlign va) level = getPageTableIndex va level := by
  apply Fin.ext
  rw [getPageTableIndex_val, getPageTableIndex_val, downAlign_toNat]
  have hpow : 2 ^ (12 + 9 * level) = 4096 * 2 ^ (9 * level) := by rw [Nat.pow_add]
  rw [hpow, ← Nat.div_div_eq_div_mul, ← Nat.div_div_eq_div_mul, Nat.mul_div_cancel _ (by omega)]

lemma addressOf_toNat (i j k : Fin 512) :
    (addressOf i j k).toNat = i.val * 2 ^ 30 + j.val * 2 ^ 21 + k.val * 2 ^ 12 := by
  have hshift : ∀ n ≤ 30, ∀ x : Fin 512, (BitVec.ofNat 64 x.val <<< n).toNat = x.val <<< n := by
    intro n hn x
    have hx := x.isLt
    have hpow : 2 ^ n ≤ 2 ^ 30 := Nat.pow_le_pow_right (by decide) hn
    have hlt : x.val * 2 ^ n < 2 ^ 64 :=
      calc x.val * 2 ^ n ≤ 512 * 2 ^ 30 := Nat.mul_le_mul (Nat.le_of_lt hx) hpow
        _ < 2 ^ 64 := by decide
    have hsmall : x.val % 2 ^ 64 = x.val := Nat.mod_eq_of_lt (by omega)
    rw [BitVec.toNat_shiftLeft, BitVec.toNat_ofNat, hsmall, Nat.shiftLeft_eq, Nat.mod_eq_of_lt hlt]
  have hlow : j.val <<< 21 ||| k.val <<< 12 = j.val * 2 ^ 21 + k.val * 2 ^ 12 := by
    have hlt : k.val <<< 12 < 2 ^ 21 := by
      omega
    rw [← Nat.shiftLeft_add_eq_or_of_lt hlt, Nat.shiftLeft_eq, Nat.shiftLeft_eq]
  have hhigh : j.val * 2 ^ 21 + k.val * 2 ^ 12 < 2 ^ 30 := by omega
  unfold addressOf
  rw [toNat_or, toNat_or, hshift 30 (by decide), hshift 21 (by decide), hshift 12 (by decide),
    Nat.or_assoc, hlow, ← Nat.shiftLeft_add_eq_or_of_lt hhigh, Nat.shiftLeft_eq]
  omega

lemma getPageTableIndex_addressOf (i j k : Fin 512) :
    getPageTableIndex (addressOf i j k) 2 = i ∧ getPageTableIndex (addressOf i j k) 1 = j ∧
      getPageTableIndex (addressOf i j k) 0 = k := by
  simp only [Fin.ext_iff, getPageTableIndex_val, addressOf_toNat]
  omega

end Paging
end OsRiscv
