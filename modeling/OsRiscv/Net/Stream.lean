import OsRiscv.Lib.Run
import OsRiscv.Net.Model

/-!
# Stream — the bytes between two connected sockets

`sendTo` writes into the ring page of the peer with `strncpy`, which stops copying at the first zero
byte and fills the rest with zeros.  A piece of the buffer arrives as it was sent exactly when only
zeros follow its first zero byte.  A call writes one piece, or two when the ring page ends in between.
-/

namespace OsRiscv
namespace Net

open Lib List

/-! ## `strncpy` -/

/-- After the first zero byte there are only zero bytes. -/
def ZerosLast (l : List UInt8) : Prop := ∀ x ∈ l.dropWhile (· != 0), x = 0

instance (l : List UInt8) : Decidable (ZerosLast l) := inferInstanceAs (Decidable (∀ x ∈ _, _))

@[simp] lemma length_strncpy (l : List UInt8) (n : Nat) : (strncpy l n).length = n := by
  induction l generalizing n with
  | nil => cases n <;> simp [strncpy]
  | cons t ts ih =>
    cases n with
    | zero => rfl
    | succ n =>
      unfold strncpy
      split
      · simp
      · simp [ih n]

/-- `strncpy` copies a piece faithfully exactly when nothing but zeros follows a zero. -/
theorem strncpy_eq_take_iff {l : List UInt8} {n : Nat} (hn : n ≤ l.length) :
    strncpy l n = l.take n ↔ ZerosLast (l.take n) := by
  induction l generalizing n with
  | nil =>
    have hzero : n = 0 := Nat.le_zero.1 hn
    subst hzero
    simp [strncpy, ZerosLast]
  | cons t ts ih =>
    cases n with
    | zero => simp [strncpy, ZerosLast]
    | succ n =>
      have hn' : n ≤ ts.length := Nat.le_of_succ_le_succ hn
      rw [take_succ_cons]
      unfold strncpy
      by_cases ht : t = 0
      · -- from here on the copy is all zeros
        have hlen : (t :: ts.take n).length = n + 1 := by simp [hn']
        have hdrop : (t :: ts.take n).dropWhile (· != 0) = t :: ts.take n :=
          dropWhile_cons_of_neg (by simp [ht])
        rw [if_pos ht, ZerosLast, hdrop]
        constructor
        · intro heq x hx
          rw [← heq] at hx
          exact eq_of_mem_replicate hx
        · intro hall
          exact (eq_replicate_iff.2 ⟨hlen, hall⟩).symm
      · have hdrop : (t :: ts.take n).dropWhile (· != 0) = (ts.take n).dropWhile (· != 0) :=
          dropWhile_cons_of_pos (by simp [ht])
        rw [if_neg ht, ZerosLast, hdrop, cons_inj_right]
        exact ih hn'

/-! ## The ring page -/

/-- The bytes in the ring page of a socket. -/
def queued (v : Socket) : List UInt8 := window pageSize v.buffer v.head v.tail

/-- The counters delimit at most a page, and have not wrapped. -/
structure Sized (v : Socket) : Prop where
  le : v.head ≤ v.tail
  room : v.tail ≤ v.head + pageSize
  small : v.tail < 2 ^ 64

variable {v : Socket} {buf : List UInt8} {num len : Nat}

lemma sub64_of_le {a b : Nat} (hba : b ≤ a) (ha : a < 2 ^ 64) : sub64 a b = a - b := by
  have hsum : a + 2 ^ 64 - b = a - b + 2 ^ 64 := by omega
  rw [sub64, hsum, Nat.add_mod_right, Nat.mod_eq_of_lt (by omega)]

lemma sendNum_eq (hv : Sized v) (len : Nat) : sendNum v len = min (pageSize - (v.tail - v.head)) len := by
  have hroom := hv.room
  unfold sendNum
  rw [sub64_of_le hv.le hv.small, sub64_of_le (by omega) (by decide)]

lemma receiveNum_eq (hv : Sized v) (len : Nat) : receiveNum v len = min len (v.tail - v.head) := by
  unfold receiveNum
  rw [sub64_of_le hv.le hv.small]

/-- What `sendTo` leaves in the page for `num` bytes of the buffer. -/
def stored (v : Socket) (buf : List UInt8) (num : Nat) : List UInt8 :=
  strncpy buf (untilEnd v.tail num) ++ strncpy (buf.drop (untilEnd v.tail num)) (num - untilEnd v.tail num)

lemma length_stored : (stored v buf num).length = num := by
  have hle : untilEnd v.tail num ≤ num := Nat.min_le_left _ _
  simp only [stored, length_append, length_strncpy]
  omega

@[simp] lemma pushBytes_head : (pushBytes v buf num).head = v.head := by
  simp only [pushBytes]

@[simp] lemma pushBytes_tail : (pushBytes v buf num).tail = (v.tail + num) % 2 ^ 64 := by
  simp only [pushBytes]

@[simp] lemma pushBytes_addr : (pushBytes v buf num).addr = v.addr := by
  simp only [pushBytes]

@[simp] lemma pushBytes_targetAddr : (pushBytes v buf num).targetAddr = v.targetAddr := by
  simp only [pushBytes]

/-- The page after `sendTo`, read past the end of the page. -/
theorem window_pushBytes (hle : v.head ≤ v.tail) (hroom : v.tail + num ≤ v.head + pageSize) :
    window pageSize (pushBytes v buf num).buffer v.head (v.tail + num) =
      queued v ++ stored v buf num := by
  have hmod : v.tail % pageSize < pageSize := Nat.mod_lt _ (by decide)
  have hlen1 : untilEnd v.tail num = min num (pageSize - v.tail % pageSize) := rfl
  unfold pushBytes stored queued
  dsimp only
  set len1 := untilEnd v.tail num
  -- the first piece goes up to the end of the page at most
  have hfirst : window pageSize (overlay v.buffer (v.tail % pageSize) (strncpy buf len1)) v.head
      (v.tail + len1) = window pageSize v.buffer v.head v.tail ++ strncpy buf len1 := by
    have hroom' : v.tail + (strncpy buf len1).length ≤ v.head + pageSize := by
      rw [length_strncpy]
      omega
    have hpiece : v.tail % pageSize + (strncpy buf len1).length ≤ pageSize := by
      rw [length_strncpy]
      omega
    simpa only [length_strncpy] using window_overlay hle hroom' hpiece
  split
  · next hlt =>
      -- the second piece starts in the first cell
      have hend : v.tail + len1 = pageSize * (v.tail / pageSize + 1) := by
        have := Nat.div_add_mod v.tail pageSize
        rw [Nat.mul_add]
        omega
      have hcell : (v.tail + len1) % pageSize = 0 := by
        rw [hend, Nat.mul_mod_right]
      have hsum : v.tail + num = v.tail + len1 + (strncpy (buf.drop len1) (num - len1)).length := by
        rw [length_strncpy]
        omega
      have hpiece : (v.tail + len1) % pageSize + (strncpy (buf.drop len1) (num - len1)).length ≤
          pageSize := by
        omega
      rw [← hcell, hsum, window_overlay (by omega) (by omega) hpiece, hfirst, append_assoc]
  · next hge =>
      have hall : len1 = num := by omega
      rw [hall] at hfirst ⊢
      rw [hfirst, Nat.sub_self]
      simp [strncpy]

/-- The bytes that `receiveFrom` hands out are the oldest ones. -/
theorem pulledBytes_eq (v : Socket) (hnum : num ≤ pageSize) :
    pulledBytes v num = window pageSize v.buffer v.head (v.head + num) := by
  have hmod : v.head % pageSize < pageSize := Nat.mod_lt _ (by decide)
  have hlen1 : untilEnd v.head num = min num (pageSize - v.head % pageSize) := rfl
  unfold pulledBytes
  dsimp only
  set len1 := untilEnd v.head num
  rw [window_split (Nat.le_add_right v.head len1) (by omega : v.head + len1 ≤ v.head + num),
    window_eq_slice (by omega : v.head % pageSize + len1 ≤ pageSize)]
  split
  · next hlt =>
      have hend : v.head + len1 = pageSize * (v.head / pageSize + 1) := by
        have := Nat.div_add_mod v.head pageSize
        rw [Nat.mul_add]
        omega
      have hcell : (v.head + len1) % pageSize = 0 := by
        rw [hend, Nat.mul_mod_right]
      have hsum : v.head + num = v.head + len1 + (num - len1) := by omega
      rw [hsum, window_eq_slice (by omega), hcell]
  · next hge =>
      have hall : len1 = num := by omega
      rw [hall, window_self]

end Net
end OsRiscv
