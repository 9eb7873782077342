import OsRiscv.Lib.Bytes
import OsRiscv.Lib.Word

/-!
# RawDisk — the device file of the disk

`sdCardRead` and `sdCardWrite` of `Sd.c`, the functions behind `DEV_SD`.  `sdRead` and `sdWrite` move one sector
between a buffer and the disk.  A kernel buffer is that buffer; with a user buffer the sector is in `buf`, and
`copyout` or `copyin` moves it, which halts the kernel where the process has no page and can have none.

The length is in bytes, and the loops make a round of a whole sector for each byte of it.
-/

namespace OsRiscv
namespace Bio

open Lib

/-- The disk, and the memory that the kernel and the process see, by `isUser`. -/
structure Machine where
  disk : Nat → UInt8
  mem : Bool → Nat → UInt8
  mapped : Bool → Nat → Bool

namespace Machine

/-- There is memory for a buffer; the last byte of the address space holds nothing. -/
def Holds (m : Machine) (isUser : Bool) (addr len : Nat) : Prop :=
  addr + len < 2 ^ 64 ∧ ∀ j < len, m.mapped isUser (addr + j) = true

instance (m : Machine) (isUser : Bool) (addr len : Nat) : Decidable (m.Holds isUser addr len) :=
  inferInstanceAs (Decidable (_ ∧ _))

/-- Bytes of a buffer are written to the disk, or read from it. -/
def move (write isUser : Bool) (addr start len : Nat) (m : Machine) : Machine :=
  if write then { m with disk := overlay m.disk start (slice (m.mem isUser) addr len) }
  else { m with mem := Function.update m.mem isUser (overlay (m.mem isUser) addr (slice m.disk start len)) }

end Machine

/-- The `int` of a sector, as the `u64` parameter of `sdRead` and `sdWrite`, in bytes. -/
def sectorStart (st : Int) : Nat := 512 * (st % 2 ^ 64).toNat

/-- The loop of both functions, a round for each `i`; `st++` must not overflow. -/
def sdCardLoop (write isUser : Bool) : Nat → Nat → Int → Machine → Option Machine
  | 0, _, _, m => some m
  | k + 1, addr, st, m =>
    if m.Holds isUser addr 512 ∧ st + 1 < 2 ^ 31 then
      sdCardLoop write isUser k (addr + 512) (st + 1) (m.move write isUser addr (sectorStart st) 512)
    else none

/-- After `2 ^ 31` rounds the `int` that counts them overflows. -/
def sdCard (write isUser : Bool) (addr startAddr n : Nat) (m : Machine) : Option (Int × Machine) :=
  if n % 512 ≠ 0 then some (-1, m)
  else if startAddr % 512 ≠ 0 then some (-1, m)
  else if 2 ^ 31 ≤ n then none
  else (sdCardLoop write isUser n addr (int (startAddr / 512 : Nat)) m).map ((0, ·))

def sdCardRead : Bool → Nat → Nat → Nat → Machine → Option (Int × Machine) := sdCard false

def sdCardWrite : Bool → Nat → Nat → Nat → Machine → Option (Int × Machine) := sdCard true

/-! ## What the loop moves -/

variable {write isUser : Bool} {addr start n k s i j : Nat} {m : Machine}

/-- Two transfers, one behind the other, are one. -/
theorem Machine.move_move :
    (m.move write isUser addr start i).move write isUser (addr + i) (start + i) j =
      m.move write isUser addr start (i + j) := by
  have happend : ∀ {f g : Nat → UInt8} {a b : Nat},
      overlay (overlay f a (slice g b i)) (a + i) (slice g (b + i) j) = overlay f a (slice g b (i + j)) := by
    intro f g a b
    rw [slice_add, ← overlay_append, length_slice]
  cases write <;> simp [Machine.move, happend]

lemma Machine.Holds.split (h : m.Holds isUser addr (i + j)) :
    m.Holds isUser addr i ∧ m.Holds isUser (addr + i) j := by
  rcases h with ⟨hlt, hmapped⟩
  refine ⟨⟨by omega, fun l hl => hmapped l (by omega)⟩, by omega, fun l hl => ?_⟩
  rw [Nat.add_assoc]
  exact hmapped _ (by omega)

lemma Machine.Holds.move (h : m.Holds isUser addr i) : (m.move write isUser k s j).Holds isUser addr i := by
  cases write <;> exact h

lemma sdCardLoop_eq (hheld : m.Holds isUser addr (512 * k)) (hs : s + k < 2 ^ 31) :
    sdCardLoop write isUser k addr s m = some (m.move write isUser addr (512 * s) (512 * k)) := by
  induction k generalizing addr s m with
  | zero => cases write <;> simp [sdCardLoop, Machine.move, slice_zero]
  | succ k ih =>
    have hlen : 512 * (k + 1) = 512 + 512 * k := by omega
    have hsector : sectorStart (s : Int) = 512 * s := by
      unfold sectorStart
      omega
    rw [hlen] at hheld ⊢
    rcases hheld.split with ⟨hfirst, hrest⟩
    rw [sdCardLoop, if_pos ⟨hfirst, by omega⟩, hsector, ← Machine.move_move]
    exact ih (s := s + 1) hrest.move (by omega)

/-! ## Transfers of `n` bytes -/

/-- Both calls move `n` bytes and say so, and a read takes back what a write has written. -/
structure Exact (isUser : Bool) (addr start n : Nat) : Prop where
  read : ∀ m : Machine, m.Holds isUser addr n →
    sdCardRead isUser addr start n m = some ((n : Int), m.move false isUser addr start n)
  write : ∀ m : Machine, m.Holds isUser addr n →
    sdCardWrite isUser addr start n m = some ((n : Int), m.move true isUser addr start n)
  again : ∀ m r₁ m₁ r₂ m₂, sdCardWrite isUser addr start n m = some (r₁, m₁) →
    sdCardRead isUser addr start n m₁ = some (r₂, m₂) → m₂.mem = m.mem

lemma sdCard_aligned (hstart : start % 512 = 0) (hn : n % 512 = 0) (hlt : n < 2 ^ 31) :
    sdCard write isUser addr start n m =
      (sdCardLoop write isUser n addr (int (start / 512 : Nat)) m).map ((0, ·)) := by
  unfold sdCard
  rw [if_neg (by omega), if_neg (by omega), if_neg (by omega)]

lemma sdCard_eq (hstart : start % 512 = 0) (hn : n % 512 = 0) (hs : start / 512 + n < 2 ^ 31)
    (hheld : m.Holds isUser addr (512 * n)) :
    sdCard write isUser addr start n m = some (0, m.move write isUser addr start (512 * n)) := by
  have hsector : int (start / 512 : Nat) = (start / 512 : Nat) := int_of_lt (by omega) (by omega)
  have hmul : 512 * (start / 512) = start := by omega
  rw [sdCard_aligned hstart hn (by omega), hsector, sdCardLoop_eq hheld hs, hmul]
  rfl

theorem raw_transfer_exact_iff (hstart : start % 512 = 0) (hn : n % 512 = 0) (haddr : addr + n < 2 ^ 64) :
    (Exact isUser addr start n ↔ n = 0) ∧
      ∀ m : Machine, m.Holds isUser addr (512 * n) → start / 512 + n < 2 ^ 31 →
        sdCardRead isUser addr start n m = some (0, m.move false isUser addr start (512 * n)) ∧
        sdCardWrite isUser addr start n m = some (0, m.move true isUser addr start (512 * n)) := by
  refine ⟨⟨fun h => ?_, fun h => ?_⟩, fun m hheld hs => ⟨sdCard_eq hstart hn hs hheld, sdCard_eq hstart hn hs hheld⟩⟩
  · -- the call never returns anything but 0
    have hread := h.read ⟨fun _ => 0, fun _ _ => 0, fun _ _ => true⟩ ⟨haddr, fun _ _ => rfl⟩
    by_cases hlt : n < 2 ^ 31
    · rw [sdCardRead, sdCard_aligned hstart hn hlt] at hread
      rcases Option.map_eq_some_iff.1 hread with ⟨_, _, heq⟩
      have := congrArg Prod.fst heq
      omega
    · rw [sdCardRead, sdCard, if_neg (by omega), if_neg (by omega), if_pos (by omega)] at hread
      cases hread
  · subst h
    have hcall : ∀ w m, sdCard w isUser addr start 0 m = some (0, m) :=
      fun w m => sdCard_aligned hstart rfl (by omega)
    refine ⟨fun m _ => ?_, fun m _ => ?_, fun m r₁ m₁ r₂ m₂ h₁ h₂ => ?_⟩
    · simp [sdCardRead, hcall, slice_zero, Machine.move]
    · simp [sdCardWrite, hcall, slice_zero, Machine.move]
    · cases (hcall true m).symm.trans h₁
      cases (hcall false m).symm.trans h₂
      rfl

/-- All memory is there, and the disk is full of ones. -/
def onesDisk : Machine := ⟨fun _ => 1, fun _ _ => 0, fun _ _ => true⟩

theorem raw_transfer_of_sector :
    (Exact true 0x1000 0 512 ↔ 512 = 0) ∧
      sdCardRead true 0x1000 0 512 onesDisk = some (0, onesDisk.move false true 0x1000 0 262144) :=
  ⟨(raw_transfer_exact_iff rfl rfl (by decide)).1,
    ((raw_transfer_exact_iff rfl rfl (by decide)).2 onesDisk ⟨by decide, fun _ _ => rfl⟩ (by decide)).1⟩

/-- A read of one sector: the byte behind the buffer is overwritten too, and the call returns 0. -/
theorem sector_read_overruns :
    (∃ m, sdCardRead true 0x1000 0 512 onesDisk = some (0, m) ∧ m.mem true 0x1200 ≠ onesDisk.mem true 0x1200) ∧
      ¬Exact true 0x1000 0 512 := by
  have hread : sdCardRead true 0x1000 0 512 onesDisk = some (0, onesDisk.move false true 0x1000 0 262144) :=
    sdCard_eq rfl rfl (by decide) ⟨by decide, fun _ _ => rfl⟩
  have hbyte : ∀ {len : Nat}, 512 < len → (onesDisk.move false true 0x1000 0 len).mem true 0x1200 = 1 := by
    intro len hlen
    change overlay (fun _ => 0) 0x1000 (slice _ 0 len) 0x1200 = _
    rw [overlay_of_mem (by decide) (by rw [length_slice]; exact hlen)]
    simp [slice, onesDisk]
  refine ⟨⟨_, hread, ?_⟩, fun h => ?_⟩
  · rw [hbyte (by decide)]
    decide
  · have hexact := h.read onesDisk ⟨by decide, fun _ _ => rfl⟩
    rw [hread] at hexact
    cases congrArg (Option.map Prod.fst) hexact

end Bio
end OsRiscv
