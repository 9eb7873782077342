import OsRiscv.Memory.Regions
import OsRiscv.Paging.Fault

/-!
# Brk — what `brk` reports and what it maps

`syscallBrk` with the pages that `growproc` puts between the old break and the new one.  The register keeps the address
that was asked for whatever `sys_sbrk` returns, and the increment goes through a `u32` and an `int`.
-/

namespace OsRiscv
namespace Paging

open Lib
open Exec (Heaps upAlign userBrkHeapBottom userStackBottom)
open Memory (userBrkHeapTop freshHeaps syscallBrk)

/-! ## The calls -/

def heapPerm : Word := pteUser ||| pteRead ||| pteWrite ||| pteExecute

/-- A page that is shared gets a copy; `pageLookup` returns 0 without a page. -/
def unshare (m : Mem) (pgdir start : Word) : Except Stop Mem :=
  match (pageLookup m pgdir start).filter (·.1 ≠ 0) with
  | some (_, pte) => if has (m.load pte) pteCow then Prod.snd <$> cowHandler m pgdir start else return m
  | none => return m

/-- One round of the loop of `growproc`. -/
def growPage (m : Mem) (pgdir start : Word) : Except Stop Mem := do
  let m ← unshare m pgdir start
  Prod.snd <$> orPanic (mapPage m pgdir start (fun _ => 0) heapPerm)

/-- The loop, for `n` pages. -/
def growPages (pgdir : Word) : Nat → Word → Mem → Except Stop Mem
  | 0, _, m => return m
  | n + 1, start, m => do growPages pgdir n (start + 4096) (← growPage m pgdir start)

/-- `syscallBrk` with the memory; `pageAlloc` panics without a page. -/
def brkPages (m : Mem) (pgdir : Word) (h : Heaps) (addr : Nat) : Except Stop (Int × Heaps × Mem) :=
  match syscallBrk h addr true with
  | .error _ => .error .panic
  | .ok (a0, h') => do
      let start := upAlign h.brkHeapBottom
      let m ← growPages pgdir ((h'.brkHeapBottom - start) / pageSize) (BitVec.ofNat 64 start) m
      return (a0, h', m)

/-! ## What it should do -/

def usableBits : Word := pteValid ||| pteUser ||| pteRead ||| pteWrite

/-- A user may read and write the page of the entry. -/
def Usable (pte : Word) : Prop := pte &&& usableBits = usableBits

/-- The area has the address, and the increment is an `int`. -/
def CanGrow (h : Heaps) (addr : Nat) : Prop := addr < userBrkHeapTop ∧ addr - h.brkHeapBottom < 2 ^ 31

structure Truthful (h : Heaps) (m : Mem) (pgdir : Word) (addr : Nat) (a0 : Int) (h' : Heaps) (m' : Mem) : Prop where
  grown : addr ≤ a0 → addr ≤ h'.brkHeapBottom ∧
    ∀ va : Word, h.brkHeapBottom ≤ va.toNat → va.toNat < addr → Usable (m'.entry pgdir va)
  refused : ¬CanGrow h addr → a0 = h.brkHeapBottom ∧
    ∀ va : Word, va.toNat < h.brkHeapBottom → m'.entry pgdir va = m.entry pgdir va

/-- The rest of the page in which the old break is. -/
def RestUsable (h : Heaps) (m : Mem) (pgdir : Word) (addr : Nat) : Prop := ∀ va : Word,
  h.brkHeapBottom ≤ va.toNat → va.toNat < addr → va.toNat < upAlign h.brkHeapBottom → Usable (m.entry pgdir va)

variable {base : Word → Nat} {m m' : Mem} {L : Finset Word} {a va va' start pa page : Word} {h h' : Heaps}
  {addr n : Nat} {a0 : Int} {pte : Ptr}

/-! ## The loop -/

lemma usable_newEntry : Usable (newEntry page heapPerm) := by
  have hperm : (heapPerm ||| pteAccessed ||| pteDirty ||| pteValid) &&& usableBits = usableBits := by decide
  unfold Usable newEntry
  rw [BitVec.or_assoc]
  grind

lemma entry_of_page (hva : va.toNat < 2 ^ 39) (hva' : va'.toNat < 2 ^ 39) (hpage : pageOf va' = pageOf va) :
    m.entry a va' = m.entry a va := by
  rcases (pageOf_eq_iff hva hva').1 hpage with ⟨h2, h1, h0⟩
  unfold Mem.entry pathOf
  rw [h2, h1, h0]

lemma pageLookup_some (hlookup : pageLookup m a va = some (pa, pte)) :
    has (m.entry a va) pteValid = true ∧ m.load pte = m.entry a va := by
  rw [pageLookup_eq] at hlookup
  split at hlookup
  · rename_i hvalid
    rcases Option.map_eq_some_iff.1 hlookup with ⟨k, hk, hpte⟩
    cases hpte
    exact ⟨hvalid, (entry_of_node hk).symm⟩
  · cases hlookup

/-- Nothing but the page of `start` is mapped in another way. -/
structure Replaced (base : Word → Nat) (L : Finset Word) (a start : Word) (m m' : Mem) : Prop where
  accounts : Accounts base m' L
  others : ∀ va : Word, va.toNat < 2 ^ 39 → pageOf va ≠ pageOf start → m'.entry a va = m.entry a va

section

variable (hacc : Accounts base m L) (ha : a ∈ L) (hstart : start.toNat < 2 ^ 39)
include hacc ha hstart

omit hacc in
lemma Mapped.replaced {perm : Word} {content : Fin 512 → Word} (hm : Mapped base L a start perm content m page m') :
    Replaced base L a start m m' :=
  ⟨hm.accounts, fun _ hva hne => hm.sets.entry_of_ne ha hstart hva hne⟩

lemma unshare_replaced (hok : unshare m a start = .ok m') : Replaced base L a start m m' := by
  unfold unshare at hok
  cases hfound : (pageLookup m a start).filter (·.1 ≠ 0) with
  | none =>
    rw [hfound] at hok
    cases hok
    exact ⟨hacc, fun _ _ _ => rfl⟩
  | some x =>
    rcases pageLookup_some (Option.filter_eq_some_iff.1 hfound).1 with ⟨hvalid, hload⟩
    rw [hfound] at hok
    dsimp only at hok
    rw [hload] at hok
    split at hok
    · rename_i hcow
      rcases snd_map_ok hok with ⟨pa, hok⟩
      rw [cowHandler_eq hacc ha hvalid hcow] at hok
      rcases mapPage_mapped hacc ha (isPerm_ownPerm _) (ok_of_orPanic hok) with ⟨page, hm⟩
      exact hm.replaced ha hstart
    · cases hok
      exact ⟨hacc, fun _ _ _ => rfl⟩

lemma growPage_spec (hok : growPage m a start = .ok m') :
    Replaced base L a start m m' ∧ Usable (m'.entry a start) := by
  rcases bind_eq_ok.1 hok with ⟨u, hcow, hmap⟩
  have hu := unshare_replaced hacc ha hstart hcow
  rcases snd_map_ok hmap with ⟨pa, hmap⟩
  rcases mapPage_mapped hu.accounts ha (by decide) (ok_of_orPanic hmap) with ⟨page, hm⟩
  refine ⟨⟨hm.accounts, fun va hva hne => ?_⟩, ?_⟩
  · rw [(hm.replaced ha hstart).others va hva hne, hu.others va hva hne]
  · rw [hm.sets.entry ha]
    exact usable_newEntry

end

lemma growPages_spec (hacc : Accounts base m L) (ha : a ∈ L) (haligned : start.toNat % 4096 = 0)
    (hend : start.toNat + 4096 * n < 2 ^ 39) (hok : growPages a n start m = .ok m') (hva : va.toNat < 2 ^ 39) :
    (start.toNat ≤ va.toNat → va.toNat < start.toNat + 4096 * n → Usable (m'.entry a va)) ∧
      (va.toNat < start.toNat → m'.entry a va = m.entry a va) := by
  induction n generalizing start m with
  | zero =>
    cases hok
    exact ⟨fun _ _ => by omega, fun _ => rfl⟩
  | succ n ih =>
    rcases bind_eq_ok.1 hok with ⟨u, hone, hrest⟩
    rcases growPage_spec hacc ha (by omega) hone with ⟨hu, husable⟩
    have hnext : (start + 4096).toNat = start.toNat + 4096 := by bv_omega
    rcases ih hu.accounts (by omega) (by omega) hrest with ⟨hin, hout⟩
    rw [hnext] at hin hout
    constructor
    · intro hlow hhigh
      by_cases hfirst : va.toNat < start.toNat + 4096
      · -- the rounds that follow leave the first page alone
        have hpage : pageOf va = pageOf start := by
          unfold pageOf
          omega
        rw [hout hfirst, entry_of_page (by omega) hva hpage]
        exact husable
      · exact hin (by omega) (by omega)
    · intro hlow
      rw [hout (by omega), hu.others va hva (by unfold pageOf; omega)]

/-! ## The truth -/

lemma brk_register (hnew : h.brkHeapBottom < addr) (hok : syscallBrk h addr true = .ok (a0, h')) : a0 = addr := by
  unfold syscallBrk at hok
  rw [if_neg (by omega), if_pos (Nat.le_of_lt hnew)] at hok
  rcases bind_eq_ok.1 hok with ⟨x, _, hret⟩
  cases hret
  rfl

lemma brk_grown (hnew : h.brkHeapBottom < addr) (hgrow : CanGrow h addr)
    (hok : syscallBrk h addr true = .ok (a0, h')) :
    h'.brkHeapBottom = upAlign addr ∧ upAlign addr < userStackBottom := by
  have htop := hgrow.1
  have hint : int ((addr - h.brkHeapBottom) % 2 ^ 32 : Nat) = (addr - h.brkHeapBottom : Nat) := by
    rw [Nat.mod_eq_of_lt (Nat.lt_trans hgrow.2 (by decide))]
    exact int_of_lt (by omega) (by exact_mod_cast hgrow.2)
  have htarget : (((h.brkHeapBottom : Int) + (addr - h.brkHeapBottom : Nat)) % 2 ^ 64).toNat = addr := by
    unfold userBrkHeapTop userStackBottom at htop
    omega
  unfold syscallBrk at hok
  rw [if_neg (by omega), if_pos (Nat.le_of_lt hnew)] at hok
  unfold Memory.sysSbrk Memory.growproc at hok
  rw [hint] at hok
  dsimp only at hok
  rw [htarget, if_neg (Nat.not_le.2 htop)] at hok
  by_cases hstack : userStackBottom ≤ upAlign addr
  · rw [if_pos hstack] at hok
    cases hok
  · rw [if_neg hstack, if_neg (by simp)] at hok
    cases hok
    exact ⟨rfl, Nat.not_le.1 hstack⟩

end Paging
end OsRiscv
