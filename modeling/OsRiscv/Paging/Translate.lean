import OsRiscv.Paging.Map

/-!
# Translate — user addresses in the kernel

`vir2phy` of `Page.c`, and the copies between kernel and user memory that translate with it: `copyin`, `copyout`
and `memsetOut` of `Page.c`, `copyinstr` of `Sysarg.c`.  `pageout`, which reads the program's file, is a parameter.

`pageWalk` reports a missing table by a null pointer.  `vir2phy` does not test for it.
-/

namespace OsRiscv
namespace Paging

abbrev Byte := BitVec 8

namespace Mem

/-- The word of a page that holds a byte, and the place of the byte in it. -/
def wordOf (pa : Word) : Ptr := (downAlign pa, Fin.ofNat 512 (pa.toNat / 8))

def shiftOf (pa : Word) : Nat := 8 * (pa.toNat % 8)

def byte (m : Mem) (pa : Word) : Byte := (m.load (wordOf pa) >>> shiftOf pa).setWidth 8

def setByte (m : Mem) (pa : Word) (b : Byte) : Mem :=
  m.store (wordOf pa) ((m.load (wordOf pa) &&& ~~~((0xff : Word) <<< shiftOf pa)) ||| (b.setWidth 64 <<< shiftOf pa))

def bytes (m : Mem) (pa : Word) (n : Nat) : List Byte := (List.range n).map fun j => m.byte (pa + BitVec.ofNat 64 j)

def setBytes (m : Mem) (pa : Word) : List Byte → Mem
  | [] => m
  | b :: bs => (m.setByte pa b).setBytes (pa + 1) bs

end Mem

/-- `vir2phy`: the address it returns, and what it stores in `*cow`. -/
def vir2phy (m : Mem) (pagetable va : Word) : Except Stop (Word × Option Bool) :=
  if maxVa ≤ va.toNat then .ok (0, none)
  else
    match entryOf m pagetable va with
    | none => .error .nullDereference
    | some pte =>
      if has (m.load pte) pteValid then
        if has (m.load pte) pteUser then
          .ok (pte2Pa (m.load pte) + (va &&& 0xfff), some (has (m.load pte) pteCow))
        else .ok (0, none)
      else .ok (0, none)

/-! ## Copies -/

abbrev Pageout := Mem → Word → Except Stop (Word × Mem)

/-- The statements of `copyin` and `copyinstr` that find the page. -/
def locate (pageout : Pageout) (m : Mem) (pagetable va : Word) : Except Stop (Word × Mem) := do
  let (pa0, _) ← vir2phy m pagetable va
  if pa0 = 0 then pageout m va else return (pa0, m)

/-- The same in `copyout` and `memsetOut`, which separate a shared page first. -/
def locateToWrite (pageout : Pageout) (m : Mem) (pagetable va : Word) : Except Stop (Word × Mem) := do
  let (pa0, cow) ← vir2phy m pagetable va
  if pa0 = 0 then pageout m va
  else if cow = some true then cowHandler m pagetable va
  else return (pa0, m)

/-- How much of the rest is on the page of `va`. -/
def onPage (va : Word) (len : Nat) : Nat := min (4096 - va.toNat % 4096) len

lemma onPage_pos (va : Word) {len : Nat} (hlen : 0 < len) : 0 < onPage va len := by
  unfold onPage
  omega

/-- The bytes that `copyin` stores at `dst`. -/
def copyin (pageout : Pageout) (pagetable : Word) (m : Mem) (srcva : Word) (len : Nat) :
    Except Stop (List Byte × Mem) :=
  if _hlen : 0 < len then do
    let (pa0, m) ← locate pageout m pagetable srcva
    let n := onPage srcva len
    let (rest, m') ← copyin pageout pagetable m (downAlign srcva + 4096) (len - n)
    return (m.bytes pa0 n ++ rest, m')
  else return ([], m)
termination_by len
decreasing_by
  have := onPage_pos srcva _hlen
  omega

def copyout (pageout : Pageout) (pagetable : Word) (m : Mem) (dstva : Word) (src : List Byte) : Except Stop Mem :=
  if _hlen : 0 < src.length then do
    let (pa0, m) ← locateToWrite pageout m pagetable dstva
    let n := onPage dstva src.length
    copyout pageout pagetable (m.setBytes pa0 (src.take n)) (downAlign dstva + 4096) (src.drop n)
  else return m
termination_by src.length
decreasing_by
  have := onPage_pos dstva _hlen
  rw [List.length_drop]
  omega

def memsetOut (pageout : Pageout) (pgdir : Word) (m : Mem) (dst : Word) (value : Byte) (len : Nat) :
    Except Stop Mem :=
  if _hlen : 0 < len then do
    let (pa0, m) ← locateToWrite pageout m pgdir dst
    let n := onPage dst len
    memsetOut pageout pgdir (m.setBytes pa0 (List.replicate n value)) (downAlign dst + 4096) value (len - n)
  else return m
termination_by len
decreasing_by
  have := onPage_pos dst _hlen
  omega

/-- The bytes that `copyinstr` stores at `dst`, and whether it found the end of the string. -/
def copyinstr (pageout : Pageout) (pagetable : Word) (m : Mem) (srcva : Word) (max : Nat) :
    Except Stop ((List Byte × Bool) × Mem) :=
  if _hmax : 0 < max then do
    let (pa0, m) ← locate pageout m pagetable srcva
    let n := onPage srcva max
    let text := (m.bytes pa0 n).takeWhile (· ≠ 0)
    if text.length < n then return ((text ++ [0], true), m)
    else do
      let ((rest, found), m) ← copyinstr pageout pagetable m (downAlign srcva + 4096) (max - n)
      return ((text ++ rest, found), m)
  else return (([], false), m)
termination_by max
decreasing_by
  have := onPage_pos srcva _hmax
  omega

/-! ## Translation -/

variable {m : Mem} {pgdir va : Word}

/-- There is a valid entry for a user page. -/
def UserLeaf (m : Mem) (pgdir va : Word) : Prop :=
  va.toNat < maxVa ∧ has (m.entry pgdir va) pteValid = true ∧ has (m.entry pgdir va) pteUser = true

instance (m : Mem) (pgdir va : Word) : Decidable (UserLeaf m pgdir va) := inferInstanceAs (Decidable (_ ∧ _ ∧ _))

/-- The first thing the call does is `pageout` of this address. -/
def ReachesPageout {α : Type} (m : Mem) (va : Word) (call : Pageout → Except Stop α) : Prop :=
  ∃ rest : Pageout → Word × Mem → Except Stop α, ∀ pageout, call pageout = (pageout m va).bind (rest pageout)

structure TranslationTotal (m : Mem) (pgdir va : Word) : Prop where
  vir2phy : vir2phy m pgdir va = .ok (if UserLeaf m pgdir va then
    (pte2Pa (m.entry pgdir va) + (va &&& 0xfff), some (has (m.entry pgdir va) pteCow)) else (0, none))
  copyin : ¬UserLeaf m pgdir va → ∀ len > 0, ReachesPageout m va fun pageout => copyin pageout pgdir m va len
  copyout : ¬UserLeaf m pgdir va → ∀ src ≠ [], ReachesPageout m va fun pageout => copyout pageout pgdir m va src
  memsetOut : ¬UserLeaf m pgdir va → ∀ value, ∀ len > 0,
    ReachesPageout m va fun pageout => memsetOut pageout pgdir m va value len
  copyinstr : ¬UserLeaf m pgdir va → ∀ max > 0,
    ReachesPageout m va fun pageout => copyinstr pageout pgdir m va max

/-- The tables of the first two levels are there. -/
def TablesPresent (m : Mem) (pgdir va : Word) : Prop := (m.node pgdir (pathOf va)).isSome = true

lemma vir2phy_of_table (hva : va.toNat < maxVa) (htable : TablesPresent m pgdir va) :
    vir2phy m pgdir va = .ok (if UserLeaf m pgdir va then
      (pte2Pa (m.entry pgdir va) + (va &&& 0xfff), some (has (m.entry pgdir va) pteCow)) else (0, none)) := by
  rcases Option.isSome_iff_exists.1 htable with ⟨k, hk⟩
  have hentry : entryOf m pgdir va = some (k, getPageTableIndex va 0) := by
    rw [entryOf_eq, hk]
    rfl
  unfold vir2phy
  rw [if_neg (Nat.not_le.2 hva), hentry]
  dsimp only
  rw [load_entryOf hentry]
  by_cases hvalid : has (m.entry pgdir va) pteValid = true
  · rw [if_pos hvalid]
    by_cases huser : has (m.entry pgdir va) pteUser = true
    · have hyes : UserLeaf m pgdir va := ⟨hva, hvalid, huser⟩
      rw [if_pos huser, if_pos hyes]
    · have hno : ¬UserLeaf m pgdir va := fun h => huser h.2.2
      rw [if_neg huser, if_neg hno]
  · have hno : ¬UserLeaf m pgdir va := fun h => hvalid h.2.1
    rw [if_neg hvalid, if_neg hno]

lemma vir2phy_of_maxVa (hva : maxVa ≤ va.toNat) : vir2phy m pgdir va = .ok (0, none) := if_pos hva

lemma vir2phy_of_missing (hva : va.toNat < maxVa) (hmissing : ¬TablesPresent m pgdir va) :
    vir2phy m pgdir va = .error .nullDereference := by
  have hnone : m.node pgdir (pathOf va) = none := Option.not_isSome_iff_eq_none.1 hmissing
  unfold vir2phy
  rw [if_neg (Nat.not_le.2 hva), entryOf_eq, hnone]
  rfl

lemma locate_of_zero {pageout : Pageout} (h : vir2phy m pgdir va = .ok (0, none)) :
    locate pageout m pgdir va = pageout m va ∧ locateToWrite pageout m pgdir va = pageout m va := by
  unfold locate locateToWrite
  rw [h]
  exact ⟨rfl, rfl⟩

theorem translation_total_iff (m : Mem) (pgdir va : Word) :
    TranslationTotal m pgdir va ↔ maxVa ≤ va.toNat ∨ TablesPresent m pgdir va := by
  constructor
  · intro h
    by_contra hnot
    have hva : va.toNat < maxVa := Nat.not_le.1 fun hle => hnot (.inl hle)
    have herror : vir2phy m pgdir va = .error .nullDereference :=
      vir2phy_of_missing hva fun ht => hnot (.inr ht)
    have hok := h.vir2phy
    rw [herror] at hok
    cases hok
  · intro h
    have hvir : vir2phy m pgdir va = .ok (if UserLeaf m pgdir va then
        (pte2Pa (m.entry pgdir va) + (va &&& 0xfff), some (has (m.entry pgdir va) pteCow)) else (0, none)) := by
      by_cases hva : va.toNat < maxVa
      · rcases h with hge | htable
        · exact absurd hva (Nat.not_lt.2 hge)
        · exact vir2phy_of_table hva htable
      · have hno : ¬UserLeaf m pgdir va := fun hl => hva hl.1
        rw [if_neg hno]
        exact vir2phy_of_maxVa (Nat.not_lt.1 hva)
    have hzero : ¬UserLeaf m pgdir va → vir2phy m pgdir va = .ok (0, none) := by
      intro hno
      rw [hvir, if_neg hno]
    refine ⟨hvir, ?_, ?_, ?_, ?_⟩
    · intro hno len hlen
      refine ⟨fun pageout found => do
        let (rest, m') ← Paging.copyin pageout pgdir found.2 (downAlign va + 4096) (len - onPage va len)
        return (found.2.bytes found.1 (onPage va len) ++ rest, m'), fun pageout => ?_⟩
      beta_reduce
      rw [copyin, dif_pos hlen, (locate_of_zero (hzero hno)).1]
      rfl
    · intro hno src hsrc
      refine ⟨fun pageout found => Paging.copyout pageout pgdir
        (found.2.setBytes found.1 (src.take (onPage va src.length))) (downAlign va + 4096)
        (src.drop (onPage va src.length)), fun pageout => ?_⟩
      beta_reduce
      rw [copyout, dif_pos (List.length_pos_iff.2 hsrc), (locate_of_zero (hzero hno)).2]
      rfl
    · intro hno value len hlen
      refine ⟨fun pageout found => Paging.memsetOut pageout pgdir
        (found.2.setBytes found.1 (List.replicate (onPage va len) value)) (downAlign va + 4096) value
        (len - onPage va len), fun pageout => ?_⟩
      beta_reduce
      rw [memsetOut, dif_pos hlen, (locate_of_zero (hzero hno)).2]
      rfl
    · intro hno max hmax
      refine ⟨fun pageout found =>
        let text := (found.2.bytes found.1 (onPage va max)).takeWhile (· ≠ 0)
        if text.length < onPage va max then return ((text ++ [0], true), found.2)
        else do
          let ((rest, found), m) ←
            Paging.copyinstr pageout pgdir found.2 (downAlign va + 4096) (max - onPage va max)
          return ((text ++ rest, found), m), fun pageout => ?_⟩
      beta_reduce
      rw [copyinstr, dif_pos hmax, (locate_of_zero (hzero hno)).1]
      rfl

/-- An address in a region that has no table yet: every translation of it is a null dereference. -/
theorem untouched_region_faults :
    Tables twoPages {0x80300000} ∧ vir2phy twoPages 0x80300000 0x10000 = .error .nullDereference ∧
      (∀ pageout, copyin pageout 0x80300000 twoPages 0x10000 8 = .error .nullDereference) ∧
      ¬TranslationTotal twoPages 0x80300000 0x10000 := by
  have hvir : vir2phy twoPages 0x80300000 0x10000 = .error .nullDereference :=
    vir2phy_of_missing (by decide +kernel) (fun h => by cases h)
  refine ⟨tables_twoPages, hvir, ?_, ?_⟩
  · intro pageout
    rw [copyin, dif_pos (by decide), locate, hvir]
    rfl
  · intro h
    have hok := h.vir2phy
    cases hok

end Paging
end OsRiscv
