import OsRiscv.Exec.Elf
import OsRiscv.Lib.Run
import OsRiscv.Lib.Word

/-!
# Regions — the heaps of a process

`growproc` and `sys_sbrk` of `Page.c`, and the calls `brk`, `sbrk`, `mmap` and `munmap` as far as they move the two
heaps.  The area for `mmap` lies below the one for `brk`, and that below the stack.  `do_mmap` is in `Elf`.

`allocated` says whether there are pages for the range that a call fills; `pageAlloc` panics when there are none.
-/

namespace OsRiscv
namespace Memory

open Lib Exec

def userBrkHeapTop : Nat := userStackBottom
def userMmapHeapTop : Nat := userBrkHeapBottom

/-! ## The calls -/

/-- `growproc`; the sum has 64 bits, and `n` is extended with its sign. -/
def growproc (h : Heaps) (n : Int) (allocated : Bool) : Except Panic (Int × Heaps) :=
  let target := ((h.brkHeapBottom + n) % 2 ^ 64).toNat
  if userBrkHeapTop ≤ target then
    .ok (-1, h)
  else
    let start := upAlign h.brkHeapBottom
    let finish := upAlign target
    if userStackBottom ≤ finish then
      .error .assertion
    else if start < finish ∧ allocated = false then
      .error .noPage
    else
      .ok (0, { h with brkHeapBottom := finish })

/-- `sys_sbrk`; a `u32` is passed as an `int`. -/
def sysSbrk (h : Heaps) (len : Nat) (allocated : Bool) : Except Panic (Int × Heaps) := do
  let (r, h') ← growproc h (int len) allocated
  if r < 0 then return (-1, h') else return (h.brkHeapBottom, h')

/-- `syscallBrk`; `a0` keeps the address whatever `sys_sbrk` returns. -/
def syscallBrk (h : Heaps) (addr : Nat) (allocated : Bool) : Except Panic (Int × Heaps) :=
  if addr = 0 then
    .ok (h.brkHeapBottom, h)
  else if h.brkHeapBottom ≤ addr then do
    let (_, h') ← sysSbrk h ((addr - h.brkHeapBottom) % 2 ^ 32) allocated
    return (addr, h')
  else
    .ok (addr, h)

/-- `syscallMapMemory` for a mapping at a place of the kernel's choice. -/
def syscallMapMemory (h : Heaps) (len : Nat) (allocated : Bool) : Except Panic (Int × Heaps) :=
  if len = 0 then
    .ok (-22, h)
  else do
    let (addr, h') ← doMmap h 0 len false
    if addr < (addr + len) % 2 ^ 64 ∧ allocated = false then .error .noPage else return (addr, h')

inductive HeapAct
  | brk (addr : Nat) (allocated : Bool)
  | sbrk (len : Nat) (allocated : Bool)
  | mmap (len : Nat) (allocated : Bool)
  /-- `munmap` removes pages; `r` is its result -/
  | munmap (start len : Nat) (r : Int)

def HeapAct.Typed : HeapAct → Prop
  | .brk addr _ => addr < 2 ^ 64
  | .sbrk len _ => len < 2 ^ 32
  | .mmap len _ => len < 2 ^ 64
  | .munmap _ _ _ => True

def heapStep (h : Heaps) : HeapAct → Except Panic (Int × Heaps)
  | .brk addr allocated => syscallBrk h addr allocated
  | .sbrk len allocated => sysSbrk h len allocated
  | .mmap len allocated => syscallMapMemory h len allocated
  | .munmap _ _ r => .ok (r, h)

/-! ## The areas -/

/-- Each heap ends in its area. -/
structure InArea (h : Heaps) : Prop where
  brkLow : userBrkHeapBottom ≤ h.brkHeapBottom
  brkHigh : h.brkHeapBottom ≤ userBrkHeapTop
  mmapLow : userMmapHeapBottom ≤ h.mmapHeapBottom
  mmapHigh : h.mmapHeapBottom ≤ userMmapHeapTop

/-- The range that `mmap` returns is in its area. -/
def Placed : HeapAct → Int → Prop
  | .mmap len _, r => 0 ≤ r → (userMmapHeapBottom : Int) ≤ r ∧ r + len ≤ userMmapHeapTop
  | _, _ => True

/-- The break does not go back by more than to the page that ends where the heap begins. -/
def SbrkKeeps (h : Heaps) (len : Nat) : Prop := (userBrkHeapBottom : Int) < h.brkHeapBottom + int len + pageSize

/-- What has to hold before a call. -/
def Keeps (h : Heaps) : HeapAct → Prop
  | .brk addr _ => addr = 0 ∨ addr < h.brkHeapBottom ∨ SbrkKeeps h ((addr - h.brkHeapBottom) % 2 ^ 32)
  | .sbrk len _ => SbrkKeeps h len
  | .mmap len _ => len = 0 ∨ upAlign h.mmapHeapBottom + len ≤ userMmapHeapTop
  | .munmap _ _ _ => True

variable {h h' : Heaps} {n r : Int} {x len addr : Nat} {allocated : Bool} {a : HeapAct}

lemma upAlign_spec (hx : x ≤ 2 ^ 64 - pageSize) :
    x ≤ upAlign x ∧ upAlign x < x + pageSize ∧ upAlign x % pageSize = 0 := by
  unfold upAlign downAlign pageSize at *
  omega

/-- What `growproc` does to a break in its area. -/
theorem growproc_cases (hi : InArea h) (hn : -2 ^ 31 ≤ n ∧ n < 2 ^ 31) (hok : growproc h n allocated = .ok (r, h')) :
    (h' = h ∧ 0 ≤ n) ∨
      (h' = { h with brkHeapBottom := upAlign (h.brkHeapBottom + n).toNat } ∧ 0 ≤ h.brkHeapBottom + n ∧
        h.brkHeapBottom + n < userBrkHeapTop ∧ upAlign (h.brkHeapBottom + n).toNat < userStackBottom) := by
  have hlow := hi.brkLow
  have hhigh := hi.brkHigh
  unfold growproc at hok
  dsimp only at hok
  unfold userBrkHeapBottom at hlow
  unfold userBrkHeapTop userStackBottom at hhigh
  have hmod : ((h.brkHeapBottom : Int) + n) % 2 ^ 64 = h.brkHeapBottom + n := by omega
  rw [hmod] at hok
  split at hok
  · rename_i hfull
    cases hok
    unfold userBrkHeapTop userStackBottom at hfull
    exact .inl ⟨rfl, by omega⟩
  · split at hok
    · cases hok
    · split at hok
      · cases hok
      · cases hok
        exact .inr ⟨rfl, by omega, by omega, by omega⟩

lemma growproc_iff (hi : InArea h) (hn : -2 ^ 31 ≤ n ∧ n < 2 ^ 31) (hok : growproc h n allocated = .ok (r, h')) :
    InArea h' ↔ (userBrkHeapBottom : Int) < h.brkHeapBottom + n + pageSize := by
  have hlow := hi.brkLow
  rcases growproc_cases hi hn hok with ⟨rfl, hpos⟩ | ⟨rfl, hnonneg, htop, hfinish⟩
  · constructor
    · unfold pageSize
      omega
    · intro _
      exact hi
  · have hspec := upAlign_spec (x := (h.brkHeapBottom + n).toNat)
      (by unfold userBrkHeapTop userStackBottom at htop; unfold pageSize; omega)
    unfold pageSize at hspec ⊢
    constructor
    · intro hin
      have := hin.brkLow
      dsimp only at this
      omega
    · intro hback
      refine ⟨?_, Nat.le_of_lt hfinish, hi.mmapLow, hi.mmapHigh⟩
      -- both ends are multiples of the page size
      have haligned : userBrkHeapBottom % 4096 = 0 := by decide
      dsimp only
      omega

lemma sbrk_iff (hi : InArea h) (hok : sysSbrk h len allocated = .ok (r, h')) : InArea h' ↔ SbrkKeeps h len := by
  unfold sysSbrk at hok
  cases hgrow : growproc h (int len) allocated with
  | error e =>
    rw [hgrow] at hok
    cases hok
  | ok x =>
    rcases x with ⟨r', h''⟩
    have hsame : h' = h'' := by
      rw [hgrow] at hok
      simp only [bind, Except.bind, pure, Except.pure] at hok
      split at hok
      · cases hok
        rfl
      · cases hok
        rfl
    rw [hsame]
    exact growproc_iff hi (int_lt _) hgrow

lemma brk_iff (hi : InArea h) (hok : syscallBrk h addr allocated = .ok (r, h')) :
    InArea h' ↔ Keeps h (.brk addr allocated) := by
  unfold syscallBrk at hok
  split at hok
  · rename_i hzero
    cases hok
    exact iff_of_true hi (.inl hzero)
  · rename_i hne
    split at hok
    · cases hsbrk : sysSbrk h ((addr - h.brkHeapBottom) % 2 ^ 32) allocated with
      | error e =>
        rw [hsbrk] at hok
        cases hok
      | ok x =>
        rw [hsbrk] at hok
        cases hok
        rw [sbrk_iff hi hsbrk]
        constructor
        · intro hkeeps
          exact .inr (.inr hkeeps)
        · rintro (hzero | hlt | hkeeps)
          · exact absurd hzero hne
          · omega
          · exact hkeeps
    · rename_i hlt
      cases hok
      exact iff_of_true hi (.inr (.inl (Nat.not_le.1 hlt)))

lemma doMmap_eq (hok : doMmap h 0 len false = .ok (addr, h')) : addr = upAlign h.mmapHeapBottom ∧
      h' = { h with mmapHeapBottom := upAlign ((upAlign h.mmapHeapBottom + len) % 2 ^ 64) } := by
  unfold doMmap at hok
  rw [if_neg (by simp)] at hok
  dsimp only at hok
  rw [if_pos rfl] at hok
  split at hok
  · cases hok
  · rw [if_pos rfl, if_neg (by simp)] at hok
    rcases Prod.mk.inj (Except.ok.inj hok) with ⟨haddr, hh'⟩
    exact ⟨haddr.symm, hh'.symm⟩

lemma mmap_iff (hi : InArea h) (hlen : len < 2 ^ 64) (hok : syscallMapMemory h len allocated = .ok (r, h')) :
    InArea h' ∧ Placed (.mmap len allocated) r ↔ Keeps h (.mmap len allocated) := by
  have hlow := hi.mmapLow
  have hhigh := hi.mmapHigh
  unfold syscallMapMemory at hok
  unfold Keeps Placed
  split at hok
  · rename_i hzero
    cases hok
    exact iff_of_true ⟨hi, fun h0 => by omega⟩ (.inl hzero)
  · rename_i hpos
    cases hmap : doMmap h 0 len false with
    | error e =>
      rw [hmap] at hok
      cases hok
    | ok x =>
      rcases x with ⟨addr, h''⟩
      rcases doMmap_eq hmap with ⟨haddr, hh''⟩
      have hspec := upAlign_spec (x := h.mmapHeapBottom)
        (by unfold userMmapHeapTop userBrkHeapBottom at hhigh; unfold pageSize; omega)
      rw [hmap] at hok
      have hresult : h' = h'' ∧ r = addr := by
        simp only [bind, Except.bind, pure, Except.pure] at hok
        split at hok
        · cases hok
        · cases hok
          exact ⟨rfl, rfl⟩
      rcases hresult with ⟨rfl, rfl⟩
      rw [← haddr] at hh'' hspec ⊢
      subst hh''
      have htop : userMmapHeapTop = 0x3ebfffd000 := rfl
      constructor
      · rintro ⟨hin, hplaced⟩
        omega
      · rintro (hzero | hfits)
        · exact absurd hzero hpos
        · have hmod : (addr + len) % 2 ^ 64 = addr + len := Nat.mod_eq_of_lt (by omega)
          have hend := upAlign_spec (x := addr + len) (by unfold pageSize; omega)
          unfold pageSize at hend
          rw [hmod]
          refine ⟨⟨hi.brkLow, hi.brkHigh, ?_, ?_⟩, ?_⟩
          · dsimp only
            omega
          · dsimp only
            omega
          · intro _
            constructor
            · omega
            · omega

/-! ## Runs -/

lemma heapStep_iff (hi : InArea h) (ha : a.Typed) (hok : heapStep h a = .ok (r, h')) :
    InArea h' ∧ Placed a r ↔ Keeps h a := by
  cases a with
  | brk addr allocated => exact (and_iff_left trivial).trans (brk_iff hi hok)
  | sbrk len allocated => exact (and_iff_left trivial).trans (sbrk_iff hi hok)
  | mmap len allocated => exact mmap_iff hi ha hok
  | munmap start len r' =>
    cases hok
    exact iff_of_true ⟨hi, trivial⟩ trivial

/-- The heaps of a process after `exec`. -/
def freshHeaps : Heaps := ⟨userBrkHeapBottom, userMmapHeapBottom⟩

lemma freshHeaps_inArea : InArea freshHeaps := ⟨by decide, by decide, by decide, by decide⟩

/-- Calls that meet the condition, in any order, leave the heaps in their areas and place every mapping in its own, apart
from the heap of `brk` and the stack.  A call that does not meet it breaks this. -/
theorem regions_apart (acts : List HeapAct) (h : Heaps)
    (hrun : Run (fun h a h' => a.Typed ∧ Keeps h a ∧ ∃ r, heapStep h a = .ok (r, h')) freshHeaps acts h) :
    InArea h ∧ ∀ a r h', a.Typed → heapStep h a = .ok (r, h') → (InArea h' ∧ Placed a r ↔ Keeps h a) := by
  have hinv : InArea h := by
    refine Run.invariant hrun freshHeaps_inArea ?_
    rintro h a h' hi ⟨ha, hkeeps, r, hok⟩
    exact ((heapStep_iff hi ha hok).2 hkeeps).1
  exact ⟨hinv, fun a r h' ha hok => heapStep_iff hinv ha hok⟩

/-- The first `sbrk` with 2^31 takes the break back by 2 GiB, into the area for `mmap`; a first `mmap` of all but a
page of the numbers takes the other heap below its area.  Neither needs a page. -/
theorem heaps_leave_area :
    heapStep freshHeaps (.sbrk 0x80000000 false) = .ok (0x3ebfffd000, ⟨0x3e3fffd000, userMmapHeapBottom⟩) ∧
    ¬InArea ⟨0x3e3fffd000, userMmapHeapBottom⟩ ∧
    heapStep freshHeaps (.mmap (2 ^ 64 - 4096) false) = .ok (0x3dbfffd000, ⟨userBrkHeapBottom, 0x3dbfffc000⟩) ∧
    ¬InArea ⟨userBrkHeapBottom, 0x3dbfffc000⟩ := by
  refine ⟨by decide, fun hin => ?_, by decide, fun hin => ?_⟩
  · exact absurd hin.brkLow (by decide)
  · exact absurd hin.mmapLow (by decide)

/-- A process takes a page of each heap. -/
theorem regions_apart_two : InArea ⟨0x3ebfffe000, 0x3dbfffe000⟩ := by
  have hbrk : heapStep freshHeaps (.sbrk 4096 true) = .ok (0x3ebfffd000, ⟨0x3ebfffe000, userMmapHeapBottom⟩) := by
    decide
  have hmmap : heapStep ⟨0x3ebfffe000, userMmapHeapBottom⟩ (.mmap 4096 true) =
      .ok (0x3dbfffd000, ⟨0x3ebfffe000, 0x3dbfffe000⟩) := by
    decide
  refine (regions_apart [.sbrk 4096 true, .mmap 4096 true] _ ?_).1
  refine .cons ⟨show 4096 < 2 ^ 32 by decide, show SbrkKeeps freshHeaps 4096 from ?_, _, hbrk⟩ ?_
  · show (userBrkHeapBottom : Int) < freshHeaps.brkHeapBottom + int 4096 + pageSize
    decide
  · exact .cons ⟨show 4096 < 2 ^ 64 by decide, .inr (by decide), _, hmmap⟩ (.nil _)

end Memory
end OsRiscv
