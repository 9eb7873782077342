import OsRiscv.Exec.Model

/-!
# Bitmaps — the three allocators that search a bitmap

`inodeAlloc`, `pipeAlloc`, `segmentMapAlloc` and the functions that free, over the words of memory that start
with the bitmap.  The loop of `inodeAlloc` compares its word number with `sizeof(inodeBitmap)`, which counts
bytes: with all inodes in use it goes on through the words that follow the bitmap.
-/

namespace OsRiscv
namespace Bitmaps

open Lib Bitmap

def inodeAlloc := Fat.inodeScan

def pipeAlloc := scan (Files.maxPipe / 64)

def segmentMapAlloc := scan (Exec.segmentMapNumber / 64)

/-- `inodeFree` asserts the bit that it clears, the two others do not. -/
def inodeFree (words : Nat → BitVec 64) (x : Nat) : Option (Nat → BitVec 64) :=
  if bit words x then some (clear words x) else none

def pipeFree (words : Nat → BitVec 64) (off : Nat) : Option (Nat → BitVec 64) := some (clear words off)

def segmentMapFree (words : Nat → BitVec 64) (off : Nat) : Option (Nat → BitVec 64) := some (clear words off)

inductive Allocator
  | inode
  | pipe
  | segmentMap
  deriving DecidableEq, Repr

namespace Allocator

/-- The elements of the array: `INODE_NUM`, `MAX_PIPE`, `SEGMENT_MAP_NUMBER`. -/
def size : Allocator → Nat
  | inode => Fat.inodeNum
  | pipe => Files.maxPipe
  | segmentMap => Exec.segmentMapNumber

def alloc : Allocator → (Nat → BitVec 64) → Option (Nat × (Nat → BitVec 64))
  | inode => inodeAlloc
  | pipe => pipeAlloc
  | segmentMap => segmentMapAlloc

def free : Allocator → (Nat → BitVec 64) → Nat → Option (Nat → BitVec 64)
  | inode => inodeFree
  | pipe => pipeFree
  | segmentMap => segmentMapFree

lemma alloc_eq (a : Allocator) : ∃ n, a.alloc = scan n ∧ a.size ≤ 64 * n ∧
    64 * n = if a = .inode then 8192 else a.size := by
  cases a
  all_goals exact ⟨_, rfl, by unfold size; decide +kernel⟩

lemma free_eq {a : Allocator} (h : a.free words x = some words') : words' = clear words x := by
  cases a with
  | inode => exact (Option.some.inj (Option.ite_none_right_eq_some.1 h).2).symm
  | pipe => exact (Option.some.inj h).symm
  | segmentMap => exact (Option.some.inj h).symm

end Allocator

/-- The words of memory, and the numbers that are handed out. -/
structure State where
  words : Nat → BitVec 64
  live : Finset Nat

inductive Act
  | alloc
  | free (x : Nat)
  deriving DecidableEq, Repr

def Act.Proper (s : State) : Act → Prop
  | alloc => True
  | free x => x ∈ s.live

instance (s : State) (act : Act) : Decidable (act.Proper s) := by
  cases act <;> unfold Act.Proper <;> infer_instance

/-- `inodeAlloc` returns -1 when it finds nothing, the two others panic. -/
def step (a : Allocator) (s : State) : Act → Option State
  | .alloc =>
    match a.alloc s.words with
    | some (x, words) => some ⟨words, insert x s.live⟩
    | none => if a = .inode then some s else none
  | .free x => (a.free s.words x).map fun words => ⟨words, s.live.erase x⟩

def AllocRun (a : Allocator) : State → List Act → State → Prop :=
  Run fun s act t => act.Proper s ∧ step a s act = some t

/-- What the next call of the allocator has to do. -/
structure Exact (a : Allocator) (s : State) : Prop where
  lowest : ∀ x words, a.alloc s.words = some (x, words) → x < a.size ∧ x ∉ s.live ∧
    (∀ y < x, y ∈ s.live) ∧ ∀ y, bit words y = (decide (y = x) || bit s.words y)
  exhausted : a.alloc s.words = none ↔ ∀ x < a.size, x ∈ s.live

variable {a : Allocator} {s t : State} {words : Nat → BitVec 64} {acts : List Act}

def Tracks (a : Allocator) (s : State) : Prop := ∀ x < a.size, bit s.words x = decide (x ∈ s.live)

lemma Tracks.step (h : Tracks a s) {act : Act} (hstep : step a s act = some t) : Tracks a t := by
  cases act with
  | alloc =>
    rcases a.alloc_eq with ⟨n, halloc, _⟩
    unfold Bitmaps.step at hstep
    rw [halloc, scan] at hstep
    cases hfirst : firstFree s.words n with
    | some x =>
      rw [hfirst] at hstep
      cases hstep
      intro y hy
      simp [h y hy, Bool.decide_or]
    | none =>
      rw [hfirst] at hstep
      dsimp only [Option.map_none] at hstep
      split at hstep
      · cases hstep
        exact h
      · cases hstep
  | free x =>
    rcases Option.map_eq_some_iff.1 hstep with ⟨words, hfree, rfl⟩
    rw [Allocator.free_eq hfree]
    intro y hy
    simp [h y hy, Bool.decide_and]

lemma AllocRun.tracks (h : AllocRun a s acts t) (hs : Tracks a s) : Tracks a t :=
  h.invariant hs fun _ _ _ hs hstep => hs.step hstep.2

/-- Every call does what it has to exactly as long as no `inodeAlloc` with all inodes in use finds a zero bit
behind the bitmap. -/
theorem allocators_exact_iff (hzero : ∀ x < a.size, bit words x = false) (hrun : AllocRun a ⟨words, ∅⟩ acts s) :
    Exact a s ↔ (a = .inode → (∀ x < a.size, x ∈ s.live) → ∀ y < 8192, a.size ≤ y → bit s.words y = true) := by
  have htracks : Tracks a s := hrun.tracks fun x hx => by simp [hzero x hx]
  have hlive : ∀ x < a.size, (x ∈ s.live ↔ bit s.words x = true) := fun x hx => by simp [htracks x hx]
  rcases a.alloc_eq with ⟨n, halloc, hsize, hbound⟩
  constructor
  · rintro h rfl hall y hy _
    by_contra hfree
    rcases firstFree_of_free (by rwa [hbound]) (by simpa using hfree) with ⟨d, hd, _⟩
    have hlow := h.lowest d _ (by rw [halloc, scan, hd]; rfl)
    exact hlow.2.1 (hall d hlow.1)
  · intro h
    have hfound : ∀ x, firstFree s.words n = some x → x < a.size ∧ x ∉ s.live ∧ ∀ y < x, y ∈ s.live := by
      intro x hx
      rcases firstFree_eq_some hx with ⟨hlt, hfree, hbelow⟩
      -- a number past the array is found only when every number of the array is live
      have hin : x < a.size := by
        by_contra hge
        have hall : ∀ y < a.size, y ∈ s.live := fun y hy => (hlive y hy).2 (hbelow y (by omega))
        split at hbound
        · rw [h ‹_› hall x (by omega) (by omega)] at hfree
          cases hfree
        · omega
      refine ⟨hin, ?_, fun y hy => (hlive y (by omega)).2 (hbelow y hy)⟩
      rw [hlive x hin, hfree]
      exact Bool.false_ne_true
    constructor
    · intro x words' hsome
      rw [halloc] at hsome
      rcases Option.map_eq_some_iff.1 hsome with ⟨_, hx, heq⟩
      cases heq
      rcases hfound x hx with ⟨hin, hnew, hbelow⟩
      exact ⟨hin, hnew, hbelow, fun y => bit_set⟩
    · rw [halloc, scan, Option.map_eq_none_iff]
      constructor
      · intro hnone x hx
        exact (hlive x hx).2 (firstFree_eq_none hnone (by omega))
      · intro hall
        cases hfirst : firstFree s.words n with
        | none => rfl
        | some x =>
          rcases hfound x hfirst with ⟨hin, hnew, _⟩
          exact absurd (hall x hin) hnew

theorem pipes_exact : ∃ s, AllocRun .pipe ⟨fun _ => 0, ∅⟩ [.alloc, .alloc, .free 0] s ∧ Exact .pipe s := by
  refine exists_run_guarded (P := fun _ => True) (by decide +kernel) fun s hrun _ => ?_
  exact (allocators_exact_iff (fun x _ => by simp [bit]) hrun).2 nofun

lemma inodeAlloc_next (hbits : ∀ x, bit words x = decide (x < n)) (hn : n < 8192) :
    inodeAlloc words = some (n, set words n) := by
  have hfree : bit words n = false := by simp [hbits]
  rcases firstFree_of_free (show n < 64 * 128 from hn) hfree with ⟨d, hd, hle⟩
  have hge : n ≤ d := by simpa [hbits] using (firstFree_eq_some hd).2.1
  have heq : firstFree words (Fat.inodeNum / 64 * 8) = some n := hd.trans (congrArg some (by omega))
  rw [inodeAlloc, Fat.inodeScan, scan, heq]
  rfl

lemma fill (hn : n ≤ 8192) : ∃ s, AllocRun .inode ⟨fun _ => 0, ∅⟩ (List.replicate n .alloc) s ∧
    ∀ x, bit s.words x = decide (x < n) := by
  induction n with
  | zero => exact ⟨_, .nil _, fun x => by simp [bit]⟩
  | succ n ih =>
    rcases ih (by omega) with ⟨s, hrun, hbits⟩
    refine ⟨⟨set s.words n, insert n s.live⟩, ?_, fun x => ?_⟩
    · rw [List.replicate_succ']
      exact hrun.snoc ⟨trivial, by simp [step, Allocator.alloc, inodeAlloc_next hbits (by omega)]⟩
    · rw [bit_set, hbits, ← Bool.decide_or]
      congr 1
      apply propext
      omega

/-- After 1024 allocations over zero memory the next inode number is past the array. -/
theorem inodeAlloc_overruns : ∃ s, AllocRun .inode ⟨fun _ => 0, ∅⟩ (List.replicate 1024 .alloc) s ∧ ¬ Exact .inode s := by
  rcases fill (n := 1024) (by decide) with ⟨s, hrun, hbits⟩
  refine ⟨s, hrun, fun h => ?_⟩
  have hlow := h.lowest 1024 _ (inodeAlloc_next hbits (by decide))
  exact absurd hlow.1 (by decide)

end Bitmaps
end OsRiscv
