import Mathlib.Data.List.Nodup
import Mathlib.Data.List.Perm.Basic
import OsRiscv.Sched.Restart

/-!
# Queue — what the operations of `Futex.c` do to `futexQueue`

`futexQueue` is an array of entries; the valid ones are the waiters.  In a proper queue every valid
entry names a thread and no thread has two.  Then `futexWake` and `futexRequeue` are equations: a list
of threads is selected, exactly these are released, and the entries change accordingly.
-/

namespace OsRiscv
namespace Futex

open List

open Sched

variable {ι : Type*} {queue : List (FutexQueue ι)} {e : FutexQueue ι} {i : ι} {l : List ι}

/-- The thread that waits with this entry. -/
def owner (e : FutexQueue ι) : Option ι := if e.valid then e.thread else none

/-- The threads that wait, in the order of their entries. -/
def sleepers (queue : List (FutexQueue ι)) : List ι := queue.filterMap owner

/-- The threads that wait on `addr`. -/
def waiters (queue : List (FutexQueue ι)) (addr : Nat) : List ι :=
  sleepers (queue.filter (·.addr = addr))

/-- The threads that `futexWake` takes: the first `n`, and all of them for a negative `n`. -/
def selected (queue : List (FutexQueue ι)) (addr : Nat) (n : Int) : List ι :=
  if 0 ≤ n then (waiters queue addr).take n.toNat else waiters queue addr

/-- A thread that `futexWake` has taken. -/
def released (th : Thread) : Thread :=
  { th with state := .runnable, trapframe := { th.trapframe with a0 := 0 } }

structure Proper (queue : List (FutexQueue ι)) : Prop where
  nodup : (sleepers queue).Nodup
  owned : ∀ e ∈ queue, e.valid = true → ∃ i, e.thread = some i

lemma owner_eq_some : owner e = some i ↔ e.valid = true ∧ e.thread = some i := by
  unfold owner
  split
  · next h => simp [h]
  · next h => simp [h]

lemma mem_sleepers : i ∈ sleepers queue ↔ Waits queue i := by
  constructor
  · intro h
    rcases mem_filterMap.1 h with ⟨e, he, howner⟩
    exact ⟨e, he, owner_eq_some.1 howner⟩
  · rintro ⟨e, he, hv⟩
    exact mem_filterMap.2 ⟨e, he, owner_eq_some.2 hv⟩

lemma waiters_sublist (queue : List (FutexQueue ι)) (addr : Nat) : (waiters queue addr).Sublist (sleepers queue) :=
  filter_sublist.filterMap _

lemma selected_sublist (queue : List (FutexQueue ι)) (addr : Nat) (n : Int) :
    (selected queue addr n).Sublist (waiters queue addr) := by
  unfold selected
  split
  · exact take_sublist _ _
  · exact .refl _

lemma mem_waiters {addr : Nat} :
    i ∈ waiters queue addr ↔ ∃ e ∈ queue, e.addr = addr ∧ owner e = some i := by
  unfold waiters sleepers
  rw [mem_filterMap]
  constructor
  · rintro ⟨e, he, howner⟩
    rw [mem_filter, decide_eq_true_iff] at he
    exact ⟨e, he.1, he.2, howner⟩
  · rintro ⟨e, he, haddr, howner⟩
    exact ⟨e, mem_filter.2 ⟨he, decide_eq_true haddr⟩, howner⟩

lemma length_selected {addr : Nat} {n : Int} (hn : 0 ≤ n) :
    (selected queue addr n).length = min n.toNat (waiters queue addr).length := by
  rw [selected, if_pos hn, length_take]

/-! ## Entry by entry -/

section cons

variable {e : FutexQueue ι} {es : List (FutexQueue ι)} {addr : Nat} {n : Int} {i : ι}

lemma selected_zero (queue : List (FutexQueue ι)) (addr : Nat) : selected queue addr 0 = [] := by
  simp [selected]

lemma selected_cons_match (hv : e.valid = true) (haddr : e.addr = addr) (ht : e.thread = some i)
    (hn : n ≠ 0) : selected (e :: es) addr n = i :: selected es addr (n - 1) := by
  have hwaiters : waiters (e :: es) addr = i :: waiters es addr := by
    simp [waiters, sleepers, haddr, owner, hv, ht]
  unfold selected
  rw [hwaiters]
  by_cases h0 : 0 ≤ n
  · have hpos : 0 ≤ n - 1 := by omega
    have hsucc : n.toNat = (n - 1).toNat + 1 := by omega
    rw [if_pos h0, if_pos hpos, hsucc, take_succ_cons]
  · have hneg : ¬0 ≤ n - 1 := by omega
    rw [if_neg h0, if_neg hneg]

lemma selected_cons_skip (h : ¬(e.valid = true ∧ e.addr = addr)) :
    selected (e :: es) addr n = selected es addr n := by
  have hwaiters : waiters (e :: es) addr = waiters es addr := by
    unfold waiters sleepers
    by_cases haddr : e.addr = addr
    · have hv : e.valid = false := by simpa [haddr] using h
      simp [haddr, owner, hv]
    · simp [haddr]
  unfold selected
  rw [hwaiters]

lemma Proper.tail (h : Proper (e :: es)) : Proper es ∧ ∀ i, owner e = some i → i ∉ sleepers es := by
  have hnodup := h.nodup
  unfold sleepers at hnodup
  refine ⟨⟨?_, fun x hx => h.owned x (mem_cons_of_mem _ hx)⟩, ?_⟩
  · cases howner : owner e with
    | none =>
      rw [filterMap_cons_none howner] at hnodup
      exact hnodup
    | some i =>
      rw [filterMap_cons_some howner] at hnodup
      exact (nodup_cons.1 hnodup).2
  · intro i howner
    rw [filterMap_cons_some howner] at hnodup
    exact (nodup_cons.1 hnodup).1

end cons

/-! ## Releasing -/

variable [DecidableEq ι]

/-- The entry after the threads `l` have been released. -/
def invalidate (l : List ι) (e : FutexQueue ι) : FutexQueue ι :=
  if ∃ i ∈ l, owner e = some i then { e with valid := false } else e

lemma invalidate_of_not_mem (h : ∀ i, owner e = some i → i ∉ l) :
    invalidate l e = e := by
  unfold invalidate
  rw [if_neg]
  rintro ⟨i, hi, howner⟩
  exact h i howner hi

lemma invalidate_of_mem (howner : owner e = some i)
    (hi : i ∈ l) : invalidate l e = { e with valid := false } := by
  unfold invalidate
  rw [if_pos ⟨i, hi, howner⟩]

lemma invalidate_congr {l m : List ι}
    (h : ∀ i, owner e = some i → (i ∈ l ↔ i ∈ m)) : invalidate l e = invalidate m e := by
  unfold invalidate
  congr 1
  apply propext
  constructor
  · rintro ⟨i, hi, howner⟩
    exact ⟨i, (h i howner).1 hi, howner⟩
  · rintro ⟨i, hi, howner⟩
    exact ⟨i, (h i howner).2 hi, howner⟩

lemma owner_invalidate (l : List ι) (e : FutexQueue ι) : owner (invalidate l e) = (owner e).filter (· ∉ l) := by
  cases howner : owner e with
  | none =>
    rw [invalidate_of_not_mem (by simp [howner]), howner]
    rfl
  | some i =>
    by_cases hi : i ∈ l
    · rw [invalidate_of_mem howner hi]
      simp [owner, hi, Option.filter_some]
    · rw [invalidate_of_not_mem (by simp [howner, hi]), howner]
      simp [hi, Option.filter_some]

lemma sleepers_invalidate (l : List ι) (queue : List (FutexQueue ι)) :
    sleepers (queue.map (invalidate l)) = (sleepers queue).filter (· ∉ l) := by
  unfold sleepers
  rw [filterMap_map, filter_filterMap]
  congr 1
  funext e
  exact owner_invalidate l e

lemma waits_invalidate :
    Waits (queue.map (invalidate l)) i ↔ Waits queue i ∧ i ∉ l := by
  rw [← mem_sleepers, sleepers_invalidate, mem_filter, mem_sleepers, decide_eq_true_iff]

lemma Proper.invalidate (h : Proper queue) (l : List ι) :
    Proper (queue.map (invalidate l)) where
  nodup := by
    rw [sleepers_invalidate]
    exact h.nodup.filter _
  owned := by
    intro e he hv
    rcases mem_map.1 he with ⟨x, hx, rfl⟩
    unfold Futex.invalidate at hv ⊢
    split at hv
    · cases hv
    · next hnot =>
        rw [if_neg hnot]
        exact h.owned x hx hv

/-- The loop of `futexWake`: the selected threads are released, their entries become invalid, and
nothing else changes. -/
theorem futexWakeLoop_eq (hp : Proper queue) (addr : Nat) (n : Int)
    (thread : ι → Thread) : futexWakeLoop addr queue n thread =
      (queue.map (invalidate (selected queue addr n)),
        fun i => if i ∈ selected queue addr n then released (thread i) else thread i) := by
  induction queue generalizing n thread with
  | nil => simp [futexWakeLoop, selected, waiters, sleepers]
  | cons e es ih =>
    rcases hp.tail with ⟨htail, hfresh⟩
    have hsub : ∀ m i, i ∈ selected es addr m → i ∈ sleepers es := by
      intro m i hi
      exact (waiters_sublist es addr).subset ((selected_sublist es addr m).subset hi)
    unfold futexWakeLoop
    by_cases hn : n = 0
    · rw [if_pos hn, hn, selected_zero]
      have hid : ∀ x : FutexQueue ι, invalidate [] x = x := by
        intro x
        exact invalidate_of_not_mem (by simp)
      rw [map_id'' hid]
      simp
    · rw [if_neg hn]
      by_cases hmatch : e.valid = true ∧ e.addr = addr
      · rcases hp.owned e (by simp) hmatch.1 with ⟨i, hi⟩
        have howner : owner e = some i := owner_eq_some.2 ⟨hmatch.1, hi⟩
        have hnot := hfresh i howner
        rw [if_pos hmatch, selected_cons_match hmatch.1 hmatch.2 hi hn, ih htail]
        refine Prod.ext ?_ ?_
        · rw [map_cons, invalidate_of_mem howner (by simp)]
          refine congrArg ({ e with valid := false } :: ·) (map_congr_left ?_)
          -- no later entry belongs to the thread just taken
          intro x hx
          apply invalidate_congr
          intro j hj
          have hmem : j ∈ sleepers es := mem_filterMap.2 ⟨x, hx, hj⟩
          have hne : j ≠ i := fun hji => hnot (hji ▸ hmem)
          simp [hne]
        · funext j
          by_cases hji : j = i
          · have hnoti : i ∉ selected es addr (n - 1) := fun hin => hnot (hsub _ _ hin)
            simp [hji, hi, futexRelease, released, hnoti]
          · simp [hji, hi, futexRelease]
      · rw [if_neg hmatch, selected_cons_skip hmatch, ih htail]
        have hkeep : invalidate (selected es addr n) e = e := by
          apply invalidate_of_not_mem
          intro i howner hi
          exact hfresh i howner (hsub _ _ hi)
        rw [map_cons, hkeep]

variable {h h' : Hart ι} {addr newAddr : Nat} {n : Int} {i b : ι} {clock : List Nat}

lemma futexWake_eq (hp : Proper h.futexQueue) : futexWake h addr n = { h with
      futexQueue := h.futexQueue.map (invalidate (selected h.futexQueue addr n))
      thread := fun i =>
        if i ∈ selected h.futexQueue addr n then released (h.thread i) else h.thread i } := by
  unfold futexWake
  rw [futexWakeLoop_eq hp]

/-- The entry of a thread that `futexRequeue` does not release. -/
def move (addr newAddr : Nat) (e : FutexQueue ι) : FutexQueue ι :=
  if e.valid ∧ e.addr = addr then { e with addr := newAddr } else e

omit [DecidableEq ι] in
lemma owner_move (addr newAddr : Nat) (e : FutexQueue ι) : owner (move addr newAddr e) = owner e := by
  unfold move owner
  split
  · rfl
  · rfl

lemma futexRequeue_eq (hp : Proper h.futexQueue) : futexRequeue h addr n newAddr = { h with
      futexQueue := h.futexQueue.map fun e =>
        move addr newAddr (invalidate (selected h.futexQueue addr n) e)
      thread := fun i =>
        if i ∈ selected h.futexQueue addr n then released (h.thread i) else h.thread i } := by
  unfold futexRequeue
  rw [futexWake_eq hp]
  simp only [map_map]
  rfl

lemma futexClear_queue : (futexClear h b).futexQueue = h.futexQueue.map (invalidate [b]) := by
  refine map_congr_left ?_
  intro e _
  unfold invalidate
  simp only [mem_singleton, exists_eq_left, owner_eq_some]

/-! ## The operations keep the queue proper -/

lemma Proper.futexWake (hp : Proper h.futexQueue) : Proper (futexWake h addr n).futexQueue := by
  rw [futexWake_eq hp]
  exact hp.invalidate _

lemma sleepers_futexRequeue : sleepers (futexRequeue h addr n newAddr).futexQueue =
      sleepers (futexWake h addr n).futexQueue := by
  unfold sleepers futexRequeue
  rw [filterMap_map]
  congr 1
  funext e
  exact owner_move addr newAddr e

lemma Proper.futexRequeue (hp : Proper h.futexQueue) : Proper (futexRequeue h addr n newAddr).futexQueue := by
  have hwake : Proper (Sched.futexWake h addr n).futexQueue := hp.futexWake
  refine ⟨?_, ?_⟩
  · rw [sleepers_futexRequeue]
    exact hwake.nodup
  · intro e he hv
    rcases mem_map.1 he with ⟨x, hx, rfl⟩
    by_cases hm : x.valid ∧ x.addr = addr
    · simp only [hm, and_self, if_true] at hv ⊢
      exact hwake.owned x hx hm.1
    · simp only [hm, if_false] at hv ⊢
      exact hwake.owned x hx hv

omit [DecidableEq ι] in
lemma futexInsert_spec {queue queue' : List (FutexQueue ι)} (hinsert : futexInsert addr i queue = some queue') :
    (sleepers queue').Perm (i :: sleepers queue) ∧
      ∀ e ∈ queue', e ∈ queue ∨ e = { addr := addr, thread := some i, valid := true } := by
  induction queue generalizing queue' with
  | nil => cases hinsert
  | cons e es ih =>
    unfold futexInsert at hinsert
    cases hv : e.valid with
    | true =>
      simp only [hv, if_true] at hinsert
      rcases Option.map_eq_some_iff.1 hinsert with ⟨es', hes, rfl⟩
      rcases ih hes with ⟨hperm, hmem⟩
      constructor
      · unfold sleepers at hperm ⊢
        cases howner : owner e with
        | none =>
          rw [filterMap_cons_none howner, filterMap_cons_none howner]
          exact hperm
        | some j =>
          rw [filterMap_cons_some howner, filterMap_cons_some howner]
          exact (hperm.cons j).trans (.swap i j _)
      · intro x hx
        rcases mem_cons.1 hx with rfl | hx
        · exact .inl (by simp)
        · exact (hmem x hx).imp_left (mem_cons_of_mem _)
    | false =>
      simp only [hv] at hinsert
      cases hinsert
      constructor
      · -- the entry that is filled was not a waiter
        have hnone : owner e = none := by simp [owner, hv]
        unfold sleepers
        rw [filterMap_cons_none hnone, filterMap_cons_some (b := i) (by simp [owner])]
      · intro x hx
        rcases mem_cons.1 hx with rfl | hx
        · exact .inr rfl
        · exact .inl (mem_cons_of_mem _ hx)

omit [DecidableEq ι] in
lemma Proper.futexInsert {queue queue' : List (FutexQueue ι)} (hp : Proper queue)
    (hi : ¬Waits queue i) (hinsert : futexInsert addr i queue = some queue') : Proper queue' := by
  rcases futexInsert_spec hinsert with ⟨hperm, hmem⟩
  constructor
  · rw [hperm.nodup_iff, nodup_cons, mem_sleepers]
    exact ⟨hi, hp.nodup⟩
  · intro e he hv
    rcases hmem e he with hold | rfl
    · exact hp.owned e hold hv
    · exact ⟨i, rfl⟩

/-! ## What `yield` does to the queue, and whom it selects -/

lemma yield_queue (hyield : yield clock h = some (b, h')) : h'.futexQueue = h.futexQueue.map (invalidate [b]) := by
  rcases Option.bind_eq_some_iff.1 hyield with ⟨⟨b', p⟩, _, hret⟩
  rcases Prod.mk.inj (Option.some.inj hret) with ⟨rfl, rfl⟩
  rw [(threadRun_spec _ _).2.1, futexClear_queue, (endTimedSleep_spec _ _).2.2.1]
  rw [(giveUpHart_spec h).2.2.1]

/-- `yield`'s loop ends with a thread that is runnable and whose time has come. -/
def Selectable (h : Hart ι) (i : ι) (now : Nat) : Prop :=
  (h.thread i).state = .runnable ∧ (h.thread i).awakeTime ≤ now

omit [DecidableEq ι] in
lemma yieldLoop_selects {thread : ι → Thread} {p q : Pick ι} (hloop : yieldLoop thread clock p = some (b, q)) :
    ∃ now, (thread b).state = .runnable ∧ (thread b).awakeTime ≤ now := by
  induction clock generalizing p with
  | nil => cases hloop
  | cons now clock ih =>
    unfold yieldLoop at hloop
    cases hmay : mayRun thread p now with
    | none =>
      rw [hmay] at hloop
      exact ih hloop
    | some c =>
      rw [hmay] at hloop
      cases hloop
      unfold mayRun at hmay
      split at hmay
      · split at hmay
        · next hok =>
            cases hmay
            exact ⟨now, hok.2⟩
        · cases hmay
      · cases hmay

lemma yield_selects (hyield : yield clock h = some (b, h')) : ∃ now, Selectable (giveUpHart h) b now := by
  rcases Option.bind_eq_some_iff.1 hyield with ⟨⟨b', p⟩, hloop, hret⟩
  rcases Prod.mk.inj (Option.some.inj hret) with ⟨rfl, _⟩
  exact yieldLoop_selects hloop

lemma yield_state (hyield : yield clock h = some (b, h')) (hib : i ≠ b) :
    (h'.thread i).state = ((giveUpHart h).thread i).state := by
  rcases Option.bind_eq_some_iff.1 hyield with ⟨⟨b', p⟩, _, hret⟩
  rcases Prod.mk.inj (Option.some.inj hret) with ⟨rfl, rfl⟩
  rw [(threadRun_spec _ _).2.2.2.2.2.2 i hib]
  change ((endTimedSleep _ b').thread i).state = _
  rw [(endTimedSleep_spec _ _).2.2.2]
  simp [hib]

lemma giveUpHart_of_not_running (hrun : (h.thread i).state ≠ .running) : (giveUpHart h).thread i = h.thread i := by
  by_cases hcur : h.currentThread = some i
  · simp [giveUpHart, hcur, hrun]
  · exact (giveUpHart_spec h).2.2.2.2 i hcur

lemma Proper.yield (hp : Proper h.futexQueue) (hyield : yield clock h = some (b, h')) : Proper h'.futexQueue := by
  rw [yield_queue hyield]
  exact hp.invalidate _

end Futex
end OsRiscv
