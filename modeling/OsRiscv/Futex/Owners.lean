import OsRiscv.Futex.Exact

/-!
# Owners — whose threads a futex call reaches

The entries of `futexQueue` hold a virtual address and a thread, and no address space: waiters of
different processes on equal addresses are in one queue.  A call of process `P` stays inside `P` exactly
when the waiters it takes or moves happen to be threads of `P`.
-/

namespace OsRiscv
namespace Futex

open Lib List
open Sched
open Threads

/-! ## The calls -/

/-- The calls of a thread that act on the waiters of an address. -/
inductive Call
  | wake (addr : Nat) (n : Int)
  | requeue (addr : Nat) (n : Int) (newAddr : Nat)
  /-- the part of `threadFree` about `clearChildTid` -/
  | exit

def Call.run (s : Kern) (i : Nat) : Call → Kern
  | .wake addr n => Threads.futexWake s addr n
  | .requeue addr n newAddr => { s with hart := Sched.futexRequeue s.hart addr n newAddr }
  | .exit => wakeJoiner s i

/-- The process of a thread. -/
def home (s : Kern) (i : Nat) : Nat := (s.task i).process

/-- The entries of one thread. -/
def entries (queue : List (FutexQueue Nat)) (i : Nat) : List (FutexQueue Nat) :=
  queue.filter fun e => owner e = some i

/-- The threads that the call takes or moves. -/
def Call.Reaches (s : Kern) (i : Nat) : Call → Nat → Prop
  | .wake addr n, j => j ∈ selected s.hart.futexQueue addr n
  | .requeue addr n newAddr, j => j ∈ selected s.hart.futexQueue addr n ∨
      j ∈ waiters s.hart.futexQueue addr ∧ newAddr ≠ addr
  | .exit, j => (s.task i).clearChildTid ≠ 0 ∧
      j ∈ selected s.hart.futexQueue (s.task i).clearChildTid 1

/-- From `s` to `t` nothing happens to threads outside the process `p`, and no thread outside `p` uses
up a wake that leaves a waiter of `p` on the same address waiting. -/
structure StaysInside (s t : Kern) (p : Nat) : Prop where
  only : ∀ j, t.hart.thread j ≠ s.hart.thread j ∨
    entries t.hart.futexQueue j ≠ entries s.hart.futexQueue j → home s j = p
  notLost : ∀ addr j k, j ∈ waiters s.hart.futexQueue addr → ¬Waits t.hart.futexQueue j →
    home s j ≠ p → k ∈ waiters s.hart.futexQueue addr → home s k = p → ¬Waits t.hart.futexQueue k

/-! ## Entries -/

variable {queue : List (FutexQueue Nat)} {i j : Nat} {l : List Nat} {addr newAddr : Nat}

lemma waits_iff_entries : Waits queue i ↔ entries queue i ≠ [] := by
  rw [← mem_sleepers, sleepers, mem_filterMap]
  constructor
  · rintro ⟨e, he, howner⟩ hnil
    have hmem : e ∈ entries queue i := mem_filter.2 ⟨he, decide_eq_true howner⟩
    rw [hnil] at hmem
    cases hmem
  · intro hne
    rcases exists_mem_of_ne_nil _ hne with ⟨e, he⟩
    exact ⟨e, (mem_filter.1 he).1, of_decide_eq_true (mem_filter.1 he).2⟩

lemma entries_invalidate (queue : List (FutexQueue Nat)) (l : List Nat) (i : Nat) :
    entries (queue.map (invalidate l)) i = if i ∈ l then [] else entries queue i := by
  induction queue with
  | nil => simp [entries]
  | cons e es ih =>
    unfold entries at ih ⊢
    rw [map_cons, filter_cons, filter_cons, ih, owner_invalidate]
    by_cases howner : owner e = some i
    · by_cases hi : i ∈ l
      · simp [howner, hi, Option.filter_some]
      · rw [invalidate_of_not_mem (by simp [howner, hi])]
        simp [howner, hi, Option.filter_some]
    · have hfilter : (owner e).filter (· ∉ l) ≠ some i := by
        intro h
        exact howner (Option.filter_eq_some_iff.1 h).1
      simp only [hfilter, howner, decide_false]
      simp

lemma entries_move (queue : List (FutexQueue Nat)) (addr newAddr : Nat) (i : Nat) :
    entries (queue.map (move addr newAddr)) i = (entries queue i).map (move addr newAddr) := by
  unfold entries
  rw [filter_map]
  congr 1
  refine filter_congr ?_
  intro e _
  exact congrArg (fun o => decide (o = some i)) (owner_move addr newAddr e)

lemma entries_map_move_iff : (entries queue i).map (move addr newAddr) ≠ entries queue i ↔
      i ∈ waiters queue addr ∧ newAddr ≠ addr := by
  rw [mem_waiters]
  constructor
  · intro hne
    by_contra hnot
    apply hne
    refine (map_congr_left ?_).trans (map_id _)
    intro e he
    have howner : owner e = some i := of_decide_eq_true (mem_filter.1 he).2
    unfold move
    split
    · next hm =>
        have haddr : newAddr = addr := by
          by_contra hna
          exact hnot ⟨⟨e, (mem_filter.1 he).1, hm.2, howner⟩, hna⟩
        rw [haddr, ← hm.2]
        rfl
    · rfl
  · rintro ⟨⟨e, he, haddr, howner⟩, hna⟩ heq
    have hmem : e ∈ entries queue i := mem_filter.2 ⟨he, decide_eq_true howner⟩
    have hfix : move addr newAddr e = e := by
      have hid : (entries queue i).map (move addr newAddr) = (entries queue i).map id := by
        rw [heq, map_id]
      exact map_inj_left.1 hid e hmem
    have hv : e.valid = true := (owner_eq_some.1 howner).1
    rw [move, if_pos ⟨hv, haddr⟩] at hfix
    have hcontra := congrArg FutexQueue.addr hfix
    exact hna (hcontra.trans haddr)

/-! ## What a call does to one thread -/

variable {s t : Kern} {p : Nat}

/-- A call changes the record or the entries of exactly the threads it reaches. -/
def ActsOn (s t : Kern) (reached : Nat → Prop) : Prop :=
  ∀ j, (t.hart.thread j ≠ s.hart.thread j ∨
    entries t.hart.futexQueue j ≠ entries s.hart.futexQueue j) ↔ reached j

lemma mem_entries_of_selected {n : Int} (hj : j ∈ selected queue addr n) : entries queue j ≠ [] := by
  apply waits_iff_entries.1
  apply mem_sleepers.1
  exact (waiters_sublist queue addr).subset ((selected_sublist queue addr n).subset hj)

section

variable (hp : Proper s.hart.futexQueue)
include hp

lemma futexWake_actsOn (addr : Nat) (n : Int) :
    ActsOn s (Threads.futexWake s addr n) (· ∈ selected s.hart.futexQueue addr n) := by
  intro j
  unfold Threads.futexWake
  rw [futexWake_eq hp]
  rw [entries_invalidate]
  by_cases hj : j ∈ selected s.hart.futexQueue addr n
  · have hne := mem_entries_of_selected hj
    simp only [hj, if_true, iff_true]
    exact .inr fun h => hne h.symm
  · simp [hj]

lemma futexRequeue_actsOn (addr : Nat) (n : Int) (newAddr : Nat) :
    ActsOn s { s with hart := Sched.futexRequeue s.hart addr n newAddr } fun j =>
      j ∈ selected s.hart.futexQueue addr n ∨
        j ∈ waiters s.hart.futexQueue addr ∧ newAddr ≠ addr := by
  intro j
  have hqueue : (Sched.futexRequeue s.hart addr n newAddr).futexQueue =
      (s.hart.futexQueue.map (invalidate (selected s.hart.futexQueue addr n))).map
        (move addr newAddr) := by
    rw [futexRequeue_eq hp, map_map]
    rfl
  rw [hqueue, entries_move, entries_invalidate, futexRequeue_eq hp]
  by_cases hj : j ∈ selected s.hart.futexQueue addr n
  · have hne := mem_entries_of_selected hj
    simp only [hj, if_true, true_or, iff_true]
    exact .inr fun h => hne h.symm
  · simp only [hj, if_false, false_or, ne_eq, not_true_eq_false]
    exact entries_map_move_iff

lemma wakeJoiner_actsOn (i : Nat) :
    ActsOn s (wakeJoiner s i) fun j => (s.task i).clearChildTid ≠ 0 ∧
      j ∈ selected s.hart.futexQueue (s.task i).clearChildTid 1 := by
  intro j
  unfold wakeJoiner
  split
  · next hset =>
      rw [futexWake_actsOn hp _ _ j]
      simp [hset]
  · next hset =>
      simp [hset]

lemma Call.actsOn (i : Nat) (c : Call) : ActsOn s (c.run s i) (c.Reaches s i) := by
  cases c with
  | wake addr n => exact futexWake_actsOn hp addr n
  | requeue addr n newAddr => exact futexRequeue_actsOn hp addr n newAddr
  | exit => exact wakeJoiner_actsOn hp i

end

/-! ## Inside one process -/

/-- A call that touches exactly some threads stays inside `p` exactly when these are threads of `p`. -/
theorem ActsOn.staysInside_iff {reached : Nat → Prop} (hact : ActsOn s t reached) :
    StaysInside s t p ↔ ∀ j, reached j → home s j = p := by
  constructor
  · intro h j hj
    exact h.only j ((hact j).2 hj)
  · intro h
    have honly : ∀ j, t.hart.thread j ≠ s.hart.thread j ∨
        entries t.hart.futexQueue j ≠ entries s.hart.futexQueue j → home s j = p :=
      fun j hj => h j ((hact j).1 hj)
    refine ⟨honly, ?_⟩
    intro addr j k hj hgone hhome _ _ _
    -- a thread that waits no more was touched
    apply hhome
    apply honly j
    right
    intro heq
    have hwaits : Waits s.hart.futexQueue j := mem_sleepers.1 ((waiters_sublist _ addr).subset hj)
    rw [waits_iff_entries] at hwaits hgone
    exact hgone (heq ▸ hwaits)

variable {addrOf : Nat → Nat} {frames : Nat → Trapframe} {trapframe : Trapframe}
  {acts : List Threads.Act}

/-- In every reachable state, a wake, a requeue or an exit of a thread stays inside its process exactly when
every waiter that the call takes or moves belongs to that process. -/
theorem futex_stays_inside_iff
    (hrun : Run (fun s a t => Threads.step addrOf s a = some t) (boot frames trapframe) acts s) (i : Nat) (c : Call) :
    StaysInside s (c.run s i) (home s i) ↔ ∀ j, c.Reaches s i j → home s j = home s i :=
  (c.actsOn (run_sound hrun).proper i).staysInside_iff

/-- A waiter, thread 1, of the process of the current thread 0. -/
def oneProcess : List Threads.Act :=
  [.processCreate 0, .yield [0, 0], .threadFork 0 0 0, .yield [0, 0], .futexWait 100 none [0, 0]]

lemma oneProcess_view : ∃ s, Run (fun s a t => Threads.step id s a = some t) (boot (fun _ => default) default)
        oneProcess s ∧
      s.hart.currentThread = some 0 ∧ home s 1 = home s 0 ∧ waiters s.hart.futexQueue 100 = [1] := by
  refine exists_run (P := fun s => s.hart.currentThread = some 0 ∧ home s 1 = home s 0 ∧
    waiters s.hart.futexQueue 100 = [1]) (by decide +kernel) ?_
  intro s _ hview
  exact hview

/-- Thread 0 wakes thread 1. -/
theorem futex_wake_stays_inside :
    ∃ s, Run (fun s a t => Threads.step id s a = some t) (boot (fun _ => default) default) oneProcess s ∧
      s.hart.currentThread = some 0 ∧ (Call.wake 100 1).Reaches s 0 1 ∧
      StaysInside s ((Call.wake 100 1).run s 0) (home s 0) := by
  rcases oneProcess_view with ⟨s, hrun, hcur, hhome, hwaiters⟩
  have hselected : selected s.hart.futexQueue 100 1 = [1] := by
    simp [selected, hwaiters]
  refine ⟨s, hrun, hcur, by simp [Call.Reaches, hselected], (futex_stays_inside_iff hrun 0 (.wake 100 1)).2 ?_⟩
  intro j hj
  obtain rfl : j = 1 := by simpa [Call.Reaches, hselected] using hj
  exact hhome

/-- The waiters of two processes on one address: thread 1 is of another process, thread 2 of the
process of the current thread 0. -/
def twoProcesses : List Threads.Act :=
  [.processCreate 0, .yield [0, 0], .processFork, .threadFork 0 0 0, .yield [0, 0],
    .futexWait 100 none [0, 0], .futexWait 100 none [0, 0, 0]]

lemma twoProcesses_view : ∃ s, Run (fun s a t => Threads.step id s a = some t) (boot (fun _ => default) default)
        twoProcesses s ∧
      s.hart.currentThread = some 0 ∧ [0, 1, 2].map (home s) = [0, 1, 0] ∧
      waiters s.hart.futexQueue 100 = [1, 2] := by
  refine exists_run (P := fun s => s.hart.currentThread = some 0 ∧ [0, 1, 2].map (home s) = [0, 1, 0] ∧
    waiters s.hart.futexQueue 100 = [1, 2]) (by decide +kernel) ?_
  intro s _ hview
  exact hview


/-- Thread 0 wakes one waiter of address 100: thread 1 of the other process is made runnable, and
thread 2 of its own process goes on waiting. -/
theorem wake_reaches_other_process :
    ∃ s, Run (fun s a t => Threads.step id s a = some t) (boot (fun _ => default) default)
        twoProcesses s ∧
      s.hart.currentThread = some 0 ∧ home s 1 ≠ home s 0 ∧ home s 2 = home s 0 ∧
      (((Call.wake 100 1).run s 0).hart.thread 1).state = .runnable ∧
      Waits ((Call.wake 100 1).run s 0).hart.futexQueue 2 ∧
      ¬StaysInside s ((Call.wake 100 1).run s 0) (home s 0) := by
  rcases twoProcesses_view with ⟨s, hrun, hcur, hhome, hwaiters⟩
  have hp := (run_sound hrun).proper
  have hselected : selected s.hart.futexQueue 100 1 = [1] := by
    simp [selected, hwaiters]
  have h0 : home s 0 = 0 := (List.cons.inj hhome).1
  have h1 : home s 1 = 1 := (List.cons.inj (List.cons.inj hhome).2).1
  have h2 : home s 2 = 0 := (List.cons.inj (List.cons.inj (List.cons.inj hhome).2).2).1
  have hwaits : Waits s.hart.futexQueue 2 :=
    mem_sleepers.1 ((waiters_sublist _ 100).subset (by simp [hwaiters]))
  refine ⟨s, hrun, hcur, by simp [h0, h1], by rw [h0, h2], ?_, ?_, ?_⟩
  · simp [Call.run, Threads.futexWake, futexWake_eq hp, hselected, released]
  · simp only [Call.run, Threads.futexWake, futexWake_eq hp, hselected]
    exact waits_invalidate.2 ⟨hwaits, by simp⟩
  · intro hinside
    have hhome1 := ((Call.wake 100 1).actsOn hp 0).staysInside_iff.1 hinside 1
      (by simp [Call.Reaches, hselected])
    rw [h0, h1] at hhome1
    cases hhome1

end Futex
end OsRiscv
