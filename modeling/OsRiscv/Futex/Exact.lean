import OsRiscv.Futex.Queue
import OsRiscv.Threads.Accounting

/-!
# Exact — the futex queue over whole runs

In every reachable state the queue is proper, so `futexWake` and `futexRequeue` release exactly the
threads they select.  A thread that sleeps in `futexWait` has its entry for as long as it sleeps: every
move that takes the entry makes the thread runnable or running.
-/

namespace OsRiscv
namespace Futex

open Lib List
open Sched
open Threads

variable {h h' g : Hart Nat} {i : Nat} {clock : List Nat} {leaving : Bool}

/-! ## The queue stays proper -/

lemma Move.proper (hmove : Move leaving h g) (hp : Proper h.futexQueue) : Proper g.futexQueue := by
  cases hmove with
  | wake addr n => exact hp.futexWake
  | requeue addr n newAddr => exact hp.futexRequeue
  | insert i addr ts queue _ hcur hfree hqueue => exact hp.futexInsert hfree hqueue
  | user _ | rouse _ _ | own _ _ _ _ | create _ _ _ _ _ | free _ _ _ => exact hp

lemma Moves.proper (hmoves : Moves leaving h g) (hp : Proper h.futexQueue) : Proper g.futexQueue := by
  induction hmoves with
  | refl => exact hp
  | tail _ hmove ih => exact hmove.proper ih

lemma Moved.proper (hmoved : Moved h h') (hp : Proper h.futexQueue) : Proper h'.futexQueue := by
  rcases hmoved with hmoves | ⟨g, clock, b, hmoves, hyield⟩
  · exact Moves.proper hmoves hp
  · exact (Moves.proper hmoves hp).yield hyield

/-! ## Sleeping threads -/

/-- If the thread sleeps, it has an entry; and it is not the current thread. -/
structure Aside (i : Nat) (h : Hart Nat) : Prop where
  covered : (h.thread i).state = .sleeping → Waits h.futexQueue i
  away : h.currentThread ≠ some i

lemma Aside.futexWake (hp : Proper h.futexQueue) (ha : Aside i h) (addr : Nat) (n : Int) :
    Aside i (Sched.futexWake h addr n) := by
  refine ⟨?_, ha.away⟩
  rw [futexWake_eq hp]
  intro hsleeps
  dsimp only at hsleeps
  split at hsleeps
  · cases hsleeps
  · next hnot =>
      exact waits_invalidate.2 ⟨ha.covered hsleeps, hnot⟩

lemma Move.aside (hmove : Move leaving h g) (hp : Proper h.futexQueue) (ha : Aside i h) : Aside i g := by
  -- the record of the current thread is not the one of `i`
  have hne : ∀ j, h.currentThread = some j → i ≠ j := by
    rintro j hj rfl
    exact ha.away hj
  cases hmove with
  | user frame => exact ⟨ha.covered, ha.away⟩
  | wake addr n => exact ha.futexWake hp addr n
  | requeue addr n newAddr =>
    have hwake := ha.futexWake hp addr n
    refine ⟨?_, ha.away⟩
    intro hsleeps
    rw [← mem_sleepers, sleepers_futexRequeue, mem_sleepers]
    exact hwake.covered hsleeps
  | rouse thread hthread =>
    refine ⟨?_, ha.away⟩
    intro hsleeps
    rcases hthread i with hsame | hrunnable
    · exact ha.covered (by rw [← hsame]; exact hsleeps)
    · dsimp only at hsleeps
      rw [hrunnable] at hsleeps
      cases hsleeps
  | own j th hcur _ =>
    refine ⟨?_, ha.away⟩
    intro hsleeps
    exact ha.covered (by simpa [hne j hcur] using hsleeps)
  | insert j addr ts queue _ hcur hfree hqueue =>
    refine ⟨?_, ha.away⟩
    intro hsleeps
    have hwaits := ha.covered (by simpa [hne j hcur] using hsleeps)
    rw [← mem_sleepers, (futexInsert_spec hqueue).1.mem_iff, mem_cons, mem_sleepers]
    exact .inr hwaits
  | create j th scheduleList hfree hth =>
    refine ⟨?_, ha.away⟩
    intro hsleeps
    by_cases hij : i = j
    · simp [hij, hth] at hsleeps
    · exact ha.covered (by simpa [hij] using hsleeps)
  | free j _ hcur =>
    refine ⟨?_, by simp⟩
    intro hsleeps
    exact ha.covered (by simpa [hne j hcur] using hsleeps)

/-- `yield` removes the entry of the thread it selects, and that thread runs. -/
theorem covered_of_yield {b : Nat} (hc : (h.thread i).state = .sleeping → Waits h.futexQueue i)
    (hyield : Sched.yield clock h = some (b, h')) (hsleeps : (h'.thread i).state = .sleeping) : Aside i h' := by
  have hsw := yield_spec hyield
  have hib : i ≠ b := by
    rintro rfl
    rw [hsw.state] at hsleeps
    cases hsleeps
  refine ⟨fun _ => ?_, ?_⟩
  · rw [yield_queue hyield]
    refine waits_invalidate.2 ⟨hc ?_, by simpa using hib⟩
    by_cases hcur : h.currentThread = some i
    · -- the outgoing thread was not running, or it would be runnable now
      by_contra hnot
      rw [yield_state hyield hib] at hsleeps
      by_cases hrun : (h.thread i).state = .running
      · simp [giveUpHart, hcur, hrun] at hsleeps
      · rw [giveUpHart_of_not_running hrun] at hsleeps
        exact hnot hsleeps
    · rw [← hsw.state_ne i hib hcur]
      exact hsleeps
  · intro hcur
    exact hib (Option.some.inj (hsw.current.symm.trans hcur)).symm

lemma Moves.aside (hmoves : Moves leaving h g) (hp : Proper h.futexQueue) (ha : Aside i h) : Aside i g := by
  induction hmoves with
  | refl => exact ha
  | tail hbefore hmove ih => exact hmove.aside (Moves.proper hbefore hp) ih

lemma Moved.aside (hmoved : Moved h h') (hp : Proper h.futexQueue) (ha : Aside i h)
    (hsleeps : (h'.thread i).state = .sleeping) : Aside i h' := by
  rcases hmoved with hmoves | ⟨g, clock, b, hmoves, hyield⟩
  · exact Moves.aside hmoves hp ha
  · exact covered_of_yield (Moves.aside hmoves hp ha).covered hyield hsleeps

/-! ## Runs -/

variable {addrOf : Nat → Nat} {frames : Nat → Trapframe} {trapframe : Trapframe}
  {acts : List Threads.Act} {s t u : Kern}

/-- The invariant of the kernel with a proper futex queue. -/
structure Sound (s : Kern) : Prop where
  partitioned : Partitioned s
  proper : Proper s.hart.futexQueue

lemma Sound.step {a : Threads.Act} (hs : Sound s) (hstep : Threads.step addrOf s a = some t) : Sound t :=
  ⟨(step_effect hs.partitioned hstep).partitioned,
    (step_moved hs.partitioned hstep).hart.proper hs.proper⟩

lemma boot_sound (frames : Nat → Trapframe) (trapframe : Trapframe) : Sound (boot frames trapframe) := by
  refine ⟨(boot_inv frames trapframe).partitioned, ?_, ?_⟩
  · exact nodup_nil
  · intro e he hv
    rw [eq_of_mem_replicate he] at hv
    cases hv

lemma run_sound (hrun : Run (fun s a t => Threads.step addrOf s a = some t) (boot frames trapframe) acts s) :
    Sound s :=
  hrun.invariant (boot_sound frames trapframe) fun _ _ _ hs hstep => hs.step hstep

lemma length_entries (queue : List (FutexQueue Nat)) (i : Nat) :
    (queue.filter fun e => e.valid && e.thread == some i).length = (sleepers queue).count i := by
  rw [sleepers, List.count, countP_filterMap, countP_eq_length_filter]
  congr 1
  refine filter_congr ?_
  intro e _
  unfold owner
  cases hv : e.valid with
  | false => simp
  | true =>
    cases e.thread with
    | none => rfl
    | some j => simp

/-- A thread that `futexWait` puts to sleep sleeps, aside, with an entry. -/
theorem futexWait_aside {addr : Nat} (hcur : s.hart.currentThread = some i)
    (hwait : Threads.step addrOf s (.futexWait addr none clock) = some t) :
    (t.hart.thread i).state = .sleeping ∧ Aside i t.hart := by
  rcases Option.bind_eq_some_iff.1 hwait with ⟨j, hj, hrest⟩
  have hji : j = i := Option.some.inj (hj.symm.trans hcur)
  subst hji
  rcases Option.bind_eq_some_iff.1 hrest with ⟨queue, hinsert, hyield⟩
  rcases Option.bind_eq_some_iff.1 hyield with ⟨⟨b, hart⟩, hsched, hret⟩
  cases hret
  set g : Hart Nat := { s.hart.setThread j (suspend (s.hart.thread j) none) with futexQueue := queue }
  have hsched : Sched.yield clock g = some (b, hart) := hsched
  have hasleep : (g.thread j).state = .sleeping := by simp [g, suspend]
  have hwaits : Waits g.futexQueue j := by
    rw [← mem_sleepers, (futexInsert_spec hinsert).1.mem_iff]
    simp
  have hgive : (giveUpHart g).thread j = g.thread j :=
    giveUpHart_of_not_running (by simp [hasleep])
  -- the thread that is selected is runnable, so it is another one
  have hjb : j ≠ b := by
    rintro rfl
    rcases yield_selects hsched with ⟨now, hstate, _⟩
    rw [hgive, hasleep] at hstate
    cases hstate
  have hstate : (hart.thread j).state = .sleeping := by
    rw [yield_state hsched hjb, hgive, hasleep]
  exact ⟨hstate, covered_of_yield (fun _ => hwaits) hsched hstate⟩

/-- In every reachable state: a thread has at most one entry; a thread that `futexWait` puts to sleep
has its entry in every later state up to which it sleeps; and the two wakes release exactly the
`min n k` threads they take from the `k` waiters, with their entries, while `futexRequeue` moves the
entries of the other waiters. -/
theorem futex_queue_exact (hrun : Run (fun s a t => Threads.step addrOf s a = some t) (boot frames trapframe) acts s) :
    (∀ i, (s.hart.futexQueue.filter fun e => e.valid && e.thread == some i).length ≤ 1) ∧
    (∀ i addr clock t, s.hart.currentThread = some i →
      Threads.step addrOf s (.futexWait addr none clock) = some t →
      (t.hart.thread i).state = .sleeping ∧ ∀ acts' u,
        Run (fun s a t => Threads.step addrOf s a = some t ∧ (t.hart.thread i).state = .sleeping)
          t acts' u → Waits u.hart.futexQueue i) ∧
    ∀ addr (n : Int), 0 ≤ n →
      (selected s.hart.futexQueue addr n).length =
          min n.toNat (waiters s.hart.futexQueue addr).length ∧
      Threads.step addrOf s (.futexWake addr n) = some { s with hart := { s.hart with
        futexQueue := s.hart.futexQueue.map (invalidate (selected s.hart.futexQueue addr n))
        thread := fun i => if i ∈ selected s.hart.futexQueue addr n then released (s.hart.thread i)
          else s.hart.thread i } } ∧
      ∀ newAddr,
        Threads.step addrOf s (.futexRequeue addr n newAddr) = some { s with hart := { s.hart with
          futexQueue := s.hart.futexQueue.map fun e =>
            move addr newAddr (invalidate (selected s.hart.futexQueue addr n) e)
          thread := fun i => if i ∈ selected s.hart.futexQueue addr n then released (s.hart.thread i)
            else s.hart.thread i } } := by
  have hs := run_sound hrun
  refine ⟨?_, ?_, ?_⟩
  · intro i
    rw [length_entries]
    exact nodup_iff_count_le_one.1 hs.proper.nodup i
  · intro i addr clock t hcur hwait
    rcases futexWait_aside hcur hwait with ⟨hsleeps, haside⟩
    refine ⟨hsleeps, ?_⟩
    intro acts' u hlater
    -- the thread sleeps in every state of the later run, so it stays aside
    have hinv : Sound u ∧ Aside i u.hart ∧ (u.hart.thread i).state = .sleeping := by
      refine hlater.invariant (P := fun u =>
        Sound u ∧ Aside i u.hart ∧ (u.hart.thread i).state = .sleeping)
        ⟨hs.step hwait, haside, hsleeps⟩ ?_
      rintro v a w ⟨hv, hav, _⟩ ⟨hstep, hsleeps'⟩
      exact ⟨hv.step hstep, (step_moved hv.partitioned hstep).hart.aside hv.proper hav hsleeps', hsleeps'⟩
    exact hinv.2.1.covered hinv.2.2
  · intro addr n hn
    refine ⟨length_selected hn, ?_, ?_⟩
    · exact congrArg (fun hart => some { s with hart := hart }) (futexWake_eq hs.proper)
    · intro newAddr
      exact congrArg (fun hart => some { s with hart := hart }) (futexRequeue_eq hs.proper)

/-- Two of three threads wait on one address. -/
def twoWaiters : List Threads.Act :=
  [.processCreate 0, .yield [0, 0], .threadFork 0 0 0, .threadFork 0 0 0,
    .futexWait 100 none [0, 0], .futexWait 100 none [0, 0]]

theorem futex_queue_exact_two_waiters :
    ∃ s, Run (fun s a t => Threads.step id s a = some t) (boot (fun _ => default) default)
        twoWaiters s ∧
      waiters s.hart.futexQueue 100 = [0, 1] ∧ selected s.hart.futexQueue 100 1 = [0] ∧
      (s.hart.futexQueue.filter fun e => e.valid && e.thread == some 0).length ≤ 1 := by
  refine exists_run (P := fun s => waiters s.hart.futexQueue 100 = [0, 1] ∧
    selected s.hart.futexQueue 100 1 = [0]) (by decide +kernel) ?_
  rintro s hrun ⟨hwaiters, hselected⟩
  exact ⟨hwaiters, hselected, (futex_queue_exact hrun).1 0⟩

end Futex
end OsRiscv
