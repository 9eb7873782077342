import OsRiscv.Futex.Exact

/-!
# Timed — futex waits with a timeout

`futexWait` with a timeout stores the timeout itself in `awakeTime`, where `yield` expects a time of the
clock, and a wake leaves `awakeTime` as it is.  So, for as long as the thread has not been resumed, the
scheduler may select it exactly from the moment the clock reads the timeout on, woken or not.
-/

namespace OsRiscv
namespace Futex

open Option (bind_eq_some_iff map_eq_some_iff)
open Lib
open Sched
open Threads

/-! ## The timeout -/

/-- `struct TimeSpec` with a `nanoSecond` that is not negative. -/
structure TimeSpec where
  second : Nat
  nanoSecond : Nat
  second_lt : second < 2 ^ 64
  nanoSecond_lt : nanoSecond < 2 ^ 63

/-- The longest time to wait, in the unit of the clock. -/
def TimeSpec.timeout (ts : TimeSpec) : Nat := ts.second * 1000000 + ts.nanoSecond / 1000

/-- What `futexWait` stores: `ts->second * 1000000 + ts->nanoSecond / 1000` in 64 bits. -/
def TimeSpec.awakeTime (ts : TimeSpec) : Nat := ts.timeout % 2 ^ 64

variable {h h' g w : Hart Nat} {s t u : Kern} {i j addr awakeTime : Nat} {clock : List Nat}
  {leaving : Bool} {addrOf : Nat → Nat} {frames : Nat → Trapframe} {trapframe : Trapframe}
  {acts : List Threads.Act}

/-! ## The current thread can run -/

/-- The current thread is running, or has just been sent `SIGKILL`. -/
def CurrentReady (h : Hart Nat) : Prop :=
  ∀ i, h.currentThread = some i → (h.thread i).state = .running ∨ (h.thread i).state = .runnable

lemma Move.currentReady (hmove : Move false h g) (hr : CurrentReady h) : CurrentReady g := by
  intro i hi
  cases hmove with
  | user frame => exact hr i hi
  | wake addr n =>
    exact futexWakeLoop_state (P := fun st => st = .running ∨ st = .runnable) (.inr rfl) addr h.futexQueue n _ (hr i hi)
  | requeue addr n newAddr =>
    exact futexWakeLoop_state (P := fun st => st = .running ∨ st = .runnable) (.inr rfl) addr h.futexQueue n _ (hr i hi)
  | rouse thread hthread =>
    rcases hthread i with hsame | hrunnable
    · simpa [hsame] using hr i hi
    · simp [hrunnable]
  | create j th scheduleList hfree hth =>
    by_cases hij : i = j
    · simp [hij, hth]
    · simpa [hij] using hr i hi
  | own j th hcur hstate =>
    have hij : j = i := Option.some.inj (hcur.symm.trans hi)
    subst hij
    simpa [hstate rfl] using hr j hi
  | insert j addr ts queue hleaving => cases hleaving
  | free j hleaving => cases hleaving

lemma Moved.currentReady (hmoved : Moved h h') (hr : CurrentReady h) : CurrentReady h' := by
  rcases hmoved with hmoves | ⟨g, clock, b, _, hyield⟩
  · induction hmoves with
    | refl => exact hr
    | tail _ hmove ih => exact hmove.currentReady ih
  · intro i hi
    have hsw := yield_spec hyield
    have hib : b = i := Option.some.inj (hsw.current.symm.trans hi)
    exact .inl (hib ▸ hsw.state)

lemma run_currentReady (hrun : Run (fun s a t => Threads.step addrOf s a = some t) (boot frames trapframe) acts s) :
    CurrentReady s.hart := by
  have hinv : Sound s ∧ CurrentReady s.hart := by
    refine hrun.invariant (P := fun s => Sound s ∧ CurrentReady s.hart)
      ⟨boot_sound frames trapframe, fun i hi => by cases hi⟩ ?_
    rintro s a t ⟨hs, hr⟩ hstep
    exact ⟨hs.step hstep, (step_moved hs.partitioned hstep).hart.currentReady hr⟩
  exact hinv.2

/-! ## A timed waiter -/

/-- The thread is runnable from `awakeTime` on, and does not hold the hart. -/
structure Ticking (i awakeTime : Nat) (h : Hart Nat) : Prop where
  state : (h.thread i).state = .runnable
  awake : (h.thread i).awakeTime = awakeTime
  away : h.currentThread ≠ some i

section

variable (ht : Ticking i awakeTime h)
include ht

lemma Ticking.futexWake (hp : Proper h.futexQueue) (addr : Nat)
    (n : Int) : Ticking i awakeTime (Sched.futexWake h addr n) := by
  rw [futexWake_eq hp]
  refine ⟨?_, ?_, ht.away⟩
  · dsimp only
    split
    · rfl
    · exact ht.state
  · dsimp only
    split
    · exact ht.awake
    · exact ht.awake

lemma Ticking.setThread (hij : i ≠ j) (th : Thread) :
    Ticking i awakeTime (h.setThread j th) :=
  ⟨by simpa [hij] using ht.state, by simpa [hij] using ht.awake, ht.away⟩

lemma Move.ticking (hmove : Move leaving h g) (hp : Proper h.futexQueue) : Ticking i awakeTime g := by
  have hne : ∀ j, h.currentThread = some j → i ≠ j := by
    rintro j hj rfl
    exact ht.away hj
  cases hmove with
  | user frame => exact ⟨ht.state, ht.awake, ht.away⟩
  | wake addr n => exact ht.futexWake hp addr n
  | requeue addr n newAddr =>
    have hwake := ht.futexWake hp addr n
    exact ⟨hwake.state, hwake.awake, hwake.away⟩
  | rouse thread hthread =>
    rcases hthread i with hsame | hrunnable
    · exact ⟨by simpa [hsame] using ht.state, by simpa [hsame] using ht.awake, ht.away⟩
    · exact ⟨by simp [hrunnable], by simpa [hrunnable] using ht.awake, ht.away⟩
  | create j th scheduleList hfree hth =>
    have hij : i ≠ j := by
      rintro rfl
      rw [ht.state] at hfree
      cases hfree
    have hset := ht.setThread hij th
    exact ⟨hset.state, hset.awake, hset.away⟩
  | own j th hcur hstate => exact ht.setThread (hne j hcur) th
  | insert j addr ts queue hleaving hcur hfree hqueue =>
    have hset := ht.setThread (hne j hcur) (suspend (h.thread j) ts)
    exact ⟨hset.state, hset.awake, hset.away⟩
  | free j hleaving hcur =>
    have hset := ht.setThread (hne j hcur) { h.thread j with state := .unused }
    exact ⟨hset.state, hset.awake, by simp⟩

lemma Moves.ticking (hmoves : Moves leaving h g) (hp : Proper h.futexQueue) : Ticking i awakeTime g := by
  induction hmoves with
  | refl => exact ht
  | tail hbefore hmove ih => exact hmove.ticking ih (Moves.proper hbefore hp)

lemma Ticking.yield {b : Nat}
    (hyield : Sched.yield clock h = some (b, h')) (haway : h'.currentThread ≠ some i) : Ticking i awakeTime h' := by
  have hsw := yield_spec hyield
  have hib : i ≠ b := by
    rintro rfl
    exact haway hsw.current
  refine ⟨?_, ?_, haway⟩
  · rw [hsw.state_ne i hib ht.away]
    exact ht.state
  · rw [hsw.awake_ne i hib]
    exact ht.awake

lemma Moved.ticking (hmoved : Moved h h') (hp : Proper h.futexQueue)
    (haway : h'.currentThread ≠ some i) : Ticking i awakeTime h' := by
  rcases hmoved with hmoves | ⟨g, clock, b, hmoves, hyield⟩
  · exact Moves.ticking ht hmoves hp
  · exact (Moves.ticking ht hmoves hp).yield hyield haway

end

/-! ## Passes of the scheduler while the thread waits -/

/-- The hart of a thread that enters `futexWait` in state `s`, when `yield` looks for a thread. -/
def entered (s : Kern) (i awakeTime : Nat) (queue : List (FutexQueue Nat)) : Hart Nat :=
  giveUpHart { s.hart.setThread i (suspend (s.hart.thread i) (some awakeTime)) with
    futexQueue := queue }

/-- Thread `i` entered `futexWait` in state `s` and was not resumed since.  `u` is the last state between
two steps and `w` the hart when the scheduler looks for a thread. -/
inductive Pass (addrOf : Nat → Nat) (s : Kern) (i addr awakeTime : Nat) : Kern → Hart Nat → Prop
  | first (queue : List (FutexQueue Nat)) (hqueue : futexInsert addr i s.hart.futexQueue = some queue) :
      Pass addrOf s i addr awakeTime s (entered s i awakeTime queue)
  | later {t u : Kern} {clock : List Nat} {acts : List Threads.Act} {w : Hart Nat}
      (hwait : Threads.step addrOf s (.futexWait addr (some awakeTime) clock) = some t)
      (haway : t.hart.currentThread ≠ some i)
      (hrun : Run (fun s a t => Threads.step addrOf s a = some t ∧ t.hart.currentThread ≠ some i)
        t acts u)
      (hmoves : Moves true u.hart w) : Pass addrOf s i addr awakeTime u w

/-- A wake has taken the thread's entry, or a `SIGKILL` was sent to it. -/
def Chosen (u : Kern) (w : Hart Nat) (i : Nat) : Prop := ¬Waits w.futexQueue i ∨ (u.task i).killed = true

section

variable (hr : CurrentReady s.hart) (hcur : s.hart.currentThread = some i)
include hr hcur

lemma entered_thread (awakeTime : Nat) (queue : List (FutexQueue Nat)) :
    ((entered s i awakeTime queue).thread i).state = .runnable ∧
      ((entered s i awakeTime queue).thread i).awakeTime = awakeTime := by
  unfold entered
  refine ⟨?_, ?_⟩
  · rcases hr i hcur with hrun | hrun
    · simp [giveUpHart, hcur, suspend, hrun]
    · rw [giveUpHart_of_not_running (by simp [suspend, hrun])]
      simp [suspend, hrun]
  · rw [(giveUpHart_spec _).2.2.2.1]
    simp [suspend]

/-- After a `futexWait` in which another thread was selected. -/
theorem futexWait_ticking
    (hwait : Threads.step addrOf s (.futexWait addr (some awakeTime) clock) = some t)
    (haway : t.hart.currentThread ≠ some i) : Ticking i awakeTime t.hart := by
  rcases bind_eq_some_iff.1 hwait with ⟨j, hj, hrest⟩
  have hji : j = i := Option.some.inj (hj.symm.trans hcur)
  subst hji
  rcases bind_eq_some_iff.1 hrest with ⟨queue, hinsert, hyield⟩
  rcases bind_eq_some_iff.1 hyield with ⟨⟨b, hart⟩, hsched, hret⟩
  cases hret
  have hsw := yield_spec hsched
  have hjb : j ≠ b := by
    rintro rfl
    exact haway hsw.current
  rcases entered_thread hr hcur awakeTime queue with ⟨hstate, _⟩
  refine ⟨?_, ?_, haway⟩
  · rw [yield_state hsched hjb]
    exact hstate
  · rw [hsw.awake_ne j hjb]
    simp [Kern.setThread, suspend]

/-- While the thread waits, the scheduler may select it exactly from `awakeTime` on. -/
theorem Pass.selectable_iff (hs : Sound s) (hpass : Pass addrOf s i addr awakeTime u w) (now : Nat) :
    Selectable w i now ↔ awakeTime ≤ now := by
  unfold Selectable
  cases hpass with
  | first queue hqueue =>
    rcases entered_thread hr hcur awakeTime queue with ⟨hstate, hawake⟩
    rw [hstate, hawake]
    simp
  | @later t _ clock acts _ hwait haway hrun hmoves =>
    have hinv : Sound u ∧ Ticking i awakeTime u.hart := by
      refine hrun.invariant (P := fun u => Sound u ∧ Ticking i awakeTime u.hart)
        ⟨hs.step hwait, futexWait_ticking hr hcur hwait haway⟩ ?_
      rintro v a x ⟨hv, htick⟩ ⟨hstep, haway'⟩
      exact ⟨hv.step hstep, (step_moved hv.partitioned hstep).hart.ticking htick hv.proper haway'⟩
    have htick := Moves.ticking hinv.2 hmoves hinv.1.proper
    rw [htick.state, htick.awake]
    simp

end

/-! ## The two laws of a timed wait -/

/-- `r_time()` when the counter `rdtime` reads `x` -/
def rTime (x : Nat) : Nat := x + 2 ^ 35

lemma never_early_iff {x0 timeout : Nat} :
    (∀ x, x0 ≤ x → timeout % 2 ^ 64 ≤ rTime x → rTime x0 + timeout ≤ rTime x) ↔ timeout = 0 := by
  unfold rTime
  constructor
  · intro h
    -- the earliest reading at which the thread may be selected
    have hearliest := h (max x0 (timeout % 2 ^ 64 - 2 ^ 35)) (Nat.le_max_left _ _) (by omega)
    omega
  · rintro rfl x hx _
    omega

/-- A thread enters `futexWait` with a timeout, in a reachable state, when the counter reads `x0`.  At
every pass of the scheduler before it is resumed: if nothing has chosen the thread, it cannot be
selected before the end of its timeout exactly when the timeout is 0; and if a wake or a kill has
chosen it, it can be selected at once exactly when the timeout, read as a time of the clock, is over. -/
theorem timed_wait_iff (hrun : Run (fun s a t => Threads.step addrOf s a = some t) (boot frames trapframe) acts s)
    (hcur : s.hart.currentThread = some i) (ts : TimeSpec) (x0 : Nat)
    (hpass : Pass addrOf s i addr ts.awakeTime u w) :
    (¬Chosen u w i → ((∀ x, x0 ≤ x → Selectable w i (rTime x) → rTime x0 + ts.timeout ≤ rTime x) ↔
      ts.timeout = 0)) ∧
    (Chosen u w i → ((∀ x, x0 ≤ x → Selectable w i (rTime x)) ↔ ts.timeout % 2 ^ 64 ≤ rTime x0)) := by
  have hiff : ∀ now, Selectable w i now ↔ ts.timeout % 2 ^ 64 ≤ now :=
    hpass.selectable_iff (run_currentReady hrun) hcur (run_sound hrun)
  simp only [hiff]
  refine ⟨fun _ => never_early_iff, fun _ => ⟨fun h => h x0 (Nat.le_refl _), ?_⟩⟩
  intro hover x hx
  exact Nat.le_trans hover (Nat.add_le_add_right hx _)

/-- Half a millisecond. -/
def shortTime : TimeSpec := ⟨0, 500000, by decide, by decide⟩

/-- Forty thousand seconds, more than `2 ^ 35` microseconds. -/
def longTime : TimeSpec := ⟨40000, 0, by decide, by decide⟩

/-- Two threads of one process; thread 0 holds the hart. -/
def pair : List Threads.Act := [.processCreate 0, .yield [rTime 0, rTime 0], .threadFork 0 0 0]

/-- Thread 0 waits for at most half a millisecond, and thread 1 wakes it. -/
theorem timed_wait_woken :
    ∃ s t u, Run (fun s a t => Threads.step id s a = some t) (boot (fun _ => default) default) pair s ∧
      Threads.step id s (.futexWait 100 (some shortTime.awakeTime) [rTime 1000, rTime 1000]) = some t ∧
      Threads.step id t (.futexWake 100 1) = some u ∧ Chosen u u.hart 0 ∧
      ∀ x, 1000 ≤ x → Selectable u.hart 0 (rTime x) := by
  rcases exists_of_any (o := runAll (Threads.step id) (boot (fun _ => default) default) pair) (P := fun s =>
    s.hart.currentThread = some 0 ∧
    (Threads.step id s (.futexWait 100 (some shortTime.awakeTime) [rTime 1000, rTime 1000])).any (fun t =>
      t.hart.currentThread ≠ some 0 ∧ (Threads.step id t (.futexWake 100 1)).any (fun u =>
        u.hart.currentThread ≠ some 0 ∧ sleepers u.hart.futexQueue = []) = true) = true)
    (by decide +kernel) with ⟨s, hs, hcur, hwait⟩
  rcases exists_of_any hwait with ⟨t, ht, haway, hwake⟩
  rcases exists_of_any hwake with ⟨u, hu, haway', hnone⟩
  have hpass : Pass id s 0 100 shortTime.awakeTime u u.hart :=
    .later ht haway (.snoc (.nil t) ⟨hu, haway'⟩) .refl
  have hchosen : Chosen u u.hart 0 := by
    refine .inl fun hwaits => ?_
    have hin := mem_sleepers.2 hwaits
    rw [hnone] at hin
    cases hin
  refine ⟨s, t, u, run_of_runAll hs, ht, hu, hchosen, ?_⟩
  exact ((timed_wait_iff (run_of_runAll hs) hcur shortTime 1000 hpass).2 hchosen).2 (by decide)

/-- Thread 0 waits for at most 500 ticks and is resumed in the same tick, although nobody woke it.  And
when it waits for at most forty thousand seconds and is woken, it cannot be selected 1000 ticks later. -/
theorem timed_wait_early_and_late :
    (∃ s t u, Run (fun s a t => Threads.step id s a = some t) (boot (fun _ => default) default)
        pair s ∧ s.hart.currentThread = some 0 ∧
      Threads.step id s (.futexWait 100 (some shortTime.awakeTime) [rTime 1000, rTime 1000]) = some t ∧
      t.hart.currentThread = some 1 ∧
      Threads.step id t (.yield [rTime 1000, rTime 1000]) = some u ∧
      u.hart.currentThread = some 0 ∧ shortTime.timeout = 500) ∧
    ∃ s t u, Run (fun s a t => Threads.step id s a = some t) (boot (fun _ => default) default)
        pair s ∧ s.hart.currentThread = some 0 ∧
      Threads.step id s (.futexWait 100 (some longTime.awakeTime) [rTime 1000, rTime 1000]) = some t ∧
      t.hart.currentThread = some 1 ∧
      Threads.step id t (.futexWake 100 1) = some u ∧
      sleepers u.hart.futexQueue = [] ∧ ¬Selectable u.hart 0 (rTime 2000) := by
  constructor
  · rcases exists_of_any (o := runAll (Threads.step id) (boot (fun _ => default) default) pair) (P := fun s =>
      s.hart.currentThread = some 0 ∧
      (Threads.step id s (.futexWait 100 (some shortTime.awakeTime) [rTime 1000, rTime 1000])).any (fun t =>
        t.hart.currentThread = some 1 ∧
        (Threads.step id t (.yield [rTime 1000, rTime 1000])).any (·.hart.currentThread = some 0) = true) = true)
      (by decide +kernel) with ⟨s, hs, hcur, hwait⟩
    rcases exists_of_any hwait with ⟨t, ht, hcur', hyield⟩
    rcases exists_of_any hyield with ⟨u, hu, hcur''⟩
    exact ⟨s, t, u, run_of_runAll hs, hcur, ht, hcur', hu, hcur'', rfl⟩
  · rcases exists_of_any (o := runAll (Threads.step id) (boot (fun _ => default) default) pair) (P := fun s =>
      s.hart.currentThread = some 0 ∧
      (Threads.step id s (.futexWait 100 (some longTime.awakeTime) [rTime 1000, rTime 1000])).any (fun t =>
        t.hart.currentThread = some 1 ∧ (Threads.step id t (.futexWake 100 1)).any (fun u =>
          sleepers u.hart.futexQueue = [] ∧ (u.hart.thread 0).awakeTime = 40000000000) = true) = true)
      (by decide +kernel) with ⟨s, hs, hcur, hwait⟩
    rcases exists_of_any hwait with ⟨t, ht, hcur', hwake⟩
    rcases exists_of_any hwake with ⟨u, hu, hnone, hawake⟩
    refine ⟨s, t, u, run_of_runAll hs, hcur, ht, hcur', hu, hnone, ?_⟩
    rintro ⟨_, htime⟩
    rw [hawake] at htime
    exact absurd htime (by decide)

end Futex
end OsRiscv
