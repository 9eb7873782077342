import OsRiscv.Lib.Run
import OsRiscv.Sched.Switch

/-!
# Restart — system calls that are repeated after a `yield`

`sendTo`, `receiveFrom`, `consoleRead` and `syscallSelect` wait by turning the `ecall` back:
`userTrap` has added 4 to `epc`, the call subtracts it again and yields.  When the thread is next
loaded, it executes the `ecall` once more with the registers it finds in its trapframe.

The system below runs any threads in any order.  Two history variables record the frame with which
a thread entered a restarted call, and the frame with which it was loaded afterwards.
-/

namespace OsRiscv
namespace Sched

open Lib List

variable {ι : Type*} [DecidableEq ι] {f : Trapframe} {h h' : Hart ι}

/-- What makes the current thread call `yield`. -/
inductive Cause
  /-- a timer interrupt, `syscallYield`, or the boot code, which has no current thread -/
  | plain
  /-- `syscallSleepTime`, with the time at which to wake up -/
  | sleepTime (awakeTime : Nat)
  /-- `sleep(chan, lk)` -/
  | sleep (chan : Nat)
  /-- `futexWait(addr, th, ts)`, with the time that `ts` stands for -/
  | futexWait (addr : Nat) (ts : Option Nat)
  /-- `epc -= 4` in a system call that has to wait -/
  | restart
  /-- `threadDestroy`, with `clearChildTid` if it is set -/
  | exit (clearChildTid : Option Nat)

inductive Act (ι : Type*)
  /-- The current thread runs until its next trap and leaves its registers in the hart's frame. -/
  | user (frame : Trapframe)
  | wakeup (chan : Nat)
  | futexWake (addr : Nat) (n : Int)
  | futexRequeue (addr : Nat) (n : Int) (newAddr : Nat)
  /-- A free thread is set up with a frame and made runnable (`processCreatePriority`, `clone`). -/
  | create (i : ι) (frame : Trapframe)
  | switch (cause : Cause) (clock : List Nat)

structure Sys (ι : Type*) where
  hart : Hart ι
  /-- The frame of the `ecall` that a thread has to repeat. -/
  restarted : ι → Option Trapframe
  /-- For each repeated `ecall`: the frame it was first made with, and the frame loaded for it. -/
  reloads : List (Trapframe × Trapframe)

/-! ## The steps -/

/-- The loop of `wakeup` over the threads in use. -/
def wakeup (s : Hart ι) (chan : Nat) : Hart ι :=
  { s with thread := fun i =>
      if (s.thread i).state = .sleeping ∧ (s.thread i).chan = chan then
        { s.thread i with state := .runnable }
      else s.thread i }

/-- `userTrap` adds 4 to `epc`; the waiting system call subtracts it. -/
def turnBack (f : Trapframe) : Trapframe :=
  let f := { f with epc := f.epc + 4 }
  { f with epc := f.epc - 4 }

/-- What happens before `yield` is called. -/
def prepare (cause : Cause) (s : Hart ι) : Kernel (Hart ι) :=
  match cause, s.currentThread with
  | .plain, _ => some s
  | .sleepTime awakeTime, some a => some (s.setThread a { s.thread a with awakeTime := awakeTime })
  | .sleep chan, some a =>
    some (s.setThread a { s.thread a with chan := chan, state := .sleeping, kernelGiveUp := true })
  | .futexWait addr ts, some a => do
      let queue ← futexInsert addr a s.futexQueue
      let th := match ts with
        | some awakeTime => { s.thread a with awakeTime := awakeTime }
        | none => { s.thread a with state := .sleeping }
      return { s.setThread a th with futexQueue := queue }
  | .restart, some _ => some { s with trapframe := turnBack s.trapframe }
  | .exit clearChildTid, some a =>
    let s := match clearChildTid with
      | some addr => futexWake s addr 1
      | none => s
    some { s.setThread a { s.thread a with state := .unused } with currentThread := none }
  -- `myThread()` is NULL
  | _, none => none

/-- `threadSetup` and the caller: a free thread becomes runnable. -/
def create (s : Hart ι) (i : ι) (frame : Trapframe) : Kernel (Hart ι) :=
  if (s.thread i).state = .unused then
    let th := { trapframe := frame, awakeTime := 0, state := .runnable, chan := 0, kernelGiveUp := false }
    some { s.setThread i th with
      scheduleList := Function.update s.scheduleList false (s.scheduleList false ++ [i]) }
  else none

/-- The history of a thread that enters `yield`. -/
def noteRestart (cause : Cause) (s : Sys ι) : ι → Option Trapframe :=
  match cause, s.hart.currentThread with
  | .restart, some a => Function.update s.restarted a (some s.hart.trapframe)
  | _, _ => s.restarted

/-- The history of the thread that `yield` loads. -/
def noteReload (restarted : ι → Option Trapframe) (reloads : List (Trapframe × Trapframe)) (b : ι)
    (hart : Hart ι) : Sys ι :=
  { hart := hart
    restarted := Function.update restarted b none
    reloads := reloads ++ ((restarted b).map fun f => (f, hart.trapframe)).toList }

def step (s : Sys ι) : Act ι → Kernel (Sys ι)
  | .user frame =>
    if s.hart.currentThread.isSome then some { s with hart := { s.hart with trapframe := frame } }
    else none
  | .wakeup chan => some { s with hart := wakeup s.hart chan }
  | .futexWake addr n => some { s with hart := futexWake s.hart addr n }
  | .futexRequeue addr n newAddr => some { s with hart := futexRequeue s.hart addr n newAddr }
  | .create i frame => do
      let hart ← create s.hart i frame
      return { s with hart := hart }
  | .switch cause clock => do
      let h ← prepare cause s.hart
      let (b, hart) ← yield clock h
      return noteReload (noteRestart cause s) s.reloads b hart

/-- Boot: no thread is in use, and the frames hold anything. -/
def init (frames : ι → Trapframe) (trapframe : Trapframe) : Sys ι :=
  { hart :=
      { thread := fun i =>
          { trapframe := frames i, awakeTime := 0, state := .unused, chan := 0, kernelGiveUp := false }
        trapframe := trapframe
        currentThread := none
        scheduleList := fun _ => []
        processTimeCount := 0
        processBelongList := false
        futexQueue := List.replicate futexCount { addr := 0, thread := none, valid := false } }
    restarted := fun _ => none
    reloads := [] }

/-! ## Who waits on a futex -/

def Waits (queue : List (FutexQueue ι)) (i : ι) : Prop :=
  ∃ e ∈ queue, e.valid = true ∧ e.thread = some i

variable {s t : Sys ι} {i b : ι} {clock : List Nat}

lemma futexRelease_of_ne {thread : ι → Thread} {o : Option ι} (h : o ≠ some i) :
    futexRelease thread o i = thread i := by
  cases o with
  | none => rfl
  | some j =>
    have hne : i ≠ j := fun hij => h (by rw [hij])
    simp [futexRelease, hne]

/-- `futexWake` touches waiting threads only, and adds no waiter. -/
theorem futexWakeLoop_spec (addr : Nat) (i : ι) (queue : List (FutexQueue ι)) (n : Int) (thread : ι → Thread) :
    (¬Waits queue i → (futexWakeLoop addr queue n thread).2 i = thread i) ∧
    (Waits (futexWakeLoop addr queue n thread).1 i → Waits queue i) := by
  induction queue generalizing n thread with
  | nil => simp [futexWakeLoop]
  | cons e es ih =>
    have htail : ¬Waits (e :: es) i → ¬Waits es i := by
      rintro h ⟨x, hx, hv⟩
      exact h ⟨x, mem_cons_of_mem _ hx, hv⟩
    have hup : Waits es i → Waits (e :: es) i := by
      rintro ⟨x, hx, hv⟩
      exact ⟨x, mem_cons_of_mem _ hx, hv⟩
    unfold futexWakeLoop
    by_cases hn : n = 0
    · simp [hn]
    · by_cases hm : e.valid ∧ e.addr = addr
      · simp only [hn, if_false, hm, and_self, if_true]
        rcases ih (n - 1) (futexRelease thread e.thread) with ⟨hsame, hwaits⟩
        refine ⟨?_, ?_⟩
        · intro hnot
          have hne : e.thread ≠ some i := fun he => hnot ⟨e, by simp, hm.1, he⟩
          rw [hsame (htail hnot), futexRelease_of_ne hne]
        · rintro ⟨x, hx, hv, hxi⟩
          rcases mem_cons.1 hx with rfl | hx
          · cases hv
          · exact hup (hwaits ⟨x, hx, hv, hxi⟩)
      · simp only [hn, if_false, hm]
        rcases ih n thread with ⟨hsame, hwaits⟩
        refine ⟨fun hnot => hsame (htail hnot), ?_⟩
        rintro ⟨x, hx, hv, hxi⟩
        rcases mem_cons.1 hx with rfl | hx
        · exact ⟨x, by simp, hv, hxi⟩
        · exact hup (hwaits ⟨x, hx, hv, hxi⟩)

lemma futexRequeue_waits {h : Hart ι} {addr newAddr : Nat} {n : Int}
    (hw : Waits (futexRequeue h addr n newAddr).futexQueue i) : Waits (futexWake h addr n).futexQueue i := by
  rcases hw with ⟨e, he, hv, hi⟩
  rcases mem_map.1 he with ⟨x, hx, rfl⟩
  by_cases hm : x.valid ∧ x.addr = addr
  · exact ⟨x, hx, hm.1, by simpa [hm] using hi⟩
  · exact ⟨x, hx, by simpa [hm] using hv, by simpa [hm] using hi⟩

omit [DecidableEq ι] in
/-- `futexWait` adds the calling thread only. -/
theorem futexInsert_waits {addr : Nat} {a : ι} {queue queue' : List (FutexQueue ι)}
    (h : futexInsert addr a queue = some queue') (hi : i ≠ a) (hw : Waits queue' i) : Waits queue i := by
  induction queue generalizing queue' with
  | nil => simp [futexInsert] at h
  | cons e es ih =>
    unfold futexInsert at h
    by_cases hv : e.valid = true
    · simp only [hv, if_true] at h
      rcases Option.map_eq_some_iff.1 h with ⟨es', hes, rfl⟩
      rcases hw with ⟨x, hx, hxv, hxi⟩
      rcases mem_cons.1 hx with rfl | hx
      · exact ⟨x, by simp, hxv, hxi⟩
      · rcases ih hes ⟨x, hx, hxv, hxi⟩ with ⟨y, hy, hyv⟩
        exact ⟨y, mem_cons_of_mem _ hy, hyv⟩
    · simp only [hv] at h
      cases h
      rcases hw with ⟨x, hx, hxv, hxi⟩
      rcases mem_cons.1 hx with rfl | hx
      · exact absurd (Option.some.inj hxi).symm hi
      · exact ⟨x, mem_cons_of_mem _ hx, hxv, hxi⟩

/-! ## The invariant -/

/-- A thread that has to repeat an `ecall` will be loaded with the frame `f`, and no timeout and no
`futexWake` will change that. -/
structure Pending (h : Hart ι) (i : ι) (f : Trapframe) : Prop where
  frame : savedFrame h i = f
  awake : (h.thread i).awakeTime = 0
  used : (h.thread i).state ≠ .unused
  noFutex : ¬Waits h.futexQueue i

structure Inv (s : Sys ι) : Prop where
  current : ∀ a, s.hart.currentThread = some a → (s.hart.thread a).awakeTime = 0 ∧
    (s.hart.thread a).state = .running ∧ s.restarted a = none ∧ ¬Waits s.hart.futexQueue a
  pending : ∀ i f, s.restarted i = some f → Pending s.hart i f
  reloads : ∀ r ∈ s.reloads, r.2 = r.1

lemma Inv.ne_current (hs : Inv s) (h : s.restarted i = some f) : s.hart.currentThread ≠ some i := by
  intro hcur
  have hnone := (hs.current i hcur).2.2.1
  rw [h] at hnone
  cases hnone

lemma Pending.congr (hp : Pending h i f)
    (hcur : h.currentThread ≠ some i) (hcur' : h'.currentThread ≠ some i)
    (hth : h'.thread i = h.thread i) (hw : Waits h'.futexQueue i → Waits h.futexQueue i) : Pending h' i f := by
  refine ⟨?_, ?_, ?_, fun hwait => hp.noFutex (hw hwait)⟩
  · have hframe := hp.frame
    simp only [savedFrame, hcur, if_false] at hframe
    simpa [savedFrame, hcur', hth] using hframe
  · simpa [hth] using hp.awake
  · simpa [hth] using hp.used

/-- A `yield` without clobbering keeps the pending frames and loads the right one. -/
theorem noteReload_inv {restarted : ι → Option Trapframe} {reloads : List (Trapframe × Trapframe)}
    (hpend : ∀ i f, restarted i = some f → Pending h i f) (hrel : ∀ r ∈ reloads, r.2 = r.1)
    (hsw : Switched h b h') (hno : NoClobber h b) : Inv (noteReload restarted reloads b h') := by
  have hfutex : ∀ i, Waits h'.futexQueue i → i ≠ b ∧ Waits h.futexQueue i := by
    rintro i ⟨e, he, hv, hi⟩
    rcases hsw.futex e he hv with ⟨hmem, hne⟩
    exact ⟨fun hib => hne (by rw [hi, hib]), e, hmem, hv, hi⟩
  -- the frame saved in a pending thread, also in the one that just left the hart
  have hframe : ∀ i f, restarted i = some f → (h'.thread i).trapframe = f := by
    intro i f hf
    have hp := hpend i f hf
    have hsaved := hp.frame
    rw [hsw.frame i]
    by_cases hcur : h.currentThread = some i
    · have hclob := clobbered_of_noClobber hno (by simp [hcur])
      simpa [hcur, hclob, savedFrame] using hsaved
    · simpa [hcur, savedFrame] using hsaved
  refine ⟨?_, ?_, ?_⟩
  · intro a ha
    have hab : b = a := Option.some.inj (hsw.current.symm.trans ha)
    subst hab
    refine ⟨hsw.awake, hsw.state, by simp [noteReload], ?_⟩
    intro hw
    exact (hfutex b hw).1 rfl
  · intro i f hf
    by_cases hib : i = b
    · simp [noteReload, hib] at hf
    · have hf' : restarted i = some f := by simpa [noteReload, hib] using hf
      have hp := hpend i f hf'
      refine ⟨?_, ?_, ?_, fun hw => hp.noFutex (hfutex i hw).2⟩
      · have hne : h'.currentThread ≠ some i := by
          intro hcur
          exact hib (Option.some.inj (hsw.current.symm.trans hcur)).symm
        simpa [noteReload, savedFrame, hne] using hframe i f hf'
      · exact (hsw.awake_ne i hib).trans hp.awake
      · by_cases hcur : h.currentThread = some i
        · exact hsw.state_current i hcur hp.used
        · have hst := hsw.state_ne i hib hcur
          simpa [noteReload, hst] using hp.used
  · intro r hr
    rcases mem_append.1 hr with hr | hr
    · exact hrel r hr
    · -- the thread just loaded had a call to repeat
      cases hf : restarted b with
      | none => simp [hf] at hr
      | some f =>
        have hr' : r = (f, h'.trapframe) := by simpa [hf] using hr
        subst hr'
        simpa [hsw.loaded] using hframe b f hf

lemma turnBack_eq (f : Trapframe) : turnBack f = f := by
  simp [turnBack]

/-- Before `yield` the threads that are not on the hart, nor in the futex queue, are not touched. -/
theorem prepare_others {h h' : Hart ι} {cause : Cause} (hp : prepare cause h = some h')
    (hne : h.currentThread ≠ some i) (hnot : ¬Waits h.futexQueue i) :
    h'.currentThread ≠ some i ∧ h'.thread i = h.thread i ∧ (Waits h'.futexQueue i → Waits h.futexQueue i) := by
  by_cases hplain : cause = .plain
  · subst hplain
    cases hp
    exact ⟨hne, rfl, id⟩
  cases hcur : h.currentThread with
  | none => cases cause <;> simp [prepare, hcur] at hp hplain
  | some a =>
    have hia : i ≠ a := fun hia => hne (by rw [hcur, hia])
    cases cause with
    | plain => exact absurd rfl hplain
    | futexWait addr ts =>
      simp only [prepare, hcur] at hp
      rcases Option.bind_eq_some_iff.1 hp with ⟨queue, hq, hh⟩
      cases hh
      exact ⟨hne, by simp [hia], futexInsert_waits hq hia⟩
    | exit clearChildTid =>
      simp only [prepare, hcur, Option.some.injEq] at hp
      subst hp
      cases clearChildTid with
      | none => exact ⟨by simp, by simp [hia], id⟩
      | some addr =>
        have hwake := futexWakeLoop_spec addr i h.futexQueue 1 h.thread
        exact ⟨by simp, by simpa [futexWake, hia] using hwake.1 hnot, hwake.2⟩
    | _ =>
      simp only [prepare, hcur, Option.some.injEq] at hp
      subst hp
      exact ⟨by simpa [hcur] using hne, by simp [hia], id⟩

/-- Before `yield` the current thread may get a call to repeat; what the others have to repeat is
not touched. -/
theorem prepare_pending (hs : Inv s) {cause : Cause} {h : Hart ι} (hp : prepare cause s.hart = some h) :
    ∀ i f, noteRestart cause s i = some f → Pending h i f := by
  intro i f hf
  by_cases hmine : cause = .restart ∧ s.hart.currentThread = some i
  · rcases hmine with ⟨rfl, hcur⟩
    simp only [prepare, hcur, Option.some.injEq] at hp
    subst hp
    have hf' : s.hart.trapframe = f := by simpa [noteRestart, hcur] using hf
    rcases hs.current i hcur with ⟨hawake, hrun, _, hw⟩
    exact ⟨by simpa [savedFrame, hcur, turnBack_eq] using hf', hawake, by simp [hrun], hw⟩
  · have hf' : s.restarted i = some f := by
      cases cause with
      | restart =>
        cases hcur : s.hart.currentThread with
        | none => simpa [noteRestart, hcur] using hf
        | some a =>
          have hia : i ≠ a := fun hia => hmine ⟨rfl, by rw [hcur, hia]⟩
          simpa [noteRestart, hcur, hia] using hf
      | _ => simpa [noteRestart] using hf
    have hpend := hs.pending i f hf'
    rcases prepare_others hp (hs.ne_current hf') hpend.noFutex with ⟨hne, hth, hw⟩
    exact hpend.congr (hs.ne_current hf') hne hth hw

/-! ## Runs -/

/-- If the step is a context switch, its write to `a0` hits a zero. -/
def ActOk (s : Sys ι) : Act ι → Prop
  | .switch cause clock =>
    match prepare cause s.hart with
    | some h =>
      match yield clock h with
      | some (b, _) => NoClobber h b
      | none => True
    | none => True
  | _ => True

instance (h : Hart ι) (b : ι) : Decidable (NoClobber h b) := by
  unfold NoClobber
  infer_instance

instance (s : Sys ι) (act : Act ι) : Decidable (ActOk s act) := by
  unfold ActOk
  split
  · split
    · split <;> infer_instance
    · infer_instance
  · infer_instance

def StepOk (s : Sys ι) (act : Act ι) (t : Sys ι) : Prop :=
  ActOk s act ∧ step s act = some t

lemma futexWake_inv (hs : Inv s) (addr : Nat) (n : Int) : Inv { s with hart := futexWake s.hart addr n } := by
  have hspec := fun i => futexWakeLoop_spec addr i s.hart.futexQueue n s.hart.thread
  refine ⟨?_, ?_, hs.reloads⟩
  · intro a ha
    rcases hs.current a ha with ⟨hawake, hrun, hnone, hnot⟩
    have hsame : (futexWake s.hart addr n).thread a = s.hart.thread a := (hspec a).1 hnot
    exact ⟨by simpa [hsame] using hawake, by simpa [hsame] using hrun, hnone,
      fun hw => hnot ((hspec a).2 hw)⟩
  · intro i f hf
    have hp := hs.pending i f hf
    exact hp.congr (hs.ne_current hf) (hs.ne_current hf) ((hspec i).1 hp.noFutex) (hspec i).2

lemma step_inv (hs : Inv s) {act : Act ι} (hok : ActOk s act) (h : step s act = some t) : Inv t := by
  cases act with
  | user frame =>
    cases hsome : s.hart.currentThread.isSome with
    | false => simp [step, hsome] at h
    | true =>
      simp only [step, hsome, if_true, Option.some.injEq] at h
      subst h
      refine ⟨hs.current, ?_, hs.reloads⟩
      intro i f hf
      exact (hs.pending i f hf).congr (hs.ne_current hf) (hs.ne_current hf) rfl id
  | wakeup chan =>
    cases h
    refine ⟨?_, ?_, hs.reloads⟩
    · intro a ha
      rcases hs.current a ha with ⟨hawake, hrun, hnone, hnot⟩
      have hsame : (wakeup s.hart chan).thread a = s.hart.thread a := by simp [wakeup, hrun]
      exact ⟨by simpa [hsame] using hawake, by simpa [hsame] using hrun, hnone, hnot⟩
    · intro i f hf
      have hp := hs.pending i f hf
      refine ⟨?_, ?_, ?_, hp.noFutex⟩
      · -- a woken thread changes its state and nothing else
        have hframe : ((wakeup s.hart chan).thread i).trapframe = (s.hart.thread i).trapframe := by
          simp only [wakeup]
          split <;> rfl
        have hsaved := hp.frame
        simp only [savedFrame, hs.ne_current hf, if_false] at hsaved
        have hcur : (wakeup s.hart chan).currentThread ≠ some i := hs.ne_current hf
        simpa [savedFrame, hcur, hframe] using hsaved
      · have hawake := hp.awake
        simp only [wakeup]
        split <;> simpa using hawake
      · have hused := hp.used
        simp only [wakeup]
        split <;> simp [hused]
  | futexWake addr n =>
    cases h
    exact futexWake_inv hs addr n
  | futexRequeue addr n newAddr =>
    cases h
    have hw := futexWake_inv hs addr n
    refine ⟨?_, ?_, hw.reloads⟩
    · intro a ha
      rcases hw.current a ha with ⟨hawake, hrun, hnone, hnot⟩
      exact ⟨hawake, hrun, hnone, fun hwait => hnot (futexRequeue_waits hwait)⟩
    · intro i f hf
      exact (hw.pending i f hf).congr (hw.ne_current hf) (hw.ne_current hf) rfl futexRequeue_waits
  | create j frame =>
    rcases Option.bind_eq_some_iff.1 h with ⟨hart, hcreate, ht⟩
    cases ht
    unfold create at hcreate
    by_cases hfree : (s.hart.thread j).state = .unused
    · simp only [hfree, if_true, Option.some.injEq] at hcreate
      subst hcreate
      refine ⟨?_, ?_, hs.reloads⟩
      · intro a ha
        rcases hs.current a ha with ⟨hawake, hrun, hnone, hnot⟩
        have haj : a ≠ j := by
          rintro rfl
          simp [hrun] at hfree
        exact ⟨by simpa [haj] using hawake, by simpa [haj] using hrun, hnone, hnot⟩
      · intro i f hf
        have hp := hs.pending i f hf
        have hij : i ≠ j := by
          rintro rfl
          exact hp.used hfree
        exact hp.congr (hs.ne_current hf) (hs.ne_current hf) (by simp [hij]) id
    · simp [hfree] at hcreate
  | switch cause clock =>
    rcases Option.bind_eq_some_iff.1 h with ⟨hart, hprep, h⟩
    rcases Option.bind_eq_some_iff.1 h with ⟨⟨b, hart'⟩, hyield, ht⟩
    cases ht
    have hno : NoClobber hart b := by simpa [ActOk, hprep, hyield] using hok
    exact noteReload_inv (prepare_pending hs hprep) hs.reloads (yield_spec hyield) hno

lemma init_inv (frames : ι → Trapframe) (trapframe : Trapframe) : Inv (init frames trapframe) := by
  refine ⟨?_, ?_, ?_⟩ <;> simp [init]

/-- A context switch preserves the registers exactly when it does not clobber `a0`; and in every run
of such switches, whatever the interleaving, a restarted system call is repeated with the frame it
was first made with. -/
theorem yield_preserves_registers {frames : ι → Trapframe} {trapframe : Trapframe}
    {acts : List (Act ι)} (hrun : Run StepOk (init frames trapframe) acts s) :
    (∀ (clock : List Nat) (h : Hart ι) (b : ι) (t : Hart ι), yield clock h = some (b, t) →
      (PreservesRegisters h b t ↔ NoClobber h b)) ∧
    ∀ r ∈ s.reloads, r.2 = r.1 := by
  have hinv : Inv s := by
    refine hrun.invariant (init_inv frames trapframe) ?_
    intro s act t hs hstep
    exact step_inv hs hstep.1 hstep.2
  exact ⟨fun _ _ _ _ h => (yield_spec h).preservesRegisters_iff, hinv.reloads⟩

/-- A call with `a0 = 3` waits while another thread runs, and is repeated with `a0 = 3`. -/
theorem restart_repeats_call : ∃ s : Sys Nat, Run StepOk (init (fun _ => default) default)
        [.create 0 default, .create 1 default, .switch .plain [0, 0, 0],
         .user { (default : Trapframe) with a0 := 3 }, .switch .restart [1, 1, 1],
         .switch .plain [2, 2, 2]] s ∧
      s.reloads.map (fun r => r.1.a0) = [3] ∧ ∀ r ∈ s.reloads, r.2 = r.1 := by
  refine exists_run_guarded (P := fun s => s.reloads.map (fun r => r.1.a0) = [3]) (by decide +kernel) ?_
  intro s hrun hreloads
  exact ⟨hreloads, (yield_preserves_registers hrun).2⟩

/-- Thread 1 starts a timed sleep, thread 0 makes a call with `a0 = 3` that has to wait.  At that
moment the sleep of thread 1 is over. -/
def sleeperReturns : List (Act Nat) :=
  [.create 1 default, .create 0 default, .switch .plain [0, 0, 0], .switch (.sleepTime 5) [1, 1, 1],
   .user { (default : Trapframe) with a0 := 3 }, .switch .restart [9, 9, 9], .switch .plain [10, 10, 10]]

/-- The repeated call finds 0 in `a0`. -/
theorem restart_after_sleeper :
    ∃ s, Run (fun s act t => step s act = some t) (init (fun _ => default) default) sleeperReturns s ∧
      ∃ r ∈ s.reloads, r.1.a0 = 3 ∧ r.2.a0 = 0 := by
  refine exists_run (P := fun s => ∃ r ∈ s.reloads, r.1.a0 = 3 ∧ r.2.a0 = 0) (by decide +kernel) ?_
  intro s _ hview
  exact hview

end Sched
end OsRiscv
