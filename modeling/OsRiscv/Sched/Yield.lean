import OsRiscv.Kernel.Basic
import OsRiscv.Lib.Update

/-!
# Yield — the scheduler of `kernel/yield/Yield.c` and the context switch of `threadRun`

One hart runs all threads.  Its trapframe (`getHartTrapFrame()`) is one piece of memory that the
outgoing and the incoming thread share: the trap entry stores the user registers there, `threadRun`
copies it into the outgoing thread and fills it from the incoming one.

Threads are named by an arbitrary type `ι` (in the source, pointers into `threads`).  The work of
`threadRun` that concerns neither trapframes nor the scheduler is left out: the one-time file system
initialisation, the kernel stack pointer and the jump back to the thread.

The readings of `r_time()` are an input: a list with one reading for each test of the loop in
`yield`.  A list that is too short means that the loop has not ended yet.
-/

namespace OsRiscv
namespace Sched

variable {ι : Type*} [DecidableEq ι]

/-- `struct Trapframe` -/
structure Trapframe where
  (kernelSatp kernelSp trapHandler epc kernelHartId ra sp gp : UInt64)
  (tp t0 t1 t2 s0 s1 a0 a1 : UInt64)
  (a2 a3 a4 a5 a6 a7 s2 s3 : UInt64)
  (s4 s5 s6 s7 s8 s9 s10 s11 : UInt64)
  (t3 t4 t5 t6 ft0 ft1 ft2 ft3 : UInt64)
  (ft4 ft5 ft6 ft7 fs0 fs1 fa0 fa1 : UInt64)
  (fa2 fa3 fa4 fa5 fa6 fa7 fs2 fs3 : UInt64)
  (fs4 fs5 fs6 fs7 fs8 fs9 fs10 fs11 : UInt64)
  (ft8 ft9 ft10 ft11 : UInt64)
  deriving Inhabited

/-- `struct Thread`, the fields that the scheduler and the context switch use. -/
structure Thread where
  trapframe : Trapframe
  awakeTime : Nat
  state : ProcessState
  chan : Nat
  /-- the bit `KERNEL_GIVE_UP` of `reason` -/
  kernelGiveUp : Bool

/-- `struct FutexQueue` of `kernel/system/Futex.c` -/
structure FutexQueue (ι : Type*) where
  addr : Nat
  thread : Option ι
  valid : Bool

/-- `FUTEX_COUNT` -/
def futexCount : Nat := 64

structure Hart (ι : Type*) where
  thread : ι → Thread
  /-- `*getHartTrapFrame()` -/
  trapframe : Trapframe
  currentThread : Option ι
  /-- `scheduleList[0]` and `scheduleList[1]` -/
  scheduleList : Bool → List ι
  processTimeCount : Nat
  processBelongList : Bool
  futexQueue : List (FutexQueue ι)

namespace Hart

def setThread (s : Hart ι) (i : ι) (th : Thread) : Hart ι :=
  { s with thread := Function.update s.thread i th }

end Hart

/-! ## Futexes -/

/-- One woken entry: `thread->state = RUNNABLE; thread->trapframe.a0 = 0`. -/
def futexRelease (thread : ι → Thread) : Option ι → ι → Thread
  | some i => Function.update thread i
      { thread i with state := .runnable, trapframe := { (thread i).trapframe with a0 := 0 } }
  | none => thread

/-- The loop of `futexWake`; `n` is an `int` and the loop runs while it is not zero. -/
def futexWakeLoop (addr : Nat) : List (FutexQueue ι) → Int → (ι → Thread) → List (FutexQueue ι) × (ι → Thread)
  | [], _, thread => ([], thread)
  | e :: es, n, thread =>
    if n = 0 then
      (e :: es, thread)
    else if e.valid ∧ e.addr = addr then
      let r := futexWakeLoop addr es (n - 1) (futexRelease thread e.thread)
      ({ e with valid := false } :: r.1, r.2)
    else
      let r := futexWakeLoop addr es n thread
      (e :: r.1, r.2)

def futexWake (s : Hart ι) (addr : Nat) (n : Int) : Hart ι :=
  let r := futexWakeLoop addr s.futexQueue n s.thread
  { s with futexQueue := r.1, thread := r.2 }

def futexRequeue (s : Hart ι) (addr : Nat) (n : Int) (newAddr : Nat) : Hart ι :=
  let s := futexWake s addr n
  { s with futexQueue := s.futexQueue.map fun e =>
      if e.valid ∧ e.addr = addr then { e with addr := newAddr } else e }

def futexClear (s : Hart ι) (i : ι) : Hart ι :=
  { s with futexQueue := s.futexQueue.map fun e =>
      if e.valid ∧ e.thread = some i then { e with valid := false } else e }

/-- The search of `futexWait` for a free entry; without one it panics. -/
def futexInsert (addr : Nat) (i : ι) : List (FutexQueue ι) → Kernel (List (FutexQueue ι))
  | [] => none
  | e :: es =>
    if e.valid then (futexInsert addr i es).map (e :: ·)
    else some ({ addr := addr, thread := some i, valid := true } :: es)

/-! ## The context switch -/

/-- The first statement of `threadRun`: the current thread keeps the hart's trapframe. -/
def saveCurrent (s : Hart ι) : Hart ι :=
  match s.currentThread with
  | some a => s.setThread a { s.thread a with trapframe := s.trapframe }
  | none => s

def threadRun (s : Hart ι) (b : ι) : Hart ι :=
  let s := saveCurrent s
  let s := s.setThread b { s.thread b with state := .running }
  let s := { s with currentThread := some b }
  if (s.thread b).kernelGiveUp then
    -- the thread gave up the hart inside the kernel: `sleepRec` resumes it there
    let s := s.setThread b { s.thread b with kernelGiveUp := false }
    { s with trapframe := (s.thread b).trapframe }
  else
    { s with trapframe := (s.thread b).trapframe }

/-! ## `yield` -/

/-- The variables of the loop in `yield`. -/
structure Pick (ι : Type*) where
  thread : Option ι
  count : Nat
  point : Bool
  scheduleList : Bool → List ι

/-- The body of the loop: put the candidate back, take the next one. -/
def pickNext (p : Pick ι) : Pick ι :=
  let lists := match p.thread with
    | some i => Function.update p.scheduleList (!p.point) (p.scheduleList (!p.point) ++ [i])
    | none => p.scheduleList
  let point := if (lists p.point).isEmpty then !p.point else p.point
  match lists point with
  | i :: rest => { thread := some i, count := 1, point := point, scheduleList := Function.update lists point rest }
  | [] => { p with point := point, scheduleList := lists }

/-- The loop condition, negated: the candidate may run at time `now`. -/
def mayRun (thread : ι → Thread) (p : Pick ι) (now : Nat) : Option ι :=
  match p.thread with
  | some i => if p.count ≠ 0 ∧ (thread i).state = .runnable ∧ (thread i).awakeTime ≤ now then some i else none
  | none => none

def yieldLoop (thread : ι → Thread) : List Nat → Pick ι → Option (ι × Pick ι)
  | [], _ => none
  | now :: clock, p =>
    match mayRun thread p now with
    | some i => some (i, p)
    | none => yieldLoop thread clock (pickNext p)

/-- The first statement of `yield`: a running thread becomes runnable. -/
def giveUpHart (s : Hart ι) : Hart ι :=
  match s.currentThread with
  | some a =>
    if (s.thread a).state = .running then
      let th := if (s.thread a).kernelGiveUp then { s.thread a with trapframe := s.trapframe }
        else s.thread a
      s.setThread a { th with state := .runnable }
    else s
  | none => s

/-- `thread->awakeTime > 0`: the selected thread comes back from a timed sleep. -/
def endTimedSleep (s : Hart ι) (b : ι) : Hart ι :=
  if 0 < (s.thread b).awakeTime then
    { s.setThread b { s.thread b with awakeTime := 0 } with trapframe := { s.trapframe with a0 := 0 } }
  else s

/-- `yield()`, with the thread it selects. -/
def yield (clock : List Nat) (s : Hart ι) : Kernel (ι × Hart ι) := do
  let s1 := giveUpHart s
  let (b, p) ← yieldLoop s1.thread clock
    { thread := s.currentThread, count := s.processTimeCount, point := s.processBelongList,
      scheduleList := s.scheduleList }
  let s2 := { s1 with
    processTimeCount := p.count - 1, processBelongList := p.point, scheduleList := p.scheduleList }
  return (b, threadRun (futexClear (endTimedSleep s2 b) b) b)

end Sched
end OsRiscv
