import OsRiscv.Sched.Restart

/-!
# Model — creation, sleep, exit and reaping of threads and processes

The functions of `kernel/yield/Thread.c`, `Process.c` and `Clone.c`, of `kernel/system/Signal.c` and
`Futex.c` that move a thread or a process between the lists `freeThreads`, `usedThreads`, `scheduleList`,
`freeProcesses` and `usedProcesses`.  The scheduler itself is that of `Sched.Yield`.

Threads and processes are named by their index in `threads` and `processes`.  What the functions do to
memory, files and pending signals is left out.  The address of an element of `processes`, on which a
parent sleeps, is a parameter.

`births`, `birth`, `exits` and `reaps` are history variables: the number of processes created so far, which
of them an element of `processes` is, the exits of threads in their order, and the returns of `wait`.
-/

namespace OsRiscv
namespace Threads

open Sched

def sigKill : Nat := 9

/-- `struct Thread`, the fields that `Sched.Thread` does not have. -/
structure Task where
  id : Nat
  process : Nat
  retValue : Nat
  clearChildTid : Nat
  killed : Bool

/-- `struct Process` -/
structure Process where
  processId : Nat
  parentId : Nat
  state : ProcessState
  retValue : Nat
  threadCount : Int

/-- A return of `wait`: the process that was reaped and its parent, the caller, and the status. -/
structure Reap where
  birth : Nat
  parentId : Nat
  waiter : Nat
  status : Nat

structure Kern where
  hart : Hart Nat
  task : Nat → Task
  freeThreads : List Nat
  usedThreads : List Nat
  process : Nat → Process
  freeProcesses : List Nat
  usedProcesses : List Nat
  /-- the `nextId` of `generateThreadId` and of `generateProcessId` -/
  nextThreadId : Nat
  nextProcessId : Nat
  births : Nat
  birth : Nat → Nat
  /-- The process of a thread that exited, and the thread's `retValue`. -/
  exits : List (Nat × Nat)
  reaps : List Reap

namespace Kern

def setTask (s : Kern) (i : Nat) (k : Task) : Kern := { s with task := Function.update s.task i k }

def setProcess (s : Kern) (p : Nat) (q : Process) : Kern := { s with process := Function.update s.process p q }

def setThread (s : Kern) (i : Nat) (th : Thread) : Kern := { s with hart := s.hart.setThread i th }

end Kern

/-! ## Creation -/

/-- `generateThreadId` and `generateProcessId`: a `u32` with the index in its low bits. -/
def generateId (nextId i : Nat) : Nat := nextId * 2 ^ 11 % 2 ^ 32 ||| i

def getThreadTopSp (i : Nat) : UInt64 := 0x1000000000 - UInt64.ofNat (i * 10 * 4096)

/-- `threadSetup` -/
def threadSetup (s : Kern) (i : Nat) : Kern :=
  let s := s.setThread i { s.hart.thread i with
    chan := 0, state := .unused, kernelGiveUp := false, awakeTime := 0 }
  s.setTask i { s.task i with retValue := 0, clearChildTid := 0, killed := false }

/-- The common part of `mainThreadAlloc` and `threadAlloc`: take a thread and set it up.  Without a free
thread both panic. -/
def takeThread (s : Kern) (sp : UInt64) : Kernel (Nat × Kern) :=
  match s.freeThreads with
  | [] => none
  | i :: rest =>
    let s := { s with freeThreads := rest, usedThreads := i :: s.usedThreads }
    let s := threadSetup s i
    let nextId := (s.nextThreadId + 1) % 2 ^ 32
    let s := { s.setTask i { s.task i with id := generateId nextId i } with nextThreadId := nextId }
    let th := s.hart.thread i
    some (i, s.setThread i { th with
      state := .runnable, trapframe := { th.trapframe with kernelSp := getThreadTopSp i, sp := sp } })

/-- `processSetup` -/
def processSetup (s : Kern) (p : Nat) : Kern :=
  s.setProcess p { s.process p with retValue := 0, state := .unused, parentId := 0 }

def processAlloc (s : Kern) (parentId : Nat) : Kernel (Nat × Kern) :=
  match s.freeProcesses with
  | [] => none
  | p :: rest =>
    let s := { s with freeProcesses := rest, usedProcesses := p :: s.usedProcesses }
    let s := processSetup s p
    let nextId := (s.nextProcessId + 1) % 2 ^ 32
    let s := s.setProcess p { s.process p with
      processId := generateId nextId p, state := .runnable, parentId := parentId }
    some (p, { s with
      nextProcessId := nextId, births := s.births + 1, birth := Function.update s.birth p s.births })

/-- The end of `mainThreadAlloc` and `threadAlloc`: `th->process = process; process->threadCount++`. -/
def attach (s : Kern) (i p : Nat) : Kern :=
  let s := s.setTask i { s.task i with process := p }
  s.setProcess p { s.process p with threadCount := (s.process p).threadCount + 1 }

def mainThreadAlloc (s : Kern) (parentId : Nat) : Kernel (Nat × Kern) := do
  let (i, s) ← takeThread s 0x3FFFFFCFE8
  let (p, s) ← processAlloc s parentId
  return (i, attach s i p)

def threadAlloc (s : Kern) (p : Nat) (userSp : UInt64) : Kernel (Nat × Kern) := do
  let (i, s) ← takeThread s userSp
  return (i, attach s i p)

/-- `LIST_INSERT_TAIL(&scheduleList[0], thread, scheduleLink)` -/
def enqueue (s : Kern) (i : Nat) : Kern :=
  { s with hart := { s.hart with
      scheduleList := Function.update s.hart.scheduleList false (s.hart.scheduleList false ++ [i]) } }

/-- `processCreatePriority`; `entryPoint` is that of the program. -/
def processCreatePriority (s : Kern) (entryPoint : UInt64) : Kernel Kern := do
  let (i, s) ← mainThreadAlloc s 0
  let th := s.hart.thread i
  return enqueue (s.setThread i { th with trapframe := { th.trapframe with epc := entryPoint } }) i

/-- `myProcess()` -/
def myProcess (s : Kern) : Kernel Nat := s.hart.currentThread.map fun i => (s.task i).process

/-- `processFork`, with the process identifier it returns. -/
def processFork (s : Kern) : Kernel (Nat × Kern) := do
  let current ← myProcess s
  let (i, s) ← mainThreadAlloc s (s.process current).processId
  let s := s.setThread i { s.hart.thread i with
    trapframe := { s.hart.trapframe with a0 := 0, kernelSp := getThreadTopSp i } }
  return ((s.process (s.task i).process).processId, enqueue s i)

/-- `threadFork`, with the thread identifier it returns. -/
def threadFork (s : Kern) (stackVa tls : UInt64) (ctid : Nat) : Kernel (Nat × Kern) := do
  let current ← myProcess s
  let (i, s) ← threadAlloc s current stackVa
  let s := s.setThread i { s.hart.thread i with
    trapframe := { s.hart.trapframe with a0 := 0, tp := tls, kernelSp := getThreadTopSp i, sp := stackVa } }
  let s := s.setTask i { s.task i with clearChildTid := ctid }
  return ((s.task i).id, enqueue s i)

/-! ## Sleeping and waking -/

/-- The loop of `wakeup` over `usedThreads`. -/
def wakeup (s : Kern) (channel : Nat) : Kern :=
  let thread := fun i =>
    if i ∈ s.usedThreads ∧ (s.hart.thread i).state = .sleeping ∧ (s.hart.thread i).chan = channel then
      { s.hart.thread i with state := .runnable }
    else s.hart.thread i
  { s with hart := { s.hart with thread := thread } }

def futexWake (s : Kern) (addr : Nat) (n : Int) : Kern := { s with hart := Sched.futexWake s.hart addr n }

/-- `yield()`, which ends in the thread it selects. -/
def yield (s : Kern) (clock : List Nat) : Kernel Kern := do
  let (_, hart) ← Sched.yield clock s.hart
  return { s with hart := hart }

/-! ## Exit -/

/-- `pid2Process(processId, process, 0)` for a `processId` that is not 0 -/
def pid2Process (s : Kern) (processId : Nat) : Option Nat :=
  let p := processId % processTotalNumber
  if (s.process p).state = .unused ∨ (s.process p).processId ≠ processId then none else some p

/-- `processFree`; `addrOf` gives the addresses of the elements of `processes`. -/
def processFree (addrOf : Nat → Nat) (s : Kern) (p : Nat) : Kern :=
  let s := s.setProcess p { s.process p with state := .zombie }
  if 0 < (s.process p).parentId then
    match pid2Process s (s.process p).parentId with
    | some parent => wakeup s (addrOf parent)
    | none => s
  else s

/-- The part of `threadFree` about `clearChildTid`. -/
def wakeJoiner (s : Kern) (i : Nat) : Kern :=
  if (s.task i).clearChildTid ≠ 0 then futexWake s (s.task i).clearChildTid 1 else s

/-- `p->threadCount--`, and the end of the process with its last thread. -/
def leaveProcess (addrOf : Nat → Nat) (s : Kern) (i : Nat) : Kern :=
  let p := (s.task i).process
  let s := { s with exits := s.exits ++ [(s.birth p, (s.task i).retValue)] }
  let s := s.setProcess p { s.process p with threadCount := (s.process p).threadCount - 1 }
  if (s.process p).threadCount = 0 then
    processFree addrOf (s.setProcess p { s.process p with retValue := (s.task i).retValue }) p
  else s

def threadFree (addrOf : Nat → Nat) (s : Kern) (i : Nat) : Kern :=
  let s := leaveProcess addrOf (wakeJoiner s i) i
  let s := s.setThread i { s.hart.thread i with state := .unused }
  { s with usedThreads := s.usedThreads.erase i, freeThreads := i :: s.freeThreads }

/-- `threadDestroy(myThread())`; all its callers pass the current thread. -/
def threadDestroy (addrOf : Nat → Nat) (s : Kern) (clock : List Nat) : Kernel Kern := do
  let i ← s.hart.currentThread
  let s := threadFree addrOf s i
  yield { s with hart := { s.hart with currentThread := none } } clock

/-- `syscallExit` -/
def syscallExit (addrOf : Nat → Nat) (s : Kern) (ec : Nat) (clock : List Nat) : Kernel Kern := do
  let i ← s.hart.currentThread
  threadDestroy addrOf (s.setTask i { s.task i with retValue := ec * 2 ^ 8 % 2 ^ 32 }) clock

/-- `sleep`, up to the `yield` in `sleepSave`. -/
def sleep (addrOf : Nat → Nat) (s : Kern) (chan : Nat) (clock : List Nat) : Kernel Kern := do
  let i ← s.hart.currentThread
  let s := s.setThread i { s.hart.thread i with chan := chan, state := .sleeping, kernelGiveUp := true }
  if (s.task i).killed then threadDestroy addrOf s clock else yield s clock

/-- The rest of `sleep`, when the thread was selected again. -/
def sleepReturn (addrOf : Nat → Nat) (s : Kern) (clock : List Nat) : Kernel Kern := do
  let i ← s.hart.currentThread
  let s := s.setThread i { s.hart.thread i with chan := 0 }
  if (s.task i).killed then threadDestroy addrOf s clock else return s

/-- The test in `handleSignal`, on the way back to user mode. -/
def handleSignal (addrOf : Nat → Nat) (s : Kern) (clock : List Nat) : Kernel Kern := do
  let i ← s.hart.currentThread
  if (s.task i).killed then threadDestroy addrOf s clock else return s

/-- `syscallSleepTime`: a timed sleep of the current thread. -/
def syscallSleepTime (s : Kern) (awakeTime : Nat) (clock : List Nat) : Kernel Kern := do
  let i ← s.hart.currentThread
  yield (s.setThread i { s.hart.thread i with awakeTime := awakeTime }) clock

/-- `futexWait` with a time makes the thread wait until then, without one it puts it to sleep. -/
def suspend (th : Thread) : Option Nat → Thread
  | some awakeTime => { th with awakeTime := awakeTime }
  | none => { th with state := .sleeping }

def futexWait (s : Kern) (addr : Nat) (ts : Option Nat) (clock : List Nat) : Kernel Kern := do
  let i ← s.hart.currentThread
  let queue ← futexInsert addr i s.hart.futexQueue
  let s := s.setThread i (suspend (s.hart.thread i) ts)
  yield { s with hart := { s.hart with futexQueue := queue } } clock

/-! ## Signals -/

/-- `tid2Thread(threadId, thread, 0)` -/
def tid2Thread (s : Kern) (threadId : Nat) : Option Nat :=
  if threadId = 0 then s.hart.currentThread
  else
    let i := threadId % processTotalNumber
    if (s.hart.thread i).state = .unused ∨ (s.task i).id ≠ threadId then none else some i

/-- `signalSend`: an unknown thread is a panic, a thread of another group is not sent to. -/
def signalSend (s : Kern) (tgid tid sig : Nat) : Kernel Kern := do
  let i ← tid2Thread s tid
  if tgid ≠ 0 ∧ (s.process (s.task i).process).processId ≠ tgid then
    return s
  else if sig = sigKill then
    let s := s.setThread i { s.hart.thread i with state := .runnable }
    return s.setTask i { s.task i with killed := true }
  else
    return s

/-- The loop of `processSignalSend` over `usedThreads`; `-1` is `2 ^ 32 - 1`. -/
def processSignalSend (s : Kern) (pid sig : Nat) : Kernel Kern :=
  s.usedThreads.foldlM (fun s i =>
    if pid = 0 ∨ pid = 2 ^ 32 - 1 ∨ pid = (s.process (s.task i).process).processId then
      signalSend s 0 (s.task i).id sig
    else some s) s

/-! ## `wait` -/

/-- A child that `wait` may return: `targetProcessId` is `none` for `-1`. -/
def reapable (s : Kern) (p : Nat) (targetProcessId : Option Nat) (np : Nat) : Bool :=
  (s.process np).parentId = (s.process p).processId ∧
    (targetProcessId = none ∨ targetProcessId = some (s.process np).processId) ∧
    (s.process np).state = .zombie

/-- What `wait` does with the child it found. -/
def reap (s : Kern) (p np : Nat) : Kern :=
  let r := { birth := s.birth np, parentId := (s.process np).parentId,
             waiter := (s.process p).processId, status := (s.process np).retValue }
  let s := s.setProcess np { s.process np with state := .unused }
  { s with
    usedProcesses := s.usedProcesses.erase np
    freeProcesses := np :: s.freeProcesses
    reaps := s.reaps ++ [r] }

/-- One round of the loop of `wait`: the value returned, or nothing when the caller went to sleep.
`copied` says that the status could be copied out, or that the caller did not want it. -/
def wait (addrOf : Nat → Nat) (s : Kern) (targetProcessId : Option Nat) (copied wnohang : Bool)
    (clock : List Nat) : Kernel (Option Int × Kern) := do
  let p ← myProcess s
  match s.usedProcesses.find? (reapable s p targetProcessId) with
  | some np =>
    if copied then return (some (s.process np).processId, reap s p np)
    else return (some (-1), s)
  | none =>
    if wnohang then
      return (some (-1), s)
    else if s.usedProcesses.all fun np => (s.process np).parentId ≠ (s.process p).processId then
      return (some 0, s)
    else do
      let s ← sleep addrOf s (addrOf p) clock
      return (none, s)

/-! ## Runs -/

inductive Act
  /-- The current thread runs until its next trap. -/
  | user (frame : Trapframe)
  | processCreate (entryPoint : UInt64)
  | processFork
  | threadFork (stackVa tls : UInt64) (ctid : Nat)
  | wakeup (channel : Nat)
  | futexWake (addr : Nat) (n : Int)
  | futexRequeue (addr : Nat) (n : Int) (newAddr : Nat)
  | signalSend (tgid tid sig : Nat)
  | processSignalSend (pid sig : Nat)
  | yield (clock : List Nat)
  | sleepTime (awakeTime : Nat) (clock : List Nat)
  | sleep (chan : Nat) (clock : List Nat)
  | sleepReturn (clock : List Nat)
  | futexWait (addr : Nat) (ts : Option Nat) (clock : List Nat)
  | exit (ec : Nat) (clock : List Nat)
  | handleSignal (clock : List Nat)
  | wait (targetProcessId : Option Nat) (copied wnohang : Bool) (clock : List Nat)

def step (addrOf : Nat → Nat) (s : Kern) : Act → Kernel Kern
  | .user frame => if s.hart.currentThread.isSome then some { s with hart := { s.hart with trapframe := frame } }
      else none
  | .processCreate entryPoint => processCreatePriority s entryPoint
  | .processFork => (processFork s).map Prod.snd
  | .threadFork stackVa tls ctid => (threadFork s stackVa tls ctid).map Prod.snd
  | .wakeup channel => some (wakeup s channel)
  | .futexWake addr n => some (futexWake s addr n)
  | .futexRequeue addr n newAddr => some { s with hart := Sched.futexRequeue s.hart addr n newAddr }
  | .signalSend tgid tid sig => signalSend s tgid tid sig
  | .processSignalSend pid sig => processSignalSend s pid sig
  | .yield clock => yield s clock
  | .sleepTime awakeTime clock => syscallSleepTime s awakeTime clock
  | .sleep chan clock => sleep addrOf s chan clock
  | .sleepReturn clock => sleepReturn addrOf s clock
  | .futexWait addr ts clock => futexWait s addr ts clock
  | .exit ec clock => syscallExit addrOf s ec clock
  | .handleSignal clock => handleSignal addrOf s clock
  | .wait targetProcessId copied wnohang clock => (wait addrOf s targetProcessId copied wnohang clock).map Prod.snd

/-- `processInit` and `threadInit`; the frames hold anything. -/
def boot (frames : Nat → Trapframe) (trapframe : Trapframe) : Kern :=
  { hart := (Sched.init frames trapframe).hart
    task := fun _ => { id := 0, process := 0, retValue := 0, clearChildTid := 0, killed := false }
    freeThreads := List.range processTotalNumber
    usedThreads := []
    process := fun _ => { processId := 0, parentId := 0, state := .unused, retValue := 0, threadCount := 0 }
    freeProcesses := List.range processTotalNumber
    usedProcesses := []
    nextThreadId := 0
    nextProcessId := 0
    births := 0
    birth := fun _ => 0
    exits := []
    reaps := [] }

end Threads
end OsRiscv
