import OsRiscv.Lib.Pool
import OsRiscv.Signal.Model
import OsRiscv.Threads.Accounting

/-!
# Contexts — the pool of signal contexts and the lists of the threads

The contexts of `kernel/system/Signal.c` by their index in `freeSignalContext`.  `signalSend` takes one from
`freeSignalContextList` and puts it in front of the `waitingSignal` of a thread; `signalFinish` and the loop
at the start of `threadFree` bring it back.  `LIST_REMOVE` takes an element out of the list that holds it.

Threads and processes are those of `Threads.Model`.  The calls that
send come with what they return.  `signalSend` does not look at the number it is given: a context keeps one byte of it,
and the delivery of the context, later and in another thread, shifts by it and takes it for an index.
-/

namespace OsRiscv
namespace Signal

open Lib
open Sched (Trapframe)
open Threads (Kern destroys tid2Thread)

/-- `SIGNAL_CONTEXT_COUNT` -/
@[irreducible] def signalContextCount : Nat := 4096

structure Pool where
  kern : Kern
  freeSignalContextList : List Nat
  /-- `freeSignalContext`, the array of the contexts -/
  context : Nat → SignalContext
  waitingSignal : Nat → List Nat
  blocked : Nat → SignalSet
  processing : Nat → SignalSet
  /-- `getSignalHandler`, for each element of `processes` -/
  handlers : Nat → Nat → UInt64

namespace Pool

def setWaiting (s : Pool) (i : Nat) (waiting : List Nat) : Pool :=
  { s with waitingSignal := Function.update s.waitingSignal i waiting }

def setFrame (s : Pool) (trapframe : Trapframe) : Pool :=
  { s with kern := { s.kern with hart := { s.kern.hart with trapframe := trapframe } } }

def setProcessing (s : Pool) (i : Nat) (set : SignalSet) : Pool :=
  { s with processing := Function.update s.processing i set }

def setContext (s : Pool) (c : Nat) (sc : SignalContext) : Pool :=
  { s with context := Function.update s.context c sc }

section

variable (s : Pool) (i c : Nat) (trapframe : Trapframe) (set : SignalSet) (sc : SignalContext)

lemma setFrame_free : (s.setFrame trapframe).freeSignalContextList = s.freeSignalContextList := rfl

lemma setFrame_waiting : (s.setFrame trapframe).waitingSignal = s.waitingSignal := rfl

lemma setProcessing_free : (s.setProcessing i set).freeSignalContextList = s.freeSignalContextList :=
  rfl

lemma setProcessing_waiting : (s.setProcessing i set).waitingSignal = s.waitingSignal := rfl

lemma setContext_free : (s.setContext c sc).freeSignalContextList = s.freeSignalContextList := rfl

lemma setContext_waiting : (s.setContext c sc).waitingSignal = s.waitingSignal := rfl

end

end Pool

/-! ## The pool -/

/-- `signalInit`: every context is put in front of the list. -/
def signalInit : List Nat := (List.range signalContextCount).foldl (fun l i => i :: l) []

namespace Pool

def signalContextFree (s : Pool) (c : Nat) : Pool :=
  { s with freeSignalContextList := c :: s.freeSignalContextList }

/-- `signalContextAlloc`, where all its callers panic when the list is empty. -/
def signalContextAlloc (s : Pool) : Kernel (Nat × Pool) :=
  match s.freeSignalContextList with
  | [] => none
  | c :: rest => some (c, { s.setContext c { s.context c with start := false } with freeSignalContextList := rest })

/-- `signalSend(tgid, tid, sig)`, its arguments as 32-bit numbers -/
def signalSend (s : Pool) (tgid tid sig : Nat) : Kernel (Int × Pool) :=
  if tid = 2 ^ 32 - 1 then none
  else do
    let i ← tid2Thread s.kern tid
    if tgid ≠ 0 ∧ (s.kern.process (s.kern.task i).process).processId ≠ tgid then
      return (-3, s)
    else
      let (c, u) ← s.signalContextAlloc
      let kern ← Threads.signalSend s.kern tgid tid sig
      let u := u.setContext c { u.context c with signal := sig % 256 }
      return (0, { u.setWaiting i (c :: u.waitingSignal i) with kern := kern })

/-- The test of `processSignalSend` -/
def Matches (s : Pool) (pid i : Nat) : Prop :=
  pid = 0 ∨ pid = 2 ^ 32 - 1 ∨ pid = (s.kern.process (s.kern.task i).process).processId

instance (s : Pool) (pid i : Nat) : Decidable (s.Matches pid i) := inferInstanceAs (Decidable (_ ∨ _))

/-- The body of the loop of `processSignalSend`, which returns what the last `signalSend` returns. -/
def processSignalRound (pid sig : Nat) (x : Int × Pool) (i : Nat) : Kernel (Int × Pool) :=
  if x.2.Matches pid i then x.2.signalSend 0 (x.2.kern.task i).id sig else some x

def processSignalSend (s : Pool) (pid sig : Nat) : Kernel (Int × Pool) :=
  s.kern.usedThreads.foldlM (processSignalRound pid sig) (-3, s)

def signalFinish (s : Pool) (i c : Nat) : Pool :=
  signalContextFree (s.setWaiting i ((s.waitingSignal i).erase c)) c

/-- The loop of `threadFree` over `waitingSignal`. -/
def freeLoop : List Nat → List Nat → List Nat
  | [], free => free
  | c :: waiting, free => freeLoop waiting (c :: free)

def freeContexts (s : Pool) (i : Nat) : Pool :=
  { s.setWaiting i [] with
    freeSignalContextList := freeLoop (s.waitingSignal i) s.freeSignalContextList }

/-! ## Delivery -/

def getFirstSignalContext (s : Pool) (i : Nat) : Kernel (Option Nat) :=
  firstReady s.context (s.blocked i) (s.processing i) (s.waitingSignal i)

/-- Without a started context the assertion fails. -/
def getHandlingSignal (s : Pool) (i : Nat) : Kernel Nat := (s.waitingSignal i).find? fun c => (s.context c).start

def enterHandler (s : Pool) (i c : Nat) : Pool :=
  let tf := s.kern.hart.trapframe
  let sc := s.context c
  let s := s.setContext c { sc with start := true, contextRecover := tf }
  let s := s.setProcessing i (signalProcessStart sc.signal (s.processing i))
  s.setFrame { initFrame tf with epc := s.handlers (s.kern.task i).process (sc.signal - 1) }

lemma enterHandler_eq (s : Pool) (i c : Nat) : s.enterHandler i c =
      ((s.setContext c { s.context c with start := true, contextRecover := s.kern.hart.trapframe }).setProcessing i
        (signalProcessStart (s.context c).signal (s.processing i))).setFrame
          { initFrame s.kern.hart.trapframe with
            epc := s.handlers (s.kern.task i).process ((s.context c).signal - 1) } := rfl

/-- The loop of `handleSignal` after the test of `killed`; each round that does not return removes a
context. -/
def handleLoop (i : Nat) : Nat → Pool → Kernel Pool
  | 0, _ => none
  | fuel + 1, s =>
    match getFirstSignalContext s i with
    | none => none
    | some none => some s
    | some (some c) =>
      if (s.context c).start then some s
      else if s.handlers (s.kern.task i).process ((s.context c).signal - 1) = 0 then
        handleLoop i fuel (signalFinish s i c)
      else some (enterHandler s i c)

/-- `handleSignal(myThread())` -/
def handleSignal (addrOf : Nat → Nat) (s : Pool) (clock : List Nat) : Kernel Pool := do
  let i ← s.kern.hart.currentThread
  if (s.kern.task i).killed then
    let kern ← Threads.threadDestroy addrOf s.kern clock
    return { freeContexts s i with kern := kern }
  else handleLoop i ((s.waitingSignal i).length + 1) s

def syscallSignalReturn (s : Pool) : Kernel Pool := do
  let i ← s.kern.hart.currentThread
  let c ← getHandlingSignal s i
  let sc := s.context c
  if ¬Valid sc.signal then none
  else
    let s := (s.setFrame sc.contextRecover).setProcessing i (signalProcessEnd sc.signal (s.processing i))
    return signalFinish s i c

end Pool

/-! ## Creation -/

/-- The calls that create a thread: the first two through `mainThreadAlloc`, the last one through
`threadAlloc`. -/
inductive Creation
  | processCreate (entryPoint : UInt64)
  | processFork
  | threadFork (stackVa tls : UInt64) (ctid : Nat)

namespace Creation

def call : Creation → Kern → Kernel Kern
  | .processCreate entryPoint, s => Threads.processCreatePriority s entryPoint
  | .processFork, s => (Threads.processFork s).map Prod.snd
  | .threadFork stackVa tls ctid, s => (Threads.threadFork s stackVa tls ctid).map Prod.snd

/-- `processSetup` maps a fresh page for the handlers of a new process. -/
def handlers : Creation → Nat → (Nat → Nat → UInt64) → Nat → Nat → UInt64
  | .threadFork _ _ _, _, table => table
  | _, p, table => Function.update table p fun _ => 0

end Creation

namespace Pool

/-- Create a thread in the first element of `freeThreads`; `threadSetup` empties its list. -/
def createThread (s : Pool) (c : Creation) : Kernel Pool := do
  let i ← s.kern.freeThreads.head?
  let kern ← c.call s.kern
  return { s.setWaiting i [] with
    kern := kern
    handlers := c.handlers (kern.task i).process s.handlers }

/-! ## Runs -/

/-- The other calls: a thread that is destroyed in one of them gives its contexts back. -/
def otherCall (addrOf : Nat → Nat) (s : Pool) (a : Threads.Act) : Kernel Pool := do
  let kern ← Threads.step addrOf s.kern a
  match s.kern.hart.currentThread with
  | some i =>
    if destroys s.kern i a then return { freeContexts s i with kern := kern }
    else return { s with kern := kern }
  | none => return { s with kern := kern }

end Pool

inductive PoolAct
  | call (a : Threads.Act)
  | mask (how : Option How) (newSet : SignalSet)
  | action (sig : Nat) (act : UInt64)
  | sigreturn

/-- `signProccessMask` on the set of the current thread -/
def maskSet (blocked : SignalSet) : Option How → SignalSet → SignalSet
  | some .block, newSet => blocked ||| newSet
  | some .unblock, newSet => blocked &&& ~~~ newSet
  | some .setmask, newSet => newSet
  | none, _ => blocked

def poolStep (addrOf : Nat → Nat) (s : Pool) : PoolAct → Kernel Pool
  | .call (.processCreate entryPoint) => s.createThread (.processCreate entryPoint)
  | .call .processFork => s.createThread .processFork
  | .call (.threadFork stackVa tls ctid) => s.createThread (.threadFork stackVa tls ctid)
  | .call (.signalSend tgid tid sig) => (s.signalSend tgid tid sig).map Prod.snd
  | .call (.processSignalSend pid sig) => (s.processSignalSend pid sig).map Prod.snd
  | .call (.handleSignal clock) => s.handleSignal addrOf clock
  | .call a => s.otherCall addrOf a
  | .mask how newSet => s.kern.hart.currentThread.map fun i =>
    { s with blocked := Function.update s.blocked i (maskSet (s.blocked i) how newSet) }
  | .action sig act => s.kern.hart.currentThread.map fun i =>
    if sig < 1 ∨ 128 < sig then s
    else
      let p := (s.kern.task i).process
      { s with handlers := Function.update s.handlers p (Function.update (s.handlers p) (sig - 1) act) }
  | .sigreturn => s.syscallSignalReturn

/-- `signalInit` and `threadInit`; the lists of the threads are zeroed memory. -/
def poolBoot (frames : Nat → Trapframe) (trapframe : Trapframe) : Pool where
  kern := Threads.boot frames trapframe
  freeSignalContextList := signalInit
  context := fun _ => { contextRecover := default, start := false, signal := 0 }
  waitingSignal := fun _ => []
  blocked := fun _ => 0
  processing := fun _ => 0
  handlers := fun _ _ => 0

end Signal
end OsRiscv
