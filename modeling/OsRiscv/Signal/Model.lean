import Mathlib.Data.List.Lookmap
import OsRiscv.Lib.Run
import OsRiscv.Sched.Yield

/-!
# Signals — `kernel/system/Signal.c` for one thread

A thread keeps its signals in one list, `waitingSignal`: those that wait and those whose handler has
been entered and has not returned.  New signals go to the front of it, the return to user mode takes
the first one that it may start, and `syscallSignalReturn` takes the first one that is started.

The model follows one thread.  Its trapframe is the one of the hart while it runs and the one saved
in the thread otherwise.  The pool of contexts is left out: a call that finds it empty ends in a
`panic`, and a context that is taken from it keeps the `contextRecover` of its last use, which is an
argument here.  The stack page that `initFrame` maps and the `copyin` of `handleSignal`, whose result
nothing reads, are left out as well.
-/

namespace OsRiscv
namespace Signal

open Lib
open Sched (Trapframe)

/-! ## Signal sets -/

/-- `SignalSet`, of which only the first word is used. -/
abbrev SignalSet := BitVec 64

/-- `1UL << (signal - 1)` -/
def signalBit (signal : Nat) : SignalSet := 1#64 <<< (signal - 1)

def signalSetAnd (signal : Nat) (ss : SignalSet) : Bool := ss &&& signalBit signal != 0

def signalProcessStart (signal : Nat) (ss : SignalSet) : SignalSet := ss ||| signalBit signal

def signalProcessEnd (signal : Nat) (ss : SignalSet) : SignalSet := ss &&& ~~~ signalBit signal

/-- The numbers that the three functions above accept without a `panic` and that name a bit. -/
def Valid (signal : Nat) : Prop := 1 ≤ signal ∧ signal ≤ 64

instance (signal : Nat) : Decidable (Valid signal) := inferInstanceAs (Decidable (_ ∧ _))

lemma signalSetAnd_eq_getLsbD {k : Nat} (hk : Valid k) (ss : SignalSet) :
    signalSetAnd k ss = ss.getLsbD (k - 1) := by
  have hlt : k - 1 < 64 := by
    unfold Valid at hk
    omega
  unfold signalSetAnd signalBit
  rw [← BitVec.twoPow_eq, BitVec.and_twoPow]
  cases hbit : ss.getLsbD (k - 1) with
  | false => simp
  | true =>
    -- the bit itself is not the empty set
    have hne : BitVec.twoPow 64 (k - 1) ≠ 0#64 := by
      intro h
      have := congrArg (fun x : BitVec 64 => x.getLsbD (k - 1)) h
      simp [hlt] at this
    simpa using hne

lemma signalSetAnd_start {j k : Nat} (hj : Valid j) (hk : Valid k) (ss : SignalSet) :
    signalSetAnd j (signalProcessStart k ss) = (signalSetAnd j ss || decide (j = k)) := by
  rw [signalSetAnd_eq_getLsbD hj, signalSetAnd_eq_getLsbD hj]
  unfold signalProcessStart signalBit
  unfold Valid at hj hk
  rw [← BitVec.twoPow_eq, BitVec.getLsbD_or, BitVec.getLsbD_twoPow]
  congr 1
  rw [decide_eq_true (by omega : k - 1 < 64), Bool.true_and]
  exact decide_eq_decide.2 (by omega)

lemma signalSetAnd_end {j k : Nat} (hj : Valid j) (hk : Valid k) (ss : SignalSet) :
    signalSetAnd j (signalProcessEnd k ss) = (signalSetAnd j ss && decide (j ≠ k)) := by
  rw [signalSetAnd_eq_getLsbD hj, signalSetAnd_eq_getLsbD hj]
  unfold signalProcessEnd signalBit
  unfold Valid at hj hk
  rw [← BitVec.twoPow_eq, BitVec.getLsbD_and, BitVec.getLsbD_not, BitVec.getLsbD_twoPow]
  rw [decide_eq_true (by omega : k - 1 < 64), decide_eq_true (by omega : j - 1 < 64)]
  congr 1
  simp only [Bool.true_and, ← decide_not]
  exact decide_eq_decide.2 (by omega)

/-! ## The thread -/

/-- `struct SignalContext` -/
structure SignalContext where
  contextRecover : Trapframe
  start : Bool
  signal : Nat

/-- The fields of a thread, and of its process, that signal delivery uses. -/
structure State where
  waitingSignal : List SignalContext
  blocked : SignalSet
  processing : SignalSet
  killed : Bool
  trapframe : Trapframe
  /-- `getSignalHandler(process)[i].handler`; `NULL` is 0 -/
  handler : Nat → UInt64
  /-- History: number and saved trapframe of each handler that was entered and has not returned, the
  one entered last in front. -/
  unfinished : List (Nat × Trapframe)

/-- `SIGKILL` -/
def sigkill : Nat := 9

/-- `signalSend`, for the thread that `tid` names; `old` is what the context held before.  The context keeps one byte
of the number. -/
def signalSend (s : State) (sig : Nat) (old : Trapframe) : State :=
  { s with
    killed := s.killed || sig == sigkill
    waitingSignal := { contextRecover := old, start := false, signal := sig % 256 } :: s.waitingSignal }

/-- The values of `how` that `signProccessMask` knows. -/
inductive How
  | block
  | unblock
  | setmask
  deriving DecidableEq, Repr

/-- `signProccessMask`; an unknown `how` changes nothing. -/
def signProccessMask (s : State) : Option How → SignalSet → State
  | some .block, newSet => { s with blocked := s.blocked ||| newSet }
  | some .unblock, newSet => { s with blocked := s.blocked &&& ~~~ newSet }
  | some .setmask, newSet => { s with blocked := newSet }
  | none, _ => s

/-- `doSignalAction` with a new action: `k = handlers + (sig - 1)`. -/
def doSignalAction (s : State) (sig : Nat) (act : UInt64) : State :=
  if sig < 1 ∨ 128 < sig then s
  else { s with handler := Function.update s.handler (sig - 1) act }

/-- The test that makes `getFirstSignalContext` stop: not
`!start && (blocked || processing)`. -/
def ready (blocked processing : SignalSet) (sc : SignalContext) : Bool :=
  !(!sc.start && (signalSetAnd sc.signal blocked || signalSetAnd sc.signal processing))

section

variable {α : Type*} (context : α → SignalContext) (blocked processing : SignalSet)

/-- The loop of `getFirstSignalContext`.  For a number above 64 `signalSetAnd` is a `panic`, and for 0 it shifts by
-1. -/
def firstReady : List α → Kernel (Option α)
  | [] => some none
  | c :: rest =>
    if ¬(context c).start ∧ ¬Valid (context c).signal then none
    else if ready blocked processing (context c) then some (some c)
    else firstReady rest

variable {context blocked processing} {l : List α}

lemma firstReady_eq {o : Option α} (h : firstReady context blocked processing l = some o) :
    l.find? (fun c => ready blocked processing (context c)) = o := by
  induction l with
  | nil => exact Option.some.inj h
  | cons c l ih =>
    unfold firstReady at h
    split at h
    · cases h
    · split at h
      · rename_i hready
        cases h
        exact List.find?_cons_of_pos (p := fun c => ready blocked processing (context c)) hready
      · rename_i hready
        rw [List.find?_cons_of_neg (p := fun c => ready blocked processing (context c)) hready]
        exact ih h

lemma firstReady_isSome (h : ∀ c ∈ l, Valid (context c).signal) :
    (firstReady context blocked processing l).isSome = true := by
  induction l with
  | nil => rfl
  | cons c l ih =>
    rcases List.forall_mem_cons.1 h with ⟨hc, hl⟩
    rw [firstReady, if_neg (fun hfault => hfault.2 hc)]
    split
    · rfl
    · exact ih hl

end

def getFirstSignalContext (s : State) : Kernel (Option SignalContext) :=
  firstReady id s.blocked s.processing s.waitingSignal

/-- `getHandlingSignal`; without a started context the assertion fails. -/
def getHandlingSignal (s : State) : Kernel SignalContext :=
  s.waitingSignal.find? (·.start)

/-- `signalFinish` of the context that `getFirstSignalContext` or `getHandlingSignal` found: the
first one that passes the test `p`. -/
def signalFinish (s : State) (p : SignalContext → Bool) : State :=
  { s with waitingSignal := s.waitingSignal.eraseP p }

/-- `SIGNAL_TRAMPOLINE_BASE` -/
def signalTrampolineBase : UInt64 := 0x4000000000 - 3 * 4096

/-- `initFrame`, the registers it sets: a page below the stack, and the return to the trampoline. -/
def initFrame (tf : Trapframe) : Trapframe :=
  let sp := (tf.sp - 4096) &&& ~~~ (4096 - 1)
  { tf with sp := 4096 + sp - 4096, ra := signalTrampolineBase }

/-- The statements of `handleSignal` that enter the handler of `sc`. -/
def enterHandler (s : State) (sc : SignalContext) : State :=
  { s with
    waitingSignal := s.waitingSignal.lookmap fun c =>
      if ready s.blocked s.processing c then
        some { c with start := true, contextRecover := s.trapframe }
      else none
    processing := signalProcessStart sc.signal s.processing
    trapframe := { initFrame s.trapframe with epc := s.handler (sc.signal - 1) }
    unfinished := (sc.signal, s.trapframe) :: s.unfinished }

/-- The loop of `handleSignal` after the test of `killed`.  `fuel` bounds the rounds; each round
that does not return removes a context. -/
def handleLoop : Nat → State → Kernel State
  | 0, _ => none
  | fuel + 1, s =>
    match getFirstSignalContext s with
    | none => none
    | some none => some s
    | some (some sc) =>
      if sc.start then
        some s
      else if s.handler (sc.signal - 1) = 0 then
        handleLoop fuel (signalFinish s (ready s.blocked s.processing))
      else
        some (enterHandler s sc)

/-- `handleSignal`, on each return to user mode.  A killed thread is destroyed there and has no next
state. -/
def handleSignal (s : State) : Kernel State :=
  if s.killed then none else handleLoop (s.waitingSignal.length + 1) s

def syscallSignalReturn (s : State) : Kernel State := do
  let sc ← getHandlingSignal s
  if ¬Valid sc.signal then none
  else
    pure (signalFinish
      { s with
        trapframe := sc.contextRecover
        processing := signalProcessEnd sc.signal s.processing
        unfinished := s.unfinished.tail } (·.start))

/-! ## Runs -/

inductive Act
  /-- the thread runs, in user mode or in another system call, and leaves this trapframe -/
  | run (frame : Trapframe)
  | send (sig : Nat) (old : Trapframe)
  | mask (how : Option How) (newSet : SignalSet)
  | action (sig : Nat) (act : UInt64)
  | toUser
  | sigreturn

def step (s : State) : Act → Kernel State
  | .run frame => some { s with trapframe := frame }
  | .send sig old => some (signalSend s sig old)
  | .mask how newSet => some (signProccessMask s how newSet)
  | .action sig act => some (doSignalAction s sig act)
  | .toUser => handleSignal s
  | .sigreturn => syscallSignalReturn s

/-- The signal numbers of the acts are numbers of signals. -/
def Act.Valid : Act → Prop
  | .send sig _ => Signal.Valid sig
  | _ => True

/-- A thread without signals: nothing waits, nothing is being processed. -/
structure Fresh (s : State) : Prop where
  waitingSignal : s.waitingSignal = []
  processing : s.processing = 0
  unfinished : s.unfinished = []

end Signal
end OsRiscv
