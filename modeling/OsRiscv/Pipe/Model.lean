import OsRiscv.Kernel.Basic
import OsRiscv.Lib.Run
import OsRiscv.Lib.Ring

/-!
# Pipe — `kernel/fs/Pipe.c` with the sleep and wakeup of `kernel/yield/Thread.c`

The kernel is not preemptive: a thread inside `pipeWrite` or `pipeRead` runs until it sleeps or
returns.  One step of the model is such a stretch.  The functions below are the bodies of the two
calls from a point where the thread gets the processor to the point where it gives it up.

Buffers are kernel buffers (`isUser = 0`), so `pa` walks through consecutive bytes: the model keeps
the bytes that `pa` still has to visit.
-/

namespace OsRiscv
namespace Pipe

open Lib

/-! ## The pipe -/

/-- `PIPESIZE`. -/
def pipeSize : Nat := 65536

/-- `struct pipe`.  `nread` and `nwrite` are 64-bit counters in the source; `counters_wrap` shows
that every test and index computed from them is the same modulo `2 ^ 64`. -/
structure PipeBuf where
  data : Nat → UInt8
  nread : Nat
  nwrite : Nat
  readopen : Bool
  writeopen : Bool

namespace PipeBuf

/-- The bytes written and not yet read, oldest first. -/
def queue (pi : PipeBuf) : List UInt8 :=
  window pipeSize pi.data pi.nread pi.nwrite

/-- `pi->nwrite == pi->nread + PIPESIZE` -/
def Full (pi : PipeBuf) : Prop := pi.nwrite = pi.nread + pipeSize

/-- `pi->nread == pi->nwrite` -/
def Empty (pi : PipeBuf) : Prop := pi.nread = pi.nwrite

instance (pi : PipeBuf) : Decidable pi.Full := inferInstanceAs (Decidable (_ = _))
instance (pi : PipeBuf) : Decidable pi.Empty := inferInstanceAs (Decidable (_ = _))

/-- `pi->data[(pi->nwrite++) & (PIPESIZE - 1)] = ch` -/
def put (pi : PipeBuf) (ch : UInt8) : PipeBuf :=
  { pi with
    data := Function.update pi.data (pi.nwrite &&& (pipeSize - 1)) ch
    nwrite := pi.nwrite + 1 }

/-- `ch = pi->data[(pi->nread++) & (PIPESIZE - 1)]` -/
def get (pi : PipeBuf) : UInt8 × PipeBuf :=
  (pi.data (pi.nread &&& (pipeSize - 1)), { pi with nread := pi.nread + 1 })

/-- A pipe as `pipeNew` hands it out. -/
def new (data : Nat → UInt8) : PipeBuf :=
  { data := data, nread := 0, nwrite := 0, readopen := true, writeopen := true }

end PipeBuf

/-! ## Threads and the two wait channels -/

/-- The addresses `&pi->nread` and `&pi->nwrite`, on which readers and writers sleep. -/
inductive Chan
  | nread
  | nwrite
  deriving DecidableEq, Repr

/-- A call of the pipe interface that a thread is inside of, with its local variables.  `id` numbers
the calls and is not part of the source. -/
inductive Call
  /-- `pipeWrite` of `buf`: `i` bytes are stored, `rest` starts at `pa`. -/
  | write (id : Nat) (buf : List UInt8) (i : Nat) (rest : List UInt8)
  /-- `pipeRead` of at most `n` bytes. -/
  | read (id : Nat) (n : Nat)

structure Thread where
  state : ProcessState
  chan : Option Chan
  call : Option Call

/-- A thread that runs user code or other kernel code. -/
def Thread.idle : Thread := { state := .runnable, chan := none, call := none }

/-- What happened to the pipe, in order.  The trace is a history variable. -/
inductive Event
  | stored (id : Nat) (ch : UInt8)
  | taken (id : Nat) (ch : UInt8)
  | wrote (id : Nat) (buf : List UInt8) (ret : Nat)
  | read (id : Nat) (n : Nat) (ret : Nat)
  | closedWrite
  deriving DecidableEq

structure Sys (ι : Type*) where
  pi : PipeBuf
  threads : ι → Thread
  nextId : Nat
  trace : List Event

variable {ι : Type*} [DecidableEq ι]

/-- `wakeup(channel)`: every thread sleeping on `channel` becomes runnable. -/
def wakeup (channel : Chan) (threads : ι → Thread) : ι → Thread :=
  fun t =>
    if (threads t).state = .sleeping ∧ (threads t).chan = some channel then
      { threads t with state := .runnable }
    else
      threads t

/-- `sleep(chan, lk)` up to the switch to another thread; `call` is what stays on its stack. -/
def sleep (t : ι) (chan : Chan) (call : Call) (threads : ι → Thread) : ι → Thread :=
  Function.update threads t { state := .sleeping, chan := some chan, call := some call }

/-! ## `pipeWrite` -/

/-- Where the loop of `pipeWrite` stops. -/
inductive WriteStop
  | full (pi : PipeBuf) (i : Nat) (rest : List UInt8)
  | done (pi : PipeBuf) (i : Nat)
  | panicked

/-- The `while (i < n)` loop of `pipeWrite`, until the pipe is full or all bytes are stored. -/
def pipeWriteLoop (pi : PipeBuf) (i : Nat) : List UInt8 → WriteStop
  | [] => .done pi i
  | ch :: rest =>
    if pi.readopen = false then
      .panicked
    else if pi.Full then
      .full pi i (ch :: rest)
    else
      pipeWriteLoop (pi.put ch) (i + 1) rest

/-- `pipeWrite` by thread `t` from the head of its loop until it sleeps or returns. -/
def runWrite (s : Sys ι) (t : ι) (id : Nat) (buf : List UInt8) (i : Nat) (rest : List UInt8) : Kernel (Sys ι) :=
  match pipeWriteLoop s.pi i rest with
  | .panicked => none
  | .full pi j rest' =>
    some { s with
      pi := pi
      threads := sleep t .nwrite (.write id buf j rest') (wakeup .nread s.threads)
      trace := s.trace ++ (rest.take (j - i)).map (.stored id) }
  | .done pi j =>
    -- `assert(i != 0)`
    if j = 0 then
      none
    else
      some { s with
        pi := pi
        threads := Function.update (wakeup .nread s.threads) t .idle
        trace := s.trace ++ (rest.take (j - i)).map (.stored id) ++ [.wrote id buf j] }

/-! ## `pipeRead` -/

/-- The copy loop of `pipeRead`: at most `n` bytes, until the pipe is empty. -/
def pipeReadLoop (pi : PipeBuf) : Nat → List UInt8 × PipeBuf
  | 0 => ([], pi)
  | n + 1 =>
    if pi.Empty then
      ([], pi)
    else
      let (ch, pi') := pi.get
      let (out, pi'') := pipeReadLoop pi' n
      (ch :: out, pi'')

/-- `pipeRead` by thread `t` from the test of its waiting loop until it sleeps or returns. -/
def runRead (s : Sys ι) (t : ι) (id n : Nat) : Sys ι :=
  if s.pi.Empty ∧ s.pi.writeopen = true then
    { s with threads := sleep t .nread (.read id n) s.threads }
  else
    let (out, pi) := pipeReadLoop s.pi n
    { s with
      pi := pi
      threads := Function.update (wakeup .nwrite s.threads) t .idle
      trace := s.trace ++ out.map (.taken id) ++ [.read id n out.length] }

/-! ## `pipeClose` -/

/-- `pipeClose(pi, writable)`. -/
def pipeClose (s : Sys ι) (writable : Bool) : Sys ι :=
  if writable then
    { s with
      pi := { s.pi with writeopen := false }
      threads := wakeup .nread s.threads
      trace := s.trace ++ [.closedWrite] }
  else
    { s with
      pi := { s.pi with readopen := false }
      threads := wakeup .nwrite s.threads }

/-! ## The system -/

/-- What the thread that gets the processor does. -/
inductive Act (ι : Type*)
  /-- `t` calls `pipeWrite(pi, 0, buf, n)`. -/
  | write (t : ι) (buf : List UInt8)
  /-- `t` calls `pipeRead(pi, 0, buf, n)`. -/
  | read (t : ι) (n : Nat)
  /-- `t`, made runnable by a wakeup, continues after its `sleep`. -/
  | resume (t : ι)
  /-- `t` closes one end. -/
  | close (t : ι) (writable : Bool)

/-- `t` is runnable and not inside a call. -/
def Ready (s : Sys ι) (t : ι) : Prop :=
  (s.threads t).state = .runnable ∧ (s.threads t).call.isNone

instance (s : Sys ι) (t : ι) : Decidable (Ready s t) := inferInstanceAs (Decidable (_ ∧ _))

/-- One thread runs until it sleeps or returns. -/
def step (s : Sys ι) : Act ι → Kernel (Sys ι)
  | .write t buf =>
    if Ready s t then
      runWrite { s with nextId := s.nextId + 1 } t s.nextId buf 0 buf
    else
      none
  | .read t n =>
    if Ready s t then
      some (runRead { s with nextId := s.nextId + 1 } t s.nextId n)
    else
      none
  | .resume t =>
    if (s.threads t).state = .runnable then
      match (s.threads t).call with
      | some (.write id buf i rest) => runWrite s t id buf i rest
      | some (.read id n) => some (runRead s t id n)
      | none => none
    else
      none
  | .close t writable => if Ready s t then some (pipeClose s writable) else none

/-- A new pipe, and no thread inside a call. -/
def init (data : Nat → UInt8) : Sys ι :=
  { pi := .new data, threads := fun _ => .idle, nextId := 0, trace := [] }

end Pipe
end OsRiscv
