import Mathlib.Logic.Relation
import OsRiscv.Threads.Queues

/-!
# Moves — what the steps of the kernel do to the hart

Every step of `Threads.Model` is a sequence of small moves of the hart, possibly followed by one
`yield`.  The moves say which thread records and which entries of the futex queue may change; what
holds of futexes in all runs is proved once for each move.  Some moves make the current thread leave
the hart, and are always followed by the `yield`.
-/

namespace OsRiscv
namespace Futex

open Option (bind_eq_some_iff)
open Sched
open Threads

/-- A change of the hart inside a step, before `yield` is called; `leaving` says that it will be. -/
inductive Move (leaving : Bool) (h : Hart Nat) : Hart Nat → Prop
  /-- the current thread runs in user mode -/
  | user (frame : Trapframe) : Move leaving h { h with trapframe := frame }
  | wake (addr : Nat) (n : Int) : Move leaving h (Sched.futexWake h addr n)
  | requeue (addr : Nat) (n : Int) (newAddr : Nat) :
      Move leaving h (Sched.futexRequeue h addr n newAddr)
  /-- `wakeup` and `SIGKILL` -/
  | rouse (thread : Nat → Thread)
      (hthread : ∀ i, thread i = h.thread i ∨ thread i = { h.thread i with state := .runnable }) :
      Move leaving h { h with thread := thread }
  /-- a free thread is set up -/
  | create (i : Nat) (th : Thread) (scheduleList : Bool → List Nat)
      (hfree : (h.thread i).state = .unused) (hth : th.state = .runnable) :
      Move leaving h { h.setThread i th with scheduleList := scheduleList }
  /-- the current thread writes to its own record -/
  | own (i : Nat) (th : Thread) (hcur : h.currentThread = some i)
      (hstate : leaving = false → th.state = (h.thread i).state) :
      Move leaving h (h.setThread i th)
  /-- the current thread enters the queue -/
  | insert (i addr : Nat) (ts : Option Nat) (queue : List (FutexQueue Nat))
      (hleaving : leaving = true) (hcur : h.currentThread = some i) (hfree : ¬Waits h.futexQueue i)
      (hqueue : futexInsert addr i h.futexQueue = some queue) :
      Move leaving h { h.setThread i (suspend (h.thread i) ts) with futexQueue := queue }
  /-- the current thread ends -/
  | free (i : Nat) (hleaving : leaving = true) (hcur : h.currentThread = some i) :
      Move leaving h { h.setThread i { h.thread i with state := .unused } with currentThread := none }

/-- A sequence of moves. -/
abbrev Moves (leaving : Bool) : Hart Nat → Hart Nat → Prop :=
  Relation.ReflTransGen (Move leaving)

/-- A step in which `yield` is called. -/
def Left (h h' : Hart Nat) : Prop :=
  ∃ g clock b, Moves true h g ∧ Sched.yield clock g = some (b, h')

/-- What a step does to the hart. -/
def Moved (h h' : Hart Nat) : Prop := Moves false h h' ∨ Left h h'

variable {h h' g : Hart Nat} {s t : Kern} {clock : List Nat} {leaving : Bool}

lemma Moved.refl (h : Hart Nat) : Moved h h := .inl .refl

lemma Moved.of_move (hmove : Move false h h') : Moved h h' :=
  .inl (.single hmove)

lemma Left.trans (hmoves : Moves true h g) (hrest : Left g h') : Left h h' := by
  rcases hrest with ⟨k, clock, b, hmoves', hyield⟩
  exact ⟨k, clock, b, hmoves.trans hmoves', hyield⟩

lemma Left.yield (hyield : Threads.yield s clock = some t) : Left s.hart t.hart := by
  rcases bind_eq_some_iff.1 hyield with ⟨⟨b, hart⟩, hsched, hret⟩
  cases hret
  exact ⟨s.hart, clock, b, .refl, hsched⟩

lemma move_wakeup (s : Kern) (channel : Nat) : Move leaving s.hart (wakeup s channel).hart := by
  apply Move.rouse
  intro j
  split
  · exact .inr rfl
  · exact .inl rfl

end Futex
end OsRiscv
