import OsRiscv.Signal.Contexts

/-!
# Inherited — what a new thread takes over from the last owner of its slot

`threadSetup` resets the scheduling fields and the list of waiting signals of a `Thread` structure,
and leaves the sets `blocked`, `pending` and `processing` as they are.  Two kernels that differ only in
what the free structures hold therefore create threads with the same signal and scheduling state
exactly when the three sets of the slot agree.

`Pool` has of a `Thread` what sending and delivery use.  The rest of its signal fields, in a `Slot`, outlives the threads
that use the structure as well.
-/

namespace OsRiscv
namespace Signal

open Option (bind_eq_some_iff map_eq_some_iff)
open Option (any_true bind_eq_bind bind_some isSome_bind isSome_map isSome_some map_some pure_def)
open Lib
open Threads (Kern)

/-! ## The kernel's part -/

/-- The scheduling fields of a thread that was just created. -/
structure Blank (s : Kern) (i : Nat) : Prop where
  awakeTime : (s.hart.thread i).awakeTime = 0
  kernelGiveUp : (s.hart.thread i).kernelGiveUp = false
  killed : (s.task i).killed = false

lemma takeThread_blank {s t : Kern} {sp : UInt64} {i : Nat} (h : Threads.takeThread s sp = some (i, t)) :
    s.freeThreads.head? = some i ∧ Blank t i := by
  unfold Threads.takeThread at h
  split at h
  · cases h
  · rename_i j rest hfree
    cases h
    refine ⟨by rw [hfree]; rfl, ?_, ?_, ?_⟩ <;>
      simp [Threads.threadSetup, Kern.setThread, Kern.setTask, Sched.Hart.setThread]

lemma processAlloc_blank {s t : Kern} {parentId p i : Nat}
    (h : Threads.processAlloc s parentId = some (p, t)) (hs : Blank s i) : Blank t i := by
  unfold Threads.processAlloc at h
  split at h
  · cases h
  · cases h
    exact ⟨hs.awakeTime, hs.kernelGiveUp, hs.killed⟩

lemma attach_blank {s : Kern} {i p : Nat} (hs : Blank s i) : Blank (Threads.attach s i p) i where
  awakeTime := hs.awakeTime
  kernelGiveUp := hs.kernelGiveUp
  killed := by simpa [Threads.attach, Kern.setTask, Kern.setProcess] using hs.killed

lemma mainThreadAlloc_blank {s t : Kern} {parentId i : Nat} (h : Threads.mainThreadAlloc s parentId = some (i, t)) :
    s.freeThreads.head? = some i ∧ Blank t i := by
  rcases bind_eq_some_iff.1 h with ⟨⟨j, u⟩, htake, h⟩
  rcases bind_eq_some_iff.1 h with ⟨⟨p, v⟩, hproc, h⟩
  cases h
  rcases takeThread_blank htake with ⟨hhead, hblank⟩
  exact ⟨hhead, attach_blank (processAlloc_blank hproc hblank)⟩

lemma threadAlloc_blank {s t : Kern} {p i : Nat} {userSp : UInt64}
    (h : Threads.threadAlloc s p userSp = some (i, t)) : s.freeThreads.head? = some i ∧ Blank t i := by
  rcases bind_eq_some_iff.1 h with ⟨⟨j, u⟩, htake, h⟩
  cases h
  rcases takeThread_blank htake with ⟨hhead, hblank⟩
  exact ⟨hhead, attach_blank hblank⟩

lemma enqueue_setThread_blank {s : Kern} {i : Nat} (hs : Blank s i) (tf : Sched.Trapframe) :
    Blank (Threads.enqueue (s.setThread i { s.hart.thread i with trapframe := tf }) i) i where
  awakeTime := by
    simpa [Threads.enqueue, Kern.setThread, Sched.Hart.setThread] using hs.awakeTime
  kernelGiveUp := by
    simpa [Threads.enqueue, Kern.setThread, Sched.Hart.setThread] using hs.kernelGiveUp
  killed := hs.killed

lemma Creation.call_blank {c : Creation} {s t : Kern} (h : c.call s = some t) :
    ∃ i, s.freeThreads.head? = some i ∧ Blank t i := by
  cases c with
  | processCreate entryPoint =>
    rcases bind_eq_some_iff.1 h with ⟨⟨i, u⟩, halloc, h⟩
    cases h
    rcases mainThreadAlloc_blank halloc with ⟨hhead, hblank⟩
    exact ⟨i, hhead, enqueue_setThread_blank hblank _⟩
  | processFork =>
    rcases map_eq_some_iff.1 h with ⟨⟨r, v⟩, hfork, rfl⟩
    rcases bind_eq_some_iff.1 hfork with ⟨current, _, hfork⟩
    rcases bind_eq_some_iff.1 hfork with ⟨⟨i, u⟩, halloc, hfork⟩
    cases hfork
    rcases mainThreadAlloc_blank halloc with ⟨hhead, hblank⟩
    exact ⟨i, hhead, enqueue_setThread_blank hblank _⟩
  | threadFork stackVa tls ctid =>
    rcases map_eq_some_iff.1 h with ⟨⟨r, v⟩, hfork, rfl⟩
    rcases bind_eq_some_iff.1 hfork with ⟨current, _, hfork⟩
    rcases bind_eq_some_iff.1 hfork with ⟨⟨i, u⟩, halloc, hfork⟩
    cases hfork
    rcases threadAlloc_blank halloc with ⟨hhead, hblank⟩
    refine ⟨i, hhead, ?_, ?_, ?_⟩
    · simpa [Threads.enqueue, Kern.setThread, Kern.setTask, Sched.Hart.setThread]
        using hblank.awakeTime
    · simpa [Threads.enqueue, Kern.setThread, Kern.setTask, Sched.Hart.setThread]
        using hblank.kernelGiveUp
    · simpa [Threads.enqueue, Kern.setThread, Kern.setTask] using hblank.killed

/-! ## Whether a creation succeeds -/

lemma takeThread_isSome (s : Kern) (sp : UInt64) : (Threads.takeThread s sp).isSome = !s.freeThreads.isEmpty := by
  unfold Threads.takeThread
  split <;> simp_all

lemma mainThreadAlloc_isSome (s : Kern) (parentId : Nat) : (Threads.mainThreadAlloc s parentId).isSome =
      (!s.freeThreads.isEmpty && !s.freeProcesses.isEmpty) := by
  cases hfree : s.freeThreads with
  | nil => simp [Threads.mainThreadAlloc, Threads.takeThread, hfree]
  | cons i rest =>
    cases hproc : s.freeProcesses with
    | nil =>
      simp [Threads.mainThreadAlloc, Threads.takeThread, Threads.processAlloc, hfree, hproc,
        Threads.threadSetup, Kern.setThread, Kern.setTask]
    | cons p rest' =>
      simp [Threads.mainThreadAlloc, Threads.takeThread, Threads.processAlloc, hfree, hproc,
        Threads.threadSetup, Kern.setThread, Kern.setTask]

lemma Creation.call_isSome_congr (c : Creation) {s t : Kern}
    (hthreads : t.freeThreads = s.freeThreads) (hprocs : t.freeProcesses = s.freeProcesses)
    (hcur : t.hart.currentThread = s.hart.currentThread) : (c.call t).isSome = (c.call s).isSome := by
  cases c with
  | processCreate entryPoint =>
    simp only [Creation.call, Threads.processCreatePriority, bind_eq_bind,
      isSome_bind, pure_def, isSome_some, any_true,
      mainThreadAlloc_isSome, hthreads, hprocs]
  | processFork =>
    simp only [Creation.call, Threads.processFork, Threads.myProcess, hcur, isSome_map]
    cases s.hart.currentThread with
    | none => rfl
    | some i =>
      simp only [map_some, bind_eq_bind, bind_some, isSome_bind,
        pure_def, isSome_some, any_true, mainThreadAlloc_isSome, hthreads,
        hprocs]
  | threadFork stackVa tls ctid =>
    simp only [Creation.call, Threads.threadFork, Threads.threadAlloc, Threads.myProcess, hcur,
      isSome_map]
    cases s.hart.currentThread with
    | none => rfl
    | some i =>
      simp only [map_some, bind_eq_bind, bind_some, isSome_bind,
        pure_def, isSome_some, any_true, takeThread_isSome, hthreads]

/-! ## The structures of the threads -/

/-- What `Pool` leaves out of `struct Thread`: the words 1 to 15 of `blocked` and `processing`, and `pending`. -/
structure Slot where
  blocked : Fin 15 → SignalSet
  pending : Fin 16 → SignalSet
  processing : Fin 15 → SignalSet
  /-- the bits of `reason` other than `KERNEL_GIVE_UP` -/
  reason : Nat

structure Sys extends Pool where
  slot : Nat → Slot

/-- A set of signals, from its first word and the others. -/
def words (first : SignalSet) (rest : Fin 15 → SignalSet) : Fin 16 → SignalSet :=
  Fin.cases (motive := fun _ => SignalSet) first rest

namespace Sys

/-- `blocked.signal` -/
def blockedSet (s : Sys) (i : Nat) : Fin 16 → SignalSet := words (s.blocked i) (s.slot i).blocked

/-- `processing.signal` -/
def processingSet (s : Sys) (i : Nat) : Fin 16 → SignalSet := words (s.processing i) (s.slot i).processing

end Sys

/-- Create a thread in the first element of `freeThreads`; `threadSetup` also resets `reason`. -/
def create (s : Sys) (c : Creation) : Kernel Sys := do
  let i ← s.kern.freeThreads.head?
  let pool ← s.createThread c
  return { toPool := pool, slot := Function.update s.slot i { s.slot i with reason := 0 } }

/-- The other calls use the fields of `Pool` only. -/
def sysStep (addrOf : Nat → Nat) (s : Sys) : PoolAct → Kernel Sys
  | .call (.processCreate entryPoint) => create s (.processCreate entryPoint)
  | .call .processFork => create s .processFork
  | .call (.threadFork stackVa tls ctid) => create s (.threadFork stackVa tls ctid)
  | a => (poolStep addrOf s.toPool a).map fun pool => { s with toPool := pool }

/-- `threads` is zeroed memory. -/
def sysBoot (frames : Nat → Sched.Trapframe) (trapframe : Sched.Trapframe) : Sys where
  toPool := poolBoot frames trapframe
  slot _ := { blocked := fun _ => 0, pending := fun _ => 0, processing := fun _ => 0, reason := 0 }

/-! ## Two kernels -/

/-- Two states that differ only in what the `Thread` structures on `freeThreads` hold. -/
structure DifferInFree (s t : Sys) : Prop where
  kern : t.kern = { s.kern with
    hart := { s.kern.hart with thread := t.kern.hart.thread }, task := t.kern.task }
  handlers : t.handlers = s.handlers
  contexts : t.freeSignalContextList = s.freeSignalContextList ∧ t.context = s.context
  thread : ∀ i ∉ s.kern.freeThreads, t.kern.hart.thread i = s.kern.hart.thread i
  task : ∀ i ∉ s.kern.freeThreads, t.kern.task i = s.kern.task i
  signals : ∀ i ∉ s.kern.freeThreads, t.waitingSignal i = s.waitingSignal i ∧ t.blocked i = s.blocked i ∧
    t.processing i = s.processing i ∧ t.slot i = s.slot i

/-- The signal and scheduling state of a thread. -/
structure ThreadState where
  blocked : Fin 16 → SignalSet
  pending : Fin 16 → SignalSet
  processing : Fin 16 → SignalSet
  waitingSignal : List SignalContext
  awakeTime : Nat
  killed : Bool
  kernelGiveUp : Bool
  reason : Nat

def Sys.threadState (s : Sys) (i : Nat) : ThreadState where
  blocked := s.blockedSet i
  pending := (s.slot i).pending
  processing := s.processingSet i
  waitingSignal := (s.waitingSignal i).map s.context
  awakeTime := (s.kern.hart.thread i).awakeTime
  killed := (s.kern.task i).killed
  kernelGiveUp := (s.kern.hart.thread i).kernelGiveUp
  reason := (s.slot i).reason

/-- The signals that the thread would handle now if they were sent to it. -/
def Sys.accepts (s : Sys) (i signal : Nat) : Bool :=
  !signalSetAnd signal (s.blocked i) && !signalSetAnd signal (s.processing i)

lemma threadState_of_create {s t : Sys} {c : Creation} (h : create s c = some t) :
    ∃ i, s.kern.freeThreads.head? = some i ∧ t.threadState i = {
      blocked := s.blockedSet i, pending := (s.slot i).pending,
      processing := s.processingSet i, waitingSignal := [], awakeTime := 0, killed := false,
      kernelGiveUp := false, reason := 0 } := by
  rcases bind_eq_some_iff.1 h with ⟨i, hi, h⟩
  rcases bind_eq_some_iff.1 h with ⟨pool, hpool, h⟩
  cases h
  rcases bind_eq_some_iff.1 hpool with ⟨i', hi', hpool⟩
  rcases bind_eq_some_iff.1 hpool with ⟨kern, hcall, hpool⟩
  cases hpool
  rw [hi] at hi'
  cases hi'
  rcases Creation.call_blank hcall with ⟨j, hj, hblank⟩
  have hij : j = i := Option.some.inj (hj.symm.trans hi)
  rw [hij] at hblank
  refine ⟨i, hi, ?_⟩
  simp only [Sys.threadState, Sys.blockedSet, Sys.processingSet, Pool.setWaiting, Function.update_self, List.map_nil,
    hblank.awakeTime, hblank.kernelGiveUp, hblank.killed]

lemma create_isSome_congr {s t : Sys} (hdiff : DifferInFree s t) (c : Creation) :
    (create t c).isSome = (create s c).isSome := by
  have hfree : t.kern.freeThreads = s.kern.freeThreads := by rw [hdiff.kern]
  have hcall : (c.call t.kern).isSome = (c.call s.kern).isSome := by
    apply c.call_isSome_congr hfree
    · rw [hdiff.kern]
    · rw [hdiff.kern]
  unfold create Pool.createThread
  rw [hfree]
  cases s.kern.freeThreads.head? with
  | none => rfl
  | some i =>
    simpa only [bind_eq_bind, bind_some, isSome_bind, pure_def,
      isSome_some, any_true] using hcall

/-- Two kernels that differ only in the free `Thread` structures create threads with equal signal and
scheduling state exactly when the three signal sets in the slot of the new thread are equal. -/
theorem new_thread_state_iff {s s' t : Sys} {c : Creation} {i : Nat} (hdiff : DifferInFree s t)
    (hi : s.kern.freeThreads.head? = some i) (hs : create s c = some s') :
    (∃ t', create t c = some t' ∧ t'.threadState i = s'.threadState i) ↔
      t.blockedSet i = s.blockedSet i ∧ (t.slot i).pending = (s.slot i).pending ∧
        t.processingSet i = s.processingSet i := by
  have hsome : (create t c).isSome := by
    rw [create_isSome_congr hdiff, hs]
    rfl
  rcases Option.isSome_iff_exists.1 hsome with ⟨t', ht⟩
  rcases threadState_of_create hs with ⟨j, hj, hstate⟩
  rcases threadState_of_create ht with ⟨k, hk, hstate'⟩
  have hj : j = i := Option.some.inj (hj.symm.trans hi)
  have hk : k = i := by
    rw [hdiff.kern] at hk
    exact Option.some.inj (hk.symm.trans hi)
  rw [hj] at hstate
  rw [hk] at hstate'
  constructor
  · rintro ⟨t'', ht', heq⟩
    have : t'' = t' := Option.some.inj (ht'.symm.trans ht)
    rw [this, hstate, hstate'] at heq
    injection heq with hb hp hr
    exact ⟨hb, hp, hr⟩
  · rintro ⟨hb, hp, hr⟩
    refine ⟨t', ht, ?_⟩
    rw [hstate, hstate', hb, hp, hr]

/-- The state with another content of the signal sets and the slot of thread `i`. -/
def Sys.refill (s : Sys) (i : Nat) (blocked processing : SignalSet) (slot : Slot) : Sys :=
  { s with
    blocked := Function.update s.blocked i blocked
    processing := Function.update s.processing i processing
    slot := Function.update s.slot i slot }

lemma differInFree_refill {s : Sys} {i : Nat} (hi : s.kern.freeThreads.head? = some i)
    (blocked processing : SignalSet) (slot : Slot) : DifferInFree s (s.refill i blocked processing slot) where
  kern := rfl
  handlers := rfl
  contexts := ⟨rfl, rfl⟩
  thread := fun _ _ => rfl
  task := fun _ _ => rfl
  signals := by
    intro j hj
    have hne : j ≠ i := by
      rintro rfl
      exact hj (List.mem_of_mem_head? hi)
    simp only [Sys.refill, Function.update_of_ne hne, and_self]

/-- A second thread enters the handler of signal 2 and exits inside it. -/
def exitInHandler : List PoolAct :=
  [.call (.processCreate 0), .call (.yield [0, 0]), .call (.threadFork 0x5000 0 0), .call (.yield [0, 0]),
    .action 2 0x1000, .call (.signalSend 0 0 2), .call (.handleSignal []), .call (.exit 0 [0, 0])]

theorem new_thread_state_of_equal_sets :
    ∃ s s' t', Run (fun s a t => sysStep id s a = some t) (sysBoot (fun _ => default) default)
        exitInHandler s ∧
      create s .processFork = some s' ∧
      create (s.refill 1 (s.blocked 1) (s.processing 1) { s.slot 1 with reason := 2 }) .processFork = some t' ∧
      t'.threadState 1 = s'.threadState 1 := by
  rcases exists_of_any (o := runAll (sysStep id) (sysBoot (fun _ => default) default) exitInHandler) (P := fun s =>
    s.kern.freeThreads.head? = some 1 ∧ (create s .processFork).isSome = true) (by decide +kernel) with
    ⟨s, hs, hhead, hsome⟩
  rcases Option.isSome_iff_exists.1 hsome with ⟨s', hs'⟩
  have hsets := (new_thread_state_iff (differInFree_refill hhead (s.blocked 1) (s.processing 1)
    { s.slot 1 with reason := 2 }) hhead hs').2 (by simp [Sys.refill, Sys.blockedSet, Sys.processingSet])
  rcases hsets with ⟨t', ht', heq⟩
  exact ⟨s, s', t', run_of_runAll hs, hs', ht', heq⟩

/-- The structure of a thread that exited inside a handler, against the same structure as it was at boot: the
new thread does not take signal 2 in the first case and takes it in the second. -/
theorem new_thread_inherits_processing :
    ∃ s s' t', Run (fun s a t => sysStep id s a = some t) (sysBoot (fun _ => default) default)
        exitInHandler s ∧
      DifferInFree s (s.refill 1 0 0 (s.slot 1)) ∧
      create s .processFork = some s' ∧ create (s.refill 1 0 0 (s.slot 1)) .processFork = some t' ∧
      s'.accepts 1 2 = false ∧ t'.accepts 1 2 = true ∧ t'.threadState 1 ≠ s'.threadState 1 := by
  rcases exists_of_any (o := runAll (sysStep id) (sysBoot (fun _ => default) default) exitInHandler) (P := fun s =>
    s.kern.freeThreads.head? = some 1 ∧ (create s .processFork).map (·.accepts 1 2) = some false ∧
    (create (s.refill 1 0 0 (s.slot 1)) .processFork).map (·.accepts 1 2) = some true) (by decide +kernel) with
    ⟨s, hs, hhead, hused, hfresh⟩
  rcases map_eq_some_iff.1 hused with ⟨s', hs', haccepts⟩
  rcases map_eq_some_iff.1 hfresh with ⟨t', ht', haccepts'⟩
  refine ⟨s, s', t', run_of_runAll hs, differInFree_refill hhead _ _ _, hs', ht', haccepts, haccepts',
    ?_⟩
  intro heq
  injection heq with hb _ hp
  have hblocked : t'.blocked 1 = s'.blocked 1 := congrFun hb ⟨0, Nat.succ_pos 15⟩
  have hprocessing : t'.processing 1 = s'.processing 1 := congrFun hp ⟨0, Nat.succ_pos 15⟩
  unfold Sys.accepts at haccepts haccepts'
  rw [hblocked, hprocessing, haccepts] at haccepts'
  cases haccepts'

end Signal
end OsRiscv
