import Mathlib.Data.List.Nodup
import OsRiscv.Threads.Refine

/-!
# Accounting — threads and processes in every reachable state

The invariants of the ledger and of the queues hold after `processInit`, and every step keeps them.  The two
results read them off in the terms of the kernel's lists.
-/

namespace OsRiscv
namespace Threads

open Lib List
open Sched

variable {addrOf : Nat → Nat} {frames : Nat → Trapframe} {trapframe : Trapframe} {acts : List Act} {s : Kern}

structure Inv (s : Kern) : Prop where
  partitioned : Partitioned s
  balanced : s.ledger.Balanced
  recorded : s.ledger.Recorded

lemma boot_inv (frames : Nat → Trapframe) (trapframe : Trapframe) : Inv (boot frames trapframe) := by
  have hempty : ∀ {α : Type} {P : α → Prop}, ∀ x ∈ ([] : List α), P x := by
    intro α P x hx
    cases hx
  refine ⟨⟨?_, ⟨?_, hempty, fun _ _ => rfl, ?_⟩, ?_⟩, ?_, ?_⟩
  · simpa [boot] using nodup_range
  · simp [boot, Sched.init, waiting]
  · rintro i ⟨e, he, hv, _⟩
    rw [eq_of_mem_replicate he] at hv
    cases hv
  · intro i hcur
    cases hcur
  · refine ⟨?_, ?_, fun _ => rfl, fun _ _ => rfl, hempty, hempty⟩
    · simp [Kern.ledger, boot]
    · simp [Kern.ledger, boot]
  · exact ⟨hempty, hempty, hempty, nodup_nil, hempty, hempty, hempty⟩

lemma step_inv {t : Kern} {a : Act} (hs : Inv s) (hstep : step addrOf s a = some t) : Inv t := by
  have heffect := step_effect hs.partitioned hstep
  rcases heffect.ledger.sound hs.balanced hs.recorded with ⟨hbalanced, hrecorded⟩
  exact ⟨heffect.partitioned, hbalanced, hrecorded⟩

lemma run_inv (hrun : Run (fun s a t => step addrOf s a = some t) (boot frames trapframe) acts s) : Inv s :=
  hrun.invariant (boot_inv frames trapframe) fun _ _ _ => step_inv

/-! ## The queues -/

/-- Each thread in use but the current one waits in exactly one of the two lists, exactly once. -/
structure QueuesPartition (s : Kern) : Prop where
  waits : ∀ i ∈ s.usedThreads, s.hart.currentThread ≠ some i →
    (s.hart.scheduleList false).count i + (s.hart.scheduleList true).count i = 1
  current : ∀ i, s.hart.currentThread = some i → ∀ point, i ∉ s.hart.scheduleList point
  unused : ∀ i, (s.hart.thread i).state = .unused → ∀ point, i ∉ s.hart.scheduleList point

lemma mem_waiting {lists : Bool → List Nat} {i : Nat} {point : Bool} (hi : i ∈ lists point) :
    i ∈ waiting lists := by
  cases point with
  | false => exact mem_append_left _ hi
  | true => exact mem_append_right _ hi

lemma Partitioned.queuesPartition (hs : Partitioned s) : QueuesPartition s := by
  have hperm := hs.ready.queues
  have hnodup : (waiting s.hart.scheduleList ++ s.hart.currentThread.toList).Nodup :=
    hperm.nodup_iff.2 hs.nodup_used
  refine ⟨?_, ?_, ?_⟩
  · intro i hi hne
    have hone : (waiting s.hart.scheduleList ++ s.hart.currentThread.toList).count i = 1 := by
      rw [hperm.count_eq]
      exact nodup_iff_count_eq_one.1 hs.nodup_used i hi
    have hnone : s.hart.currentThread.toList.count i = 0 := by
      rw [count_eq_zero]
      simpa using hne
    rw [count_append, hnone, count_waiting _ false] at hone
    simpa using hone
  · intro i hcur point hi
    exact (nodup_append.1 hnodup).2.2 i (mem_waiting hi) i (by simp [hcur]) rfl
  · intro i hunused point hi
    have hin : i ∈ s.usedThreads := hperm.mem_iff.1 (mem_append_left _ (mem_waiting hi))
    exact hs.ready.live i hin hunused

/-- In every reachable state the queues partition the threads, and an iteration of the loop in `yield` keeps
the threads that wait together with the candidate. -/
theorem queues_partition_threads (hrun : Run (fun s a t => step addrOf s a = some t) (boot frames trapframe) acts s) :
    QueuesPartition s ∧ ∀ p : Pick Nat,
      (waiting (pickNext p).scheduleList ++ (pickNext p).thread.toList).Perm
        (waiting p.scheduleList ++ p.thread.toList) :=
  ⟨(run_inv hrun).partitioned.queuesPartition, pickNext_perm⟩

/-- A process forks; the parent waits, and the child gets the hart. -/
def forkAndWait : List Act :=
  [.processCreate 0, .yield [0, 0], .processFork, .wait none true false [0, 0, 0]]

theorem queues_partition_threads_fork :
    ∃ s, Run (fun s a t => step id s a = some t) (boot (fun _ => default) default) forkAndWait s ∧
      s.usedThreads = [1, 0] ∧ s.hart.currentThread = some 1 ∧ QueuesPartition s := by
  refine exists_run (P := fun s => s.usedThreads = [1, 0] ∧ s.hart.currentThread = some 1) (by decide +kernel) ?_
  rintro s hrun ⟨hused, hcur⟩
  exact ⟨hused, hcur, (queues_partition_threads hrun).1⟩

/-! ## The lists of threads and processes -/

/-- Free and used elements, the number of threads of each process, and what `wait` has returned. -/
structure Accounted (s : Kern) : Prop where
  processes : ∀ p < processTotalNumber,
    (s.freeProcesses.count p = 1 ∧ s.usedProcesses.count p = 0 ∧ (s.process p).state = .unused) ∨
    (s.freeProcesses.count p = 0 ∧ s.usedProcesses.count p = 1 ∧
      ((s.process p).state = .runnable ∨ (s.process p).state = .zombie))
  threads : ∀ i < processTotalNumber,
    (s.freeThreads.count i = 1 ∧ s.usedThreads.count i = 0 ∧ (s.hart.thread i).state = .unused) ∨
    (s.freeThreads.count i = 0 ∧ s.usedThreads.count i = 1)
  bounded : (∀ p ∈ s.freeProcesses ++ s.usedProcesses, p < processTotalNumber) ∧
    ∀ i ∈ s.freeThreads ++ s.usedThreads, i < processTotalNumber
  threadCount : ∀ p ∈ s.usedProcesses,
    (s.process p).threadCount = s.usedThreads.countP fun i => (s.task i).process = p
  zombie : ∀ p ∈ s.usedProcesses,
    (s.process p).state = .zombie ↔ s.usedThreads.countP (fun i => (s.task i).process = p) = 0
  /-- A process is named by its birth, since the elements of `processes` are used again. -/
  once : (s.reaps.map Reap.birth).Nodup
  parent : ∀ r ∈ s.reaps, r.waiter = r.parentId
  status : ∀ r ∈ s.reaps, Ledger.lastExit s.exits r.birth = some r.status

lemma count_of_perm_range {free used : List Nat} {n a : Nat} (hperm : (free ++ used).Perm (List.range n))
    (ha : a < n) : (free.count a = 1 ∧ used.count a = 0) ∨ (free.count a = 0 ∧ used.count a = 1) := by
  have hone : (free ++ used).count a = 1 := by
    rw [hperm.count_eq]
    exact nodup_iff_count_eq_one.1 nodup_range a (mem_range.2 ha)
  rw [count_append] at hone
  omega

lemma Inv.accounted (hs : Inv s) : Accounted s := by
  have hbalanced := hs.balanced
  have hstate : ∀ p ∈ s.usedProcesses, (s.process p).state =
      if s.ledger.members p = 0 then .zombie else .runnable := by
    intro p hp
    exact hbalanced.state p hp (by simp)
  refine ⟨?_, ?_, ⟨?_, ?_⟩, fun p _ => hbalanced.count p, ?_, hs.recorded.once, hs.recorded.parent,
    hs.recorded.status⟩
  · intro p hp
    rcases count_of_perm_range hbalanced.processes hp with ⟨hfree, hused⟩ | ⟨hfree, hused⟩
    · exact .inl ⟨hfree, hused, hbalanced.unused p (count_eq_zero.1 hused)⟩
    · refine .inr ⟨hfree, hused, ?_⟩
      have hin : p ∈ s.usedProcesses := by
        refine count_pos_iff.1 ?_
        exact lt_of_lt_of_eq Nat.one_pos hused.symm
      rw [hstate p hin]
      split
      · exact .inr rfl
      · exact .inl rfl
  · intro i hi
    rcases count_of_perm_range hbalanced.threads hi with ⟨hfree, hused⟩ | ⟨hfree, hused⟩
    · exact .inl ⟨hfree, hused, hs.partitioned.ready.idle i (count_eq_zero.1 hused)⟩
    · exact .inr ⟨hfree, hused⟩
  · intro p hp
    exact mem_range.1 (hbalanced.processes.mem_iff.1 hp)
  · intro i hi
    exact mem_range.1 (hbalanced.threads.mem_iff.1 hi)
  · intro p hp
    rw [hstate p hp]
    split
    · rename_i hzero
      exact iff_of_true rfl hzero
    · rename_i hmore
      exact iff_of_false (by simp) hmore

theorem threads_and_processes_accounted
    (hrun : Run (fun s a t => step addrOf s a = some t) (boot frames trapframe) acts s) : Accounted s :=
  (run_inv hrun).accounted

/-- The child exits with 3, the parent is woken and gets its status. -/
theorem threads_and_processes_accounted_reaped :
    ∃ s, Run (fun s a t => step id s a = some t) (boot (fun _ => default) default)
        (forkAndWait ++ [.exit 3 [0, 0, 0], .sleepReturn [], .wait none true false []]) s ∧
      s.reaps.map Reap.status = [768] ∧ s.usedProcesses = [0] ∧ Accounted s := by
  refine exists_run (P := fun s => s.reaps.map Reap.status = [768] ∧ s.usedProcesses = [0]) (by decide +kernel) ?_
  rintro s hrun ⟨hreaps, hused⟩
  exact ⟨hreaps, hused, threads_and_processes_accounted hrun⟩

end Threads
end OsRiscv
