import OsRiscv.Threads.Model

/-!
# Queues — where the threads of one hart wait

The two lists `scheduleList` and the current thread together are always the threads in use, each of them
once.  `Ready` is that invariant; what the operations on the hart do to it is said here, one lemma for each.
-/

namespace OsRiscv
namespace Threads

open List

open Sched

variable {h h' h'' : Hart Nat} {i j : Nat} {used clock : List Nat} {th : Thread} {p : Pick Nat}

/-! ## The loop of `yield` -/

/-- The threads that wait in the two lists. -/
def waiting (scheduleList : Bool → List Nat) : List Nat := scheduleList false ++ scheduleList true

lemma count_waiting (scheduleList : Bool → List Nat) (point : Bool) (a : Nat) :
    (waiting scheduleList).count a = (scheduleList point).count a + (scheduleList (!point)).count a := by
  unfold waiting
  rw [count_append]
  cases point with
  | false => rfl
  | true => exact Nat.add_comm _ _

/-- The lists with the candidate put back. -/
def putBack (p : Pick Nat) : Bool → List Nat :=
  match p.thread with
  | some i => Function.update p.scheduleList (!p.point) (p.scheduleList (!p.point) ++ [i])
  | none => p.scheduleList

lemma putBack_perm (p : Pick Nat) : (waiting (putBack p)).Perm (waiting p.scheduleList ++ p.thread.toList) := by
  refine perm_iff_count.2 fun a => ?_
  unfold putBack
  rw [count_append, count_waiting _ p.point, count_waiting _ p.point]
  cases hthread : p.thread with
  | none => simp
  | some i => simp [Nat.add_assoc]

/-- The list from which the next candidate is taken. -/
def nextPoint (p : Pick Nat) : Bool := if (putBack p p.point).isEmpty then !p.point else p.point

lemma pickNext_cons {rest : List Nat} (hlist : putBack p (nextPoint p) = i :: rest) :
    pickNext p = ⟨some i, 1, nextPoint p, Function.update (putBack p) (nextPoint p) rest⟩ := by
  unfold nextPoint putBack at hlist
  unfold pickNext nextPoint putBack
  cases hthread : p.thread with
  | none =>
    simp only [hthread] at hlist ⊢
    rw [hlist]
  | some a =>
    simp only [hthread] at hlist ⊢
    rw [hlist]

lemma pickNext_nil (hlist : putBack p (nextPoint p) = []) :
    pickNext p = ⟨none, p.count, nextPoint p, p.scheduleList⟩ ∧ p.thread = none := by
  have hother : putBack p (!p.point) = [] := by
    unfold nextPoint at hlist
    by_cases hfirst : (putBack p p.point).isEmpty = true
    · rwa [if_pos hfirst] at hlist
    · rw [if_neg hfirst] at hlist
      rw [hlist] at hfirst
      exact absurd rfl hfirst
  have hnone : p.thread = none := by
    cases hthread : p.thread with
    | none => rfl
    | some a => simp [putBack, hthread] at hother
  refine ⟨?_, hnone⟩
  unfold nextPoint putBack at hlist
  unfold pickNext nextPoint putBack
  simp only [hnone] at hlist ⊢
  rw [hlist]

lemma pickNext_perm (p : Pick Nat) : (waiting (pickNext p).scheduleList ++ (pickNext p).thread.toList).Perm
      (waiting p.scheduleList ++ p.thread.toList) := by
  cases hlist : putBack p (nextPoint p) with
  | cons i rest =>
    -- the first thread of the list becomes the candidate
    refine .trans ?_ (putBack_perm p)
    rw [pickNext_cons hlist]
    refine perm_iff_count.2 fun a => ?_
    rw [count_append, count_waiting _ (nextPoint p), count_waiting _ (nextPoint p), hlist]
    simp [count_cons]
    omega
  | nil =>
    rcases pickNext_nil hlist with ⟨hnext, hnone⟩
    rw [hnext, hnone]

lemma yieldLoop_perm {thread : Nat → Thread} {p q : Pick Nat} (hloop : yieldLoop thread clock p = some (i, q)) :
    (waiting q.scheduleList ++ [i]).Perm (waiting p.scheduleList ++ p.thread.toList) := by
  induction clock generalizing p with
  | nil => cases hloop
  | cons now clock ih =>
    unfold yieldLoop at hloop
    cases hmay : mayRun thread p now with
    | none =>
      rw [hmay] at hloop
      exact (ih hloop).trans (pickNext_perm p)
    | some k =>
      rw [hmay] at hloop
      cases hloop
      unfold mayRun at hmay
      cases hthread : q.thread with
      | none =>
        rw [hthread] at hmay
        cases hmay
      | some k =>
        rw [hthread] at hmay
        dsimp only at hmay
        split at hmay
        · cases hmay
          exact .refl _
        · cases hmay

lemma yield_perm (hyield : Sched.yield clock h = some (i, h')) :
    (waiting h'.scheduleList ++ h'.currentThread.toList).Perm
      (waiting h.scheduleList ++ h.currentThread.toList) := by
  have hcurrent := (yield_spec hyield).current
  rcases Option.bind_eq_some_iff.1 hyield with ⟨⟨b, q⟩, hloop, hret⟩
  rcases Prod.mk.inj (Option.some.inj hret) with ⟨rfl, rfl⟩
  -- what `yield` does after the loop does not touch the lists
  have hlists : ∀ g : Hart Nat, (threadRun g b).scheduleList = g.scheduleList := by
    intro g
    have hsave : (saveCurrent g).scheduleList = g.scheduleList := by
      unfold saveCurrent
      cases g.currentThread <;> rfl
    unfold threadRun
    dsimp only
    split
    · exact hsave
    · exact hsave
  have hend : ∀ g : Hart Nat, (endTimedSleep g b).scheduleList = g.scheduleList := by
    intro g
    unfold endTimedSleep
    split
    · rfl
    · rfl
  rw [hcurrent, hlists]
  have hsched : (futexClear (endTimedSleep { giveUpHart h with
      processTimeCount := q.count - 1, processBelongList := q.point, scheduleList := q.scheduleList } b)
      b).scheduleList = q.scheduleList := hend _
  rw [hsched]
  exact yieldLoop_perm hloop

lemma futexWakeLoop_state {P : ProcessState → Prop} (hrunnable : P .runnable) (addr : Nat)
    (queue : List (FutexQueue Nat)) (n : Int) (thread : Nat → Thread) (hstate : P (thread i).state) :
    P ((futexWakeLoop addr queue n thread).2 i).state := by
  induction queue generalizing n thread with
  | nil => exact hstate
  | cons e es ih =>
    unfold futexWakeLoop
    split
    · exact hstate
    · split
      · refine ih _ _ ?_
        cases hthread : e.thread with
        | none => exact hstate
        | some j =>
          by_cases hij : i = j
          · simpa [futexRelease, hij] using hrunnable
          · simpa [futexRelease, hij] using hstate
      · exact ih _ _ hstate

/-! ## Threads in use -/

/-- The threads in use wait in the lists, but for the current one; no other thread has a state or waits on
a futex. -/
structure Ready (h : Hart Nat) (used : List Nat) : Prop where
  queues : (waiting h.scheduleList ++ h.currentThread.toList).Perm used
  live : ∀ i ∈ used, (h.thread i).state ≠ .unused
  idle : ∀ i, i ∉ used → (h.thread i).state = .unused
  futex : ∀ i, Waits h.futexQueue i → i ∈ used

/-- The current thread waits on no futex. -/
def Awake (h : Hart Nat) : Prop := ∀ i, h.currentThread = some i → ¬Waits h.futexQueue i

namespace Ready

section

variable (hr : Ready h used)
include hr

lemma mem_of_current (hcur : h.currentThread = some i) : i ∈ used := by
  refine hr.queues.mem_iff.1 ?_
  simp [hcur]

lemma setThread (hi : i ∈ used) (hth : th.state ≠ .unused) :
    Ready (h.setThread i th) used := by
  refine ⟨hr.queues, ?_, ?_, hr.futex⟩
  · intro j hj
    by_cases hji : j = i
    · simpa [hji] using hth
    · simpa [hji] using hr.live j hj
  · intro j hj
    have hji : j ≠ i := fun heq => hj (heq ▸ hi)
    simpa [hji] using hr.idle j hj

/-- A `yield` may find that the current thread waits on a futex; afterwards it does not. -/
theorem yield (hyield : Sched.yield clock h = some (i, h')) : Ready h' used ∧ Awake h' := by
  have hsw := yield_spec hyield
  have hperm : (waiting h'.scheduleList ++ h'.currentThread.toList).Perm used :=
    (yield_perm hyield).trans hr.queues
  have hin : i ∈ used := by
    refine hperm.mem_iff.1 ?_
    simp [hsw.current]
  refine ⟨⟨hperm, ?_, ?_, ?_⟩, ?_⟩
  · intro j hj
    by_cases hji : j = i
    · simp [hji, hsw.state]
    · by_cases hcur : h.currentThread = some j
      · exact hsw.state_current j hcur (hr.live j hj)
      · rw [hsw.state_ne j hji hcur]
        exact hr.live j hj
  · intro j hj
    have hji : j ≠ i := fun heq => hj (heq ▸ hin)
    have hcur : h.currentThread ≠ some j := fun hcur => hj (hr.mem_of_current hcur)
    rw [hsw.state_ne j hji hcur]
    exact hr.idle j hj
  · rintro j ⟨e, he, hv, hej⟩
    exact hr.futex j ⟨e, (hsw.futex e he hv).1, hv, hej⟩
  · rintro j hcur ⟨e, he, hv, hej⟩
    have hji : i = j := Option.some.inj (hsw.current.symm.trans hcur)
    exact (hsw.futex e he hv).2 (hji ▸ hej)

lemma congr (hsched : h'.scheduleList = h.scheduleList)
    (hcur : h'.currentThread = h.currentThread)
    (hstate : ∀ i, (h'.thread i).state = .unused ↔ (h.thread i).state = .unused)
    (hfutex : ∀ i, Waits h'.futexQueue i → i ∈ used) : Ready h' used := by
  refine ⟨?_, ?_, ?_, hfutex⟩
  · rw [hsched, hcur]
    exact hr.queues
  · intro i hi hzero
    exact hr.live i hi ((hstate i).1 hzero)
  · intro i hi
    exact (hstate i).2 (hr.idle i hi)

lemma futexWake (addr : Nat) (n : Int) : Ready (Sched.futexWake h addr n) used := by
  refine hr.congr rfl rfl ?_ ?_
  · intro i
    by_cases hwaits : Waits h.futexQueue i
    · -- a thread that waits is in use, before and after
      have hlive := hr.live i (hr.futex i hwaits)
      have hkeep : ((Sched.futexWake h addr n).thread i).state ≠ .unused :=
        futexWakeLoop_state (P := (· ≠ .unused)) nofun addr h.futexQueue n h.thread hlive
      exact iff_of_false hkeep hlive
    · have hsame : (Sched.futexWake h addr n).thread i = h.thread i :=
        (futexWakeLoop_spec addr i h.futexQueue n h.thread).1 hwaits
      rw [hsame]
  · intro i hwaits
    exact hr.futex i ((futexWakeLoop_spec addr i h.futexQueue n h.thread).2 hwaits)

lemma futexRequeue (addr : Nat) (n : Int) (newAddr : Nat) :
    Ready (Sched.futexRequeue h addr n newAddr) used := by
  refine (hr.futexWake addr n).congr rfl rfl (fun _ => .rfl) ?_
  intro i hwaits
  exact (hr.futexWake addr n).futex i (futexRequeue_waits hwaits)

lemma enqueue (hth : th.state ≠ .unused) : Ready { h.setThread i th with
      scheduleList := Function.update h.scheduleList false (h.scheduleList false ++ [i]) } (i :: used) := by
  refine ⟨?_, ?_, ?_, ?_⟩
  · have hcount := perm_iff_count.1 hr.queues
    refine perm_iff_count.2 fun a => ?_
    have ha := hcount a
    rw [count_append, count_waiting _ false] at ha ⊢
    rw [count_cons, ← ha]
    simp [count_cons]
    omega
  · intro j hj
    by_cases hji : j = i
    · simpa [hji] using hth
    · have hin : j ∈ used := (mem_cons.1 hj).resolve_left hji
      simpa [hji] using hr.live j hin
  · intro j hj
    have hne : j ≠ i ∧ j ∉ used := by simpa using hj
    simpa [hne.1] using hr.idle j hne.2
  · intro j hwaits
    exact mem_cons_of_mem _ (hr.futex j hwaits)

lemma free (hawake : Awake h) (hcur : h.currentThread = some i)
    (hnodup : used.Nodup) (hth : th.state = .unused) :
    Ready { h.setThread i th with currentThread := none } (used.erase i) := by
  have hmem : ∀ j, j ∈ used.erase i ↔ j ≠ i ∧ j ∈ used := fun j => hnodup.mem_erase_iff
  refine ⟨?_, ?_, ?_, ?_⟩
  · have hperm : (waiting h.scheduleList ++ [i]).Perm used := by simpa [hcur] using hr.queues
    have herase := hperm.erase i
    have hin : (waiting h.scheduleList ++ [i]).Nodup := hperm.nodup_iff.2 hnodup
    have hnot : i ∉ waiting h.scheduleList := by
      intro hi
      exact (nodup_append.1 hin).2.2 i hi i (by simp) rfl
    rw [erase_append_right _ hnot] at herase
    show (waiting h.scheduleList ++ []).Perm (used.erase i)
    simpa using herase
  · intro j hj
    rcases (hmem j).1 hj with ⟨hne, hin⟩
    simpa [hne] using hr.live j hin
  · intro j hj
    by_cases hji : j = i
    · simpa [hji] using hth
    · have hnot : j ∉ used := fun hin => hj ((hmem j).2 ⟨hji, hin⟩)
      simpa [hji] using hr.idle j hnot
  · intro j hwaits
    refine (hmem j).2 ⟨?_, hr.futex j hwaits⟩
    rintro rfl
    exact hawake j hcur hwaits

end

end Ready

end Threads
end OsRiscv
