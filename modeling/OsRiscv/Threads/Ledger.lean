import OsRiscv.Threads.Model

/-!
# Ledger — the books on threads and processes

What is left of a state when the scheduler is forgotten: the four lists, the process of each thread, the
processes and the history.  A `Ledger` moves in four ways, `Ledger.Step`; `Balanced` and `Recorded` are kept
by all of them.
-/

namespace OsRiscv
namespace Threads

open List

open Function (update update_of_ne update_self)

structure Ledger where
  freeThreads : List Nat
  usedThreads : List Nat
  /-- the process of a thread -/
  home : Nat → Nat
  threadId : Nat → Nat
  nextThreadId : Nat
  freeProcesses : List Nat
  usedProcesses : List Nat
  process : Nat → Process
  nextProcessId : Nat
  births : Nat
  birth : Nat → Nat
  exits : List (Nat × Nat)
  reaps : List Reap

def Kern.ledger (s : Kern) : Ledger :=
  { freeThreads := s.freeThreads, usedThreads := s.usedThreads, home := fun i => (s.task i).process
    threadId := fun i => (s.task i).id, nextThreadId := s.nextThreadId
    freeProcesses := s.freeProcesses, usedProcesses := s.usedProcesses, process := s.process
    nextProcessId := s.nextProcessId, births := s.births, birth := s.birth, exits := s.exits, reaps := s.reaps }

namespace Ledger

/-! ## The moves -/

/-- A free thread is taken and gets an identifier; `rest` are the threads that stay free. -/
def takeThread (l : Ledger) (i : Nat) (rest : List Nat) : Ledger :=
  let nextId := (l.nextThreadId + 1) % 2 ^ 32
  { l with
    freeThreads := rest
    usedThreads := i :: l.usedThreads
    threadId := update l.threadId i (generateId nextId i)
    nextThreadId := nextId }

/-- A free thread is taken for the process `p`. -/
def addThread (l : Ledger) (i : Nat) (rest : List Nat) (p : Nat) : Ledger :=
  { l.takeThread i rest with
    home := update l.home i p
    process := update l.process p
      { l.process p with threadCount := (l.process p).threadCount + 1 } }

/-- A free process is taken, which has no thread yet. -/
def addProcess (l : Ledger) (p : Nat) (rest : List Nat) (parentId : Nat) : Ledger :=
  let nextId := (l.nextProcessId + 1) % 2 ^ 32
  { l with
    freeProcesses := rest
    usedProcesses := p :: l.usedProcesses
    process := update l.process p { l.process p with
      processId := generateId nextId p, parentId := parentId, state := .runnable, retValue := 0 }
    nextProcessId := nextId
    births := l.births + 1
    birth := update l.birth p l.births }

/-- A process after the exit of one of its threads. -/
def lessOne (q : Process) (retValue : Nat) : Process :=
  if q.threadCount - 1 = 0 then
    { q with threadCount := q.threadCount - 1, retValue := retValue, state := .zombie }
  else { q with threadCount := q.threadCount - 1 }

def removeThread (l : Ledger) (i retValue : Nat) : Ledger :=
  let p := l.home i
  { l with
    freeThreads := i :: l.freeThreads
    usedThreads := l.usedThreads.erase i
    process := update l.process p (lessOne (l.process p) retValue)
    exits := l.exits ++ [(l.birth p, retValue)] }

/-- The process `p` gets the status of `np`. -/
def reap (l : Ledger) (p np : Nat) : Ledger :=
  { l with
    freeProcesses := np :: l.freeProcesses
    usedProcesses := l.usedProcesses.erase np
    process := update l.process np { l.process np with state := .unused }
    reaps := l.reaps ++ [{ birth := l.birth np, parentId := (l.process np).parentId,
                           waiter := (l.process p).processId, status := (l.process np).retValue }] }

inductive Step (l : Ledger) : Ledger → Prop
  | stay : Step l l
  | addThread {i c : Nat} {rest : List Nat} :
      l.freeThreads = i :: rest → c ∈ l.usedThreads → Step l (l.addThread i rest (l.home c))
  /-- The parent is the process of a thread in use, if there is one. -/
  | addProcess {i p : Nat} {rest rest' : List Nat} (parent : Option Nat) : (∀ c ∈ parent, c ∈ l.usedThreads) →
      l.freeThreads = i :: rest → l.freeProcesses = p :: rest' →
      Step l ((l.addProcess p rest' (parent.elim 0 fun c => (l.process (l.home c)).processId)).addThread i rest p)
  | removeThread {i : Nat} (retValue : Nat) : i ∈ l.usedThreads → Step l (l.removeThread i retValue)
  | reap {c np : Nat} : c ∈ l.usedThreads → np ∈ l.usedProcesses → (l.process np).state = .zombie →
      (l.process np).parentId = (l.process (l.home c)).processId → Step l (l.reap (l.home c) np)

/-! ## The books are balanced -/

/-- The number of threads in use of a process. -/
def members (l : Ledger) (p : Nat) : Nat := l.usedThreads.countP fun i => l.home i = p

/-- The books are balanced, except that the process `x` may be without a thread while it is set up. -/
structure BalancedExcept (l : Ledger) (x : Option Nat) : Prop where
  threads : (l.freeThreads ++ l.usedThreads).Perm (List.range processTotalNumber)
  processes : (l.freeProcesses ++ l.usedProcesses).Perm (List.range processTotalNumber)
  count : ∀ p, (l.process p).threadCount = l.members p
  unused : ∀ p, p ∉ l.usedProcesses → (l.process p).state = .unused
  state : ∀ p ∈ l.usedProcesses, x ≠ some p →
    (l.process p).state = if l.members p = 0 then .zombie else .runnable
  home : ∀ i ∈ l.usedThreads, l.home i ∈ l.usedProcesses

abbrev Balanced (l : Ledger) : Prop := BalancedExcept l none

/-- The last of the threads of a process to exit left this value. -/
def lastExit (exits : List (Nat × Nat)) (birth : Nat) : Option Nat :=
  ((exits.filter fun e => e.1 = birth).map Prod.snd).getLast?

structure Recorded (l : Ledger) : Prop where
  born : ∀ p ∈ l.usedProcesses, l.birth p < l.births
  distinct : ∀ p ∈ l.usedProcesses, ∀ q ∈ l.usedProcesses, l.birth p = l.birth q → p = q
  gone : ∀ r ∈ l.reaps, r.birth < l.births ∧ ∀ p ∈ l.usedProcesses, l.birth p ≠ r.birth
  once : (l.reaps.map Reap.birth).Nodup
  parent : ∀ r ∈ l.reaps, r.waiter = r.parentId
  status : ∀ r ∈ l.reaps, lastExit l.exits r.birth = some r.status
  zombie : ∀ p ∈ l.usedProcesses, (l.process p).state = .zombie →
    lastExit l.exits (l.birth p) = some (l.process p).retValue

variable {l l' : Ledger} {i p q np : Nat} {rest rest' : List Nat} {retValue : Nat}

variable {x : Option Nat}

namespace BalancedExcept

lemma not_used_thread (hl : BalancedExcept l x) (hfree : l.freeThreads = i :: rest) : i ∉ l.usedThreads := by
  intro hi
  have hnodup := hl.threads.nodup_iff.2 nodup_range
  rw [hfree] at hnodup
  exact (nodup_append.1 hnodup).2.2 i (by simp) i hi rfl

lemma not_used (hl : BalancedExcept l x) (hfree : l.freeProcesses = p :: rest) : p ∉ l.usedProcesses := by
  intro hp
  have hnodup := hl.processes.nodup_iff.2 nodup_range
  rw [hfree] at hnodup
  exact (nodup_append.1 hnodup).2.2 p (by simp) p hp rfl

lemma nodup_used (hl : BalancedExcept l x) : l.usedProcesses.Nodup :=
  (nodup_append.1 (hl.processes.nodup_iff.2 nodup_range)).2.1

end BalancedExcept

lemma members_pos (hi : i ∈ l.usedThreads) : 0 < l.members (l.home i) :=
  countP_pos_iff.2 ⟨i, hi, by simp⟩

lemma Balanced.runnable (hl : Balanced l) (hi : i ∈ l.usedThreads) : (l.process (l.home i)).state = .runnable := by
  rw [hl.state _ (hl.home i hi) (by simp), if_neg (Nat.ne_of_gt (members_pos hi))]

lemma members_addThread (hi : i ∉ l.usedThreads) :
    (l.addThread i rest p).members q = l.members q + if p = q then 1 else 0 := by
  have hsame : l.usedThreads.countP (fun j => update l.home i p j = q) =
      l.usedThreads.countP fun j => l.home j = q := by
    refine countP_congr fun j hj => ?_
    have hne : j ≠ i := fun h => hi (h ▸ hj)
    simp [hne]
  unfold members addThread takeThread
  rw [countP_cons, hsame]
  simp

lemma members_removeThread (hi : i ∈ l.usedThreads) :
    (l.removeThread i retValue).members q + (if l.home i = q then 1 else 0) = l.members q := by
  have hperm := (perm_cons_erase hi).countP_eq fun j => decide (l.home j = q)
  rw [countP_cons] at hperm
  unfold members removeThread
  simpa using hperm.symm

lemma lessOne_threadCount (a : Process) : (lessOne a retValue).threadCount = a.threadCount - 1 := by
  unfold lessOne
  split
  · rfl
  · rfl

lemma lessOne_state (a : Process) :
    (lessOne a retValue).state = if a.threadCount - 1 = 0 then .zombie else a.state := by
  unfold lessOne
  split
  · rfl
  · rfl

/-! ## What the moves keep -/

namespace Balanced

lemma addThread (hl : BalancedExcept l (some p)) (hfree : l.freeThreads = i :: rest)
    (hp : p ∈ l.usedProcesses) (hstate : (l.process p).state = .runnable) : Balanced (l.addThread i rest p) := by
  have hi := hl.not_used_thread hfree
  refine ⟨?_, hl.processes, ?_, ?_, ?_, ?_⟩
  · have hperm := hl.threads
    rw [hfree] at hperm
    exact perm_middle.trans hperm
  · intro q
    rw [members_addThread hi]
    by_cases hq : q = p
    · subst hq
      simp [Ledger.addThread, hl.count]
    · have hne : ¬p = q := fun h => hq h.symm
      simp [Ledger.addThread, hq, hne, hl.count]
  · intro q hq
    have hne : q ≠ p := fun h => hq (h ▸ hp)
    simpa [Ledger.addThread, hne] using hl.unused q hq
  · intro q hq _
    rw [members_addThread hi]
    by_cases hqp : q = p
    · subst hqp
      simpa [Ledger.addThread] using hstate
    · have hne : ¬p = q := fun h => hqp h.symm
      simpa [Ledger.addThread, hqp, hne] using hl.state q hq (by simpa using hne)
  · intro j hj
    by_cases hji : j = i
    · simpa [Ledger.addThread, Ledger.takeThread, hji] using hp
    · have hin : j ∈ l.usedThreads := (mem_cons.1 hj).resolve_left hji
      simpa [Ledger.addThread, Ledger.takeThread, hji] using hl.home j hin

lemma addProcess (hl : Balanced l) (hfree : l.freeProcesses = p :: rest) (parentId : Nat) :
    BalancedExcept (l.addProcess p rest parentId) (some p) := by
  have hmembers : ∀ q, (l.addProcess p rest parentId).members q = l.members q := fun _ => rfl
  refine ⟨hl.threads, ?_, ?_, ?_, ?_, ?_⟩
  · have hperm := hl.processes
    rw [hfree] at hperm
    exact perm_middle.trans hperm
  · intro q
    rw [hmembers, ← hl.count q]
    exact Lib.apply_update_of_eq q
  · intro q hq
    have hne : q ≠ p ∧ q ∉ l.usedProcesses := by simpa [Ledger.addProcess] using hq
    simpa [Ledger.addProcess, hne.1] using hl.unused q hne.2
  · intro q hq hqp
    have hne : q ≠ p := fun h => hqp (by rw [h])
    have hin : q ∈ l.usedProcesses := (mem_cons.1 hq).resolve_left hne
    rw [hmembers, ← hl.state q hin (by simp)]
    simp [Ledger.addProcess, hne]
  · intro j hj
    exact mem_cons_of_mem _ (hl.home j hj)

lemma removeThread (hl : Balanced l) (hi : i ∈ l.usedThreads) (retValue : Nat) :
    Balanced (l.removeThread i retValue) := by
  have hless : ∀ q, (l.removeThread i retValue).members q + (if l.home i = q then 1 else 0) =
      l.members q := fun q => members_removeThread hi
  have hsame : ∀ q, q ≠ l.home i → (l.removeThread i retValue).members q = l.members q := by
    intro q hq
    rw [← hless q, if_neg (fun h => hq h.symm), Nat.add_zero]
  have hone := hless (l.home i)
  rw [if_pos rfl] at hone
  refine ⟨?_, hl.processes, ?_, ?_, ?_, ?_⟩
  · refine .trans ?_ hl.threads
    have herase := perm_cons_erase hi
    exact perm_middle.symm.trans (herase.symm.append_left _)
  · intro q
    by_cases hq : q = l.home i
    · have hcount := hl.count (l.home i)
      rw [hq]
      simp only [Ledger.removeThread, update_self, lessOne_threadCount] at hone ⊢
      omega
    · rw [hsame q hq, ← hl.count q]
      simp [Ledger.removeThread, hq]
  · intro q hq
    have hne : q ≠ l.home i := fun h => hq (h ▸ hl.home i hi)
    simpa [Ledger.removeThread, hne] using hl.unused q hq
  · intro q hq _
    by_cases hqi : q = l.home i
    · -- the process of the thread becomes a zombie with its last thread
      have hcount := hl.count (l.home i)
      have hrun := hl.runnable hi
      rw [hqi]
      simp only [Ledger.removeThread, update_self]
      by_cases hlast : (l.removeThread i retValue).members (l.home i) = 0
      · rw [lessOne_state, if_pos (by omega)]
        exact (if_pos hlast).symm
      · rw [lessOne_state, if_neg (by omega), hrun]
        exact (if_neg hlast).symm
    · rw [hsame q hqi, ← hl.state q hq (by simp)]
      simp [Ledger.removeThread, hqi]
  · intro j hj
    exact hl.home j (mem_of_mem_erase hj)

lemma reap (hl : Balanced l) (hnp : np ∈ l.usedProcesses) (hzombie : (l.process np).state = .zombie)
    (p : Nat) : Balanced (l.reap p np) := by
  have hmembers : ∀ q, (l.reap p np).members q = l.members q := fun _ => rfl
  have hmem : ∀ q, q ∈ l.usedProcesses.erase np ↔ q ≠ np ∧ q ∈ l.usedProcesses :=
    fun q => hl.nodup_used.mem_erase_iff
  refine ⟨hl.threads, ?_, ?_, ?_, ?_, ?_⟩
  · refine .trans ?_ hl.processes
    have herase := perm_cons_erase hnp
    exact perm_middle.symm.trans (herase.symm.append_left _)
  · intro q
    rw [hmembers, ← hl.count q]
    exact Lib.apply_update_of_eq q
  · intro q hq
    by_cases hqn : q = np
    · simp [Ledger.reap, hqn]
    · have hnot : q ∉ l.usedProcesses := fun hin => hq ((hmem q).2 ⟨hqn, hin⟩)
      simpa [Ledger.reap, hqn] using hl.unused q hnot
  · intro q hq _
    rcases (hmem q).1 hq with ⟨hqn, hin⟩
    rw [hmembers, ← hl.state q hin (by simp)]
    simp [Ledger.reap, hqn]
  · intro j hj
    refine (hmem _).2 ⟨?_, hl.home j hj⟩
    -- a process with a thread is not a zombie
    intro heq
    have hrun := hl.runnable hj
    have hhome : l.home j = np := heq
    rw [hhome, hzombie] at hrun
    cases hrun

end Balanced

lemma lastExit_append_self (exits : List (Nat × Nat)) (b v : Nat) : lastExit (exits ++ [(b, v)]) b = some v := by
  simp [lastExit, filter_append]

lemma lastExit_append_of_ne (exits : List (Nat × Nat)) {b c : Nat} (v : Nat) (h : c ≠ b) :
    lastExit (exits ++ [(c, v)]) b = lastExit exits b := by
  simp [lastExit, filter_append, h]

namespace Recorded

lemma addThread (hl : Recorded l) (i : Nat) (rest : List Nat) (p : Nat) : Recorded (l.addThread i rest p) := by
  refine ⟨hl.born, hl.distinct, hl.gone, hl.once, hl.parent, hl.status, ?_⟩
  intro q hq hzombie
  by_cases hqp : q = p
  · subst hqp
    have hold : (l.process q).state = .zombie := by simpa [Ledger.addThread] using hzombie
    simpa [Ledger.addThread, Ledger.takeThread] using hl.zombie q hq hold
  · have hold : (l.process q).state = .zombie := by simpa [Ledger.addThread, hqp] using hzombie
    simpa [Ledger.addThread, Ledger.takeThread, hqp] using hl.zombie q hq hold

lemma addProcess (hl : Recorded l) (hp : p ∉ l.usedProcesses) (rest : List Nat)
    (parentId : Nat) : Recorded (l.addProcess p rest parentId) := by
  have hne : ∀ {q}, q ∈ l.usedProcesses → q ≠ p := fun hq h => hp (h ▸ hq)
  have hbirth : ∀ q ∈ l.usedProcesses, update l.birth p l.births q = l.birth q := by
    intro q hq
    simp [hne hq]
  refine ⟨?_, ?_, ?_, hl.once, hl.parent, hl.status, ?_⟩
  · intro q hq
    rcases mem_cons.1 hq with rfl | hq
    · simp [Ledger.addProcess]
    · simp only [Ledger.addProcess, hbirth q hq]
      exact Nat.lt_succ_of_lt (hl.born q hq)
  · -- the birth of `p` is later than all others
    intro q hq r hr heq
    rcases mem_cons.1 hq with hqp | hin
    · rcases mem_cons.1 hr with hrp | hin'
      · rw [hqp, hrp]
      · simp only [Ledger.addProcess, hqp, update_self, hbirth r hin'] at heq
        exact absurd heq (Nat.ne_of_gt (hl.born r hin'))
    · rcases mem_cons.1 hr with hrp | hin'
      · simp only [Ledger.addProcess, hrp, update_self, hbirth q hin] at heq
        exact absurd heq (Nat.ne_of_lt (hl.born q hin))
      · simp only [Ledger.addProcess, hbirth q hin, hbirth r hin'] at heq
        exact hl.distinct q hin r hin' heq
  · intro r hr
    rcases hl.gone r hr with ⟨hlt, hnone⟩
    refine ⟨Nat.lt_succ_of_lt hlt, ?_⟩
    intro q hq
    rcases mem_cons.1 hq with rfl | hq
    · simpa [Ledger.addProcess] using Nat.ne_of_gt hlt
    · simpa [Ledger.addProcess, hne hq] using hnone q hq
  · intro q hq hzombie
    rcases mem_cons.1 hq with rfl | hq
    · simp [Ledger.addProcess] at hzombie
    · simp only [Ledger.addProcess, update_of_ne (hne hq)] at hzombie ⊢
      exact hl.zombie q hq hzombie

lemma removeThread (hl : Recorded l) (hb : Balanced l) (hi : i ∈ l.usedThreads) (retValue : Nat) :
    Recorded (l.removeThread i retValue) := by
  have hhome := hb.home i hi
  refine ⟨hl.born, hl.distinct, hl.gone, hl.once, hl.parent, ?_, ?_⟩
  · intro r hr
    -- a process that was reaped is not the one that loses a thread
    have hne := (hl.gone r hr).2 _ hhome
    exact (lastExit_append_of_ne l.exits retValue hne).trans (hl.status r hr)
  · intro q hq hzombie
    by_cases hqi : q = l.home i
    · subst hqi
      have hrun := hb.runnable hi
      simp only [Ledger.removeThread, update_self] at hzombie ⊢
      rw [lastExit_append_self]
      unfold lessOne at hzombie ⊢
      split at hzombie
      · rename_i hlast
        rw [if_pos hlast]
      · rw [hrun] at hzombie
        cases hzombie
    · have hne : l.birth (l.home i) ≠ l.birth q := by
        intro h
        exact hqi (hl.distinct _ hhome q hq h).symm
      simp only [Ledger.removeThread, update_of_ne hqi] at hzombie ⊢
      rw [lastExit_append_of_ne l.exits retValue hne]
      exact hl.zombie q hq hzombie

lemma reap (hl : Recorded l) (hb : Balanced l) (hnp : np ∈ l.usedProcesses)
    (hzombie : (l.process np).state = .zombie)
    (hparent : (l.process np).parentId = (l.process p).processId) : Recorded (l.reap p np) := by
  have hmem : ∀ q, q ∈ l.usedProcesses.erase np ↔ q ≠ np ∧ q ∈ l.usedProcesses :=
    fun q => hb.nodup_used.mem_erase_iff
  have hnew : ∀ r ∈ (l.reap p np).reaps, r ∈ l.reaps ∨
      r = { birth := l.birth np, parentId := (l.process np).parentId,
            waiter := (l.process p).processId, status := (l.process np).retValue } := by
    intro r hr
    exact (mem_append.1 hr).imp_right mem_singleton.1
  refine ⟨?_, ?_, ?_, ?_, ?_, ?_, ?_⟩
  · intro q hq
    exact hl.born q ((hmem q).1 hq).2
  · intro q hq r hr heq
    exact hl.distinct q ((hmem q).1 hq).2 r ((hmem r).1 hr).2 heq
  · intro r hr
    rcases hnew r hr with hr | rfl
    · exact ⟨(hl.gone r hr).1, fun q hq => (hl.gone r hr).2 q ((hmem q).1 hq).2⟩
    · refine ⟨hl.born np hnp, ?_⟩
      intro q hq heq
      rcases (hmem q).1 hq with ⟨hne, hin⟩
      exact hne (hl.distinct q hin np hnp heq)
  · have hfresh : l.birth np ∉ l.reaps.map Reap.birth := by
      intro hin
      rcases mem_map.1 hin with ⟨r, hr, heq⟩
      exact (hl.gone r hr).2 np hnp heq.symm
    simp only [Ledger.reap, map_append, map_cons, map_nil]
    refine nodup_append.2 ⟨hl.once, by simp, ?_⟩
    intro b hb c hc heq
    rw [mem_singleton.1 hc] at heq
    exact hfresh (heq ▸ hb)
  · intro r hr
    rcases hnew r hr with hr | rfl
    · exact hl.parent r hr
    · exact hparent.symm
  · intro r hr
    rcases hnew r hr with hr | rfl
    · exact hl.status r hr
    · exact hl.zombie np hnp hzombie
  · intro q hq hz
    rcases (hmem q).1 hq with ⟨hne, hin⟩
    simp only [Ledger.reap, update_of_ne hne] at hz ⊢
    exact hl.zombie q hin hz

end Recorded

lemma Step.sound (hstep : Step l l') (hb : Balanced l) (hr : Recorded l) : Balanced l' ∧ Recorded l' := by
  cases hstep with
  | stay => exact ⟨hb, hr⟩
  | @addThread i c rest hfree hc =>
    have hweak : BalancedExcept l (some (l.home c)) :=
      { hb with state := fun q hq _ => hb.state q hq (by simp) }
    exact ⟨Balanced.addThread hweak hfree (hb.home _ hc) (hb.runnable hc), hr.addThread _ _ _⟩
  | @addProcess i p rest rest' parent _ hfree hfreep =>
    have hnew := hb.addProcess hfreep (parent.elim 0 fun c => (l.process (l.home c)).processId)
    refine ⟨Balanced.addThread hnew hfree (by simp [Ledger.addProcess]) (by simp [Ledger.addProcess]), ?_⟩
    exact (hr.addProcess (hb.not_used hfreep) rest' _).addThread i rest p
  | removeThread retValue hi => exact ⟨hb.removeThread hi retValue, hr.removeThread hb hi retValue⟩
  | reap hc hnp hzombie hparent => exact ⟨hb.reap hnp hzombie _, hr.reap hb hnp hzombie hparent⟩

end Ledger

end Threads
end OsRiscv
