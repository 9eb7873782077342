import OsRiscv.Lib.Word
import OsRiscv.Threads.Accounting

/-!
# Ids — identifiers of processes and threads, and the ancestors they lead to

`generateProcessId` and `generateThreadId` put a counter above the number of the slot, in 32 bits.  A `Table` is what
`processes` and `threads` have in common; slots are taken and given back in any order.
-/

namespace OsRiscv
namespace Threads

open Function (update update_of_ne update_self)
open Lib List

structure Table where
  nextId : Nat
  id : Nat → Nat
  parentId : Nat → Nat
  used : Nat → Bool

namespace Table

def create (t : Table) (i parentId : Nat) : Table where
  nextId := (t.nextId + 1) % 2 ^ 32
  id := update t.id i (generateId ((t.nextId + 1) % 2 ^ 32) i)
  parentId := update t.parentId i parentId
  used := update t.used i true

def free (t : Table) (i : Nat) : Table := { t with used := update t.used i false }

/-- `pid2Process` and `tid2Thread`, for an identifier that is not 0 -/
def find (t : Table) (x : Nat) : Option Nat :=
  let i := x % processTotalNumber
  if t.used i = false ∨ t.id i ≠ x then none else some i

lemma find_eq {t : Table} {x i : Nat} (h : t.find x = some i) : t.used i ∧ t.id i = x := by
  simp only [find] at h
  split at h
  · cases h
  · rename_i hknown
    cases h
    simpa using hknown

/-- What the kernel does with a table: nothing, or a slot is taken by the owner of another one or by the kernel, or a
slot is given back. -/
inductive Step (t : Table) : Table → Prop
  | stay : Step t t
  | create {i : Nat} (parent : Option Nat) : i < processTotalNumber → t.used i = false → (∀ q ∈ parent, t.used q) →
      Step t (t.create i (parent.elim 0 t.id))
  | free (i : Nat) : Step t (t.free i)

end Table

/-! ## The tables of the kernel -/

namespace Ledger

variable {l l' : Ledger} {i p q np parentId retValue : Nat} {rest : List Nat}

def processTable (l : Ledger) : Table where
  nextId := l.nextProcessId
  id p := (l.process p).processId
  parentId p := (l.process p).parentId
  used p := decide (p ∈ l.usedProcesses)

def threadTable (l : Ledger) : Table where
  nextId := l.nextThreadId
  id := l.threadId
  parentId _ := 0
  used i := decide (i ∈ l.usedThreads)

@[simp] lemma addThread_processId : ((l.addThread i rest p).process q).processId = (l.process q).processId :=
  Lib.apply_update_of_eq q

@[simp] lemma addThread_parentId : ((l.addThread i rest p).process q).parentId = (l.process q).parentId :=
  Lib.apply_update_of_eq q

lemma lessOne_ids (a : Process) (retValue : Nat) :
    (lessOne a retValue).processId = a.processId ∧ (lessOne a retValue).parentId = a.parentId := by
  unfold lessOne
  split
  · exact ⟨rfl, rfl⟩
  · exact ⟨rfl, rfl⟩

lemma removeThread_ids (retValue : Nat) :
    ((l.removeThread i retValue).process q).processId = (l.process q).processId ∧
      ((l.removeThread i retValue).process q).parentId = (l.process q).parentId := by
  by_cases hq : q = l.home i
  · subst hq
    simpa [removeThread] using lessOne_ids (l.process (l.home i)) retValue
  · simp [removeThread, hq]

lemma decide_mem_cons {used : List Nat} : (fun q => decide (q ∈ i :: used)) = update (fun q => decide (q ∈ used)) i true := by
  funext q
  by_cases hq : q = i
  · simp [hq]
  · simp [hq]

lemma decide_mem_erase {used : List Nat} (h : used.Nodup) :
    (fun q => decide (q ∈ used.erase i)) = update (fun q => decide (q ∈ used)) i false := by
  funext q
  by_cases hq : q = i
  · simp [hq, h.mem_erase_iff]
  · simp [hq, h.mem_erase_iff]

lemma addThread_processTable : (l.addThread i rest p).processTable = l.processTable := by
  unfold processTable
  simp only [addThread_processId, addThread_parentId]
  rfl

lemma addProcess_processTable : (l.addProcess p rest parentId).processTable = l.processTable.create p parentId := by
  unfold processTable Table.create addProcess
  simp only [Table.mk.injEq, true_and]
  refine ⟨?_, ?_, decide_mem_cons⟩
  all_goals
    funext q
    by_cases hq : q = p
    · simp [hq]
    · simp [hq]

lemma reap_processTable (h : l.usedProcesses.Nodup) : (l.reap p np).processTable = l.processTable.free np := by
  have hid : ∀ q, ((l.reap p np).process q).processId = (l.process q).processId := fun q => Lib.apply_update_of_eq q
  have hparent : ∀ q, ((l.reap p np).process q).parentId = (l.process q).parentId := fun q => Lib.apply_update_of_eq q
  unfold processTable Table.free
  simp only [hid, hparent]
  exact congrArg _ (decide_mem_erase h)

lemma Balanced.thread_lt (hl : l.Balanced) (hfree : l.freeThreads = i :: rest) : i < processTotalNumber := by
  refine mem_range.1 (hl.threads.mem_iff.1 ?_)
  rw [hfree]
  simp

lemma Balanced.process_lt (hl : l.Balanced) (hfree : l.freeProcesses = p :: rest) : p < processTotalNumber := by
  refine mem_range.1 (hl.processes.mem_iff.1 ?_)
  rw [hfree]
  simp

lemma Step.processTable (hstep : Step l l') (hl : l.Balanced) : Table.Step l.processTable l'.processTable := by
  cases hstep with
  | stay => exact .stay
  | addThread hfree hc =>
    rw [addThread_processTable]
    exact .stay
  | @addProcess i p rest rest' parent hparent hfree hproc =>
    rw [addThread_processTable, addProcess_processTable]
    have hid : (parent.elim 0 fun c => (l.process (l.home c)).processId) =
        (parent.map l.home).elim 0 l.processTable.id := by
      cases parent with
      | none => rfl
      | some c => rfl
    rw [hid]
    refine .create _ (hl.process_lt hproc) (decide_eq_false (hl.not_used hproc)) ?_
    intro q hq
    rcases Option.map_eq_some_iff.1 hq with ⟨c, hc, rfl⟩
    exact decide_eq_true (hl.home c (hparent c hc))
  | @removeThread i retValue hi =>
    have hsame : (l.removeThread i retValue).processTable = l.processTable := by
      unfold Ledger.processTable
      simp only [removeThread_ids]
      rfl
    rw [hsame]
    exact .stay
  | reap hc hnp hzombie hparent =>
    rw [reap_processTable hl.nodup_used]
    exact .free _

lemma addThread_threadTable : (l.addThread i rest p).threadTable = l.threadTable.create i 0 := by
  unfold threadTable Table.create addThread takeThread
  simp only [Table.mk.injEq, true_and]
  exact ⟨(Function.update_eq_self i _).symm, decide_mem_cons⟩

lemma Step.threadTable (hstep : Step l l') (hl : l.Balanced) : Table.Step l.threadTable l'.threadTable := by
  have htaken : ∀ {i rest}, l.freeThreads = i :: rest → Table.Step l.threadTable (l.threadTable.create i 0) :=
    fun hfree => .create none (hl.thread_lt hfree) (decide_eq_false (hl.not_used_thread hfree)) nofun
  cases hstep with
  | stay => exact .stay
  | addThread hfree hc =>
    rw [addThread_threadTable]
    exact htaken hfree
  | addProcess parent hparent hfree hproc =>
    rw [addThread_threadTable]
    exact htaken hfree
  | @removeThread i retValue hi =>
    have hgone : (l.removeThread i retValue).threadTable = l.threadTable.free i := by
      unfold Ledger.threadTable Table.free
      exact congrArg _ (decide_mem_erase (nodup_append.1 (hl.threads.nodup_iff.2 nodup_range)).2.1)
    rw [hgone]
    exact .free _
  | reap hc hnp hzombie hparent => exact .stay

end Ledger

lemma Inv.pid2Process_eq {s : Kern} (hs : Inv s) (x : Nat) : pid2Process s x = s.ledger.processTable.find x := by
  have hused : ∀ p, (s.process p).state = .unused ↔ p ∉ s.usedProcesses := by
    intro p
    refine ⟨fun hunused hp => ?_, hs.balanced.unused p⟩
    have hstate := hs.balanced.state p hp nofun
    rw [show (s.ledger.process p).state = .unused from hunused] at hstate
    split at hstate
    · cases hstate
    · cases hstate
  exact if_congr (or_congr ((hused _).trans decide_eq_false_iff_not.symm) .rfl) rfl rfl

lemma Inv.tid2Thread_eq {s : Kern} (hs : Inv s) {x : Nat} (hx : x ≠ 0) :
    tid2Thread s x = s.ledger.threadTable.find x := by
  have hused : ∀ i, (s.hart.thread i).state = .unused ↔ i ∉ s.usedThreads := fun i =>
    ⟨fun hunused hi => hs.partitioned.ready.live i hi hunused, hs.partitioned.ready.idle i⟩
  unfold tid2Thread
  rw [if_neg hx]
  exact if_congr (or_congr ((hused _).trans decide_eq_false_iff_not.symm) .rfl) rfl rfl

/-! ## Runs -/

/-- A table with its history: the number of creations, which of them a slot holds, and the identifier that each
of them got. -/
structure Registry extends Table where
  births : Nat
  birth : Nat → Nat
  given : Nat → Nat

namespace Registry

inductive Act
  /-- A slot is taken by the owner of another one, or by the kernel. -/
  | create (i : Nat) (parent : Option Nat)
  | free (i : Nat)

def step (s : Registry) : Act → Option Registry
  | .create i parent =>
    if i < processTotalNumber ∧ s.used i = false ∧ ∀ q ∈ parent, s.used q then
      let t := s.create i (parent.elim 0 s.id)
      some { t with births := s.births + 1, birth := update s.birth i (s.births + 1)
                    given := update s.given (s.births + 1) (t.id i) }
    else none
  | .free i => some { s with toTable := s.free i }

def init : Registry where
  nextId := 0
  id _ := 0
  parentId _ := 0
  used _ := false
  births := 0
  birth _ := 0
  given _ := 0

abbrev Reaches (acts : List Act) (s : Registry) : Prop := Run (fun s a t => step s a = some t) init acts s

variable {s t : Registry} {a : Act} {acts : List Act} {p : Nat}

lemma generateId_eq (k : Nat) {i : Nat} (hi : i < 1024) :
    generateId (k % 2 ^ 32) i = k * 2 ^ 11 % 2 ^ 32 + i := by
  have hhigh : k % 2 ^ 32 * 2 ^ 11 % 2 ^ 32 = 2 ^ 11 * (k % 2 ^ 21) := by omega
  rw [generateId, hhigh, ← Nat.two_pow_add_eq_or_of_lt (by omega)]
  omega

structure Owned (s : Registry) (i : Nat) : Prop where
  slot : i < 1024
  born : s.birth i ≤ s.births
  id : s.id i = s.birth i * 2 ^ 11 % 2 ^ 32 + i
  /-- Without a wrap of the counter a parent has a smaller identifier than its children. -/
  older : s.births < 2 ^ 21 → s.parentId i < s.id i

structure Numbered (s : Registry) : Prop where
  nextId : s.nextId = s.births % 2 ^ 32
  owned : ∀ i, s.used i → Owned s i
  given : ∀ k, 0 < k → k ≤ s.births → ∃ i < 1024, s.given k = k * 2 ^ 11 % 2 ^ 32 + i

lemma step_numbered (hs : Numbered s) (hstep : step s a = some t) : Numbered t := by
  cases a with
  | free i =>
    cases hstep
    refine ⟨hs.nextId, ?_, hs.given⟩
    intro j hj
    have hused : s.used j := by
      by_cases hji : j = i
      · simp [Table.free, hji] at hj
      · simpa [Table.free, hji] using hj
    have hold := hs.owned j hused
    exact ⟨hold.slot, hold.born, hold.id, hold.older⟩
  | create i parent =>
    simp only [step] at hstep
    split at hstep
    · rename_i hfree
      rcases hfree with ⟨hlt, _, hparent⟩
      unfold processTotalNumber at hlt
      cases hstep
      have hnext : (s.nextId + 1) % 2 ^ 32 = (s.births + 1) % 2 ^ 32 := by
        rw [hs.nextId]
        omega
      have hnew : generateId ((s.nextId + 1) % 2 ^ 32) i = (s.births + 1) * 2 ^ 11 % 2 ^ 32 + i := by
        rw [hnext, generateId_eq _ hlt]
      refine ⟨hnext, ?_, ?_⟩
      · intro j hj
        by_cases hji : j = i
        · subst hji
          refine ⟨hlt, by simp, by simpa [Table.create] using hnew, ?_⟩
          intro hfew
          change s.births + 1 < 2 ^ 21 at hfew
          simp only [Table.create, update_self, hnew]
          cases parent with
          | none =>
            rw [Option.elim_none]
            omega
          | some q =>
            -- the parent was created before
            rcases hs.owned q (hparent q rfl) with ⟨hslot, hborn, hid, _⟩
            rw [Option.elim_some]
            omega
        · have hold := hs.owned j (by simpa [Table.create, hji] using hj)
          have := hold.born
          refine ⟨hold.slot, ?_, ?_, ?_⟩ <;> simp only [Table.create, update_of_ne hji]
          · omega
          · exact hold.id
          · exact fun hfew => hold.older (by omega)
      · intro k hpos hk
        by_cases hlast : k = s.births + 1
        · exact ⟨i, hlt, by simpa [hlast, Table.create] using hnew⟩
        · simpa [hlast] using hs.given k hpos (by dsimp only at hk; omega)
    · cases hstep

lemma reaches_numbered (hrun : Reaches acts s) : Numbered s := by
  refine hrun.invariant ⟨rfl, ?_, ?_⟩ fun _ _ _ => step_numbered
  · intro i hi
    cases hi
  · intro k hpos hk
    exact absurd hk (Nat.not_le.2 hpos)

lemma Numbered.slot_eq {i : Nat} (hs : Numbered s) (hi : s.used i) : s.id i % processTotalNumber = i := by
  have := (hs.owned i hi).slot
  rw [(hs.owned i hi).id, processTotalNumber]
  omega

/-! ## The kernel -/

/-- The table is that of a run. -/
def Registered (t : Table) : Prop := ∃ acts s, Reaches acts s ∧ s.toTable = t

lemma Registered.slot_eq {t : Table} {i : Nat} (h : Registered t) (hi : t.used i) : t.id i % processTotalNumber = i := by
  rcases h with ⟨acts, s, hrun, rfl⟩
  exact (reaches_numbered hrun).slot_eq hi

lemma Registered.step {t t' : Table} (h : Registered t) (hstep : t.Step t') : Registered t' := by
  rcases h with ⟨acts, s, hrun, rfl⟩
  cases hstep with
  | stay => exact ⟨acts, s, hrun, rfl⟩
  | @create i parent hlt hfree hparent =>
    have hcreate : ∃ r, s.step (.create i parent) = some r ∧ r.toTable = s.create i (parent.elim 0 s.id) := by
      simp only [Registry.step]
      rw [if_pos ⟨hlt, hfree, hparent⟩]
      exact ⟨_, rfl, rfl⟩
    rcases hcreate with ⟨r, hr, htable⟩
    exact ⟨_, r, .snoc hrun hr, htable⟩
  | free i => exact ⟨_, _, .snoc (a := .free i) hrun rfl, rfl⟩

lemma boot_registered {frames : Nat → Sched.Trapframe} {trapframe : Sched.Trapframe} :
    Registered (boot frames trapframe).ledger.processTable ∧ Registered (boot frames trapframe).ledger.threadTable :=
  ⟨⟨[], init, .nil _, rfl⟩, ⟨[], init, .nil _, rfl⟩⟩

/-- In every reachable state of the kernel the tables of processes and threads are those of runs, and the kernel finds
in them what the tables find. -/
theorem run_registered {addrOf : Nat → Nat} {frames : Nat → Sched.Trapframe} {trapframe : Sched.Trapframe}
    {acts : List Threads.Act} {s : Kern}
    (hrun : Run (fun s a t => Threads.step addrOf s a = some t) (boot frames trapframe) acts s) :
    (∃ acts r, Reaches acts r ∧ r.toTable = s.ledger.processTable ∧ ∀ x, pid2Process s x = r.find x) ∧
      ∃ acts r, Reaches acts r ∧ r.toTable = s.ledger.threadTable ∧ ∀ x ≠ 0, tid2Thread s x = r.find x := by
  have hinv : Inv s ∧ Registered s.ledger.processTable ∧ Registered s.ledger.threadTable := by
    refine hrun.invariant (P := fun s => Inv s ∧ Registered s.ledger.processTable ∧ Registered s.ledger.threadTable)
      ⟨boot_inv frames trapframe, boot_registered⟩ ?_
    rintro s a t ⟨hs, hprocess, hthread⟩ hstep
    have hmove := (step_effect hs.partitioned hstep).ledger
    exact ⟨step_inv hs hstep, hprocess.step (hmove.processTable hs.balanced), hthread.step (hmove.threadTable hs.balanced)⟩
  rcases hinv with ⟨hs, ⟨as, r, hr, hprocess⟩, ⟨as', r', hr', hthread⟩⟩
  refine ⟨⟨as, r, hr, hprocess, fun x => ?_⟩, ⟨as', r', hr', hthread, fun x hx => ?_⟩⟩
  · rw [hprocess]
    exact hs.pid2Process_eq x
  · rw [hthread]
    exact hs.tid2Thread_eq hx

/-! ## One object for each identifier -/

structure Identifies (s : Registry) : Prop where
  distinct : ∀ i j, s.used i → s.used j → s.id i = s.id j → i = j
  slot : ∀ i, s.used i → s.id i % processTotalNumber = i
  positive : ∀ k, 0 < k → k ≤ s.births → 0 < int (s.given k)
  /-- An identifier leads to the object it was made for, or to none. -/
  current : ∀ k i, 0 < k → k ≤ s.births → s.find (s.given k) = some i → s.birth i = k

theorem ids_identify_iff (hrun : Reaches acts s) : Identifies s ↔ s.births < 2 ^ 20 := by
  have hs := reaches_numbered hrun
  have hslot : ∀ i, s.used i → s.id i % processTotalNumber = i := fun i => hs.slot_eq
  constructor
  · intro hid
    -- the identifier of creation `2 ^ 20` is negative
    by_contra hmany
    rcases hs.given (2 ^ 20) (by decide) (by omega) with ⟨i, hi, hval⟩
    have hpos := hid.positive (2 ^ 20) (by decide) (by omega)
    unfold int at hpos
    omega
  · intro hfew
    refine ⟨?_, hslot, ?_, ?_⟩
    · intro i j hi hj heq
      rw [← hslot i hi, heq, hslot j hj]
    · intro k hpos hk
      rcases hs.given k hpos hk with ⟨i, hi, hval⟩
      rw [int_of_lt] <;> omega
    · intro k i hpos hk hfind
      rcases hs.given k hpos hk with ⟨j, hj, hval⟩
      rcases Table.find_eq hfind with ⟨hused, hid⟩
      rcases hs.owned i hused with ⟨hi, hborn, hval', _⟩
      omega

/-- A slot that is used again gets another identifier. -/
theorem ids_identify_reused : ∃ s, Reaches [.create 0 none, .free 0, .create 0 none] s ∧
    s.given 1 = 2048 ∧ s.id 0 = 4096 ∧ Identifies s := by
  refine exists_run (P := fun s => s.given 1 = 2048 ∧ s.id 0 = 4096 ∧ s.births = 2) (by decide +kernel) ?_
  rintro s hrun ⟨hfirst, hsecond, hbirths⟩
  exact ⟨hfirst, hsecond, (ids_identify_iff hrun).2 (by omega)⟩

/-- `n` processes in one slot, each gone before the next is created -/
lemma reaches_births (n : Nat) : ∃ acts s, Reaches acts s ∧ s.births = n ∧ s.used 0 = false := by
  induction n with
  | zero => exact ⟨[], init, .nil _, rfl, rfl⟩
  | succ n ih =>
    rcases ih with ⟨acts, s, hrun, hbirths, hfree⟩
    have hcreate : ∃ t, step s (.create 0 none) = some t ∧ t.births = n + 1 := by
      simp [step, hfree, processTotalNumber, hbirths]
    rcases hcreate with ⟨t, hstep, hbirths'⟩
    refine ⟨_, { t with toTable := t.free 0 }, .snoc (a := .free 0) (.snoc hrun hstep) rfl, hbirths', ?_⟩
    simp [Table.free]

/-- The process created after `2 ^ 20 - 1` others has a negative identifier. -/
theorem late_id_negative : ∃ acts s, Reaches acts s ∧ s.births = 2 ^ 20 ∧ int (s.given (2 ^ 20)) < 0 ∧
    ¬Identifies s := by
  rcases reaches_births (2 ^ 20) with ⟨acts, s, hrun, hbirths, _⟩
  rcases (reaches_numbered hrun).given (2 ^ 20) (by decide) (by omega) with ⟨i, hi, hval⟩
  have hneg : int (s.given (2 ^ 20)) < 0 := by
    unfold int
    omega
  refine ⟨acts, s, hrun, hbirths, hneg, ?_⟩
  intro hid
  have := hid.positive (2 ^ 20) (by decide) (by omega)
  omega

/-! ## Processor times -/

/-- `CpuTimes` -/
structure CpuTimes where
  user : BitVec 64
  kernel : BitVec 64
  deadChildrenUser : BitVec 64
  deadChildrenKernel : BitVec 64

def CpuTimes.credit (own : CpuTimes) (c : CpuTimes) : CpuTimes :=
  { c with deadChildrenKernel := c.deadChildrenKernel + own.kernel, deadChildrenUser := c.deadChildrenUser + own.user }

/-- The loop of `updateAncestorsCpuTime(p)` at `pp`; it need not end in every table. -/
def updateAncestorsCpuTime (t : Table) (p : Nat) : Nat → Nat → (Nat → CpuTimes) → Option (Nat → CpuTimes)
  | 0, _, _ => none
  | fuel + 1, pp, cpuTime =>
    if 0 < t.parentId pp then
      match t.find (t.parentId pp) with
      | some q => updateAncestorsCpuTime t p fuel q (update cpuTime q ((cpuTime p).credit (cpuTime q)))
      | none => some cpuTime
    else some cpuTime

/-- The ancestors of a process, up to the first one whose identifier does not resolve. -/
inductive Ancestors (t : Table) : Nat → List Nat → Prop
  | last {i : Nat} : (0 < t.parentId i → t.find (t.parentId i) = none) → Ancestors t i []
  | next {i q : Nat} {l : List Nat} : 0 < t.parentId i → t.find (t.parentId i) = some q → Ancestors t q l →
      Ancestors t i (q :: l)

lemma Ancestors.update_eq {t : Table} {i fuel : Nat} {l : List Nat} (h : Ancestors t i l) (hnodup : l.Nodup)
    (hp : p ∉ l) (hfuel : l.length < fuel) (cpuTime : Nat → CpuTimes) :
    updateAncestorsCpuTime t p fuel i cpuTime =
      some fun q => if q ∈ l then (cpuTime p).credit (cpuTime q) else cpuTime q := by
  induction h generalizing fuel cpuTime with
  | @last i hend =>
    obtain ⟨fuel, rfl⟩ := Nat.exists_eq_succ_of_ne_zero (Nat.ne_of_gt hfuel)
    by_cases hpos : 0 < t.parentId i
    · simp [updateAncestorsCpuTime, hend hpos]
    · simp [updateAncestorsCpuTime, hpos]
  | @next i q l hpos hfind _ ih =>
    obtain ⟨fuel, rfl⟩ := Nat.exists_eq_succ_of_ne_zero (Nat.ne_of_gt (Nat.lt_of_le_of_lt (Nat.zero_le _) hfuel))
    rw [nodup_cons] at hnodup
    rw [mem_cons, not_or] at hp
    simp only [updateAncestorsCpuTime, hpos, if_true, hfind]
    rw [ih hnodup.2 hp.2 (by simpa using hfuel)]
    congr 1
    funext x
    by_cases hx : x = q
    · simp [hx, hnodup.1]
    · simp [hx, update_of_ne hp.1]

lemma exists_ancestors (holder : ∀ i, s.used i → s.parentId i < s.id i) (n : Nat) :
    ∀ i, s.used i → s.id i ≤ n → ∃ l, Ancestors s.toTable i l ∧ l.Nodup ∧ ∀ q ∈ l, s.id q < s.id i := by
  induction n with
  | zero =>
    intro i hi hle
    exact absurd (holder i hi) (by omega)
  | succ n ih =>
    intro i hi hle
    by_cases hend : 0 < s.parentId i → s.find (s.parentId i) = none
    · exact ⟨[], .last hend, nodup_nil, by simp⟩
    · push Not at hend
      rcases hend with ⟨hpos, hsome⟩
      rcases Option.ne_none_iff_exists'.1 hsome with ⟨q, hfind⟩
      rcases Table.find_eq hfind with ⟨hq, hid⟩
      have hlt := holder i hi
      rcases ih q hq (by omega) with ⟨l, hl, hnodup, hless⟩
      refine ⟨q :: l, .next hpos hfind hl, nodup_cons.2 ⟨fun hin => Nat.lt_irrefl _ (hless q hin), hnodup⟩, ?_⟩
      intro x hx
      rcases mem_cons.1 hx with rfl | hin
      · omega
      · have := hless x hin
        omega

/-- The loop ends; it adds the times of `p` once to each of its ancestors, and changes nothing else. -/
def CreditedOnce (t : Table) (p : Nat) : Prop :=
  ∃ l, Ancestors t p l ∧ l.Nodup ∧ p ∉ l ∧ ∀ fuel > l.length, ∀ cpuTime, ∃ after,
    updateAncestorsCpuTime t p fuel p cpuTime = some after ∧ ∀ q,
      (after q).user = (cpuTime q).user ∧ (after q).kernel = (cpuTime q).kernel ∧
      (after q).deadChildrenUser = (cpuTime q).deadChildrenUser + (if q ∈ l then (cpuTime p).user else 0) ∧
      (after q).deadChildrenKernel = (cpuTime q).deadChildrenKernel + (if q ∈ l then (cpuTime p).kernel else 0)

theorem cpu_time_credited_once (hrun : Reaches acts s) (hfew : s.births < 2 ^ 21) (hp : s.used p) :
    CreditedOnce s.toTable p := by
  have hs := reaches_numbered hrun
  rcases exists_ancestors (fun i hi => (hs.owned i hi).older hfew) _ p hp (Nat.le_refl _) with ⟨l, hl, hnodup, hless⟩
  have hnot : p ∉ l := fun hin => Nat.lt_irrefl _ (hless p hin)
  refine ⟨l, hl, hnodup, hnot, fun fuel hfuel cpuTime => ⟨_, hl.update_eq hnodup hnot hfuel cpuTime, fun q => ?_⟩⟩
  by_cases hq : q ∈ l
  · simp [hq, CpuTimes.credit]
  · simp [hq]

/-- The sums for dead children of the first processes, after a call for process 3. -/
def creditsOf (t : Table) : Option (List (BitVec 64 × BitVec 64)) :=
  (updateAncestorsCpuTime t 3 4 3 fun _ => ⟨7, 9, 1, 2⟩).map fun after =>
    (range 4).map fun q => ((after q).deadChildrenUser, (after q).deadChildrenKernel)

/-- The first process is gone and its slot used again, so process 3 has the ancestors 2 and 1. -/
theorem cpu_time_credited_orphan : ∃ s, Reaches [.create 0 none, .create 1 (some 0), .create 2 (some 1),
      .create 3 (some 2), .free 0, .create 0 none] s ∧
    s.find (s.parentId 1) = none ∧ s.used 0 ∧ creditsOf s.toTable = some [(1, 2), (8, 11), (8, 11), (1, 2)] ∧
    CreditedOnce s.toTable 3 := by
  refine exists_run (P := fun s => (s.births = 5 ∧ s.used 3) ∧ s.find (s.parentId 1) = none ∧ s.used 0 ∧
    creditsOf s.toTable = some [(1, 2), (8, 11), (8, 11), (1, 2)]) (by decide +kernel) ?_
  rintro s hrun ⟨⟨hbirths, hthree⟩, hgone, hzero, hcredits⟩
  exact ⟨hgone, hzero, hcredits, cpu_time_credited_once hrun (by omega) hthree⟩

end Registry
end Threads
end OsRiscv
