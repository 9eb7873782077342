import OsRiscv.Threads.Ids

/-!
# Orphans — which zombies a `wait` can still return

`processFree` leaves the children of the process that ends as they are, with the identifier of that process
in `parentId`.  Only a `wait` by the process with this identifier returns their slots to `freeProcesses`.

The runs are those of `Threads.Model`, with one more history variable: which processes were created by
`processCreatePriority`, and so have no parent.
-/

namespace OsRiscv
namespace Threads

open Lib List Sched

structure Family where
  kern : Kern
  /-- The births of the processes that `processCreatePriority` made. -/
  roots : List Nat

def rootsAfter (f : Family) : Act → List Nat
  | .processCreate _ => f.kern.births :: f.roots
  | _ => f.roots

def Family.step (addrOf : Nat → Nat) (f : Family) (a : Act) : Kernel Family :=
  (Threads.step addrOf f.kern a).map fun t => ⟨t, rootsAfter f a⟩

def Family.boot (frames : Nat → Trapframe) (trapframe : Trapframe) : Family :=
  ⟨Threads.boot frames trapframe, []⟩

/-- The process `q` runs, the `parentId` of `np` is its identifier, and its `wait` frees the slot of `np`. -/
structure CanReap (addrOf : Nat → Nat) (s : Kern) (np q : Nat) : Prop where
  used : q ∈ s.usedProcesses
  running : (s.process q).state = .runnable
  parent : (s.process np).parentId = (s.process q).processId
  thread : ∃ i ∈ s.usedThreads, (s.task i).process = q
  wait : ∀ wnohang clock, myProcess s = some q →
    Threads.wait addrOf s (some (s.process np).processId) true wnohang clock =
      some (some ((s.process np).processId : Int), reap s q np)

def ZombiesReapable (addrOf : Nat → Nat) (f : Family) : Prop :=
  ∀ np ∈ f.kern.usedProcesses, (f.kern.process np).state = .zombie → f.kern.birth np ∉ f.roots →
    ∃ q, CanReap addrOf f.kern np q

/-- A process that ends with this call has no child in use. -/
def ChildrenGone (f : Family) (a : Act) : Prop :=
  ∀ i ∈ f.kern.hart.currentThread, destroys f.kern i a = true →
    (f.kern.process (f.kern.task i).process).threadCount = 1 →
    ∀ np ∈ f.kern.usedProcesses, f.kern.birth np ∉ f.roots →
      (f.kern.process np).parentId ≠ (f.kern.process (f.kern.task i).process).processId

instance (f : Family) (a : Act) : Decidable (ChildrenGone f a) :=
  inferInstanceAs (Decidable (∀ i ∈ f.kern.hart.currentThread, _))

/-! ## The ledger of a family -/

namespace Ledger

variable {l : Ledger} {roots : List Nat} {i p q np : Nat} {rest : List Nat}

/-- Each process in use that has a parent has one that runs. -/
def Fostered (l : Ledger) (roots : List Nat) : Prop :=
  ∀ np ∈ l.usedProcesses, l.birth np ∉ roots →
    ∃ q ∈ l.usedProcesses, (l.process q).state = .runnable ∧ (l.process q).processId = (l.process np).parentId

@[simp] lemma addThread_state : ((l.addThread i rest p).process q).state = (l.process q).state :=
  Lib.apply_update_of_eq q

lemma removeThread_running {retValue : Nat} (hrun : (l.process q).state = .runnable)
    (hmore : q = l.home i → (l.process q).threadCount ≠ 1) :
    ((l.removeThread i retValue).process q).state = .runnable := by
  by_cases hq : q = l.home i
  · have hcount : (l.process (l.home i)).threadCount - 1 ≠ 0 := by
      have := hmore hq
      rw [hq] at this
      omega
    subst hq
    simp [removeThread, lessOne_state, hcount, hrun]
  · simpa [removeThread, hq] using hrun

lemma Fostered.addThread (hf : Fostered l roots) : Fostered (l.addThread i rest p) roots := by
  intro np hnp hroot
  rcases hf np hnp hroot with ⟨q, hq, hrun, hid⟩
  exact ⟨q, hq, by simpa using hrun, by simpa using hid⟩

lemma Fostered.addProcess (hl : Balanced l) (hf : Fostered l roots) (hfree : l.freeProcesses = p :: rest)
    {parentId : Nat} {roots' : List Nat} (hsub : ∀ b ∈ roots, b ∈ roots')
    (hnew : l.births ∉ roots' → ∃ q ∈ l.usedProcesses, (l.process q).state = .runnable ∧
      (l.process q).processId = parentId) :
    Fostered (l.addProcess p rest parentId) roots' := by
  have hnot := hl.not_used hfree
  have hother : ∀ q ∈ l.usedProcesses, q ≠ p := fun q hq h => hnot (h ▸ hq)
  intro np hnp hroot
  rcases mem_cons.1 hnp with rfl | hold
  · rcases hnew (by simpa [Ledger.addProcess] using hroot) with ⟨q, hq, hrun, hid⟩
    refine ⟨q, mem_cons_of_mem _ hq, ?_, ?_⟩
    · simpa [Ledger.addProcess, hother q hq] using hrun
    · simpa [Ledger.addProcess, hother q hq] using hid
  · have hbirth : l.birth np ∉ roots := by
      intro hin
      apply hroot
      simpa [Ledger.addProcess, hother np hold] using hsub _ hin
    rcases hf np hold hbirth with ⟨q, hq, hrun, hid⟩
    refine ⟨q, mem_cons_of_mem _ hq, ?_, ?_⟩
    · simpa [Ledger.addProcess, hother q hq] using hrun
    · simpa [Ledger.addProcess, hother q hq, hother np hold] using hid

lemma Fostered.removeThread (hf : Fostered l roots) (retValue : Nat)
    (hgone : (l.process (l.home i)).threadCount = 1 → ∀ np ∈ l.usedProcesses, l.birth np ∉ roots →
      (l.process np).parentId ≠ (l.process (l.home i)).processId) :
    Fostered (l.removeThread i retValue) roots := by
  intro np hnp hroot
  rcases hf np hnp hroot with ⟨q, hq, hrun, hid⟩
  refine ⟨q, hq, removeThread_running hrun ?_, ?_⟩
  · -- the parent does not end with the thread, since it has this child
    rintro rfl hlast
    exact hgone hlast np hnp hroot hid.symm
  · rw [(removeThread_ids retValue).1, (removeThread_ids retValue).2, hid]

lemma Fostered.reap (hl : Balanced l) (hf : Fostered l roots) (hzombie : (l.process np).state = .zombie) :
    Fostered (l.reap p np) roots := by
  have hmem : ∀ q, q ∈ (l.reap p np).usedProcesses ↔ q ≠ np ∧ q ∈ l.usedProcesses :=
    fun q => hl.nodup_used.mem_erase_iff
  intro x hx hroot
  rcases (hmem x).1 hx with ⟨hne, hused⟩
  rcases hf x hused hroot with ⟨q, hq, hrun, hid⟩
  have hqne : q ≠ np := by
    rintro rfl
    rw [hzombie] at hrun
    cases hrun
  refine ⟨q, (hmem q).2 ⟨hqne, hq⟩, ?_, ?_⟩
  · simpa [Ledger.reap, hqne] using hrun
  · simpa [Ledger.reap, hqne, hne] using hid

end Ledger

/-! ## Runs of a family -/

variable {addrOf : Nat → Nat} {f g : Family} {a : Act} {acts : List Act} {frames : Nat → Trapframe}
  {trapframe : Trapframe}

structure FamilyInv (f : Family) : Prop where
  inv : Inv f.kern
  fostered : f.kern.ledger.Fostered f.roots
  registered : Registry.Registered f.kern.ledger.processTable

lemma family_boot_inv (frames : Nat → Trapframe) (trapframe : Trapframe) :
    FamilyInv (Family.boot frames trapframe) := by
  refine ⟨boot_inv frames trapframe, ?_, ?_⟩
  · intro np hnp
    cases hnp
  · exact Registry.boot_registered.1

section

variable (hf : FamilyInv f)
include hf

lemma move_fostered (hgone : ChildrenGone f a) {l : Ledger} (hmove : Move f.kern a l) :
    l.Fostered (rootsAfter f a) := by
  have hl := hf.inv.balanced
  -- only `processCreate` adds a root
  have hsub : ∀ b ∈ f.roots, b ∈ rootsAfter f a := by
    intro b hb
    cases a with
    | processCreate entryPoint => exact mem_cons_of_mem _ hb
    | _ => exact hb
  have hmono : ∀ l' : Ledger, l'.Fostered f.roots → l'.Fostered (rootsAfter f a) :=
    fun l' h np hnp hroot => h np hnp fun hin => hroot (hsub _ hin)
  cases hmove with
  | stay => exact hmono _ hf.fostered
  | addThread hfree hcur => exact hmono _ hf.fostered.addThread
  | create entryPoint ha hfree hproc =>
    refine (hf.fostered.addProcess hl hproc hsub ?_).addThread
    intro hnot
    subst ha
    exact absurd (mem_cons_self ..) hnot
  | fork ha hcur hfree hproc =>
    refine (hf.fostered.addProcess hl hproc hsub ?_).addThread
    intro _
    -- the parent is the process of the current thread
    have hin := hf.inv.partitioned.mem_of_current hcur
    exact ⟨_, hl.home _ hin, hl.runnable hin, rfl⟩
  | leave retValue hcur hdestroys =>
    refine hmono _ (hf.fostered.removeThread retValue ?_)
    intro hlast np hnp hroot
    exact hgone _ hcur hdestroys hlast np hnp hroot
  | reap hcur hused hzombie hparent => exact hmono _ (hf.fostered.reap hl hzombie)

lemma family_step_inv (hstep : f.step addrOf a = some g ∧ ChildrenGone f a) : FamilyInv g := by
  rcases Option.map_eq_some_iff.1 hstep.1 with ⟨t, ht, rfl⟩
  have hmove := (step_moved hf.inv.partitioned ht).move
  exact ⟨step_inv hf.inv ht, move_fostered hf hstep.2 hmove,
    hf.registered.step ((hmove.toStep hf.inv.partitioned).processTable hf.inv.balanced)⟩

omit hf in
lemma Inv.exists_thread {s : Kern} {q : Nat} (hs : Inv s) (hq : q ∈ s.usedProcesses)
    (hrun : (s.process q).state = .runnable) : ∃ i ∈ s.usedThreads, (s.task i).process = q := by
  have hstate := hs.balanced.state q hq (by simp)
  by_cases hnone : s.ledger.members q = 0
  · rw [if_pos hnone] at hstate
    cases hrun.symm.trans hstate
  · rcases countP_pos_iff.1 (Nat.pos_of_ne_zero hnone) with ⟨i, hi, hhome⟩
    exact ⟨i, hi, of_decide_eq_true hhome⟩

/-- The identifiers are those of the slots, so the `wait` for `np` finds `np` and no other process. -/
theorem FamilyInv.wait_eq {np q : Nat} (hnp : np ∈ f.kern.usedProcesses)
    (hzombie : (f.kern.process np).state = .zombie)
    (hparent : (f.kern.process np).parentId = (f.kern.process q).processId) {wnohang : Bool} {clock : List Nat}
    (hmine : myProcess f.kern = some q) : wait addrOf f.kern (some (f.kern.process np).processId) true wnohang clock =
      some (some ((f.kern.process np).processId : Int), reap f.kern q np) := by
  have hreap : reapable f.kern q (some (f.kern.process np).processId) np = true := by
    simp [reapable, hparent, hzombie]
  have hfound : f.kern.usedProcesses.find? (reapable f.kern q (some (f.kern.process np).processId)) =
      some np := by
    cases hfind : f.kern.usedProcesses.find? (reapable f.kern q (some (f.kern.process np).processId)) with
    | none => exact absurd hreap (find?_eq_none.1 hfind np hnp)
    | some x =>
      have hx := find?_some hfind
      have hin := mem_of_find?_eq_some hfind
      have hid : (f.kern.process np).processId = (f.kern.process x).processId := by
        simp only [reapable, decide_eq_true_eq] at hx
        rcases hx.2.1 with hany | hthis
        · cases hany
        · exact Option.some.inj hthis
      have hslots : ∀ p ∈ f.kern.usedProcesses, (f.kern.process p).processId % processTotalNumber = p :=
        fun p hp => hf.registered.slot_eq (decide_eq_true hp)
      have hslot : x = np := by
        calc x = (f.kern.process x).processId % processTotalNumber := (hslots x hin).symm
          _ = (f.kern.process np).processId % processTotalNumber := by rw [hid]
          _ = np := hslots np hnp
      rw [hslot]
  unfold wait
  rw [hmine]
  simp [hfound]

lemma FamilyInv.zombiesReapable : ZombiesReapable addrOf f := by
  intro np hnp hzombie hroot
  rcases hf.fostered np hnp hroot with ⟨q, hq, hrun, hid⟩
  refine ⟨q, hq, hrun, hid.symm, hf.inv.exists_thread hq hrun, ?_⟩
  intro wnohang clock hmine
  exact hf.wait_eq hnp hzombie hid.symm hmine

end

theorem zombies_reapable
    (hrun : Run (fun f a g => f.step addrOf a = some g ∧ ChildrenGone f a) (Family.boot frames trapframe) acts f) :
    ZombiesReapable addrOf f :=
  (hrun.invariant (family_boot_inv frames trapframe) fun _ _ _ => family_step_inv).zombiesReapable

/-- `Family.step`, only where the condition is met. -/
def Family.stepChecked (addrOf : Nat → Nat) (f : Family) (a : Act) : Kernel Family :=
  if ChildrenGone f a then f.step addrOf a else none

/-- The child has ended and its parent, which slept in `wait`, is the current process. -/
theorem zombies_reapable_child : ∃ f, Run (fun f a g => f.step id a = some g ∧ ChildrenGone f a)
        (Family.boot (fun _ => default) default) (forkAndWait ++ [.exit 3 [0, 0, 0]]) f ∧
      f.kern.usedProcesses = [1, 0] ∧ (f.kern.process 1).state = .zombie ∧ f.kern.birth 1 ∉ f.roots ∧
      ZombiesReapable id f := by
  have hrun : (runAll (Family.stepChecked id) (Family.boot (fun _ => default) default)
      (forkAndWait ++ [.exit 3 [0, 0, 0]])).map
      (fun f => (f.kern.usedProcesses, (f.kern.process 1).state, f.kern.birth 1, f.roots)) =
      some ([1, 0], .zombie, 1, [0]) := by
    decide +kernel
  rcases Option.map_eq_some_iff.1 hrun with ⟨f, hf, hview⟩
  simp only [Prod.mk.injEq] at hview
  rcases hview with ⟨hused, hstate, hbirth, hroots⟩
  have hmeets : Run (fun f a g => f.step id a = some g ∧ ChildrenGone f a)
      (Family.boot (fun _ => default) default) (forkAndWait ++ [.exit 3 [0, 0, 0]]) f := by
    refine (run_of_runAll hf).mono ?_
    intro f a g hstep
    unfold Family.stepChecked at hstep
    split at hstep
    · rename_i hgone
      exact ⟨hstep, hgone⟩
    · cases hstep
  refine ⟨f, hmeets, hused, hstate, ?_, zombies_reapable hmeets⟩
  rw [hbirth, hroots]
  decide

/-- The first process forks a child and waits for it.  The child forks too and exits, then its own child exits.
When the first process has reaped the child, nobody has the identifier that the last process waits for. -/
def orphanRun : List Act :=
  forkAndWait ++ [.processFork, .exit 3 [0, 0, 0, 0], .exit 3 [0, 0, 0, 0], .sleepReturn [], .wait none true false []]

theorem orphan_not_reapable :
    ∃ f, Run (fun f a g => f.step id a = some g) (Family.boot (fun _ => default) default) orphanRun f ∧
      2 ∈ f.kern.usedProcesses ∧ (f.kern.process 2).state = .zombie ∧
      (∀ q ∈ f.kern.usedProcesses, (f.kern.process q).processId ≠ (f.kern.process 2).parentId) ∧
      ¬ZombiesReapable id f := by
  refine exists_run (P := fun f => 2 ∈ f.kern.usedProcesses ∧ (f.kern.process 2).state = .zombie ∧
    (∀ q ∈ f.kern.usedProcesses, (f.kern.process q).processId ≠ (f.kern.process 2).parentId) ∧
    f.kern.birth 2 ∉ f.roots) (by decide +kernel) ?_
  rintro f _ ⟨hin, hstate, hnone, hroot⟩
  refine ⟨hin, hstate, hnone, ?_⟩
  intro hreap
  rcases hreap 2 hin hstate hroot with ⟨q, hq⟩
  exact hnone q hq.used hq.parent.symm

end Threads
end OsRiscv
