import OsRiscv.Futex.Moves
import OsRiscv.Threads.Ledger

/-!
# Refine — every step of the kernel is a move of its ledger and of its hart

For each function: the move it makes in the ledger, the moves it makes in the hart, and that the threads in use
stay those of the queues.
-/

namespace OsRiscv
namespace Threads

open List

open Option (bind_eq_some_iff map_eq_some_iff)
open Sched
open Futex (Moves Left)

/-- The queues hold the threads in use, and the lists of free and used threads have no duplicates. -/
structure Partitioned (s : Kern) : Prop where
  nodup : (s.freeThreads ++ s.usedThreads).Nodup
  ready : Ready s.hart s.usedThreads
  awake : Awake s.hart

/-- What a completed step does. -/
structure Effect (s t : Kern) : Prop where
  ledger : s.ledger.Step t.ledger
  partitioned : Partitioned t

/-- `wait` finds no child to return and puts its caller to sleep. -/
def waitSleeps (s : Kern) (p : Nat) (targetProcessId : Option Nat) (wnohang : Bool) : Bool :=
  (s.usedProcesses.find? (reapable s p targetProcessId)).isNone && !wnohang &&
    s.usedProcesses.any fun np => (s.process np).parentId = (s.process p).processId

/-- The call destroys the thread `i` that makes it. -/
def destroys (s : Kern) (i : Nat) : Act → Bool
  | .exit _ _ => true
  | .sleep _ _ => (s.task i).killed
  | .sleepReturn _ => (s.task i).killed
  | .handleSignal _ => (s.task i).killed
  | .wait targetProcessId _ wnohang _ => waitSleeps s (s.task i).process targetProcessId wnohang && (s.task i).killed
  | _ => false

/-- The moves of the ledger, each with the calls that make it and the thread that calls. -/
inductive Move (s : Kern) (a : Act) : Ledger → Prop
  | stay : Move s a s.ledger
  | addThread {i c : Nat} {rest : List Nat} :
      s.freeThreads = i :: rest → s.hart.currentThread = some c →
      Move s a (s.ledger.addThread i rest (s.task c).process)
  | create {i p : Nat} {rest rest' : List Nat} (entryPoint : UInt64) :
      a = .processCreate entryPoint → s.freeThreads = i :: rest → s.freeProcesses = p :: rest' →
      Move s a ((s.ledger.addProcess p rest' 0).addThread i rest p)
  | fork {c i p : Nat} {rest rest' : List Nat} :
      a = .processFork → s.hart.currentThread = some c →
      s.freeThreads = i :: rest → s.freeProcesses = p :: rest' →
      Move s a ((s.ledger.addProcess p rest' (s.process (s.task c).process).processId).addThread i rest p)
  | leave {i : Nat} (retValue : Nat) : s.hart.currentThread = some i → destroys s i a = true →
      Move s a (s.ledger.removeThread i retValue)
  | reap {c np : Nat} : s.hart.currentThread = some c → np ∈ s.usedProcesses →
      (s.process np).state = .zombie → (s.process np).parentId = (s.process (s.task c).process).processId →
      Move s a (s.ledger.reap (s.task c).process np)

structure Moved (s : Kern) (a : Act) (t : Kern) : Prop where
  move : Move s a t.ledger
  partitioned : Partitioned t
  hart : Futex.Moved s.hart t.hart

variable {s t : Kern} {i p : Nat} {rest clock : List Nat} {addrOf : Nat → Nat} {a : Act} {clock' : List Nat}
  {parentId : Nat} {th : Thread}

/-! ## Steps that leave the ledger alone -/

lemma ledger_setTask {k : Task} (hk : k.process = (s.task i).process) (hid : k.id = (s.task i).id) :
    (s.setTask i k).ledger = s.ledger := by
  have hhome : (fun j => ((s.setTask i k).task j).process) = fun j => (s.task j).process :=
    funext fun j => Lib.apply_update_of_eq (f := Task.process) j hk
  have hids : (fun j => ((s.setTask i k).task j).id) = fun j => (s.task j).id :=
    funext fun j => Lib.apply_update_of_eq (f := Task.id) j hid
  show ({ s.ledger with home := fun j => ((s.setTask i k).task j).process
                        threadId := fun j => ((s.setTask i k).task j).id } : Ledger) = s.ledger
  rw [hhome, hids]
  rfl

namespace Partitioned

section

variable (hs : Partitioned s)
include hs

lemma mem_of_current (hcur : s.hart.currentThread = some i) : i ∈ s.usedThreads :=
  hs.ready.mem_of_current hcur

lemma nodup_used : s.usedThreads.Nodup := (nodup_append.1 hs.nodup).2.1

lemma setTask (i : Nat) (k : Task) : Partitioned (s.setTask i k) :=
  ⟨hs.nodup, hs.ready, hs.awake⟩

lemma setThread (hi : i ∈ s.usedThreads) (hth : th.state ≠ .unused) :
    Partitioned (s.setThread i th) :=
  ⟨hs.nodup, hs.ready.setThread hi hth, hs.awake⟩

lemma live_current (hcur : s.hart.currentThread = some i) :
    (s.hart.thread i).state ≠ .unused :=
  hs.ready.live i (hs.mem_of_current hcur)

lemma futexWake (addr : Nat) (n : Int) : Partitioned (futexWake s addr n) := by
  refine ⟨hs.nodup, hs.ready.futexWake addr n, ?_⟩
  intro j hcur hwaits
  exact hs.awake j hcur ((futexWakeLoop_spec addr j s.hart.futexQueue n s.hart.thread).2 hwaits)

lemma futexRequeue (addr : Nat) (n : Int) (newAddr : Nat) :
    Partitioned { s with hart := Sched.futexRequeue s.hart addr n newAddr } := by
  refine ⟨hs.nodup, hs.ready.futexRequeue addr n newAddr, ?_⟩
  intro j hcur hwaits
  exact (hs.futexWake addr n).awake j hcur (futexRequeue_waits hwaits)

lemma wakeup (channel : Nat) : Partitioned (wakeup s channel) := by
  refine ⟨hs.nodup, hs.ready.congr rfl rfl ?_ hs.ready.futex, hs.awake⟩
  intro j
  simp only [Threads.wakeup]
  split
  · rename_i hsleeps
    simp [hsleeps.2.1]
  · exact .rfl

end

lemma yield (hnodup : (s.freeThreads ++ s.usedThreads).Nodup) (hready : Ready s.hart s.usedThreads)
    (hyield : yield s clock = some t) : t.ledger = s.ledger ∧ Partitioned t ∧ Left s.hart t.hart := by
  have hleft := Left.yield hyield
  rcases bind_eq_some_iff.1 hyield with ⟨⟨b, hart⟩, hsched, hret⟩
  cases hret
  rcases hready.yield hsched with ⟨hready', hawake⟩
  exact ⟨rfl, ⟨hnodup, hready', hawake⟩, hleft⟩

end Partitioned

/-! ## Creation -/

/-- A thread was taken and set up, but is in no queue yet. -/
structure Taken (s : Kern) (i : Nat) (rest : List Nat) (t : Kern) : Prop where
  head : s.freeThreads = i :: rest
  free : t.freeThreads = rest
  used : t.usedThreads = i :: s.usedThreads
  hart : ∃ th, th.state = .runnable ∧ t.hart = s.hart.setThread i th

lemma takeThread_spec {sp : UInt64} (htake : takeThread s sp = some (i, t)) : ∃ rest, Taken s i rest t ∧
      t.ledger = s.ledger.takeThread i rest ∧ t.freeProcesses = s.freeProcesses := by
  unfold takeThread at htake
  cases hfree : s.freeThreads with
  | nil =>
    rw [hfree] at htake
    cases htake
  | cons k rest =>
    rw [hfree] at htake
    cases htake
    refine ⟨rest, ⟨hfree, rfl, rfl, ?_⟩, ?_, rfl⟩
    · refine ⟨_, ?_, congrArg (fun f => { s.hart with thread := f })
        (Function.update_idem _ _ s.hart.thread)⟩
      rfl
    · -- the field `process` of the thread is not set yet
      simp only [Kern.ledger, Ledger.takeThread, Kern.setThread, Kern.setTask, threadSetup, Ledger.mk.injEq, true_and,
        and_true]
      constructor
      all_goals
        funext j
        by_cases hj : j = i
        · simp [hj]
        · simp [hj]

lemma processAlloc_spec (halloc : processAlloc s parentId = some (p, t)) :
    ∃ rest, s.freeProcesses = p :: rest ∧ t.ledger = s.ledger.addProcess p rest parentId ∧ t.hart = s.hart := by
  unfold processAlloc at halloc
  cases hfree : s.freeProcesses with
  | nil =>
    rw [hfree] at halloc
    cases halloc
  | cons k rest =>
    rw [hfree] at halloc
    cases halloc
    refine ⟨rest, rfl, ?_, rfl⟩
    simp [Kern.ledger, Ledger.addProcess, processSetup, Kern.setProcess]

lemma attach_ledger {l : Ledger} (hl : s.ledger = l.takeThread i rest) :
    (attach s i p).ledger = l.addThread i rest p := by
  have hhome : (fun j => ((attach s i p).task j).process) = Function.update l.home i p := by
    have hold : l.home = fun j => (s.task j).process := (congrArg Ledger.home hl).symm
    funext j
    by_cases hj : j = i
    · simp [attach, Kern.setTask, Kern.setProcess, hj]
    · simp [attach, Kern.setTask, Kern.setProcess, hj, hold]
  have hids : (fun j => ((attach s i p).task j).id) = s.ledger.threadId :=
    funext fun j => Lib.apply_update_of_eq (f := Task.id) j
  have hprocess : l.process = s.process := (congrArg Ledger.process hl).symm
  show ({ s.ledger with
    home := fun j => ((attach s i p).task j).process, threadId := fun j => ((attach s i p).task j).id
    process := (attach s i p).process } : Ledger) = _
  rw [hhome, hids, hl]
  simp [attach, Kern.setTask, Kern.setProcess, Ledger.addThread, hprocess]

lemma threadAlloc_spec {userSp : UInt64} (halloc : threadAlloc s p userSp = some (i, t)) :
    ∃ rest, Taken s i rest t ∧ t.ledger = s.ledger.addThread i rest p := by
  rcases bind_eq_some_iff.1 halloc with ⟨⟨k, u⟩, htake, hret⟩
  cases hret
  rcases takeThread_spec htake with ⟨rest, htaken, hledger, _⟩
  exact ⟨rest, ⟨htaken.head, htaken.free, htaken.used, htaken.hart⟩, attach_ledger hledger⟩

lemma mainThreadAlloc_spec (halloc : mainThreadAlloc s parentId = some (i, t)) :
    ∃ rest rest' p, Taken s i rest t ∧ s.freeProcesses = p :: rest' ∧
      t.ledger = (s.ledger.addProcess p rest' parentId).addThread i rest p := by
  rcases bind_eq_some_iff.1 halloc with ⟨⟨k, u⟩, htake, hrest⟩
  rcases bind_eq_some_iff.1 hrest with ⟨⟨p, v⟩, hproc, hret⟩
  cases hret
  rcases takeThread_spec htake with ⟨rest, htaken, hledger, hfree⟩
  rcases processAlloc_spec hproc with ⟨rest', hhead, hledger', hhart⟩
  have hused : v.usedThreads = u.usedThreads := congrArg Ledger.usedThreads hledger'
  have hfreeThreads : v.freeThreads = u.freeThreads := congrArg Ledger.freeThreads hledger'
  refine ⟨rest, rest', p,
    ⟨htaken.head, hfreeThreads.trans htaken.free, hused.trans htaken.used, ?_⟩, hfree.symm.trans hhead, ?_⟩
  · rcases htaken.hart with ⟨th, hth, hset⟩
    exact ⟨th, hth, hhart.trans hset⟩
  · -- the thread is taken first, then the process; in the ledger the process comes first
    rw [hledger] at hledger'
    exact attach_ledger hledger'

namespace Taken

variable (ht : Taken s i rest t)
include ht

lemma state : (t.hart.thread i).state = .runnable := by
  rcases ht.hart with ⟨th, hth, hhart⟩
  simp [hhart, hth]

lemma setThread (hth : th.state = .runnable) : Taken s i rest (t.setThread i th) := by
  rcases ht.hart with ⟨th', _, hhart⟩
  refine ⟨ht.head, ht.free, ht.used, th, hth, ?_⟩
  simp [Kern.setThread, hhart, Hart.setThread]

lemma setTask (k : Task) : Taken s i rest (t.setTask i k) := ⟨ht.head, ht.free, ht.used, ht.hart⟩

lemma enqueue (hs : Partitioned s) : Partitioned (enqueue t i) ∧ Futex.Moved s.hart (enqueue t i).hart := by
  rcases ht.hart with ⟨th, hth, hhart⟩
  refine ⟨⟨?_, ?_, ?_⟩, ?_⟩
  · have hnodup := hs.nodup
    rw [ht.head] at hnodup
    show (t.freeThreads ++ t.usedThreads).Nodup
    rw [ht.free, ht.used]
    exact (perm_middle.nodup_iff).2 hnodup
  · show Ready (Threads.enqueue t i).hart t.usedThreads
    rw [ht.used]
    unfold Threads.enqueue
    rw [hhart]
    exact hs.ready.enqueue (by simp [hth])
  · unfold Threads.enqueue
    rw [hhart]
    exact hs.awake
  · have hnot : i ∉ s.usedThreads := by
      intro hin
      have hnodup := hs.nodup
      rw [ht.head] at hnodup
      exact (nodup_append.1 hnodup).2.2 i (by simp) i hin rfl
    have heq : (Threads.enqueue t i).hart = { s.hart.setThread i th with
        scheduleList := (Threads.enqueue t i).hart.scheduleList } := by
      unfold Threads.enqueue
      rw [hhart]
    rw [heq]
    exact .of_move (.create i th _ (hs.ready.idle i hnot) hth)

end Taken

lemma Moved.created (ht : Taken s i rest t) (hmove : Move s a t.ledger) (hs : Partitioned s) :
    Moved s a (enqueue t i) := by
  rcases ht.enqueue hs with ⟨hpart, hhart⟩
  exact ⟨hmove, hpart, hhart⟩

lemma processCreatePriority_moved (hs : Partitioned s) {entryPoint : UInt64}
    (hcreate : processCreatePriority s entryPoint = some t) : Moved s (.processCreate entryPoint) t := by
  rcases bind_eq_some_iff.1 hcreate with ⟨⟨i, u⟩, halloc, hret⟩
  cases hret
  rcases mainThreadAlloc_spec halloc with ⟨rest, rest', p, htaken, hhead, hledger⟩
  refine Moved.created (htaken.setThread ?_) ?_ hs
  · exact htaken.state
  · show Move s _ u.ledger
    rw [hledger]
    exact Move.create entryPoint rfl htaken.head hhead

lemma processFork_moved (hs : Partitioned s) {r : Nat} (hfork : processFork s = some (r, t)) :
    Moved s .processFork t := by
  rcases bind_eq_some_iff.1 hfork with ⟨current, hmine, hrest⟩
  rcases bind_eq_some_iff.1 hrest with ⟨⟨i, u⟩, halloc, hret⟩
  cases hret
  rcases map_eq_some_iff.1 hmine with ⟨c, hcur, rfl⟩
  rcases mainThreadAlloc_spec halloc with ⟨rest, rest', p, htaken, hhead, hledger⟩
  refine Moved.created (htaken.setThread ?_) ?_ hs
  · exact htaken.state
  · show Move s _ u.ledger
    rw [hledger]
    exact Move.fork rfl hcur htaken.head hhead

lemma threadFork_moved (hs : Partitioned s) {stackVa tls : UInt64} {ctid r : Nat}
    (hfork : threadFork s stackVa tls ctid = some (r, t)) : Moved s a t := by
  rcases bind_eq_some_iff.1 hfork with ⟨current, hmine, hrest⟩
  rcases bind_eq_some_iff.1 hrest with ⟨⟨i, u⟩, halloc, hret⟩
  cases hret
  rcases map_eq_some_iff.1 hmine with ⟨c, hcur, rfl⟩
  rcases threadAlloc_spec halloc with ⟨rest, htaken, hledger⟩
  refine Moved.created (Taken.setTask (htaken.setThread ?_) _) ?_ hs
  · exact htaken.state
  · rw [ledger_setTask]
    · change Move s a u.ledger
      rw [hledger]
      exact Move.addThread htaken.head hcur
    · rfl
    · rfl

/-! ## Exit -/

lemma processFree_cases (addrOf : Nat → Nat) (s : Kern) (p : Nat) :
    processFree addrOf s p = s.setProcess p { s.process p with state := .zombie } ∨
      ∃ channel, processFree addrOf s p =
        wakeup (s.setProcess p { s.process p with state := .zombie }) channel := by
  unfold processFree
  dsimp only
  split
  · split
    · exact .inr ⟨_, rfl⟩
    · exact .inl rfl
  · exact .inl rfl

lemma processFree_partitioned (hs : Partitioned s) (addrOf : Nat → Nat) (p : Nat) :
    Partitioned (processFree addrOf s p) := by
  have hzombie : Partitioned (s.setProcess p { s.process p with state := .zombie }) :=
    ⟨hs.nodup, hs.ready, hs.awake⟩
  rcases processFree_cases addrOf s p with h | ⟨channel, h⟩
  · rw [h]
    exact hzombie
  · rw [h]
    exact hzombie.wakeup channel

lemma processFree_same (addrOf : Nat → Nat) (s : Kern) (p : Nat) :
    (processFree addrOf s p).ledger = (s.setProcess p { s.process p with state := .zombie }).ledger ∧
      (processFree addrOf s p).hart.currentThread = s.hart.currentThread ∧
      Moves true s.hart (processFree addrOf s p).hart := by
  rcases processFree_cases addrOf s p with h | ⟨channel, h⟩
  · rw [h]
    exact ⟨rfl, rfl, .refl⟩
  · rw [h]
    exact ⟨rfl, rfl, .single (Futex.move_wakeup (s.setProcess p _) channel)⟩

lemma leaveProcess_spec (hs : Partitioned s) (addrOf : Nat → Nat) (i : Nat) :
    Partitioned (leaveProcess addrOf s i) ∧
      (leaveProcess addrOf s i).ledger = { s.ledger.removeThread i (s.task i).retValue with
        freeThreads := s.freeThreads, usedThreads := s.usedThreads } ∧
      (leaveProcess addrOf s i).hart.currentThread = s.hart.currentThread ∧
      Moves true s.hart (leaveProcess addrOf s i).hart := by
  unfold leaveProcess
  dsimp only
  split
  · rename_i hlast
    refine ⟨processFree_partitioned ?_ _ _, ?_, (processFree_same _ _ _).2⟩
    · exact ⟨hs.nodup, hs.ready, hs.awake⟩
    · have hzero : (s.process (s.task i).process).threadCount - 1 = 0 := by
        simpa [Kern.setProcess] using hlast
      rw [(processFree_same _ _ _).1]
      simp [Kern.ledger, Kern.setProcess, Ledger.removeThread, Ledger.lessOne, hzero]
  · rename_i hlast
    refine ⟨⟨hs.nodup, hs.ready, hs.awake⟩, ?_, rfl, .refl⟩
    have hmore : (s.process (s.task i).process).threadCount - 1 ≠ 0 := by
      simpa [Kern.setProcess] using hlast
    simp [Kern.ledger, Kern.setProcess, Ledger.removeThread, Ledger.lessOne, hmore]

lemma wakeJoiner_spec (hs : Partitioned s) (i : Nat) :
    Partitioned (wakeJoiner s i) ∧ (wakeJoiner s i).ledger = s.ledger ∧
      (wakeJoiner s i).task = s.task ∧ (wakeJoiner s i).hart.currentThread = s.hart.currentThread ∧
      Moves true s.hart (wakeJoiner s i).hart := by
  unfold wakeJoiner
  split
  · exact ⟨hs.futexWake _ _, rfl, rfl, rfl, .single (.wake _ _)⟩
  · exact ⟨hs, rfl, rfl, rfl, .refl⟩

lemma threadDestroy_spec (hs : Partitioned s) (hdestroy : threadDestroy addrOf s clock = some t) :
    Partitioned t ∧ Left s.hart t.hart ∧ ∃ i, s.hart.currentThread = some i ∧
      t.ledger = s.ledger.removeThread i (s.task i).retValue := by
  rcases bind_eq_some_iff.1 hdestroy with ⟨i, hcur, hyield⟩
  rcases wakeJoiner_spec hs i with ⟨hwoken, hsame, htask, hcur', hmoves⟩
  rcases leaveProcess_spec hwoken addrOf i with ⟨hleft, hledger, hcur'', hmoves'⟩
  rw [hsame, htask] at hledger
  set u := leaveProcess addrOf (wakeJoiner s i) i with hu
  have hused : u.usedThreads = s.usedThreads :=
    (congrArg Ledger.usedThreads hledger).trans (congrArg Ledger.usedThreads hsame)
  have hfree : u.freeThreads = s.freeThreads :=
    (congrArg Ledger.freeThreads hledger).trans (congrArg Ledger.freeThreads hsame)
  have hin : i ∈ s.usedThreads := hs.mem_of_current hcur
  -- the lists and the queues when `yield` is called
  have hnodup : (i :: u.freeThreads ++ u.usedThreads.erase i).Nodup := by
    have hperm := (perm_cons_erase (hused ▸ hin : i ∈ u.usedThreads)).append_left u.freeThreads
    exact (perm_middle.symm.trans hperm.symm).nodup_iff.2 hleft.nodup
  have hready : Ready { u.hart.setThread i { u.hart.thread i with state := .unused } with
      currentThread := none } (u.usedThreads.erase i) :=
    hleft.ready.free hleft.awake ((hcur''.trans hcur').trans hcur) hleft.nodup_used rfl
  rcases Partitioned.yield (s := { threadFree addrOf s i with
    hart := { (threadFree addrOf s i).hart with currentThread := none } }) hnodup hready hyield with ⟨hend, hpart, hgone⟩
  refine ⟨hpart, .trans ((hmoves.trans hmoves').tail (.free i rfl ((hcur''.trans hcur').trans hcur))) hgone, i, hcur, ?_⟩
  rw [hend]
  have hmove : (threadFree addrOf s i).ledger = s.ledger.removeThread i (s.task i).retValue := by
    show ({ u.ledger with freeThreads := i :: u.freeThreads, usedThreads := u.usedThreads.erase i } : Ledger) = _
    rw [hledger, hfree, hused]
    rfl
  exact hmove

/-! ## The other calls -/

namespace Moved

variable {u : Kern}

lemma stay (hsame : t.ledger = s.ledger) (ht : Partitioned t) (hhart : Futex.Moved s.hart t.hart) : Moved s a t := by
  refine ⟨?_, ht, hhart⟩
  rw [hsame]
  exact Move.stay

lemma leave (hcur : s.hart.currentThread = some i) (hu : Partitioned u) (hsame : u.ledger = s.ledger)
    (hcurrent : u.hart.currentThread = s.hart.currentThread) (hmoves : Moves true s.hart u.hart)
    (hdestroys : destroys s i a = true) (hdestroy : threadDestroy addrOf u clock = some t) : Moved s a t := by
  rcases threadDestroy_spec hu hdestroy with ⟨hpart, hleft, j, hj, hledger⟩
  cases hcur.symm.trans (hcurrent.symm.trans hj)
  refine ⟨?_, hpart, .inr (.trans hmoves hleft)⟩
  rw [hledger, hsame]
  exact Move.leave _ hcur hdestroys

lemma yield (hnodup : (u.freeThreads ++ u.usedThreads).Nodup) (hready : Ready u.hart u.usedThreads)
    (hsame : u.ledger = s.ledger) (hmoves : Moves true s.hart u.hart) (hyield : Threads.yield u clock = some t) :
    Moved s a t := by
  rcases Partitioned.yield hnodup hready hyield with ⟨hsame', hpart, hleft⟩
  exact stay (hsame'.trans hsame) hpart (.inr (.trans hmoves hleft))

end Moved

section

variable (hs : Partitioned s)
include hs

lemma syscallExit_moved {ec : Nat}
    (hexit : syscallExit addrOf s ec clock = some t) : Moved s (.exit ec clock') t := by
  rcases bind_eq_some_iff.1 hexit with ⟨i, hcur, hdestroy⟩
  refine Moved.leave hcur (hs.setTask i _) ?_ rfl .refl rfl hdestroy
  exact ledger_setTask rfl rfl

/-- `sleep`, in any call that destroys its thread when the thread is killed. -/
theorem sleep_moved {chan : Nat}
    (hdestroys : ∀ i, s.hart.currentThread = some i → destroys s i a = (s.task i).killed)
    (hsleep : sleep addrOf s chan clock = some t) : Moved s a t := by
  rcases bind_eq_some_iff.1 hsleep with ⟨i, hcur, hrest⟩
  have hasleep : Partitioned (s.setThread i
      { s.hart.thread i with chan := chan, state := .sleeping, kernelGiveUp := true }) :=
    hs.setThread (hs.mem_of_current hcur) (by simp)
  have hmove : Moves true s.hart (s.setThread i
      { s.hart.thread i with chan := chan, state := .sleeping, kernelGiveUp := true }).hart :=
    .single (.own i _ hcur nofun)
  dsimp only at hrest
  split at hrest
  · rename_i hkilled
    exact Moved.leave hcur hasleep rfl rfl hmove ((hdestroys i hcur).trans hkilled) hrest
  · exact Moved.yield hasleep.nodup hasleep.ready rfl hmove hrest

lemma sleepReturn_moved (hsleep : sleepReturn addrOf s clock = some t) : Moved s (.sleepReturn clock') t := by
  rcases bind_eq_some_iff.1 hsleep with ⟨i, hcur, hrest⟩
  have hwoken : Partitioned (s.setThread i { s.hart.thread i with chan := 0 }) :=
    hs.setThread (hs.mem_of_current hcur) (hs.live_current hcur)
  dsimp only at hrest
  split at hrest
  · rename_i hkilled
    exact Moved.leave hcur hwoken rfl rfl (.single (.own i _ hcur nofun)) hkilled hrest
  · cases hrest
    exact Moved.stay rfl hwoken (.of_move (.own i _ hcur fun _ => rfl))

lemma handleSignal_moved (hsignal : handleSignal addrOf s clock = some t) : Moved s (.handleSignal clock') t := by
  rcases bind_eq_some_iff.1 hsignal with ⟨i, hcur, hrest⟩
  split at hrest
  · rename_i hkilled
    exact Moved.leave hcur hs rfl rfl .refl hkilled hrest
  · cases hrest
    exact Moved.stay rfl hs (.refl _)

lemma syscallSleepTime_moved {awakeTime : Nat}
    (hsleep : syscallSleepTime s awakeTime clock = some t) : Moved s a t := by
  rcases bind_eq_some_iff.1 hsleep with ⟨i, hcur, hyield⟩
  have htimed : Partitioned (s.setThread i { s.hart.thread i with awakeTime := awakeTime }) :=
    hs.setThread (hs.mem_of_current hcur) (hs.live_current hcur)
  exact Moved.yield htimed.nodup htimed.ready rfl (.single (.own i _ hcur nofun)) hyield

lemma futexWait_moved {addr : Nat} {ts : Option Nat}
    (hwait : futexWait s addr ts clock = some t) : Moved s a t := by
  rcases bind_eq_some_iff.1 hwait with ⟨i, hcur, hrest⟩
  rcases bind_eq_some_iff.1 hrest with ⟨queue, hinsert, hyield⟩
  have hin := hs.mem_of_current hcur
  have hlive : (suspend (s.hart.thread i) ts).state ≠ .unused := by
    cases ts with
    | none => simp [suspend]
    | some awakeTime => exact hs.live_current hcur
  have hready := hs.ready.setThread hin hlive
  have hqueued : Ready { s.hart.setThread i (suspend (s.hart.thread i) ts) with futexQueue := queue }
      s.usedThreads := by
    refine hready.congr rfl rfl (fun _ => .rfl) ?_
    -- only the current thread is new in the queue
    intro j hwaits
    by_cases hj : j = i
    · exact hj ▸ hin
    · exact hs.ready.futex j (futexInsert_waits hinsert hj hwaits)
  exact Moved.yield (u := { s with
      hart := { s.hart.setThread i (suspend (s.hart.thread i) ts) with futexQueue := queue } })
    hs.nodup hqueued rfl (.single (.insert i addr ts queue rfl hcur (hs.awake i hcur) hinsert)) hyield

lemma tid2Thread_mem {threadId : Nat} (hfind : tid2Thread s threadId = some i) :
    i ∈ s.usedThreads := by
  unfold tid2Thread at hfind
  split at hfind
  · exact hs.mem_of_current hfind
  · dsimp only at hfind
    split at hfind
    · cases hfind
    · rename_i hknown
      cases hfind
      by_contra hnot
      exact hknown (.inl (hs.ready.idle _ hnot))

lemma signalSend_stay {tgid tid sig : Nat} (hsend : signalSend s tgid tid sig = some t) :
    t.ledger = s.ledger ∧ Partitioned t ∧ Moves false s.hart t.hart := by
  rcases bind_eq_some_iff.1 hsend with ⟨i, hfind, hrest⟩
  have hin := tid2Thread_mem hs hfind
  split at hrest
  · cases hrest
    exact ⟨rfl, hs, .refl⟩
  · split at hrest
    · -- `SIGKILL` makes the thread runnable
      cases hrest
      refine ⟨?_, Partitioned.setTask (hs.setThread hin ?_) _ _, .single (.rouse _ fun j => ?_)⟩
      · exact ledger_setTask rfl rfl
      · simp
      · by_cases hj : j = i
        · exact .inr (by simp [hj])
        · exact .inl (by simp [hj])
    · cases hrest
      exact ⟨rfl, hs, .refl⟩

end

/-- The loop of `processSignalSend`: what each `signalSend` keeps, the loop keeps. -/
theorem processSignalSend_stay {pid sig : Nat} (hs : Partitioned s) (hsend : processSignalSend s pid sig = some t) :
    t.ledger = s.ledger ∧ Partitioned t ∧ Moves false s.hart t.hart := by
  refine Lib.foldlM_invariant (P := fun u => u.ledger = s.ledger ∧ Partitioned u ∧ Moves false s.hart u.hart) hsend
    ⟨rfl, hs, .refl⟩ ?_
  rintro u i v ⟨hsame, hpart, hmoves⟩ hone
  split at hone
  · rcases signalSend_stay hpart hone with ⟨hsame', hpart', hmoves'⟩
    exact ⟨hsame'.trans hsame, hpart', hmoves.trans hmoves'⟩
  · cases hone
    exact ⟨hsame, hpart, hmoves⟩

lemma wait_moved (hs : Partitioned s) {target : Option Nat} {copied wnohang : Bool} {r : Option Int}
    (hwait : wait addrOf s target copied wnohang clock = some (r, t)) :
    Moved s (.wait target copied wnohang clock') t := by
  rcases bind_eq_some_iff.1 hwait with ⟨p, hmine, hrest⟩
  rcases map_eq_some_iff.1 hmine with ⟨c, hcur, rfl⟩
  split at hrest
  · rename_i np hfound
    split at hrest
    · cases hrest
      have hreap : reapable s (s.task c).process target np = true := find?_some hfound
      simp only [reapable, decide_eq_true_eq] at hreap
      refine ⟨?_, ⟨hs.nodup, hs.ready, hs.awake⟩, .refl _⟩
      exact Move.reap hcur (mem_of_find?_eq_some hfound) hreap.2.2 hreap.1
    · cases hrest
      exact Moved.stay rfl hs (.refl _)
  · rename_i hnone
    split at hrest
    · cases hrest
      exact Moved.stay rfl hs (.refl _)
    · rename_i hhang
      split at hrest
      · cases hrest
        exact Moved.stay rfl hs (.refl _)
      · rename_i hchild
        rcases bind_eq_some_iff.1 hrest with ⟨u, hsleep, hret⟩
        cases hret
        refine sleep_moved hs ?_ hsleep
        intro i hi
        cases hcur.symm.trans hi
        -- the test of the last branch says that a child is left
        have hsleeps : waitSleeps s (s.task c).process target wnohang = true := by
          have hany : (s.usedProcesses.any fun np =>
              (s.process np).parentId = (s.process (s.task c).process).processId) = true := by
            simpa using hchild
          unfold waitSleeps
          rw [hnone, hany]
          simpa using hhang
        show (waitSleeps s (s.task c).process target wnohang && (s.task c).killed) = (s.task c).killed
        rw [hsleeps, Bool.true_and]

/-! ## Steps -/

lemma step_moved (hs : Partitioned s) (hstep : step addrOf s a = some t) : Moved s a t := by
  cases a with
  | user frame =>
    rw [step] at hstep
    split at hstep
    · cases hstep
      have hready := hs.ready
      exact Moved.stay rfl ⟨hs.nodup, ⟨hready.queues, hready.live, hready.idle, hready.futex⟩, hs.awake⟩
        (.of_move (.user frame))
    · cases hstep
  | processCreate entryPoint => exact processCreatePriority_moved hs hstep
  | processFork =>
    rcases map_eq_some_iff.1 hstep with ⟨⟨r, u⟩, hfork, rfl⟩
    exact processFork_moved hs hfork
  | threadFork stackVa tls ctid =>
    rcases map_eq_some_iff.1 hstep with ⟨⟨r, u⟩, hfork, rfl⟩
    exact threadFork_moved hs hfork
  | wakeup channel =>
    cases hstep
    exact Moved.stay rfl (hs.wakeup channel) (.of_move (Futex.move_wakeup s channel))
  | futexWake addr n =>
    cases hstep
    exact Moved.stay rfl (hs.futexWake addr n) (.of_move (.wake addr n))
  | futexRequeue addr n newAddr =>
    cases hstep
    exact Moved.stay rfl (hs.futexRequeue addr n newAddr) (.of_move (.requeue addr n newAddr))
  | signalSend tgid tid sig =>
    rcases signalSend_stay hs hstep with ⟨hsame, hpart, hmoves⟩
    exact Moved.stay hsame hpart (.inl hmoves)
  | processSignalSend pid sig =>
    rcases processSignalSend_stay hs hstep with ⟨hsame, hpart, hmoves⟩
    exact Moved.stay hsame hpart (.inl hmoves)
  | yield clock => exact Moved.yield hs.nodup hs.ready rfl .refl hstep
  | sleepTime awakeTime clock => exact syscallSleepTime_moved hs hstep
  | sleep chan clock => exact sleep_moved hs (fun _ _ => rfl) hstep
  | sleepReturn clock => exact sleepReturn_moved hs hstep
  | futexWait addr ts clock => exact futexWait_moved hs hstep
  | exit ec clock => exact syscallExit_moved hs hstep
  | handleSignal clock => exact handleSignal_moved hs hstep
  | wait target copied wnohang clock =>
    rcases map_eq_some_iff.1 hstep with ⟨⟨r, u⟩, hwait, rfl⟩
    exact wait_moved hs hwait

lemma Move.toStep {l : Ledger} (hs : Partitioned s) (hmove : Move s a l) : s.ledger.Step l := by
  cases hmove with
  | stay => exact Ledger.Step.stay
  | addThread hfree hcur => exact Ledger.Step.addThread hfree (hs.mem_of_current hcur)
  | create _ _ hfree hproc => exact Ledger.Step.addProcess none nofun hfree hproc
  | @fork c _ _ _ _ _ hcur hfree hproc =>
    refine Ledger.Step.addProcess (some c) ?_ hfree hproc
    intro d hd
    cases hd
    exact hs.mem_of_current hcur
  | leave retValue hcur _ => exact Ledger.Step.removeThread retValue (hs.mem_of_current hcur)
  | reap hcur hused hzombie hparent => exact Ledger.Step.reap (hs.mem_of_current hcur) hused hzombie hparent

lemma step_effect (hs : Partitioned s) (hstep : step addrOf s a = some t) : Effect s t := by
  have hmoved := step_moved hs hstep
  exact ⟨hmoved.move.toStep hs, hmoved.partitioned⟩

end Threads
end OsRiscv
