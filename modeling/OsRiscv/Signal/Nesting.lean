import OsRiscv.Signal.Model

/-!
# Nesting — signal handlers nest like a stack

The started contexts of `waitingSignal`, in the order of the list, are the stack of the handlers that
have not returned: a handler is entered only from a context that stands before every started one,
and the return takes the first started one.  The set `processing` is the set of their numbers.
-/

namespace OsRiscv
namespace Signal

open Lib List
open Sched (Trapframe)

/-- Number and saved trapframe of the started contexts, in list order. -/
def started (l : List SignalContext) : List (Nat × Trapframe) :=
  (l.filter (·.start)).map fun c => (c.signal, c.contextRecover)

lemma started_cons_of_start {c : SignalContext} (hc : c.start = true) (l : List SignalContext) :
    started (c :: l) = (c.signal, c.contextRecover) :: started l := by
  simp [started, hc]

lemma started_cons_of_not_start {c : SignalContext} (hc : c.start = false)
    (l : List SignalContext) : started (c :: l) = started l := by
  simp [started, hc]

lemma start_eq_false_of_not_ready {b p : SignalSet} {c : SignalContext}
    (h : ready b p c = false) : c.start = false := by
  cases hc : c.start with
  | false => rfl
  | true => simp [ready, hc] at h

/-! ## The three ways in which the list changes -/

section lists

variable {b p : SignalSet} {c : SignalContext} {l : List SignalContext}

lemma started_eraseP_ready (hfind : l.find? (ready b p) = some c) (hc : c.start = false) :
    started (l.eraseP (ready b p)) = started l := by
  induction l with
  | nil => cases hfind
  | cons a l ih =>
    cases ha : ready b p a with
    | true =>
      rw [find?_cons_of_pos ha] at hfind
      cases hfind
      rw [eraseP_cons_of_pos ha, started_cons_of_not_start hc]
    | false =>
      -- what stands before the first ready context is not started
      have hstart := start_eq_false_of_not_ready ha
      rw [find?_cons_of_neg (by simp [ha])] at hfind
      rw [eraseP_cons_of_neg (by simp [ha]), started_cons_of_not_start hstart,
        started_cons_of_not_start hstart]
      exact ih hfind

/-- The list after `enterHandler`: the first ready context has been started. -/
theorem started_lookmap_ready (tf : Trapframe) (hfind : l.find? (ready b p) = some c) (hc : c.start = false) :
    started (l.lookmap fun c =>
      if ready b p c then some { c with start := true, contextRecover := tf } else none) =
      (c.signal, tf) :: started l := by
  induction l with
  | nil => cases hfind
  | cons a l ih =>
    cases ha : ready b p a with
    | true =>
      rw [find?_cons_of_pos ha] at hfind
      cases hfind
      rw [lookmap_cons_some _ _ (by simp only [ha, if_true]; rfl),
        started_cons_of_start rfl, started_cons_of_not_start hc]
    | false =>
      have hstart := start_eq_false_of_not_ready ha
      rw [find?_cons_of_neg (by simp [ha])] at hfind
      rw [lookmap_cons_none _ _ (by simp [ha]), started_cons_of_not_start hstart,
        started_cons_of_not_start hstart]
      exact ih hfind

lemma started_eq_cons_eraseP (hfind : l.find? (·.start) = some c) :
    started l = (c.signal, c.contextRecover) :: started (l.eraseP (·.start)) := by
  induction l with
  | nil => cases hfind
  | cons a l ih =>
    cases ha : a.start with
    | true =>
      rw [find?_cons_of_pos ha] at hfind
      cases hfind
      rw [eraseP_cons_of_pos ha, started_cons_of_start ha]
    | false =>
      rw [find?_cons_of_neg (by simp [ha])] at hfind
      rw [eraseP_cons_of_neg (by simp [ha]), started_cons_of_not_start ha,
        started_cons_of_not_start ha]
      exact ih hfind

lemma find?_start_isSome (h : started l ≠ []) : (l.find? (·.start)).isSome := by
  rw [find?_isSome]
  rcases exists_mem_of_ne_nil _ h with ⟨x, hx⟩
  rcases mem_map.1 hx with ⟨c, hc, _⟩
  exact ⟨c, (mem_filter.1 hc).1, (mem_filter.1 hc).2⟩

end lists

/-! ## The invariant -/

/-- The stack of unfinished handlers is in the list, and `processing` is the set of its numbers. -/
structure Inv (s : State) : Prop where
  stack : started s.waitingSignal = s.unfinished
  bits : ∀ k, Valid k → (signalSetAnd k s.processing = true ↔ k ∈ s.unfinished.map Prod.fst)
  nodup : (s.unfinished.map Prod.fst).Nodup
  valid : ∀ c ∈ s.waitingSignal, Valid c.signal

namespace Inv

variable {s t : State}

lemma of_fresh (h : Fresh s) : Inv s where
  stack := by rw [h.waitingSignal, h.unfinished]; rfl
  bits := by
    intro k hk
    rw [signalSetAnd_eq_getLsbD hk, h.processing, h.unfinished]
    simp
  nodup := by rw [h.unfinished]; exact nodup_nil
  valid := by rw [h.waitingSignal]; simp

section

variable (h : Inv s)
include h

lemma congr (hw : t.waitingSignal = s.waitingSignal)
    (hp : t.processing = s.processing) (hu : t.unfinished = s.unfinished) : Inv t where
  stack := by rw [hw, hu]; exact h.stack
  bits := by rw [hp, hu]; exact h.bits
  nodup := by rw [hu]; exact h.nodup
  valid := by rw [hw]; exact h.valid

lemma signalSend {sig : Nat} (hsig : Valid sig) (old : Trapframe) : Inv (signalSend s sig old) where
  stack := by
    exact h.stack
  bits := h.bits
  nodup := h.nodup
  valid := by
    intro c hc
    rcases mem_cons.1 hc with rfl | hc
    · unfold Valid at hsig ⊢
      dsimp only
      omega
    · exact h.valid c hc

lemma signProccessMask (how : Option How) (newSet : SignalSet) :
    Inv (signProccessMask s how newSet) := by
  cases how with
  | none => exact h
  | some how => cases how <;> exact h.congr rfl rfl rfl

lemma doSignalAction (sig : Nat) (act : UInt64) : Inv (doSignalAction s sig act) := by
  unfold Signal.doSignalAction
  split
  · exact h
  · exact h.congr rfl rfl rfl

section

variable {c : SignalContext} (hfind : s.waitingSignal.find? (ready s.blocked s.processing) = some c)
include hfind

lemma drop
    (hc : c.start = false) : Inv (signalFinish s (ready s.blocked s.processing)) where
  stack := (started_eraseP_ready hfind hc).trans h.stack
  bits := h.bits
  nodup := h.nodup
  valid := fun c hc => h.valid c (mem_of_mem_eraseP hc)

omit h in
lemma unblocked_of_first (hc : c.start = false) :
    signalSetAnd c.signal s.blocked = false ∧ signalSetAnd c.signal s.processing = false := by
  have hready : ready s.blocked s.processing c = true := find?_some hfind
  simpa [ready, hc] using hready

lemma valid_of_first : Valid c.signal :=
  h.valid c (mem_of_find?_eq_some hfind)

lemma not_mem_of_first
    (hc : c.start = false) : c.signal ∉ s.unfinished.map Prod.fst := by
  intro hmem
  have hbit := (h.bits c.signal (h.valid_of_first hfind)).2 hmem
  rw [(unblocked_of_first hfind hc).2] at hbit
  cases hbit

lemma enterHandler
    (hc : c.start = false) : Inv (enterHandler s c) where
  stack := by
    have hstack := started_lookmap_ready s.trapframe hfind hc
    rw [h.stack] at hstack
    exact hstack
  bits := by
    intro k hk
    unfold Signal.enterHandler
    rw [signalSetAnd_start hk (h.valid_of_first hfind), map_cons, mem_cons,
      Bool.or_eq_true, decide_eq_true_iff, h.bits k hk, or_comm]
  nodup := by
    have hnot := h.not_mem_of_first hfind hc
    exact nodup_cons.2 ⟨hnot, h.nodup⟩
  valid := by
    intro d hd
    -- the started context keeps its number, so the numbers of the list are the old ones
    have hsame : (s.waitingSignal.lookmap fun c =>
        if ready s.blocked s.processing c then
          some { c with start := true, contextRecover := s.trapframe } else none).map (·.signal) =
        s.waitingSignal.map (·.signal) := by
      apply lookmap_map_eq
      intro a b hab
      split at hab
      · cases hab
        rfl
      · cases hab
    have hmem : d.signal ∈ s.waitingSignal.map (·.signal) := by
      rw [← hsame]
      exact mem_map_of_mem hd
    rcases mem_map.1 hmem with ⟨e, he, hsig⟩
    rw [← hsig]
    exact h.valid e he

end

/-- What `handleSignal` does to the stack: nothing, or one handler is entered that was free to
start. -/
structure Entered (s t : State) (k : Nat) : Prop where
  unblocked : signalSetAnd k s.blocked = false
  idle : signalSetAnd k s.processing = false
  new : k ∉ s.unfinished.map Prod.fst
  push : t.unfinished = (k, s.trapframe) :: s.unfinished

lemma handleLoop {fuel : Nat} (ht : handleLoop fuel s = some t) :
    Inv t ∧ ((t.unfinished = s.unfinished ∧ t.trapframe = s.trapframe) ∨ ∃ k, Entered s t k) := by
  induction fuel generalizing s with
  | zero => cases ht
  | succ fuel ih =>
    unfold Signal.handleLoop at ht
    split at ht
    · cases ht
    · cases ht
      exact ⟨h, .inl ⟨rfl, rfl⟩⟩
    · rename_i c hfirst
      have hfind := firstReady_eq hfirst
      split at ht
      · cases ht
        exact ⟨h, .inl ⟨rfl, rfl⟩⟩
      · rename_i hstart
        have hc : c.start = false := by simpa using hstart
        split at ht
        · -- the dropped context changes none of what `Entered` reads
          rcases ih (h.drop hfind hc) ht with ⟨hinv, hsame | ⟨k, hk⟩⟩
          · exact ⟨hinv, .inl hsame⟩
          · exact ⟨hinv, .inr ⟨k, ⟨hk.unblocked, hk.idle, hk.new, hk.push⟩⟩⟩
        · cases ht
          have hfree := unblocked_of_first hfind hc
          exact ⟨h.enterHandler hfind hc,
            .inr ⟨c.signal, ⟨hfree.1, hfree.2, h.not_mem_of_first hfind hc, rfl⟩⟩⟩

lemma handleSignal (ht : handleSignal s = some t) :
    Inv t ∧ ((t.unfinished = s.unfinished ∧ t.trapframe = s.trapframe) ∨ ∃ k, Entered s t k) := by
  unfold Signal.handleSignal at ht
  split at ht
  · cases ht
  · exact h.handleLoop ht

/-- The return pops the stack: the trapframe is the one saved on its top. -/
theorem syscallSignalReturn (ht : syscallSignalReturn s = some t) :
    Inv t ∧ ∃ k, s.unfinished = (k, t.trapframe) :: t.unfinished := by
  rcases Option.bind_eq_some_iff.1 ht with ⟨c, hfind, hrest⟩
  have hvalid := h.valid c (mem_of_find?_eq_some hfind)
  rw [if_neg (not_not.2 hvalid)] at hrest
  cases hrest
  have hpop := started_eq_cons_eraseP hfind
  rw [h.stack] at hpop
  have htail : s.unfinished.tail = started (s.waitingSignal.eraseP (·.start)) := by rw [hpop]; rfl
  have hcons : s.unfinished = (c.signal, c.contextRecover) :: s.unfinished.tail := by
    rw [htail]
    exact hpop
  have hnodup : (c.signal :: s.unfinished.tail.map Prod.fst).Nodup := by
    have := h.nodup
    rw [hcons] at this
    exact this
  refine ⟨⟨htail.symm, ?_, (nodup_cons.1 hnodup).2, ?_⟩, c.signal, hcons⟩
  · intro k hk
    have hold := h.bits k hk
    rw [hcons, map_cons, mem_cons] at hold
    change signalSetAnd k (signalProcessEnd c.signal s.processing) = true ↔ _
    rw [signalSetAnd_end hk hvalid, Bool.and_eq_true, decide_eq_true_iff, hold]
    constructor
    · rintro ⟨rfl | hmem, hne⟩
      · exact absurd rfl hne
      · exact hmem
    · intro hmem
      refine ⟨.inr hmem, ?_⟩
      rintro rfl
      exact (nodup_cons.1 hnodup).1 hmem
  · intro d hd
    exact h.valid d (mem_of_mem_eraseP hd)

omit h in
lemma step {a : Act} (ha : a.Valid) (h : Inv s) (ht : step s a = some t) : Inv t := by
  cases a with
  | run frame =>
    cases ht
    exact h.congr rfl rfl rfl
  | send sig old =>
    cases ht
    exact h.signalSend ha old
  | mask how newSet =>
    cases ht
    exact h.signProccessMask how newSet
  | action sig act =>
    cases ht
    exact h.doSignalAction sig act
  | toUser => exact (h.handleSignal ht).1
  | sigreturn => exact (h.syscallSignalReturn ht).1

lemma count_started (k : Nat) : (s.waitingSignal.filter fun c => c.start && c.signal == k).length =
      if k ∈ s.unfinished.map Prod.fst then 1 else 0 := by
  have hnums : (s.waitingSignal.filter (·.start)).map (·.signal) =
      s.unfinished.map Prod.fst := by
    rw [← h.stack, started, map_map]
    rfl
  calc (s.waitingSignal.filter fun c => c.start && c.signal == k).length
      = ((s.waitingSignal.filter (·.start)).filter (·.signal == k)).length := by
        rw [filter_filter]
        congr 1
        exact filter_congr fun c _ => Bool.and_comm _ _
    _ = ((s.waitingSignal.filter (·.start)).map (·.signal)).count k := by
        rw [List.count, countP_map, countP_eq_length_filter]
        rfl
    _ = if k ∈ s.unfinished.map Prod.fst then 1 else 0 := by
        rw [hnums, h.nodup.count]

end

end Inv

/-! ## Whole runs -/

lemma handleLoop_isSome {fuel : Nat} {s : State} (hvalid : ∀ c ∈ s.waitingSignal, Valid c.signal)
    (h : s.waitingSignal.length < fuel) : (handleLoop fuel s).isSome := by
  induction fuel generalizing s with
  | zero => exact absurd h (Nat.not_lt_zero _)
  | succ fuel ih =>
    unfold handleLoop
    split
    · rename_i hfault
      have hsome := @firstReady_isSome _ id s.blocked s.processing _ hvalid
      rw [show firstReady id s.blocked s.processing s.waitingSignal = none from hfault] at hsome
      cases hsome
    · rfl
    · rename_i c hfirst
      have hfind := firstReady_eq hfirst
      split
      · rfl
      · split
        · -- a dropped context shortens the list
          apply ih fun d hd => hvalid d (mem_of_mem_eraseP hd)
          have hmem := mem_of_find?_eq_some hfind
          have hpos := length_pos_of_mem hmem
          have hready : ready s.blocked s.processing c = true := find?_some hfind
          have hlen := length_eraseP_of_mem hmem hready
          change (s.waitingSignal.eraseP (ready s.blocked s.processing)).length < fuel
          omega
        · rfl

/-- For every run of a thread that starts without signals: a return from a handler completes and
restores the trapframe that was saved when the last unfinished handler was entered; a return to user
mode completes unless the thread is killed, and enters at most one handler, of a signal that is
neither blocked nor being processed; and a bit of `processing` is set exactly when one started
context has its number. -/
theorem handlers_nest {s₀ s : State} {as : List Act} (h0 : Fresh s₀) (hvalid : ∀ a ∈ as, a.Valid)
    (h : Run (fun s a t => step s a = some t) s₀ as s) : (s.unfinished ≠ [] → ∃ t k, syscallSignalReturn s = some t ∧
      s.unfinished = (k, t.trapframe) :: t.unfinished) ∧
    (s.killed = false → ∃ t, handleSignal s = some t ∧
      ((t.unfinished = s.unfinished ∧ t.trapframe = s.trapframe) ∨ ∃ k,
        t.unfinished = (k, s.trapframe) :: s.unfinished ∧
        signalSetAnd k s.blocked = false ∧ signalSetAnd k s.processing = false ∧
        ∀ c ∈ s.waitingSignal, c.start = true → c.signal ≠ k)) ∧
    ∀ k, Valid k → (signalSetAnd k s.processing = true ↔
      (s.waitingSignal.filter fun c => c.start && c.signal == k).length = 1) := by
  have hinv : Inv s := h.invariant_of_forall hvalid (Inv.of_fresh h0)
    fun _ _ _ ha hs hstep => hs.step ha hstep
  refine ⟨?_, ?_, ?_⟩
  · intro hne
    rw [← hinv.stack] at hne
    rcases Option.isSome_iff_exists.1 (find?_start_isSome hne) with ⟨c, hc⟩
    have ht : ∃ t, syscallSignalReturn s = some t := by
      simp [syscallSignalReturn, getHandlingSignal, hc, hinv.valid c (mem_of_find?_eq_some hc)]
    rcases ht with ⟨t, ht⟩
    rcases (hinv.syscallSignalReturn ht).2 with ⟨k, hk⟩
    exact ⟨t, k, ht, hk⟩
  · intro hkilled
    have ht : (handleSignal s).isSome := by
      simp only [handleSignal, hkilled]
      exact handleLoop_isSome hinv.valid (Nat.lt_succ_self _)
    rcases Option.isSome_iff_exists.1 ht with ⟨t, ht⟩
    refine ⟨t, ht, (hinv.handleSignal ht).2.imp_right ?_⟩
    rintro ⟨k, hk⟩
    refine ⟨k, hk.push, hk.unblocked, hk.idle, ?_⟩
    rintro c hc hstart rfl
    apply hk.new
    rw [← hinv.stack]
    exact mem_map.2 ⟨(c.signal, c.contextRecover),
      mem_map.2 ⟨c, mem_filter.2 ⟨hc, hstart⟩, rfl⟩, rfl⟩
  · intro k hk
    rw [hinv.bits k hk, hinv.count_started k]
    split
    · next hmem => simp [hmem]
    · next hmem => simp [hmem]

/-- A thread with a handler for every signal. -/
def quiet : State where
  waitingSignal := []
  blocked := 0
  processing := 0
  killed := false
  trapframe := default
  handler := fun _ => 0x1000
  unfinished := []

/-- A second signal arrives inside the handler of the first one. -/
def nestedActs : List Act :=
  [.send 2 default, .toUser, .run { (default : Trapframe) with a0 := 7 }, .send 3 default, .toUser]

theorem nested_handlers_return : ∃ s, Run (fun s a t => step s a = some t) quiet nestedActs s ∧
      s.unfinished.map Prod.fst = [3, 2] ∧
      ∃ t k, syscallSignalReturn s = some t ∧
        s.unfinished = (k, t.trapframe) :: t.unfinished := by
  have hrun : ∃ s, runAll step quiet nestedActs = some s ∧
      s.unfinished.map Prod.fst = [3, 2] := ⟨_, rfl, rfl⟩
  rcases hrun with ⟨s, hs, hnums⟩
  have hrun := run_of_runAll hs
  have hvalid : ∀ a ∈ nestedActs, a.Valid := by
    simp [nestedActs, Act.Valid, Valid]
  have hne : s.unfinished ≠ [] := by
    intro h
    rw [h] at hnums
    cases hnums
  exact ⟨s, hrun, hnums, (handlers_nest ⟨rfl, rfl, rfl⟩ hvalid hrun).1 hne⟩

end Signal
end OsRiscv
