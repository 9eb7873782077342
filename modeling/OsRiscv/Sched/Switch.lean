import OsRiscv.Sched.Yield

/-!
# Switch — which registers a context switch preserves

`yield_spec` says once what a completed `yield` does to the trapframes; everything else about the
scheduler is derived from it.
-/

namespace OsRiscv
namespace Sched

variable {ι : Type*} [DecidableEq ι] {s t : Hart ι} {a b i : ι} {clock : List Nat}

/-! ## Small facts about the pieces of `yield` -/

omit [DecidableEq ι] in
lemma Trapframe.setA0_eq_self (f : Trapframe) : { f with a0 := 0 } = f ↔ f.a0 = 0 := by
  constructor
  · intro h
    exact (congrArg Trapframe.a0 h).symm
  · intro h
    cases f
    simpa using h.symm

@[simp] lemma setThread_thread (th : Thread) : (s.setThread i th).thread = Function.update s.thread i th := rfl

@[simp] lemma setThread_trapframe (th : Thread) : (s.setThread i th).trapframe = s.trapframe := rfl

@[simp] lemma setThread_currentThread (th : Thread) : (s.setThread i th).currentThread = s.currentThread := rfl

@[simp] lemma setThread_futexQueue (th : Thread) : (s.setThread i th).futexQueue = s.futexQueue := rfl

/-- What `giveUpHart` leaves alone. -/
theorem giveUpHart_spec (s : Hart ι) :
    (giveUpHart s).trapframe = s.trapframe ∧ (giveUpHart s).currentThread = s.currentThread ∧
    (giveUpHart s).futexQueue = s.futexQueue ∧ (∀ i, ((giveUpHart s).thread i).awakeTime = (s.thread i).awakeTime) ∧
    ∀ i, s.currentThread ≠ some i → (giveUpHart s).thread i = s.thread i := by
  unfold giveUpHart
  cases hcur : s.currentThread with
  | none => simp [hcur]
  | some a =>
    by_cases hrun : (s.thread a).state = .running
    · have hupd : ∀ i (th : Thread), th.awakeTime = (s.thread a).awakeTime →
          (Function.update s.thread a th i).awakeTime = (s.thread i).awakeTime := by
        intro i th hth
        by_cases hi : i = a
        · subst hi
          simpa using hth
        · simp [hi]
      refine ⟨by simp [hrun], by simp [hrun, hcur], by simp [hrun], ?_, ?_⟩
      · intro i
        simp only [hrun, if_true, setThread_thread]
        apply hupd
        cases (s.thread a).kernelGiveUp <;> rfl
      · intro i hi
        have hne : i ≠ a := fun h => hi (by rw [h])
        simp [hrun, hne]
    · simp [hrun, hcur]

/-- The trapframe that the hart holds when `threadRun` is reached. -/
def clobbered (s : Hart ι) (b : ι) : Trapframe :=
  if 0 < (s.thread b).awakeTime then { s.trapframe with a0 := 0 } else s.trapframe

lemma endTimedSleep_spec (s : Hart ι) (b : ι) : (endTimedSleep s b).trapframe = clobbered s b ∧
    (endTimedSleep s b).currentThread = s.currentThread ∧ (endTimedSleep s b).futexQueue = s.futexQueue ∧
    (endTimedSleep s b).thread = Function.update s.thread b { s.thread b with awakeTime := 0 } := by
  unfold endTimedSleep clobbered
  by_cases h : 0 < (s.thread b).awakeTime
  · simp [h]
  · have hz : (s.thread b).awakeTime = 0 := Nat.eq_zero_of_not_pos h
    have hself : { s.thread b with awakeTime := 0 } = s.thread b := by rw [← hz]
    simp [h, hself]

lemma saveCurrent_spec (s : Hart ι) : (saveCurrent s).futexQueue = s.futexQueue ∧
    (∀ i, ((saveCurrent s).thread i).trapframe =
      if s.currentThread = some i then s.trapframe else (s.thread i).trapframe) ∧
    (∀ i, ((saveCurrent s).thread i).awakeTime = (s.thread i).awakeTime) ∧
    ∀ i, ((saveCurrent s).thread i).state = (s.thread i).state := by
  unfold saveCurrent
  cases hcur : s.currentThread with
  | none => simp
  | some a =>
    refine ⟨rfl, ?_, ?_, ?_⟩ <;> intro i <;> by_cases hi : i = a
    · simp [hi]
    · have hne : ¬a = i := fun h => hi h.symm
      simp [hi, hne]
    all_goals simp [hi]

/-- `threadRun`, read off: the current thread keeps the hart's frame, `b` runs with its own. -/
theorem threadRun_spec (s : Hart ι) (b : ι) :
    (threadRun s b).currentThread = some b ∧ (threadRun s b).futexQueue = s.futexQueue ∧
    (threadRun s b).trapframe = ((threadRun s b).thread b).trapframe ∧ ((threadRun s b).thread b).state = .running ∧
    (∀ i, ((threadRun s b).thread i).trapframe =
      if s.currentThread = some i then s.trapframe else (s.thread i).trapframe) ∧
    (∀ i, ((threadRun s b).thread i).awakeTime = (s.thread i).awakeTime) ∧
    ∀ i, i ≠ b → ((threadRun s b).thread i).state = (s.thread i).state := by
  rcases saveCurrent_spec s with ⟨hqueue, hframe, hawake, hstate⟩
  -- both branches load the frame of `b` and change nothing else but its state and its give-up bit
  have hload : (threadRun s b).currentThread = some b ∧
      (threadRun s b).futexQueue = (saveCurrent s).futexQueue ∧
      (threadRun s b).trapframe = ((saveCurrent s).thread b).trapframe ∧
      (threadRun s b).thread = Function.update (saveCurrent s).thread b
        { (saveCurrent s).thread b with state := .running, kernelGiveUp := false } := by
    cases hg : ((saveCurrent s).thread b).kernelGiveUp with
    | true => simp [threadRun, hg]
    | false => simp [threadRun, hg]
  rcases hload with ⟨hcur, hq, htrap, hthread⟩
  refine ⟨hcur, hq.trans hqueue, ?_, ?_, ?_, ?_, ?_⟩
  · simp [htrap, hthread]
  · simp [hthread]
  · intro i
    rw [← hframe i, hthread]
    by_cases hi : i = b <;> simp [hi]
  · intro i
    rw [← hawake i, hthread]
    by_cases hi : i = b <;> simp [hi]
  · intro i hi
    rw [← hstate i, hthread]
    simp [hi]

/-! ## What a completed `yield` does -/

structure Switched (s : Hart ι) (b : ι) (t : Hart ι) : Prop where
  current : t.currentThread = some b
  state : (t.thread b).state = .running
  awake : (t.thread b).awakeTime = 0
  loaded : t.trapframe = (t.thread b).trapframe
  /-- Only the outgoing thread's saved frame changes. -/
  frame : ∀ i, (t.thread i).trapframe =
    if s.currentThread = some i then clobbered s b else (s.thread i).trapframe
  awake_ne : ∀ i, i ≠ b → (t.thread i).awakeTime = (s.thread i).awakeTime
  state_ne : ∀ i, i ≠ b → s.currentThread ≠ some i → (t.thread i).state = (s.thread i).state
  /-- The outgoing thread is not freed. -/
  state_current : ∀ i, s.currentThread = some i → (s.thread i).state ≠ .unused →
    (t.thread i).state ≠ .unused
  /-- The incoming thread waits on no futex any more. -/
  futex : ∀ e ∈ t.futexQueue, e.valid = true → e ∈ s.futexQueue ∧ e.thread ≠ some b

lemma giveUpHart_state (s : Hart ι) (i : ι) (h : (s.thread i).state ≠ .unused) :
    ((giveUpHart s).thread i).state ≠ .unused := by
  unfold giveUpHart
  cases s.currentThread with
  | none => exact h
  | some a =>
    by_cases hrun : (s.thread a).state = .running
    · by_cases hi : i = a
      · simp [hrun, hi]
      · simpa [hrun, hi] using h
    · simpa [hrun] using h

lemma yield_spec (h : yield clock s = some (b, t)) : Switched s b t := by
  rcases Option.bind_eq_some_iff.1 h with ⟨⟨b', p⟩, _, ht⟩
  have hpair := Prod.mk.inj (Option.some.inj ht)
  rcases hpair with ⟨rfl, rfl⟩
  rcases giveUpHart_spec s with ⟨hf1, hc1, hq1, ha1, ht1⟩
  set s2 : Hart ι := { giveUpHart s with
    processTimeCount := p.count - 1, processBelongList := p.point, scheduleList := p.scheduleList }
  rcases endTimedSleep_spec s2 b' with ⟨hf3, hc3, hq3, ht3⟩
  rcases threadRun_spec (futexClear (endTimedSleep s2 b') b') b' with
    ⟨hcur, hqueue, hload, hrun, hframe, hawake, hstate⟩
  have hclob : clobbered s2 b' = clobbered s b' := by
    simp only [clobbered, s2, ha1, hf1]
  have hcur2 : s2.currentThread = s.currentThread := hc1
  have hold : ∀ i, (futexClear (endTimedSleep s2 b') b').thread i =
      Function.update (giveUpHart s).thread b' { (giveUpHart s).thread b' with awakeTime := 0 } i := by
    intro i
    exact congrFun ht3 i
  refine ⟨hcur, hrun, ?_, hload, ?_, ?_, ?_, ?_, ?_⟩
  · rw [hawake, hold]
    simp
  · intro i
    rw [hframe, hold]
    have hc : (futexClear (endTimedSleep s2 b') b').currentThread = s.currentThread := hc3.trans hcur2
    have hf : (futexClear (endTimedSleep s2 b') b').trapframe = clobbered s b' := hf3.trans hclob
    rw [hc, hf]
    by_cases hi : s.currentThread = some i
    · simp [hi]
    · have hsame := ht1 i hi
      by_cases hib : i = b'
      · subst hib
        simp [hi, hsame]
      · simp [hi, hib, hsame]
  · intro i hi
    rw [hawake, hold]
    simp [hi, ha1]
  · intro i hi hne
    rw [hstate i hi, hold]
    simp [hi, ht1 i hne]
  · intro i hi hused
    by_cases hib : i = b'
    · subst hib
      simp [hrun]
    · rw [hstate i hib, hold]
      simpa [hib] using giveUpHart_state s i hused
  · intro e he hv
    rw [hqueue] at he
    rcases List.mem_map.1 he with ⟨e0, he0, rfl⟩
    have hmem : e0 ∈ s.futexQueue := by
      have : e0 ∈ (giveUpHart s).futexQueue := by simpa [hq3] using he0
      simpa [hq1] using this
    by_cases hmatch : e0.valid ∧ e0.thread = some b'
    · simp [hmatch] at hv
    · have hv0 : e0.valid = true := by simpa [hmatch] using hv
      simp only [hmatch, if_false]
      exact ⟨hmem, fun hb => hmatch ⟨hv0, hb⟩⟩

/-! ## The contract of a context switch -/

/-- The frame that thread `b` last gave up the hart with. -/
def savedFrame (s : Hart ι) (b : ι) : Trapframe :=
  if s.currentThread = some b then s.trapframe else (s.thread b).trapframe

/-- The outgoing thread keeps all its registers, and the incoming thread gets its own, except that
`a0` is 0 after a timed sleep. -/
structure PreservesRegisters (s : Hart ι) (b : ι) (t : Hart ι) : Prop where
  outgoing : ∀ a, s.currentThread = some a → (t.thread a).trapframe = s.trapframe
  incoming : t.trapframe =
    if 0 < (s.thread b).awakeTime then { savedFrame s b with a0 := 0 } else savedFrame s b

/-- The write to `a0` hits a zero, in the outgoing and in the incoming thread's frame. -/
def NoClobber (s : Hart ι) (b : ι) : Prop :=
  (s.thread b).awakeTime = 0 ∨
    ((s.currentThread.isSome → s.trapframe.a0 = 0) ∧
      (s.currentThread = some b ∨ (s.thread b).trapframe.a0 = 0))

omit [DecidableEq ι] in
lemma clobbered_of_awake (h : (s.thread b).awakeTime = 0) : clobbered s b = s.trapframe := by
  simp [clobbered, h]

omit [DecidableEq ι] in
lemma clobbered_of_noClobber (h : NoClobber s b) (hcur : s.currentThread.isSome = true) :
    clobbered s b = s.trapframe := by
  rcases h with hz | ⟨ha0, _⟩
  · exact clobbered_of_awake hz
  · have hself := (Trapframe.setA0_eq_self s.trapframe).2 (ha0 hcur)
    simp [clobbered, hself]

lemma Switched.preservesRegisters_iff (h : Switched s b t) : PreservesRegisters s b t ↔ NoClobber s b := by
  constructor
  · intro hp
    by_cases hz : (s.thread b).awakeTime = 0
    · exact .inl hz
    · have hpos : 0 < (s.thread b).awakeTime := Nat.pos_of_ne_zero hz
      refine .inr ⟨?_, ?_⟩
      · -- the outgoing frame was saved after the write to `a0`
        intro hsome
        rcases Option.isSome_iff_exists.1 hsome with ⟨a, ha⟩
        have hout := hp.outgoing a ha
        rw [h.frame a] at hout
        refine (Trapframe.setA0_eq_self s.trapframe).1 ?_
        simpa [ha, clobbered, hpos] using hout
      · -- the incoming frame was loaded over it
        by_cases hb : s.currentThread = some b
        · exact .inl hb
        · have hin := hp.incoming
          rw [h.loaded, h.frame b] at hin
          have hself : { (s.thread b).trapframe with a0 := 0 } = (s.thread b).trapframe := by
            simpa [hpos, savedFrame, hb] using hin.symm
          exact .inr ((Trapframe.setA0_eq_self _).1 hself)
  · intro hno
    refine ⟨?_, ?_⟩
    · intro a ha
      rw [h.frame a]
      simpa [ha] using clobbered_of_noClobber hno (by simp [ha])
    · rw [h.loaded, h.frame b]
      rcases hno with hz | ⟨_, hb⟩
      · simp [hz, savedFrame, clobbered_of_awake hz]
      · by_cases hpos : 0 < (s.thread b).awakeTime
        · by_cases hcur : s.currentThread = some b
          · simp [hcur, hpos, savedFrame, clobbered]
          · have ha0 : (s.thread b).trapframe.a0 = 0 := hb.resolve_left hcur
            have hself := (Trapframe.setA0_eq_self _).2 ha0
            simp [hcur, hpos, savedFrame, hself]
        · simp [hpos, savedFrame, clobbered]

end Sched
end OsRiscv
