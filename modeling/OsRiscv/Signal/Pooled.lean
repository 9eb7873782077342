import OsRiscv.Signal.Contexts

/-!
# Pooled — every context is in the pool or waits at one thread

Each function moves contexts between `freeSignalContextList` and the list of one thread (`Shift`), and a
thread that is not in use has an empty list.  So the loop in `threadFree` loses nothing, and the `LIST_INIT`
of `threadSetup` finds the list of a reused structure empty.
-/

namespace OsRiscv
namespace Signal

open Option (bind_eq_some_iff map_eq_some_iff)
open Function (update update_eq_self update_of_ne update_self)
open Lib List
open Sched (Trapframe)
open Threads (Kern Move destroys)

variable {s t u : Pool} {i j c : Nat} {addrOf : Nat → Nat} {unfinished : List (Nat × Trapframe)} {fuel : Nat}
  {clock : List Nat} {a : Threads.Act} {l : List Nat} {r : Int}

/-- Contexts move between the pool and the list of the thread `i` only. -/
structure Shift (i : Nat) (s t : Pool) : Prop where
  objects : (t.freeSignalContextList ++ t.waitingSignal i).Perm (s.freeSignalContextList ++ s.waitingSignal i)
  others : ∀ j, j ≠ i → t.waitingSignal j = s.waitingSignal j

/-- No context came to a list, and none has another number. -/
structure Kept (s t : Pool) : Prop where
  waiting : ∀ i, t.waitingSignal i ⊆ s.waitingSignal i
  signal : ∀ c, (t.context c).signal = (s.context c).signal

structure PoolInv (s : Pool) : Prop where
  kern : Threads.Inv s.kern
  once : ∀ c, total (Finset.range processTotalNumber) s.freeSignalContextList s.waitingSignal c =
    if c < signalContextCount then 1 else 0
  idle : ∀ i, i ∉ s.kern.usedThreads → s.waitingSignal i = []

namespace Shift

lemma refl (hfree : t.freeSignalContextList = s.freeSignalContextList)
    (hwaiting : t.waitingSignal = s.waitingSignal) : Shift i s t := by
  refine ⟨?_, fun j _ => by rw [hwaiting]⟩
  rw [hfree, hwaiting]

lemma trans (hst : Shift i s t) (htu : Shift i t u) : Shift i s u :=
  ⟨htu.objects.trans hst.objects, fun j hj => (htu.others j hj).trans (hst.others j hj)⟩

lemma waitingSignal_eq (h : Shift i s t) :
    t.waitingSignal = update s.waitingSignal i (t.waitingSignal i) := by
  funext j
  by_cases hj : j = i
  · subst hj
    rw [update_self]
  · rw [update_of_ne hj, h.others j hj]

end Shift

namespace Kept

lemma refl (hwaiting : t.waitingSignal = s.waitingSignal) (hcontext : t.context = s.context) : Kept s t :=
  ⟨fun i => by rw [hwaiting]; exact Subset.refl _, fun c => by rw [hcontext]⟩

lemma trans (h : Kept s t) (h' : Kept t u) : Kept s u :=
  ⟨fun i _ hc => h.waiting i (h'.waiting i hc), fun c => (h'.signal c).trans (h.signal c)⟩

lemma of_update {l : List Nat} (hl : l ⊆ s.waitingSignal i) (hwaiting : t.waitingSignal = update s.waitingSignal i l)
    (hcontext : t.context = s.context) : Kept s t := by
  refine ⟨fun j => ?_, fun c => by rw [hcontext]⟩
  rw [hwaiting]
  by_cases hj : j = i
  · subst hj
    rwa [update_self]
  · rw [update_of_ne hj]
    exact Subset.refl _

lemma enterHandler : Kept s (s.enterHandler i c) := by
  refine ⟨fun _ => Subset.refl _, fun d => ?_⟩
  by_cases hd : d = c
  · simp [Pool.enterHandler, Pool.setFrame, Pool.setProcessing, Pool.setContext, hd]
  · simp [Pool.enterHandler, Pool.setFrame, Pool.setProcessing, Pool.setContext, hd]

end Kept

lemma used_lt (hs : PoolInv s) (hi : i ∈ s.kern.usedThreads) : i < processTotalNumber :=
  mem_range.1 (hs.kern.balanced.threads.mem_iff.1 (mem_append_right _ hi))

lemma PoolInv.shift (hs : PoolInv s) (hi : i ∈ s.kern.usedThreads) (h : Shift i s t) (hkern : Threads.Inv t.kern)
    (hused : ∀ j, j ∉ t.kern.usedThreads →
      j ∉ s.kern.usedThreads ∨ (j = i ∧ t.waitingSignal i = [])) : PoolInv t := by
  refine ⟨hkern, ?_, ?_⟩
  · intro c
    rw [h.waitingSignal_eq, total_transfer (Finset.mem_range.2 (used_lt hs hi)) h.objects]
    exact hs.once c
  · intro j hj
    rcases hused j hj with hidle | ⟨rfl, hempty⟩
    · have hne : j ≠ i := fun hji => hidle (hji ▸ hi)
      rw [h.others j hne]
      exact hs.idle j hidle
    · exact hempty

lemma PoolInv.stay (hs : PoolInv s) (hfree : t.freeSignalContextList = s.freeSignalContextList)
    (hwaiting : t.waitingSignal = s.waitingSignal) (hkern : Threads.Inv t.kern)
    (hused : ∀ j, j ∉ t.kern.usedThreads → j ∉ s.kern.usedThreads) : PoolInv t := by
  refine ⟨hkern, ?_, ?_⟩
  · rw [hfree, hwaiting]
    exact hs.once
  · intro j hj
    rw [hwaiting]
    exact hs.idle j (hused j hj)

/-! ## The functions -/

lemma shift_signalFinish (hc : c ∈ s.waitingSignal i) : Shift i s (s.signalFinish i c) := by
  refine ⟨?_, ?_⟩
  · show (c :: s.freeSignalContextList ++
      update s.waitingSignal i ((s.waitingSignal i).erase c) i).Perm _
    rw [update_self]
    exact perm_middle.symm.trans ((perm_cons_erase hc).symm.append_left _)
  · intro j hj
    exact update_of_ne hj _ _

lemma freeLoop_perm (waiting free : List Nat) : (Pool.freeLoop waiting free).Perm (free ++ waiting) := by
  induction waiting generalizing free with
  | nil => simp [Pool.freeLoop]
  | cons c waiting ih => exact (ih (c :: free)).trans perm_middle.symm

lemma freeContexts_empty : (s.freeContexts i).waitingSignal i = [] := update_self ..

lemma shift_freeContexts : Shift i s (s.freeContexts i) := by
  refine ⟨?_, ?_⟩
  · rw [freeContexts_empty, append_nil]
    exact freeLoop_perm _ _
  · intro j hj
    exact update_of_ne hj _ _

lemma signalContextAlloc_spec (halloc : s.signalContextAlloc = some (c, t)) :
    s.freeSignalContextList = c :: t.freeSignalContextList ∧ t.waitingSignal = s.waitingSignal := by
  unfold Pool.signalContextAlloc at halloc
  cases hfree : s.freeSignalContextList with
  | nil =>
    rw [hfree] at halloc
    cases halloc
  | cons d rest =>
    rw [hfree] at halloc
    cases halloc
    exact ⟨rfl, rfl⟩

lemma signalSend_inv (hs : PoolInv s) {tgid tid sig : Nat} (hsend : s.signalSend tgid tid sig = some (r, t)) :
    PoolInv t := by
  unfold Pool.signalSend at hsend
  split at hsend
  · cases hsend
  rcases bind_eq_some_iff.1 hsend with ⟨i, hfind, hrest⟩
  have hin := Threads.tid2Thread_mem hs.kern.partitioned hfind
  split at hrest
  · cases hrest
    exact hs
  · rcases bind_eq_some_iff.1 hrest with ⟨⟨c, u⟩, halloc, hrest⟩
    rcases bind_eq_some_iff.1 hrest with ⟨kern, hkern, hret⟩
    cases hret
    rcases signalContextAlloc_spec halloc with ⟨hfree, hwaiting⟩
    refine hs.shift hin ⟨?_, ?_⟩ ?_ ?_
    · -- the first context of the pool is now the first one of the thread
      show (u.freeSignalContextList ++
        update u.waitingSignal i (c :: u.waitingSignal i) i).Perm _
      rw [update_self, hfree, hwaiting]
      exact perm_middle
    · intro j hj
      show update u.waitingSignal i (c :: u.waitingSignal i) j = s.waitingSignal j
      rw [update_of_ne hj, hwaiting]
    · have hstep : Threads.step id s.kern (.signalSend tgid tid sig) = some kern := hkern
      exact Threads.step_inv hs.kern hstep
    · intro j hj
      have hused : kern.usedThreads = s.kern.usedThreads :=
        congrArg Threads.Ledger.usedThreads (Threads.signalSend_stay hs.kern.partitioned hkern).1
      exact .inl (hused ▸ hj)

/-- The loop of `processSignalSend`: what each `signalSend` keeps, the loop keeps. -/
theorem processSignalSend_inv {pid sig : Nat} (hs : PoolInv s) (hsend : s.processSignalSend pid sig = some (r, t)) :
    PoolInv t := by
  refine foldlM_invariant (P := fun x => PoolInv x.2) hsend hs fun x i y hu hone => ?_
  unfold Pool.processSignalRound at hone
  split at hone
  · exact signalSend_inv hu hone
  · cases hone
    exact hu

lemma enterHandler_kern (s : Pool) (i c : Nat) : ∃ frame, (s.enterHandler i c).kern = (s.setFrame frame).kern := by
  exact ⟨_, rfl⟩

lemma shift_enterHandler : Shift i s (s.enterHandler i c) := by
  rw [Pool.enterHandler_eq]
  refine Shift.refl ?_ ?_
  · rw [Pool.setFrame_free, Pool.setProcessing_free, Pool.setContext_free]
  · rw [Pool.setFrame_waiting, Pool.setProcessing_waiting, Pool.setContext_waiting]

/-- The loop of `handleSignal` writes no part of the kernel but the trapframe. -/
theorem pool_handleLoop_spec (hloop : Pool.handleLoop i fuel s = some t) :
    Shift i s t ∧ Kept s t ∧ ∃ frame, t.kern = (s.setFrame frame).kern := by
  induction fuel generalizing s with
  | zero => cases hloop
  | succ fuel ih =>
    unfold Pool.handleLoop at hloop
    split at hloop
    · cases hloop
    · cases hloop
      exact ⟨Shift.refl rfl rfl, .refl rfl rfl, t.kern.hart.trapframe, rfl⟩
    · rename_i c hfirst
      split at hloop
      · cases hloop
        exact ⟨Shift.refl rfl rfl, .refl rfl rfl, t.kern.hart.trapframe, rfl⟩
      · split at hloop
        · rcases ih hloop with ⟨hshift, hkept, frame, hkern⟩
          have hfinish : Kept s (s.signalFinish i c) := .of_update erase_subset rfl rfl
          exact ⟨(shift_signalFinish (mem_of_find?_eq_some (firstReady_eq hfirst))).trans hshift, hfinish.trans hkept,
            frame, hkern⟩
        · cases hloop
          exact ⟨shift_enterHandler, .enterHandler, enterHandler_kern s i c⟩

/-- The rounds that `handleSignal` gives the loop are enough. -/
theorem pool_handleLoop_isSome (hvalid : ∀ c ∈ s.waitingSignal i, Valid (s.context c).signal)
    (hfuel : (s.waitingSignal i).length < fuel) : (Pool.handleLoop i fuel s).isSome = true := by
  induction fuel generalizing s with
  | zero => cases hfuel
  | succ fuel ih =>
    rcases Option.isSome_iff_exists.1 (@firstReady_isSome _ s.context (s.blocked i) (s.processing i) _ hvalid)
      with ⟨o, hfirst⟩
    unfold Pool.handleLoop Pool.getFirstSignalContext
    rw [hfirst]
    cases o with
    | none => rfl
    | some c =>
      dsimp only
      split
      · rfl
      · split
        · have hin := mem_of_find?_eq_some (firstReady_eq hfirst)
          have hpos := length_pos_of_mem hin
          have hlist : (s.signalFinish i c).waitingSignal i = (s.waitingSignal i).erase c := update_self ..
          refine ih ?_ ?_
          · rw [hlist]
            exact fun d hd => hvalid d (mem_of_mem_erase hd)
          · rw [hlist, length_erase_of_mem hin]
            omega
        · rfl

lemma inv_setFrame (hs : PoolInv s) (hcur : s.kern.hart.currentThread = some i) (frame : Trapframe) :
    Threads.Inv (s.setFrame frame).kern := by
  have hstep : Threads.step id s.kern (.user frame) = some (s.setFrame frame).kern := by
    rw [Threads.step, hcur]
    rfl
  exact Threads.step_inv hs.kern hstep

/-! ## Steps -/

lemma move_used {k : Kern} {l : Threads.Ledger} (hmove : Move k a l) (hj : j ∉ l.usedThreads) :
    j ∉ k.usedThreads ∨ (k.hart.currentThread = some j ∧ destroys k j a = true) := by
  cases hmove with
  | stay => exact .inl hj
  | addThread hfree hcur => exact .inl fun h => hj (mem_cons_of_mem _ h)
  | create entryPoint ha hfree hproc => exact .inl fun h => hj (mem_cons_of_mem _ h)
  | fork ha hcur hfree hproc => exact .inl fun h => hj (mem_cons_of_mem _ h)
  | @leave i retValue hcur hdestroys =>
    by_cases hji : j = i
    · subst hji
      exact .inr ⟨hcur, hdestroys⟩
    · exact .inl fun h => hj ((mem_erase_of_ne hji).2 h)
  | reap hcur hused hzombie hparent => exact .inl hj

/-- A call of the kernel after which the contexts of a destroyed thread are free. -/
theorem otherCall_inv (hs : PoolInv s) (hcall : s.otherCall addrOf a = some t) : PoolInv t ∧ Kept s t := by
  rcases bind_eq_some_iff.1 hcall with ⟨kern, hstep, hrest⟩
  have hkern := Threads.step_inv hs.kern hstep
  have hused : ∀ j, j ∉ kern.usedThreads → j ∉ s.kern.usedThreads ∨
      (s.kern.hart.currentThread = some j ∧ destroys s.kern j a = true) :=
    fun j hj => move_used (Threads.step_moved hs.kern.partitioned hstep).move hj
  cases hcur : s.kern.hart.currentThread with
  | none =>
    rw [hcur] at hrest
    cases hrest
    refine ⟨hs.stay rfl rfl hkern fun j hj => ?_, .refl rfl rfl⟩
    rcases hused j hj with h | ⟨h, _⟩
    · exact h
    · rw [hcur] at h
      cases h
  | some i =>
    rw [hcur] at hrest
    dsimp only at hrest
    split at hrest
    · cases hrest
      refine ⟨hs.shift (hs.kern.partitioned.mem_of_current hcur) ⟨shift_freeContexts.objects,
        shift_freeContexts.others⟩ hkern fun j hj => ?_, .of_update (nil_subset _) rfl rfl⟩
      rcases hused j hj with h | ⟨h, _⟩
      · exact .inl h
      · rw [hcur] at h
        cases h
        exact .inr ⟨rfl, freeContexts_empty⟩
    · rename_i hkeeps
      cases hrest
      refine ⟨hs.stay rfl rfl hkern fun j hj => ?_, .refl rfl rfl⟩
      rcases hused j hj with h | ⟨h, hdestroys⟩
      · exact h
      · rw [hcur] at h
        cases h
        exact absurd hdestroys hkeeps

def Creation.act : Creation → Threads.Act
  | .processCreate entryPoint => .processCreate entryPoint
  | .processFork => .processFork
  | .threadFork stackVa tls ctid => .threadFork stackVa tls ctid

lemma createThread_inv (hs : PoolInv s) {n : Creation} (hcreate : s.createThread n = some t) : PoolInv t ∧ Kept s t := by
  rcases bind_eq_some_iff.1 hcreate with ⟨i, hhead, hrest⟩
  rcases bind_eq_some_iff.1 hrest with ⟨kern, hcall, hret⟩
  cases hret
  have hstep : Threads.step id s.kern n.act = some kern := by
    cases n with
    | processCreate entryPoint => exact hcall
    | processFork => exact hcall
    | threadFork stackVa tls ctid => exact hcall
  rcases head?_eq_some_iff.1 hhead with ⟨rest, hfree⟩
  -- the list of a free structure is empty before `LIST_INIT`
  have hempty : s.waitingSignal i = [] := hs.idle i (hs.kern.balanced.not_used_thread hfree)
  refine ⟨hs.stay rfl ?_ (Threads.step_inv hs.kern hstep) ?_, .of_update (nil_subset _) rfl rfl⟩
  · show update s.waitingSignal i [] = s.waitingSignal
    rw [← hempty, update_eq_self]
  · intro j hj
    rcases move_used (Threads.step_moved hs.kern.partitioned hstep).move hj with h | ⟨_, h⟩
    · exact h
    · cases n with
      | processCreate entryPoint => cases h
      | processFork => cases h
      | threadFork stackVa tls ctid => cases h

lemma handleSignal_inv (hs : PoolInv s) (hsignal : s.handleSignal addrOf clock = some t) :
    PoolInv t ∧ Kept s t := by
  rcases bind_eq_some_iff.1 hsignal with ⟨i, hcur, hrest⟩
  split at hrest
  · -- a killed thread ends as in the other calls
    rename_i hkilled
    rcases bind_eq_some_iff.1 hrest with ⟨kern, hdestroy, hret⟩
    cases hret
    have hstep : Threads.step addrOf s.kern (.handleSignal clock) = some kern := by
      show Threads.handleSignal addrOf s.kern clock = some kern
      unfold Threads.handleSignal
      rw [hcur]
      simpa [hkilled] using hdestroy
    have hdestroys : destroys s.kern i (.handleSignal clock) = true := hkilled
    have hcall : s.otherCall addrOf (.handleSignal clock) = some { s.freeContexts i with kern := kern } := by
      unfold Pool.otherCall
      rw [hstep, hcur]
      simp [hdestroys]
    exact otherCall_inv hs hcall
  · rcases pool_handleLoop_spec hrest with ⟨hshift, hkept, frame, hkern⟩
    refine ⟨hs.shift (hs.kern.partitioned.mem_of_current hcur) hshift ?_ ?_, hkept⟩
    · rw [hkern]
      exact inv_setFrame hs hcur frame
    · intro j hj
      rw [hkern] at hj
      exact .inl hj

lemma syscallSignalReturn_inv (hs : PoolInv s) (hreturn : s.syscallSignalReturn = some t) :
    PoolInv t ∧ Kept s t := by
  rcases bind_eq_some_iff.1 hreturn with ⟨i, hcur, hrest⟩
  rcases bind_eq_some_iff.1 hrest with ⟨c, hfound, hret⟩
  dsimp only at hret
  split at hret
  · cases hret
  cases hret
  have hin : c ∈ s.waitingSignal i := mem_of_find?_eq_some hfound
  refine ⟨hs.shift (hs.kern.partitioned.mem_of_current hcur) ?_ (inv_setFrame hs hcur _) (fun j hj => .inl hj),
    .of_update erase_subset rfl rfl⟩
  have hsame : Shift i s ((s.setFrame (s.context c).contextRecover).setProcessing i
      (signalProcessEnd (s.context c).signal (s.processing i))) := Shift.refl rfl rfl
  exact hsame.trans (shift_signalFinish hin)

/-- The number that a call sends. -/
def PoolAct.sends : PoolAct → Option Nat
  | .call (.signalSend _ _ sig) => some sig
  | .call (.processSignalSend _ sig) => some sig
  | _ => none

/-- Nothing but a send brings a number into a list. -/
theorem poolStep_inv {a : PoolAct} (hs : PoolInv s) (hstep : poolStep addrOf s a = some t) :
    PoolInv t ∧ (a.sends = none → Kept s t) := by
  cases a with
  | call a =>
    cases a with
    | processCreate entryPoint => exact (createThread_inv hs hstep).imp_right fun h _ => h
    | processFork => exact (createThread_inv hs hstep).imp_right fun h _ => h
    | threadFork stackVa tls ctid => exact (createThread_inv hs hstep).imp_right fun h _ => h
    | signalSend tgid tid sig =>
      rcases map_eq_some_iff.1 hstep with ⟨⟨r, u⟩, hsend, rfl⟩
      exact ⟨signalSend_inv hs hsend, nofun⟩
    | processSignalSend pid sig =>
      rcases map_eq_some_iff.1 hstep with ⟨⟨r, u⟩, hsend, rfl⟩
      exact ⟨processSignalSend_inv hs hsend, nofun⟩
    | handleSignal clock => exact (handleSignal_inv hs hstep).imp_right fun h _ => h
    | _ => exact (otherCall_inv hs hstep).imp_right fun h _ => h
  | mask how newSet =>
    rcases map_eq_some_iff.1 hstep with ⟨i, _, rfl⟩
    exact ⟨hs.stay rfl rfl hs.kern fun _ hj => hj, fun _ => .refl rfl rfl⟩
  | action sig act =>
    rcases map_eq_some_iff.1 hstep with ⟨i, _, rfl⟩
    split
    · exact ⟨hs, fun _ => .refl rfl rfl⟩
    · exact ⟨hs.stay rfl rfl hs.kern fun _ hj => hj, fun _ => .refl rfl rfl⟩
  | sigreturn => exact (syscallSignalReturn_inv hs hstep).imp_right fun h _ => h

lemma poolBoot_inv (frames : Nat → Trapframe) (trapframe : Trapframe) : PoolInv (poolBoot frames trapframe) := by
  refine ⟨Threads.boot_inv frames trapframe, ?_, fun _ _ => rfl⟩
  intro c
  have hinit : signalInit = (List.range signalContextCount).reverse := by
    unfold signalInit
    rw [foldl_flip_cons_eq_append', append_nil]
  have hcount : signalInit.count c = if c < signalContextCount then 1 else 0 := by
    rw [hinit, count_reverse, nodup_range.count]
    simp
  show signalInit.count c + ∑ k ∈ Finset.range processTotalNumber, ([] : List Nat).count c = _
  rw [hcount]
  simp

/-- Each context is in the pool, once, or in the list of one thread in use, once. -/
def Pooled (s : Pool) : Prop :=
  ∀ c < signalContextCount,
    (s.freeSignalContextList.count c = 1 ∧ ∀ i, c ∉ s.waitingSignal i) ∨
    (c ∉ s.freeSignalContextList ∧ ∃ i ∈ s.kern.usedThreads,
      (s.waitingSignal i).count c = 1 ∧ ∀ j, j ≠ i → c ∉ s.waitingSignal j)

lemma PoolInv.pooled (hs : PoolInv s) : Pooled s := by
  -- a thread whose list is not empty is in use
  have hused : ∀ c i, c ∈ s.waitingSignal i → i ∈ s.kern.usedThreads := by
    intro c i hc
    by_contra hnot
    rw [hs.idle i hnot] at hc
    cases hc
  have hslot : ∀ c i, c ∈ s.waitingSignal i → i ∈ Finset.range processTotalNumber :=
    fun c i hc => Finset.mem_range.2 (used_lt hs (hused c i hc))
  intro c hc
  have hone := hs.once c
  rw [if_pos hc] at hone
  rcases total_eq_one hone with ⟨hfree, hnone⟩ | ⟨hfree, i, _, hcount, hothers⟩
  · exact .inl ⟨hfree, fun i hin => hnone i (hslot c i hin) hin⟩
  · have hin : c ∈ s.waitingSignal i := count_pos_iff.1 (by omega)
    exact .inr ⟨hfree, i, hused c i hin, hcount, fun j hj hjn => hothers j (hslot c j hjn) hj hjn⟩

lemma run_inv {acts : List PoolAct} {frames : Nat → Trapframe} {trapframe : Trapframe}
    (hrun : Run (fun s a t => poolStep addrOf s a = some t) (poolBoot frames trapframe) acts s) : PoolInv s :=
  hrun.invariant (poolBoot_inv frames trapframe) fun _ _ _ hs hstep => (poolStep_inv hs hstep).1

theorem contexts_pooled {acts : List PoolAct} {frames : Nat → Trapframe} {trapframe : Trapframe}
    (hrun : Run (fun s a t => poolStep addrOf s a = some t) (poolBoot frames trapframe) acts s) : Pooled s :=
  (run_inv hrun).pooled

/-- A handler for signal 10, none for 11: both are sent, then the thread returns to user mode. -/
def sendTwo : List PoolAct :=
  [.call (.processCreate 0), .call (.yield [0, 0]), .action 10 4096, .call (.signalSend 0 0 10),
    .call (.signalSend 0 0 11), .call (.handleSignal [])]

theorem contexts_pooled_two :
    ∃ s, Run (fun s a t => poolStep id s a = some t) (poolBoot (fun _ => default) default) sendTwo s ∧
      s.waitingSignal 0 = [4095] ∧ (s.context 4095).start = true ∧
      s.freeSignalContextList.head? = some 4094 ∧ Pooled s := by
  refine exists_run (P := fun s => s.waitingSignal 0 = [4095] ∧ (s.context 4095).start = true ∧
    s.freeSignalContextList.head? = some 4094) (by decide +kernel) ?_
  rintro s hrun ⟨hwaiting, hstart, hfree⟩
  exact ⟨hwaiting, hstart, hfree, contexts_pooled hrun⟩

/-! ## What one thread sees

The contexts that a thread holds are the list of `Signal.Model`. -/

def Pool.view (s : Pool) (i : Nat) (unfinished : List (Nat × Trapframe)) : State where
  waitingSignal := (s.waitingSignal i).map s.context
  blocked := s.blocked i
  processing := s.processing i
  killed := (s.kern.task i).killed
  trapframe := s.kern.hart.trapframe
  handler := s.handlers (s.kern.task i).process
  unfinished := unfinished

lemma erase_of_find? {p : Nat → Bool} (hfind : l.find? p = some c) : l.erase c = l.eraseP p := by
  induction l with
  | nil => cases hfind
  | cons a l ih =>
    by_cases ha : p a = true
    · rw [find?_cons_of_pos ha] at hfind
      cases hfind
      rw [erase_cons_head, eraseP_cons_of_pos ha]
    · rw [find?_cons_of_neg ha] at hfind
      have hne : a ≠ c := by
        rintro rfl
        exact ha (find?_some hfind)
      rw [erase_cons_tail (by simpa using hne), eraseP_cons_of_neg ha, ih hfind]

/-- Writing the context that `find?` finds, seen in the list of a thread. -/
theorem map_update_of_find? {q : SignalContext → Bool} {f : SignalContext → SignalContext}
    {context : Nat → SignalContext} (hnodup : l.Nodup)
    (hfind : l.find? (fun c => q (context c)) = some c) : l.map (update context c (f (context c))) =
      (l.map context).lookmap fun x => if q x then some (f x) else none := by
  induction l with
  | nil => cases hfind
  | cons a l ih =>
    rcases nodup_cons.1 hnodup with ⟨hnot, hnodup'⟩
    by_cases ha : q (context a) = true
    · rw [find?_cons_of_pos (by simpa using ha)] at hfind
      cases hfind
      -- the rest of the list does not hold this context
      have hrest : l.map (update context c (f (context c))) = l.map context := by
        refine map_congr_left fun x hx => update_of_ne ?_ _ _
        rintro rfl
        exact hnot hx
      rw [map_cons, map_cons, hrest, update_self]
      rw [lookmap_cons]
      simp only [if_pos ha]
    · rw [find?_cons_of_neg (by simpa using ha)] at hfind
      have hne : a ≠ c := by
        rintro rfl
        exact ha (find?_some (p := fun c => q (context c)) hfind)
      rw [map_cons, map_cons, update_of_ne hne, ih hnodup' hfind]
      rw [lookmap_cons]
      simp only [if_neg ha]

lemma firstReady_map (context : Nat → SignalContext) (b p : SignalSet) (l : List Nat) :
    firstReady id b p (l.map context) = (firstReady context b p l).map (Option.map context) := by
  induction l with
  | nil => rfl
  | cons c l ih =>
    simp only [map_cons, firstReady, id_eq, ih]
    split_ifs <;> rfl

lemma getFirstSignalContext_view : Signal.getFirstSignalContext (s.view i unfinished) =
    (s.getFirstSignalContext i).map (Option.map s.context) :=
  firstReady_map ..

lemma signalFinish_view (hfirst : s.getFirstSignalContext i = some (some c)) :
    (s.signalFinish i c).view i unfinished =
      Signal.signalFinish (s.view i unfinished) (ready (s.blocked i) (s.processing i)) := by
  have hlist : (update s.waitingSignal i ((s.waitingSignal i).erase c) i).map s.context =
      ((s.waitingSignal i).map s.context).eraseP (ready (s.blocked i) (s.processing i)) := by
    rw [update_self, eraseP_map, erase_of_find? (firstReady_eq hfirst)]
    rfl
  exact congrArg (fun l => { s.view i unfinished with waitingSignal := l }) hlist

lemma enterHandler_view (hnodup : (s.waitingSignal i).Nodup)
    (hfirst : s.getFirstSignalContext i = some (some c)) :
    (s.enterHandler i c).view i (((s.context c).signal, s.kern.hart.trapframe) :: unfinished) =
      Signal.enterHandler (s.view i unfinished) (s.context c) := by
  have hlist := map_update_of_find? (f := fun sc =>
    { sc with start := true, contextRecover := s.kern.hart.trapframe }) hnodup (firstReady_eq hfirst)
  rw [Pool.enterHandler_eq]
  unfold Signal.enterHandler Pool.view Pool.setFrame Pool.setProcessing Pool.setContext
  simp only [update_self]
  rw [hlist]

/-- The loop of `handleSignal` on the contexts of a thread is that of `Signal.Model` on what they hold. -/
theorem handleLoop_view (hnodup : (s.waitingSignal i).Nodup) (hloop : Pool.handleLoop i fuel s = some t) :
    ∃ unfinished', Signal.handleLoop fuel (s.view i unfinished) = some (t.view i unfinished') := by
  induction fuel generalizing s with
  | zero => cases hloop
  | succ fuel ih =>
    unfold Pool.handleLoop at hloop
    unfold Signal.handleLoop
    rw [getFirstSignalContext_view]
    split at hloop
    · cases hloop
    · rename_i hfirst
      rw [hfirst]
      cases hloop
      exact ⟨unfinished, rfl⟩
    · rename_i c hfirst
      rw [hfirst]
      dsimp only [Option.map_some]
      by_cases hstart : (s.context c).start = true
      · rw [if_pos hstart] at hloop ⊢
        cases hloop
        exact ⟨unfinished, rfl⟩
      · rw [if_neg hstart] at hloop ⊢
        by_cases hnull : s.handlers (s.kern.task i).process ((s.context c).signal - 1) = 0
        · rw [if_pos hnull] at hloop
          rw [if_pos (show (s.view i unfinished).handler _ = 0 from hnull)]
          have hrest : ((s.signalFinish i c).waitingSignal i).Nodup := by
            show (update s.waitingSignal i ((s.waitingSignal i).erase c) i).Nodup
            rw [update_self]
            exact hnodup.erase c
          rcases ih hrest hloop with ⟨unfinished', hview⟩
          rw [signalFinish_view hfirst] at hview
          exact ⟨unfinished', hview⟩
        · rw [if_neg hnull] at hloop
          rw [if_neg (show ¬(s.view i unfinished).handler _ = 0 from hnull)]
          cases hloop
          exact ⟨_, congrArg some (enterHandler_view hnodup hfirst).symm⟩

lemma PoolInv.nodup (hs : PoolInv s) : (s.waitingSignal i).Nodup := by
  by_cases hi : i ∈ s.kern.usedThreads
  · refine nodup_iff_count_le_one.2 fun c => ?_
    have h := hs.once c
    unfold total at h
    rw [sum_count_erase (Finset.mem_range.2 (used_lt hs hi))] at h
    split at h <;> omega
  · exact hs.idle i hi ▸ nodup_nil

end Signal
end OsRiscv
