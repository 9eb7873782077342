import OsRiscv.Signal.Pooled

/-!
# Sending — which arguments of `kill`, `tkill` and `tgkill` are safe

`signalSend` queues a context with whatever number it is given, and nothing else brings numbers into the lists.  So
what a later delivery finds are the numbers that wait now and those that are sent from now on.
-/

namespace OsRiscv
namespace Signal

open Lib List
open Function (update update_of_ne update_self)
open Option (bind_eq_some_iff map_eq_some_iff)
open Sched (Trapframe)
open Threads (Kern tid2Thread)

variable {s t u : Pool} {exist : Prop} {tgid tid sig pid i k c n m fuel : Nat} {r r₀ : Int} {addrOf : Nat → Nat}
  {a : PoolAct} {acts : List PoolAct} {frames : Nat → Trapframe} {trapframe : Trapframe} {call : Kernel (Int × Pool)}

/-! ## The numbers that wait -/

/-- A context with this number waits at the thread. -/
def Pool.Waits (s : Pool) (i k : Nat) : Prop := ∃ c ∈ s.waitingSignal i, (s.context c).signal = k

lemma Kept.waits (h : Kept s t) (hk : t.Waits i k) : s.Waits i k := by
  rcases hk with ⟨c, hc, rfl⟩
  exact ⟨c, h.waiting i hc, (h.signal c).symm⟩

/-! ## What a call does -/

/-- The thread that `tgid` and `tid` name -/
def Target (s : Pool) (tgid tid : Nat) : Prop :=
  ∃ i, tid2Thread s.kern tid = some i ∧ (tgid = 0 ∨ (s.kern.process (s.kern.task i).process).processId = tgid)

/-- `n` contexts with this number have been taken from the pool. -/
structure Queued (n sig : Nat) (s t : Pool) : Prop where
  free : s.freeSignalContextList.length = t.freeSignalContextList.length + n
  waits : ∀ i k, t.Waits i k → s.Waits i k ∨ k = sig % 256

def Outcome (s : Pool) (exist : Prop) (sig : Nat) (r₀ r : Int) (t : Pool) : Prop :=
  (¬exist ∧ r = r₀ ∧ t = s) ∨ (exist ∧ r = 0 ∧ ∃ n, Queued (n + 1) sig s t)

lemma Outcome.waits (h : Outcome s exist sig r₀ r t) (hk : t.Waits i k) : s.Waits i k ∨ k = sig % 256 := by
  rcases h with ⟨_, _, rfl⟩ | ⟨_, _, n, hq⟩
  · exact .inl hk
  · exact hq.waits i k hk

lemma signalSend_cases (h : s.signalSend tgid tid sig = some (r, t)) :
    (¬Target s tgid tid ∧ r = -3 ∧ t = s) ∨ (Target s tgid tid ∧ r = 0 ∧ Queued 1 sig s t ∧
      Threads.signalSend s.kern tgid tid sig = some t.kern) := by
  unfold Pool.signalSend at h
  split at h
  · cases h
  rcases bind_eq_some_iff.1 h with ⟨i, hfind, h⟩
  split at h
  · rename_i hother
    cases h
    refine .inl ⟨?_, rfl, rfl⟩
    rintro ⟨j, hj, hmine⟩
    cases hfind.symm.trans hj
    exact hmine.elim hother.1 hother.2
  · rcases bind_eq_some_iff.1 h with ⟨⟨c, u⟩, halloc, h⟩
    rcases bind_eq_some_iff.1 h with ⟨kern, hkern, h⟩
    cases h
    unfold Pool.signalContextAlloc at halloc
    split at halloc
    · cases halloc
    rename_i c rest hfree
    cases halloc
    refine .inr ⟨⟨i, hfind, by tauto⟩, rfl, ⟨by rw [hfree]; rfl, ?_⟩, hkern⟩
    rintro j k ⟨d, hd, rfl⟩
    by_cases hdc : d = c
    · exact .inr (by simp [hdc, Pool.setWaiting, Pool.setContext])
    · refine .inl ⟨d, ?_, by simp [hdc, Pool.setWaiting, Pool.setContext]⟩
      by_cases hj : j = i
      · subst hj
        simpa [Pool.setWaiting, Pool.setContext, hdc] using hd
      · simpa [Pool.setWaiting, Pool.setContext, hj] using hd

lemma signalSend_outcome (h : s.signalSend tgid tid sig = some (r, t)) :
    Outcome s (Target s tgid tid) sig (-3) r t := by
  rcases signalSend_cases h with hnone | ⟨htarget, hr, hq, _⟩
  · exact .inl hnone
  · exact .inr ⟨htarget, hr, 0, hq⟩

/-- The identifier is not -1, and names a thread. -/
def Sendable (s : Pool) (tid : Nat) : Prop := tid ≠ 2 ^ 32 - 1 ∧ (tid2Thread s.kern tid).isSome = true

lemma signalSend_isSome : (s.signalSend tgid tid sig).isSome = true ↔
    Sendable s tid ∧ (Target s tgid tid → s.freeSignalContextList ≠ []) := by
  unfold Pool.signalSend Sendable Target
  by_cases htid : tid = 2 ^ 32 - 1
  · simp [htid]
  cases hfind : tid2Thread s.kern tid with
  | none => simp
  | some i =>
    by_cases hother : tgid ≠ 0 ∧ (s.kern.process (s.kern.task i).process).processId ≠ tgid
    · simp [hother]
    · have hmine : tgid = 0 ∨ (s.kern.process (s.kern.task i).process).processId = tgid := by tauto
      cases hfree : s.freeSignalContextList with
      | nil => simp [Pool.signalContextAlloc, hother, hfree, hmine]
      | cons c rest =>
        by_cases hkill : sig = Threads.sigKill <;>
          simp [Pool.signalContextAlloc, Threads.signalSend, hfind, hother, hfree, hkill]

lemma target_of_sendable (h : Sendable s tid) : Target s 0 tid := by
  rcases Option.isSome_iff_exists.1 h.2 with ⟨i, hi⟩
  exact ⟨i, hi, .inl rfl⟩

lemma processSignalSend_outcome {l : List Nat} (h : l.foldlM (Pool.processSignalRound pid sig) (r₀, s) = some (r, t)) :
    Outcome s (∃ i ∈ l, s.Matches pid i) sig r₀ r t := by
  induction l generalizing s r₀ with
  | nil =>
    cases h
    exact .inl ⟨nofun, rfl, rfl⟩
  | cons i l ih =>
    rcases bind_eq_some_iff.1 h with ⟨⟨r₁, u⟩, hfirst, hrest⟩
    unfold Pool.processSignalRound at hfirst
    split at hfirst
    · rename_i hmatch
      rcases signalSend_cases hfirst with ⟨hno, _⟩ | ⟨_, rfl, hq, _⟩
      · have hsome := signalSend_isSome.1 (Option.isSome_iff_exists.2 ⟨_, hfirst⟩)
        exact absurd (target_of_sendable hsome.1) hno
      · refine .inr ⟨⟨i, mem_cons_self, hmatch⟩, ?_⟩
        rcases ih hrest with ⟨_, rfl, rfl⟩ | ⟨_, rfl, n, hq'⟩
        · exact ⟨rfl, 0, hq⟩
        · refine ⟨rfl, n + 1, by rw [hq.free, hq'.free]; omega, fun j k hk => ?_⟩
          exact (hq'.waits j k hk).elim (hq.waits j k) .inr
    · rename_i hmatch
      cases hfirst
      simpa [Outcome, hmatch] using ih hrest

/-! ## When `kill` completes -/

lemma signalSend_ids {s t : Kern} (hsend : Threads.signalSend s tgid tid sig = some t) :
    (∀ j, (t.task j).id = (s.task j).id) ∧ t.hart.currentThread = s.hart.currentThread := by
  rcases bind_eq_some_iff.1 hsend with ⟨i, _, hrest⟩
  split at hrest
  · cases hrest
    exact ⟨fun _ => rfl, rfl⟩
  · split at hrest
    · cases hrest
      refine ⟨fun j => ?_, rfl⟩
      by_cases hj : j = i
      · simp [Kern.setTask, Kern.setThread, hj]
      · simp [Kern.setTask, Kern.setThread, hj]
    · cases hrest
      exact ⟨fun _ => rfl, rfl⟩

/-- `SIGKILL` makes a thread runnable, so the identifiers name the threads that they named before. -/
theorem tid2Thread_signalSend {s t : Kern} (hs : Threads.Partitioned s)
    (hsend : Threads.signalSend s tgid tid sig = some t) (x : Nat) : tid2Thread t x = tid2Thread s x := by
  rcases Threads.signalSend_stay hs hsend with ⟨hledger, ht, _⟩
  rcases signalSend_ids hsend with ⟨hid, hcur⟩
  have hused : t.usedThreads = s.usedThreads := congrArg Threads.Ledger.usedThreads hledger
  have hstate : ∀ j, (t.hart.thread j).state = .unused ↔ (s.hart.thread j).state = .unused := by
    intro j
    by_cases hj : j ∈ s.usedThreads
    · exact iff_of_false (ht.ready.live j (hused ▸ hj)) (hs.ready.live j hj)
    · exact iff_of_true (ht.ready.idle j (hused ▸ hj)) (hs.ready.idle j hj)
  unfold tid2Thread
  simp only [hid, hcur, hstate]

/-- Every thread that `pid` matches can be sent to, and there is a context for each of them. -/
structure Room (s : Pool) (pid : Nat) (l : List Nat) : Prop where
  named : ∀ i ∈ l, s.Matches pid i → Sendable s (s.kern.task i).id
  free : (l.filter fun i => s.Matches pid i).length ≤ s.freeSignalContextList.length

lemma room_cons (hmatch : s.Matches pid i) {l : List Nat} (hledger : t.kern.ledger = s.kern.ledger)
    (hid : ∀ j, (t.kern.task j).id = (s.kern.task j).id) (htid : ∀ x, tid2Thread t.kern x = tid2Thread s.kern x)
    (hfree : s.freeSignalContextList.length = t.freeSignalContextList.length + 1) :
    Room s pid (i :: l) ↔ Sendable s (s.kern.task i).id ∧ Room t pid l := by
  have hhome : ∀ j, (t.kern.task j).process = (s.kern.task j).process :=
    congrFun (congrArg Threads.Ledger.home hledger)
  have hprocess : t.kern.process = s.kern.process := congrArg Threads.Ledger.process hledger
  have hmatches : ∀ j, t.Matches pid j ↔ s.Matches pid j := by
    intro j
    unfold Pool.Matches
    rw [hhome, hprocess]
  have hsendable : ∀ x, Sendable t x ↔ Sendable s x := fun x => by rw [Sendable, htid, Sendable]
  constructor
  · intro h
    refine ⟨h.named i mem_cons_self hmatch, fun j hj hm => ?_, ?_⟩
    · rw [hsendable, hid]
      exact h.named j (mem_cons_of_mem _ hj) ((hmatches j).1 hm)
    · have hle := h.free
      rw [filter_cons_of_pos (by simpa using hmatch), length_cons, hfree] at hle
      simpa only [hmatches] using Nat.le_of_succ_le_succ hle
  · rintro ⟨hi, h⟩
    refine ⟨forall_mem_cons.2 ⟨fun _ => hi, fun j hj hm => ?_⟩, ?_⟩
    · rw [← hsendable, ← hid]
      exact h.named j hj ((hmatches j).2 hm)
    · have hle := h.free
      simp only [hmatches] at hle
      rw [filter_cons_of_pos (by simpa using hmatch), length_cons, hfree]
      exact Nat.succ_le_succ hle

lemma processSignalSend_isSome (hs : PoolInv s) {l : List Nat} :
    (l.foldlM (Pool.processSignalRound pid sig) (r₀, s)).isSome = true ↔ Room s pid l := by
  induction l generalizing s r₀ with
  | nil => exact iff_of_true rfl ⟨nofun, Nat.zero_le _⟩
  | cons i l ih =>
    rw [foldlM_cons, Option.bind_eq_bind]
    by_cases hmatch : s.Matches pid i
    · rw [Pool.processSignalRound, if_pos hmatch]
      cases hcall : s.signalSend 0 (s.kern.task i).id sig with
      | none =>
        refine iff_of_false (by simp) fun hroom => ?_
        have hsend := hroom.named i mem_cons_self hmatch
        have hle := hroom.free
        rw [filter_cons_of_pos (by simpa using hmatch), length_cons] at hle
        have hsome : (s.signalSend 0 (s.kern.task i).id sig).isSome = true :=
          signalSend_isSome.2 ⟨hsend, fun _ => ne_nil_of_length_pos (by omega)⟩
        rw [hcall] at hsome
        cases hsome
      | some x =>
        rcases x with ⟨r, t⟩
        have hsend := (signalSend_isSome.1 (Option.isSome_iff_exists.2 ⟨_, hcall⟩)).1
        rcases signalSend_cases hcall with ⟨hno, _⟩ | ⟨_, _, hq, hkern⟩
        · exact absurd (target_of_sendable hsend) hno
        · rw [Option.bind_some, ih (signalSend_inv hs hcall)]
          rw [room_cons hmatch (Threads.signalSend_stay hs.kern.partitioned hkern).1 (signalSend_ids hkern).1
            (tid2Thread_signalSend hs.kern.partitioned hkern) hq.free]
          exact (and_iff_right hsend).symm
    · rw [Pool.processSignalRound, if_neg hmatch, Option.bind_some, ih hs]
      constructor
      · intro h
        refine ⟨forall_mem_cons.2 ⟨fun hm => absurd hm hmatch, h.named⟩, ?_⟩
        rw [filter_cons_of_neg (by simpa using hmatch)]
        exact h.free
      · intro h
        refine ⟨fun j hj => h.named j (mem_cons_of_mem _ hj), ?_⟩
        have hle := h.free
        rwa [filter_cons_of_neg (by simpa using hmatch)] at hle

/-! ## Later deliveries -/

lemma poolStep_waits (hs : PoolInv s) (hstep : poolStep addrOf s a = some t) (hk : t.Waits i k) :
    s.Waits i k ∨ ∃ sig ∈ a.sends, k = sig % 256 := by
  cases hsends : a.sends with
  | none => exact .inl (((poolStep_inv hs hstep).2 hsends).waits hk)
  | some sig =>
    unfold PoolAct.sends at hsends
    split at hsends
    · cases hsends
      rcases map_eq_some_iff.1 hstep with ⟨⟨r, u⟩, hsend, rfl⟩
      exact ((signalSend_outcome hsend).waits hk).imp_right fun h => ⟨sig, rfl, h⟩
    · cases hsends
      rcases map_eq_some_iff.1 hstep with ⟨⟨r, u⟩, hsend, rfl⟩
      exact ((processSignalSend_outcome hsend).waits hk).imp_right fun h => ⟨sig, rfl, h⟩
    · cases hsends

lemma valid_mod (h : Valid sig) : Valid (sig % 256) := by
  unfold Valid at h ⊢
  omega

/-- The numbers of signals stay the only ones that wait if no others are sent. -/
theorem run_valid (hrun : Run (fun s a t => poolStep addrOf s a = some t) s acts t)
    (hacts : ∀ a ∈ acts, ∀ sig ∈ a.sends, Valid sig) (hinv : PoolInv s) (hs : ∀ i k, s.Waits i k → Valid k) :
    ∀ i k, t.Waits i k → Valid k := by
  refine (hrun.invariant_of_forall (P := fun t => PoolInv t ∧ ∀ i k, t.Waits i k → Valid k) hacts ⟨hinv, hs⟩ ?_).2
  rintro u a v ha ⟨hinv, hu⟩ hstep
  refine ⟨(poolStep_inv hinv hstep).1, fun i k hk => ?_⟩
  rcases poolStep_waits hinv hstep hk with hold | ⟨sig, hsig, rfl⟩
  · exact hu i k hold
  · exact valid_mod (ha sig hsig)

/-- The loop of `handleSignal` comes to its end, and the number of the context that `syscallSignalReturn` finds has a
bit in the sets. -/
def Delivers (s : Pool) (i : Nat) : Prop :=
  (∀ fuel > (s.waitingSignal i).length, (Pool.handleLoop i fuel s).isSome = true) ∧
    ∀ c, s.getHandlingSignal i = some c → Valid (s.context c).signal

lemma delivers (h : ∀ i k, s.Waits i k → Valid k) (i : Nat) : Delivers s i :=
  ⟨fun _ hfuel => pool_handleLoop_isSome (fun c hc => h i _ ⟨c, hc, rfl⟩) hfuel,
    fun c hc => h i _ ⟨c, mem_of_find?_eq_some hc, rfl⟩⟩

/-- Without a target, or with a number that is no signal, the call has failed and nothing has changed, but 0 only asks
for the target.  If all that waited were signals, then every delivery to any thread is without a fault, however the
system goes on, if nothing but signals is sent. -/
structure Safe (addrOf : Nat → Nat) (s : Pool) (exist : Prop) (sig : Nat) (r : Int) (t : Pool) : Prop where
  refused : ¬(exist ∧ Valid sig) → t = s ∧ (r < 0 ∨ exist ∧ sig = 0)
  later : (∀ i k, s.Waits i k → Valid k) → ∀ acts u, (∀ a ∈ acts, ∀ sig ∈ a.sends, Valid sig) →
    Run (fun s a t => poolStep addrOf s a = some t) t acts u → ∀ i, Delivers u i

lemma safe_iff (hcall : ∀ r t, call = some (r, t) → Outcome s exist sig (-3) r t ∧ PoolInv t) :
    (∃ r t, call = some (r, t) ∧ Safe addrOf s exist sig r t) ↔ call.isSome = true ∧ (exist → Valid sig) := by
  constructor
  · rintro ⟨r, t, hsome, h⟩
    refine ⟨by rw [hsome]; rfl, fun hex => by_contra fun hsig => ?_⟩
    rcases (hcall r t hsome).1 with ⟨hno, _⟩ | ⟨_, _, n, hq⟩
    · exact hno hex
    · have hfree := hq.free
      rw [(h.refused fun hboth => hsig hboth.2).1] at hfree
      omega
  · rintro ⟨hsome, hvalid⟩
    rcases Option.isSome_iff_exists.1 hsome with ⟨⟨r, t⟩, hsome⟩
    rcases hcall r t hsome with ⟨hout, hinv⟩
    refine ⟨r, t, hsome, ?_, fun hs acts u hacts hrun => delivers (run_valid hrun hacts hinv fun i k hk => ?_)⟩
    · intro hno
      rcases hout with ⟨_, rfl, rfl⟩ | ⟨hex, _⟩
      · exact ⟨rfl, .inl (by decide)⟩
      · exact absurd ⟨hex, hvalid hex⟩ hno
    · rcases hout with ⟨_, _, rfl⟩ | ⟨hex, _, n, hq⟩
      · exact hs i k hk
      · rcases hq.waits i k hk with hold | rfl
        · exact hs i k hold
        · exact valid_mod (hvalid hex)

/-- A process whose only thread runs. -/
def oneThread : List PoolAct := [.call (.processCreate 0), .call (.yield [0, 0])]

end Signal
end OsRiscv
