import OsRiscv.Net.Tables

/-!
# Requests — each connection request is delivered once

`enqueued l` and `accepted l` are the requests that `connect` has put into the queue of socket `l` and
that `accept` has returned.  What was put in is what was returned and then what still waits, as long
as no `accept` has to give up after it has taken a request.
-/

namespace OsRiscv
namespace Net

open Function (update update_eq_self update_of_ne update_self)
open Lib

/-- The requests that wait at a socket, oldest first. -/
def queue (v : Socket) : List Request := window pendingCount v.pendingQueue v.pendingH v.pendingT

structure Delivered (n : Host) (l : Nat) : Prop where
  le : (n.socket l).pendingH ≤ (n.socket l).pendingT
  room : (n.socket l).pendingT ≤ (n.socket l).pendingH + pendingCount
  once : n.enqueued l = n.accepted l ++ queue (n.socket l)

/-! ## What the two calls are to do -/

/-- A `connect` that fails changes no socket and no file; one that succeeds puts the address of the
client at the end of the queue of a socket that listens at `addr`, and changes no other queue. -/
def ConnectOk (n : Host) (p : Nat) (fd : Int) (addr : SocketAddr) (i : Nat) : Prop :=
  wp (connect p fd addr)
    (fun r m =>
      if r < 0 then m.socket = n.socket ∧ m.files = n.files
      else ∃ l q, q.addr = (m.socket i).addr ∧ q.client = i ∧
        (m.socket l).listening = true ∧ (m.socket l).addr.port = addr.port ∧
        queue (m.socket l) = queue (n.socket l) ++ [q] ∧ m.enqueued l = n.enqueued l ++ [q] ∧
        ∀ k, k ≠ l → queue (m.socket k) = queue (n.socket k) ∧ m.enqueued k = n.enqueued k)
    (fun _ _ => False) n

/-- An `accept` that fails changes no socket and no file; one that succeeds returns the address of the
oldest request, takes this request from the queue, and changes no other socket in use. -/
def AcceptOk (n : Host) (p : Nat) (fd : Int) (l : Nat) : Prop :=
  wp (accept p fd)
    (fun r m =>
      if r.1 < 0 then m.socket = n.socket ∧ m.files = n.files
      else ∃ q, queue (n.socket l) = q :: queue (m.socket l) ∧ r.2 = some q.addr ∧
        m.accepted l = n.accepted l ++ [q] ∧
        ∀ k, k ≠ l → n.used k = true → m.socket k = n.socket k)
    (fun _ _ => False) n

/-! ## The conditions -/

/-- The client already has the addresses that `connect` is about to give it. -/
def Settled (n : Host) (i : Nat) (addr : SocketAddr) : Prop :=
  (n.socket i).addr = genLocalSocketAddr n.localPort ∧ (n.socket i).targetAddr = addr

/-- Some socket listens at the address and has room, or the client has nothing to lose. -/
def ConnectCond (n : Host) (i : Nat) (addr : SocketAddr) : Prop :=
  match remoteFindListeningSocket (setOut n i addr) addr with
  | none => Settled n i addr
  | some l =>
    if (n.socket l).pendingT - (n.socket l).pendingH = pendingCount then Settled n i addr
    else (n.socket l).pendingT ≠ 2 ^ 31 - 1

/-- Nothing waits, or a socket, a file and a descriptor are free. -/
def AcceptCond (n : Host) (p l : Nat) : Prop :=
  (n.socket l).pendingH = (n.socket l).pendingT ∨
    ((freeSocket n.files).isSome ∧ (freeFile n.files).isSome ∧ (freeFd n.files p).isSome)

def CallCond (n : Host) : Act → Prop
  | .connect p fd addr => ∀ i, Names n p fd i → ConnectCond n i addr
  | .accept p fd => ∀ l, Names n p fd l → AcceptCond n p l
  | _ => True

instance (n : Host) (i : Nat) (addr : SocketAddr) : Decidable (Settled n i addr) :=
  inferInstanceAs (Decidable (_ ∧ _))

instance (n : Host) (i : Nat) (addr : SocketAddr) : Decidable (ConnectCond n i addr) :=
  match h : remoteFindListeningSocket (setOut n i addr) addr with
  | none => decidable_of_iff (Settled n i addr) (by rw [ConnectCond, h])
  | some l => decidable_of_iff
      (if (n.socket l).pendingT - (n.socket l).pendingH = pendingCount then Settled n i addr
        else (n.socket l).pendingT ≠ 2 ^ 31 - 1) (by rw [ConnectCond, h])

instance (n : Host) (p l : Nat) : Decidable (AcceptCond n p l) := inferInstanceAs (Decidable (_ ∨ _))

instance (n : Host) : (a : Act) → Decidable (CallCond n a)
  | .connect _ _ _ => decidable_of_iff _ forall_names_iff.symm
  | .accept _ _ => decidable_of_iff _ forall_names_iff.symm
  | .socket _ _ | .bind _ _ _ | .listen _ _ | .close _ _ => .isTrue trivial

variable {n m : Host} {p i l s : Nat} {fd : Int} {addr : SocketAddr}

/-! ## Connecting -/

lemma setOut_ring (n : Host) (i : Nat) (addr : SocketAddr) (k : Nat) :
    ((setOut n i addr).socket k).pendingH = (n.socket k).pendingH ∧
      ((setOut n i addr).socket k).pendingT = (n.socket k).pendingT ∧
      ((setOut n i addr).socket k).pendingQueue = (n.socket k).pendingQueue :=
  ⟨apply_update_of_eq k, apply_update_of_eq k, apply_update_of_eq (f := Socket.pendingQueue) k⟩

lemma queue_setOut (n : Host) (i : Nat) (addr : SocketAddr) (k : Nat) :
    queue ((setOut n i addr).socket k) = queue (n.socket k) := by
  unfold queue
  rw [(setOut_ring n i addr k).1, (setOut_ring n i addr k).2.1, (setOut_ring n i addr k).2.2]

lemma setOut_socket_eq_iff : (setOut n i addr).socket = n.socket ↔ Settled n i addr := by
  constructor
  · intro h
    have hi : (setOut n i addr).socket i = n.socket i := congrFun h i
    have hself : (setOut n i addr).socket i =
        { n.socket i with addr := genLocalSocketAddr n.localPort, targetAddr := addr } :=
      update_self i _ _
    rw [hself] at hi
    exact ⟨(congrArg Socket.addr hi).symm, (congrArg Socket.targetAddr hi).symm⟩
  · rintro ⟨haddr, htarget⟩
    change update n.socket i _ = n.socket
    rw [← haddr, ← htarget]
    exact update_eq_self i n.socket

lemma queue_pushRequest {v : Socket} (q : Request) (hle : v.pendingH ≤ v.pendingT)
    (hroom : v.pendingT < v.pendingH + pendingCount) : queue (pushRequest v q) = queue v ++ [q] :=
  window_push q hle hroom

lemma listener_spec (h : remoteFindListeningSocket n addr = some l) :
    (n.socket l).listening = true ∧ (n.socket l).addr.port = addr.port := by
  have htest := List.find?_some h
  simp only [Bool.and_eq_true, beq_iff_eq] at htest
  exact ⟨htest.2, htest.1.2⟩

lemma connectOk_iff (hd : ∀ k, Delivered n k) (hi : Names n p fd i) :
    ConnectOk n p fd addr i ↔ ConnectCond n i addr := by
  unfold ConnectOk ConnectCond
  rw [wp_connect hi]
  cases hl : remoteFindListeningSocket (setOut n i addr) addr with
  | none =>
    rw [setOut_socket_eq_iff]
    exact and_iff_left rfl
  | some l =>
    dsimp only
    rw [(setOut_ring n i addr l).1, (setOut_ring n i addr l).2.1]
    by_cases hfull : (n.socket l).pendingT - (n.socket l).pendingH = pendingCount
    · simp only [if_pos hfull, Int.reduceNeg, Int.neg_neg_iff_pos, zero_lt_one, if_true]
      rw [setOut_socket_eq_iff]
      exact and_iff_left rfl
    · rw [if_neg hfull, if_neg hfull]
      by_cases hover : (n.socket l).pendingT = 2 ^ 31 - 1
      · rw [if_pos hover]
        exact ⟨False.elim, fun h => h hover⟩
      · rw [if_neg hover]
        refine iff_of_true ?_ hover
        have hle := (hd l).le
        have hroom := (hd l).room
        refine ⟨l, request (setOut n i addr) i, ?_, rfl, ?_, ?_, ?_, ?_, ?_⟩
        · by_cases hli : i = l
          · simp [enqueue, request, hli, pushRequest]
          · simp [enqueue, request, hli]
        · simpa [enqueue, pushRequest] using (listener_spec hl).1
        · simpa [enqueue, pushRequest] using (listener_spec hl).2
        · have hring := setOut_ring n i addr l
          rw [← queue_setOut n i addr l]
          change queue (update (setOut n i addr).socket l _ l) = _
          rw [update_self]
          exact queue_pushRequest _ (by omega) (by omega)
        · exact update_self l _ _
        · intro k hk
          rw [← queue_setOut n i addr k]
          exact ⟨congrArg queue (update_of_ne hk _ _), update_of_ne hk _ _⟩

/-! ## Accepting -/

lemma queue_eq_cons (hlt : (n.socket l).pendingH < (n.socket l).pendingT) : queue (n.socket l) =
      oldest n l :: queue { n.socket l with pendingH := (n.socket l).pendingH + 1 } :=
  window_pop hlt

lemma answered_socket (hls : l ≠ s) :
    (answered n l s).socket l = { n.socket l with pendingH := (n.socket l).pendingH + 1 } ∧
      ((answered n l s).socket s).pendingH = 0 ∧ ((answered n l s).socket s).pendingT = 0 ∧
      ∀ k, k ≠ l → k ≠ s → (answered n l s).socket k = n.socket k := by
  refine ⟨?_, ?_, ?_, ?_⟩
  · simp [answered, allocated, dequeue, hls]
  · simp [answered, allocated, cleared]
  · simp [answered, allocated, cleared]
  · intro k hkl hks
    simp [answered, allocated, dequeue, hkl, hks]

lemma acceptOk_iff (hused : n.used l = true) (hd : Delivered n l) (hl : Names n p fd l) :
    AcceptOk n p fd l ↔ AcceptCond n p l := by
  unfold AcceptOk AcceptCond
  rw [wp_accept hl]
  by_cases hidle : (n.socket l).pendingH = (n.socket l).pendingT
  · rw [if_pos hidle]
    exact iff_of_true ⟨rfl, rfl⟩ (.inl hidle)
  rw [if_neg hidle]
  cases hs : freeSocket n.files with
  | none => simp [hidle]
  | some s =>
    cases hf : freeFile n.files with
    | none => simp [hidle]
    | some f =>
      have hls := used_ne_free hused hs
      have hsocket := answered_socket (n := n) hls
      have hne := queue_eq_cons (Nat.lt_of_le_of_ne hd.le hidle)
      cases hfd : freeFd n.files p with
      | none =>
        -- the request is gone, and with it the queue as it was
        refine iff_of_false ?_ (by simp [hidle])
        rintro ⟨hsame, _⟩
        have hhead : (n.socket l).pendingH + 1 = (n.socket l).pendingH := by
          have hat : (answered n l s).socket l = n.socket l := congrFun hsame l
          rw [hsocket.1] at hat
          exact congrArg Socket.pendingH hat
        omega
      | some x =>
        refine iff_of_true ?_ (.inr ⟨rfl, rfl, rfl⟩)
        refine ⟨oldest n l, ?_, rfl, ?_, ?_⟩
        · rw [hne]
          congr 1
          exact (congrArg queue hsocket.1).symm
        · have hnonneg : 0 ≤ fdResult (some x) := by simp [fdResult]
          simp [noteAccept, hnonneg, answered, allocated, dequeue, hls]
        · intro k hkl hused
          exact hsocket.2.2.2 k hkl (used_ne_free hused hs)

/-! ## Whole runs -/

lemma Delivered.congr {k : Nat} (h : Delivered n k) (hhead : (m.socket k).pendingH = (n.socket k).pendingH)
    (htail : (m.socket k).pendingT = (n.socket k).pendingT)
    (hqueue : (m.socket k).pendingQueue = (n.socket k).pendingQueue)
    (hin : m.enqueued k = n.enqueued k) (hout : m.accepted k = n.accepted k) : Delivered m k := by
  refine ⟨?_, ?_, ?_⟩
  · rw [hhead, htail]
    exact h.le
  · rw [hhead, htail]
    exact h.room
  · unfold queue
    rw [hhead, htail, hqueue, hin, hout]
    exact h.once

lemma delivered_fresh {k : Nat} (hhead : (m.socket k).pendingH = 0)
    (htail : (m.socket k).pendingT = 0) (hin : m.enqueued k = []) (hout : m.accepted k = []) : Delivered m k := by
  refine ⟨by omega, by omega, ?_⟩
  unfold queue
  rw [hhead, htail, hin, hout, window_self]
  rfl

lemma delivered_setOut (h : ∀ k, Delivered n k) (i : Nat) (addr : SocketAddr) (k : Nat) :
    Delivered (setOut n i addr) k :=
  (h k).congr (setOut_ring n i addr k).1 (setOut_ring n i addr k).2.1 (setOut_ring n i addr k).2.2 rfl rfl

lemma delivered_enqueue (h : ∀ k, Delivered n k) {q : Request}
    (hroom : (n.socket l).pendingT - (n.socket l).pendingH ≠ pendingCount) (k : Nat) :
    Delivered (enqueue n l q) k := by
  by_cases hk : k = l
  · subst hk
    have hle := (h k).le
    have hfit := (h k).room
    have hsocket : (enqueue n k q).socket k = pushRequest (n.socket k) q :=
      update_self k _ _
    refine ⟨?_, ?_, ?_⟩
    · rw [hsocket]
      change (n.socket k).pendingH ≤ (n.socket k).pendingT + 1
      omega
    · rw [hsocket]
      change (n.socket k).pendingT + 1 ≤ (n.socket k).pendingH + pendingCount
      omega
    · rw [hsocket, queue_pushRequest q hle (by omega)]
      change update n.enqueued k (n.enqueued k ++ [q]) k = n.accepted k ++ _
      rw [update_self, (h k).once, List.append_assoc]
  · have hsocket : (enqueue n l q).socket k = n.socket k := update_of_ne hk _ _
    exact (h k).congr (by rw [hsocket]) (by rw [hsocket]) (by rw [hsocket])
      (update_of_ne hk _ _) rfl

lemma delivered_admitted (h : ∀ k, Delivered n k) (hls : l ≠ s)
    (hsome : (n.socket l).pendingH ≠ (n.socket l).pendingT) (hfd : (freeFd n.files p).isSome)
    (f k : Nat) : Delivered (admitted n p l s f) k := by
  have hsocket := answered_socket (n := n) hls
  have hnonneg : 0 ≤ fdResult (freeFd n.files p) := by
    rcases Option.isSome_iff_exists.1 hfd with ⟨x, hx⟩
    simp [hx, fdResult]
  have hin : (admitted n p l s f).enqueued k = if k = s then [] else n.enqueued k := by
    by_cases hks : k = s
    · simp [admitted, noteAccept, answered, allocated, dequeue, hks]
    · simp [admitted, noteAccept, answered, allocated, dequeue, hks]
  have hout : (admitted n p l s f).accepted k =
      if k = s then [] else if k = l then n.accepted l ++ [oldest n l] else n.accepted k := by
    by_cases hks : k = s
    · simp [admitted, noteAccept, answered, allocated, dequeue, hks, hnonneg, hls.symm]
    · by_cases hkl : k = l
      · simp [admitted, noteAccept, answered, allocated, dequeue, hnonneg, hkl, hls]
      · simp [admitted, noteAccept, answered, allocated, dequeue, hks, hnonneg, hkl]
  by_cases hks : k = s
  · rw [if_pos hks] at hin hout
    exact delivered_fresh (hks ▸ hsocket.2.1) (hks ▸ hsocket.2.2.1) hin hout
  · rw [if_neg hks] at hin hout
    by_cases hkl : k = l
    · subst hkl
      rw [if_pos rfl] at hout
      have hlt := Nat.lt_of_le_of_ne (h k).le hsome
      have hfit := (h k).room
      have hat : (admitted n p k s f).socket k =
          { n.socket k with pendingH := (n.socket k).pendingH + 1 } := hsocket.1
      refine ⟨?_, ?_, ?_⟩
      · rw [hat]
        change (n.socket k).pendingH + 1 ≤ (n.socket k).pendingT
        omega
      · rw [hat]
        change (n.socket k).pendingT ≤ (n.socket k).pendingH + 1 + pendingCount
        omega
      · rw [hin, hout, hat, (h k).once, queue_eq_cons hlt, List.append_assoc]
        rfl
    · rw [if_neg hkl] at hout
      have hat : (admitted n p l s f).socket k = n.socket k := hsocket.2.2.2 k hkl hks
      exact (h k).congr (by rw [hat]) (by rw [hat]) (by rw [hat]) hin hout

lemma Effect.delivered {a : Act} (he : Effect n a m) (ht : Tables n.files)
    (h : ∀ k, Delivered n k) (hcond : CallCond n a) : ∀ k, Delivered m k := by
  intro k
  cases he with
  | @create _ _ i f hi hf =>
    by_cases hk : k = i
    · refine delivered_fresh ?_ ?_ ?_ ?_
      · simp [created, hk]
      · simp [created, hk]
      · simp [created, allocated, hk]
      · simp [created, allocated, hk]
    · refine (h k).congr ?_ ?_ ?_ ?_ ?_
      · simp [created, allocated, hk]
      · simp [created, allocated, hk]
      · simp [created, allocated, hk]
      · simp [created, allocated, hk]
      · simp [created, allocated, hk]
  | bind | listen =>
    exact (h k).congr (apply_update_of_eq k) (apply_update_of_eq k) (apply_update_of_eq (f := Socket.pendingQueue) k) rfl rfl
  | refused hi => exact delivered_setOut h _ _ k
  | requested hi hl hroom => exact delivered_enqueue (delivered_setOut h _ _) hroom k
  | idle hl hnone => exact h k
  | @admitted _ _ l s f hl hsome hs hf =>
    have hls := used_ne_free (ht.used_of_names hl) hs
    rcases hcond l hl with hidle | ⟨_, _, hfd⟩
    · exact absurd hidle hsome
    · exact delivered_admitted h hls hsome hfd f k
  | notOpen => exact h k
  | closed hk => exact (h k).congr rfl rfl rfl rfl rfl

lemma run_delivered {as : List Act} (hrun : Run (fun n a m => CallCond n a ∧ step n a = some m) (boot p) as n) :
    Tables n.files ∧ ∀ l, Delivered n l := by
  refine hrun.invariant (P := fun n => Tables n.files ∧ ∀ l, Delivered n l) ?_ ?_
  · exact ⟨tables_boot p, fun l => delivered_fresh rfl rfl rfl rfl⟩
  · rintro n a m ⟨ht, hd⟩ ⟨hcond, hstep⟩
    have he := step_effect ht hstep
    exact ⟨he.tables ht, he.delivered ht hd hcond⟩

/-- In every run whose connecting and accepting calls meet the condition, each queue holds what was
enqueued and not yet accepted, in order, and at most `PENDING_COUNT` of it.  In a state so reached,
whatever other calls have made of files and descriptors, a further call does what it is to do exactly
if it meets the condition. -/
theorem requests_delivered_once_iff {as : List Act}
    (hrun : Run (fun n a m => CallCond n a ∧ step n a = some m) (boot p) as n) :
    (∀ l, n.enqueued l = n.accepted l ++ queue (n.socket l) ∧
      (queue (n.socket l)).length ≤ pendingCount) ∧
    (∀ q fd i, Names n q fd i → n.used i = true) ∧
    ∀ s : Files.Sys, (∀ q fd i, Names { n with files := s } q fd i → s.socketUsed i = true) →
      (∀ q fd addr i, Names { n with files := s } q fd i →
        (ConnectOk { n with files := s } q fd addr i ↔ ConnectCond { n with files := s } i addr)) ∧
      ∀ q fd l, Names { n with files := s } q fd l →
        (AcceptOk { n with files := s } q fd l ↔ AcceptCond { n with files := s } q l) := by
  rcases run_delivered hrun with ⟨ht, hd⟩
  refine ⟨?_, fun q fd i hi => ht.used_of_names hi, ?_⟩
  · intro l
    refine ⟨(hd l).once, ?_⟩
    unfold queue
    rw [length_window]
    have := (hd l).room
    omega
  · intro s hused
    -- the rings and the histories are not part of the file table
    have hd' : ∀ k, Delivered { n with files := s } k := fun k => (hd k).congr rfl rfl rfl rfl rfl
    exact ⟨fun q fd addr i hi => connectOk_iff hd' hi,
      fun q fd l hl => acceptOk_iff (hused q fd l hl) (hd' l) hl⟩

theorem requests_delivered_once_pair : ∃ n, Run (fun n a m => CallCond n a ∧ step n a = some m) (boot 0) pairActs n ∧
      (n.accepted 0).length = 1 ∧ n.enqueued 0 = n.accepted 0 ++ queue (n.socket 0) := by
  refine exists_run_guarded (P := fun n => (n.accepted 0).length = 1) (by decide +kernel) ?_
  intro n hrun hlen
  exact ⟨hlen, ((requests_delivered_once_iff hrun).1 0).1⟩

/-- Nobody listens at the address: `connect` fails, but the client has a new address and a new target. -/
theorem failed_connect_changes_client : ∃ n m, Run (fun n a m => step n a = some m) (boot 0) [.socket 0 2] n ∧
      connect 0 0 ⟨2, 80, 0⟩ n = .done (-1) m ∧
      (m.socket 0).addr ≠ (n.socket 0).addr ∧ (m.socket 0).targetAddr ≠ (n.socket 0).targetAddr ∧
      ¬ConnectOk n 0 0 ⟨2, 80, 0⟩ 0 := by
  rcases exists_of_any (o := runAll step (boot 0) [.socket 0 2]) (P := fun n =>
    (connect 0 0 ⟨2, 80, 0⟩ n).toOption.any (fun x => x.1 = -1 ∧ (x.2.socket 0).addr ≠ (n.socket 0).addr ∧
      (x.2.socket 0).targetAddr ≠ (n.socket 0).targetAddr) = true) (by decide +kernel) with ⟨n, hn, hview⟩
  rcases exists_of_any hview with ⟨⟨r, m⟩, hout, hr, haddr, htarget⟩
  obtain rfl : r = -1 := hr
  have hdone := eq_done_of_toOption hout
  refine ⟨n, m, run_of_runAll hn, hdone, haddr, htarget, ?_⟩
  intro hok
  have hpost := wp_done hok hdone
  exact haddr (by rw [hpost.1])

end Net
end OsRiscv
