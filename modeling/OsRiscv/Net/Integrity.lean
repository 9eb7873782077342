import OsRiscv.Lib.FirstMatch
import OsRiscv.Net.Stream

/-!
# Integrity — sending and receiving between two connected sockets, over whole runs

`sent` and `received` are histories: for each receiving socket, the bytes that the sending calls have
reported as sent to it, and the bytes that its owner has received.
-/

namespace OsRiscv
namespace Net

open Function (update update_of_ne update_self)
open Lib List

structure Stream where
  net : Host
  sent : Nat → List UInt8
  received : Nat → List UInt8

inductive StreamAct
  /-- `sendTo` of a whole buffer -/
  | send (x : Nat) (buf : List UInt8)
  | receive (x len : Nat)

def streamStep (s : Stream) : StreamAct → Option Stream
  | .send x buf =>
    match sendTo x buf buf.length s.net with
    | .done (some r) n =>
      match remoteFindPeerSocket s.net x with
      | some j => some { s with net := n, sent := update s.sent j (s.sent j ++ buf.take r) }
      | none => none
    | .done none n => some { s with net := n }
    | .panic _ _ => none
  | .receive x len =>
    match receiveFrom x len s.net with
    | .done (some bytes) n =>
      some { s with net := n, received := update s.received x (s.received x ++ bytes) }
    | .done none n => some { s with net := n }
    | .panic _ _ => none

/-- Each of the two sockets is the peer that the other one finds. -/
structure Connected (n : Host) (a b : Nat) : Prop where
  left : remoteFindPeerSocket n a = some b
  right : remoteFindPeerSocket n b = some a

/-- The calls of the owners of `a` and `b`, with lengths from 1 to `PAGE_SIZE - 1`. -/
def StreamAct.Between (a b : Nat) : StreamAct → Prop
  | .send x buf => (x = a ∨ x = b) ∧ 1 ≤ buf.length ∧ buf.length < pageSize
  | .receive x len => (x = a ∨ x = b) ∧ 1 ≤ len ∧ len < pageSize

/-- The two pieces of the buffer that go to `v` end in their zero bytes, and `tail` does not wrap. -/
structure CleanPush (v : Socket) (buf : List UInt8) (num : Nat) : Prop where
  first : ZerosLast (buf.take (untilEnd v.tail num))
  second : ZerosLast ((buf.drop (untilEnd v.tail num)).take (num - untilEnd v.tail num))
  small : v.tail + num < 2 ^ 64

instance (v : Socket) (buf : List UInt8) (num : Nat) : Decidable (CleanPush v buf num) :=
  decidable_of_iff (ZerosLast (buf.take (untilEnd v.tail num)) ∧
      ZerosLast ((buf.drop (untilEnd v.tail num)).take (num - untilEnd v.tail num)) ∧
      v.tail + num < 2 ^ 64)
    ⟨fun h => ⟨h.1, h.2.1, h.2.2⟩, fun h => ⟨h.first, h.second, h.small⟩⟩

/-- The condition on a call. -/
def Clean (s : Stream) : StreamAct → Prop
  | .send x buf => ∀ j, remoteFindPeerSocket s.net x = some j →
      CleanPush (s.net.socket j) buf (sendNum (s.net.socket j) buf.length)
  | .receive _ _ => True

/-- What is to hold of a receiving socket. -/
structure Good (s : Stream) (x : Nat) : Prop where
  le : (s.net.socket x).head ≤ (s.net.socket x).tail
  room : (s.net.socket x).tail ≤ (s.net.socket x).head + pageSize
  bytes : s.received x <+: s.sent x

/-! ## One call -/

variable {s t u : Stream} {a b x j : Nat} {buf : List UInt8} {len : Nat}

lemma remoteFindPeerSocket_setSocket {n : Host} {w : Socket} (haddr : w.addr = (n.socket j).addr)
    (htarget : w.targetAddr = (n.socket j).targetAddr) (x : Nat) :
    remoteFindPeerSocket { n with socket := update n.socket j w } x =
      remoteFindPeerSocket n x := by
  have hpart : ∀ i, (update n.socket j w i).addr = (n.socket i).addr ∧
      (update n.socket j w i).targetAddr = (n.socket i).targetAddr := by
    intro i
    by_cases hij : i = j
    · simp [hij, haddr, htarget]
    · simp [hij]
  unfold remoteFindPeerSocket
  simp only [isPeer, hpart]
  rfl

/-- The state after `num` bytes of a buffer have been sent to `j`. -/
def afterSend (s : Stream) (j : Nat) (buf : List UInt8) (num : Nat) : Stream where
  net := { s.net with
    socket := update s.net.socket j (pushBytes (s.net.socket j) buf num) }
  sent := update s.sent j (s.sent j ++ buf.take num)
  received := s.received

lemma streamStep_send (hj : remoteFindPeerSocket s.net x = some j) : streamStep s (.send x buf) = some (
      if sendNum (s.net.socket j) buf.length = 0 then s
      else afterSend s j buf (sendNum (s.net.socket j) buf.length)) := by
  have hcall : sendTo x buf buf.length s.net =
      if sendNum (s.net.socket j) buf.length = 0 then Outcome.done none s.net
      else Outcome.done (some (sendNum (s.net.socket j) buf.length))
        (afterSend s j buf (sendNum (s.net.socket j) buf.length)).net := by
    unfold sendTo
    show Call.bind Call.get _ s.net = _
    unfold Call.bind Call.get
    dsimp only
    rw [hj]
    dsimp only
    split
    · rfl
    · rfl
  unfold streamStep
  dsimp only
  rw [hcall]
  by_cases hzero : sendNum (s.net.socket j) buf.length = 0
  · rw [if_pos hzero, if_pos hzero]
  · rw [if_neg hzero, if_neg hzero]
    rw [hj]
    rfl

/-- The state after `num` bytes have been received at `x`. -/
def afterReceive (s : Stream) (x num : Nat) : Stream where
  net := { s.net with
    socket := update s.net.socket x
      { s.net.socket x with head := ((s.net.socket x).head + num) % 2 ^ 64 } }
  sent := s.sent
  received := update s.received x (s.received x ++ pulledBytes (s.net.socket x) num)

lemma streamStep_receive (s : Stream) (x len : Nat) : streamStep s (.receive x len) = some (
      if receiveNum (s.net.socket x) len = 0 then s
      else afterReceive s x (receiveNum (s.net.socket x) len)) := by
  have hcall : receiveFrom x len s.net =
      if receiveNum (s.net.socket x) len = 0 then Outcome.done none s.net
      else Outcome.done (some (pulledBytes (s.net.socket x) (receiveNum (s.net.socket x) len)))
        (afterReceive s x (receiveNum (s.net.socket x) len)).net := by
    change (if receiveNum (s.net.socket x) len = 0 then (pure none : NCall (Option (List UInt8)))
      else _) s.net = _
    split
    · rfl
    · rfl
  unfold streamStep
  dsimp only
  rw [hcall]
  by_cases hzero : receiveNum (s.net.socket x) len = 0
  · rw [if_pos hzero, if_pos hzero]
  · rw [if_neg hzero, if_neg hzero]
    rfl

lemma Connected.afterSend (h : Connected s.net a b) (j : Nat) (buf : List UInt8) (num : Nat) :
    Connected (Net.afterSend s j buf num).net a b := by
  have hfind := fun i => remoteFindPeerSocket_setSocket
    (w := pushBytes (s.net.socket j) buf num) pushBytes_addr pushBytes_targetAddr i
  exact ⟨(hfind a).trans h.left, (hfind b).trans h.right⟩

lemma Connected.afterReceive (h : Connected s.net a b) (x num : Nat) :
    Connected (Net.afterReceive s x num).net a b := by
  unfold Net.afterReceive
  generalize ((s.net.socket x).head + num) % 2 ^ 64 = head
  have hfind := fun i => remoteFindPeerSocket_setSocket
    (w := { s.net.socket x with head := head }) rfl rfl i
  exact ⟨(hfind a).trans h.left, (hfind b).trans h.right⟩

/-! ## What the ring page carries -/

/-- What was received at `x` and what is in its page, together, are `l`. -/
structure Carries (s : Stream) (x : Nat) (l : List UInt8) : Prop where
  sized : Sized (s.net.socket x)
  bytes : s.received x ++ queued (s.net.socket x) = l

variable {l : List UInt8} {num : Nat} {v : Socket}

lemma Carries.good (h : Carries s x (s.sent x)) : Good s x :=
  ⟨h.sized.le, h.sized.room, ⟨_, h.bytes⟩⟩

lemma Carries.afterReceive (h : Carries s x l) (hnum : num ≤ (s.net.socket x).tail - (s.net.socket x).head) :
    Carries (Net.afterReceive s x num) x l ∧
      (queued ((Net.afterReceive s x num).net.socket x)).length =
        (queued (s.net.socket x)).length - num := by
  have hv := h.sized
  have hle := hv.le
  have hroom := hv.room
  have hsmall := hv.small
  have hhead : ((s.net.socket x).head + num) % 2 ^ 64 = (s.net.socket x).head + num :=
    Nat.mod_eq_of_lt (by omega)
  have hqueue : queued ((Net.afterReceive s x num).net.socket x) =
      window pageSize (s.net.socket x).buffer ((s.net.socket x).head + num)
        (s.net.socket x).tail := by
    simp only [queued, Net.afterReceive, update_self, hhead]
  refine ⟨⟨⟨?_, ?_, ?_⟩, ?_⟩, ?_⟩
  · simp only [Net.afterReceive, update_self, hhead]
    omega
  · simp only [Net.afterReceive, update_self, hhead]
    omega
  · simpa only [Net.afterReceive, update_self] using hsmall
  · rw [hqueue, ← h.bytes, queued]
    simp only [Net.afterReceive, update_self]
    rw [pulledBytes_eq _ (by omega), append_assoc,
      ← window_split (Nat.le_add_right _ num) (by omega)]
  · rw [hqueue, queued, length_window, length_window]
    omega

lemma Carries.afterReceive_of_ne {y : Nat} (h : Carries s y l) (hxy : y ≠ x) :
    Carries (Net.afterReceive s x num) y l := by
  constructor
  · simpa only [Net.afterReceive, update_of_ne hxy] using h.sized
  · simpa only [Net.afterReceive, update_of_ne hxy] using h.bytes

/-- A send adds what `strncpy` stores. -/
theorem Carries.afterSend (h : Carries s j l) (buf : List UInt8)
    (hnum : num ≤ pageSize - ((s.net.socket j).tail - (s.net.socket j).head))
    (hsmall : (s.net.socket j).tail + num < 2 ^ 64) :
    Carries (Net.afterSend s j buf num) j (l ++ stored (s.net.socket j) buf num) := by
  have hle := h.sized.le
  have hroom := h.sized.room
  have htail : ((s.net.socket j).tail + num) % 2 ^ 64 = (s.net.socket j).tail + num :=
    Nat.mod_eq_of_lt hsmall
  have hpushed : ((Net.afterSend s j buf num).net.socket j) =
      pushBytes (s.net.socket j) buf num := by
    simp only [Net.afterSend, update_self]
  have hcounters : (pushBytes (s.net.socket j) buf num).head = (s.net.socket j).head ∧
      (pushBytes (s.net.socket j) buf num).tail = (s.net.socket j).tail + num :=
    ⟨pushBytes_head, pushBytes_tail.trans htail⟩
  refine ⟨?_, ?_⟩
  · rw [hpushed]
    exact ⟨by omega, by omega, by omega⟩
  · rw [hpushed, queued, hcounters.1, hcounters.2, window_pushBytes hle (by omega), ← h.bytes,
      append_assoc]
    rfl

lemma Carries.afterSend_of_ne {y : Nat} (h : Carries s y l) (hyj : y ≠ j) :
    Carries (Net.afterSend s j buf num) y l := by
  constructor
  · simpa only [Net.afterSend, update_of_ne hyj] using h.sized
  · simpa only [Net.afterSend, update_of_ne hyj] using h.bytes

lemma stored_eq_take_iff (hnum : num ≤ buf.length) :
    stored v buf num = buf.take num ↔ ZerosLast (buf.take (untilEnd v.tail num)) ∧
      ZerosLast ((buf.drop (untilEnd v.tail num)).take (num - untilEnd v.tail num)) := by
  have hle : untilEnd v.tail num ≤ num := Nat.min_le_left _ _
  unfold stored
  set len1 := untilEnd v.tail num
  have hsplit : buf.take num = buf.take len1 ++ (buf.drop len1).take (num - len1) := by
    rw [← take_add]
    congr 1
    omega
  have hlen : (strncpy buf len1).length = (buf.take len1).length := by
    rw [length_strncpy, length_take]
    omega
  rw [hsplit, ← strncpy_eq_take_iff (by omega),
    ← strncpy_eq_take_iff (by rw [length_drop]; omega)]
  constructor
  · intro heq
    exact append_inj heq hlen
  · rintro ⟨hfirst, hsecond⟩
    rw [hfirst, hsecond]

/-! ## Runs -/

/-- The invariant of clean runs: the page carries on what was sent. -/
structure Inv (a b : Nat) (s : Stream) : Prop where
  connected : Connected s.net a b
  carries : ∀ x, x = a ∨ x = b → Carries s x (s.sent x)

lemma Connected.peer {n : Host} (h : Connected n a b) (hx : x = a ∨ x = b) :
    ∃ j, (j = a ∨ j = b) ∧ remoteFindPeerSocket n x = some j := by
  rcases hx with rfl | rfl
  · exact ⟨b, .inr rfl, h.left⟩
  · exact ⟨a, .inl rfl, h.right⟩

lemma Inv.receive (h : Inv a b s) (hx : x = a ∨ x = b)
    (ht : streamStep s (.receive x len) = some t) : Inv a b t := by
  rw [streamStep_receive] at ht
  cases ht
  split
  · exact h
  · have hnum : receiveNum (s.net.socket x) len ≤
        (s.net.socket x).tail - (s.net.socket x).head := by
      rw [receiveNum_eq (h.carries x hx).sized]
      exact Nat.min_le_right _ _
    refine ⟨h.connected.afterReceive x _, ?_⟩
    intro y hy
    by_cases hyx : y = x
    · subst hyx
      exact ((h.carries y hy).afterReceive hnum).1
    · exact (h.carries y hy).afterReceive_of_ne hyx

lemma Inv.send (h : Inv a b s) (hx : x = a ∨ x = b) (hclean : Clean s (.send x buf))
    (ht : streamStep s (.send x buf) = some t) : Inv a b t := by
  rcases h.connected.peer hx with ⟨j, hj, hpeer⟩
  rw [streamStep_send hpeer] at ht
  cases ht
  split
  · exact h
  · have hc := h.carries j hj
    have hpush := hclean j hpeer
    have hnum := sendNum_eq hc.sized buf.length
    generalize sendNum (s.net.socket j) buf.length = num at hpush hnum ⊢
    refine ⟨h.connected.afterSend j buf num, ?_⟩
    intro y hy
    by_cases hyj : y = j
    · have hcarry := hc.afterSend buf (by omega) hpush.small
      rw [(stored_eq_take_iff (by omega)).2 ⟨hpush.first, hpush.second⟩] at hcarry
      rw [hyj]
      simpa only [afterSend, update_self] using hcarry
    · have hcarry : Carries (afterSend s j buf num) y (s.sent y) :=
        (h.carries y hy).afterSend_of_ne hyj
      simpa only [afterSend, update_of_ne hyj] using hcarry

lemma Inv.step {act : StreamAct} (h : Inv a b s) (hact : act.Between a b) (hclean : Clean s act)
    (ht : streamStep s act = some t) : Inv a b t := by
  cases act with
  | send x buf => exact h.send hact.1 hclean ht
  | receive x len => exact h.receive hact.1 ht

def StreamAct.IsReceive : StreamAct → Prop
  | .send _ _ => False
  | .receive _ _ => True

/-- A receive at `j` takes what fits. -/
theorem receive_carries (h : Carries s j l) (len : Nat) :
    ∃ t, streamStep s (.receive j len) = some t ∧ Carries t j l ∧ t.sent = s.sent ∧
      (queued (t.net.socket j)).length ≤ (queued (s.net.socket j)).length - len := by
  have hnum := receiveNum_eq h.sized len
  have hlen : (queued (s.net.socket j)).length = (s.net.socket j).tail - (s.net.socket j).head :=
    length_window _ _ _ _
  refine ⟨_, streamStep_receive s j len, ?_⟩
  generalize receiveNum (s.net.socket j) len = num at hnum ⊢
  split
  · next hzero =>
      refine ⟨h, rfl, ?_⟩
      omega
  · have hfits : num ≤ (s.net.socket j).tail - (s.net.socket j).head := by omega
    rcases h.afterReceive hfits with ⟨hcarries, hqueue⟩
    refine ⟨hcarries, rfl, ?_⟩
    omega

lemma drain (h : Carries s j l) :
    ∃ u, Run (fun s act t => streamStep s act = some t) s [.receive j 4095, .receive j 4095] u ∧
      u.received j = l ∧ u.sent = s.sent := by
  have hlen : (queued (s.net.socket j)).length ≤ pageSize := by
    rw [queued, length_window]
    have := h.sized.room
    omega
  rcases receive_carries h 4095 with ⟨t, ht, hcarries, hsent, hleft⟩
  rcases receive_carries hcarries 4095 with ⟨u, hu, hcarries', hsent', hleft'⟩
  have hnil : queued (u.net.socket j) = [] := by
    apply length_eq_zero_iff.1
    unfold pageSize at hlen
    omega
  refine ⟨u, .cons ht (.cons hu (.nil u)), ?_, hsent'.trans hsent⟩
  have hbytes := hcarries'.bytes
  rwa [hnil, append_nil] at hbytes

/-- If the bytes of every later receive are right, the call was clean. -/
theorem clean_of_good {t : Stream} (h : Inv a b s) (hj : j = a ∨ j = b)
    (hpeer : remoteFindPeerSocket s.net x = some j) (hstep : streamStep s (.send x buf) = some t)
    (hbetween : (StreamAct.receive j 4095).Between a b)
    (hgood : ∀ acts u, (∀ act ∈ acts, act.Between a b ∧ act.IsReceive) →
      Run (fun s act t => streamStep s act = some t) t acts u → Good u j) :
    CleanPush (s.net.socket j) buf (sendNum (s.net.socket j) buf.length) := by
  have hc := h.carries j hj
  have hnum := sendNum_eq hc.sized buf.length
  rw [streamStep_send hpeer] at hstep
  generalize sendNum (s.net.socket j) buf.length = num at hnum hstep ⊢
  have hroom := hc.sized.room
  have hsmall := hc.sized.small
  by_cases hzero : num = 0
  · -- nothing was sent
    subst hzero
    exact ⟨by simp [untilEnd, ZerosLast], by simp [untilEnd, ZerosLast], by omega⟩
  rw [if_neg hzero] at hstep
  cases hstep
  have hnowrap : (s.net.socket j).tail + num < 2 ^ 64 := by
    have hnow := (hgood [] _ (by simp) (.nil _)).le
    have hcounters : ((afterSend s j buf num).net.socket j).head = (s.net.socket j).head ∧
        ((afterSend s j buf num).net.socket j).tail = ((s.net.socket j).tail + num) % 2 ^ 64 := by
      simp only [afterSend, update_self]
      exact ⟨pushBytes_head, pushBytes_tail⟩
    unfold pageSize at hnum hroom
    omega
  have hcarry := hc.afterSend buf (by omega) hnowrap
  rcases drain hcarry with ⟨u, hrun, hreceived, hsent⟩
  have hprefix := (hgood _ u (by simp [hbetween, StreamAct.IsReceive]) hrun).bytes
  have hsentj : (afterSend s j buf num).sent j = s.sent j ++ buf.take num := by
    simp only [afterSend, update_self]
  rw [hreceived, hsent, hsentj, prefix_append_right_inj] at hprefix
  -- a prefix of the same length is the whole
  have heq : stored (s.net.socket j) buf num = buf.take num := by
    apply hprefix.eq_of_length
    rw [length_stored, length_take]
    omega
  rcases (stored_eq_take_iff (by omega)).1 heq with ⟨hfirst, hsecond⟩
  exact ⟨hfirst, hsecond, hnowrap⟩

/-- Two connected sockets with empty pages.  After every sequence of clean calls the counters and the
received bytes are right at both; and a further send keeps them right through all later receives
exactly when it is clean: nothing but zeros follows a zero byte in either of the two pieces written,
and `tail` does not wrap. -/
theorem stream_integrity_iff {s₀ : Stream} {acts : List StreamAct} (hconn : Connected s₀.net a b)
    (hfresh : ∀ x, x = a ∨ x = b → (s₀.net.socket x).head = 0 ∧ (s₀.net.socket x).tail = 0 ∧
      s₀.sent x = [] ∧ s₀.received x = [])
    (hbetween : ∀ act ∈ acts, act.Between a b)
    (hrun : Run (fun s act t => Clean s act ∧ streamStep s act = some t) s₀ acts s) :
    (∀ x, x = a ∨ x = b → Good s x) ∧
    ∀ x buf t, (StreamAct.send x buf).Between a b → streamStep s (.send x buf) = some t →
      ((∀ acts' u, (∀ act ∈ acts', act.Between a b ∧ act.IsReceive) →
        Run (fun s act t => streamStep s act = some t) t acts' u →
        ∀ y, y = a ∨ y = b → Good u y) ↔ Clean s (.send x buf)) := by
  have hinit : Inv a b s₀ := by
    refine ⟨hconn, ?_⟩
    intro x hx
    rcases hfresh x hx with ⟨hhead, htail, hsent, hreceived⟩
    refine ⟨⟨by omega, by omega, by omega⟩, ?_⟩
    rw [hsent, hreceived, queued, hhead, htail, window_self]
    rfl
  have hinv : Inv a b s := hrun.invariant_of_forall hbetween hinit
    fun _ _ _ hact hs hstep => hs.step hact hstep.1 hstep.2
  refine ⟨fun x hx => (hinv.carries x hx).good, ?_⟩
  intro x buf t hact hstep
  constructor
  · intro hgood j hpeer
    rcases hinv.connected.peer hact.1 with ⟨k, hk, hpeer'⟩
    have hjk : k = j := Option.some.inj (hpeer'.symm.trans hpeer)
    subst hjk
    exact clean_of_good hinv hk hpeer hstep ⟨hk, by decide, by decide⟩
      fun acts' u hacts hrun' => hgood acts' u hacts hrun' k hk
  · intro hclean acts' u hacts hrun' y hy
    have hu : Inv a b u := by
      refine hrun'.invariant_of_forall hacts
        (hinv.send hact.1 hclean hstep) ?_
      intro v act w hreceive hv hstep'
      refine hv.step hreceive.1 ?_ hstep'
      cases act with
      | send => exact hreceive.2.elim
      | receive => trivial
    exact (hu.carries y hy).good

/-- Before the first byte. -/
def start (n : Host) : Stream := { net := n, sent := fun _ => [], received := fun _ => [] }

lemma pairActs_connected : ∃ n, Run (fun n a m => step n a = some m) (boot 0) pairActs n ∧ Connected n 1 2 ∧
      (∀ x, x = 1 ∨ x = 2 → (n.socket x).head = 0 ∧ (n.socket x).tail = 0) ∧
      CleanPush (n.socket 2) [104, 105] (sendNum (n.socket 2) 2) ∧
      (runAll streamStep (start n) [.send 1 [0, 1], .receive 2 10]).map
        (fun s => (s.sent 2, s.received 2)) = some ([0, 1], [0, 0]) := by
  refine exists_run (P := fun n => remoteFindPeerSocket n 1 = some 2 ∧ remoteFindPeerSocket n 2 = some 1 ∧
    ((n.socket 1).head = 0 ∧ (n.socket 1).tail = 0) ∧ ((n.socket 2).head = 0 ∧ (n.socket 2).tail = 0) ∧
    CleanPush (n.socket 2) [104, 105] (sendNum (n.socket 2) 2) ∧
    (runAll streamStep (start n) [.send 1 [0, 1], .receive 2 10]).map
      (fun s => (s.sent 2, s.received 2)) = some ([0, 1], [0, 0])) (by decide +kernel) ?_
  rintro n _ ⟨hleft, hright, hfirst, hsecond, hclean, hbytes⟩
  refine ⟨⟨hleft, hright⟩, ?_, hclean, hbytes⟩
  rintro x (rfl | rfl)
  · exact hfirst
  · exact hsecond

theorem stream_integrity_greeting :
    ∃ n s, Run (fun n a m => step n a = some m) (boot 0) pairActs n ∧ Connected n 1 2 ∧
      streamStep (start n) (.send 1 [104, 105]) = some s ∧ Good s 2 := by
  rcases pairActs_connected with ⟨n, hn, hconn, hzero, hclean, _⟩
  have hstep : streamStep (start n) (.send 1 [104, 105]) = some _ := streamStep_send hconn.left
  have hsend : Clean (start n) (.send 1 [104, 105]) := by
    intro j hj
    have hj2 : 2 = j := Option.some.inj (hconn.left.symm.trans hj)
    rw [← hj2]
    exact hclean
  have hacts : ∀ act ∈ [StreamAct.send 1 [104, 105]], act.Between 1 2 := by
    simp [StreamAct.Between, pageSize]
  have hgood := (stream_integrity_iff hconn
    (fun x hx => ⟨(hzero x hx).1, (hzero x hx).2, rfl, rfl⟩) hacts
    (.cons ⟨hsend, hstep⟩ (.nil _))).1 2 (.inr rfl)
  exact ⟨n, _, hn, hconn, hstep, hgood⟩

/-- The client sends the bytes 0 and 1; the server receives 0 and 0. -/
theorem zero_byte_ends_copy : ∃ n s, Run (fun n a m => step n a = some m) (boot 0) pairActs n ∧ Connected n 1 2 ∧
      Run (fun s act t => streamStep s act = some t) (start n) [.send 1 [0, 1], .receive 2 10] s ∧
      s.sent 2 = [0, 1] ∧ s.received 2 = [0, 0] ∧ ¬Good s 2 := by
  rcases pairActs_connected with ⟨n, hn, hconn, _, _, hbytes⟩
  rcases Option.map_eq_some_iff.1 hbytes with ⟨s, hs, hview⟩
  rcases Prod.mk.inj hview with ⟨hsent, hreceived⟩
  refine ⟨n, s, hn, hconn, run_of_runAll hs, hsent, hreceived, ?_⟩
  intro hgood
  have hprefix := hgood.bytes
  rw [hsent, hreceived] at hprefix
  revert hprefix
  decide

end Net
end OsRiscv
