import OsRiscv.Lib.FirstMatch
import OsRiscv.Net.Tables

/-!
# Peers — who is found as the peer of whom

A connection is recorded by the `accept` that made it.  `partners` lists the sockets at open ends of
connections, each with the other end, if this is still open: what `remote_find_peer_socket` is to
find.  Socket `e` finds its partner only if no other socket in use has matching addresses; a state in
which this is so for all ends is unambiguous.
-/

namespace OsRiscv
namespace Net

open Lib List
open Files (socketCount)

/-! ## Ends of connections -/

def partnersOf (n : Host) (r : Conn) : List (Nat × Option Nat) :=
  match n.isOpen r.client r.clientGen, n.isOpen r.server r.serverGen with
  | true, true => [(r.client, some r.server), (r.server, some r.client)]
  | true, false => [(r.client, none)]
  | false, true => [(r.server, none)]
  | false, false => []

def partners (n : Host) : List (Nat × Option Nat) := n.conns.flatMap (partnersOf n)

/-- The peers of all connections are right: the other end while both are open, and nobody after one has
been closed. -/
def PeersOk (n : Host) : Prop :=
  ∀ r ∈ n.conns,
    (n.isOpen r.client r.clientGen = true → n.isOpen r.server r.serverGen = true →
      remoteFindPeerSocket n r.client = some r.server ∧
      remoteFindPeerSocket n r.server = some r.client) ∧
    (n.isOpen r.client r.clientGen = true → n.isOpen r.server r.serverGen = false →
      remoteFindPeerSocket n r.client = none) ∧
    (n.isOpen r.client r.clientGen = false → n.isOpen r.server r.serverGen = true →
      remoteFindPeerSocket n r.server = none)

/-- Socket `x` is in use and has the addresses of a peer of `e`. -/
def seen (n : Host) (e x : Nat) : Bool := n.used x && isPeer (n.socket e) (n.socket x)

def FindsOnly (n : Host) (e : Nat) (o : Option Nat) : Prop := ∀ x, seen n e x = true ↔ o = some x

def Unambiguous (n : Host) : Prop := ∀ eo ∈ partners n, FindsOnly n eo.1 eo.2

/-- What holds in every run: sockets in use are in the table, and records and requests name allocations
that have been made. -/
structure Registered (n : Host) : Prop where
  tables : Tables n.files
  small : ∀ i, n.used i = true → i < socketCount
  known : ∀ r ∈ n.conns, r.clientGen ≤ n.gen r.client ∧ r.serverGen ≤ n.gen r.server
  apart : ∀ r ∈ n.conns, r.client ≠ r.server
  asked : ∀ l k, ((n.socket l).pendingQueue k).gen ≤ n.gen ((n.socket l).pendingQueue k).client

variable {n m : Host} {e i j l p s x : Nat} {o : Option Nat} {v : Socket}

lemma isOpen_iff {g : Nat} : n.isOpen i g = true ↔ n.used i = true ∧ n.gen i = g := by
  simp [Host.isOpen]

/-- The ends of a record, in both directions. -/
def Conn.Joins (r : Conn) (e g j h : Nat) : Prop :=
  (e = r.client ∧ g = r.clientGen ∧ j = r.server ∧ h = r.serverGen) ∨
    (e = r.server ∧ g = r.serverGen ∧ j = r.client ∧ h = r.clientGen)

lemma mem_partnersOf {r : Conn} : (e, o) ∈ partnersOf n r ↔ ∃ g j h, r.Joins e g j h ∧ n.isOpen e g = true ∧
      o = if n.isOpen j h = true then some j else none := by
  unfold partnersOf Conn.Joins
  constructor
  · intro hmem
    cases hc : n.isOpen r.client r.clientGen with
    | true =>
      cases hs : n.isOpen r.server r.serverGen with
      | true =>
        simp only [hc, hs, mem_cons, Prod.mk.injEq, not_mem_nil, or_false] at hmem
        rcases hmem with ⟨rfl, rfl⟩ | ⟨rfl, rfl⟩
        · exact ⟨_, _, _, .inl ⟨rfl, rfl, rfl, rfl⟩, hc, by rw [if_pos hs]⟩
        · exact ⟨_, _, _, .inr ⟨rfl, rfl, rfl, rfl⟩, hs, by rw [if_pos hc]⟩
      | false =>
        simp only [hc, hs, mem_cons, Prod.mk.injEq, not_mem_nil, or_false] at hmem
        rcases hmem with ⟨rfl, rfl⟩
        exact ⟨_, _, _, .inl ⟨rfl, rfl, rfl, rfl⟩, hc, by simp [hs]⟩
    | false =>
      cases hs : n.isOpen r.server r.serverGen with
      | true =>
        simp only [hc, hs, mem_cons, Prod.mk.injEq, not_mem_nil, or_false] at hmem
        rcases hmem with ⟨rfl, rfl⟩
        exact ⟨_, _, _, .inr ⟨rfl, rfl, rfl, rfl⟩, hs, by simp [hc]⟩
      | false => simp [hc, hs] at hmem
  · rintro ⟨g, j, h, ⟨rfl, rfl, rfl, rfl⟩ | ⟨rfl, rfl, rfl, rfl⟩, hopen, rfl⟩
    · cases hs : n.isOpen r.server r.serverGen with
      | true => simp [hopen]
      | false => simp [hopen]
    · cases hc : n.isOpen r.client r.clientGen with
      | true => simp [hopen]
      | false => simp [hopen]

lemma mem_partners : (e, o) ∈ partners n ↔ ∃ r ∈ n.conns, ∃ g j h, r.Joins e g j h ∧ n.isOpen e g = true ∧
      o = if n.isOpen j h = true then some j else none := by
  unfold partners
  rw [mem_flatMap]
  constructor
  · rintro ⟨r, hr, hmem⟩
    exact ⟨r, hr, mem_partnersOf.1 hmem⟩
  · rintro ⟨r, hr, hjoin⟩
    exact ⟨r, hr, mem_partnersOf.2 hjoin⟩

lemma Registered.partner (h : Registered n) (hmem : (e, o) ∈ partners n) :
    n.used e = true ∧ ∀ j, o = some j → n.used j = true ∧ j ≠ e := by
  rcases mem_partners.1 hmem with ⟨r, hr, g, j, k, hjoin, hopen, ho⟩
  refine ⟨(isOpen_iff.1 hopen).1, ?_⟩
  intro x hx
  by_cases hj : n.isOpen j k = true
  · rw [if_pos hj, hx] at ho
    cases ho
    refine ⟨(isOpen_iff.1 hj).1, ?_⟩
    have hapart := h.apart r hr
    rcases hjoin with ⟨rfl, _, rfl, _⟩ | ⟨rfl, _, rfl, _⟩
    · exact hapart.symm
    · exact hapart
  · rw [if_neg hj, hx] at ho
    cases ho

/-! ## What a search finds -/

lemma remoteFindPeerSocket_eq (h : Registered n) (hfinds : FindsOnly n e o) : remoteFindPeerSocket n e = o := by
  cases o with
  | none =>
    refine find?_eq_none.2 ?_
    intro x _ hx
    cases (hfinds x).1 hx
  | some j =>
    have hj : seen n e j = true := (hfinds j).2 rfl
    have hused : n.used j = true := by
      unfold seen at hj
      rw [Bool.and_eq_true] at hj
      exact hj.1
    refine find?_of_unique (mem_range.2 (h.small j hused)) hj ?_
    intro x _ hx
    exact (Option.some.inj ((hfinds x).1 hx)).symm

lemma Unambiguous.peersOk (h : Registered n) (hu : Unambiguous n) : PeersOk n := by
  intro r hr
  have hfind : ∀ e o, (e, o) ∈ partnersOf n r → remoteFindPeerSocket n e = o := by
    intro e o hmem
    exact remoteFindPeerSocket_eq h (hu (e, o) (mem_flatMap.2 ⟨r, hr, hmem⟩))
  refine ⟨?_, ?_, ?_⟩
  · intro hc hs
    exact ⟨hfind _ _ (by simp [partnersOf, hc, hs]), hfind _ _ (by simp [partnersOf, hc, hs])⟩
  · intro hc hs
    exact hfind _ _ (by simp [partnersOf, hc, hs])
  · intro hc hs
    exact hfind _ _ (by simp [partnersOf, hc, hs])

/-! ## New addresses for one socket -/

/-- From `n` to `m` socket `i` has come into use, if it was not, and has got the addresses of `v`. -/
structure Readdressed (n m : Host) (i : Nat) (v : Socket) : Prop where
  inUse : m.used i = true
  used : ∀ k, k ≠ i → m.used k = n.used k
  self : (m.socket i).addr = v.addr ∧ (m.socket i).targetAddr = v.targetAddr
  other : ∀ k, k ≠ i → (m.socket k).addr = (n.socket k).addr ∧
    (m.socket k).targetAddr = (n.socket k).targetAddr

lemma isPeer_congr {a a' b b' : Socket} (ha : a.addr = a'.addr ∧ a.targetAddr = a'.targetAddr)
    (hb : b.addr = b'.addr ∧ b.targetAddr = b'.targetAddr) : isPeer a b = isPeer a' b' := by
  unfold isPeer
  rw [ha.1, ha.2, hb.1, hb.2]

/-- With the addresses `v`, socket `i` is found by its partner and by no other end. -/
def FoundByPartner (n : Host) (i : Nat) (v : Socket) : Prop :=
  ∀ eo ∈ partners n, eo.1 ≠ i → isPeer (n.socket eo.1) v = decide (eo.2 = some i)

/-- With the addresses `v`, socket `i` finds `o` and no other socket in use. -/
def FindsPartner (n : Host) (i : Nat) (v : Socket) (o : Option Nat) : Prop :=
  isPeer v v = false ∧
    ∀ x < socketCount, x ≠ i → n.used x = true → isPeer v (n.socket x) = decide (o = some x)

/-- With the addresses `v`, socket `i` finds its partners only and is found by them only. -/
def Apt (n : Host) (i : Nat) (v : Socket) : Prop :=
  FoundByPartner n i v ∧ ∀ eo ∈ partners n, eo.1 = i → FindsPartner n i v eo.2

instance (n : Host) (i : Nat) (v : Socket) : Decidable (FoundByPartner n i v) :=
  inferInstanceAs (Decidable (∀ eo ∈ partners n, _))

instance (n : Host) (i : Nat) (v : Socket) (o : Option Nat) : Decidable (FindsPartner n i v o) :=
  inferInstanceAs (Decidable (_ ∧ _))

instance (n : Host) (i : Nat) (v : Socket) : Decidable (Apt n i v) :=
  inferInstanceAs (Decidable (_ ∧ _))

namespace Readdressed

section

variable (h : Readdressed n m i v)
include h

lemma seen_self (he : e ≠ i) : seen m e i = isPeer (n.socket e) v := by
  unfold seen
  rw [h.inUse, isPeer_congr (h.other e he) h.self, Bool.true_and]

lemma seen_of_ne (he : e ≠ i) (hx : x ≠ i) : seen m e x = seen n e x := by
  unfold seen
  rw [h.used x hx, isPeer_congr (h.other e he) (h.other x hx)]

lemma seen_from (hx : x ≠ i) : seen m i x = (n.used x && isPeer v (n.socket x)) := by
  unfold seen
  rw [h.used x hx, isPeer_congr h.self (h.other x hx)]

lemma seen_from_self : seen m i i = isPeer v v := by
  unfold seen
  rw [h.inUse, isPeer_congr h.self h.self, Bool.true_and]

lemma findsOnly_iff (he : e ≠ i) (hn : ∀ x, x ≠ i → (seen n e x = true ↔ o = some x)) :
    FindsOnly m e o ↔ isPeer (n.socket e) v = decide (o = some i) := by
  constructor
  · intro hm
    have hi := hm i
    rw [h.seen_self he] at hi
    rw [Bool.eq_iff_iff, decide_eq_true_iff]
    exact hi
  · intro heq x
    by_cases hx : x = i
    · rw [hx, h.seen_self he, heq, decide_eq_true_iff]
    · rw [h.seen_of_ne he hx]
      exact hn x hx

lemma findsOnly_self_iff (hsmall : ∀ x, n.used x = true → x < socketCount)
    (ho : ∀ j, o = some j → n.used j = true ∧ j ≠ i) : FindsOnly m i o ↔ FindsPartner n i v o := by
  have hoi : o ≠ some i := fun hoi => (ho i hoi).2 rfl
  constructor
  · intro hm
    refine ⟨?_, ?_⟩
    · have hi := hm i
      rw [h.seen_from_self] at hi
      by_contra htrue
      exact hoi (hi.1 (by simpa using htrue))
    · intro x _ hx hused
      have hxm := hm x
      rw [h.seen_from hx, hused, Bool.true_and] at hxm
      rw [Bool.eq_iff_iff, decide_eq_true_iff]
      exact hxm
  · rintro ⟨hself, hothers⟩ x
    by_cases hx : x = i
    · rw [hx, h.seen_from_self, hself]
      exact iff_of_false (by simp) hoi
    · rw [h.seen_from hx]
      cases hused : n.used x with
      | true => rw [hothers x (hsmall x hused) hx hused, Bool.true_and, decide_eq_true_iff]
      | false =>
        refine iff_of_false (by simp) ?_
        intro hox
        rw [(ho x hox).1] at hused
        cases hused

lemma ends_iff (hr : Registered n) (hu : Unambiguous n) :
    (∀ eo ∈ partners n, FindsOnly m eo.1 eo.2) ↔ Apt n i v := by
  constructor
  · intro hm
    refine ⟨?_, ?_⟩
    · intro eo heo hne
      exact (h.findsOnly_iff hne fun x _ => hu eo heo x).1 (hm eo heo)
    · rintro ⟨e, o⟩ heo rfl
      exact (h.findsOnly_self_iff hr.small (hr.partner heo).2).1 (hm (e, o) heo)
  · rintro ⟨hfound, hfinds⟩ ⟨e, o⟩ heo
    by_cases he : e = i
    · subst he
      exact (h.findsOnly_self_iff hr.small (hr.partner heo).2).2 (hfinds (e, o) heo rfl)
    · exact (h.findsOnly_iff he fun x _ => hu (e, o) heo x).2 (hfound (e, o) heo he)

end

end Readdressed

end Net
end OsRiscv
