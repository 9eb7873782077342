import OsRiscv.Net.Peers

/-!
# Unambiguous — when a call keeps the peers of all connections apart

Creating a socket, binding it, connecting and accepting give new addresses to one socket.  `PeerCond`
says of a call, in the state before it, that the socket finds and is found by nobody but its partner.
-/

namespace OsRiscv
namespace Net

open Function (update update_of_ne update_self)
open Lib List
open Files (socketCount)

/-! ## The condition -/

/-- The addresses after `createSocket`: all but the family are what the last owner left. -/
def newSocket (n : Host) (i : Nat) (family : UInt16) : Socket :=
  { n.socket i with addr := { (n.socket i).addr with family := family } }

def boundSocket (n : Host) (i : Nat) (sa : SocketAddr) : Socket :=
  { n.socket i with addr := { (n.socket i).addr with addr := sa.addr, port := sa.port } }

def outSocket (n : Host) (i : Nat) (addr : SocketAddr) : Socket :=
  { n.socket i with addr := genLocalSocketAddr n.localPort, targetAddr := addr }

def serverSocket (n : Host) (l s : Nat) : Socket :=
  { n.socket s with addr := (n.socket l).addr, targetAddr := (oldest n l).addr }

/-- The new socket of an `accept` is found by no end, and if the client is still there, the two find
each other and nobody else. -/
def Admissible (n : Host) (l s : Nat) : Prop :=
  FoundByPartner n s (serverSocket n l s) ∧
    (n.isOpen (oldest n l).client (oldest n l).gen = true →
      isPeer (n.socket (oldest n l).client) (serverSocket n l s) = true ∧
      (∀ x < socketCount, n.used x = true →
        isPeer (n.socket (oldest n l).client) (n.socket x) = false) ∧
      FindsPartner n s (serverSocket n l s) (some (oldest n l).client))

def PeerCond (n : Host) : Act → Prop
  | .socket _ family => ∀ i ∈ freeSocket n.files, FoundByPartner n i (newSocket n i family)
  | .bind p fd sa => ∀ i, Names n p fd i → Apt n i (boundSocket n i sa)
  | .listen _ _ => True
  | .connect p fd addr => ∀ i, Names n p fd i → Apt n i (outSocket n i addr)
  | .accept p fd => ∀ l, Names n p fd l → (n.socket l).pendingH ≠ (n.socket l).pendingT →
      ∀ s ∈ freeSocket n.files, Admissible n l s
  | .close _ _ => True

instance (n : Host) (l s : Nat) : Decidable (Admissible n l s) := inferInstanceAs (Decidable (_ ∧ _))

instance (n : Host) : (a : Act) → Decidable (PeerCond n a)
  | .socket _ family => inferInstanceAs (Decidable
      (∀ i ∈ freeSocket n.files, FoundByPartner n i (newSocket n i family)))
  | .bind _ _ _ => decidable_of_iff _ forall_names_iff.symm
  | .connect _ _ _ => decidable_of_iff _ forall_names_iff.symm
  | .accept _ _ => decidable_of_iff _ forall_names_iff.symm
  | .listen _ _ | .close _ _ => .isTrue trivial

variable {n m : Host} {e i j l p s x g : Nat} {o : Option Nat} {v : Socket} {a : Act} {f : Nat}

/-! ## Records -/

lemma Registered.step (h : Registered n) (htables : Tables m.files)
    (hsmall : ∀ x, m.used x = true → n.used x = true ∨ x < socketCount) (hgen : ∀ j, n.gen j ≤ m.gen j)
    (hconns : ∀ r ∈ m.conns, r ∈ n.conns ∨
      (r.clientGen ≤ m.gen r.client ∧ r.serverGen ≤ m.gen r.server ∧ r.client ≠ r.server))
    (hcells : ∀ l k, (m.socket l).pendingQueue k = (n.socket l).pendingQueue k ∨
      ((m.socket l).pendingQueue k).gen ≤ m.gen ((m.socket l).pendingQueue k).client) :
    Registered m := by
  refine ⟨htables, ?_, ?_, ?_, ?_⟩
  · intro x hx
    rcases hsmall x hx with hx | hx
    · exact h.small x hx
    · exact hx
  · intro r hr
    rcases hconns r hr with hr | ⟨hc, hs, _⟩
    · exact ⟨(h.known r hr).1.trans (hgen _), (h.known r hr).2.trans (hgen _)⟩
    · exact ⟨hc, hs⟩
  · intro r hr
    rcases hconns r hr with hr | ⟨_, _, hne⟩
    · exact h.apart r hr
    · exact hne
  · intro l k
    rcases hcells l k with heq | hle
    · rw [heq]
      exact (h.asked l k).trans (hgen _)
    · exact hle

lemma isOpen_alloc (hfree : n.used s = false) (hg : g ≤ n.gen j) (hinUse : m.used s = true)
    (hused : ∀ k, k ≠ s → m.used k = n.used k)
    (hgen : m.gen = update n.gen s (n.gen s + 1)) : m.isOpen j g = n.isOpen j g := by
  unfold Host.isOpen
  by_cases hj : j = s
  · subst hj
    have hne : (n.gen j + 1 == g) = false := by
      rw [beq_eq_false_iff_ne]
      omega
    rw [hinUse, hfree, hgen, update_self, hne]
    rfl
  · rw [hused j hj, hgen, update_of_ne hj]

lemma partnersOf_congr {r : Conn} (hclient : m.isOpen r.client r.clientGen = n.isOpen r.client r.clientGen)
    (hserver : m.isOpen r.server r.serverGen = n.isOpen r.server r.serverGen) : partnersOf m r = partnersOf n r := by
  unfold partnersOf
  rw [hclient, hserver]

lemma partners_congr (hconns : m.conns = n.conns)
    (hopen : ∀ r ∈ n.conns, partnersOf m r = partnersOf n r) : partners m = partners n := by
  unfold partners
  rw [hconns]
  exact flatMap_congr hopen

lemma Registered.partnersOf_alloc (h : Registered n) (hfree : n.used s = false)
    (hinUse : m.used s = true) (hused : ∀ k, k ≠ s → m.used k = n.used k)
    (hgen : m.gen = update n.gen s (n.gen s + 1)) : ∀ r ∈ n.conns, partnersOf m r = partnersOf n r := by
  intro r hr
  exact partnersOf_congr (isOpen_alloc hfree (h.known r hr).1 hinUse hused hgen)
    (isOpen_alloc hfree (h.known r hr).2 hinUse hused hgen)

lemma unambiguous_congr (hconns : m.conns = n.conns) (hused : m.used = n.used) (hgen : m.gen = n.gen)
    (haddr : ∀ k, (m.socket k).addr = (n.socket k).addr ∧
      (m.socket k).targetAddr = (n.socket k).targetAddr) : Unambiguous m ↔ Unambiguous n := by
  have hopen : m.isOpen = n.isOpen := by
    unfold Host.isOpen
    rw [hused, hgen]
  have hpartners : partners m = partners n := by
    refine partners_congr hconns ?_
    intro r _
    exact partnersOf_congr (by rw [hopen]) (by rw [hopen])
  have hseen : seen m = seen n := by
    funext e x
    unfold seen
    rw [hused, isPeer_congr (haddr e) (haddr x)]
  unfold Unambiguous FindsOnly
  rw [hpartners, hseen]

/-! ## The calls -/

lemma Readdressed.unambiguous_iff (h : Readdressed n m i v) (hr : Registered n) (hu : Unambiguous n)
    (hconns : m.conns = n.conns) (hused : n.used i = true) (hgen : m.gen = n.gen) : Unambiguous m ↔ Apt n i v := by
  have huse : m.used = n.used := by
    funext k
    by_cases hk : k = i
    · rw [hk, h.inUse, hused]
    · exact h.used k hk
  have hpartners : partners m = partners n := by
    refine partners_congr hconns ?_
    intro r _
    unfold partnersOf Host.isOpen
    rw [huse, hgen]
  unfold Unambiguous
  rw [hpartners]
  exact h.ends_iff hr hu

lemma not_end_of_free (hr : Registered n) (hfree : n.used s = false) : ∀ eo ∈ partners n, eo.1 ≠ s := by
  rintro ⟨e, o⟩ heo rfl
  have hused := (hr.partner heo).1
  rw [hfree] at hused
  cases hused

lemma apt_iff_of_free (hr : Registered n) (hfree : n.used s = false) : Apt n s v ↔ FoundByPartner n s v := by
  constructor
  · exact And.left
  · intro h
    exact ⟨h, fun eo heo hes => absurd hes (not_end_of_free hr hfree eo heo)⟩

lemma created_readdressed (family : UInt16) (f : Nat) :
    Readdressed n { created n i family with files := installed n.files p f i } i
      (newSocket n i family) := by
  refine ⟨?_, ?_, ?_, ?_⟩
  · unfold Host.used
    rw [installed_socketUsed, update_self]
  · intro k hk
    unfold Host.used
    rw [installed_socketUsed, update_of_ne hk]
  · simp [created, allocated, cleared, newSocket]
  · intro k hk
    simp [created, allocated, hk]

lemma bound_readdressed {sa : SocketAddr} (hused : n.used i = true) :
    Readdressed n (bound n i sa) i (boundSocket n i sa) := by
  refine ⟨hused, fun _ _ => rfl, ?_, ?_⟩
  · simp [bound, boundSocket]
  · intro k hk
    simp [bound, hk]

lemma setOut_readdressed {addr : SocketAddr} (hused : n.used i = true) :
    Readdressed n (setOut n i addr) i (outSocket n i addr) := by
  refine ⟨hused, fun _ _ => rfl, ?_, ?_⟩
  · simp [setOut, outSocket]
  · intro k hk
    simp [setOut, hk]

lemma enqueue_unambiguous {q : Request} : Unambiguous (enqueue n l q) ↔ Unambiguous n :=
  unambiguous_congr rfl rfl rfl fun k => ⟨apply_update_of_eq k, apply_update_of_eq k⟩

lemma listened_unambiguous : Unambiguous (listened n i) ↔ Unambiguous n :=
  unambiguous_congr rfl rfl rfl fun k => ⟨apply_update_of_eq k, apply_update_of_eq k⟩

lemma answered_readdressed (hls : l ≠ s) : Readdressed n (admitted n p l s f) s (serverSocket n l s) := by
  refine ⟨?_, ?_, ?_, ?_⟩
  · change (installed n.files p f s).socketUsed s = true
    rw [installed_socketUsed, update_self]
  · intro k hk
    change (installed n.files p f s).socketUsed k = _
    rw [installed_socketUsed, update_of_ne hk]
    rfl
  · simp [admitted, noteAccept, answered, allocated, dequeue, serverSocket, hls]
  · intro k hk
    by_cases hkl : k = l
    · simp [admitted, noteAccept, answered, allocated, dequeue, hkl, hls]
    · simp [admitted, noteAccept, answered, allocated, dequeue, hk, hkl]

lemma admitted_gen : (admitted n p l s f).gen = update n.gen s (n.gen s + 1) := rfl

lemma admitted_isOpen_client (hr : Registered n) (hfree : n.used s = false) (hls : l ≠ s) :
    (admitted n p l s f).isOpen (oldest n l).client (oldest n l).gen =
      n.isOpen (oldest n l).client (oldest n l).gen :=
  isOpen_alloc hfree (hr.asked _ _) (answered_readdressed hls).inUse (answered_readdressed hls).used
    admitted_gen

lemma admitted_conns (hr : Registered n) (hfree : n.used s = false) (hls : l ≠ s) :
    (admitted n p l s f).conns =
      if n.isOpen (oldest n l).client (oldest n l).gen = true then
        ⟨(oldest n l).client, (oldest n l).gen, s, n.gen s + 1⟩ :: n.conns
      else n.conns := by
  have hgen : (answered n l s).gen s = n.gen s + 1 := update_self s _ _
  rw [← admitted_isOpen_client hr hfree hls, ← hgen]
  rfl

lemma findsOnly_new_iff (hw : Readdressed n m s v) (hr : Registered n) (hfree : n.used s = false) (hes : e ≠ s) :
    FindsOnly m e (some s) ↔ isPeer (n.socket e) v = true ∧
      ∀ x < socketCount, n.used x = true → isPeer (n.socket e) (n.socket x) = false := by
  have hne : ∀ x, n.used x = true → x ≠ s := by
    rintro x hx rfl
    rw [hfree] at hx
    cases hx
  constructor
  · intro hm
    refine ⟨?_, ?_⟩
    · rw [← hw.seen_self hes]
      exact (hm s).2 rfl
    · intro x _ hused
      have hx := hm x
      rw [hw.seen_of_ne hes (hne x hused)] at hx
      unfold seen at hx
      rw [hused, Bool.true_and] at hx
      by_contra htrue
      exact hne x hused (Option.some.inj (hx.1 (by simpa using htrue))).symm
  · rintro ⟨htrue, hothers⟩
    refine (hw.findsOnly_iff hes ?_).2 (by rw [htrue]; simp)
    intro x hx
    refine iff_of_false ?_ fun hsx => hx (Option.some.inj hsx).symm
    unfold seen
    cases hused : n.used x with
    | true => simp [hothers x (hr.small x hused) hused]
    | false => simp

lemma admitted_unambiguous_iff (hr : Registered n) (hu : Unambiguous n)
    (hfree : n.used s = false) (hls : l ≠ s) : Unambiguous (admitted n p l s f) ↔ Admissible n l s := by
  have hw := answered_readdressed (n := n) (p := p) (f := f) hls
  have hconns := admitted_conns (p := p) (f := f) hr hfree hls
  have hold := hr.partnersOf_alloc hfree hw.inUse hw.used admitted_gen
  have hends := (hw.ends_iff hr hu).trans (apt_iff_of_free hr hfree)
  by_cases hopen : n.isOpen (oldest n l).client (oldest n l).gen = true
  · rw [if_pos hopen] at hconns
    have hclient := isOpen_iff.1 hopen
    have hcs : (oldest n l).client ≠ s := by
      intro heq
      rw [heq, hfree] at hclient
      cases hclient.1
    -- the new record has two open ends
    have hclientOpen : (admitted n p l s f).isOpen (oldest n l).client (oldest n l).gen = true := by
      rw [admitted_isOpen_client hr hfree hls]
      exact hopen
    have hserverOpen : (admitted n p l s f).isOpen s (n.gen s + 1) = true := by
      refine isOpen_iff.2 ⟨hw.inUse, ?_⟩
      rw [admitted_gen, update_self]
    have hpartners : partners (admitted n p l s f) =
        [((oldest n l).client, some s), (s, some (oldest n l).client)] ++ partners n := by
      unfold partners
      rw [hconns, flatMap_cons, flatMap_congr hold]
      unfold partnersOf
      rw [hclientOpen, hserverOpen]
    have hself : FindsOnly (admitted n p l s f) s (some (oldest n l).client) ↔ _ :=
      hw.findsOnly_self_iff hr.small fun j hj => by
        cases hj
        exact ⟨hclient.1, hcs⟩
    have hnew := findsOnly_new_iff hw hr hfree hcs
    unfold Unambiguous
    rw [hpartners, forall_mem_append, hends]
    simp only [forall_mem_cons, not_mem_nil, false_implies, implies_true, and_true]
    rw [hself, hnew]
    constructor
    · rintro ⟨⟨⟨htrue, hothers⟩, hfinds⟩, hfound⟩
      exact ⟨hfound, fun _ => ⟨htrue, hothers, hfinds⟩⟩
    · rintro ⟨hfound, h⟩
      rcases h hopen with ⟨htrue, hothers, hfinds⟩
      exact ⟨⟨⟨htrue, hothers⟩, hfinds⟩, hfound⟩
  · rw [if_neg hopen] at hconns
    unfold Unambiguous
    rw [partners_congr hconns hold, hends]
    exact (and_iff_left fun h => absurd h hopen).symm

/-! ## Closing -/

lemma released_unambiguous {k : Nat × Nat} (hu : Unambiguous n) :
    Unambiguous { n with files := released n.files k f } := by
  set i := (n.files.file f).socket with hi
  set m : Host := { n with files := released n.files k f } with hm
  have hused : ∀ x, x ≠ i → m.used x = n.used x := fun x hx => update_of_ne hx _ _
  have hclosed : m.used i = false := update_self i _ _
  have hopen : ∀ j g, j ≠ i → m.isOpen j g = n.isOpen j g := by
    intro j g hj
    unfold Host.isOpen
    rw [hused j hj]
  have hshut : ∀ g, m.isOpen i g = false := by
    intro g
    unfold Host.isOpen
    rw [hclosed]
    rfl
  rintro ⟨e, o⟩ heo x
  rcases mem_partners.1 heo with ⟨r, hr, g, j, h, hjoin, he, ho⟩
  have hei : e ≠ i := by
    rintro rfl
    rw [hshut] at he
    cases he
  rw [hopen e g hei] at he
  have hbefore := hu (e, _) (mem_partners.2 ⟨r, hr, g, j, h, hjoin, he, rfl⟩) x
  by_cases hx : x = i
  · -- the closed socket is not seen, and is nobody's partner any more
    subst hx
    refine iff_of_false ?_ ?_
    · unfold seen
      rw [hclosed]
      simp
    · intro hox
      rw [ho] at hox
      split at hox
      · next hj =>
          rw [Option.some.inj hox, hshut] at hj
          cases hj
      · cases hox
  · have hseen : seen m e x = seen n e x := by
      unfold seen
      rw [hused x hx]
    rw [hseen, hbefore, ho]
    by_cases hj : j = i
    · have hnone : (if m.isOpen j h = true then some j else none) = none := by
        rw [hj, hshut]
        rfl
      rw [hnone]
      refine iff_of_false ?_ (by simp)
      intro hsome
      split at hsome
      · exact hx ((Option.some.inj hsome).symm.trans hj)
      · cases hsome
    · rw [hopen j h hj]

/-! ## Whole runs -/

lemma registered_boot (p : Nat) : Registered (boot p) where
  tables := tables_boot p
  small := by
    intro i hi
    cases hi
  known := by
    intro r hr
    cases hr
  apart := by
    intro r hr
    cases hr
  asked := fun _ _ => Nat.le_refl 0

lemma used_installed (hs : freeSocket n.files = some s) (hm : m.files = installed n.files p f s)
    (hx : m.used x = true) : n.used x = true ∨ x < socketCount := by
  unfold Host.used at hx
  rw [hm, installed_socketUsed] at hx
  by_cases hxs : x = s
  · rw [hxs]
    exact .inr (freeSocket_spec hs).1
  · rw [update_of_ne hxs] at hx
    exact .inl hx

lemma gen_update_le (n : Host) (s j : Nat) : n.gen j ≤ update n.gen s (n.gen s + 1) j :=
  le_update_self_iff.2 (Nat.le_succ _) j

lemma admitted_registered (h : Registered n) (htables : Tables (admitted n p l s f).files)
    (hs : freeSocket n.files = some s) (hls : l ≠ s) : Registered (admitted n p l s f) := by
  have hfree : n.used s = false := (freeSocket_spec hs).2
  refine h.step htables (fun x hx => used_installed hs rfl hx) (gen_update_le n s) ?_ ?_
  · intro r hr
    rw [admitted_conns h hfree hls] at hr
    by_cases hopen : n.isOpen (oldest n l).client (oldest n l).gen = true
    · rw [if_pos hopen] at hr
      rcases mem_cons.1 hr with rfl | hr
      · have hclient := isOpen_iff.1 hopen
        refine .inr ⟨?_, ?_, ?_⟩
        · exact hclient.2.ge.trans (gen_update_le n s _)
        · rw [admitted_gen, update_self]
        · rintro heq
          change (oldest n l).client = s at heq
          rw [heq, hfree] at hclient
          cases hclient.1
      · exact .inl hr
    · rw [if_neg hopen] at hr
      exact .inl hr
  · intro k c
    by_cases hks : k = s
    · simp [admitted, noteAccept, answered, allocated, cleared, dequeue, hks, hls.symm]
    · by_cases hkl : k = l
      · simp [admitted, noteAccept, answered, allocated, dequeue, hkl, hls]
      · simp [admitted, noteAccept, answered, allocated, dequeue, hks, hkl]

lemma Effect.registered (he : Effect n a m) (h : Registered n) : Registered m := by
  have htables := he.tables h.tables
  -- calls that only write to sockets
  have hwrite : ∀ m : Host, m.files = n.files → m.gen = n.gen → m.conns = n.conns →
      (∀ l k, (m.socket l).pendingQueue k = (n.socket l).pendingQueue k ∨
        ((m.socket l).pendingQueue k).gen ≤ n.gen ((m.socket l).pendingQueue k).client) →
      Registered m := by
    intro m hfiles hgen hconns hcells
    refine h.step ?_ ?_ ?_ ?_ ?_
    · rw [hfiles]
      exact h.tables
    · intro x hx
      unfold Host.used at hx
      rw [hfiles] at hx
      exact .inl hx
    · intro j
      rw [hgen]
    · intro r hr
      rw [hconns] at hr
      exact .inl hr
    · rw [hgen]
      exact hcells
  cases he with
  | @create _ family i f hi hf =>
    refine h.step htables (fun x hx => used_installed hi rfl hx) (gen_update_le n i)
      (fun r hr => .inl hr) ?_
    intro l k
    by_cases hl : l = i
    · exact .inl (by simp [created, allocated, cleared, hl])
    · exact .inl (by simp [created, allocated, hl])
  | bind | listen | refused =>
    exact hwrite _ rfl rfl rfl fun l k => .inl (apply_update_of_eq (f := fun v : Socket => v.pendingQueue k) l)
  | @requested _ _ addr i l hi hl hroom =>
    refine hwrite _ rfl rfl rfl ?_
    intro k c
    have hout : ((setOut n i addr).socket k).pendingQueue = (n.socket k).pendingQueue :=
      apply_update_of_eq (f := Socket.pendingQueue) k
    by_cases hk : k = l
    · -- the cell that was written, or another one
      subst hk
      by_cases hc : c = ((setOut n i addr).socket k).pendingT % pendingCount
      · simp [enqueue, pushRequest, hc, request, setOut]
      · simp [enqueue, pushRequest, hc, hout]
    · rw [← hout]
      simp [enqueue, hk]
  | idle hl hnone => exact h
  | @admitted _ _ l s f hl hsome hs hf =>
    exact admitted_registered h htables hs (used_ne_free (h.tables.used_of_names hl) hs)
  | notOpen => exact h
  | @closed _ _ k f hk =>
    refine h.step htables ?_ (fun _ => Nat.le_refl _) (fun r hr => .inl hr) (fun l k => .inl rfl)
    intro x hx
    by_cases hxi : x = (n.files.file f).socket
    · have hclosed : ({ n with files := released n.files k f } : Host).used x = false := by
        rw [hxi]
        exact update_self _ _ _
      rw [hclosed] at hx
      cases hx
    · refine .inl ?_
      have hsame : ({ n with files := released n.files k f } : Host).used x = n.used x :=
        update_of_ne hxi _ _
      rwa [hsame] at hx

/-- A call keeps the peers apart exactly if it meets the condition. -/
theorem Effect.unambiguous_iff (he : Effect n a m) (h : Registered n) (hu : Unambiguous n) :
    Unambiguous m ↔ PeerCond n a := by
  -- a condition on all sockets that a descriptor names is one on the socket that it names
  have hnamed : ∀ {p : Nat} {fd : Int} {i : Nat} {C : Nat → Prop}, Names n p fd i →
      (C i ↔ ∀ j, Names n p fd j → C j) := by
    intro p fd i C hi
    constructor
    · intro hC j hj
      rw [← hi.unique hj]
      exact hC
    · intro hall
      exact hall i hi
  cases he with
  | @create p family i f hi hf =>
    have hfree : n.used i = false := (freeSocket_spec hi).2
    have hw := created_readdressed (n := n) (i := i) (p := p) family f
    have hold := h.partnersOf_alloc hfree hw.inUse hw.used rfl
    have hpartners : partners { created n i family with files := installed n.files p f i } =
        partners n := partners_congr rfl hold
    unfold Unambiguous
    rw [hpartners, hw.ends_iff h hu, apt_iff_of_free h hfree]
    unfold PeerCond
    rw [hi]
    simp
  | @bind _ _ sa i hi =>
    have hused := h.tables.used_of_names hi
    rw [(bound_readdressed hused).unambiguous_iff h hu rfl hused rfl]
    exact hnamed (C := fun i => Apt n i (boundSocket n i sa)) hi
  | @listen _ _ i hi => exact iff_of_true (listened_unambiguous.2 hu) trivial
  | @refused _ _ addr i hi =>
    have hused := h.tables.used_of_names hi
    rw [(setOut_readdressed hused).unambiguous_iff h hu rfl hused rfl]
    exact hnamed (C := fun i => Apt n i (outSocket n i addr)) hi
  | @requested _ _ addr i l hi hl hroom =>
    have hused := h.tables.used_of_names hi
    rw [enqueue_unambiguous, (setOut_readdressed hused).unambiguous_iff h hu rfl hused rfl]
    exact hnamed (C := fun i => Apt n i (outSocket n i addr)) hi
  | @idle p fd l hl hnone =>
    refine iff_of_true hu ?_
    intro l' hl' hsome
    rw [← hl.unique hl'] at hsome
    exact absurd hnone hsome
  | @admitted p fd l s f hl hsome hs hf =>
    have hls := used_ne_free (h.tables.used_of_names hl) hs
    rw [admitted_unambiguous_iff h hu (freeSocket_spec hs).2 hls]
    constructor
    · intro hadm l' hl' _ s' hs'
      rw [hs] at hs'
      cases hs'
      rw [← hl.unique hl']
      exact hadm
    · intro hall
      exact hall l hl hsome s hs
  | notOpen => exact iff_of_true hu trivial
  | closed hk => exact iff_of_true (released_unambiguous hu) trivial

/-- In every run of calls that meet the condition the peers of all connections are right, and a further
call leaves them unambiguous exactly if it meets the condition. -/
theorem socket_peers_right {as : List Act}
    (hrun : Run (fun n a m => PeerCond n a ∧ step n a = some m) (boot p) as n) :
    PeersOk n ∧ ∀ a m, step n a = some m → (Unambiguous m ↔ PeerCond n a) := by
  have hinv : Registered n ∧ Unambiguous n := by
    refine hrun.invariant (P := fun n => Registered n ∧ Unambiguous n) ?_ ?_
    · refine ⟨registered_boot p, ?_⟩
      intro eo heo
      cases heo
    · rintro n a m ⟨hr, hu⟩ ⟨hcond, hstep⟩
      have he := step_effect hr.tables hstep
      exact ⟨he.registered hr, (he.unambiguous_iff hr hu).2 hcond⟩
  refine ⟨hinv.2.peersOk hinv.1, ?_⟩
  intro a m hstep
  exact (step_effect hinv.1.tables hstep).unambiguous_iff hinv.1 hinv.2

theorem socket_peers_right_pair : ∃ n, Run (fun n a m => PeerCond n a ∧ step n a = some m) (boot 0) pairActs n ∧
      n.conns = [⟨1, 1, 2, 1⟩] ∧ PeersOk n := by
  refine exists_run_guarded (P := fun n => n.conns = [⟨1, 1, 2, 1⟩]) (by decide +kernel) ?_
  intro n hrun hconns
  exact ⟨hconns, (socket_peers_right hrun).1⟩

/-- The server's end of a connection is closed and a socket is created in its slot: it still has the
addresses of the old one, and is the peer that the client finds. -/
theorem new_socket_found_as_peer :
    ∃ n, Run (fun n a m => step n a = some m) (boot 0) (pairActs ++ [.close 0 2, .socket 0 2]) n ∧
      ⟨1, 1, 2, 1⟩ ∈ n.conns ∧ n.isOpen 1 1 = true ∧ n.isOpen 2 1 = false ∧ n.isOpen 2 2 = true ∧
      remoteFindPeerSocket n 1 = some 2 ∧ ¬PeersOk n := by
  refine exists_run (P := fun n => ⟨1, 1, 2, 1⟩ ∈ n.conns ∧ n.isOpen 1 1 = true ∧ n.isOpen 2 1 = false ∧
    n.isOpen 2 2 = true ∧ remoteFindPeerSocket n 1 = some 2) (by decide +kernel) ?_
  rintro n _ ⟨hmem, hclient, hserver, hnew, hfind⟩
  refine ⟨hmem, hclient, hserver, hnew, hfind, ?_⟩
  intro hok
  have hnone := (hok _ hmem).2.1 hclient hserver
  rw [hfind] at hnone
  cases hnone

end Net
end OsRiscv
