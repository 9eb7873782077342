import OsRiscv.Files.Calls
import OsRiscv.Net.Calls

/-!
# Tables — descriptors, files and sockets

The calls of `Socket.c` alone make one descriptor for each `File` and one `File` for each socket.  A
socket that a descriptor names is therefore in use, and closing the descriptor frees that socket and
no other.  `Effect` says what a call that is done has changed.
-/

namespace OsRiscv
namespace Net

open Function (update update_of_ne update_self)
open Lib

structure Tables (s : Files.Sys) : Prop where
  held : ∀ k f, s.ofile k = some f → (s.file f).ref = 1 ∧ (s.file f).type = .socket
  single : ∀ k k' f, s.ofile k = some f → s.ofile k' = some f → k = k'
  used : ∀ f, (s.file f).ref ≠ 0 → (s.file f).type = .socket → s.socketUsed (s.file f).socket = true
  owner : ∀ f g, (s.file f).ref ≠ 0 → (s.file g).ref ≠ 0 → (s.file f).type = .socket →
    (s.file g).type = .socket → (s.file f).socket = (s.file g).socket → f = g

variable {s : Files.Sys} {n : Host} {p f i : Nat} {fd : Int} {k : Nat × Nat}

lemma tables_boot (p : Nat) : Tables (boot p).files where
  held := by
    intro k f h
    cases h
  single := by
    intro k k' f h
    cases h
  used := by
    intro f h
    exact absurd rfl h
  owner := by
    intro f g h
    exact absurd rfl h

lemma Tables.used_of_names (h : Tables n.files) (hnames : Names n p fd i) : n.used i = true := by
  rcases hnames with ⟨f, hf, htype, hsocket⟩
  rcases Files.slot_of_argfd hf with ⟨x, _, _, hslot⟩
  have hone := (h.held _ f hslot).1
  rw [← hsocket]
  exact h.used f (by omega) htype

lemma used_ne_free {l s : Nat} (hused : n.used l = true) (hs : freeSocket n.files = some s) : l ≠ s := by
  rintro rfl
  exact absurd hused (by simp [Host.used, (freeSocket_spec hs).2])

lemma Names.unique {j : Nat} (hi : Names n p fd i) (hj : Names n p fd j) : i = j := by
  rcases hi with ⟨f, hf, _, rfl⟩
  rcases hj with ⟨g, hg, _, rfl⟩
  rw [hf] at hg
  cases hg
  rfl

lemma forall_names_iff {n : Host} {p : Nat} {fd : Int} {C : Nat → Prop} : (∀ i, Names n p fd i → C i) ↔
      ∀ f ∈ Files.argfd n.files p fd, (n.files.file f).type = .socket → C (n.files.file f).socket := by
  constructor
  · intro h f hf htype
    exact h _ ⟨f, hf, htype, rfl⟩
  · rintro h i ⟨f, hf, htype, rfl⟩
    exact h f hf htype

/-! ## A new socket -/

lemma freeFile_spec (h : freeFile s = some f) : (s.file f).ref = 0 := by
  simpa using List.find?_some h

@[simp] lemma setFd_file (o : Option Nat) : (setFd s p f o).file = s.file := by
  cases o with
  | none => rfl
  | some fd => rfl

@[simp] lemma setFd_socketUsed (o : Option Nat) : (setFd s p f o).socketUsed = s.socketUsed := by
  cases o with
  | none => rfl
  | some fd => rfl

lemma installed_socketUsed : (installed s p f i).socketUsed = update s.socketUsed i true := by
  unfold installed
  rw [setFd_socketUsed]
  rfl

lemma installed_file_self : ((installed s p f i).file f).ref = 1 ∧ ((installed s p f i).file f).type = .socket ∧
      ((installed s p f i).file f).socket = i := by
  unfold installed
  simp [fillFile, takeFile]

lemma installed_file_of_ne {g : Nat} (hg : g ≠ f) : (installed s p f i).file g = s.file g := by
  unfold installed
  simp [fillFile, takeFile, takeSocket, hg]

lemma installed_ofile {g : Nat} (h : (installed s p f i).ofile k = some g) :
    s.ofile k = some g ∨ (g = f ∧ ∃ fd, freeFd s p = some fd ∧ k = (p, fd)) := by
  unfold installed at h
  cases hfd : freeFd s p with
  | none =>
    rw [hfd] at h
    exact .inl h
  | some fd =>
    rw [hfd] at h
    change update s.ofile (p, fd) (some f) k = some g at h
    by_cases hk : k = (p, fd)
    · rw [hk, update_self] at h
      exact .inr ⟨(Option.some.inj h).symm, fd, rfl, hk⟩
    · rw [update_of_ne hk] at h
      exact .inl h

lemma Tables.installed (h : Tables s) (hi : s.socketUsed i = false) (hf : (s.file f).ref = 0) :
    Tables (Net.installed s p f i) := by
  -- an old descriptor names an old file
  have hold : ∀ k g, s.ofile k = some g → g ≠ f := by
    intro k g hk hgf
    have hone := (h.held k g hk).1
    rw [hgf, hf] at hone
    cases hone
  -- an old file in use has another socket
  have hsocket : ∀ g, g ≠ f → (s.file g).ref ≠ 0 → (s.file g).type = .socket →
      (s.file g).socket ≠ i := by
    intro g _ href htype heq
    have hused := h.used g href htype
    rw [heq, hi] at hused
    cases hused
  refine ⟨?_, ?_, ?_, ?_⟩
  · intro k g hk
    rcases installed_ofile hk with hk | ⟨rfl, _⟩
    · rw [installed_file_of_ne (hold k g hk)]
      exact h.held k g hk
    · exact ⟨installed_file_self.1, installed_file_self.2.1⟩
  · intro k k' g hk hk'
    rcases installed_ofile hk with hold1 | ⟨hg, fd, hfd, rfl⟩
    · rcases installed_ofile hk' with hold2 | ⟨hg, _⟩
      · exact h.single k k' g hold1 hold2
      · exact absurd hg (hold k g hold1)
    · rcases installed_ofile hk' with hold2 | ⟨_, fd', hfd', rfl⟩
      · exact absurd hg (hold k' g hold2)
      · rw [hfd] at hfd'
        rw [Option.some.inj hfd']
  · intro g href htype
    rw [installed_socketUsed]
    by_cases hg : g = f
    · rw [hg, installed_file_self.2.2]
      simp
    · rw [installed_file_of_ne hg] at href htype ⊢
      rw [update_of_ne (hsocket g hg href htype)]
      exact h.used g href htype
  · intro a b ha hb hta htb heq
    by_cases haf : a = f
    · by_cases hbf : b = f
      · rw [haf, hbf]
      · rw [haf, installed_file_self.2.2, installed_file_of_ne hbf] at heq
        rw [installed_file_of_ne hbf] at hb htb
        exact absurd heq.symm (hsocket b hbf hb htb)
    · rw [installed_file_of_ne haf] at ha hta heq
      by_cases hbf : b = f
      · rw [hbf, installed_file_self.2.2] at heq
        exact absurd heq (hsocket a haf ha hta)
      · rw [installed_file_of_ne hbf] at hb htb heq
        exact h.owner a b ha hb hta htb heq

/-! ## Closing -/

/-- The file table after the only descriptor `k` of the socket's file `f` has been closed. -/
def released (s : Files.Sys) (k : Nat × Nat) (f : Nat) : Files.Sys :=
  { s with
    ofile := update s.ofile k none
    file := update s.file f { s.file f with ref := 0, type := .none }
    socketUsed := update s.socketUsed (s.file f).socket false
    closes := s.closes ++ [f] }

lemma wp_close {Q : Int → Host → Prop} {E : Panic → Host → Prop} (h : Tables n.files) (hnone : Q (-1) n)
    (hsome : ∀ k f, n.files.ofile k = some f → Q 0 { n with files := released n.files k f }) :
    wp (close p fd) Q E n := by
  unfold close Files.syscallClose
  rw [wp_onFiles]
  simp only [wp_bind, wp_get]
  cases harg : Files.argfd n.files p fd with
  | none => exact hnone
  | some f =>
    rcases Files.slot_of_argfd harg with ⟨x, hx, _, hslot⟩
    have hheld := h.held _ f hslot
    have hclose := hsome _ f hslot
    simp only [wp_bind, Files.wp_setSlot]
    unfold Files.fileclose
    simp only [wp_bind, wp_get, hheld.1, hheld.2, lt_irrefl, if_false, Nat.sub_self, Files.wp_setFile]
    subst hx
    exact hclose

lemma Tables.released (h : Tables s) (hk : s.ofile k = some f) : Tables (Net.released s k f) := by
  have hheld := h.held k f hk
  have hslot : ∀ k' g, (Net.released s k f).ofile k' = some g → s.ofile k' = some g ∧ g ≠ f := by
    intro k' g hk'
    change update s.ofile k none k' = some g at hk'
    by_cases hkk : k' = k
    · rw [hkk, update_self] at hk'
      cases hk'
    · rw [update_of_ne hkk] at hk'
      refine ⟨hk', ?_⟩
      rintro rfl
      exact hkk (h.single k' k g hk' hk)
  have hfile : ∀ g, g ≠ f → (Net.released s k f).file g = s.file g := by
    intro g hg
    exact update_of_ne hg _ _
  have hne : ∀ g, ((Net.released s k f).file g).ref ≠ 0 → g ≠ f := by
    rintro g href rfl
    exact href (by simp [Net.released])
  refine ⟨?_, ?_, ?_, ?_⟩
  · intro k' g hk'
    rcases hslot k' g hk' with ⟨hk', hg⟩
    rw [hfile g hg]
    exact h.held k' g hk'
  · intro k' k'' g hk' hk''
    exact h.single k' k'' g (hslot k' g hk').1 (hslot k'' g hk'').1
  · intro g href htype
    have hg := hne g href
    rw [hfile g hg] at href htype ⊢
    have hother : (s.file g).socket ≠ (s.file f).socket := by
      intro heq
      exact hg (h.owner g f href (by omega) htype hheld.2 heq)
    change update s.socketUsed (s.file f).socket false (s.file g).socket = true
    rw [update_of_ne hother]
    exact h.used g href htype
  · intro a b ha hb hta htb heq
    rw [hfile a (hne a ha)] at hta heq
    rw [hfile b (hne b hb)] at htb heq
    have ha' := hfile a (hne a ha) ▸ ha
    have hb' := hfile b (hne b hb) ▸ hb
    exact h.owner a b ha' hb' hta htb heq

/-! ## Effects -/

def bound (n : Host) (i : Nat) (sa : SocketAddr) : Host :=
  let v := { n.socket i with addr := { (n.socket i).addr with addr := sa.addr, port := sa.port } }
  { n with socket := update n.socket i v }

def listened (n : Host) (i : Nat) : Host :=
  { n with socket := update n.socket i { n.socket i with listening := true } }

/-- The host after an `accept` at `l` created socket `s` with the file `f`. -/
def admitted (n : Host) (p l s f : Nat) : Host :=
  noteAccept l (oldest n l) s (fdResult (freeFd n.files p))
    { answered n l s with files := installed n.files p f s }

inductive Effect (n : Host) : Act → Host → Prop
  | create {p : Nat} {family : UInt16} {i f : Nat} (hi : freeSocket n.files = some i)
      (hf : freeFile n.files = some f) :
      Effect n (.socket p family) { created n i family with files := installed n.files p f i }
  | bind {p : Nat} {fd : Int} {sa : SocketAddr} {i : Nat} (hi : Names n p fd i) :
      Effect n (.bind p fd sa) (bound n i sa)
  | listen {p : Nat} {fd : Int} {i : Nat} (hi : Names n p fd i) : Effect n (.listen p fd) (listened n i)
  | refused {p : Nat} {fd : Int} {addr : SocketAddr} {i : Nat} (hi : Names n p fd i) :
      Effect n (.connect p fd addr) (setOut n i addr)
  | requested {p : Nat} {fd : Int} {addr : SocketAddr} {i l : Nat} (hi : Names n p fd i)
      (hl : remoteFindListeningSocket (setOut n i addr) addr = some l)
      (hroom : ((setOut n i addr).socket l).pendingT - ((setOut n i addr).socket l).pendingH ≠
        pendingCount) :
      Effect n (.connect p fd addr) (enqueue (setOut n i addr) l (request (setOut n i addr) i))
  | idle {p : Nat} {fd : Int} {l : Nat} (hl : Names n p fd l)
      (hnone : (n.socket l).pendingH = (n.socket l).pendingT) : Effect n (.accept p fd) n
  | admitted {p : Nat} {fd : Int} {l s f : Nat} (hl : Names n p fd l)
      (hsome : (n.socket l).pendingH ≠ (n.socket l).pendingT) (hs : freeSocket n.files = some s)
      (hf : freeFile n.files = some f) : Effect n (.accept p fd) (admitted n p l s f)
  | notOpen {p : Nat} {fd : Int} : Effect n (.close p fd) n
  | closed {p : Nat} {fd : Int} {k : Nat × Nat} {f : Nat} (hk : n.files.ofile k = some f) :
      Effect n (.close p fd) { n with files := released n.files k f }

lemma call_effect (h : Tables n.files) (a : Act) : wp (call a) (fun _ m => Effect n a m) (fun _ _ => True) n := by
  cases a with
  | socket p family => exact wp_createSocket (fun _ _ => trivial) fun i f hi hf => .create hi hf
  | bind p fd sa =>
    change wp (bindSocket p fd sa) _ _ n
    unfold bindSocket
    rw [wp_bind]
    refine wp_socketOf_of_forall (fun _ => trivial) ?_
    intro i hi
    simp only [wp_bind, wp_get]
    split
    · trivial
    · exact .bind hi
  | listen p fd =>
    change wp (Net.listen p fd) _ _ n
    unfold Net.listen
    rw [wp_bind]
    refine wp_socketOf_of_forall (fun _ => trivial) ?_
    intro i hi
    exact .listen hi
  | connect p fd addr =>
    change wp (connect p fd addr) _ _ n
    by_cases hnames : ∃ i, Names n p fd i
    · rcases hnames with ⟨i, hi⟩
      rw [wp_connect hi]
      split
      · exact .refused hi
      · next l hl =>
          split
          · exact .refused hi
          · next hroom =>
              split
              · trivial
              · exact .requested hi hl hroom
    · unfold connect
      rw [wp_bind]
      exact wp_socketOf_of_forall (fun _ => trivial) fun i hi => absurd ⟨i, hi⟩ hnames
  | accept p fd =>
    change wp (accept p fd >>= _) _ _ n
    rw [wp_bind]
    by_cases hnames : ∃ l, Names n p fd l
    · rcases hnames with ⟨l, hl⟩
      rw [wp_accept hl]
      split
      · next hnone => exact .idle hl hnone
      · next hsome =>
          split
          · trivial
          · next s hs =>
              split
              · trivial
              · next f hf => exact .admitted hl hsome hs hf
    · unfold accept
      rw [wp_bind]
      exact wp_socketOf_of_forall (fun _ => trivial) fun i hi => absurd ⟨i, hi⟩ hnames
  | close p fd => exact wp_close h .notOpen fun k f hk => .closed hk

lemma step_effect {m : Host} {a : Act} (h : Tables n.files) (hstep : step n a = some m) : Effect n a m := by
  rcases Option.map_eq_some_iff.1 hstep with ⟨⟨r, m'⟩, hout, rfl⟩
  have heffect := wp_done (call_effect h a) (eq_done_of_toOption hout)
  exact heffect

lemma Effect.tables {m : Host} {a : Act} (he : Effect n a m) (h : Tables n.files) : Tables m.files := by
  cases he with
  | create hi hf => exact h.installed (freeSocket_spec hi).2 (freeFile_spec hf)
  | bind hi => exact h
  | listen hi => exact h
  | refused hi => exact h
  | requested hi hl hroom => exact h
  | idle hl hnone => exact h
  | admitted hl hsome hs hf => exact h.installed (freeSocket_spec hs).2 (freeFile_spec hf)
  | notOpen => exact h
  | closed hk => exact h.released hk

end Net
end OsRiscv
