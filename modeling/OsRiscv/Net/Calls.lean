import OsRiscv.Files.RefCount
import OsRiscv.Net.Model

/-!
# Calls — weakest preconditions for the calls of `Socket.c`

The rules say how each call on the file table ends, as a case distinction on what is free: a socket, a
`File`, a descriptor.
-/

namespace OsRiscv
namespace Net

open Function (update)
open Lib
open Files (socketCount)

/-! ## What is free -/

def freeSocket (s : Files.Sys) : Option Nat :=
  (List.range socketCount).find? fun i => s.socketUsed i = false

def freeFile (s : Files.Sys) : Option Nat :=
  (List.range Files.nfile).find? fun f => (s.file f).ref = 0

def freeFd (s : Files.Sys) (p : Nat) : Option Nat :=
  (List.range nofile).find? fun fd => s.ofile (p, fd) = none

lemma freeSocket_spec {s : Files.Sys} {i : Nat} (h : freeSocket s = some i) :
    i < socketCount ∧ s.socketUsed i = false := by
  have hmem := List.mem_of_find?_eq_some h
  have htest := List.find?_some h
  exact ⟨List.mem_range.1 hmem, by simpa using htest⟩

/-! ## The file table -/

section files

variable {s : Files.Sys} {E : Files.Panic → Files.Sys → Prop} {p : Nat} {Q : Option Nat → Files.Sys → Prop} {fd : Int}
  {i : Nat}

/-- `File` number `f` after `filealloc`. -/
def takeFile (s : Files.Sys) (f : Nat) : Files.Sys :=
  { s with file := update s.file f { s.file f with ref := 1 } }

lemma wp_filealloc : wp Files.filealloc Q E s ↔
      match freeFile s with
      | some f => Q (some f) (takeFile s f)
      | none => Q none s := by
  unfold Files.filealloc freeFile
  simp only [wp_bind, wp_get]
  cases (List.range Files.nfile).find? fun f => decide ((s.file f).ref = 0) with
  | none => exact .rfl
  | some x => exact .rfl

def takeSocket (s : Files.Sys) (i : Nat) : Files.Sys :=
  { s with socketUsed := update s.socketUsed i true }

lemma wp_socketAlloc : wp Files.socketAlloc Q E s ↔
      match freeSocket s with
      | some i => Q (some i) (takeSocket s i)
      | none => Q none s := by
  unfold Files.socketAlloc freeSocket
  simp only [wp_bind, wp_get]
  cases (List.range socketCount).find? fun i => decide (s.socketUsed i = false) with
  | none => exact .rfl
  | some x => exact .rfl

/-- A `File` that belongs to socket `i`. -/
def fillFile (s : Files.Sys) (f i : Nat) : Files.Sys :=
  let v := { s.file f with socket := i, type := .socket, readable := true, writable := true }
  { s with file := update s.file f v }

/-- The value of `fdalloc` as the calls return it. -/
def fdResult : Option Nat → Int
  | some fd => fd
  | none => -1

def setFd (s : Files.Sys) (p f : Nat) : Option Nat → Files.Sys
  | some fd => { s with ofile := update s.ofile (p, fd) (some f) }
  | none => s

lemma wp_installSocket {Q : Int → Files.Sys → Prop} {p f i : Nat} : wp (Files.installSocket p f i) Q E s ↔
      Q (fdResult (freeFd s p)) (setFd (fillFile s f i) p f (freeFd s p)) := by
  unfold Files.installSocket Files.fdalloc freeFd
  simp only [wp_bind, wp_get, Files.wp_setFile]
  cases (List.range nofile).find? fun fd => decide (s.ofile (p, fd) = none) with
  | none => exact .rfl
  | some x => exact .rfl

/-- The file table after a call took socket `i` and `File` number `f` and made a descriptor of `p`, if
one was free. -/
def installed (s : Files.Sys) (p f i : Nat) : Files.Sys :=
  setFd (fillFile (takeFile (takeSocket s i) f) f i) p f (freeFd s p)

end files

/-! ## Sockets -/

variable {n : Host} {E : Panic → Host → Prop}

lemma wp_onFiles {α : Type} {x : Files.KCall α} {Q : α → Host → Prop} : wp (onFiles x) Q E n ↔
      wp x (fun a s => Q a { n with files := s }) (fun r s => E (.files r) { n with files := s })
        n.files := by
  unfold wp onFiles
  cases x n.files with
  | done a s => exact .rfl
  | panic r s => exact .rfl

@[simp] lemma wp_setSocket {Q : Unit → Host → Prop} {v : Socket} :
    wp (setSocket i v) Q E n ↔ Q () { n with socket := update n.socket i v } := .rfl

/-- The host after `socketAlloc` took socket `i`. -/
def allocated (n : Host) (i : Nat) : Host :=
  { n with
    files := takeSocket n.files i
    socket := update n.socket i (cleared (n.socket i))
    gen := update n.gen i (n.gen i + 1)
    enqueued := update n.enqueued i []
    accepted := update n.accepted i [] }

lemma wp_socketAlloc_net {Q : Option Nat → Host → Prop} : wp socketAlloc Q E n ↔
      match freeSocket n.files with
      | some i => Q (some i) (allocated n i)
      | none => Q none n := by
  unfold socketAlloc
  rw [wp_bind, wp_onFiles, wp_socketAlloc]
  cases freeSocket n.files with
  | none => exact .rfl
  | some i => exact .rfl

/-- The descriptor `fd` of process `p` is one of socket `i`. -/
def Names (n : Host) (p : Nat) (fd : Int) (i : Nat) : Prop :=
  ∃ f, Files.argfd n.files p fd = some f ∧ (n.files.file f).type = .socket ∧
    (n.files.file f).socket = i

lemma wp_socketOf {Q : Nat → Host → Prop} (h : Names n p fd i) :
    wp (socketOf p fd) Q E n ↔ Q i n := by
  rcases h with ⟨f, hf, htype, hsocket⟩
  unfold socketOf
  simp only [wp_bind, wp_get, hf, htype, hsocket, ne_eq, not_true_eq_false, if_false, wp_pure]

lemma wp_socketOf_of_forall {Q : Nat → Host → Prop}
    (hpanic : ∀ r, E r n) (h : ∀ i, Names n p fd i → Q i n) : wp (socketOf p fd) Q E n := by
  unfold socketOf
  simp only [wp_bind, wp_get]
  split
  · exact hpanic _
  · next f hf =>
      split
      · exact hpanic _
      · next htype =>
          have htype' : (n.files.file f).type = .socket := by simpa using htype
          exact h _ ⟨f, hf, htype', rfl⟩

/-! ## Creation -/

/-- The host after `createSocket` gave socket `i` its family. -/
def created (n : Host) (i : Nat) (family : UInt16) : Host :=
  let m := allocated n i
  let v := { m.socket i with
    addr := { (m.socket i).addr with family := family }, pendingH := 0, pendingT := 0,
    listening := false }
  { m with socket := update m.socket i v }

lemma wp_createSocket {Q : Int → Host → Prop} {family : UInt16} (hpanic : ∀ r m, E r m)
    (h : ∀ i f, freeSocket n.files = some i → freeFile n.files = some f →
      Q (fdResult (freeFd n.files p)) { created n i family with files := installed n.files p f i }) :
    wp (createSocket p family) Q E n := by
  unfold createSocket
  rw [wp_bind, wp_onFiles, wp_filealloc]
  cases hfile : freeFile n.files with
  | none =>
    dsimp only
    rw [wp_bind, wp_socketAlloc_net]
    split
    · exact hpanic _ _
    · exact hpanic _ _
  | some f =>
    dsimp only
    rw [wp_bind, wp_socketAlloc_net]
    have hsame : freeSocket (takeFile n.files f) = freeSocket n.files := rfl
    rw [hsame]
    cases hsock : freeSocket n.files with
    | none => exact hpanic _ _
    | some i =>
      simp only [wp_bind, wp_get, wp_setSocket]
      rw [wp_onFiles, wp_installSocket]
      exact h i f hsock hfile

/-! ## Connections -/

/-- The request of socket `i` at `l`. -/
def request (n : Host) (i : Nat) : Request := { addr := (n.socket i).addr, client := i, gen := n.gen i }

def enqueue (n : Host) (l : Nat) (r : Request) : Host :=
  { n with
    socket := update n.socket l (pushRequest (n.socket l) r)
    enqueued := update n.enqueued l (n.enqueued l ++ [r]) }

lemma wp_connect {Q : Int → Host → Prop} {addr : SocketAddr}
    (hnames : Names n p fd i) : wp (connect p fd addr) Q E n ↔
      match remoteFindListeningSocket (setOut n i addr) addr with
      | none => Q (-1) (setOut n i addr)
      | some l =>
        if ((setOut n i addr).socket l).pendingT - ((setOut n i addr).socket l).pendingH =
            pendingCount then
          Q (-1) (setOut n i addr)
        else if ((setOut n i addr).socket l).pendingT = 2 ^ 31 - 1 then
          E .overflow (setOut n i addr)
        else
          Q 0 (enqueue (setOut n i addr) l (request (setOut n i addr) i)) := by
  unfold connect
  rw [wp_bind, wp_socketOf hnames]
  simp only [wp_bind, wp_modify, wp_get]
  cases remoteFindListeningSocket (setOut n i addr) addr with
  | none => exact .rfl
  | some l =>
    dsimp only
    split
    · exact .rfl
    · split
      · exact .rfl
      · exact .rfl

/-- The oldest request at `l`, and the host without it. -/
def oldest (n : Host) (l : Nat) : Request :=
  (n.socket l).pendingQueue ((n.socket l).pendingH % pendingCount)

def dequeue (n : Host) (l : Nat) : Host :=
  { n with
    socket := update n.socket l { n.socket l with pendingH := (n.socket l).pendingH + 1 } }

/-- The host after `accept` at `l` gave the new socket `s` its addresses. -/
def answered (n : Host) (l s : Nat) : Host :=
  let m := allocated (dequeue n l) s
  let v := { m.socket s with addr := (m.socket l).addr, targetAddr := (oldest n l).addr }
  { m with socket := update m.socket s v }

lemma wp_accept {Q : Int × Option SocketAddr → Host → Prop} {l : Nat}
    (hnames : Names n p fd l) : wp (accept p fd) Q E n ↔
      if (n.socket l).pendingH = (n.socket l).pendingT then Q (-11, none) n
      else match freeSocket n.files with
        | none => E (.files .noSocket) (dequeue n l)
        | some s =>
          match freeFile n.files with
          | none => E .assertion (answered n l s)
          | some f =>
            let fd := fdResult (freeFd n.files p)
            Q (fd, some (oldest n l).addr) (noteAccept l (oldest n l) s fd
              { answered n l s with files := installed n.files p f s }) := by
  unfold accept
  rw [wp_bind, wp_socketOf hnames]
  simp only [wp_bind, wp_get]
  split
  · exact .rfl
  · simp only [wp_bind, wp_setSocket]
    rw [wp_socketAlloc_net]
    cases freeSocket n.files with
    | none => exact .rfl
    | some s =>
      simp only [wp_bind, wp_get, wp_setSocket]
      rw [wp_onFiles, wp_filealloc]
      change (match freeFile n.files with
        | some f => _
        | none => _) ↔ _
      cases freeFile n.files with
      | none => exact .rfl
      | some f =>
        simp only [wp_bind]
        rw [wp_onFiles, wp_installSocket]
        exact .rfl

end Net
end OsRiscv
