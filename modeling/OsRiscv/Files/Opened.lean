import OsRiscv.Files.RefCount

/-!
# Opened — the files that are entries of the directory tree

Only `open` and `mount` make a file an `FD_ENTRY` or change its `ep`.  Every other call of the file table leaves
such a file as it is or closes it, and a file that is closed is no entry any more.  This needs none of the
conditions under which the reference counts are right.
-/

namespace OsRiscv
namespace Files

open Function (update update_of_ne update_self)
open Lib

/-- A file that is an entry is in use and has an `ep` that `A` allows; `live` are the live processes. -/
structure Within (A : Nat → Option Nat → Prop) (live : Nat → Bool) (s : Sys) : Prop where
  entry : ∀ f, (s.file f).type = .entry → 0 < (s.file f).ref ∧ A f (s.file f).ep
  live : s.live = live

variable {A : Nat → Option Nat → Prop} {live : Nat → Bool} {s t : Sys} {p f fd : Nat}

/-! ## The basic calls -/

lemma Within.setFile {v : File} (h : Within A live s) (hv : v.type = .entry → 0 < v.ref ∧ A f v.ep) :
    Within A live { s with file := update s.file f v } := by
  refine ⟨fun g hg => ?_, h.live⟩
  by_cases hgf : g = f
  · subst hgf
    simp only [update_self] at hg ⊢
    exact hv hg
  · simp only [update_of_ne hgf] at hg ⊢
    exact h.entry g hg

lemma keeps_setFile {v : File} (hv : v.type ≠ .entry) : Keeps (Within A live) (setFile f v) :=
  fun _ h => h.setFile fun hentry => absurd hentry hv

lemma keeps_setSlot (o : Option Nat) : Keeps (Within A live) (setSlot p fd o) := fun _ h => ⟨h.entry, h.live⟩

lemma Within.unused (h : Within A live s) (hfree : (s.file f).ref = 0) : (s.file f).type ≠ .entry := by
  intro hentry
  have hpos := (h.entry f hentry).1
  omega

lemma keeps_filealloc : Keeps (Within A live) filealloc := by
  intro s h
  refine filealloc_wp h fun f hfree => ?_
  exact h.setFile fun hentry => absurd hentry (h.unused hfree)

lemma keeps_filedup (f : Nat) : Keeps (Within A live) (filedup f) := by
  intro s h
  unfold filedup
  simp only [wp_bind, wp_get]
  split
  · trivial
  · exact h.setFile fun hentry => ⟨Nat.succ_pos _, (h.entry f hentry).2⟩

lemma keeps_pipeClose (pi : Nat) (writable : Bool) : Keeps (Within A live) (pipeClose pi writable) :=
  fun _ h => ⟨h.entry, h.live⟩

lemma keeps_socketFree (i : Nat) : Keeps (Within A live) (socketFree i) := fun _ h => ⟨h.entry, h.live⟩

lemma keeps_noteClose (f : Nat) : Keeps (Within A live) (noteClose f) := fun _ h => ⟨h.entry, h.live⟩

lemma keeps_fileclose (f : Nat) : Keeps (Within A live) (fileclose f) := by
  intro s h
  unfold fileclose
  simp only [wp_bind, wp_get]
  split
  · trivial
  · split
    · rename_i hmore
      exact h.setFile fun hentry => ⟨hmore, (h.entry f hentry).2⟩
    · -- the last reference: the file has no type any more
      rw [wp_bind]
      refine wp_mono (keeps_setFile (by simp) s h) fun _ u hu => ?_
      cases (s.file f).type with
      | pipe => exact Keeps.bind (keeps_noteClose f) (fun _ => keeps_pipeClose _ _) u hu
      | socket => exact Keeps.bind (keeps_noteClose f) (fun _ => keeps_socketFree _) u hu
      | none => exact hu
      | entry => exact hu
      | device => exact hu

lemma keeps_fdalloc (p f : Nat) : Keeps (Within A live) (fdalloc p f) := by
  refine .bind .get fun s => ?_
  split
  · exact .bind (keeps_setSlot _) fun _ => .pure _
  · exact .pure _

/-! ## The system calls -/

lemma keeps_syscallDup (p : Nat) (fd : Int) : Keeps (Within A live) (syscallDup p fd) := by
  refine .bind .get fun s => ?_
  split
  · exact .pure _
  · refine .bind (keeps_fdalloc _ _) fun o => ?_
    cases o with
    | none => exact .pure _
    | some fd => exact .bind (keeps_filedup _) fun _ => .pure _

lemma keeps_syscallDupAndSet (p : Nat) (fd fdnew : Int) : Keeps (Within A live) (syscallDupAndSet p fd fdnew) := by
  refine .bind .get fun s => ?_
  split
  · exact .pure _
  · split
    · exact .pure _
    · rename_i f _ _
      have hset : Keeps (Within A live) (do setSlot p fdnew.toNat (some f); filedup f; return fdnew) :=
        .bind (keeps_setSlot _) fun _ => .bind (keeps_filedup _) fun _ => .pure _
      split
      · exact .bind (keeps_fileclose _) fun _ => hset
      · exact hset

lemma keeps_syscall_fcntl (p : Nat) (fd : Int) (cmd : Nat) : Keeps (Within A live) (syscall_fcntl p fd cmd) := by
  refine .bind .get fun s => ?_
  split
  · exact .pure _
  · iterate 3 refine iteInduction (fun _ => .pure _) fun _ => ?_
    refine iteInduction (fun _ => ?_) fun _ => iteInduction (fun _ => .pure _) fun _ => .panic _
    refine .bind (keeps_fdalloc _ _) fun o => ?_
    exact .bind (keeps_filedup _) fun _ => .pure _

lemma keeps_syscallClose (p : Nat) (fd : Int) : Keeps (Within A live) (syscallClose p fd) := by
  refine .bind .get fun s => ?_
  split
  · exact .pure _
  · refine .bind (keeps_setSlot _) fun _ => ?_
    exact .bind (keeps_fileclose _) fun _ => .pure _

lemma keeps_allocWithFd (p : Nat) : Keeps (Within A live) (allocWithFd p) := by
  refine .bind keeps_filealloc fun o => ?_
  cases o with
  | none => exact .pure _
  | some f =>
    refine .bind (keeps_fdalloc _ _) fun o => ?_
    cases o with
    | none => exact .bind (keeps_fileclose _) fun _ => .pure _
    | some fd => exact .pure _

lemma keeps_syscallDevice (p : Nat) (major : Int) (omode : Nat) :
    Keeps (Within A live) (syscallDevice p major omode) := by
  refine iteInduction (fun _ => .panic _) fun _ => iteInduction (fun _ => .pure _) fun _ => ?_
  refine .bind (keeps_allocWithFd p) fun o => ?_
  cases o with
  | none => exact .pure _
  | some r =>
    refine .bind .get fun s => ?_
    exact .bind (keeps_setFile (by simp)) fun _ => .pure _

lemma keeps_pipeAlloc : Keeps (Within A live) pipeAlloc := by
  refine .bind .get fun s => ?_
  split
  · exact .bind (.modify fun _ h => ⟨h.entry, h.live⟩) fun _ => .pure _
  · exact .panic _

lemma keeps_pipeNew : Keeps (Within A live) pipeNew := by
  refine .bind keeps_filealloc fun o => ?_
  cases o with
  | none => exact .pure _
  | some f0 =>
    refine .bind keeps_filealloc fun o => ?_
    cases o with
    | none => exact .bind (keeps_fileclose _) fun _ => .pure _
    | some f1 =>
      refine .bind keeps_pipeAlloc fun pi => .bind .get fun s => ?_
      refine .bind (keeps_setFile (by simp)) fun _ => .bind .get fun s => ?_
      exact .bind (keeps_setFile (by simp)) fun _ => .pure _

lemma keeps_syscallPipe (p : Nat) (copied : Bool) : Keeps (Within A live) (syscallPipe p copied) := by
  have hclose : ∀ rf wf : Nat, Keeps (Within A live) (do fileclose rf; fileclose wf; return (-1 : Int)) := fun rf wf =>
    .bind (keeps_fileclose rf) fun _ => .bind (keeps_fileclose wf) fun _ => .pure _
  refine .bind keeps_pipeNew fun o => ?_
  rcases o with _ | ⟨rf, wf⟩
  · exact .pure _
  · refine .bind (keeps_fdalloc _ _) fun o => ?_
    cases o with
    | none => exact hclose rf wf
    | some fd0 =>
      refine .bind (keeps_fdalloc _ _) fun o => ?_
      cases o with
      | none => exact .bind (keeps_setSlot _) fun _ => hclose rf wf
      | some fd1 =>
        refine iteInduction (fun _ => .pure _) fun _ => ?_
        exact .bind (keeps_setSlot _) fun _ => .bind (keeps_setSlot _) fun _ => hclose rf wf

lemma keeps_socketAlloc : Keeps (Within A live) socketAlloc := by
  refine .bind .get fun s => ?_
  split
  · exact .bind (.modify fun _ h => ⟨h.entry, h.live⟩) fun _ => .pure _
  · exact .pure _

lemma keeps_installSocket (p f i : Nat) : Keeps (Within A live) (installSocket p f i) := by
  refine .bind .get fun s => .bind (keeps_setFile (by simp)) fun _ => ?_
  exact .bind (keeps_fdalloc _ _) fun _ => .pure _

lemma keeps_createSocket (p : Nat) : Keeps (Within A live) (createSocket p) := by
  refine .bind keeps_filealloc fun f => .bind keeps_socketAlloc fun o => ?_
  cases o with
  | none => exact .panic _
  | some i =>
    cases f with
    | none => exact .panic _
    | some f => exact keeps_installSocket p f i

lemma keeps_accept (p : Nat) (sockfd : Int) (pending : Bool) : Keeps (Within A live) (accept p sockfd pending) := by
  refine .bind .get fun s => ?_
  split
  · exact .panic _
  · refine iteInduction (fun _ => .panic _) fun _ => iteInduction (fun _ => .pure _) fun _ => ?_
    refine .bind keeps_socketAlloc fun o => ?_
    cases o with
    | none => exact .panic _
    | some i =>
      refine .bind keeps_filealloc fun f => ?_
      cases f with
      | none => exact .panic _
      | some f => exact keeps_installSocket p f i

/-! ## Fork and exit -/

lemma processFork_within (p child : Nat) (h : Within A live s) :
    wp (processFork p child) (fun _ => Within A (update live child true)) (fun _ _ => True) s := by
  have hborn : Within A (update live child true) { s with live := update s.live child true } :=
    ⟨h.entry, by rw [← h.live]⟩
  unfold processFork
  rw [wp_bind, wp_modify, wp_bind]
  refine wp_mono (Keeps.forEach (fun fd => ?_) _ _ hborn) fun _ _ ht => ht
  refine .bind .get fun s => ?_
  split
  · exact .bind (keeps_filedup _) fun _ => keeps_setSlot _
  · exact .pure _

lemma processFree_within (p : Nat) (h : Within A live s) :
    wp (processFree p) (fun _ => Within A (update live p false)) (fun _ _ => True) s := by
  unfold processFree
  rw [wp_bind]
  refine wp_mono (Keeps.forEach (fun fd => ?_) _ _ h) fun _ t ht => ?_
  · refine .bind .get fun s => ?_
    split
    · exact .bind (keeps_fileclose _) fun _ => keeps_setSlot _
    · exact .pure _
  · exact ⟨ht.entry, by rw [← ht.live]⟩

/-! ## Open -/

lemma allocWithFd_within {Q : Option (Nat × Nat) → Sys → Prop} (h : Within A live s)
    (hnone : ∀ t, Within A live t → Q none t)
    (hsome : ∀ f fd t, Within A live t → t.ofile (p, fd) = some f → 0 < (t.file f).ref → Q (some (f, fd)) t) :
    wp (allocWithFd p) Q (fun _ _ => True) s := by
  unfold allocWithFd
  rw [wp_bind]
  refine filealloc_wp (hnone s h) fun f hfree => ?_
  have halloc : Within A live { s with file := update s.file f { s.file f with ref := 1 } } :=
    h.setFile fun hentry => absurd hentry (h.unused hfree)
  rw [wp_bind]
  refine fdalloc_wp ?_ ?_
  · intro _
    rw [wp_bind]
    exact wp_mono (keeps_fileclose f _ halloc) fun _ t ht => hnone t ht
  · intro fd _ _
    refine hsome f fd _ ⟨halloc.entry, halloc.live⟩ ?_ ?_
    · simp
    · simp

/-- `open` fails, or makes one file the entry. -/
theorem syscallOpenAt_within {e flags fileSize : Nat} (h : Within A live s) :
    wp (syscallOpenAt p (.ok e) flags fileSize)
      (fun r t => (r < 0 ∧ Within A live t) ∨
        ∃ f, 0 ≤ r ∧ t.ofile (p, r.toNat) = some f ∧ Within (fun g o => if g = f then o = some e else A g o) live t)
      (fun _ _ => True) s := by
  unfold syscallOpenAt
  rw [wp_bind]
  refine allocWithFd_within h (fun t ht => .inl ⟨by decide, ht⟩) fun f fd t ht hslot hpos => ?_
  refine .inr ⟨f, Int.natCast_nonneg fd, hslot, fun g hg => ?_, ht.live⟩
  by_cases hgf : g = f
  · subst hgf
    simp only [update_self, if_pos trivial]
    exact ⟨hpos, trivial⟩
  · simp only [update_of_ne hgf] at hg ⊢
    rw [if_neg hgf]
    exact ht.entry g hg

/-! ## All calls but those of the tree -/

/-- The calls that neither look up a path nor start or end a process. -/
def Act.Tabular : Act → Prop
  | .openAt _ _ _ _ | .mount _ _ _ | .umount _ _ _ | .fork _ _ | .exit _ => False
  | _ => True

lemma keeps_call {a : Act} (ha : a.Tabular) : Keeps (Within A live) (call a) := by
  cases a with
  | dup p fd => exact keeps_syscallDup p fd
  | dupAndSet p fd fdnew => exact keeps_syscallDupAndSet p fd fdnew
  | fcntl p fd cmd => exact keeps_syscall_fcntl p fd cmd
  | pipe p copied => exact keeps_syscallPipe p copied
  | socket p => exact keeps_createSocket p
  | accept p sockfd pending => exact keeps_accept p sockfd pending
  | device p major omode => exact keeps_syscallDevice p major omode
  | close p fd => exact keeps_syscallClose p fd
  | openAt p entry flags fileSize => exact ha.elim
  | mount p args flag => exact ha.elim
  | umount p ep flag => exact ha.elim
  | fork p child => exact ha.elim
  | exit p => exact ha.elim

end Files
end OsRiscv
