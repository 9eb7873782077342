import OsRiscv.Descriptor.Checks

/-!
# Validated — which calls check their descriptor

For each call, exactly when all its accesses are valid and a descriptor that is not valid for the call gives a negative
result and no change.  `read`, `write` and `fork` always do; the socket calls only if there is nothing to check.
-/

namespace OsRiscv
namespace Descriptor

open Lib Files

inductive Request
  | fdalloc
  | fork (child : Nat)
  | read (fd len : Int)
  | write (fd len : Int)
  | pread (fd : Int)
  | lseek (fd mode : Int)
  | bind (fd : Int)
  | listen (fd : Int)
  | accept (fd : Int) (pending : Bool)
  | connect (fd : Int)
  | sendto (a0 a5 : Nat)
  | recvfrom (a0 : Nat)
  | openat (fd : Int) (path : Tree.Str) (creating found : Bool)

/-- The call; `k` is what it does after its checks. -/
def run (s : Sys) (p : Nat) (k : Rest) : Request → Op Done
  | .fdalloc => do
      let _ ← fdalloc s p
      return k.done
  | .fork child => processFork s p child k
  | .read fd len => syscallRead s p fd len k
  | .write fd len => syscallWrite s p fd len k
  | .pread fd => syscallPRead s p fd k
  | .lseek fd mode => syscallLSeek s p fd mode k
  | .bind fd => bindSocket s p fd k
  | .listen fd => listen s p fd k
  | .accept fd pending => accept s p fd pending k
  | .connect fd => connect s p fd k
  | .sendto a0 a5 => syscallSendTo s p a0 a5 k
  | .recvfrom a0 => syscallReceiveFrom s p a0 k
  | .openat fd path creating found => syscallOpenAt s p fd path creating found k

/-! ## What should hold -/

def InTable (fd : Int) : Prop := 0 ≤ fd ∧ fd < nofile

instance (fd : Int) : Decidable (InTable fd) := inferInstanceAs (Decidable (_ ∧ _))

/-- The descriptor is open. -/
def IsOpen (s : Sys) (p : Nat) (fd : Int) : Prop := InTable fd ∧ s.files.ofile (p, fd.toNat) ≠ none

/-- The descriptor is open, with a file of the type. -/
def IsOpenAs (s : Sys) (p : Nat) (fd : Int) (type : FileType) : Prop :=
  InTable fd ∧ ∃ f, s.files.ofile (p, fd.toNat) = some f ∧ (s.files.file f).type = type

/-- The path is looked up from the descriptor. -/
def FromFd (fd : Int) (path : Tree.Str) : Prop := path.head? ≠ some Tree.slash ∧ fd ≠ Tree.atFdcwd

/-- The descriptor is valid for the call. -/
def GoodFd (s : Sys) (p : Nat) : Request → Prop
  | .fdalloc | .fork _ => True
  | .read fd _ | .write fd _ => IsOpen s p fd
  | .pread fd => IsOpenAs s p fd .entry
  | .lseek fd mode => if mode = seekEnd then IsOpenAs s p fd .entry else IsOpen s p fd
  | .bind fd | .listen fd | .accept fd _ | .connect fd => IsOpenAs s p fd .socket
  | .sendto a0 _ | .recvfrom a0 => IsOpenAs s p a0 .socket
  | .openat fd path _ _ => FromFd fd path → IsOpenAs s p fd .entry

structure Validated (s : Sys) (p : Nat) (k : Rest) (q : Request) : Prop where
  accesses : (run s p k q).All Access.Valid
  refused : ¬GoodFd s p q → ∃ r < 0, (run s p k q).result = .ok (r, s)

/-! ## The condition -/

/-- `fdalloc` finds a slot before it leaves the table, or it does not leave it. -/
def RoomOrLimit (s : Sys) (p : Nat) : Prop :=
  s.hard p ≤ nofile ∨ ∃ fd < nofile, fd < s.hard p ∧ s.files.ofile (p, fd) = none

/-- The lookup of the path has somewhere to begin. -/
def Starts (s : Sys) (p : Nat) (fd : Int) (path : Tree.Str) : Prop :=
  (FromFd fd path ∧ IsOpen s p fd) ∨ (¬FromFd fd path ∧ path ≠ [])

def Checked (s : Sys) (p : Nat) : Request → Prop
  | .fdalloc => RoomOrLimit s p
  | .fork _ | .read _ _ | .write _ _ => True
  | .pread fd => InTable fd ∧ ∀ f, s.files.ofile (p, fd.toNat) = some f → (s.files.file f).type = .entry
  | .lseek fd mode => mode = seekEnd → InTable fd →
      ∀ f, s.files.ofile (p, fd.toNat) = some f → (s.files.file f).type = .entry
  | .bind fd | .listen fd | .connect fd => IsOpenAs s p fd .socket
  | .accept fd pending => IsOpenAs s p fd .socket ∧ (pending = true → RoomOrLimit s p)
  | .sendto a0 _ | .recvfrom a0 => IsOpenAs s p a0 .socket
  | .openat fd path _ found =>
    (FromFd fd path → InTable fd → ∀ f, s.files.ofile (p, fd.toNat) = some f → (s.files.file f).type = .entry) ∧
      (found = true → Starts s p fd path → RoomOrLimit s p)

variable {s : Sys} {p child fuel i hard : Nat} {fd : Int} {k : Rest} {α β : Type} {f : Option Nat} {q : Request}

/-! ## Accesses -/

lemma ofile_of_inTable (h : InTable fd) : (ofile s p fd).result = .ok (s.files.ofile (p, fd.toNat)) ∧
    (ofile s p fd).All Access.Valid := by
  have hin : 0 ≤ fd ∧ fd < nofile := h
  unfold ofile
  rw [if_pos hin, Trace.all_bind_ok rfl, Trace.all_emit]
  exact ⟨rfl, h, Trace.all_pure _⟩

lemma not_all_ofile (h : ¬InTable fd) (g : Option Nat → Op β) : ¬(ofile s p fd >>= g).All Access.Valid := by
  rw [Trace.all_bind]
  rintro ⟨hall, _⟩
  unfold ofile at hall
  rw [Trace.all_bind_ok rfl, Trace.all_emit] at hall
  exact h hall.1

lemma all_ofile (h : InTable fd) (g : Option Nat → Op β) :
    (ofile s p fd >>= g).All Access.Valid ↔ (g (s.files.ofile (p, fd.toNat))).All Access.Valid := by
  rw [Trace.all_bind_ok (ofile_of_inTable h).1]
  exact and_iff_right (ofile_of_inTable h).2

lemma all_deref_some (f : Nat) (g : File → Op β) :
    (deref s (some f) >>= g).All Access.Valid ↔ (g (s.files.file f)).All Access.Valid := by
  rw [Trace.all_bind_ok rfl]
  refine and_iff_right ?_
  unfold deref
  rw [Trace.all_bind_ok rfl]
  exact ⟨by simp [Access.Valid], Trace.all_pure _⟩

lemma not_all_deref_none (g : File → Op β) : ¬(deref s none >>= g).All Access.Valid := by
  rw [Trace.all_bind_error rfl]
  unfold deref
  rw [Trace.all_bind_ok rfl, Trace.all_emit]
  exact fun h => h.1 rfl

lemma all_emit_bind (a : Access) (g : Unit → Op β) :
    (Trace.emit a >>= g).All Access.Valid ↔ a.Valid ∧ (g ()).All Access.Valid := by
  rw [Trace.all_bind_ok rfl, Trace.all_emit]

lemma all_checkFd (g : Option Nat → Op β) : (checkFd s p fd >>= g).All Access.Valid ↔
      (g (if InTable fd then s.files.ofile (p, fd.toNat) else none)).All Access.Valid := by
  unfold checkFd
  by_cases h : InTable fd
  · rw [if_neg (by unfold InTable at h; omega), if_pos h]
    exact all_ofile h g
  · rw [if_pos (by unfold InTable at h; omega), if_neg h]
    rw [Trace.all_bind_ok rfl]
    exact and_iff_right (Trace.all_pure _)

/-! ## `fdalloc` and `fork` -/

lemma fdallocLoop_all (hi : i ≤ nofile) (hfuel : nofile < fuel + i) : (fdallocLoop s p fuel i).All Access.Valid ↔
      s.hard p ≤ nofile ∨ ∃ fd < nofile, i ≤ fd ∧ fd < s.hard p ∧ s.files.ofile (p, fd) = none := by
  induction fuel generalizing i with
  | zero => omega
  | succ fuel ih =>
    unfold fdallocLoop
    by_cases hhard : s.hard p ≤ i
    · rw [if_pos hhard]
      exact iff_of_true (Trace.all_pure _) (.inl (by omega))
    · rw [if_neg hhard]
      by_cases hlast : i = nofile
      · -- outside of the table
        have hout : ¬InTable (i : Int) := by
          unfold InTable
          omega
        refine iff_of_false (not_all_ofile hout _) ?_
        rintro (hle | ⟨fd, hfd, hge, _⟩)
        · omega
        · omega
      · have hin : InTable (i : Int) := ⟨by omega, by omega⟩
        have hnat : ((i : Int)).toNat = i := Int.toNat_natCast i
        rw [all_ofile hin, hnat]
        cases hslot : s.files.ofile (p, i) with
        | none => exact iff_of_true (Trace.all_pure _) (.inr ⟨i, by omega, Nat.le_refl _, by omega, hslot⟩)
        | some f =>
          rw [ih (by omega) (by omega)]
          refine or_congr .rfl ?_
          constructor
          · rintro ⟨fd, hfd, hge, hrest⟩
            exact ⟨fd, hfd, by omega, hrest⟩
          · rintro ⟨fd, hfd, hge, hlt, hnone⟩
            refine ⟨fd, hfd, ?_, hlt, hnone⟩
            have hne : fd ≠ i := by
              rintro rfl
              rw [hslot] at hnone
              cases hnone
            omega

lemma all_fdalloc : (fdalloc s p).All Access.Valid ↔ RoomOrLimit s p := by
  unfold fdalloc RoomOrLimit
  rw [fdallocLoop_all (Nat.zero_le _) (by omega)]
  simp

lemma all_fdalloc_bind (g : Option Nat → Op β) (hg : ∀ o, (g o).All Access.Valid) :
    (fdalloc s p >>= g).All Access.Valid ↔ RoomOrLimit s p := by
  rw [Trace.all_bind, all_fdalloc]
  exact and_iff_left fun o _ => hg o

lemma copyLoop_all (hhard : hard ≤ nofile) : (copyLoop s p child hard fuel i).All Access.Valid := by
  induction fuel generalizing i with
  | zero => exact Trace.all_pure _
  | succ fuel ih =>
    unfold copyLoop
    split
    · exact Trace.all_pure _
    · have hin : InTable (i : Int) := ⟨by omega, by omega⟩
      rw [all_ofile hin]
      cases hslot : s.files.ofile (p, (i : Int).toNat) with
      | none => exact ih
      | some f =>
        rw [all_ofile hin, hslot, all_deref_some, all_ofile hin]
        exact ih

/-! ## Calls that check -/

/-- The file that a checked descriptor leads to. -/
def fileAt (s : Sys) (p : Nat) (fd : Int) : Option Nat := if InTable fd then s.files.ofile (p, fd.toNat) else none

lemma isOpen_iff : IsOpen s p fd ↔ fileAt s p fd ≠ none := by
  unfold IsOpen fileAt
  by_cases h : InTable fd
  · rw [if_pos h]
    exact and_iff_right h
  · rw [if_neg h]
    exact iff_of_false (fun hopen => h hopen.1) fun hne => hne rfl

lemma isOpenAs_iff {type : FileType} :
    IsOpenAs s p fd type ↔ ∃ f, fileAt s p fd = some f ∧ (s.files.file f).type = type := by
  unfold IsOpenAs fileAt
  by_cases h : InTable fd
  · rw [if_pos h]
    exact and_iff_right h
  · rw [if_neg h]
    refine iff_of_false (fun hopen => h hopen.1) ?_
    rintro ⟨f, hf, _⟩
    cases hf

lemma checkFd_result : (checkFd s p fd).result = .ok (fileAt s p fd) := by
  unfold checkFd fileAt
  by_cases h : InTable fd
  · rw [if_neg (by unfold InTable at h; omega), if_pos h]
    exact (ofile_of_inTable h).1
  · rw [if_pos (by unfold InTable at h; omega), if_neg h]
    rfl

lemma useFile_all (file : File) (allowed : Bool) : (useFile s file allowed k).All Access.Valid := by
  unfold useFile
  split
  · exact Trace.all_pure _
  · cases htype : file.type with
    | none => exact Trace.all_stop _
    | device => exact Trace.all_pure _
    | pipe | entry | socket =>
      rw [all_emit_bind]
      exact ⟨rfl, Trace.all_pure _⟩

lemma transfer_all (allowed : File → Bool) (len : Int) : (transfer allowed s p fd len k).All Access.Valid := by
  unfold transfer
  rw [all_checkFd]
  cases (if InTable fd then s.files.ofile (p, fd.toNat) else none) with
  | none => exact Trace.all_pure _
  | some f =>
    dsimp only
    split
    · exact Trace.all_pure _
    · rw [all_deref_some]
      exact useFile_all _ _

lemma transfer_refused (allowed : File → Bool) (len : Int) (hbad : ¬IsOpen s p fd) :
    (transfer allowed s p fd len k).result = .ok (-1, s) := by
  have hnone : fileAt s p fd = none := by
    by_contra hne
    exact hbad (isOpen_iff.2 hne)
  unfold transfer
  rw [Trace.result_bind_ok checkFd_result, hnone]
  rfl

lemma fork_validated : Validated s p k (.fork child) := by
  constructor
  · show (processFork s p child k).All _
    unfold processFork
    rw [Trace.all_bind]
    exact ⟨copyLoop_all (Nat.le_refl _), fun _ _ => Trace.all_pure _⟩
  · intro hbad
    exact absurd trivial hbad

lemma fdalloc_iff : Validated s p k .fdalloc ↔ Checked s p .fdalloc := by
  have hall : (run s p k .fdalloc).All Access.Valid ↔ RoomOrLimit s p :=
    all_fdalloc_bind _ fun _ => Trace.all_pure _
  constructor
  · intro h
    exact hall.1 h.accesses
  · intro h
    exact ⟨hall.2 h, fun hbad => absurd trivial hbad⟩

lemma lseek_iff (mode : Int) : Validated s p k (.lseek fd mode) ↔ Checked s p (.lseek fd mode) := by
  have hall : (syscallLSeek s p fd mode k).All Access.Valid ↔
      ∀ f, fileAt s p fd = some f → mode = seekEnd → (s.files.file f).type = .entry := by
    unfold syscallLSeek
    rw [all_checkFd, ← fileAt]
    cases fileAt s p fd with
    | none => exact iff_of_true (Trace.all_pure _) fun f hf => by cases hf
    | some f =>
      rw [all_deref_some]
      by_cases hearly : mode = 0 ∨ mode = 1
      · rw [if_pos hearly]
        refine iff_of_true (Trace.all_pure _) fun _ _ hend => ?_
        unfold seekEnd at hend
        omega
      · rw [if_neg hearly]
        by_cases hend : mode = seekEnd
        · rw [if_pos hend, all_emit_bind]
          constructor
          · rintro ⟨hvalid, _⟩ f' hf' _
            cases hf'
            exact hvalid
          · intro h
            exact ⟨h f rfl hend, Trace.all_pure _⟩
        · rw [if_neg hend]
          exact iff_of_true (Trace.all_pure _) fun _ _ h => absurd h hend
  have hchecked : Checked s p (.lseek fd mode) ↔
      ∀ f, fileAt s p fd = some f → mode = seekEnd → (s.files.file f).type = .entry := by
    unfold Checked fileAt
    constructor
    · intro h f hf hend
      split at hf
      · rename_i hin
        exact h hend hin f hf
      · cases hf
    · intro h hend hin f hf
      exact h f (by rw [if_pos hin]; exact hf) hend
  rw [hchecked]
  constructor
  · intro h
    exact hall.1 h.accesses
  · intro h
    refine ⟨hall.2 h, fun hbad => ⟨-1, by omega, ?_⟩⟩
    -- with the condition, a descriptor that is not good is not open
    have hnone : fileAt s p fd = none := by
      by_contra hne
      refine hbad ?_
      unfold GoodFd
      dsimp only
      split
      · rename_i hend
        rcases Option.ne_none_iff_exists'.1 hne with ⟨f, hf⟩
        exact isOpenAs_iff.2 ⟨f, hf, h f hf hend⟩
      · exact isOpen_iff.2 hne
    show (syscallLSeek s p fd mode k).result = _
    unfold syscallLSeek
    rw [Trace.result_bind_ok checkFd_result, hnone]
    rfl

/-! ## Calls that do not check -/

lemma pread_iff : Validated s p k (.pread fd) ↔ Checked s p (.pread fd) := by
  by_cases hin : InTable fd
  · have hall : (syscallPRead s p fd k).All Access.Valid ↔
        ∀ f, s.files.ofile (p, fd.toNat) = some f → (s.files.file f).type = .entry := by
      unfold syscallPRead
      rw [all_ofile hin]
      cases s.files.ofile (p, fd.toNat) with
      | none => exact iff_of_true (Trace.all_pure _) fun f hf => by cases hf
      | some f =>
        rw [all_deref_some, all_emit_bind]
        constructor
        · rintro ⟨hvalid, _⟩ f' hf'
          cases hf'
          exact hvalid
        · intro h
          exact ⟨h f rfl, Trace.all_pure _⟩
    constructor
    · intro h
      exact ⟨hin, hall.1 h.accesses⟩
    · rintro ⟨_, h⟩
      refine ⟨hall.2 h, fun hbad => ⟨-1, by omega, ?_⟩⟩
      have hnone : s.files.ofile (p, fd.toNat) = none := by
        by_contra hne
        rcases Option.ne_none_iff_exists'.1 hne with ⟨f, hf⟩
        exact hbad ⟨hin, f, hf, h f hf⟩
      show (syscallPRead s p fd k).result = _
      unfold syscallPRead
      rw [Trace.result_bind_ok (ofile_of_inTable hin).1, hnone]
      rfl
  · exact iff_of_false (fun h => not_all_ofile hin _ h.accesses) fun h => hin h.1

lemma socketOf_cases (s : Sys) (p : Nat) (fd : Int) : (IsOpenAs s p fd .socket ∧ (socketOf s p fd).All Access.Valid ∧
      (socketOf s p fd).result = .ok ()) ∨
    (¬IsOpenAs s p fd .socket ∧ ∃ stop, (socketOf s p fd).result = .error stop) := by
  by_cases hin : InTable fd
  · unfold socketOf
    rw [all_ofile hin, Trace.result_bind_ok (ofile_of_inTable hin).1]
    cases hslot : s.files.ofile (p, fd.toNat) with
    | none =>
      refine .inr ⟨?_, .nullPointer, rfl⟩
      rintro ⟨_, f, hf, _⟩
      rw [hslot] at hf
      cases hf
    | some f =>
      rw [all_deref_some, Trace.result_bind_ok rfl]
      by_cases htype : (s.files.file f).type = .socket
      · rw [if_neg (by simpa using htype), Trace.all_emit]
        exact .inl ⟨⟨hin, f, hslot, htype⟩, htype, rfl⟩
      · rw [if_pos htype]
        refine .inr ⟨?_, .panic, rfl⟩
        rintro ⟨_, f', hf', htype'⟩
        rw [hslot] at hf'
        cases hf'
        exact htype htype'
  · have herror : (ofile s p fd).result = .error .wildIndex := by
      have hout : ¬(0 ≤ fd ∧ fd < nofile) := hin
      unfold ofile
      rw [if_neg hout]
      rfl
    exact .inr ⟨fun h => hin h.1, .wildIndex, Trace.result_bind_error herror _⟩

lemma socket_iff (h : run s p k q = socketOf s p fd >>= fun _ => pure k.done)
    (hgood : GoodFd s p q ↔ IsOpenAs s p fd .socket) : Validated s p k q ↔ IsOpenAs s p fd .socket := by
  rcases socketOf_cases s p fd with ⟨hopen, hall, hok⟩ | ⟨hnot, stop, herror⟩
  · refine iff_of_true ⟨?_, fun hbad => absurd (hgood.2 hopen) hbad⟩ hopen
    rw [h, Trace.all_bind_ok hok]
    exact ⟨hall, Trace.all_pure _⟩
  · refine iff_of_false (fun hv => ?_) hnot
    rcases hv.refused (fun hg => hnot (hgood.1 hg)) with ⟨r, _, hr⟩
    rw [h, Trace.result_bind_error herror] at hr
    cases hr

lemma accept_iff (pending : Bool) : Validated s p k (.accept fd pending) ↔ Checked s p (.accept fd pending) := by
  rcases socketOf_cases s p fd with ⟨hopen, hall, hok⟩ | ⟨hnot, stop, herror⟩
  · have haccesses : (accept s p fd pending k).All Access.Valid ↔ (pending = true → RoomOrLimit s p) := by
      unfold accept
      rw [Trace.all_bind_ok hok, and_iff_right hall]
      cases pending with
      | false => exact iff_of_true (Trace.all_pure _) fun h => by cases h
      | true =>
        rw [if_neg (by simp)]
        rw [all_fdalloc_bind _ fun _ => Trace.all_pure _]
        exact ⟨fun h _ => h, fun h => h rfl⟩
    constructor
    · intro h
      exact ⟨hopen, haccesses.1 h.accesses⟩
    · rintro ⟨_, h⟩
      exact ⟨haccesses.2 h, fun hbad => absurd hopen hbad⟩
  · refine iff_of_false (fun hv => ?_) fun h => hnot h.1
    rcases hv.refused hnot with ⟨r, _, hr⟩
    change (accept s p fd pending k).result = _ at hr
    unfold accept at hr
    rw [Trace.result_bind_error herror] at hr
    cases hr

lemma listen_iff : Validated s p k (.listen fd) ↔ Checked s p (.listen fd) := by
  by_cases hin : InTable fd
  · have hrun : run s p k (.listen fd) = listen s p fd k := rfl
    cases hslot : s.files.ofile (p, fd.toNat) with
    | none =>
      have hnot : ¬IsOpenAs s p fd .socket := by
        rintro ⟨_, f, hf, _⟩
        rw [hslot] at hf
        cases hf
      refine iff_of_false (fun hv => ?_) hnot
      rcases hv.refused hnot with ⟨r, _, hr⟩
      rw [hrun] at hr
      unfold listen at hr
      rw [Trace.result_bind_ok (ofile_of_inTable hin).1, hslot] at hr
      cases hr
    | some f =>
      by_cases htype : (s.files.file f).type = .socket
      · have hopen : IsOpenAs s p fd .socket := ⟨hin, f, hslot, htype⟩
        refine iff_of_true ⟨?_, fun hbad => absurd hopen hbad⟩ hopen
        rw [hrun]
        unfold listen
        rw [all_ofile hin, hslot]
        rw [all_deref_some, if_neg (by simpa using htype), all_emit_bind]
        exact ⟨htype, Trace.all_pure _⟩
      · have hnot : ¬IsOpenAs s p fd .socket := by
          rintro ⟨_, f', hf', htype'⟩
          rw [hslot] at hf'
          cases hf'
          exact htype htype'
        refine iff_of_false (fun hv => ?_) hnot
        rcases hv.refused hnot with ⟨r, _, hr⟩
        rw [hrun] at hr
        unfold listen at hr
        rw [Trace.result_bind_ok (ofile_of_inTable hin).1, hslot] at hr
        rw [Trace.result_bind_ok rfl, if_pos htype] at hr
        cases hr
  · exact iff_of_false (fun hv => not_all_ofile hin _ hv.accesses) fun h => hin h.1

lemma receiveFrom_all {a0 : Nat} :
    (syscallReceiveFrom s p a0 k).All Access.Valid ↔ IsOpenAs s p (a0 : Int) .socket := by
  unfold syscallReceiveFrom
  by_cases hin : InTable (a0 : Int)
  · rw [all_ofile hin]
    cases hslot : s.files.ofile (p, (a0 : Int).toNat) with
    | none =>
      refine iff_of_false (not_all_deref_none _) ?_
      rintro ⟨_, f, hf, _⟩
      rw [hslot] at hf
      cases hf
    | some f =>
      rw [all_deref_some, all_emit_bind]
      constructor
      · rintro ⟨htype, _⟩
        exact ⟨hin, f, hslot, htype⟩
      · rintro ⟨_, f', hf', htype⟩
        rw [hslot] at hf'
        cases hf'
        exact ⟨htype, Trace.all_pure _⟩
  · exact iff_of_false (not_all_ofile hin _) fun h => hin h.1

lemma recvfrom_iff {a0 : Nat} : Validated s p k (.recvfrom a0) ↔ Checked s p (.recvfrom a0) := by
  constructor
  · intro h
    exact receiveFrom_all.1 h.accesses
  · intro h
    exact ⟨receiveFrom_all.2 h, fun hbad => absurd h hbad⟩

lemma sendto_iff {a0 a5 : Nat} : Validated s p k (.sendto a0 a5) ↔ Checked s p (.sendto a0 a5) := by
  by_cases haddr : a5 = 32
  · have hrun : run s p k (.sendto a0 a5) = syscallReceiveFrom s p a0 k := if_neg (by simpa using haddr)
    constructor
    · intro h
      have haccesses := h.accesses
      rw [hrun] at haccesses
      exact receiveFrom_all.1 haccesses
    · intro h
      refine ⟨?_, fun hbad => absurd h hbad⟩
      rw [hrun]
      exact receiveFrom_all.2 h
  · have hrun : run s p k (.sendto a0 a5) = Trace.stop .panic := if_pos haddr
    constructor
    · intro h
      by_contra hnot
      rcases h.refused hnot with ⟨r, _, hr⟩
      rw [hrun] at hr
      cases hr
    · intro h
      refine ⟨?_, fun hbad => absurd h hbad⟩
      rw [hrun]
      exact Trace.all_stop _

/-! ## `openat` -/

lemma lookupStart_spec (s : Sys) (p : Nat) (fd : Int) (path : Tree.Str) :
    ((lookupStart s p fd path).All Access.Valid ↔
      (FromFd fd path → InTable fd → ∀ f, s.files.ofile (p, fd.toNat) = some f → (s.files.file f).type = .entry)) ∧
    ∃ b, (lookupStart s p fd path).result = .ok b ∧ (b = true ↔ Starts s p fd path) := by
  unfold lookupStart Starts
  by_cases hfrom : FromFd fd path
  · by_cases hin : InTable fd
    · -- from an open file, if there is one
      have hcond : path.head? ≠ some Tree.slash ∧ fd ≠ Tree.atFdcwd ∧ 0 ≤ fd ∧ fd < nofile :=
        ⟨hfrom.1, hfrom.2, hin.1, hin.2⟩
      rw [if_pos hcond, all_ofile hin, Trace.result_bind_ok (ofile_of_inTable hin).1]
      cases hslot : s.files.ofile (p, fd.toNat) with
      | none =>
        refine ⟨iff_of_true (Trace.all_pure _) fun _ _ f hf => (by cases hf), false, rfl, ?_⟩
        refine iff_of_false (by simp) ?_
        rintro (⟨_, _, hne⟩ | ⟨hnot, _⟩)
        · exact hne hslot
        · exact hnot hfrom
      | some f =>
        rw [all_ofile hin, hslot, all_deref_some, all_emit_bind, Trace.result_bind_ok (ofile_of_inTable hin).1, hslot,
          Trace.result_bind_ok rfl]
        refine ⟨?_, true, rfl, iff_of_true rfl (.inl ⟨hfrom, hin, by rw [hslot]; simp⟩)⟩
        constructor
        · rintro ⟨htype, _⟩ _ _ f' hf'
          cases hf'
          exact htype
        · intro h
          exact ⟨h hfrom hin f rfl, Trace.all_pure _⟩
    · -- not a descriptor: nowhere to begin
      have hcond : ¬(path.head? ≠ some Tree.slash ∧ fd ≠ Tree.atFdcwd ∧ 0 ≤ fd ∧ fd < nofile) := fun h => hin h.2.2
      rw [if_neg hcond, if_neg hfrom.1, if_neg fun h => hfrom.2 h.2]
      refine ⟨iff_of_true (Trace.all_pure _) fun _ h => absurd h hin, false, rfl, iff_of_false (by simp) ?_⟩
      rintro (⟨_, hopen⟩ | ⟨hnot, _⟩)
      · exact hin hopen.1
      · exact hnot hfrom
  · have hcond : ¬(path.head? ≠ some Tree.slash ∧ fd ≠ Tree.atFdcwd ∧ 0 ≤ fd ∧ fd < nofile) :=
      fun h => hfrom ⟨h.1, h.2.1⟩
    rw [if_neg hcond]
    by_cases hslash : path.head? = some Tree.slash
    · have hne : path ≠ [] := by
        rintro rfl
        cases hslash
      rw [if_pos hslash]
      exact ⟨iff_of_true (Trace.all_pure _) fun h => absurd h hfrom, true, rfl, iff_of_true rfl (.inr ⟨hfrom, hne⟩)⟩
    · have hcwd : fd = Tree.atFdcwd := by
        by_contra hne
        exact hfrom ⟨hslash, hne⟩
      rw [if_neg hslash]
      by_cases hempty : path = []
      · rw [if_neg fun h => h.1 hempty]
        refine ⟨iff_of_true (Trace.all_pure _) fun h => absurd h hfrom, false, rfl, iff_of_false (by simp) ?_⟩
        rintro (⟨h, _⟩ | ⟨_, h⟩)
        · exact hfrom h
        · exact h hempty
      · rw [if_pos ⟨hempty, hcwd⟩]
        exact ⟨iff_of_true (Trace.all_pure _) fun h => absurd h hfrom, true, rfl,
          iff_of_true rfl (.inr ⟨hfrom, hempty⟩)⟩

lemma openat_iff (path : Tree.Str) (creating found : Bool) :
    Validated s p k (.openat fd path creating found) ↔ Checked s p (.openat fd path creating found) := by
  rcases lookupStart_spec s p fd path with ⟨hstart, b, hb, hstarts⟩
  have hall : (syscallOpenAt s p fd path creating found k).All Access.Valid ↔
      Checked s p (.openat fd path creating found) := by
    unfold syscallOpenAt
    rw [Trace.all_bind_ok hb, hstart]
    refine and_congr .rfl ?_
    cases b with
    | false =>
      exact iff_of_true (Trace.all_pure _) fun _ h => absurd (hstarts.2 h) (by simp)
    | true =>
      rw [if_neg (by simp)]
      cases found with
      | false => exact iff_of_true (Trace.all_pure _) fun h => by cases h
      | true =>
        rw [if_neg (by simp), all_fdalloc_bind _ fun _ => Trace.all_pure _]
        exact ⟨fun h _ _ => h, fun h => h rfl (hstarts.1 rfl)⟩
  constructor
  · intro h
    exact hall.1 h.accesses
  · intro h
    refine ⟨hall.2 h, fun hbad => ?_⟩
    have hfrom : FromFd fd path := by
      by_contra hnot
      exact hbad fun hfrom => absurd hfrom hnot
    -- with the condition, a descriptor that is not good is not open
    have hnot : ¬Starts s p fd path := by
      rintro (⟨_, hin, hne⟩ | ⟨hnot, _⟩)
      · rcases Option.ne_none_iff_exists'.1 hne with ⟨f, hf⟩
        exact hbad fun _ => ⟨hin, f, hf, h.1 hfrom hin f hf⟩
      · exact hnot hfrom
    have hfalse : b = false := by
      cases b with
      | false => rfl
      | true => exact absurd (hstarts.1 rfl) hnot
    have hresult : (run s p k (.openat fd path creating found)).result =
        .ok (if creating then -1 else -2, s) := by
      show (syscallOpenAt s p fd path creating found k).result = _
      unfold syscallOpenAt
      rw [Trace.result_bind_ok hb, hfalse]
      rfl
    cases creating with
    | true => exact ⟨-1, by omega, hresult⟩
    | false => exact ⟨-2, by omega, hresult⟩

/-! ## All calls -/

/-- For every state, limit and descriptor: a call validates its descriptor exactly if the condition holds. -/
theorem validated_iff (s : Sys) (p : Nat) (k : Rest) (q : Request) : Validated s p k q ↔ Checked s p q := by
  cases q with
  | fdalloc => exact fdalloc_iff
  | fork child => exact iff_of_true fork_validated trivial
  | read fd len => exact iff_of_true ⟨transfer_all _ _, fun h => ⟨-1, by omega, transfer_refused _ _ h⟩⟩ trivial
  | write fd len => exact iff_of_true ⟨transfer_all _ _, fun h => ⟨-1, by omega, transfer_refused _ _ h⟩⟩ trivial
  | pread fd => exact pread_iff
  | lseek fd mode => exact lseek_iff mode
  | bind fd => exact socket_iff rfl .rfl
  | listen fd => exact listen_iff
  | accept fd pending => exact accept_iff pending
  | connect fd => exact socket_iff rfl .rfl
  | sendto a0 a5 => exact sendto_iff
  | recvfrom a0 => exact recvfrom_iff
  | openat fd path creating found => exact openat_iff path creating found

/-- A process with no open files, and the limit it starts with. -/
def noFiles : Sys := { files := Files.init 0 fun _ => false, hard := fun _ => nofile }

def nothing : Rest := { result := 0, after := noFiles }

/-- `recvfrom` on descriptor 3, which is not open, goes through a null pointer; `pread` on descriptor 1024 reads behind
the table. -/
theorem recvfrom_dereferences_null :
    Access.file none ∈ (run noFiles 0 nothing (.recvfrom 3)).log ∧ ¬(Access.file none).Valid ∧
    Access.slot 1024 ∈ (run noFiles 0 nothing (.pread 1024)).log ∧ ¬(Access.slot 1024).Valid ∧
    ¬Validated noFiles 0 nothing (.recvfrom 3) := by
  have hin : InTable 3 := by
    unfold InTable nofile
    decide
  have hnull : Access.file none ∈ (run noFiles 0 nothing (.recvfrom 3)).log :=
    Trace.mem_log_right (ofile_of_inTable hin).1 (Trace.mem_log_left (List.mem_singleton.2 rfl) _)
  have hslot : Access.slot 1024 ∈ (run noFiles 0 nothing (.pread 1024)).log :=
    Trace.mem_log_left (Trace.mem_log_left (List.mem_singleton.2 rfl) _) _
  refine ⟨hnull, fun h => h rfl, hslot, ?_, fun h => h.accesses _ hnull rfl⟩
  unfold Access.Valid nofile
  decide

end Descriptor
end OsRiscv
