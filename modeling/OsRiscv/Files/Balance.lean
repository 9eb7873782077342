import OsRiscv.Files.Calls

/-!
# Balance — reference counts over whole runs

In every run of the calls that do not lose a reference, `f.ref` is the number of descriptors and
mounts that refer to `f`, and `pipeClose` or `socketFree` runs for `f` when that number falls to 0.
The calls that do lose one are `umount`, which never closes the image, and the calls that ignore a
full descriptor table; `dup3` of the only reference onto itself closes the file under the feet of
its descriptor and panics.
-/

namespace OsRiscv
namespace Files

open Lib

variable {s t : Sys} {a : Act}

/-- The call does not run into one of the paths that lose a reference. -/
def Ok (s : Sys) : Act → Prop
  | .umount _ ep _ => ∀ e fs, ep = some e → s.head e = some fs → mounted s.fileSystem fs = none
  | .fcntl p fd cmd => cmd = dupfdCloexec → argfd s p fd ≠ none → HasFreeFd s p
  | .socket p => HasFreeFd s p
  | .accept p sockfd pending =>
    ∀ f, argfd s p sockfd = some f → (s.file f).type = .socket → pending = true → HasFreeFd s p
  | .dupAndSet p fd fdnew => fd = fdnew → ∀ f, argfd s p fd = some f → (s.file f).ref ≠ 1
  | _ => True

/-- The state between calls. -/
structure Inv (s : Sys) : Prop where
  balanced : ∀ f, (s.file f).ref = count s f
  unused : ∀ f, (s.file f).ref = 0 → (s.file f).type = .none
  dead : ∀ p, s.live p = false → ∀ fd, s.ofile (p, fd) = none
  bound : ∀ p, s.live p = true → p < processTotalNumber
  range : ∀ p fd, s.ofile (p, fd) ≠ none → fd < nofile

/-- The state with which a call begins. -/
def begin (s : Sys) : Sys := { s with closes := [] }

lemma Inv.track (h : Inv s) (own : Prop) : Track (begin s) own zero (begin s) := by
  refine ⟨?_, h.unused, ?_, ?_, ?_, h.dead, h.bound, h.range⟩
  · intro f
    have hb := h.balanced f
    have hc : count (begin s) f = count s f := rfl
    simp [begin, hb, ← hc]
  · intro f hf
    exact .inl ⟨hf, rfl⟩
  · intro f hf
    cases hf
  · exact List.nodup_nil

lemma Track.inv {own : Prop} {s0 : Sys} (h : Track s0 own zero t) : Inv t := by
  refine ⟨?_, h.unused, h.dead, h.bound, h.range⟩
  intro f
  have howes := h.owes f
  simp only [zero_apply] at howes
  omega

/-- The only call that creates files which `pipeClose` or `socketFree` may have to undo. -/
def IsPipe (a : Act) : Prop := ∃ p copied, a = .pipe p copied

lemma call_wp (h : Inv s) (hen : Enabled s a) (hok : Ok s a) :
    wp (call a) (fun _ t => Track (begin s) (IsPipe a) zero t) NoRefPanic (begin s) := by
  have htrack := h.track (IsPipe a)
  have hno : NoDrop (begin s) (begin s) := ⟨rfl, fun _ hf => hf⟩
  have hp : (begin s).live a.caller = true := hen.1
  cases a with
  | openAt p entry flags fileSize => exact syscallOpenAt_wp htrack hno hp entry flags fileSize
  | dup p fd => exact syscallDup_wp htrack hp fd
  | dupAndSet p fd fdnew => exact syscallDupAndSet_wp htrack hp fd fdnew hok
  | fcntl p fd cmd => exact syscall_fcntl_wp htrack hp fd cmd hok
  | pipe p copied =>
    have htrue := h.track True
    refine wp_mono (syscallPipe_wp htrue hno hp copied) ?_
    intro _ t ht
    have hown : IsPipe (.pipe p copied) := ⟨p, copied, rfl⟩
    exact ⟨ht.owes, ht.unused, ht.keep, fun f hf => ⟨(ht.closed f hf).1, .inr hown⟩, ht.nodup,
      ht.dead, ht.bound, ht.range⟩
  | socket p => exact createSocket_wp htrack hno hp hok
  | accept p sockfd pending => exact accept_wp htrack hno hp sockfd pending hok
  | device p major omode => exact syscallDevice_wp htrack hno hp major omode
  | close p fd => exact syscallClose_wp htrack hp fd
  | mount p args flag => exact syscallMount_wp htrack hno args flag
  | umount p ep flag => exact syscallUmount_wp htrack ep flag hok
  | fork p child => exact processFork_wp htrack hp hen.2.1 hen.2.2
  | exit p => exact processFree_wp htrack hp

/-! ## Runs -/

/-- A call that is allowed and does not lose a reference, and the state when it is done. -/
def Step (s : Sys) (a : Act) (t : Sys) : Prop :=
  Enabled s a ∧ Ok s a ∧ ∃ r, exec s a = .done r t

lemma step_track (h : Inv s) (hstep : Step s a t) : Track (begin s) (IsPipe a) zero t := by
  rcases hstep with ⟨hen, hok, r, hexec⟩
  have hcall : call a (begin s) = .done r t := hexec
  have htrack := wp_done (call_wp h hen hok) hcall
  exact htrack

lemma init_inv {p : Nat} (hp : p < processTotalNumber) (rooted : Nat → Bool) : Inv (init p rooted) := by
  refine ⟨?_, ?_, ?_, ?_, ?_⟩
  · intro f
    have hm : mounted (init p rooted).fileSystem = fun _ => none := by
      funext i
      simp [mounted, init]
    have ho : (init p rooted).ofile = fun _ => none := rfl
    simp only [count, hm, ho, occ_none]
    rfl
  · intro f _
    rfl
  · intro q _ fd
    rfl
  · intro q hq
    have hqp : q = p := by simpa [init] using hq
    rw [hqp]
    exact hp
  · intro q fd hne
    exact absurd rfl hne

/-- In every state reached, the reference counts are the numbers of references; and every further
call runs `pipeClose` or `socketFree` exactly for the pipes and sockets whose number falls to 0,
once for each of them. A pipe that a failed `pipe` call made and nobody got is also closed. -/
theorem file_ref_counts {p : Nat} (hp : p < processTotalNumber) {rooted : Nat → Bool}
    {acts : List Act} (hrun : Run Step (init p rooted) acts s) : (∀ f, (s.file f).ref = count s f) ∧
    ∀ a, Enabled s a → Ok s a →
      (∀ r t, exec s a = .done r t →
        t.closes.Nodup ∧
        (∀ f, Closing (s.file f).type → (f ∈ t.closes ↔ 0 < count s f ∧ count t f = 0)) ∧
        ∀ f ∈ t.closes, count t f = 0 ∧ (0 < count s f ∨ IsPipe a)) ∧
      ∀ r t, exec s a = .panic r t → r ≠ .filedup ∧ r ≠ .fileclose := by
  have hinv : Inv s := by
    refine hrun.invariant (init_inv hp rooted) ?_
    intro s a t hs hstep
    exact (step_track hs hstep).inv
  refine ⟨hinv.balanced, ?_⟩
  intro a hen hok
  refine ⟨?_, ?_⟩
  · intro r t hexec
    have htrack := step_track hinv ⟨hen, hok, r, hexec⟩
    have hbal := htrack.inv.balanced
    refine ⟨htrack.nodup, ?_, ?_⟩
    · intro f hc
      have hpos : 0 < (s.file f).ref := by
        refine Nat.pos_of_ne_zero ?_
        intro hz
        simp [hinv.unused f hz, Closing] at hc
      rw [← hinv.balanced f, ← hbal f]
      rcases htrack.keep f hpos with ⟨hpos', _⟩ | ⟨hz, hmem⟩
      · have hnot := htrack.notMem_of_pos hpos'
        refine ⟨fun hf => absurd hf hnot, ?_⟩
        rintro ⟨_, hzero⟩
        exact absurd hzero (Nat.ne_of_gt hpos')
      · exact ⟨fun _ => ⟨hpos, hz⟩, fun _ => hmem.2 hc⟩
    · intro f hf
      rcases htrack.closed f hf with ⟨hz, hold⟩
      rw [← hbal f, ← hinv.balanced f]
      exact ⟨hz, hold⟩
  · intro r t hexec
    have hwp := call_wp hinv hen hok
    unfold wp at hwp
    have hcall : call a (begin s) = .panic r t := hexec
    rw [hcall] at hwp
    exact hwp

/-- The state after a call that is done, read through `g`. -/
def observe {β : Type} (g : Sys → β) : Outcome Sys Panic Int → Option β
  | .done _ t => some (g t)
  | .panic _ _ => none

lemma done_of_observe {β : Type} {g : Sys → β} {o : Outcome Sys Panic Int} {b : β}
    (h : observe g o = some b) : ∃ r t, o = .done r t ∧ g t = b := by
  cases o with
  | done r t => exact ⟨r, t, rfl, Option.some.inj h⟩
  | panic r t => cases h

/-- The ends of a new pipe are counted, and closing a descriptor closes the pipe's end. -/
theorem pipe_is_counted : ∃ s, Run Step (init 0 fun _ => false) [.pipe 0 true] s ∧ s.ofile (0, 0) = some 0 ∧
      (s.file 0).ref = count s 0 ∧
      ∀ r t, exec s (.close 0 0) = .done r t → (0 ∈ t.closes ↔ 0 < count s 0 ∧ count t 0 = 0) := by
  have hobs : observe (fun t => (t.live 0, t.ofile (0, 0), (t.file 0).type))
      (exec (init 0 fun _ => false) (.pipe 0 true)) = some (true, some 0, .pipe) := by
    decide +kernel
  rcases done_of_observe hobs with ⟨r, s, hexec, hs⟩
  have hlive : s.live 0 = true := congrArg Prod.fst hs
  have hslot : s.ofile (0, 0) = some 0 := congrArg (fun x => x.2.1) hs
  have htype : (s.file 0).type = .pipe := congrArg (fun x => x.2.2) hs
  have hlt : 0 < processTotalNumber := by decide +kernel
  have hrun : Run Step (init 0 fun _ => false) [.pipe 0 true] s :=
    (Run.nil _).snoc ⟨⟨rfl, trivial⟩, trivial, r, hexec⟩
  have hmain := file_ref_counts hlt hrun
  refine ⟨s, hrun, hslot, hmain.1 0, ?_⟩
  intro r t ht
  exact ((hmain.2 (.close 0 0) ⟨hlive, trivial⟩ trivial).1 r t ht).2.1 0 (.inl htype)

/-! ## The reference that `umount` loses -/

lemma umount_loses (h : Inv s) {p e fs f : Nat} (hfs : fs < fileSystemNumber)
    (hhead : s.head e = some fs) (hm : mounted s.fileSystem fs = some f) :
    ∃ r t, exec s (.umount p (some e) 0) = .done r t ∧ (t.file f).ref = count t f + 1 := by
  have hwp : wp (syscallUmount (some e) 0) (fun _ t => (t.file f).ref = count t f + 1)
      (fun _ _ => False) (begin s) := by
    have hhead' : (begin s).head e = some fs := hhead
    have hmount : mounted (Function.update (begin s).fileSystem fs
        { (begin s).fileSystem fs with valid := false }) =
        Function.update (mounted (begin s).fileSystem) fs none := by
      rw [mounted_update]
      simp
    have hlost := ((h.track True).setMount hfs hmount
      (Function.update (begin s).head e ((begin s).fileSystem fs).next)).owes f
    unfold syscallUmount
    simp only [wp_bind, wp_get, hhead', wp_modify, wp_pure, ne_eq, not_true_eq_false, if_false]
    have hheld : hold (mounted (begin s).fileSystem fs) f = 1 := by
      have hm' : mounted (begin s).fileSystem fs = some f := hm
      simp [hm']
    simp only [zero_apply, hold_none, hheld] at hlost
    omega
  exact exists_done hwp

/-- A mount and an unmount leave the image with a reference that nobody holds. -/
theorem umount_leaks_image : ∃ s, Run (fun s a t => Enabled s a ∧ ∃ r, exec s a = .done r t) (init 0 fun _ => false)
        [.mount 0 (some (1, 2)) 0, .umount 0 (some 2) 0] s ∧
      ∃ f, (s.file f).ref ≠ count s f := by
  have hobs : observe (fun t => (t.live 0, t.head 2, mounted t.fileSystem 1))
      (exec (init 0 fun _ => false) (.mount 0 (some (1, 2)) 0)) = some (true, some 1, some 0) := by
    decide +kernel
  rcases done_of_observe hobs with ⟨r, s, hexec, hs⟩
  have hlive : s.live 0 = true := congrArg Prod.fst hs
  have hhead : s.head 2 = some 1 := congrArg (fun x => x.2.1) hs
  have hm : mounted s.fileSystem 1 = some 0 := congrArg (fun x => x.2.2) hs
  have hlt : 0 < processTotalNumber := by decide +kernel
  have hinv : Inv s := by
    refine (step_track (init_inv hlt fun _ => false) (a := .mount 0 (some (1, 2)) 0)
      ⟨⟨rfl, trivial⟩, trivial, r, hexec⟩).inv
  have hfs : 1 < fileSystemNumber := by decide +kernel
  rcases umount_loses hinv hfs hhead hm with ⟨r', t, hexec', hlost⟩
  have hmounted : Run (fun s a t => Enabled s a ∧ ∃ r, exec s a = .done r t) (init 0 fun _ => false)
      [.mount 0 (some (1, 2)) 0] s :=
    (Run.nil _).snoc ⟨⟨rfl, trivial⟩, r, hexec⟩
  refine ⟨t, hmounted.snoc ⟨⟨hlive, trivial⟩, r', hexec'⟩, 0, ?_⟩
  omega

end Files
end OsRiscv
