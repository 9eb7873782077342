import OsRiscv.Files.RefCount

/-!
# Calls — the debt of each system call is zero at its end

One lemma for each call.  `s0` is the state at the start of the call.
-/

namespace OsRiscv
namespace Files

open Function (update update_eq_self update_of_ne update_self)
open Lib List

variable {s0 s t : Sys} {own : Prop} {d : Nat → Int} {p f : Nat} {E : Panic → Sys → Prop}
  {Q : Option Nat → Sys → Prop} {fs : Nat → FileSystem} {fds : List Nat} {child : Nat}

/-- No debt. -/
def zero : Nat → Int := fun _ => 0

@[simp] lemma zero_apply (f : Nat) : zero f = 0 := rfl

lemma slot_of_argfd {fd : Int} (h : argfd s p fd = some f) :
    ∃ n : Nat, fd = (n : Int) ∧ n < nofile ∧ s.ofile (p, n) = some f := by
  unfold argfd at h
  split at h
  · cases h
  · refine ⟨fd.toNat, by omega, by omega, h⟩

/-- The table of descriptors of `p` has room. -/
def HasFreeFd (s : Sys) (p : Nat) : Prop := ∃ fd, fd < nofile ∧ s.ofile (p, fd) = none

/-! ## Calls on descriptors -/

lemma syscallDup_wp (h : Track s0 own zero s) (hp : s.live p = true) (fd : Int) :
    wp (syscallDup p fd) (fun _ t => Track s0 own zero t) NoRefPanic s := by
  unfold syscallDup
  simp only [wp_bind, wp_get]
  cases harg : argfd s p fd with
  | none => exact h
  | some f =>
    rcases slot_of_argfd harg with ⟨n, _, _, hslot⟩
    have hpos : 0 < (s.file f).ref := h.pos_of_slot (by simp) hslot
    simp only [wp_bind]
    refine fdalloc_wp ?_ ?_
    · intro _
      simpa using h
    · intro fd' hfd' hfree
      have hset := (h.setSlot hp hfd' (some f)).dup hpos
      simp only [wp_bind, wp_pure]
      refine filedup_wp hpos ?_
      exact hset.congr fun g => by simp [hfree]

lemma syscallDupAndSet_wp (h : Track s own zero s) (hp : s.live p = true) (fd fdnew : Int)
    (hok : fd = fdnew → ∀ f, argfd s p fd = some f → (s.file f).ref ≠ 1) :
    wp (syscallDupAndSet p fd fdnew) (fun _ t => Track s own zero t) NoRefPanic s := by
  unfold syscallDupAndSet
  simp only [wp_bind, wp_get]
  cases harg : argfd s p fd with
  | none => exact h
  | some f =>
    rcases slot_of_argfd harg with ⟨n, hn, _, hslot⟩
    have hpos : 0 < (s.file f).ref := h.pos_of_slot (by simp) hslot
    by_cases hrange : fdnew < 0 ∨ (nofile : Int) ≤ fdnew
    · simp only [hrange, if_true]
      exact h
    · have hlt : fdnew.toNat < nofile := by omega
      simp only [hrange, if_false]
      cases hold2 : s.ofile (p, fdnew.toNat) with
      | none =>
        have hset := (h.setSlot hp hlt (some f)).dup hpos
        simp only [wp_bind, wp_pure, wp_setSlot]
        refine filedup_wp hpos ?_
        exact hset.congr fun g => by simp [hold2]
      | some f2 =>
        have hpos2 : 0 < (s.file f2).ref := h.pos_of_slot (by simp) hold2
        simp only [wp_bind, wp_pure, wp_setSlot]
        refine fileclose_wp hpos2 ?_
        intro t hd
        have hdrop := h.drop hpos2 (fun _ => .inl hpos2) hd
        have hset := hdrop.setSlot (by simpa [hd.live] using hp) hlt (some f)
        -- `f` keeps a reference: it is another file, or there are two of them
        have hposf : 0 < (t.file f).ref := by
          rw [hd.file]
          by_cases hff : f = f2
          · subst hff
            by_cases hone : (s.file f).ref = 1
            · -- one reference only: both descriptors are the same one
              have hsame : (p, n) = (p, fdnew.toNat) :=
                h.slot_unique (by simp) hslot hold2 hone
              have hfd : fd = fdnew := by
                have hnn : n = fdnew.toNat := congrArg Prod.snd hsame
                omega
              exact absurd hone (hok hfd f harg)
            · simp only [update_self]
              omega
          · simpa [hff] using hpos
        refine filedup_wp hposf ?_
        have hdup := hset.dup hposf
        exact hdup.congr fun g => by simp [hd.ofile, hold2]

lemma syscall_fcntl_wp (h : Track s0 own zero s) (hp : s.live p = true) (fd : Int) (cmd : Nat)
    (hok : cmd = dupfdCloexec → argfd s p fd ≠ none → HasFreeFd s p) :
    wp (syscall_fcntl p fd cmd) (fun _ t => Track s0 own zero t) NoRefPanic s := by
  unfold syscall_fcntl
  simp only [wp_bind, wp_get]
  cases harg : argfd s p fd with
  | none => exact h
  | some f =>
    rcases slot_of_argfd harg with ⟨n, _, _, hslot⟩
    have hpos : 0 < (s.file f).ref := h.pos_of_slot (by simp) hslot
    by_cases h1 : cmd = 1
    · simpa [h1] using h
    by_cases h2 : cmd = 2
    · simpa [h2] using h
    by_cases h3 : cmd = 3
    · simpa [h3] using h
    by_cases hdup : cmd = dupfdCloexec
    · rcases hok hdup (by simp [harg]) with ⟨x, hx, hxfree⟩
      simp only [h1, h2, h3, if_false, if_pos hdup, wp_bind, wp_pure]
      refine fdalloc_wp ?_ ?_
      · intro hfull
        exact absurd hxfree (hfull x hx)
      · intro fd' hfd' hfree
        have hset := (h.setSlot hp hfd' (some f)).dup hpos
        refine filedup_wp hpos ?_
        exact hset.congr fun g => by simp [hfree]
    by_cases h4 : cmd = 4
    · simpa [h1, h2, h3, hdup, h4, dupfdCloexec] using h
    · simp [h1, h2, h3, hdup, h4, NoRefPanic]

lemma syscallClose_wp (h : Track s own zero s) (hp : s.live p = true) (fd : Int) :
    wp (syscallClose p fd) (fun _ t => Track s own zero t) NoRefPanic s := by
  unfold syscallClose
  simp only [wp_bind, wp_get]
  cases harg : argfd s p fd with
  | none => exact h
  | some f =>
    rcases slot_of_argfd harg with ⟨n, hn, hlt, hslot⟩
    have hpos : 0 < (s.file f).ref := h.pos_of_slot (by simp) hslot
    have hfd : fd.toNat = n := by omega
    have hset := h.setSlot hp hlt none
    simp only [wp_bind, wp_pure, wp_setSlot, hfd]
    refine fileclose_wp hpos ?_
    intro t hd
    have hdrop := hset.drop hpos (fun _ => .inl hpos) hd
    exact hdrop.congr fun g => by simp [hslot]

/-! ## Calls that create files -/

/-- What `filealloc` does when it finds the free entry `f`. -/
structure Allocated (s : Sys) (f : Nat) (t : Sys) : Prop where
  free : (s.file f).ref = 0
  ref : (t.file f).ref = 1
  type : (t.file f).type = (s.file f).type
  other : ∀ g, g ≠ f → t.file g = s.file g
  ofile : t.ofile = s.ofile
  live : t.live = s.live
  fileSystem : t.fileSystem = s.fileSystem

lemma alloc_wp (h : Track s0 own d s)
    (hno : NoDrop s0 s) (hnone : Q none s)
    (hsome : ∀ f t, Track s0 own (fun g => d g + hold (some f) g) t → NoDrop s0 t →
      Allocated s f t → Q (some f) t) :
    wp filealloc Q E s := by
  refine filealloc_wp hnone ?_
  intro f hfree
  refine hsome f _ (h.alloc hno hfree) hno.alloc ⟨hfree, ?_, ?_, ?_, rfl, rfl, rfl⟩
  · simp
  · simp
  · intro g hg
    simp [hg]

section

variable (h : Track s own zero s) (hno : NoDrop s s) (hp : s.live p = true)
include h hno hp

lemma allocWithFd_wp {Q : Option (Nat × Nat) → Sys → Prop}
    (hnone : ∀ t, Track s own zero t → Q none t)
    (hsome : ∀ f fd t, Track s own zero t → (s.file f).ref = 0 → 0 < (t.file f).ref →
      Q (some (f, fd)) t) :
    wp (allocWithFd p) Q NoRefPanic s := by
  unfold allocWithFd
  simp only [wp_bind]
  refine alloc_wp h hno ?_ ?_
  · simpa using hnone s h
  · intro f t ht _ ha
    have hp' : t.live p = true := by rw [ha.live, hp]
    simp only [wp_bind]
    refine fdalloc_wp ?_ ?_
    · -- no descriptor: the file is closed again, before it has a type
      intro _
      simp only [wp_bind, wp_pure]
      refine fileclose_wp (by simp [ha.ref]) ?_
      intro u hd
      have hnone' : ¬Closing (t.file f).type := by simp [ha.type, h.unused f ha.free, Closing]
      have hdrop := ht.drop (by simp [ha.ref]) (fun hc => absurd hc hnone') hd
      exact hnone u (hdrop.congr fun g => by simp)
    · intro fd hfd hslot
      have hset := ht.setSlot hp' hfd (some f)
      exact hsome f fd _ (hset.congr fun g => by simp [hslot]) ha.free (by simp [ha.ref])

/-- What filling in the fields of `f` does. -/
structure Filled (s : Sys) (f : Nat) (t : Sys) : Prop where
  ref : (t.file f).ref = (s.file f).ref
  other : ∀ g, g ≠ f → t.file g = s.file g
  ofile : t.ofile = s.ofile
  live : t.live = s.live
  fileSystem : t.fileSystem = s.fileSystem

omit h hno hp in
lemma fill_wp {Q : Unit → Sys → Prop} {v : File} (h : Track s0 own d s)
    (hnew : (s0.file f).ref = 0) (hpos : 0 < (s.file f).ref) (href : v.ref = (s.file f).ref)
    (hQ : ∀ t, Track s0 own d t → Filled s f t → Q () t) : wp (setFile f v) Q E s := by
  refine hQ _ (h.fill hnew hpos href) ⟨by simpa using href, ?_, rfl, rfl, rfl⟩
  intro g hg
  simp [hg]

lemma syscallOpenAt_wp
    (entry : Except Int Nat) (flags fileSize : Nat) :
    wp (syscallOpenAt p entry flags fileSize) (fun _ t => Track s own zero t) NoRefPanic s := by
  cases entry with
  | error e => exact h
  | ok ep =>
    unfold syscallOpenAt
    simp only [wp_bind]
    refine allocWithFd_wp h hno hp ?_ ?_
    · simp
    · intro f fd t ht hnew hpos
      simp only [wp_bind, wp_get, wp_pure]
      exact fill_wp ht hnew hpos rfl fun _ hu _ => hu

lemma syscallDevice_wp
    (major : Int) (omode : Nat) : wp (syscallDevice p major omode) (fun _ t => Track s own zero t) NoRefPanic s := by
  unfold syscallDevice
  by_cases hcreate : omode &&& 0o100 ≠ 0
  · simp [hcreate, NoRefPanic]
  · by_cases hmajor : major < 0 ∨ ndev ≤ major
    · simpa [hcreate, hmajor] using h
    · simp only [hcreate, hmajor, if_false, wp_bind]
      refine allocWithFd_wp h hno hp ?_ ?_
      · simp
      · intro f fd t ht hnew hpos
        simp only [wp_bind, wp_get, wp_pure]
        exact fill_wp ht hnew hpos rfl fun _ hu _ => hu

end

lemma socketAlloc_wp (hnone : Q none s)
    (hsome : ∀ i, Q (some i) { s with socketUsed := update s.socketUsed i true }) :
    wp socketAlloc Q E s := by
  unfold socketAlloc
  simp only [wp_bind, wp_get]
  cases (List.range socketCount).find? fun i => s.socketUsed i = false with
  | none => exact hnone
  | some i => exact hsome i

lemma Track.other (h : Track s0 own d s) (socketUsed : Nat → Bool) (pipe : Nat → PipeEnds) :
    Track s0 own d { s with socketUsed := socketUsed, pipe := pipe } :=
  ⟨h.owes, h.unused, h.keep, h.closed, h.nodup, h.dead, h.bound, h.range⟩

lemma installSocket_wp (h : Track s0 own (fun g => zero g + hold (some f) g) s)
    (hnew : (s0.file f).ref = 0) (hpos : 0 < (s.file f).ref) (hp : s.live p = true)
    (hfree : HasFreeFd s p) (i : Nat) : wp (installSocket p f i) (fun _ t => Track s0 own zero t) NoRefPanic s := by
  unfold installSocket
  rcases hfree with ⟨x, hx, hxfree⟩
  simp only [wp_bind, wp_get, wp_pure]
  refine fill_wp h hnew hpos rfl ?_
  intro t ht hfilled
  refine fdalloc_wp ?_ ?_
  · intro hfull
    have hnot := hfull x hx
    rw [hfilled.ofile] at hnot
    exact absurd hxfree hnot
  · intro fd hfd hslot
    have hset := ht.setSlot (by rw [hfilled.live, hp]) hfd (some f)
    exact hset.congr fun g => by simp [hslot]

lemma createSocket_wp (h : Track s own zero s) (hno : NoDrop s s) (hp : s.live p = true)
    (hok : HasFreeFd s p) : wp (createSocket p) (fun _ t => Track s own zero t) NoRefPanic s := by
  unfold createSocket
  simp only [wp_bind]
  refine alloc_wp h hno ?_ ?_
  · refine socketAlloc_wp ?_ ?_
    · simp [NoRefPanic]
    · simp [NoRefPanic]
  · intro f t ht _ ha
    have hp' : t.live p = true := by rw [ha.live, hp]
    have hok' : HasFreeFd t p := by simpa [HasFreeFd, ha.ofile] using hok
    refine socketAlloc_wp ?_ ?_
    · simp [NoRefPanic]
    · intro i
      have hother := ht.other (update t.socketUsed i true) t.pipe
      exact installSocket_wp hother ha.free (by simp [ha.ref]) hp' hok' i

lemma accept_wp (h : Track s own zero s) (hno : NoDrop s s) (hp : s.live p = true) (sockfd : Int) (pending : Bool)
    (hok : ∀ f, argfd s p sockfd = some f → (s.file f).type = .socket → pending = true → HasFreeFd s p) :
    wp (accept p sockfd pending) (fun _ t => Track s own zero t) NoRefPanic s := by
  unfold accept
  simp only [wp_bind, wp_get]
  cases harg : argfd s p sockfd with
  | none => simp [NoRefPanic]
  | some f =>
    by_cases htype : (s.file f).type ≠ .socket
    · simp [htype, NoRefPanic]
    · cases pending with
      | false => simpa [htype] using h
      | true =>
        simp only [htype, if_false, Bool.true_eq_false, wp_bind]
        refine socketAlloc_wp ?_ ?_
        · simp [NoRefPanic]
        · intro i
          simp only [wp_bind]
          refine alloc_wp (h.other _ s.pipe) hno ?_ ?_
          · simp [NoRefPanic]
          · intro g t ht _ ha
            have hp' : t.live p = true := by rw [ha.live, hp]
            have hfree := hok f harg (by simpa using htype) rfl
            have hok' : HasFreeFd t p := by simpa [HasFreeFd, ha.ofile] using hfree
            exact installSocket_wp ht ha.free (by simp [ha.ref]) hp' hok' i

/-! ## Pipes -/

lemma pipeAlloc_wp {Q : Nat → Sys → Prop} (h : ∀ i v, Q i { s with pipe := update s.pipe i v }) :
    wp pipeAlloc Q NoRefPanic s := by
  unfold pipeAlloc
  simp only [wp_bind, wp_get]
  cases (List.range maxPipe).find? fun i => (s.pipe i).used = false with
  | none => simp [NoRefPanic]
  | some i => exact h i _

/-- `pipeNew` fails without a trace, or hands out two new files. -/
theorem pipeNew_wp {Q : Option (Nat × Nat) → Sys → Prop} (h : Track s True zero s) (hno : NoDrop s s)
    (hnone : ∀ t, Track s True zero t → Q none t)
    (hsome : ∀ f0 f1 t, Track s True (fun g => zero g + hold (some f0) g + hold (some f1) g) t →
      f0 ≠ f1 → t.live = s.live → 0 < (t.file f0).ref → 0 < (t.file f1).ref → Q (some (f0, f1)) t) :
    wp pipeNew Q NoRefPanic s := by
  unfold pipeNew
  simp only [wp_bind]
  refine alloc_wp h hno ?_ ?_
  · simpa using hnone s h
  · intro f0 t ht hno0 ha0
    simp only [wp_bind]
    refine alloc_wp ht hno0 ?_ ?_
    · simp only [wp_bind, wp_pure]
      refine fileclose_wp (by simp [ha0.ref]) ?_
      intro u hd
      have hdrop := ht.drop (by simp [ha0.ref]) (fun _ => .inr trivial) hd
      exact hnone u (hdrop.congr fun g => by simp)
    · intro f1 u hu _ ha1
      have hne : f0 ≠ f1 := by
        rintro rfl
        have hz := ha1.free
        simp [ha0.ref] at hz
      have hnew1 : (s.file f1).ref = 0 := by
        have hz := ha1.free
        rwa [ha0.other f1 hne.symm] at hz
      have href0 : (u.file f0).ref = 1 := by rw [ha1.other f0 hne, ha0.ref]
      simp only [wp_bind]
      refine pipeAlloc_wp ?_
      intro i v
      simp only [wp_get]
      have hpipe := hu.other u.socketUsed (update u.pipe i v)
      refine fill_wp hpipe ha0.free (by simp [href0]) rfl ?_
      intro x hx hfx
      have href1 : (x.file f1).ref = 1 := by
        rw [hfx.other f1 hne.symm]
        exact ha1.ref
      refine fill_wp hx hnew1 (by simp [href1]) rfl ?_
      intro y hy hfy
      refine hsome f0 f1 y hy hne ?_ ?_ ?_
      · rw [hfy.live, hfx.live, ← ha0.live, ← ha1.live]
      · rw [hfy.other f0 hne, hfx.ref]
        simp [href0]
      · simp [hfy.ref, href1]

lemma closeBoth_wp {Q : Int → Sys → Prop} {f0 f1 : Nat}
    (h : Track s0 True (fun g => zero g + hold (some f0) g + hold (some f1) g) s) (hne : f0 ≠ f1)
    (hpos0 : 0 < (s.file f0).ref) (hpos1 : 0 < (s.file f1).ref) (hQ : ∀ t, Track s0 True zero t → Q (-1) t) :
    wp (do fileclose f0; fileclose f1; return -1) Q NoRefPanic s := by
  simp only [wp_bind, wp_pure]
  refine fileclose_wp hpos0 ?_
  intro t hd
  have hdrop0 := h.drop hpos0 (fun _ => .inr trivial) hd
  have hpos1' : 0 < (t.file f1).ref := by simpa [hd.file, hne.symm] using hpos1
  refine fileclose_wp hpos1' ?_
  intro u hu
  have hdrop1 := hdrop0.drop hpos1' (fun _ => .inr trivial) hu
  exact hQ u (hdrop1.congr fun g => by simp)

lemma syscallPipe_wp (h : Track s True zero s) (hno : NoDrop s s) (hp : s.live p = true) (copied : Bool) :
    wp (syscallPipe p copied) (fun _ t => Track s True zero t) NoRefPanic s := by
  unfold syscallPipe
  simp only [wp_bind]
  refine pipeNew_wp h hno ?_ ?_
  · intro t ht
    simpa using ht
  · intro rf wf t ht hne hlive hposr hposw
    have hp' : t.live p = true := by rw [hlive, hp]
    simp only [wp_bind]
    refine fdalloc_wp ?_ ?_
    · intro _
      exact closeBoth_wp ht hne hposr hposw fun _ hu => hu
    · intro fd0 hfd0 hslot0
      have hset0 := ht.setSlot hp' hfd0 (some rf)
      simp only [wp_bind]
      refine fdalloc_wp ?_ ?_
      · -- the second descriptor is missing: the first one is taken back
        intro _
        have hback := hset0.setSlot hp' hfd0 none
        refine closeBoth_wp (hback.congr fun g => ?_) hne hposr hposw fun _ hu => hu
        simp only [hslot0, hold_none, update_self]
        omega
      · intro fd1 hfd1 hslot1
        have hne01 : fd1 ≠ fd0 := by
          rintro rfl
          simp at hslot1
        have hkey : (p, fd1) ≠ (p, fd0) := by simpa using hne01
        have hslot1' : t.ofile (p, fd1) = none := by simpa [update_of_ne hkey] using hslot1
        have hset1 := hset0.setSlot hp' hfd1 (some wf)
        cases copied with
        | true =>
          refine hset1.congr fun g => ?_
          simp only [hslot0, hslot1', update_of_ne hkey, hold_none, zero_apply]
          omega
        | false =>
          have hback0 := hset1.setSlot hp' hfd0 none
          have hback1 := hback0.setSlot hp' hfd1 none
          refine closeBoth_wp (hback1.congr fun g => ?_) hne hposr hposw fun _ hu => hu
          simp only [hslot0, hslot1', hold_none, update_self, update_of_ne hkey,
            update_of_ne hkey.symm]
          omega

/-! ## Mounts -/

lemma Track.setMount (h : Track s0 own d s) {i : Nat} {v : Option Nat}
    (hi : i < fileSystemNumber)
    (hm : mounted fs = update (mounted s.fileSystem) i v) (head : Nat → Option Nat) :
    Track s0 own (fun g => d g + hold (mounted s.fileSystem i) g - hold v g)
      { s with fileSystem := fs, head := head } := by
  refine ⟨?_, h.unused, h.keep, h.closed, h.nodup, h.dead, h.bound, h.range⟩
  intro g
  have howes := h.owes g
  have hocc := occ_update_int (g := mounted s.fileSystem)
    (Finset.mem_range.2 hi) v g
  simp only [count, hm] at howes ⊢
  omega

lemma Track.setFs (h : Track s0 own d s)
    (hm : mounted fs = mounted s.fileSystem) (head : Nat → Option Nat) :
    Track s0 own d { s with fileSystem := fs, head := head } := by
  refine ⟨?_, h.unused, h.keep, h.closed, h.nodup, h.dead, h.bound, h.range⟩
  intro g
  simpa [count, hm] using h.owes g

lemma mounted_update (fs : Nat → FileSystem) (i : Nat) (v : FileSystem) : mounted (update fs i v) =
      update (mounted fs) i (if v.valid then v.image else none) := by
  funext j
  by_cases hj : j = i
  · subst hj
    simp [mounted]
  · simp [mounted, hj]

lemma fsAlloc_wp (h : Track s0 own d s) (hnone : Q none s)
    (hsome : ∀ i t, i < fileSystemNumber → Track s0 own d t → mounted t.fileSystem i = none →
      (t.fileSystem i).valid = true → t.file = s.file → t.closes = s.closes → Q (some i) t) :
    wp fsAlloc Q E s := by
  unfold fsAlloc
  simp only [wp_bind, wp_get]
  cases hfind : (List.range fileSystemNumber).find? fun i => (s.fileSystem i).valid = false with
  | none => exact hnone
  | some i =>
    have hfree : (s.fileSystem i).valid = false := by simpa using find?_some hfind
    have hi : i < fileSystemNumber := mem_range.1 (mem_of_find?_eq_some hfind)
    have hsame : mounted (update s.fileSystem i
        { valid := true, image := none, next := none }) = mounted s.fileSystem := by
      rw [mounted_update]
      have hold' : mounted s.fileSystem i = none := by simp [mounted, hfree]
      simp only [if_true]
      rw [← hold', update_eq_self]
    refine hsome i _ hi (h.setFs hsame s.head) ?_ (by simp) rfl rfl
    simp [mounted]

lemma syscallMount_wp (h : Track s own zero s) (hno : NoDrop s s) (args : Option (Nat × Nat))
    (flag : Int) : wp (syscallMount args flag) (fun _ t => Track s own zero t) NoRefPanic s := by
  cases args with
  | none => exact h
  | some eps =>
    unfold syscallMount
    by_cases hflag : flag ≠ 0
    · simp [hflag, NoRefPanic]
    · simp only [hflag, if_false, wp_bind]
      refine fsAlloc_wp h ?_ ?_
      · simpa using h
      · intro fs t hfs ht hm hvalid hfile hcloses
        have hno' : NoDrop s t := by
          refine ⟨by rw [hcloses, hno.1], ?_⟩
          intro f hf
          rwa [hfile] at hf
        simp only [wp_bind]
        refine alloc_wp ht hno' ?_ ?_
        · simp [NoRefPanic]
        · intro f u hu _ ha
          have hnew : (s.file f).ref = 0 := hno'.2 f ha.free
          have hfs' : u.fileSystem = t.fileSystem := ha.fileSystem
          -- the image is handed over to the file system
          have hfinish : ∀ x, Track s own (fun g => zero g + hold (some f) g) x → Filled u f x →
              ∀ next head, Track s own zero { x with
                fileSystem := update x.fileSystem fs
                  { x.fileSystem fs with image := some f, next := next }
                head := head } := by
            intro x hx hfilled next head
            have hxfs : x.fileSystem = t.fileSystem := hfilled.fileSystem.trans hfs'
            have hmount : mounted (update x.fileSystem fs
                { x.fileSystem fs with image := some f, next := next }) =
                update (mounted x.fileSystem) fs (some f) := by
              rw [mounted_update]
              simp [hxfs, hvalid]
            refine (hx.setMount hfs hmount head).congr fun g => ?_
            simp [hxfs, hm]
          simp only [wp_bind, wp_get]
          cases u.head eps.1 with
          | none =>
            simp only [wp_bind, wp_modify, wp_pure]
            exact fill_wp hu hnew (by simp [ha.ref]) rfl fun x hx hfx => hfinish x hx hfx _ _
          | some below =>
            cases himg : (u.fileSystem below).image with
            | none => simp [himg, NoRefPanic]
            | some g =>
              simp only [himg, wp_bind, wp_modify, wp_pure]
              exact fill_wp hu hnew (by simp [ha.ref]) rfl fun x hx hfx => hfinish x hx hfx _ _

lemma syscallUmount_wp (h : Track s0 own zero s) (ep : Option Nat) (flag : Int)
    (hok : ∀ e fs, ep = some e → s.head e = some fs → mounted s.fileSystem fs = none) :
    wp (syscallUmount ep flag) (fun _ t => Track s0 own zero t) NoRefPanic s := by
  unfold syscallUmount
  simp only [wp_bind, wp_get]
  cases ep with
  | none => exact h
  | some e =>
    by_cases hflag : flag ≠ 0
    · simp [hflag, NoRefPanic]
    · simp only [hflag, if_false]
      cases hhead : s.head e with
      | none => exact h
      | some fs =>
        have hold' := hok e fs rfl hhead
        have hsame : mounted (update s.fileSystem fs
            { s.fileSystem fs with valid := false }) = mounted s.fileSystem := by
          rw [mounted_update]
          simp only [Bool.false_eq_true, if_false]
          rw [← hold', update_eq_self]
        exact h.setFs hsame _

/-! ## Processes -/

lemma Track.birth (h : Track s0 own d s) (hlt : child < processTotalNumber) :
    Track s0 own d { s with live := update s.live child true } := by
  refine ⟨h.owes, h.unused, h.keep, h.closed, h.nodup, ?_, ?_, h.range⟩
  · intro q hq
    by_cases hqc : q = child
    · simp [hqc] at hq
    · exact h.dead q (by simpa [hqc] using hq)
  · intro q hq
    by_cases hqc : q = child
    · rw [hqc]
      exact hlt
    · exact h.bound q (by simpa [hqc] using hq)

lemma Track.death (h : Track s0 own d s) (hnone : ∀ fd, s.ofile (p, fd) = none) :
    Track s0 own d { s with live := update s.live p false } := by
  refine ⟨h.owes, h.unused, h.keep, h.closed, h.nodup, ?_, ?_, h.range⟩
  · intro q hq
    by_cases hqp : q = p
    · rw [hqp]
      exact hnone
    · exact h.dead q (by simpa [hqp] using hq)
  · intro q hq
    by_cases hqp : q = p
    · simp [hqp] at hq
    · exact h.bound q (by simpa [hqp] using hq)

/-- The state in the loop of `processFork` with the descriptors `fds` still to be copied. -/
structure Forking (s0 : Sys) (own : Prop) (p child : Nat) (fds : List Nat) (s : Sys) : Prop where
  track : Track s0 own zero s
  alive : s.live child = true
  ne : p ≠ child
  nodup : fds.Nodup
  left : ∀ fd ∈ fds, fd < nofile ∧ s.ofile (child, fd) = none

lemma forkSlot_wp {child fd : Nat} (h : Forking s0 own p child (fd :: fds) s) :
    wp (forkSlot p child fd) (fun _ => Forking s0 own p child fds) NoRefPanic s := by
  have hnodup := nodup_cons.1 h.nodup
  have hfd := h.left fd (by simp)
  have hleft : ∀ x ∈ fds, x < nofile ∧ s.ofile (child, x) = none :=
    fun x hx => h.left x (by simp [hx])
  unfold forkSlot
  simp only [wp_bind, wp_get]
  cases hslot : s.ofile (p, fd) with
  | none => exact ⟨h.track, h.alive, h.ne, hnodup.2, hleft⟩
  | some f =>
    have hpos : 0 < (s.file f).ref := h.track.pos_of_slot (by simp) hslot
    simp only [wp_bind]
    refine filedup_wp hpos ?_
    have hset := (h.track.dup hpos).setSlot h.alive hfd.1 (some f)
    refine ⟨hset.congr fun g => by simp [hfd.2], h.alive, h.ne, hnodup.2, ?_⟩
    intro x hx
    have hne : (child, x) ≠ (child, fd) := by
      intro heq
      have hxfd : x = fd := congrArg Prod.snd heq
      exact hnodup.1 (hxfd ▸ hx)
    refine ⟨(hleft x hx).1, ?_⟩
    simpa [update_of_ne hne] using (hleft x hx).2

lemma processFork_wp (h : Track s own zero s) (hp : s.live p = true)
    (hfree : s.live child = false) (hlt : child < processTotalNumber) :
    wp (processFork p child) (fun _ t => Track s own zero t) NoRefPanic s := by
  unfold processFork
  simp only [wp_bind, wp_modify, wp_pure]
  have hne : p ≠ child := by
    rintro rfl
    rw [hp] at hfree
    cases hfree
  have hstart : Forking s own p child (List.range nofile)
      { s with live := update s.live child true } := by
    refine ⟨h.birth hlt, by simp, hne, nodup_range, ?_⟩
    intro fd hfd
    exact ⟨mem_range.1 hfd, h.dead child hfree fd⟩
  exact wp_mono (wp_forEach (I := Forking s own p child) (fun _ _ _ hf => forkSlot_wp hf) hstart)
    fun _ _ ht => ht.track

/-- The state in the loop of `processFree` with the descriptors `fds` still to be closed. -/
structure Freeing (s0 : Sys) (own : Prop) (p : Nat) (fds : List Nat) (s : Sys) : Prop where
  track : Track s0 own zero s
  alive : s.live p = true
  left : ∀ fd, s.ofile (p, fd) ≠ none → fd ∈ fds
  old : ∀ k f, s.ofile k = some f → 0 < (s0.file f).ref

lemma freeSlot_wp {fd : Nat} (h : Freeing s0 own p (fd :: fds) s) :
    wp (freeSlot p fd) (fun _ => Freeing s0 own p fds) NoRefPanic s := by
  unfold freeSlot
  simp only [wp_bind, wp_get]
  cases hslot : s.ofile (p, fd) with
  | none =>
    refine ⟨h.track, h.alive, ?_, h.old⟩
    intro x hx
    rcases mem_cons.1 (h.left x hx) with rfl | hmem
    · exact absurd hslot hx
    · exact hmem
  | some f =>
    have hpos : 0 < (s.file f).ref := h.track.pos_of_slot (by simp) hslot
    have hfd : fd < nofile := h.track.range p fd (by simp [hslot])
    simp only [wp_bind]
    refine fileclose_wp hpos ?_
    intro t hd
    have hdrop := h.track.drop hpos (fun _ => .inl (h.old _ f hslot)) hd
    have hset := hdrop.setSlot (by rw [hd.live, h.alive]) hfd none
    have hother : ∀ k, k ≠ (p, fd) → update t.ofile (p, fd) none k = s.ofile k := by
      intro k hk
      rw [update_of_ne hk, hd.ofile]
    refine ⟨hset.congr fun g => by simp [hd.ofile, hslot], by simp [hd.live, h.alive], ?_, ?_⟩
    · intro x hx
      by_cases hxfd : x = fd
      · simp [hxfd] at hx
      · have hne : (p, x) ≠ (p, fd) := by simpa using hxfd
        have hx' : s.ofile (p, x) ≠ none := by rwa [← hother _ hne]
        exact (mem_cons.1 (h.left x hx')).resolve_left hxfd
    · intro k g hk
      by_cases hkey : k = (p, fd)
      · simp [hkey] at hk
      · exact h.old k g (by rw [← hother k hkey]; exact hk)

lemma processFree_wp (h : Track s own zero s) (hp : s.live p = true) :
    wp (processFree p) (fun _ t => Track s own zero t) NoRefPanic s := by
  unfold processFree
  simp only [wp_bind, wp_modify, wp_pure]
  have hstart : Freeing s own p (List.range nofile) s := by
    refine ⟨h, hp, ?_, ?_⟩
    · intro fd hfd
      exact mem_range.2 (h.range p fd hfd)
    · intro k f hk
      exact h.pos_of_slot (by simp) hk
  refine wp_mono (wp_forEach (I := Freeing s own p) (fun _ _ _ hf => freeSlot_wp hf) hstart) ?_
  intro _ t ht
  refine ht.track.death ?_
  intro fd
  by_contra hne
  exact absurd (ht.left fd hne) (by simp)

end Files
end OsRiscv
