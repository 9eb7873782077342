import OsRiscv.Open.Model

/-!
# Attached — references in runs of the system

In a run that unlinks no dirent with children or with a reference, and starts no lookup at a descriptor of a pipe, a
socket or a device, every reference stays attached to its file.  The invariant says of each reference that the entry
is in the tree and holds the file it held when the reference was taken.
-/

namespace OsRiscv
namespace Open

open Option (bind_eq_some_iff map_eq_some_iff)
open Function (update update_of_ne update_self)
open Lib List OsRiscv.Tree

variable {t t' : Fs} {sh sh' : Shape} {s s' : Sys} {c : Ctx} {q ep : Ptr} {d : Dirent} {i n p f flags clus : Nat} {fd : Int}
  {path : Str} {type : FileKind} {file : FileId} {a : Act} {oldPath newPath : Str} {oldFd newFd : Int}
  {live : Nat → Bool}

/-! ## The tree under a call -/

section

variable (h : Sound t sh none)
include h

lemma isFree_iff : isFree t i = true ↔ i ∈ sh.free := by
  have hsub : sh.free ⊆ List.range direntNum := fun i hi => mem_range.2 ((h.cover i).2 (.inl hi))
  have hle := (subperm_of_subset h.free.nodup hsub).length_le
  rw [length_range] at hle
  unfold isFree
  rw [Linked.search_eq h.free (Nat.lt_succ_of_le hle), decide_eq_true_iff]
  constructor
  · intro heq
    exact mem_of_find?_eq_some (Option.some.inj heq)
  · intro hi
    cases hfind : sh.free.find? fun j => j = i with
    | none => exact absurd (find?_eq_none.1 hfind i hi) (by simp)
    | some j =>
      have hj := find?_some hfind
      rw [of_decide_eq_true hj]

lemma inUse_of_live (hq : sh.Live q) : inUse t q = true := by
  cases q with
  | root k => rfl
  | dirent i =>
    have hnot : ¬ isFree t i = true := fun hfree => not_free_of_live h hq ((isFree_iff h).1 hfree)
    simp [inUse, hnot]

end

/-! ## Lookups from descriptors of entries -/

/-- Where the path starts at a descriptor, that is the descriptor of an entry. -/
def EntryFd (s : Sys) (p : Nat) (fd : Int) (path : Str) : Prop :=
  path.head? ≠ some slash → fd ≠ atFdcwd → 0 ≤ fd → fd < nofile →
    ∀ f, s.files.ofile (p, fd.toNat) = some f → (s.files.file f).type = .entry

/-- The process with the descriptors of entries only. -/
def entryCtx (s : Sys) (p : Nat) : Ctx where
  cwd := (s.cwd p).ptr
  ofile := fun fd => (s.files.ofile (p, fd)).bind fun f =>
    if (s.files.file f).type = .entry then some ((s.files.file f).ep.map ofAddr) else none

lemma startDirent_entryCtx (h : EntryFd s p fd path) :
    startDirent t (s.ctx p) fd path = startDirent t (entryCtx s p) fd path := by
  unfold startDirent
  split
  · rename_i hfd
    have hentry := h hfd.1 hfd.2.1 hfd.2.2.1 hfd.2.2.2
    unfold Sys.ctx entryCtx
    dsimp only
    cases hslot : s.files.ofile (p, fd.toNat) with
    | none => rfl
    | some f => simp [hentry f hslot]
  · rfl

lemma entryFd_atFdcwd : EntryFd s p atFdcwd path := fun _ hne => absurd rfl hne

section

variable (h : EntryFd s p fd path)
include h

lemma ename_entryCtx {follow : Bool} :
    ename n t (s.ctx p) fd path follow = ename n t (entryCtx s p) fd path follow :=
  ename_congr rfl (startDirent_entryCtx h)

lemma enameparent_entryCtx :
    enameparent n t (s.ctx p) fd path = enameparent n t (entryCtx s p) fd path :=
  enameparent_congr rfl (startDirent_entryCtx h)

lemma create_entryCtx :
    create n t (s.ctx p) fd path type clus = create n t (entryCtx s p) fd path type clus := by
  unfold create
  rw [enameparent_entryCtx h]

lemma doUnlinkat_entryCtx :
    doUnlinkat n t (s.ctx p) fd path = doUnlinkat n t (entryCtx s p) fd path := by
  unfold doUnlinkat
  rw [ename_entryCtx h]

end

lemma doLinkat_entryCtx (hold : EntryFd s p oldFd oldPath)
    (hnew : EntryFd s p newFd newPath) : doLinkat n t (s.ctx p) oldFd oldPath newFd newPath clus =
      doLinkat n t (entryCtx s p) oldFd oldPath newFd newPath clus := by
  unfold doLinkat
  rw [ename_entryCtx hold, create_entryCtx hnew]

/-! ## The invariant -/

structure Inv (s : Sys) (sh : Shape) : Prop where
  sound : Sound s.fs sh none
  entry : ∀ f, (s.files.file f).type = .entry → 0 < (s.files.file f).ref
  attached : ∀ file, Refers s file → sh.Live file.ptr ∧ s.fileOf file.ptr = file

namespace Inv

lemma entryCtx_live (h : Inv s sh) (hp : s.files.live p = true) : (entryCtx s p).Live sh := by
  refine ⟨(h.attached _ (.cwd hp)).1, fun fd q hq => ?_⟩
  rcases bind_eq_some_iff.1 hq with ⟨f, _, hf⟩
  split at hf
  · rename_i hentry
    rcases map_eq_some_iff.1 (Option.some.inj hf) with ⟨e, he, rfl⟩
    exact (h.attached _ (.file (h.entry f hentry) hentry he)).1
  · cases hf

lemma tree (h : Inv s sh) (hs : Sound t sh' none) (hkeep : ∀ file, Refers s file → sh'.Live file.ptr) :
    Inv (s.withFs t) sh' := by
  refine ⟨hs, h.entry, fun file hfile => ?_⟩
  have hold : Refers s file := by
    cases hfile with
    | file hopen hentry hep => exact .file hopen hentry hep
    | cwd hlive => exact .cwd hlive
    | execFile hexec => exact .execFile hexec
    | segment hlive hmap => exact .segment hlive hmap
  rcases h.attached file hold with ⟨hlive, hsame⟩
  refine ⟨hkeep file hold, ?_⟩
  -- the dirent was not free, so it has not been allocated
  have hgen : (s.withFs t).genOf file.ptr = s.genOf file.ptr := by
    cases hptr : file.ptr with
    | root k => rfl
    | dirent i =>
      rw [hptr] at hlive
      have hnot : ¬ isFree s.fs i = true := fun hfree => not_free_of_live h.sound hlive ((isFree_iff h.sound).1 hfree)
      exact if_neg fun hborn => hnot hborn.1
  unfold Sys.fileOf
  rw [hgen]
  exact hsame

lemma set (h : Inv s sh) (hd : (s.fs.dirent q).SamePlace d) : Inv { s with fs := s.fs.set q d } sh := by
  refine ⟨h.sound.set hd, h.entry, fun file hfile => ?_⟩
  cases hfile with
  | file hopen hentry hep => exact h.attached _ (.file hopen hentry hep)
  | cwd hlive => exact h.attached _ (.cwd hlive)
  | execFile hexec => exact h.attached _ (.execFile hexec)
  | segment hlive hmap => exact h.attached _ (.segment hlive hmap)

lemma refer (h : Inv s sh) (hfs : s'.fs = s.fs) (hgen : s'.gen = s.gen)
    (hentry : ∀ f, (s'.files.file f).type = .entry → 0 < (s'.files.file f).ref)
    (href : ∀ file, Refers s' file → Refers s file ∨ ∃ q, sh.Live q ∧ file = s.fileOf q) : Inv s' sh := by
  have hfile : ∀ q, s'.fileOf q = s.fileOf q := by
    intro q
    cases q with
    | root k => rfl
    | dirent i =>
      unfold Sys.fileOf Sys.genOf
      rw [hgen]
  refine ⟨by rw [hfs]; exact h.sound, hentry, fun file hf => ?_⟩
  rw [hfile]
  rcases href file hf with hold | ⟨q, hq, rfl⟩
  · exact h.attached file hold
  · exact ⟨hq, rfl⟩

end Inv

/-! ## The file table -/

/-- The entries that are open. -/
def openNow (s : Sys) (f : Nat) (o : Option Nat) : Prop :=
  (s.files.file f).type = .entry ∧ o = (s.files.file f).ep

section

variable (h : Inv s sh)
include h

lemma Inv.within : Files.Within (openNow s) s.files.live { s.files with closes := [] } :=
  ⟨fun f hf => ⟨h.entry f hf, hf, rfl⟩, rfl⟩

lemma refers_file_of_openNow {files : Files.Sys} {e : Nat}
    (hw : Files.Within (openNow s) live files) (hentry : (files.file f).type = .entry)
    (hep : (files.file f).ep = some e) : Refers s ⟨ofAddr e, s.opened f⟩ := by
  rcases hw.entry f hentry with ⟨_, hold, heq⟩
  exact .file (h.entry f hold) hold (heq.symm.trans hep)

lemma Inv.files {files : Files.Sys} (hw : Files.Within (openNow s) live files)
    (hlive : ∀ p, live p = true → s.files.live p = true) : Inv { s with files := files } sh := by
  refine h.refer rfl rfl (fun f hf => (hw.entry f hf).1) fun file hfile => .inl ?_
  have hlive' : ∀ p, files.live p = true → s.files.live p = true := fun p hp => hlive p (by rwa [hw.live] at hp)
  cases hfile with
  | file hopen hentry hep => exact refers_file_of_openNow h hw hentry hep
  | cwd hp => exact .cwd (hlive' _ hp)
  | execFile hexec => exact .execFile hexec
  | segment hp hmap => exact .segment (hlive' _ hp) hmap

lemma Inv.setOff (f off : Nat) : Inv (s.setOff f off) sh := by
  have hw : Files.Within (openNow s) s.files.live (s.setOff f off).files := by
    refine ⟨fun g hg => ?_, rfl⟩
    unfold Sys.setOff at hg ⊢
    by_cases hgf : g = f
    · subst hgf
      simp only [update_self] at hg ⊢
      exact ⟨h.entry g hg, hg, rfl⟩
    · simp only [update_of_ne hgf] at hg ⊢
      exact ⟨h.entry g hg, hg, rfl⟩
  exact h.files hw fun _ hp => hp

lemma files_inv {a : Files.Act} {r : Int} {files : Files.Sys} (ha : a.Tabular)
    (hok : Files.exec s.files a = .done r files) : Inv { s with files := files } sh := by
  have hw := wp_done (Files.keeps_call ha _ h.within) hok
  exact h.files hw fun _ hp => hp

lemma processFork_inv {child : Nat} (hp : s.files.live p = true) (hok : processFork s p child = some s') :
    Inv s' sh := by
  rcases bind_eq_some_iff.1 hok with ⟨⟨r, files⟩, hfork, hs'⟩
  cases hs'
  have hw := wp_done (Files.processFork_within p child h.within) (eq_done_of_toOption hfork)
  refine h.refer rfl rfl (fun f hf => (hw.entry f hf).1) fun file hfile => .inl ?_
  have hlive : ∀ q, q ≠ child → files.live q = true → s.files.live q = true := by
    intro q hq hl
    rw [hw.live, update_of_ne hq] at hl
    exact hl
  cases hfile with
  | file hopen hentry hep => exact refers_file_of_openNow h hw hentry hep
  | @cwd q hl =>
    dsimp only
    by_cases hq : q = child
    · subst hq
      rw [update_self]
      exact .cwd hp
    · rw [update_of_ne hq]
      exact .cwd (hlive q hq hl)
  | execFile hexec => exact .execFile hexec
  | @segment q _ hl hmap =>
    dsimp only at hmap
    by_cases hq : q = child
    · subst hq
      rw [update_self] at hmap
      exact .segment hp (mem_reverse.1 hmap)
    · rw [update_of_ne hq] at hmap
      exact .segment (hlive q hq hl) hmap

lemma Inv.maps {maps : List FileId} (hmaps : ∀ file ∈ maps, ∃ q, sh.Live q ∧ file = s.fileOf q) :
    Inv { s with segments := update s.segments p maps } sh := by
  refine h.refer rfl rfl h.entry fun file hfile => ?_
  cases hfile with
  | file hopen hentry hep => exact .inl (.file hopen hentry hep)
  | cwd hp => exact .inl (.cwd hp)
  | execFile hexec => exact .inl (.execFile hexec)
  | @segment q _ hq hmap =>
    dsimp only at hmap
    by_cases hqp : q = p
    · subst hqp
      rw [update_self] at hmap
      exact .inr (hmaps file hmap)
    · rw [update_of_ne hqp] at hmap
      exact .inl (.segment hq hmap)

lemma processFree_inv (hok : processFree s p = some s') : Inv s' sh := by
  rcases bind_eq_some_iff.1 hok with ⟨⟨r, files⟩, hfree, hs'⟩
  cases hs'
  have hw := wp_done (Files.processFree_within p h.within) (eq_done_of_toOption hfree)
  have hfiles : Inv { s with files := files } sh := by
    refine h.files hw fun q hq => ?_
    by_cases hqp : q = p
    · subst hqp
      rw [update_self] at hq
      cases hq
    · rwa [update_of_ne hqp] at hq
  exact hfiles.maps nofun

end

lemma etrunc_samePlace : d.SamePlace (etrunc d) := ⟨rfl, rfl, rfl, rfl, rfl, rfl⟩

/-- The second half of `open`: a file refers to the entry. -/
theorem openFile_inv (h : Inv s sh) (hep : sh.Live ep) (hok : openFile s p ep flags = some s') : Inv s' sh := by
  unfold openFile at hok
  dsimp only at hok
  generalize hd : (if (s.fs.dirent ep).isDir = false ∧ flags &&& oTrunc ≠ 0 then etrunc (s.fs.dirent ep)
    else s.fs.dirent ep) = d at hok
  have hplace : (s.fs.dirent ep).SamePlace d := by
    rw [← hd]
    split
    · exact etrunc_samePlace
    · exact ⟨rfl, rfl, rfl, rfl, rfl, rfl⟩
  rcases bind_eq_some_iff.1 hok with ⟨⟨r, files⟩, hopen, hs'⟩
  have hw := wp_done (Files.syscallOpenAt_within h.within) (eq_done_of_toOption hopen)
  rcases hw with ⟨hr, hw⟩ | ⟨f, hr, hslot, hw⟩
  · rw [if_pos hr] at hs'
    cases hs'
    exact h.files hw fun _ hp => hp
  · rw [if_neg (by omega)] at hs'
    rw [hslot] at hs'
    cases hs'
    refine (h.set hplace).refer rfl rfl (fun g hg => (hw.entry g hg).1) fun file hfile => ?_
    have hlive : ∀ q, files.live q = true → s.files.live q = true := fun q hq => by rwa [hw.live] at hq
    cases hfile with
    | @file g e _ hentry he =>
      dsimp only at hentry he ⊢
      have hallowed := (hw.entry g hentry).2
      by_cases hgf : g = f
      · subst hgf
        rw [if_pos rfl, he] at hallowed
        cases hallowed
        rw [update_self, ofAddr_addr]
        exact .inr ⟨ep, hep, rfl⟩
      · rw [if_neg hgf] at hallowed
        rw [update_of_ne hgf]
        exact .inl (.file (h.entry g hallowed.1) hallowed.1 (hallowed.2.symm.trans he))
    | cwd hq => exact .inl (.cwd (hlive _ hq))
    | execFile hexec => exact .inl (.execFile hexec)
    | segment hq hmap => exact .inl (.segment (hlive _ hq) hmap)

/-! ## What one step keeps -/

/-- What is unlinked, or replaced by a link, has no reference; what is unlinked has no children either. -/
def Act.Careful (s : Sys) : Act → Prop
  | .openAt p fd path _ _ => EntryFd s p fd path
  | .mkdirAt p fd path _ => EntryFd s p fd path
  | .unlinkAt p fd path => EntryFd s p fd path ∧
      ∀ n e via, ename n s.fs (s.ctx p) fd path true = .ok (some e, via) →
        (s.fs.dirent e).firstChild = none ∧ ∀ file, Refers s file → file.ptr ≠ e
  | .linkAt p oldFd oldPath newFd newPath _ => EntryFd s p oldFd oldPath ∧ EntryFd s p newFd newPath ∧
      ∀ n dp name e, enameparent n s.fs (s.ctx p) newFd newPath = .ok (some dp, name) →
        dirlookup s.fs dp name = .ok (some e) → ∀ file, Refers s file → file.ptr ≠ e
  | _ => True

section

variable (h : Inv s sh) (hp : s.files.live p = true)
include h hp

lemma openEntry_inv {r : Except Int Ptr} (hfd : EntryFd s p fd path)
    (hok : openEntry n s p fd path flags clus = .ok (r, t)) :
    ∃ sh', Inv (s.withFs t) sh' ∧ ∀ ep, r = .ok ep → sh'.Live ep := by
  unfold openEntry at hok
  split at hok
  · rw [create_entryCtx hfd] at hok
    rcases bind_eq_ok.1 hok with ⟨⟨entry, u⟩, hcreate, hr⟩
    rcases create_keeps h.sound (h.entryCtx_live hp) hcreate with ⟨sh', hs', _, hlive, hentry⟩
    have hinv : Inv (s.withFs u) sh' := h.tree hs' fun file hfile => hlive _ (h.attached file hfile).1
    cases entry with
    | none =>
      cases hr
      exact ⟨sh', hinv, nofun⟩
    | some ep =>
      cases hr
      refine ⟨sh', hinv, fun q hq => ?_⟩
      cases hq
      exact (hentry ep rfl).1
  · rw [ename_entryCtx hfd] at hok
    rcases bind_eq_ok.1 hok with ⟨⟨entry, via⟩, hname, hr⟩
    have hinv : Inv (s.withFs s.fs) sh := h.tree h.sound fun file hfile => (h.attached file hfile).1
    cases entry with
    | none =>
      cases hr
      exact ⟨sh, hinv, nofun⟩
    | some ep =>
      have hep : sh.Live ep := ((h.sound.closed (h.entryCtx_live hp)).ename hname).1 ep rfl
      dsimp only at hr
      split at hr
      · cases hr
        exact ⟨sh, hinv, nofun⟩
      · split at hr
        · cases hr
          exact ⟨sh, hinv, nofun⟩
        · cases hr
          refine ⟨sh, hinv, fun q hq => ?_⟩
          cases hq
          exact hep

lemma syscallOpenAt_inv (hfd : EntryFd s p fd path)
    (hok : syscallOpenAt n s p fd path flags clus = some s') : ∃ sh', Inv s' sh' := by
  rcases bind_eq_some_iff.1 hok with ⟨⟨r, t⟩, hentry, hs'⟩
  rcases openEntry_inv h hp hfd (eq_ok_of_toOption hentry) with ⟨sh', hinv, hep⟩
  cases r with
  | error e =>
    cases hs'
    exact ⟨sh', hinv⟩
  | ok ep => exact ⟨sh', openFile_inv hinv (hep ep rfl) hs'⟩

lemma create_inv {r : Option Ptr} (hfd : EntryFd s p fd path)
    (hok : create n s.fs (s.ctx p) fd path type clus = .ok (r, t)) : ∃ sh', Inv (s.withFs t) sh' := by
  rw [create_entryCtx hfd] at hok
  rcases create_keeps h.sound (h.entryCtx_live hp) hok with ⟨sh', hsound, _, hlive, _⟩
  exact ⟨sh', h.tree hsound fun file hfile => hlive _ (h.attached file hfile).1⟩

lemma syscallMakeDirAt_inv (hfd : EntryFd s p fd path)
    (hok : syscallMakeDirAt n s p fd path clus = some s') : ∃ sh', Inv s' sh' := by
  unfold syscallMakeDirAt at hok
  split at hok
  · cases hok
    exact ⟨sh, h⟩
  · rcases bind_eq_some_iff.1 hok with ⟨⟨r, t⟩, hcreate, hs'⟩
    cases hs'
    exact create_inv h hp hfd (eq_ok_of_toOption hcreate)

lemma makeFile_inv (hok : makeFile n s p path type clus = some s') : ∃ sh', Inv s' sh' := by
  rcases bind_eq_some_iff.1 hok with ⟨⟨r, t⟩, hcreate, hs'⟩
  cases hs'
  exact create_inv h hp entryFd_atFdcwd (eq_ok_of_toOption hcreate)

lemma syscallUnlinkAt_inv
    (hcareful : (Act.unlinkAt p fd path).Careful s) (hok : syscallUnlinkAt n s p fd path = some s') :
    ∃ sh', Inv s' sh' := by
  rcases hcareful with ⟨hfd, hcareful⟩
  rcases bind_eq_some_iff.1 hok with ⟨⟨r, t⟩, hunlink, hs'⟩
  cases hs'
  have hunlink' := eq_ok_of_toOption hunlink
  rw [doUnlinkat_entryCtx hfd] at hunlink'
  have hname : ∀ n e via, ename n s.fs (entryCtx s p) fd path true = .ok (some e, via) →
      (s.fs.dirent e).firstChild = none ∧ ∀ file, Refers s file → file.ptr ≠ e := by
    intro n e via he
    rw [← ename_entryCtx hfd] at he
    exact hcareful n e via he
  rcases doUnlinkat_keeps h.sound (h.entryCtx_live hp) (fun n e via he => (hname n e via he).1) hunlink' with
    ⟨sh', hsound, _, hlive⟩
  refine ⟨sh', h.tree hsound fun file hfile => hlive _ (h.attached file hfile).1 fun n via he => ?_⟩
  exact (hname n _ via he).2 file hfile rfl

lemma syscallLinkAt_inv (hcareful : (Act.linkAt p oldFd oldPath newFd newPath clus).Careful s)
    (hok : syscallLinkAt n s p oldFd oldPath newFd newPath clus = some s') : ∃ sh', Inv s' sh' := by
  rcases hcareful with ⟨hold, hnew, hcareful⟩
  rcases bind_eq_some_iff.1 hok with ⟨⟨r, t⟩, hlink, hs'⟩
  cases hs'
  have hlink' := eq_ok_of_toOption hlink
  rw [doLinkat_entryCtx hold hnew] at hlink'
  rcases doLinkat_keeps h.sound (h.entryCtx_live hp) hlink' with ⟨sh', hsound, _, hlive⟩
  refine ⟨sh', h.tree hsound fun file hfile => hlive _ (h.attached file hfile).1 fun n dp name hparent hfound => ?_⟩
  rw [← enameparent_entryCtx hnew] at hparent
  exact hcareful n dp name _ hparent hfound file hfile rfl

lemma syscallChangeDir_inv (hok : syscallChangeDir n s p path = some s') : Inv s' sh := by
  rcases bind_eq_some_iff.1 hok with ⟨⟨entry, via⟩, hname, hs'⟩
  cases entry with
  | none =>
    cases hs'
    exact h
  | some ep =>
    dsimp only at hs'
    split at hs'
    · cases hs'
      exact h
    · cases hs'
      have hname' := eq_ok_of_toOption hname
      rw [ename_entryCtx entryFd_atFdcwd] at hname'
      have hep : sh.Live ep := ((h.sound.closed (h.entryCtx_live hp)).ename hname').1 ep rfl
      refine h.refer rfl rfl h.entry fun file hfile => ?_
      cases hfile with
      | file hopen hentry hep => exact .inl (.file hopen hentry hep)
      | @cwd q hq =>
        dsimp only
        by_cases hqp : q = p
        · subst hqp
          rw [update_self]
          exact .inr ⟨ep, hep, rfl⟩
        · rw [update_of_ne hqp]
          exact .inl (.cwd hq)
      | execFile hexec => exact .inl (.execFile hexec)
      | segment hq hmap => exact .inl (.segment hq hmap)

end

lemma setEntry_inv {g : Dirent → Dirent} (h : Inv s sh) (hg : ∀ d : Dirent, d.SamePlace (g d))
    (hok : setEntry n s p path g = some s') : Inv s' sh := by
  rcases bind_eq_some_iff.1 hok with ⟨t, hupdate, hs'⟩
  cases hs'
  rcases bind_eq_ok.1 (eq_ok_of_toOption hupdate) with ⟨⟨entry, via⟩, _, hset⟩
  cases entry with
  | none =>
    cases hset
    exact h
  | some e =>
    cases hset
    exact h.set (hg _)

lemma fileread_inv (h : Inv s sh) (f n : Nat) : Inv (fileread s f n).2 sh := by
  unfold fileread
  dsimp only
  split
  · split
    · exact h.setOff _ _
    · exact h
  · exact h

lemma filewrite_inv (h : Inv s sh) (f : Nat) (bytes : List UInt8) (clus : Nat) : Inv (filewrite s f bytes clus) sh := by
  unfold filewrite
  dsimp only
  split
  · split
    · rename_i ep _ _ _
      have hplace : (s.fs.dirent (ofAddr ep)).SamePlace
          (ewrite (s.fs.dirent (ofAddr ep)) (s.files.file f).off bytes clus).2 := ewrite_samePlace
      split
      · exact (h.set hplace).setOff _ _
      · exact h.set hplace
    · exact h
  · exact h

lemma exec_inv {maps : Nat} {loaded : Bool} (h : Inv s sh) (hp : s.files.live p = true)
    (hok : exec n s p path maps loaded clus = some s') : Inv s' sh := by
  rcases bind_eq_some_iff.1 hok with ⟨⟨entry, via⟩, hname, hs'⟩
  cases entry with
  | none =>
    cases hs'
    exact h.maps nofun
  | some de =>
    have hname' := eq_ok_of_toOption hname
    rw [ename_entryCtx entryFd_atFdcwd] at hname'
    have hde : sh.Live de := ((h.sound.closed (h.entryCtx_live hp)).ename hname').1 de rfl
    have hmaps : Inv { s with segments := update s.segments p (List.replicate maps (s.fileOf de)) } sh :=
      h.maps fun file hfile => ⟨de, hde, eq_of_mem_replicate hfile⟩
    dsimp only at hs'
    split at hs'
    · cases hs'
      exact hmaps
    · rcases bind_eq_some_iff.1 hs' with ⟨buf, _, hs'⟩
      rcases bind_eq_some_iff.1 hs' with ⟨⟨entry, via'⟩, _, hs'⟩
      rcases bind_eq_some_iff.1 hs' with ⟨exe, _, hs'⟩
      split at hs'
      · cases hs'
      · cases hs'
        have hplace : (s.fs.dirent exe).SamePlace (ewrite (s.fs.dirent exe) 0 (buf ++ [0]) clus).2 := ewrite_samePlace
        refine (hmaps.set hplace).refer rfl rfl h.entry fun file hfile => ?_
        cases hfile with
        | file hopen hentry hep => exact .inl (.file hopen hentry hep)
        | cwd hq => exact .inl (.cwd hq)
        | @execFile q _ hexec =>
          dsimp only at hexec
          by_cases hqp : q = p
          · subst hqp
            rw [update_self] at hexec
            cases hexec
            exact .inr ⟨de, hde, rfl⟩
          · rw [update_of_ne hqp] at hexec
            exact .inl (.execFile hexec)
        | segment hq hmap => exact .inl (.segment hq hmap)

lemma step_inv (h : Inv s sh) (hcareful : a.Careful s) (hstep : Step s a s') : ∃ sh', Inv s' sh' := by
  rcases hstep with ⟨⟨hp, hen⟩, n, hok⟩
  cases a with
  | openAt p fd path flags clus => exact syscallOpenAt_inv h hp hcareful hok
  | mkdirAt p fd path clus => exact syscallMakeDirAt_inv h hp hcareful hok
  | unlinkAt p fd path => exact syscallUnlinkAt_inv h hp hcareful hok
  | linkAt p oldFd oldPath newFd newPath clus => exact syscallLinkAt_inv h hp hcareful hok
  | chdir p path => exact ⟨sh, syscallChangeDir_inv h hp hok⟩
  | read p fd n =>
    cases hok
    unfold syscallRead
    split
    · exact ⟨sh, h⟩
    · exact ⟨sh, fileread_inv h _ _⟩
  | write p fd bytes clus =>
    cases hok
    unfold syscallWrite
    split
    · exact ⟨sh, h⟩
    · exact ⟨sh, filewrite_inv h _ _ _⟩
  | exec p path maps loaded clus => exact ⟨sh, exec_inv h hp hok⟩
  | fork p child => exact ⟨sh, processFork_inv h hp hok⟩
  | exit p => exact ⟨sh, processFree_inv h hok⟩
  | create p path type clus => exact makeFile_inv h hp hok
  | device p path dev =>
    refine ⟨sh, setEntry_inv (g := fun d => { d with dev := dev }) h ?_ hok⟩
    exact fun _ => ⟨rfl, rfl, rfl, rfl, rfl, rfl⟩
  | mount p path k =>
    refine ⟨sh, setEntry_inv (g := fun d => { d with head := some k }) h ?_ hok⟩
    exact fun _ => ⟨rfl, rfl, rfl, rfl, rfl, rfl⟩
  | files a =>
    rcases map_eq_some_iff.1 hok with ⟨⟨r, files⟩, hexec, rfl⟩
    exact ⟨sh, files_inv h hen (eq_done_of_toOption hexec)⟩

lemma inv_start {vol : Volume} (hload : fatInit n vol 0 boot = .ok t) : ∃ sh, Inv (start t) sh := by
  rcases sound_boot.setRoot vol (k := 0) rfl with ⟨hs, _⟩
  have hdir : ((boot.set (.root 0) (rootDirent vol 0)).dirent (.root 0)).isDir = true := by
    exact isDir_rootDirent
  have hlive : bootShape.Live (.root 0) := trivial
  rcases loadWith_grown loopGrows hs hlive hdir hload with ⟨sh, hsound, _⟩
  refine ⟨sh, hsound, nofun, fun file hfile => ?_⟩
  cases hfile with
  | file hopen hentry hep => cases hentry
  | cwd hlive => exact ⟨trivial, rfl⟩
  | execFile hexec => cases hexec
  | segment hlive hmap => cases hmap

/-! ## Runs -/

lemma contents_set (hd : (s.fs.dirent q).SamePlace d) (hne : file ≠ s.fileOf q) :
    contents { s with fs := s.fs.set q d } file = contents s file := by
  have huse : inUse (s.fs.set q d) file.ptr = inUse s.fs file.ptr := by
    cases file.ptr with
    | root k => rfl
    | dirent i =>
      unfold inUse isFree
      rw [next_set hd.nextBrother]
      rfl
  have hfile : Sys.fileOf { s with fs := s.fs.set q d } file.ptr = s.fileOf file.ptr := by
    cases file.ptr with
    | root k => rfl
    | dirent i => rfl
  unfold contents
  rw [hfile]
  rw [huse]
  by_cases hptr : file.ptr = q
  · rw [if_neg fun h => hne (by rw [← h.1, hptr]), if_neg fun h => hne (by rw [← h.1, hptr])]
  · rw [dirent_set_of_ne hptr]

lemma Inv.attached_of (h : Inv s sh) : Attached s where
  notFree := fun file hfile i hi hfree => by
    have hlive := (h.attached file hfile).1
    rw [hi] at hlive
    exact not_free_of_live h.sound hlive (h.sound.toRep.free_iff.1 hfree)
  same := fun file hfile => (h.attached file hfile).2
  read := fun f e hopen hentry hep => by
    rcases h.attached _ (.file hopen hentry hep) with ⟨hlive, hsame⟩
    refine ⟨s.fs.dirent (ofAddr e), if_pos ⟨hsame, inUse_of_live h.sound hlive⟩, fun n => ?_, fun off n => ?_⟩
    · unfold fileread
      dsimp only
      rw [hentry, hep]
      dsimp only
      split
      · rfl
      · rfl
    · unfold pread
      rw [hep]
      rfl
  write := fun f e bytes clus hopen hentry hep file hne => by
    rcases h.attached _ (.file hopen hentry hep) with ⟨hlive, hsame⟩
    have hne' : file ≠ s.fileOf (ofAddr e) := by
      rw [hsame]
      exact hne
    have hplace : (s.fs.dirent (ofAddr e)).SamePlace
        (ewrite (s.fs.dirent (ofAddr e)) (s.files.file f).off bytes clus).2 := ewrite_samePlace
    have hset := contents_set hplace hne'
    unfold filewrite
    dsimp only
    rw [hentry, hep]
    dsimp only
    split
    · split
      · exact hset
      · exact hset
    · rfl

/-- In every run whose calls are careful all references are attached in the state that is reached. -/
theorem files_stay_attached {as : List Act} {s₀ : Sys} (hstart : Started s₀)
    (hrun : Run (fun s a s' => a.Careful s ∧ Step s a s') s₀ as s) : Attached s := by
  rcases hstart with ⟨n, vol, t, hload, rfl⟩
  have hinv : ∃ sh, Inv s sh := by
    refine hrun.invariant (P := fun s => ∃ sh, Inv s sh) (inv_start hload) ?_
    rintro _ _ _ ⟨sh, h⟩ ⟨hcareful, hstep⟩
    exact step_inv h hcareful hstep
  rcases hinv with ⟨sh, h⟩
  exact h.attached_of

/-! Two runs of the first process: a file is unlinked while it is open, and a file is opened and written. -/

/-- `O_CREAT | O_RDWR` -/
def openFlags : Nat := 0o102

def loaded : Fs := (fatInit 2 (rootVolume []) 0 boot).toOption.getD boot

lemma started_loaded : Started (start loaded) :=
  ⟨2, rootVolume [], loaded, eq_ok_of_isOk (by decide +kernel) boot, rfl⟩

def Act.isTree : Act → Bool
  | .fork _ _ | .files _ => false
  | _ => true

/-- Calls of the first process other than `fork` and those of the file table, with fuel 2. -/
def firstCalls (s : Sys) (as : List Act) : Option Sys :=
  runAll (fun s a => if s.files.live 0 = true ∧ a.caller = 0 ∧ a.isTree = true then step 2 s a else none) s as

lemma run_firstCalls {as : List Act} (h : firstCalls s as = some s') : Run Step s as s' := by
  refine (run_of_runAll_guarded h).mono fun s a s' hstep => ?_
  rcases hstep with ⟨⟨hlive, hcaller, htree⟩, hstep⟩
  refine ⟨⟨by rwa [hcaller], ?_⟩, 2, hstep⟩
  cases a with
  | fork p child => cases htree
  | files a => cases htree
  | _ => trivial

def unlinkOpen : List Act := [.openAt 0 atFdcwd pathD openFlags 0, .unlinkAt 0 atFdcwd pathD]

def writeOther : List Act := [.openAt 0 atFdcwd pathL openFlags 0, .write 0 1 [7] 5]

/-- `/d` is unlinked while descriptor 0 refers to it.  Its dirent becomes `/l`, and what is written to `/l` is read
from descriptor 0. -/
theorem unlinked_file_is_reused : ∃ s₀ s s', Started s₀ ∧ Run Step s₀ unlinkOpen s ∧ ¬ Attached s ∧
    Run Step s writeOther s' ∧ s'.files.ofile (0, 0) = some 0 ∧ (fileread s' 0 1).1 = [7] := by
  rcases exists_of_any (o := firstCalls (start loaded) unlinkOpen) (P := fun s => isFree s.fs 8191 = true ∧
    (s.files.file 0).ref = 1 ∧ (s.files.file 0).type = .entry ∧ (s.files.file 0).ep = some (addr (.dirent 8191)) ∧
    (firstCalls s writeOther).any (fun s => s.files.ofile (0, 0) = some 0 ∧ (fileread s 0 1).1 = [7]) = true)
    (by decide +kernel) with ⟨s, hs, hfree, href, htype, hep, hmore⟩
  rcases exists_of_any hmore with ⟨s', hs', hread⟩
  refine ⟨start loaded, s, s', started_loaded, run_firstCalls hs, fun h => ?_, run_firstCalls hs', hread⟩
  rcases h.read 0 _ (by omega) htype hep with ⟨d, hd, _⟩
  unfold contents at hd
  rw [if_neg (by simp [inUse, hfree])] at hd
  cases hd

lemma refers_withFs (h : Refers ((start t).withFs t') file) : file.ptr = .root 0 := by
  cases h with
  | file _ hentry _ => cases hentry
  | cwd _ => rfl
  | execFile hexec => cases hexec
  | segment _ hmap => cases hmap

def unlinkFirst : List Act :=
  [.create 0 pathD .char 0, .unlinkAt 0 atFdcwd pathD, .openAt 0 atFdcwd pathL openFlags 0]

/-- The file `/d` for a device is made and unlinked, and its dirent becomes `/l`, which stays linked. -/
theorem open_file_stays_attached : ∃ s₀ s, Started s₀ ∧ Run Step s₀ unlinkFirst s ∧
    (s.files.file 0).ep = some (addr (.dirent 8191)) ∧ Attached s := by
  rcases exists_of_any (o := (create 2 loaded ((start loaded).ctx 0) atFdcwd pathD .char 0).toOption)
    (P := fun x => (ename 2 x.2 ((start loaded).ctx 0) atFdcwd pathD true).toOption.map Prod.fst =
        some (some (.dirent 8191)) ∧ (x.2.dirent (.dirent 8191)).firstChild = none ∧
      (step 2 ((start loaded).withFs x.2) (.unlinkAt 0 atFdcwd pathD)).any (fun s => s.files.live 0 = true ∧
        (step 2 s (.openAt 0 atFdcwd pathL openFlags 0)).any
          (fun s => (s.files.file 0).ep = some (addr (.dirent 8191))) = true) = true) (by decide +kernel)
    with ⟨⟨r, t⟩, hcreate, hname, hchild, hrest⟩
  rcases exists_of_any hrest with ⟨s₁, hunlink, hlive, hrest⟩
  rcases exists_of_any hrest with ⟨s₂, hopen, hep⟩
  rcases map_eq_some_iff.1 hname with ⟨⟨e, via⟩, hname, rfl⟩
  have hname' : ename 2 ((start loaded).withFs t).fs (((start loaded).withFs t).ctx 0) atFdcwd pathD true =
      .ok (some (.dirent 8191), via) := eq_ok_of_toOption hname
  have hmade : step 2 (start loaded) (.create 0 pathD .char 0) = some ((start loaded).withFs t) := by
    show makeFile 2 (start loaded) 0 pathD .char 0 = _
    unfold makeFile
    exact bind_eq_some_iff.2 ⟨_, hcreate, rfl⟩
  have hcareful : (Act.unlinkAt 0 atFdcwd pathD).Careful ((start loaded).withFs t) := by
    refine ⟨entryFd_atFdcwd, fun n e via' hn => ?_⟩
    have heq := eq_of_ne_oof (fun n => ename_below atFdcwd pathD true n) (by rw [hn]; nofun)
      (by rw [hname']; nofun)
    rw [hn, hname'] at heq
    cases heq
    refine ⟨hchild, fun file hfile => ?_⟩
    rw [refers_withFs hfile]
    nofun
  have hrun : Run (fun s a s' => a.Careful s ∧ Step s a s') (start loaded) unlinkFirst s₂ :=
    .cons ⟨trivial, ⟨rfl, trivial⟩, 2, hmade⟩ (.cons ⟨hcareful, ⟨rfl, trivial⟩, 2, hunlink⟩
      (.cons ⟨entryFd_atFdcwd, ⟨hlive, trivial⟩, 2, hopen⟩ (.nil _)))
  exact ⟨start loaded, s₂, started_loaded, hrun.mono fun _ _ _ h => h.2, hep, files_stay_attached started_loaded hrun⟩

end Open
end OsRiscv
