import OsRiscv.Mount.Loaded

/-!
# Cycle — a mount and an umount

`syscallUmount` marks the file system as unused and takes it off the mount point.  It does not close the file of the
image, and it does not free the dirents of the directories that `fatInit` has loaded.  So a mount and an umount never
restore what was there before, and each cycle costs an entry of the file table.
-/

namespace OsRiscv
namespace Mount

open Lib OsRiscv.Tree

variable {s s₁ s₂ : Sys} {t t' : Fs} {c : Ctx} {a : Args} {vol : Volume} {dp ep p : Ptr} {k f n m : Nat} {r : Int}
  {path name : Str} {taken rest : List Nat} {o : Option Nat}

/-! ## The calls -/

/-- A mount that has succeeded in `fileSystem[k]`, with the file `f`; `t` is the tree with the volume loaded. -/
structure Mounted (n : Nat) (vol : Volume) (dp : Ptr) (k f : Nat) (t : Fs) (s s₁ : Sys) : Prop where
  unused : (s.files.fileSystem k).valid = false
  bound : f < Files.nfile
  closed : (s.files.file f).ref = 0
  load : fatInit n vol k s.fs = .ok t
  refs : ∀ g, (s₁.files.file g).ref = if g = f then 1 else (s.files.file g).ref
  valid : ∀ j, (s₁.files.fileSystem j).valid = if j = k then true else (s.files.fileSystem j).valid
  next : (s₁.files.fileSystem k).next = (t.dirent dp).head
  fs : s₁.fs = t.set dp { t.dirent dp with head := some k }

lemma fsAlloc_ok (h : fsAlloc s = .ok (o, s₁)) :
    o = none ∨ ∃ k, o = some k ∧ (s.files.fileSystem k).valid = false ∧
      s₁ = ⟨{ s.files with
        fileSystem := Function.update s.files.fileSystem k { valid := true, image := none, next := none } },
        s.fs.set (.root k) zeroDirent⟩ := by
  have heval : Files.fsAlloc s.files =
      ((List.range Files.fileSystemNumber).find? fun i => (s.files.fileSystem i).valid = false).elim
        (.done none s.files) fun i => .done (some i) { s.files with
          fileSystem := Function.update s.files.fileSystem i { valid := true, image := none, next := none } } := by
    unfold Files.fsAlloc
    show Call.bind _ _ _ = _
    unfold Call.bind Call.get
    dsimp only
    cases (List.range Files.fileSystemNumber).find? fun i => (s.files.fileSystem i).valid = false <;> rfl
  unfold fsAlloc onTable at h
  rw [heval] at h
  cases hfind : (List.range Files.fileSystemNumber).find? fun i => decide ((s.files.fileSystem i).valid = false) with
  | none =>
    rw [hfind] at h
    cases h
    exact .inl rfl
  | some k =>
    rw [hfind] at h
    cases h
    have hunused : (s.files.fileSystem k).valid = false := by simpa using List.find?_some hfind
    exact .inr ⟨k, rfl, hunused, rfl⟩

lemma filealloc_ok (h : onTable Files.filealloc s = .ok (o, s₁)) :
    o = none ∨ ∃ f, o = some f ∧ f < Files.nfile ∧ (s.files.file f).ref = 0 ∧
      s₁ = { s with files := { s.files with
        file := Function.update s.files.file f { s.files.file f with ref := 1 } } } := by
  have heval : Files.filealloc s.files =
      ((List.range Files.nfile).find? fun f => (s.files.file f).ref = 0).elim
        (.done none s.files) fun f => .done (some f) { s.files with
          file := Function.update s.files.file f { s.files.file f with ref := 1 } } := by
    unfold Files.filealloc
    show Call.bind _ _ _ = _
    unfold Call.bind Call.get
    dsimp only
    cases (List.range Files.nfile).find? fun f => (s.files.file f).ref = 0 <;> rfl
  unfold onTable at h
  rw [heval] at h
  cases hfind : (List.range Files.nfile).find? fun f => decide ((s.files.file f).ref = 0) with
  | none =>
    rw [hfind] at h
    cases h
    exact .inl rfl
  | some f =>
    rw [hfind] at h
    cases h
    have hfree : (s.files.file f).ref = 0 := by simpa using List.find?_some hfind
    exact .inr ⟨f, rfl, List.mem_range.1 (List.mem_of_find?_eq_some hfind), hfree, rfl⟩

lemma imageFile_ref {file : Files.File} (h : imageFile s f ep = .ok file) : file.ref = (s.files.file f).ref := by
  unfold imageFile at h
  cases hhead : (s.fs.dirent ep).head with
  | none =>
    rw [hhead] at h
    cases h
    rfl
  | some below =>
    rw [hhead] at h
    dsimp only at h
    cases himage : (s.files.fileSystem below).image with
    | none =>
      rw [himage] at h
      cases h
    | some g =>
      rw [himage] at h
      cases h
      rfl

lemma mountOn_ok (h : mountOn n s ep dp vol = .ok (0, s₁)) : ∃ k f t, Mounted n vol dp k f t s s₁ := by
  rcases bind_eq_ok.1 h with ⟨⟨o, sa⟩, halloc, h⟩
  rcases fsAlloc_ok halloc with rfl | ⟨k, rfl, hunused, rfl⟩
  · cases h
  · rcases bind_eq_ok.1 h with ⟨⟨o, sb⟩, hfile, h⟩
    rcases filealloc_ok hfile with rfl | ⟨f, rfl, hbound, hclosed, rfl⟩
    · cases h
    · rcases bind_eq_ok.1 h with ⟨file, himage, h⟩
      rcases bind_eq_ok.1 h with ⟨t, hload, h⟩
      cases h
      have hload' : fatInit n vol k s.fs = .ok t := by
        have hsame : fatInit n vol k s.fs = fatInit n vol k (s.fs.set (.root k) zeroDirent) := by
          unfold fatInit
          rw [set_set]
        rw [hsame]
        exact hload
      have href : file.ref = 1 := by
        rw [imageFile_ref himage]
        simp
      refine ⟨k, f, t, hunused, hbound, hclosed, hload', ?_, ?_, ?_, rfl⟩
      · intro g
        by_cases hg : g = f
        · simp [attach, setImage, hg, href]
        · simp [attach, setImage, hg]
      · intro j
        by_cases hj : j = k
        · simp [attach, setImage, hj]
        · simp [attach, setImage, hj]
      · simp [attach, setImage]

lemma syscallMount_ok (h : syscallMount n s c a vol = .ok (0, s₁)) :
    ∃ dp k f t, entryOf n s c a.mountPath = .ok (some dp) ∧ Mounted n vol dp k f t s s₁ := by
  unfold syscallMount at h
  cases htype : a.type with
  | none =>
    rw [htype] at h
    cases h
  | some type =>
    rw [htype] at h
    dsimp only at h
    split at h
    · cases h
    · rcases bind_eq_ok.1 h with ⟨image, _, h⟩
      cases image with
      | none => cases h
      | some ep =>
        rcases bind_eq_ok.1 h with ⟨point, hpoint, h⟩
        cases point with
        | none => cases h
        | some dp =>
          dsimp only at h
          split at h
          · cases h
          · split at h
            · cases h
            · rcases mountOn_ok h with ⟨k, f, t, hmounted⟩
              exact ⟨dp, k, f, t, hpoint, hmounted⟩

lemma syscallUmount_ok {flag : Int} {path : Option Str} (h : syscallUmount n s c path flag = .ok (r, s₁)) :
    (s₁ = s ∧ r = -1 ∧ ∀ ep, entryOf n s c path = .ok (some ep) → (s.fs.dirent ep).head = none) ∨
      ∃ ep k, entryOf n s c path = .ok (some ep) ∧ (s.fs.dirent ep).head = some k ∧ r = 0 ∧ s₁ = detach s k ep := by
  rcases bind_eq_ok.1 h with ⟨entry, hentry, h⟩
  cases entry with
  | none =>
    cases h
    refine .inl ⟨rfl, rfl, fun ep hep => ?_⟩
    rw [hentry] at hep
    cases hep
  | some ep =>
    dsimp only at h
    split at h
    · cases h
    · cases hhead : (s.fs.dirent ep).head with
      | none =>
        rw [hhead] at h
        cases h
        refine .inl ⟨rfl, rfl, fun ep' hep => ?_⟩
        rw [hentry] at hep
        cases hep
        exact hhead
      | some k =>
        rw [hhead] at h
        cases h
        exact .inr ⟨ep, k, hentry, hhead, rfl, rfl⟩

/-! ## The file table -/

lemma Mounted.freeFiles_lost (h : Mounted n vol dp k f t s s₁) : freeFiles s₁.files + 1 = freeFiles s.files := by
  unfold freeFiles
  have herase : ((Finset.range Files.nfile).filter fun g => (s₁.files.file g).ref = 0) =
      ((Finset.range Files.nfile).filter fun g => (s.files.file g).ref = 0).erase f := by
    ext g
    rw [Finset.mem_erase, Finset.mem_filter, Finset.mem_filter, h.refs g]
    by_cases hg : g = f
    · simp [hg]
    · simp [hg]
  have hmem : f ∈ (Finset.range Files.nfile).filter fun g => (s.files.file g).ref = 0 :=
    Finset.mem_filter.2 ⟨Finset.mem_range.2 h.bound, h.closed⟩
  rw [herase]
  exact Finset.card_erase_add_one hmem

lemma syscallUmount_freeFiles {flag : Int} {path : Option Str} (h : syscallUmount n s c path flag = .ok (r, s₁)) :
    freeFiles s₁.files = freeFiles s.files := by
  rcases syscallUmount_ok h with ⟨rfl, _⟩ | ⟨ep, k, _, _, _, rfl⟩
  · rfl
  · rfl

/-- A mount by a process and an umount of the same path by it. -/
def Cycle (s : Sys) (a : Ctx × Args × Volume) (s₂ : Sys) : Prop :=
  ∃ n m s₁ flag r, syscallMount n s a.1 a.2.1 a.2.2 = .ok (0, s₁) ∧
    syscallUmount m s₁ a.1 a.2.1.mountPath flag = .ok (r, s₂)

lemma cycle_freeFiles {b : Ctx × Args × Volume} (h : Cycle s b s₂) : freeFiles s₂.files + 1 = freeFiles s.files := by
  rcases h with ⟨n, m, s₁, flag, r, hmount, humount⟩
  rcases syscallMount_ok hmount with ⟨dp, k, f, t, _, hmounted⟩
  rw [syscallUmount_freeFiles humount]
  exact hmounted.freeFiles_lost

lemma cycles_freeFiles {bs : List (Ctx × Args × Volume)} (h : Run Cycle s bs s₂) :
    freeFiles s₂.files + bs.length = freeFiles s.files := by
  induction h with
  | nil => rfl
  | snoc _ hstep ih =>
    have hone := cycle_freeFiles hstep
    rw [List.length_append, List.length_singleton]
    omega

/-! ## The tree -/

lemma set_self : t.set p (t.dirent p) = t := by
  unfold Fs.set
  rw [Function.update_eq_self]

lemma Mounted.fs_detach (h : Mounted n vol dp k f t s s₁) : (detach s₁ k dp).fs = t := by
  show s₁.fs.set dp { s₁.fs.dirent dp with head := (s₁.files.fileSystem k).next } = t
  rw [h.next, h.fs, set_set, dirent_set_self]
  exact set_self

lemma dirlookup_loaded {sh : Shape} (hrep : Rep t sh)
    (htook : Took k (.root k) (t.set (.root k) (rootDirent vol k)) sh.free t' taken rest) (hroot : p ≠ .root k)
    (hfree : ∀ i ∈ sh.free, p ≠ .dirent i) : dirlookup t' p name = dirlookup t p name := by
  have hsame : ∀ q, q ≠ .root k → (∀ i ∈ sh.free, q ≠ .dirent i) → t'.dirent q = t.dirent q := by
    intro q hq hqfree
    rw [htook.other q hq hqfree, dirent_set_of_ne hq]
  have hkid : ∀ i ∈ sh.kids p, t'.dirent (.dirent i) = t.dirent (.dirent i) := by
    intro i hi
    refine hsame _ nofun fun j hj heq => ?_
    exact hrep.apart p i hi (Ptr.dirent.inj heq ▸ hj)
  have hlist : Linked t'.next (t'.dirent p).firstChild (sh.kids p) := by
    rw [hsame p hroot hfree]
    refine (hrep.kids p).congr fun i hi => ?_
    exact congrArg Dirent.nextBrother (hkid i hi)
  have hfind : ((sh.kids p).find? fun i => sameName (t'.dirent (.dirent i)).filename name) =
      (sh.kids p).find? fun i => sameName (t.dirent (.dirent i)).filename name :=
    find?_congr_of_mem fun i hi => by rw [hkid i hi]
  have hlen := hrep.length_kids p
  unfold dirlookup
  dsimp only
  rw [hlist.search_eq hlen, (hrep.kids p).search_eq hlen, hfind, hsame p hroot hfree]

/-- The entries that loading leaves alone. -/
def Aside (k : Nat) (free : List Nat) (p : Ptr) : Prop := p ≠ .root k ∧ ∀ i ∈ free, p ≠ .dirent i

lemma frame_loaded {sh : Shape} (hrep : Rep t sh)
    (htook : Took k (.root k) (t.set (.root k) (rootDirent vol k)) sh.free t' taken rest) :
    Frame t t' (Aside k sh.free) ∧ Missing t t' (Aside k sh.free) := by
  have hsame : ∀ q, Aside k sh.free q → t'.dirent q = t.dirent q := by
    intro q hq
    rw [htook.other q hq.1 hq.2, dirent_set_of_ne hq.1]
  constructor
  · constructor
    · exact htook.root
    · intro p hp
      rw [hsame p hp]
    · intro p hp
      rw [hsame p hp]
    · intro p hp
      rw [hsame p hp]
    · intro p hp _
      rw [hsame p hp]
    · intro p name q hp _ hq
      rw [dirlookup_loaded hrep htook hp.1 hp.2]
      exact hq
  · intro p name hp hnone
    rw [dirlookup_loaded hrep htook hp.1 hp.2]
    exact hnone

/-! ## What a cycle leaves behind -/

/-- What a mount on `dp` in `fileSystem[k]` and its umount bring back, and what they do not: the dirents of the volume
stay with it, and are none exactly if its root directory is empty.  Paths have the entry they had unless they led
through the root of `fileSystem[k]` or a free dirent. -/
structure Left (k : Nat) (dp : Ptr) (s s₁ s₂ : Sys) : Prop where
  head : dp ≠ .root k → (s₂.fs.dirent dp).head = (s.fs.dirent dp).head
  slots : ∀ j, (s₂.files.fileSystem j).valid = (s.files.fileSystem j).valid
  dirents : ∀ l, Linked s.fs.next s.fs.direntHead l → ∃ taken rest, l = taken ++ rest ∧
    Linked s₂.fs.next s₂.fs.direntHead rest ∧
    (taken = [] ↔ (s₁.fs.dirent (.root k)).firstChild = none) ∧
    ∀ i ∈ taken, (s₂.fs.dirent (.dirent i)).fileSystem = k
  paths : ∀ sh, Rep s.fs sh → ∀ n c fd path follow r via, ename n s.fs c fd path follow = .ok (r, via) →
    (∀ p ∈ via, Aside k sh.free p) → ename n s₂.fs c fd path follow = .ok (r, via)

lemma Took.taken_nil_iff {l taken rest : List Nat}
    (h : Took k (.root k) (t.set (.root k) (rootDirent vol k)) l t' taken rest) :
    taken = [] ↔ (t'.dirent (.root k)).firstChild = none := by
  constructor
  · intro hnil
    rw [h.same hnil, dirent_set_self]
    rfl
  · intro hnone
    by_contra htaken
    exact h.grown htaken hnone

lemma Mounted.left (h : Mounted n vol dp k f t s s₁) : Left k dp s s₁ (detach s₁ k dp) := by
  have hfs := h.fs_detach
  constructor
  · intro hdp
    rw [hfs]
    exact fatInit_head h.load hdp
  · intro j
    show (Function.update s₁.files.fileSystem k _ j).valid = _
    by_cases hj : j = k
    · subst hj
      rw [Function.update_self]
      exact h.unused.symm
    · rw [Function.update_of_ne hj, h.valid j, if_neg hj]
  · intro l hl
    rcases fatInit_took hl h.load with ⟨taken, rest, htook⟩
    refine ⟨taken, rest, htook.split, ?_, ?_, ?_⟩
    · rw [hfs]
      exact htook.free
    · rw [htook.taken_nil_iff, h.fs, field_set Dirent.firstChild (by rfl)]
    · rw [hfs]
      exact htook.owner
  · intro sh hrep m c fd path follow r via hname hvia
    rcases fatInit_took hrep.free h.load with ⟨taken, rest, htook⟩
    rcases frame_loaded hrep htook with ⟨hframe, hmissing⟩
    rw [hfs]
    exact hframe.ename hname hvia fun _ => hmissing

/-- A mount and an umount of its path, in any state and for any image, do not restore what was there: the file table
has one free entry less, and with each further cycle another one.  If the umount finds the mount point again, the
rest is as `Left` says. -/
theorem umount_never_undoes_mount {flag : Int} (hmount : syscallMount n s c a vol = .ok (0, s₁))
    (humount : syscallUmount m s₁ c a.mountPath flag = .ok (r, s₂)) :
    ∃ dp k, entryOf n s c a.mountPath = .ok (some dp) ∧ ¬Restored dp s s₂ ∧
      freeFiles s₂.files + 1 = freeFiles s.files ∧
      (entryOf m s₁ c a.mountPath = .ok (some dp) → r = 0 ∧ Left k dp s s₁ s₂) ∧
      ∀ bs s', Run Cycle s₂ bs s' → freeFiles s'.files + bs.length + 1 = freeFiles s.files := by
  rcases syscallMount_ok hmount with ⟨dp, k, f, t, hentry, hmounted⟩
  have hlost : freeFiles s₂.files + 1 = freeFiles s.files := by
    rw [syscallUmount_freeFiles humount]
    exact hmounted.freeFiles_lost
  refine ⟨dp, k, hentry, ?_, hlost, ?_, ?_⟩
  · intro hrestored
    have hsame := hrestored.files
    omega
  · intro hfound
    have hhead : (s₁.fs.dirent dp).head = some k := by
      rw [hmounted.fs, dirent_set_self]
    rcases syscallUmount_ok humount with ⟨_, _, hnone⟩ | ⟨ep, j, hep, hj, rfl, rfl⟩
    · rw [hnone dp hfound] at hhead
      cases hhead
    · rw [hfound] at hep
      cases hep
      rw [hhead] at hj
      cases hj
      exact ⟨rfl, hmounted.left⟩
  · intro bs s' hrun
    have hcycles := cycles_freeFiles hrun
    omega

/-! ## An image with one file -/

def cardActs : List Act :=
  [.fatInit 0 (rootVolume []), .create rootCtx atFdcwd pathD .dir 5, .create rootCtx atFdcwd pathDF .file 0]

/-- A card with the directory `/d` and the file `/d/f` in it. -/
def card : Sys := ⟨Files.init 0 fun _ => false, (after cardActs).getD boot⟩

/-- `/d/f` is the image; it is mounted on `/d`. -/
def cardArgs : Args where
  imagePath := some pathDF
  mountPath := some pathD
  type := some vfat
  flag := 0
  data := none

def imageVolume : Volume := rootVolume [.live fileEntry]

def mountedCard : Sys := ((syscallMount 3 card rootCtx cardArgs imageVolume).toOption.getD (0, card)).2

def unmountedCard : Sys := ((syscallUmount 3 mountedCard rootCtx (some pathD) 0).toOption.getD (0, card)).2

lemma card_mount : syscallMount 3 card rootCtx cardArgs imageVolume = .ok (0, mountedCard) := by
  rcases exists_ok_of_fst (y := syscallMount 3 card rootCtx cardArgs imageVolume) (a := 0) (by decide +kernel)
    with ⟨s, hs⟩
  unfold mountedCard
  rw [hs]
  rfl

lemma card_umount : syscallUmount 3 mountedCard rootCtx (some pathD) 0 = .ok (0, unmountedCard) := by
  rcases exists_ok_of_fst (y := syscallUmount 3 mountedCard rootCtx (some pathD) 0) (a := 0) (by decide +kernel)
    with ⟨s, hs⟩
  unfold unmountedCard
  rw [hs]
  rfl

theorem umount_leaves_card :
    ∃ dp k, entryOf 3 card rootCtx (some pathD) = .ok (some dp) ∧ ¬Restored dp card unmountedCard ∧
      Left k dp card mountedCard unmountedCard := by
  have hentry : entryOf 3 mountedCard rootCtx (some pathD) = entryOf 3 card rootCtx (some pathD) := by decide +kernel
  rcases umount_never_undoes_mount card_mount card_umount with ⟨dp, k, hdp, hnot, _, hleft, _⟩
  refine ⟨dp, k, hdp, hnot, (hleft ?_).2⟩
  show entryOf 3 mountedCard rootCtx (some pathD) = _
  rw [hentry]
  exact hdp

/-- After the umount the image's file is still in use, and the dirent of the one file in the image is not free. -/
theorem cycle_loses_file_and_dirent : syscallMount 3 card rootCtx cardArgs imageVolume = .ok (0, mountedCard) ∧
      syscallUmount 3 mountedCard rootCtx cardArgs.mountPath 0 = .ok (0, unmountedCard) ∧
      (card.files.file 0).ref = 0 ∧ (unmountedCard.files.file 0).ref = 1 ∧
      card.fs.direntHead = some 8189 ∧ unmountedCard.fs.direntHead = some 8188 ∧
      ¬Restored (.dirent 8191) card unmountedCard := by
  refine ⟨card_mount, card_umount, by decide +kernel, by decide +kernel, by decide +kernel, by decide +kernel, ?_⟩
  intro hrestored
  have hlost := cycle_freeFiles (b := (rootCtx, cardArgs, imageVolume))
    ⟨3, 3, mountedCard, 0, 0, card_mount, card_umount⟩
  have hsame := hrestored.files
  omega

end Mount
end OsRiscv
