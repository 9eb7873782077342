import OsRiscv.Lib.Run
import OsRiscv.Tree.Exact

/-!
# System — the calls that change the tree, and its representation

An action is a call of a process, with its current directory and its open files, or the loading of a volume.  A
call that panics or does not end has no step.  `tree_represented` says that the lists and the tree stay
well formed in runs that unlink no directory with children and load no directory that is out of order.
-/

namespace OsRiscv
namespace Tree

open Lib

inductive Act
  | fatInit (k : Nat) (vol : Volume)
  | create (c : Ctx) (fd : Int) (path : Str) (type : FileKind) (clus : Nat)
  | unlinkat (c : Ctx) (fd : Int) (path : Str)
  | linkat (c : Ctx) (oldFd : Int) (oldPath : Str) (newFd : Int) (newPath : Str) (clus : Nat)
  /-- `dp->head = fs`, the end of `syscallMount` -/
  | mount (c : Ctx) (path : Str) (k : Nat)
  /-- `ep->dev = dev` for the device files that are set up at the start -/
  | device (c : Ctx) (path : Str) (dev : Fat.Dev)
  /-- `ewrite` to the file behind a descriptor -/
  | write (c : Ctx) (fd off : Nat) (bytes : List UInt8) (clus : Nat)
  /-- `etrunc` of the file behind a descriptor, at the end of an `open` with `O_TRUNC` -/
  | trunc (c : Ctx) (fd : Nat)

/-- A write to the entry that a path names. -/
def update (n : Nat) (t : Fs) (c : Ctx) (path : Str) (f : Dirent → Dirent) : Except Stop Fs := do
  let (entry, _) ← ename n t c atFdcwd path true
  match entry with
  | none => return t
  | some e => return t.set e (f (t.dirent e))

/-- A write to the entry that is open as `fd`. -/
def updateFile (t : Fs) (c : Ctx) (fd : Nat) (f : Dirent → Dirent) : Fs :=
  match c.ofile fd with
  | some (some e) => t.set e (f (t.dirent e))
  | _ => t

def step (n : Nat) (t : Fs) : Act → Except Stop Fs
  | .fatInit k vol => fatInit n vol k t
  | .create c fd path type clus => do return (← create n t c fd path type clus).2
  | .unlinkat c fd path => do return (← doUnlinkat n t c fd path).2
  | .linkat c oldFd oldPath newFd newPath clus => do
      return (← doLinkat n t c oldFd oldPath newFd newPath clus).2
  | .mount c path k => update n t c path fun d => { d with head := some k }
  | .device c path dev => update n t c path fun d => { d with dev := dev }
  | .write c fd off bytes clus => .ok (updateFile t c fd fun d => (ewrite d off bytes clus).2)
  | .trunc c fd => .ok (updateFile t c fd etrunc)

/-- `a` leads from `t` to `t'`. -/
def Step (t : Fs) (a : Act) (t' : Fs) : Prop := ∃ n, step n t a = .ok t'

/-- The dirent is on the free list. -/
def Fs.Free (t : Fs) (i : Nat) : Prop := ∃ l, Linked t.next t.direntHead l ∧ i ∈ l

/-- The entry is a root or in the list of a directory. -/
def Fs.InTree (t : Fs) : Ptr → Prop
  | .root _ => True
  | .dirent i => ∃ p l, Linked t.next (t.dirent p).firstChild l ∧ i ∈ l

/-- The process refers to entries in the tree. -/
def Ctx.InTree (t : Fs) (c : Ctx) : Prop := t.InTree c.cwd ∧ ∀ fd p, c.ofile fd = some (some p) → t.InTree p

/-- The volume has its directories in order and siblings with different names. -/
def Volume.Fit (vol : Volume) : Prop :=
  ∃ layout d, OnDisk vol layout d vol.rootClus ∧ InOrder vol layout d True vol.rootClus ∧
    NamesDiffer layout d vol.rootClus

/-- The processes refer to entries in the tree; a volume is loaded into a file system that is not in use, and is
fit; what is unlinked has no children. -/
def Act.Proper (t : Fs) : Act → Prop
  | .fatInit k vol => (t.dirent (.root k)).isDir = false ∧ vol.Fit
  | .create c _ _ _ _ => c.InTree t
  | .unlinkat c fd path => c.InTree t ∧
      ∀ n e via, ename n t c fd path true = .ok (some e, via) → (t.dirent e).firstChild = none
  | .linkat c _ _ _ _ _ => c.InTree t
  | .mount c _ _ => c.InTree t
  | .device c _ _ => c.InTree t
  | .write c _ _ _ _ => c.InTree t
  | .trunc c _ => c.InTree t

variable {t t' : Fs} {sh : Shape} {c : Ctx} {p q e : Ptr} {o : Option Nat} {i k n clus : Nat} {d : Dirent} {fd : Int}
  {path name : Str} {type : FileKind} {vol : Volume} {a : Act} {oldPath newPath : Str} {f : Dirent → Dirent}
  {r : Option Ptr} {as : List Act}

/-! ## The calls -/

lemma Rep.free_iff (h : Rep t sh) : t.Free i ↔ i ∈ sh.free := by
  constructor
  · rintro ⟨l, hl, hi⟩
    rwa [← hl.unique h.free]
  · exact fun hi => ⟨sh.free, h.free, hi⟩

lemma Rep.inTree_iff (h : Rep t sh) : t.InTree p ↔ sh.Live p := by
  cases p with
  | root k => exact .rfl
  | dirent i =>
    constructor
    · rintro ⟨q, l, hl, hi⟩
      refine ⟨q, ?_⟩
      rwa [← hl.unique (h.kids q)]
    · rintro ⟨q, hq⟩
      exact ⟨q, sh.kids q, h.kids q, hq⟩

lemma Rep.ctx_inTree_iff (h : Rep t sh) : c.InTree t ↔ c.Live sh := by
  unfold Ctx.InTree Ctx.Live
  simp only [h.inTree_iff]

/-- The pointers, the kind and the name of the two are the same. -/
structure Dirent.SamePlace (d d' : Dirent) : Prop where
  nextBrother : d'.nextBrother = d.nextBrother
  firstChild : d'.firstChild = d.firstChild
  parent : d'.parent = d.parent
  isDir : d'.isDir = d.isDir
  fileSystem : d'.fileSystem = d.fileSystem
  filename : d'.filename = d.filename

lemma Sound.set (h : Sound t sh o) (hd : (t.dirent p).SamePlace d) : Sound (t.set p d) sh o := by
  refine h.congr (h.toRep.set hd.nextBrother hd.firstChild hd.parent) ?_ ?_
  · intro q i _
    exact field_set Dirent.isDir hd.isDir q
  · intro k
    rw [field_set Dirent.isDir hd.isDir, field_set Dirent.fileSystem hd.fileSystem]
    exact h.roots k

lemma Distinct.set (h : Distinct t sh) (hname : d.filename = (t.dirent p).filename) : Distinct (t.set p d) sh :=
  h.mono (fun _ => .refl _) fun _ _ _ => field_set Dirent.filename hname _

lemma isDir_initDirent {parent : Dirent} :
    (initDirent d p parent name (attrOf type) clus).isDir = decide (type = .dir) := by
  have hattr : (initDirent d p parent name (attrOf type) clus).attr =
      (if attrOf type = Fat.attrLink then 0 else attrOf type) |||
        (if attrOf type = Fat.attrDirectory then Fat.attrDirectory else Fat.attrArchive) := rfl
  unfold Dirent.isDir
  rw [hattr]
  cases type <;> decide

lemma set_set {d' : Dirent} : (t.set p d).set p d' = t.set p d' := by
  unfold Fs.set
  rw [Function.update_idem]

/-- What `create` returns and does. -/
theorem create_ok (h : Sound t sh none) (hc : c.Live sh)
    (hok : create n t c fd path type clus = .ok (r, t')) :
    (∃ name, enameparent n t c fd path = .ok (none, name) ∧ r = none ∧ t' = t) ∨
      ∃ dp name, enameparent n t c fd path = .ok (some dp, name) ∧ sh.Live dp ∧ (t.dirent dp).isDir = true ∧
        ((∃ ep, named t sh dp name = some ep ∧ t' = t ∧
            r = if (type = .dir ∧ (t.dirent ep).isDir = false) ∨ (type = .file ∧ (t.dirent ep).isDir = true)
              then none else some ep) ∨
          (named t sh dp name = none ∧ ∃ i rest, sh.free = i :: rest ∧
            t' = withEntry t dp i name (attrOf type) clus ∧ Sound t' (Shape.add { sh with free := rest } dp i) none ∧
            (Distinct t sh → Distinct t' (Shape.add { sh with free := rest } dp i)) ∧ r = some (.dirent i))) := by
  rcases bind_eq_ok.1 hok with ⟨⟨dp, name⟩, hparent, hcreate⟩
  cases dp with
  | none =>
    cases hcreate
    exact .inl ⟨name, hparent, rfl, rfl⟩
  | some dp =>
    have hdp : sh.Live dp := (h.closed hc).enameparent hparent dp rfl
    rcases bind_eq_ok.1 hcreate with ⟨⟨ep, u⟩, halloc, hresult⟩
    dsimp only at hresult
    rcases h.ealloc_ok hdp halloc with ⟨hdir, ⟨rfl, hfound⟩ | ⟨hnone, i, rest, hfree, rfl, rfl, hs', hdist⟩⟩
    · refine .inr ⟨dp, name, hparent, hdp, hdir, .inl ⟨ep, hfound, ?_⟩⟩
      split at hresult
      · rename_i hbad
        cases hresult
        exact ⟨rfl, (if_pos hbad).symm⟩
      · rename_i hbad
        cases hresult
        exact ⟨rfl, (if_neg hbad).symm⟩
    · refine .inr ⟨dp, name, hparent, hdp, hdir, .inr ⟨hnone, i, rest, hfree, ?_⟩⟩
      -- the new entry is of the kind that was asked for
      have hkind : ((withEntry t dp i name (attrOf type) clus).dirent (.dirent i)).isDir = decide (type = .dir) := by
        rw [isDir_congr content_withEntry_self]
        exact isDir_initDirent
      rw [hkind, if_neg (by cases type <;> decide)] at hresult
      cases hresult
      exact ⟨rfl, hs', hdist, rfl⟩

lemma ewrite_eq (d : Dirent) (off : Nat) (bytes : List UInt8) (clus : Nat) :
    ∃ a b g, (ewrite d off bytes clus).2 = { d with firstClus := a, fileSize := b, data := g } := by
  unfold ewrite
  dsimp only
  split
  · exact ⟨d.firstClus, d.fileSize, d.data, rfl⟩
  · split
    · exact ⟨d.firstClus, d.fileSize, d.data, rfl⟩
    · exact ⟨_, _, _, rfl⟩

lemma ewrite_samePlace {off : Nat} {bytes : List UInt8} : d.SamePlace (ewrite d off bytes clus).2 := by
  rcases ewrite_eq d off bytes clus with ⟨a, b, g, h⟩
  rw [h]
  exact ⟨rfl, rfl, rfl, rfl, rfl, rfl⟩

lemma linked_samePlace (buf : Str) : d.SamePlace { (ewrite d 0 (buf ++ [0]) clus).2 with ntRes := dtLnk } :=
  have h : d.SamePlace (ewrite d 0 (buf ++ [0]) clus).2 := ewrite_samePlace
  ⟨h.nextBrother, h.firstChild, h.parent, h.isDir, h.fileSystem, h.filename⟩

/-- What `do_linkat` does once it has the entry of `old` and the file at `new`. -/
theorem doLinkat_ok {oldFd newFd : Int} {r : Int}
    (hok : doLinkat n t c oldFd oldPath newFd newPath clus = .ok (r, t')) :
    (∃ via, ename n t c oldFd oldPath true = .ok (none, via) ∧ r = -1 ∧ t' = t) ∨
      ∃ e via target u, ename n t c oldFd oldPath true = .ok (some e, via) ∧
        create n t c newFd newPath .file clus = .ok (target, u) ∧
        ((target = none ∧ r = -1 ∧ t' = u) ∨
          ∃ q, target = some q ∧
            ((getAbsolutePath u e = none ∧ r = -1 ∧ eremove u q = .ok t') ∨
              ∃ buf, getAbsolutePath u e = some buf ∧
                (((ewrite (u.dirent q) 0 (buf ++ [0]) clus).1 ≠ buf.length + 1 ∧ r = -1 ∧
                    eremove (u.set q (ewrite (u.dirent q) 0 (buf ++ [0]) clus).2) q = .ok t') ∨
                  ((ewrite (u.dirent q) 0 (buf ++ [0]) clus).1 = buf.length + 1 ∧ r = 0 ∧
                    t' = u.set q { (ewrite (u.dirent q) 0 (buf ++ [0]) clus).2 with ntRes := dtLnk })))) := by
  rcases bind_eq_ok.1 hok with ⟨⟨entry, via⟩, hname, hrest⟩
  cases entry with
  | none =>
    cases hrest
    exact .inl ⟨via, hname, rfl, rfl⟩
  | some e =>
    rcases bind_eq_ok.1 hrest with ⟨⟨target, u⟩, hcreate, hlink⟩
    refine .inr ⟨e, via, target, u, hname, hcreate, ?_⟩
    cases target with
    | none =>
      cases hlink
      exact .inl ⟨rfl, rfl, rfl⟩
    | some q =>
      refine .inr ⟨q, rfl, ?_⟩
      dsimp only at hlink
      cases habs : getAbsolutePath u e with
      | none =>
        rw [habs] at hlink
        rcases bind_eq_ok.1 hlink with ⟨v, hremove, hv⟩
        cases hv
        exact .inl ⟨rfl, rfl, hremove⟩
      | some buf =>
        rw [habs] at hlink
        refine .inr ⟨buf, rfl, ?_⟩
        dsimp only at hlink
        split at hlink
        · rename_i hne
          rcases bind_eq_ok.1 hlink with ⟨v, hremove, hv⟩
          cases hv
          exact .inl ⟨hne, rfl, hremove⟩
        · rename_i heq
          cases hlink
          refine .inr ⟨not_not.1 heq, rfl, ?_⟩
          rw [dirent_set_self, set_set]

/-! ## What one step keeps -/

/-- The tree is sound and siblings have different names. -/
def WellFormed (t : Fs) : Prop := ∃ sh, Sound t sh none ∧ Distinct t sh

lemma Shape.live_add {rest : List Nat} : (Shape.add { sh with free := rest } p i).Live q ↔ q = .dirent i ∨ sh.Live q := by
  cases q with
  | root k => simp [Shape.Live]
  | dirent j =>
    constructor
    · rintro ⟨r, hr⟩
      rcases Shape.mem_add.1 hr with ⟨_, rfl⟩ | hr
      · exact .inl rfl
      · exact .inr ⟨r, hr⟩
    · rintro (hj | ⟨r, hr⟩)
      · cases hj
        exact ⟨p, Shape.mem_add.2 (.inl ⟨rfl, rfl⟩)⟩
      · exact ⟨r, Shape.mem_add.2 (.inr hr)⟩

lemma Rep.live_freed (h : Rep t sh) (hi : i ∈ sh.kids p) : (sh.freed p i).Live q ↔ q ≠ .dirent i ∧ sh.Live q := by
  cases q with
  | root k => simp [Shape.Live]
  | dirent j =>
    constructor
    · rintro ⟨r, hr⟩
      refine ⟨?_, r, Shape.mem_of_mem_remove hr⟩
      intro hj
      cases hj
      exact (h.off_remove hi).2 r hr
    · rintro ⟨hj, r, hr⟩
      exact ⟨r, Shape.mem_remove_of_ne hr fun heq => hj (by rw [heq])⟩

section

variable (h : Sound t sh none)
include h

lemma not_free_of_live (hi : sh.Live (.dirent i)) : i ∉ sh.free := by
  rcases hi with ⟨p, hp⟩
  exact h.apart p i hp

lemma childless_of_file (hfile : (t.dirent q).isDir = false) :
    (t.dirent q).firstChild = none := h.firstChild_eq_none (h.kids_of_file hfile)

lemma eremove_keeps (hq : sh.Live q) (hchildless : (t.dirent q).firstChild = none) (hok : eremove t q = .ok t') :
    ∃ sh', Sound t' sh' none ∧ (Distinct t sh → Distinct t' sh') ∧ ∀ r, sh.Live r → r ≠ q → sh'.Live r := by
  cases q with
  | root k =>
    unfold eremove at hok
    rw [h.rootless k] at hok
    cases hok
  | dirent i =>
    rcases hq with ⟨p, hp⟩
    refine ⟨_, h.eremove_sound hp (h.kids_of_childless hchildless) hok, fun hd => ?_,
      fun r hr hne => (h.toRep.live_freed hp).2 ⟨hne, hr⟩⟩
    rcases h.toRep.eremove_spec hp with ⟨u, hu, _, hsame⟩
    rw [hok] at hu
    cases hu
    refine hd.mono (fun q => Shape.kids_remove_sublist) fun q j _ => ?_
    exact filename_congr (hsame.content _)

lemma doUnlinkat_keeps (hc : c.Live sh) {r : Int}
    (hchildless : ∀ n e via, ename n t c fd path true = .ok (some e, via) → (t.dirent e).firstChild = none)
    (hok : doUnlinkat n t c fd path = .ok (r, t')) : ∃ sh', Sound t' sh' none ∧ (Distinct t sh → Distinct t' sh') ∧
      ∀ q, sh.Live q → (∀ n via, ename n t c fd path true ≠ .ok (some q, via)) → sh'.Live q := by
  rcases doUnlinkat_ok h hc hok with ⟨_, _, _, rfl⟩ | ⟨i, p, via, hname, hi, _, hremove⟩
  · exact ⟨sh, h, id, fun _ hq _ => hq⟩
  · have hfirst : ((unlinked t (.dirent i)).dirent (.dirent i)).firstChild = none := by
      unfold unlinked
      rw [dirent_set_self]
      exact hchildless n _ via hname
    have hlive : sh.Live (.dirent i) := ⟨p, hi⟩
    rcases eremove_keeps (h.unlinked (.dirent i)) hlive hfirst hremove with ⟨sh', hs', hd', hlive⟩
    refine ⟨sh', hs', fun hd => hd' (hd.set rfl), fun q hq hnot => hlive q hq ?_⟩
    rintro rfl
    exact hnot n via hname

/-- What `create` gives: a tree in which the entry it returns is live, and which is a file if one was asked for. -/
theorem create_keeps (hc : c.Live sh) (hok : create n t c fd path type clus = .ok (r, t')) :
    ∃ sh', Sound t' sh' none ∧ (Distinct t sh → Distinct t' sh') ∧ (∀ q, sh.Live q → sh'.Live q) ∧
      ∀ q, r = some q → sh'.Live q ∧ (type = .file → (t'.dirent q).isDir = false) ∧
        (sh.Live q → ∃ dp name, enameparent n t c fd path = .ok (some dp, name) ∧ dirlookup t dp name = .ok (some q)) := by
  rcases create_ok h hc hok with ⟨_, _, rfl, rfl⟩ |
    ⟨dp, name, hparent, hdp, hdir, ⟨ep, hfound, rfl, hr⟩ | ⟨_, i, rest, hfree, rfl, hs', hdist, rfl⟩⟩
  · exact ⟨sh, h, id, fun _ hq => hq, nofun⟩
  · refine ⟨sh, h, id, fun _ hq => hq, fun q hq => ?_⟩
    rw [hr] at hq
    split at hq
    · cases hq
    · rename_i hgood
      cases hq
      refine ⟨named_live h.toRep hdp (fun q i hi => h.inner hi) hfound, fun htype => ?_, fun _ => ?_⟩
      · cases hkind : (t'.dirent ep).isDir with
        | false => rfl
        | true => exact absurd (.inr ⟨htype, hkind⟩) hgood
      · exact ⟨dp, name, hparent, (dirlookup_ok_iff h.toRep).2 ⟨hdir, hfound⟩⟩
  · refine ⟨_, hs', hdist, fun q hq => Shape.live_add.2 (.inr hq), fun q hq => ?_⟩
    cases hq
    refine ⟨Shape.live_add.2 (.inl rfl), fun htype => ?_, fun hlive => ?_⟩
    · subst htype
      rw [isDir_congr content_withEntry_self]
      exact isDir_initDirent
    · -- the new entry was free
      refine absurd ?_ (not_free_of_live h hlive)
      rw [hfree]
      exact List.mem_cons_self

lemma doLinkat_keeps (hc : c.Live sh) {r oldFd newFd : Int}
    (hok : doLinkat n t c oldFd oldPath newFd newPath clus = .ok (r, t')) :
    ∃ sh', Sound t' sh' none ∧ (Distinct t sh → Distinct t' sh') ∧ ∀ q, sh.Live q →
      (∀ n dp name, enameparent n t c newFd newPath = .ok (some dp, name) → dirlookup t dp name ≠ .ok (some q)) →
        sh'.Live q := by
  rcases doLinkat_ok hok with ⟨_, _, _, rfl⟩ | ⟨e, via, target, u, _, hcreate, hrest⟩
  · exact ⟨sh, h, id, fun _ hq _ => hq⟩
  · rcases create_keeps h hc hcreate with ⟨sh₁, hs₁, hd₁, hlive₁, htarget⟩
    rcases hrest with ⟨_, _, rfl⟩ | ⟨e', rfl, hlink⟩
    · exact ⟨sh₁, hs₁, hd₁, fun q hq _ => hlive₁ q hq⟩
    · rcases htarget e' rfl with ⟨he', hfile, hold⟩
      -- an entry of before that `newPath` does not name is not the target
      have hne : ∀ q, sh.Live q → (∀ n dp name, enameparent n t c newFd newPath = .ok (some dp, name) →
          dirlookup t dp name ≠ .ok (some q)) → q ≠ e' := by
        rintro q hq hnot rfl
        rcases hold hq with ⟨dp, name, hparent, hfound⟩
        exact hnot n dp name hparent hfound
      rcases hlink with ⟨_, _, hremove⟩ | ⟨buf, _, ⟨_, _, hremove⟩ | ⟨_, _, rfl⟩⟩
      · rcases eremove_keeps hs₁ he' (childless_of_file hs₁ (hfile rfl)) hremove with ⟨sh₂, hs₂, hd₂, hlive₂⟩
        exact ⟨sh₂, hs₂, hd₂ ∘ hd₁, fun q hq hnot => hlive₂ q (hlive₁ q hq) (hne q hq hnot)⟩
      · have hplace : (u.dirent e').SamePlace (ewrite (u.dirent e') 0 (buf ++ [0]) clus).2 := ewrite_samePlace
        have hfirst : ((u.set e' (ewrite (u.dirent e') 0 (buf ++ [0]) clus).2).dirent e').firstChild = none := by
          rw [dirent_set_self, hplace.firstChild]
          exact childless_of_file hs₁ (hfile rfl)
        rcases eremove_keeps (hs₁.set hplace) he' hfirst hremove with ⟨sh₂, hs₂, hd₂, hlive₂⟩
        exact ⟨sh₂, hs₂, fun hd => hd₂ ((hd₁ hd).set hplace.filename),
          fun q hq hnot => hlive₂ q (hlive₁ q hq) (hne q hq hnot)⟩
      · exact ⟨sh₁, hs₁.set (linked_samePlace buf), fun hd => (hd₁ hd).set (linked_samePlace buf).filename,
          fun q hq _ => hlive₁ q hq⟩

end

lemma isDir_rootDirent : (rootDirent vol k).isDir = true := by
  have hattr : (rootDirent vol k).attr = Fat.attrDirectory ||| attrSystem := rfl
  unfold Dirent.isDir
  rw [hattr]
  decide

lemma fatInit_wellFormed (h : Sound t sh none) (hd : Distinct t sh) (hfresh : (t.dirent (.root k)).isDir = false)
    (hfit : vol.Fit) (hok : fatInit n vol k t = .ok t') : WellFormed t' := by
  rcases hfit with ⟨layout, d, hon, horder, hdiff⟩
  rcases h.setRoot vol hfresh with ⟨hs, hnil⟩
  have hroot : (Ptr.root k = .root k) = True := by simp
  rcases loadDirents_result hs (p := .root k) trivial (by rw [dirent_set_self]; exact isDir_rootDirent)
    (by rw [dirent_set_self]; exact hon) hok with ⟨sh', hres⟩
  have hnames := hres.names
  rw [hroot, dirent_set_self] at hnames
  refine ⟨sh', hres.sound, hnames horder hdiff ?_ hnil⟩
  exact hd.mono (fun _ => .refl _) fun _ _ _ => by rw [dirent_set_of_ne (by nofun)]

lemma WellFormed.set (h : WellFormed t) (hd : (t.dirent p).SamePlace d) : WellFormed (t.set p d) := by
  rcases h with ⟨sh, hs, hdist⟩
  exact ⟨sh, hs.set hd, hdist.set hd.filename⟩

lemma update_wellFormed (h : WellFormed t) (hf : ∀ d : Dirent, d.SamePlace (f d))
    (hok : update n t c path f = .ok t') : WellFormed t' := by
  rcases bind_eq_ok.1 hok with ⟨⟨entry, via⟩, _, hset⟩
  cases entry with
  | none =>
    cases hset
    exact h
  | some e =>
    cases hset
    exact h.set (hf _)

lemma updateFile_wellFormed {fd : Nat} (h : WellFormed t)
    (hf : ∀ d : Dirent, d.SamePlace (f d)) : WellFormed (updateFile t c fd f) := by
  unfold updateFile
  split
  · exact h.set (hf _)
  · exact h

lemma step_wellFormed (h : WellFormed t) (hproper : a.Proper t) (hstep : Step t a t') : WellFormed t' := by
  have hwell := h
  rcases h with ⟨sh, hs, hd⟩
  rcases hstep with ⟨n, hok⟩
  cases a with
  | fatInit k vol => exact fatInit_wellFormed hs hd hproper.1 hproper.2 hok
  | create c fd path type clus =>
    rcases bind_eq_ok.1 hok with ⟨⟨r, u⟩, hcreate, hu⟩
    cases hu
    rcases create_keeps hs (hs.toRep.ctx_inTree_iff.1 hproper) hcreate with ⟨sh', hs', hd', _⟩
    exact ⟨sh', hs', hd' hd⟩
  | unlinkat c fd path =>
    rcases bind_eq_ok.1 hok with ⟨⟨r, u⟩, hunlink, hu⟩
    cases hu
    rcases doUnlinkat_keeps hs (hs.toRep.ctx_inTree_iff.1 hproper.1) hproper.2 hunlink with ⟨sh', hs', hd', _⟩
    exact ⟨sh', hs', hd' hd⟩
  | linkat c oldFd oldPath newFd newPath clus =>
    rcases bind_eq_ok.1 hok with ⟨⟨r, u⟩, hlink, hu⟩
    cases hu
    rcases doLinkat_keeps hs (hs.toRep.ctx_inTree_iff.1 hproper) hlink with ⟨sh', hs', hd', _⟩
    exact ⟨sh', hs', hd' hd⟩
  | mount c path k =>
    refine update_wellFormed (f := fun d => { d with head := some k }) hwell ?_ hok
    exact fun _ => ⟨rfl, rfl, rfl, rfl, rfl, rfl⟩
  | device c path dev =>
    refine update_wellFormed (f := fun d => { d with dev := dev }) hwell ?_ hok
    exact fun _ => ⟨rfl, rfl, rfl, rfl, rfl, rfl⟩
  | write c fd off bytes clus =>
    cases hok
    exact updateFile_wellFormed hwell fun _ => ewrite_samePlace
  | trunc c fd =>
    cases hok
    exact updateFile_wellFormed hwell fun _ => ⟨rfl, rfl, rfl, rfl, rfl, rfl⟩

/-! ## The representation in runs -/

lemma Shape.Below.unique {k' : Nat} (hrep : Rep t sh) (h : sh.Below k p) (h' : sh.Below k' p) : k = k' := by
  induction h with
  | root =>
    cases h'
    rfl
  | kid _ hi ih =>
    cases h' with
    | kid hp' hi' =>
      have heq := hrep.kid_unique hi hi'
      subst heq
      exact ih hp'

/-- `i` is a child of one directory, which its parent field names, and below one root. -/
structure Placed (t : Fs) (sh : Shape) (i : Nat) (p : Ptr) : Prop where
  kid : i ∈ sh.kids p
  only : ∀ q, i ∈ sh.kids q → q = p
  parent : (t.dirent (.dirent i)).parent = some p
  reachable : ∃ k, sh.Below k (.dirent i) ∧ ∀ k', sh.Below k' (.dirent i) → k' = k

/-- The free list and the lists of the directories are proper lists; each dirent is on the free list once, or a
child of one directory, and not both; siblings have different names. -/
structure Represents (t : Fs) (sh : Shape) : Prop where
  free : Linked t.next t.direntHead sh.free
  kids : ∀ p, Linked t.next (t.dirent p).firstChild (sh.kids p)
  once : sh.free.Nodup ∧ ∀ p, (sh.kids p).Nodup
  bound : ∀ i, i ∈ sh.free ∨ (∃ p, i ∈ sh.kids p) → i < direntNum
  place : ∀ i < direntNum, (i ∈ sh.free ∧ (∀ p, i ∉ sh.kids p) ∧ ∀ k, ¬ sh.Below k (.dirent i)) ∨
    (i ∉ sh.free ∧ ∃ p, Placed t sh i p)
  names : ∀ p, (sh.kids p).Pairwise fun i j =>
    (t.dirent (.dirent i)).filename ≠ (t.dirent (.dirent j)).filename

lemma WellFormed.represents (h : WellFormed t) : ∃ sh, Represents t sh := by
  rcases h with ⟨sh, hs, hd⟩
  refine ⟨sh, hs.free, hs.kids, ⟨hs.free.nodup, hs.nodup_kids⟩, ?_, ?_, ?_⟩
  · rintro i (hi | hi)
    · exact (hs.cover i).2 (.inl hi)
    · exact (hs.cover i).2 (.inr (.inl hi))
  · intro i hi
    rcases (hs.cover i).1 hi with hfree | ⟨p, hp⟩ | hoff
    · refine .inl ⟨hfree, fun p hp => hs.apart p i hp hfree, fun k hk => ?_⟩
      rcases hk.live with ⟨p, hp⟩
      exact hs.apart p i hp hfree
    · refine .inr ⟨hs.apart p i hp, p, hp, fun q hq => hs.kid_unique hq hp, hs.parent p i hp, ?_⟩
      rcases hs.rooted p i hp with ⟨k, hk⟩
      exact ⟨k, hk.kid hp, fun k' hk' => hk'.unique hs.toRep (hk.kid hp)⟩
    · cases hoff
  · intro p
    refine (hd p).imp ?_
    intro i j hij heq
    rw [heq] at hij
    simp [sameName] at hij

lemma wellFormed_of_run (hrun : Run (fun t a t' => a.Proper t ∧ Step t a t') boot as t) :
    WellFormed t :=
  hrun.invariant ⟨bootShape, sound_boot, distinct_boot⟩ fun _ _ _ h hstep => step_wellFormed h hstep.1 hstep.2

/-- In every run whose actions are proper the tree is represented in the state that is reached. -/
theorem tree_represented {as : List Act} (hrun : Run (fun t a t' => a.Proper t ∧ Step t a t') boot as t) :
    ∃ sh, Represents t sh := (wellFormed_of_run hrun).represents

/-! Two runs from the start: a directory is unlinked while it has a child, and without one. -/

def rootCtx : Ctx := { cwd := .root 0, ofile := fun _ => none }

/-- The paths `/d` and `/d/f` -/
def pathD : Str := [slash, 100]
def pathDF : Str := [slash, 100, slash, 102]

/-- The state after actions that need no more fuel than 2. -/
def after (as : List Act) : Option Fs := runAll (fun t a => (step 2 t a).toOption) boot as

lemma run_after (h : after as = some t) : Run Step boot as t :=
  (run_of_runAll h).mono fun _ _ _ hstep => ⟨2, eq_ok_of_toOption hstep⟩

/-- The tree after a step that does not fail. -/
def Fs.stepped (t : Fs) (a : Act) : Fs := (step 2 t a).toOption.getD boot

lemma step_stepped {a : Act} (h : (step 2 t a).isOk = true) : Step t a (t.stepped a) := ⟨2, eq_ok_of_isOk h boot⟩

lemma rootCtx_inTree (t : Fs) : rootCtx.InTree t := ⟨trivial, nofun⟩

def orphanActs : List Act :=
  [.fatInit 0 (rootVolume []), .create rootCtx atFdcwd pathD .dir 5, .create rootCtx atFdcwd pathDF .file 0,
    .unlinkat rootCtx atFdcwd pathD]

/-- The file stays allocated as a child of the directory, which is free. -/
theorem unlink_leaves_orphan : ∃ t, Run Step boot orphanActs t ∧ ¬ ∃ sh, Represents t sh := by
  rcases exists_of_any (o := after orphanActs) (P := fun t => t.direntHead = some 8191 ∧
    (t.dirent (.dirent 8191)).firstChild = some 8190) (by decide +kernel) with ⟨t, ht, hhead, hchild⟩
  refine ⟨t, run_after ht, ?_⟩
  rintro ⟨sh, h⟩
  have hfree : 8191 ∈ sh.free := by
    have hlist := h.free
    rw [hhead] at hlist
    generalize sh.free = l at hlist
    cases hlist
    simp
  have hkid : 8190 ∈ sh.kids (.dirent 8191) := by
    have hlist := h.kids (.dirent 8191)
    rw [hchild] at hlist
    generalize sh.kids (.dirent 8191) = l at hlist
    cases hlist
    simp
  have hdir : ∀ q, 8191 ∉ sh.kids q := by
    rcases h.place 8191 (by decide) with ⟨_, hnot, _⟩ | ⟨hnot, _⟩
    · exact hnot
    · exact absurd hfree hnot
  rcases h.place 8190 (by decide) with ⟨_, hnot, _⟩ | ⟨_, p, hplaced⟩
  · exact hnot _ hkid
  · -- the only way from a root to the file is through the directory
    rcases hplaced.reachable with ⟨k, hk, _⟩
    cases hk with
    | @kid p' _ hp' hi =>
      have heq : p' = .dirent 8191 := (hplaced.only p' hi).trans (hplaced.only _ hkid).symm
      subst heq
      rcases hp'.live with ⟨q, hq⟩
      exact hdir q hq

def properActs : List Act :=
  [.fatInit 0 (rootVolume []), .create rootCtx atFdcwd pathD .dir 5, .unlinkat rootCtx atFdcwd pathD]

lemma fit_empty : (rootVolume []).Fit :=
  ⟨rootLayout [], 1, onDisk_root nofun nofun, ⟨trivial, nofun⟩, List.Pairwise.nil, nofun⟩

theorem tree_represented_unlinked : ∃ t sh, Run Step boot properActs t ∧ Represents t sh := by
  set t₁ := boot.stepped (.fatInit 0 (rootVolume []))
  set t₂ := t₁.stepped (.create rootCtx atFdcwd pathD .dir 5)
  set t₃ := t₂.stepped (.unlinkat rootCtx atFdcwd pathD)
  have hname : ename 2 t₂ rootCtx atFdcwd pathD true = .ok (some (.dirent 8191), [.root 0, .dirent 8191]) := by
    decide +kernel
  have hrun : Run (fun t a t' => a.Proper t ∧ Step t a t') boot properActs t₃ := by
    refine .cons ⟨⟨by decide +kernel, fit_empty⟩, step_stepped (by decide +kernel)⟩ ?_
    refine .cons ⟨rootCtx_inTree _, step_stepped (by decide +kernel)⟩ ?_
    refine .cons ⟨⟨rootCtx_inTree _, fun n e via hn => ?_⟩, step_stepped (by decide +kernel)⟩ (.nil _)
    cases ename_unique hn hname
    decide +kernel
  rcases tree_represented hrun with ⟨sh, h⟩
  exact ⟨t₃, sh, hrun.mono fun _ _ _ hstep => hstep.2, h⟩

end Tree
end OsRiscv
