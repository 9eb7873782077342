import OsRiscv.Tree.Lookup

/-!
# Sound — the invariant of the directory tree

`Sound t sh off`: the pointers of `t` represent the shape `sh`, each dirent is free or a child of one directory,
and each directory with children is below a root.  `off` is a dirent that has been taken from the free list
and is not linked yet.  `Distinct t sh`: siblings have different names.  The four rules of `Shape` keep the
invariant; from them follow the rules for `ealloc`, `create` and `eremove`.
-/

namespace OsRiscv
namespace Tree

open Lib List

namespace Shape

variable {sh sh' : Shape} {k k' : Nat} {p q : Ptr} {i : Nat}

/-- Reached from the root of `fileSystem[k]` by the lists of children. -/
inductive Below (sh : Shape) (k : Nat) : Ptr → Prop where
  | root : Below sh k (.root k)
  | kid {p : Ptr} {i : Nat} : Below sh k p → i ∈ sh.kids p → Below sh k (.dirent i)

namespace Below

lemma live (h : sh.Below k p) : sh.Live p := by
  cases h with
  | root => trivial
  | kid _ hi => exact ⟨_, hi⟩

lemma mono (h : sh.Below k p) (hsub : ∀ q i, i ∈ sh.kids q → i ∈ sh'.kids q) : sh'.Below k p := by
  induction h with
  | root => exact .root
  | kid _ hi ih => exact .kid ih (hsub _ _ hi)

lemma remove (h : sh.Below k q) (hnone : sh.kids (.dirent i) = []) (hq : q ≠ .dirent i) :
    (sh.remove p i).Below k q := by
  induction h with
  | root => exact .root
  | @kid d j _ hj ih =>
    have hd : d ≠ .dirent i := by
      rintro rfl
      rw [hnone] at hj
      cases hj
    exact .kid (ih hd) (mem_remove_of_ne hj fun hji => hq (by rw [hji]))

end Below

end Shape

variable {t t' : Fs} {sh : Shape} {off : Option Nat} {c : Ctx} {p q : Ptr} {i j : Nat} {d : Dirent}
  {fd : Int} {path name : Str} {rest : List Nat} {n clus : Nat}

structure Sound (t : Fs) (sh : Shape) (off : Option Nat) : Prop extends Rep t sh where
  cover : ∀ i, i < direntNum ↔ i ∈ sh.free ∨ (∃ p, i ∈ sh.kids p) ∨ off = some i
  hold : ∀ i, off = some i → sh.Off i
  rooted : ∀ p i, i ∈ sh.kids p → ∃ k, sh.Below k p
  dirs : ∀ p i, i ∈ sh.kids p → (t.dirent p).isDir = true
  roots : ∀ k, (t.dirent (.root k)).isDir = true → (t.dirent (.root k)).fileSystem = k

def Distinct (t : Fs) (sh : Shape) : Prop :=
  ∀ p, (sh.kids p).Pairwise fun i j =>
    sameName (t.dirent (.dirent i)).filename (t.dirent (.dirent j)).filename = false

namespace Distinct

variable {sh' : Shape}

lemma mono (h : Distinct t sh) (hsub : ∀ p, (sh'.kids p).Sublist (sh.kids p))
    (hname : ∀ p, ∀ i ∈ sh'.kids p, (t'.dirent (.dirent i)).filename = (t.dirent (.dirent i)).filename) :
    Distinct t' sh' := by
  intro p
  refine ((h p).sublist (hsub p)).imp_of_mem ?_
  intro i j hi hj hij
  rw [hname p i hi, hname p j hj]
  exact hij

lemma add (h : Distinct t sh)
    (hname : ∀ q, ∀ j ∈ sh.kids q, (t'.dirent (.dirent j)).filename = (t.dirent (.dirent j)).filename)
    (hnew : ∀ j ∈ sh.kids p,
      sameName (t'.dirent (.dirent i)).filename (t.dirent (.dirent j)).filename = false) :
    Distinct t' (sh.add p i) := by
  have hkept : Distinct t' sh := h.mono (fun _ => .refl _) hname
  intro q
  by_cases hqp : q = p
  · subst hqp
    rw [Shape.kids_add_self]
    refine List.Pairwise.cons ?_ (hkept q)
    intro j hj
    rw [hname q j hj]
    exact hnew j hj
  · rw [Shape.kids_add_of_ne hqp]
    exact hkept q

end Distinct

namespace Sound

section

variable (h : Sound t sh off)
include h

lemma inner (hi : i ∈ sh.kids p) : sh.Live p := by
  rcases h.rooted p i hi with ⟨k, hk⟩
  exact hk.live

lemma closed (hc : c.Live sh) : Closed t c sh.Live := h.toRep.closed (fun _ _ => h.inner) hc

lemma kids_of_file (hfile : (t.dirent q).isDir = false) : sh.kids q = [] := by
  rw [eq_nil_iff_forall_not_mem]
  intro j hj
  rw [h.dirs _ j hj] at hfile
  cases hfile

lemma kids_eq_nil (hi : ∀ p, i ∉ sh.kids p) : sh.kids (.dirent i) = [] := by
  rw [eq_nil_iff_forall_not_mem]
  intro j hj
  rcases h.inner hj with ⟨p, hp⟩
  exact hi p hp

lemma kids_free (hi : i ∈ sh.free) : sh.kids (.dirent i) = [] :=
  h.kids_eq_nil fun p hp => h.apart p i hp hi

lemma firstChild_free (hi : i ∈ sh.free) : (t.dirent (.dirent i)).firstChild = none :=
  h.firstChild_eq_none (h.kids_free hi)

lemma congr (hrep : Rep t' sh)
    (hdir : ∀ p i, i ∈ sh.kids p → (t'.dirent p).isDir = (t.dirent p).isDir)
    (hroots : ∀ k, (t'.dirent (.root k)).isDir = true → (t'.dirent (.root k)).fileSystem = k) : Sound t' sh off := by
  refine ⟨hrep, h.cover, h.hold, h.rooted, ?_, hroots⟩
  intro p i hi
  rw [hdir p i hi]
  exact h.dirs p i hi

end

/-! ## The four rules -/

lemma alloc (h : Sound t sh none) (hfree : sh.free = i :: rest) :
    direntAlloc t = .ok (i, { t with direntHead := t.next i }) ∧
      Sound { t with direntHead := t.next i } { sh with free := rest } (some i) := by
  rcases h.toRep.alloc hfree with ⟨halloc, hrep, hoff⟩
  refine ⟨halloc, hrep, ?_, ?_, ?_, h.dirs, h.roots⟩
  · intro j
    rw [h.cover j, hfree]
    simp [or_assoc, or_comm, or_left_comm, eq_comm]
  · rintro j ⟨⟩
    exact hoff
  · intro p j hj
    rcases h.rooted p j hj with ⟨k, hk⟩
    exact ⟨k, hk.mono fun q i hi => hi⟩

lemma direntAlloc_ok (h : Sound t sh none) (halloc : direntAlloc t = .ok (i, t')) :
    ∃ rest, sh.free = i :: rest ∧ t' = { t with direntHead := t.next i } := by
  cases hfree : sh.free with
  | nil =>
    have hlist := h.free
    rw [hfree] at hlist
    have hhead : t.direntHead = none := by
      generalize t.direntHead = o at hlist
      cases hlist
      rfl
    simp [direntAlloc, hhead] at halloc
  | cons a rest =>
    rw [(h.alloc hfree).1] at halloc
    cases halloc
    exact ⟨rest, rfl, rfl⟩

lemma release (h : Sound t sh (some i)) : Sound (direntFree t i) { sh with free := i :: sh.free } none := by
  refine ⟨h.toRep.release (h.hold i rfl), ?_, nofun, ?_, ?_, ?_⟩
  · intro j
    rw [h.cover j]
    simp [or_assoc, or_comm, or_left_comm, eq_comm]
  · intro p j hj
    rcases h.rooted p j hj with ⟨k, hk⟩
    exact ⟨k, hk.mono fun q i hi => hi⟩
  · intro p j hj
    rw [field_direntFree Dirent.isDir fun _ _ => rfl]
    exact h.dirs p j hj
  · intro k
    exact h.roots k

lemma adopt (h : Sound t sh (some i)) (hbelow : ∃ k, sh.Below k p)
    (hdir : (t.dirent p).isDir = true) (hnext : d.nextBrother = (t.dirent p).firstChild)
    (hparent : d.parent = some p) (hfirst : d.firstChild = none) :
    Sound ((t.set (.dirent i) d).set p { (t.set (.dirent i) d).dirent p with firstChild := some i })
      (sh.add p i) none := by
  have hoff := h.hold i rfl
  have hpi : p ≠ .dirent i := by
    rintro rfl
    rcases hbelow with ⟨k, hk⟩
    rcases hk.live with ⟨q, hq⟩
    exact hoff.2 q hq
  have hi : i < direntNum := (h.cover i).2 (by simp)
  set u := t.set (.dirent i) d with hu
  set v := u.set p { u.dirent p with firstChild := some i } with hv
  have hfield : ∀ {β : Type} (f : Dirent → β) (_ : ∀ d o, f { d with firstChild := o } = f d) (q : Ptr),
      q ≠ .dirent i → f (v.dirent q) = f (t.dirent q) := by
    intro β f hf q hq
    rw [hv, field_set f (hf _ _), hu, dirent_set_of_ne hq]
  have hnone : sh.kids (.dirent i) = [] := h.kids_eq_nil hoff.2
  refine ⟨h.toRep.adopt hoff hi hpi hnone hnext hparent hfirst, ?_, nofun, ?_, ?_, ?_⟩
  · intro j
    rw [h.cover j]
    simp only [Shape.mem_add]
    constructor
    · rintro (hj | ⟨q, hj⟩ | hj)
      · exact .inl hj
      · exact .inr (.inl ⟨q, .inr hj⟩)
      · cases hj
        exact .inr (.inl ⟨p, .inl ⟨rfl, rfl⟩⟩)
    · rintro (hj | ⟨q, ⟨rfl, rfl⟩ | hj⟩ | hj)
      · exact .inl hj
      · exact .inr (.inr rfl)
      · exact .inr (.inl ⟨q, hj⟩)
      · cases hj
  · intro q j hj
    have hsub : ∀ q j, j ∈ sh.kids q → j ∈ (sh.add p i).kids q := fun q j hj => Shape.mem_add.2 (.inr hj)
    rcases Shape.mem_add.1 hj with ⟨rfl, rfl⟩ | hj
    · rcases hbelow with ⟨k, hk⟩
      exact ⟨k, hk.mono hsub⟩
    · rcases h.rooted q j hj with ⟨k, hk⟩
      exact ⟨k, hk.mono hsub⟩
  · intro q j hj
    rcases Shape.mem_add.1 hj with ⟨rfl, rfl⟩ | hj
    · rw [hfield Dirent.isDir (fun _ _ => rfl) _ hpi]
      exact hdir
    · have hqi : q ≠ .dirent i := by
        rintro rfl
        rw [hnone] at hj
        cases hj
      rw [hfield Dirent.isDir (fun _ _ => rfl) _ hqi]
      exact h.dirs q j hj
  · intro k
    rw [hfield Dirent.isDir (fun _ _ => rfl) _ (by nofun), hfield Dirent.fileSystem (fun _ _ => rfl) _ (by nofun)]
    exact h.roots k

lemma unlinkChild_spec (h : Sound t sh none) (hi : i ∈ sh.kids p) (hnone : sh.kids (.dirent i) = []) :
    ∃ t', unlinkChild t p i = .ok t' ∧ Sound t' (sh.remove p i) (some i) := by
  rcases h.toRep.unlinkChild_spec hi with ⟨t', hunlink, hrep, hsame⟩
  refine ⟨t', hunlink, hrep, ?_, ?_, ?_, ?_, ?_⟩
  · intro j
    rw [h.cover j]
    constructor
    · rintro (hj | ⟨q, hj⟩ | hj)
      · exact .inl hj
      · by_cases hji : j = i
        · exact .inr (.inr (by rw [hji]))
        · exact .inr (.inl ⟨q, Shape.mem_remove_of_ne hj hji⟩)
      · cases hj
    · rintro (hj | ⟨q, hj⟩ | hj)
      · exact .inl hj
      · exact .inr (.inl ⟨q, Shape.mem_of_mem_remove hj⟩)
      · cases hj
        exact .inr (.inl ⟨p, hi⟩)
  · rintro j ⟨⟩
    exact h.toRep.off_remove hi
  · intro q j hj
    have hold := Shape.mem_of_mem_remove hj
    rcases h.rooted q j hold with ⟨k, hk⟩
    refine ⟨k, hk.remove hnone ?_⟩
    rintro rfl
    rw [hnone] at hold
    cases hold
  · intro q j hj
    rw [isDir_congr (hsame.content q)]
    exact h.dirs q j (Shape.mem_of_mem_remove hj)
  · intro k
    rw [isDir_congr (hsame.content _),
      field_content Dirent.fileSystem (fun _ => rfl) (hsame.content _)]
    exact h.roots k

/-! ## Creating -/

lemma below_of_live (h : Sound t sh off) (hp : sh.Live p) : ∃ k, sh.Below k p := by
  cases p with
  | root k => exact ⟨k, Shape.Below.root⟩
  | dirent i =>
    rcases hp with ⟨q, hq⟩
    rcases h.rooted q i hq with ⟨k, hk⟩
    exact ⟨k, hk.kid hq⟩

lemma named_dotdot (h : Sound t sh off) (hp : sh.Live p) (hdir : (t.dirent p).isDir = true) :
    named t sh p [dot, dot] ≠ none := by
  unfold named
  cases p with
  | root k => simp [h.roots k hdir]
  | dirent i =>
    rcases hp with ⟨q, hq⟩
    simp [h.parent q i hq]

lemma sameName_take (a b : Str) : sameName (b.take fat32MaxFilename) a = sameName a b := by
  simp [sameName, take_take, eq_comm]

lemma name_fresh (h : Sound t sh off) (hp : sh.Live p) (hdir : (t.dirent p).isDir = true)
    (hnone : named t sh p name = none) :
    ∀ j ∈ sh.kids p, sameName (name.take fat32MaxFilename) (t.dirent (.dirent j)).filename = false := by
  intro j hj
  have hchild : childNamed t (sh.kids p) name = none := by
    have hdotdot := h.named_dotdot hp hdir
    unfold named at hnone
    split at hnone
    · cases hnone
    · split at hnone
      · exact absurd hnone hdotdot
      · exact Option.map_eq_none_iff.1 hnone
  rw [sameName_take]
  simpa using find?_eq_none.1 hchild j hj

end Sound

/-- The tree after `ealloc` has made the dirent `i` a child of `dp`. -/
def withEntry (t : Fs) (dp : Ptr) (i : Nat) (name : Str) (attr : BitVec 8) (clus : Nat) : Fs :=
  let t : Fs := { t with direntHead := t.next i }
  let t := t.set (.dirent i) (initDirent (t.dirent (.dirent i)) dp (t.dirent dp) name attr clus)
  t.set dp { t.dirent dp with firstChild := some i }

section withEntry

variable {dp : Ptr} {attr : BitVec 8}

lemma content_withEntry_of_ne (hq : q ≠ .dirent i) :
    ((withEntry t dp i name attr clus).dirent q).content = (t.dirent q).content := by
  unfold withEntry
  rw [field_set Dirent.content (by rfl), dirent_set_of_ne hq]

lemma content_withEntry_self : ((withEntry t dp i name attr clus).dirent (.dirent i)).content =
      (initDirent (t.dirent (.dirent i)) dp (t.dirent dp) name attr clus).content := by
  unfold withEntry
  rw [field_set Dirent.content (by rfl), dirent_set_self]

/-- `ealloc` returns an entry that exists, or makes one. -/
theorem Sound.ealloc_ok (h : Sound t sh none) (hp : sh.Live dp) {ep : Ptr}
    (hok : ealloc t dp name attr clus = .ok (ep, t')) : (t.dirent dp).isDir = true ∧
      ((t' = t ∧ named t sh dp name = some ep) ∨
        (named t sh dp name = none ∧ ∃ i rest, sh.free = i :: rest ∧ ep = .dirent i ∧
          t' = withEntry t dp i name attr clus ∧
          Sound t' (Shape.add { sh with free := rest } dp i) none ∧
          (Distinct t sh → Distinct t' (Shape.add { sh with free := rest } dp i)))) := by
  unfold ealloc at hok
  split at hok
  · cases hok
  · rename_i hdir
    have hdir : (t.dirent dp).isDir = true := by simpa using hdir
    refine ⟨hdir, ?_⟩
    rcases bind_eq_ok.1 hok with ⟨found, hfound, hok⟩
    rw [(dirlookup_ok_iff h.toRep).2 ⟨hdir, rfl⟩] at hfound
    cases hname : named t sh dp name with
    | some e =>
      rw [hname] at hfound
      cases hfound
      cases hok
      exact .inl ⟨rfl, rfl⟩
    | none =>
      rw [hname] at hfound
      cases hfound
      rcases bind_eq_ok.1 hok with ⟨⟨i, u⟩, halloc, hok⟩
      rcases h.direntAlloc_ok halloc with ⟨rest, hfree, rfl⟩
      cases hok
      have hi : i ∈ sh.free := by simp [hfree]
      have hsound := (h.alloc hfree).2
      refine .inr ⟨rfl, i, rest, hfree, rfl, rfl, ?_, fun hdist => ?_⟩
      · exact hsound.adopt (hsound.below_of_live hp) hdir rfl rfl (h.firstChild_free hi)
      · refine hdist.add (fun q j hj => ?_) fun j hj => ?_
        · refine filename_congr (content_withEntry_of_ne fun heq => ?_)
          cases heq
          exact h.apart q _ hj hi
        · have hnew : ((withEntry t dp i name attr clus).dirent (.dirent i)).filename =
              name.take fat32MaxFilename :=
            filename_congr content_withEntry_self
          rw [← h.name_fresh hp hdir hname j hj, ← hnew]
          rfl

end withEntry

/-! ## Removing -/

namespace Shape

/-- The shape after the child `i` of `p` has been freed. -/
def freed (sh : Shape) (p : Ptr) (i : Nat) : Shape := { sh.remove p i with free := i :: sh.free }

@[simp] lemma kids_freed : (sh.freed p i).kids q = (sh.remove p i).kids q := rfl

end Shape

/-- The trees differ in the lists only. -/
structure SameEntries (t t' : Fs) : Prop where
  root : t'.rootFileSystem = t.rootFileSystem
  content : ∀ q, (t'.dirent q).content = (t.dirent q).content

lemma content_direntFree : ((direntFree t i).dirent q).content = (t.dirent q).content :=
  field_direntFree Dirent.content (fun _ _ => rfl) q

lemma Rep.eremove_spec (h : Rep t sh) (hi : i ∈ sh.kids p) :
    ∃ t', eremove t (.dirent i) = .ok t' ∧ Rep t' (sh.freed p i) ∧ SameEntries t t' := by
  rcases h.unlinkChild_spec hi with ⟨u, hunlink, hrep, hsame⟩
  refine ⟨direntFree u i, ?_, hrep.release (h.off_remove hi), hsame.root, fun q => ?_⟩
  · unfold eremove
    rw [h.parent p i hi]
    dsimp only
    rw [hunlink]
    rfl
  · rw [content_direntFree, hsame.content]

lemma Sound.eremove_sound (h : Sound t sh none) (hi : i ∈ sh.kids p) (hnone : sh.kids (.dirent i) = [])
    (hok : eremove t (.dirent i) = .ok t') : Sound t' (sh.freed p i) none := by
  rcases h.unlinkChild_spec hi hnone with ⟨u, hunlink, hsound⟩
  unfold eremove at hok
  rw [h.parent p i hi] at hok
  dsimp only at hok
  rw [hunlink] at hok
  cases hok
  exact hsound.release

/-- What `do_unlinkat` does to the entry before it removes it. -/
def unlinked (t : Fs) (e : Ptr) : Fs := t.set e { etrunc (t.dirent e) with ntRes := 0 }

lemma Rep.unlinked (h : Rep t sh) (e : Ptr) : Rep (unlinked t e) sh := h.set rfl rfl rfl

lemma Sound.unlinked (h : Sound t sh off) (e : Ptr) : Sound (unlinked t e) sh off := by
  refine h.congr (h.toRep.unlinked e) ?_ ?_
  · intro p i _
    exact field_set Dirent.isDir (by rfl) _
  · intro k
    have hdir : ((Tree.unlinked t e).dirent (.root k)).isDir = (t.dirent (.root k)).isDir :=
      field_set Dirent.isDir (by rfl) _
    have hfs : ((Tree.unlinked t e).dirent (.root k)).fileSystem = (t.dirent (.root k)).fileSystem :=
      field_set Dirent.fileSystem (by rfl) _
    rw [hdir, hfs]
    exact h.roots k

lemma doUnlinkat_ok (h : Sound t sh none) (hc : c.Live sh) {r : Int}
    (hok : doUnlinkat n t c fd path = .ok (r, t')) :
    (∃ via, ename n t c fd path true = .ok (none, via) ∧ r = -1 ∧ t' = t) ∨
      ∃ i p via, ename n t c fd path true = .ok (some (.dirent i), via) ∧ i ∈ sh.kids p ∧ r = 0 ∧
        eremove (unlinked t (.dirent i)) (.dirent i) = .ok t' := by
  rcases bind_eq_ok.1 hok with ⟨⟨entry, via⟩, hname, hok⟩
  cases entry with
  | none =>
    cases hok
    exact .inl ⟨via, hname, rfl, rfl⟩
  | some e =>
    rcases bind_eq_ok.1 hok with ⟨u, hremove, hok⟩
    cases hok
    cases e with
    | root k =>
      -- a root has no parent, which `eremove` reads
      have hparent : ((unlinked t (.root k)).dirent (.root k)).parent = none :=
        (h.toRep.unlinked (.root k)).rootless k
      change eremove (unlinked t (.root k)) (.root k) = _ at hremove
      unfold eremove at hremove
      rw [hparent] at hremove
      cases hremove
    | dirent i =>
      rcases ((h.closed hc).ename hname).1 _ rfl with ⟨p, hp⟩
      exact .inr ⟨i, p, via, hname, hp, rfl, hremove⟩

/-! ## The start -/

def bootShape : Shape := { kids := fun _ => [], free := (List.range direntNum).reverse }

lemma linked_boot (n : Nat) : Linked boot.next (if n = 0 then none else some (n - 1)) (List.range n).reverse := by
  induction n with
  | zero => exact Linked.nil
  | succ n ih =>
    rw [range_succ, reverse_append]
    exact Linked.cons ih

lemma rep_boot : Rep boot bootShape := by
  refine ⟨?_, ?_, nofun, nofun, nofun, fun _ => rfl⟩
  · have hlist := linked_boot direntNum
    dsimp only [bootShape]
    exact hlist
  · intro p
    have hfirst : (boot.dirent p).firstChild = none := by
      cases p with
      | dirent i => rfl
      | root k => rfl
    rw [hfirst]
    exact Linked.nil

lemma sound_boot : Sound boot bootShape none := by
  refine ⟨rep_boot, ?_, nofun, nofun, nofun, ?_⟩
  · simp [bootShape]
  · intro k hk
    exact absurd hk (by decide : ¬ zeroDirent.isDir = true)

lemma distinct_boot : Distinct boot bootShape := fun _ => List.Pairwise.nil

/-- `fatInit` sets up a root that is not in use. -/
theorem Sound.setRoot {k : Nat} (h : Sound t sh none) (vol : Volume) (hfresh : (t.dirent (.root k)).isDir = false) :
    Sound (t.set (.root k) (rootDirent vol k)) sh none ∧ sh.kids (.root k) = [] := by
  have hnil := h.kids_of_file hfresh
  refine ⟨⟨⟨?_, ?_, ?_, h.apart, h.bound, ?_⟩, h.cover, h.hold, h.rooted, ?_, ?_⟩, hnil⟩
  · exact h.free
  · intro p
    by_cases hp : p = .root k
    · subst hp
      rw [dirent_set_self, hnil]
      exact Linked.nil
    · rw [dirent_set_of_ne hp]
      exact h.kids p
  · intro p i hi
    exact h.parent p i hi
  · intro j
    by_cases hj : Ptr.root j = .root k
    · rw [hj, dirent_set_self]
      rfl
    · rw [dirent_set_of_ne hj]
      exact h.rootless j
  · intro p i hi
    by_cases hp : p = .root k
    · subst hp
      rw [hnil] at hi
      cases hi
    · rw [dirent_set_of_ne hp]
      exact h.dirs p i hi
  · intro j hdir
    by_cases hj : Ptr.root j = .root k
    · rw [hj, dirent_set_self]
      exact (Ptr.root.inj hj).symm
    · rw [dirent_set_of_ne hj] at hdir ⊢
      exact h.roots j hdir

end Tree
end OsRiscv
