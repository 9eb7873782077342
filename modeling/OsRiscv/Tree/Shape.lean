import OsRiscv.Tree.Load

/-!
# Shape — the lists that the pointers of the tree make up

A `Shape` has for each directory the list of its children, and the list of the free dirents.  `Rep t sh` says
that the pointers `firstChild`, `nextBrother`, `parent` and `direntHead` of `t` represent it.  Four rules
say what the pointer surgery does to the shape: taking a dirent from the free list, putting one in front of
a directory, taking one out, and putting one back on the free list.
-/

namespace OsRiscv
namespace Tree

open Function (update update_of_ne update_self)
open Lib List

structure Shape where
  kids : Ptr → List Nat
  free : List Nat

structure Rep (t : Fs) (sh : Shape) : Prop where
  free : Linked t.next t.direntHead sh.free
  kids : ∀ p, Linked t.next (t.dirent p).firstChild (sh.kids p)
  parent : ∀ p, ∀ i ∈ sh.kids p, (t.dirent (.dirent i)).parent = some p
  apart : ∀ p, ∀ i ∈ sh.kids p, i ∉ sh.free
  bound : ∀ p, ∀ i ∈ sh.kids p, i < direntNum
  rootless : ∀ k, (t.dirent (.root k)).parent = none

namespace Shape

variable (sh : Shape) {β : Type*}

/-- The dirent is on no list. -/
def Off (i : Nat) : Prop := i ∉ sh.free ∧ ∀ p, i ∉ sh.kids p

def add (p : Ptr) (i : Nat) : Shape := { sh with kids := update sh.kids p (i :: sh.kids p) }

def remove (p : Ptr) (i : Nat) : Shape := { sh with kids := update sh.kids p ((sh.kids p).erase i) }

variable {sh} {p q : Ptr} {i j : Nat}

@[simp] lemma kids_add_self : (sh.add p i).kids p = i :: sh.kids p := update_self _ _ _

lemma kids_add_of_ne (h : q ≠ p) : (sh.add p i).kids q = sh.kids q := update_of_ne h _ _

lemma mem_add : j ∈ (sh.add p i).kids q ↔ (q = p ∧ j = i) ∨ j ∈ sh.kids q := by
  by_cases hq : q = p
  · subst hq
    simp
  · simp [kids_add_of_ne hq, hq]

@[simp] lemma kids_remove_self : (sh.remove p i).kids p = (sh.kids p).erase i := update_self _ _ _

lemma kids_remove_of_ne (h : q ≠ p) : (sh.remove p i).kids q = sh.kids q := update_of_ne h _ _

lemma kids_remove_sublist : ((sh.remove p i).kids q).Sublist (sh.kids q) := by
  by_cases hqp : q = p
  · subst hqp
    rw [kids_remove_self]
    exact erase_sublist
  · rw [kids_remove_of_ne hqp]

lemma mem_of_mem_remove (h : j ∈ (sh.remove p i).kids q) : j ∈ sh.kids q := kids_remove_sublist.subset h

lemma mem_remove_of_ne (hj : j ∈ sh.kids q) (hne : j ≠ i) : j ∈ (sh.remove p i).kids q := by
  by_cases hqp : q = p
  · subst hqp
    rw [kids_remove_self]
    exact (mem_erase_of_ne hne).2 hj
  · rwa [kids_remove_of_ne hqp]

end Shape

variable {t t' : Fs} {sh : Shape} {p q : Ptr} {i j : Nat} {d : Dirent} {rest : List Nat}

/-! ## Fields -/

@[simp] lemma dirent_set_self : (t.set p d).dirent p = d := update_self _ _ _

lemma dirent_set_of_ne (h : q ≠ p) : (t.set p d).dirent q = t.dirent q := update_of_ne h _ _

lemma next_set_dirent : (t.set (.dirent i) d).next = update t.next i d.nextBrother := by
  funext j
  by_cases hj : j = i
  · subst hj
    simp [Fs.next]
  · have hne : Ptr.dirent j ≠ Ptr.dirent i := fun h => hj (Ptr.dirent.inj h)
    simp [Fs.next, dirent_set_of_ne hne, hj]

lemma field_set (f : Dirent → β) (h : f d = f (t.dirent p)) (q : Ptr) :
    f ((t.set p d).dirent q) = f (t.dirent q) := by
  by_cases hq : q = p
  · subst hq
    simpa using h
  · rw [dirent_set_of_ne hq]

lemma next_set (h : d.nextBrother = (t.dirent p).nextBrother) : (t.set p d).next = t.next := by
  funext j
  exact field_set Dirent.nextBrother h _

lemma field_direntFree (f : Dirent → β) (h : ∀ d o, f { d with nextBrother := o } = f d) (q : Ptr) :
    f ((direntFree t i).dirent q) = f (t.dirent q) := by
  exact field_set f (h _ _) q

/-- A dirent without the pointers of the lists. -/
def Dirent.content (d : Dirent) : Dirent := { d with nextBrother := none, firstChild := none }

/-- The trees differ in the pointers of the lists only. -/
structure SameContent (t t' : Fs) : Prop where
  root : t'.rootFileSystem = t.rootFileSystem
  content : ∀ q, (t'.dirent q).content = (t.dirent q).content

namespace SameContent

lemma set (h : d.content = (t.dirent p).content) : SameContent t (t.set p d) :=
  ⟨rfl, field_set Dirent.content h⟩

end SameContent

lemma field_content (f : Dirent → β) (hf : ∀ d : Dirent, f d.content = f d) {d d' : Dirent}
    (h : d'.content = d.content) : f d' = f d := by
  rw [← hf d', h, hf d]

section

variable {d' : Dirent} (h : d'.content = d.content)
include h

lemma isDir_congr : d'.isDir = d.isDir := field_content _ (fun _ => rfl) h

lemma filename_congr : d'.filename = d.filename := field_content _ (fun _ => rfl) h

lemma isLink_congr : d'.isLink = d.isLink := field_content _ (fun _ => rfl) h

end

namespace Rep

section

variable (h : Rep t sh)
include h

lemma kids_of_childless (hnone : (t.dirent p).firstChild = none) : sh.kids p = [] := by
  have hlist := h.kids p
  rw [hnone] at hlist
  exact Linked.nil_iff.1 hlist

lemma firstChild_eq_none (hnone : sh.kids p = []) : (t.dirent p).firstChild = none := by
  have hlist := h.kids p
  rw [hnone] at hlist
  cases hfirst : (t.dirent p).firstChild with
  | none => rfl
  | some a =>
    rw [hfirst] at hlist
    cases hlist

lemma kid_unique (hp : i ∈ sh.kids p) (hq : i ∈ sh.kids q) : p = q := by
  have hparent := h.parent p i hp
  rw [h.parent q i hq] at hparent
  exact (Option.some.inj hparent).symm

lemma unique {sh' : Shape} (h' : Rep t sh') : sh = sh' := by
  cases sh with
  | mk kids free =>
    cases sh' with
    | mk kids' free' =>
      have hfree : free = free' := h.free.unique h'.free
      have hkids : kids = kids' := funext fun p => (h.kids p).unique (h'.kids p)
      rw [hfree, hkids]

lemma nodup_kids (p : Ptr) : (sh.kids p).Nodup := (h.kids p).nodup

lemma length_kids (p : Ptr) : (sh.kids p).length < direntNum + 1 := by
  have hsub : sh.kids p ⊆ List.range direntNum := fun i hi => mem_range.2 (h.bound p i hi)
  have hle := (subperm_of_subset (h.nodup_kids p) hsub).length_le
  rw [length_range] at hle
  exact Nat.lt_succ_of_le hle

lemma congr (hhead : t'.direntHead = t.direntHead) (hnext : t'.next = t.next)
    (hfirst : ∀ p, (t'.dirent p).firstChild = (t.dirent p).firstChild)
    (hparent : ∀ p, (t'.dirent p).parent = (t.dirent p).parent) : Rep t' sh := by
  refine ⟨?_, ?_, ?_, h.apart, h.bound, ?_⟩
  · rw [hhead, hnext]
    exact h.free
  · intro p
    rw [hfirst, hnext]
    exact h.kids p
  · intro p i hi
    rw [hparent]
    exact h.parent p i hi
  · intro k
    rw [hparent]
    exact h.rootless k

lemma set (hnext : d.nextBrother = (t.dirent p).nextBrother)
    (hfirst : d.firstChild = (t.dirent p).firstChild) (hparent : d.parent = (t.dirent p).parent) :
    Rep (t.set p d) sh :=
  h.congr rfl (next_set hnext) (field_set Dirent.firstChild hfirst) (field_set Dirent.parent hparent)

end

/-! ## The four rules -/

section

variable (h : Rep t sh)
include h

lemma alloc (hfree : sh.free = i :: rest) :
    direntAlloc t = .ok (i, { t with direntHead := t.next i }) ∧
      Rep { t with direntHead := t.next i } { sh with free := rest } ∧
      Shape.Off { sh with free := rest } i := by
  have hlinked := h.free
  rw [hfree] at hlinked
  have hnodup := hlinked.nodup
  cases hhead : t.direntHead with
  | none =>
    rw [hhead] at hlinked
    cases Linked.nil_iff.1 hlinked
  | some a =>
    rw [hhead] at hlinked
    rcases Linked.cons_iff.1 hlinked with ⟨rfl, hrest⟩
    refine ⟨?_, ⟨hrest, h.kids, h.parent, ?_, h.bound, h.rootless⟩, (nodup_cons.1 hnodup).1, ?_⟩
    · simp [direntAlloc, hhead]
    · intro p j hj hin
      refine h.apart p j hj ?_
      rw [hfree]
      exact mem_cons_of_mem _ hin
    · intro p hin
      refine h.apart p a hin ?_
      rw [hfree]
      exact mem_cons_self

lemma release (hoff : sh.Off i) : Rep (direntFree t i) { sh with free := i :: sh.free } := by
  have hnext : (direntFree t i).next = update t.next i t.direntHead := next_set_dirent
  have hkeep : ∀ {l : List Nat}, i ∉ l → ∀ {o}, Linked t.next o l → Linked (direntFree t i).next o l := by
    intro l hl o hlinked
    rw [hnext]
    refine hlinked.congr fun x hx => update_of_ne ?_ _ _
    rintro rfl
    exact hl hx
  refine ⟨?_, ?_, ?_, ?_, h.bound, ?_⟩
  · rw [hnext]
    exact h.free.push hoff.1
  · intro p
    rw [field_direntFree Dirent.firstChild fun _ _ => rfl]
    exact hkeep (hoff.2 p) (h.kids p)
  · intro p j hj
    rw [field_direntFree Dirent.parent fun _ _ => rfl]
    exact h.parent p j hj
  · intro p j hj hin
    rcases mem_cons.1 hin with rfl | hin
    · exact hoff.2 p hj
    · exact h.apart p j hj hin
  · intro k
    exact h.rootless k

/-- A dirent that is on no list is put in front of the children of `p`; this is how `ealloc` and
`loadDirents` link it. -/
theorem adopt (hoff : sh.Off i) (hi : i < direntNum) (hp : p ≠ .dirent i)
    (hnone : sh.kids (.dirent i) = []) (hnext : d.nextBrother = (t.dirent p).firstChild)
    (hparent : d.parent = some p) (hfirst : d.firstChild = none) :
    Rep ((t.set (.dirent i) d).set p { (t.set (.dirent i) d).dirent p with firstChild := some i })
      (sh.add p i) := by
  set u := t.set (.dirent i) d with hu
  set v := u.set p { u.dirent p with firstChild := some i } with hv
  have hnexts : v.next = update t.next i (t.dirent p).firstChild := by
    rw [hv, next_set (by rfl), hu, next_set_dirent, hnext]
  have hparents : ∀ q, q ≠ .dirent i → (v.dirent q).parent = (t.dirent q).parent := by
    intro q hq
    rw [hv, field_set Dirent.parent (by rfl), hu, dirent_set_of_ne hq]
  -- the other lists do not contain `i`
  have hkeep : ∀ {l : List Nat}, i ∉ l → ∀ {o}, Linked t.next o l → Linked v.next o l := by
    intro l hl o hlinked
    rw [hnexts]
    refine hlinked.congr fun x hx => update_of_ne ?_ _ _
    rintro rfl
    exact hl hx
  refine ⟨hkeep hoff.1 h.free, ?_, ?_, ?_, ?_, ?_⟩
  · intro q
    by_cases hqp : q = p
    · subst hqp
      rw [Shape.kids_add_self, hnexts, hv, dirent_set_self]
      exact (h.kids q).push (hoff.2 q)
    · rw [Shape.kids_add_of_ne hqp, hv, dirent_set_of_ne hqp]
      by_cases hqi : q = .dirent i
      · subst hqi
        rw [hu, dirent_set_self, hfirst, hnone]
        exact Linked.nil
      · rw [hu, dirent_set_of_ne hqi]
        exact hkeep (hoff.2 q) (h.kids q)
  · intro q j hj
    rcases Shape.mem_add.1 hj with ⟨rfl, rfl⟩ | hj
    · rw [hv, field_set Dirent.parent (by rfl), hu, dirent_set_self, hparent]
    · have hji : j ≠ i := fun heq => hoff.2 q (heq ▸ hj)
      rw [hparents _ fun hd => hji (Ptr.dirent.inj hd)]
      exact h.parent q j hj
  · intro q j hj hin
    rcases Shape.mem_add.1 hj with ⟨_, rfl⟩ | hj
    · exact hoff.1 hin
    · exact h.apart q j hj hin
  · intro q j hj
    rcases Shape.mem_add.1 hj with ⟨_, rfl⟩ | hj
    · exact hi
    · exact h.bound q j hj
  · intro k
    rw [hparents _ (by simp)]
    exact h.rootless k

lemma off_remove (hi : i ∈ sh.kids p) : (sh.remove p i).Off i := by
  refine ⟨h.apart p i hi, fun q hq => ?_⟩
  by_cases hqp : q = p
  · subst hqp
    rw [Shape.kids_remove_self] at hq
    exact (h.nodup_kids q).mem_erase_iff.1 hq |>.1 rfl
  · rw [Shape.kids_remove_of_ne hqp] at hq
    exact hqp (h.kid_unique hq hi)

/-- The lists after a write that unlinks `i` from `p`, whichever pointer it is. -/
theorem remove (hi : i ∈ sh.kids p) (hhead : t'.direntHead = t.direntHead)
    (hparent : ∀ q, (t'.dirent q).parent = (t.dirent q).parent)
    (hlist : Linked t'.next (t'.dirent p).firstChild ((sh.kids p).erase i))
    (hother : ∀ j, j ∉ sh.kids p → t'.next j = t.next j)
    (hfirst : ∀ q, q ≠ p → (t'.dirent q).firstChild = (t.dirent q).firstChild) : Rep t' (sh.remove p i) := by
  refine ⟨?_, ?_, ?_, ?_, ?_, ?_⟩
  · rw [hhead]
    exact h.free.congr fun x hx => hother x fun hin => h.apart p x hin hx
  · intro q
    by_cases hqp : q = p
    · subst hqp
      rw [Shape.kids_remove_self]
      exact hlist
    · rw [Shape.kids_remove_of_ne hqp, hfirst q hqp]
      exact (h.kids q).congr fun x hx => hother x fun hin => hqp (h.kid_unique hx hin)
  · intro q j hj
    rw [hparent]
    exact h.parent q j (Shape.mem_of_mem_remove hj)
  · intro q j hj
    exact h.apart q j (Shape.mem_of_mem_remove hj)
  · intro q j hj
    exact h.bound q j (Shape.mem_of_mem_remove hj)
  · intro k
    rw [hparent]
    exact h.rootless k

lemma unlinkChild_spec (hi : i ∈ sh.kids p) :
    ∃ t', unlinkChild t p i = .ok t' ∧ Rep t' (sh.remove p i) ∧ SameContent t t' := by
  rcases (h.kids p).suffix hi with ⟨front, back, hsplit, hback⟩
  have hnodup := h.nodup_kids p
  have hlist := h.kids p
  have herase : (sh.kids p).erase i = front ++ back := by
    rw [hsplit] at hnodup ⊢
    have hnot : i ∉ front := fun hin => (nodup_append.1 hnodup).2.2 i hin i (by simp) rfl
    rw [erase_append_right _ hnot, erase_cons_head]
  unfold unlinkChild
  cases hfirst : (t.dirent p).firstChild with
  | none =>
    rw [hfirst] at hlist
    rw [Linked.nil_iff.1 hlist] at hi
    cases hi
  | some first =>
    dsimp only
    rw [hfirst] at hlist
    by_cases hhead : first = i
    · -- the first child: the pointer of the parent moves on
      rw [if_pos hhead]
      refine ⟨_, rfl, ?_, SameContent.set rfl⟩
      have hfront : front = [] := by
        cases front with
        | nil => rfl
        | cons a front =>
          rw [hsplit] at hlist hnodup
          rcases Linked.cons_iff.1 hlist with ⟨rfl, _⟩
          simp [hhead] at hnodup
      refine h.remove hi rfl (field_set Dirent.parent (by rfl)) ?_ ?_ ?_
      · rw [dirent_set_self, next_set (by rfl), herase, hfront]
        exact hback
      · intro j _
        rw [next_set (by rfl)]
      · intro q hq
        rw [dirent_set_of_ne hq]
    · -- a later child: the one in front of it is linked past it
      rw [if_neg hhead]
      rcases eq_nil_or_concat front with rfl | ⟨front', a, rfl⟩
      · rw [hsplit] at hlist
        exact absurd (Linked.cons_iff.1 hlist).1 hhead
      · have hsplit' : sh.kids p = front' ++ a :: i :: back := by simp [hsplit]
        have ha : a ∈ sh.kids p := by simp [hsplit']
        rw [hlist.before_eq hsplit' (Nat.le_of_lt (h.length_kids p))]
        refine ⟨_, rfl, ?_, SameContent.set rfl⟩
        refine h.remove hi rfl (field_set Dirent.parent (by rfl)) ?_ ?_ ?_
        · rw [field_set Dirent.firstChild (by rfl), hfirst, next_set_dirent, herase]
          rw [hsplit'] at hlist
          simpa [Fs.next] using hlist.skip
        · intro j hj
          rw [next_set_dirent]
          refine update_of_ne ?_ _ _
          rintro rfl
          exact hj ha
        · intro q _
          exact field_set Dirent.firstChild (by rfl) q

end

end Rep

end Tree
end OsRiscv
