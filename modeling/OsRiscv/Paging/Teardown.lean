import Mathlib.Data.List.Basic
import Mathlib.Data.Set.BooleanAlgebra
import Mathlib.Order.CompletePartialOrder
import OsRiscv.Lib.Release
import OsRiscv.Paging.Map

/-!
# Teardown — what `pgdirFree` releases

The three loops of `pgdirFree` give up the pages of RAM that the leaves map and then the tables, innermost
first.  `pageRemove` walks and edits the same tables, but it writes only tables of leaves, and each of those is
dealt with once.  So the loops release the pages that the tables held at the start (`releases`), whatever is
already on `freePages`.

The middle and the outer loop have the same form: an entry, what is below it, and the table itself.
-/

namespace OsRiscv
namespace Paging

open Lib List

variable {m m' m₀ : Mem} {S : Set Word} {a k page table : Word} {i j : Fin 512} {p q : List (Fin 512)}
  {ks : List (Fin 512)} {l : Fin 512} {is : List (Fin 512)} {D : Set Word} {R R' : List Word}

/-! ## Giving up references -/

/-- The pages of `R` are released, in this order. -/
def Gives (R : List Word) (m m' : Mem) : Prop :=
  Released R (fun p => (m.ref p).toNat) (fun p => (m'.ref p).toNat) m.freePages m'.freePages

lemma Gives.append {m'' : Mem} (h : Gives R m m') (h' : Gives R' m' m'') :
    Gives (R ++ R') m m'' := Released.append h h'

lemma Gives.store {R : List Word} {ptr : Ptr} {e : Word} (h : Gives R m m') : Gives R m (m'.store ptr e) := h

lemma Gives.nil : Gives [] m m := Released.nil

lemma toNat_sub_one {n : BitVec 32} (h : n ≠ 0) : (n - 1).toNat + 1 = n.toNat := by
  have hpos : n.toNat ≠ 0 := fun hz => h (BitVec.eq_of_toNat_eq hz)
  have hone : (1 : BitVec 32).toNat = 1 := rfl
  rw [BitVec.toNat_sub, hone]
  omega

lemma count_sub_one (hne : m.ref page ≠ 0) (p : Word) :
    (Function.update m.ref page (m.ref page - 1) p).toNat + [page].count p = (m.ref p).toNat := by
  by_cases hp : p = page
  · subst hp
    rw [Function.update_self, count_singleton_self, toNat_sub_one hne]
  · rw [Function.update_of_ne hp, count_eq_zero_of_not_mem (by simpa using hp), Nat.add_zero]

lemma gives_release (hne : m.ref page ≠ 0) : Gives [page] m (release m page) := by
  unfold release pageFree
  by_cases hlast : (m.setRef page (m.ref page - 1)).ref page = 0
  · rw [if_pos hlast]
    exact Released.single_last (count_sub_one hne) (congrArg BitVec.toNat hlast)
  · rw [if_neg hlast]
    exact Released.single_more (count_sub_one hne) fun hz => hlast (BitVec.eq_of_toNat_eq hz)

lemma paDecreaseRef_one (hone : m.ref page = 1) :
    ∃ m', paDecreaseRef m page = some m' ∧ Gives [page] m m' ∧ m'.word = m.word := by
  have hzero : (m.setRef page (m.ref page - 1)).ref page = 0 := by
    show Function.update m.ref page (m.ref page - 1) page = 0
    rw [Function.update_self, hone]
    decide
  have hne : m.ref page ≠ 0 := by
    rw [hone]
    decide
  unfold paDecreaseRef
  rw [if_pos hzero]
  exact ⟨_, rfl, Released.single_last (count_sub_one hne) (congrArg BitVec.toNat hzero), rfl⟩

/-! ## The inner loop -/

/-- The page of RAM that an entry maps. -/
def ramPage (e : Word) : Option Word :=
  if has e pteValid = true ∧ isRam (pte2Pa e) = true then some (pte2Pa e) else none

def leafReleases (m : Mem) (pa2 : Word) (ks : List (Fin 512)) : List Word :=
  ks.filterMap fun k => ramPage (m.word pa2 k)

lemma leafReleases_none (h : ramPage (m.word k l) = none) :
    leafReleases m k (l :: ks) = leafReleases m k ks := filterMap_cons_none h

lemma leafReleases_some (h : ramPage (m.word k l) = some page) :
    leafReleases m k (l :: ks) = page :: leafReleases m k ks := filterMap_cons_some h

lemma pathOf_addressOf (i j k : Fin 512) : pathOf (addressOf i j k) = [i, j] := by
  rcases getPageTableIndex_addressOf i j k with ⟨hi, hj, _⟩
  unfold pathOf
  rw [hi, hj]

lemma entry_addressOf (hk : m.node a [i, j] = some k) (l : Fin 512) : m.entry a (addressOf i j l) = m.word k l := by
  have hnode : m.node a (pathOf (addressOf i j l)) = some k := by
    rw [pathOf_addressOf]
    exact hk
  rw [entry_of_node hnode, (getPageTableIndex_addressOf i j l).2.2]

/-- One round of the inner loop. -/
def dropLeaf (pgdir pa2 : Word) (i j : Fin 512) (m : Mem) (k : Fin 512) : Mem :=
  if has (m.word pa2 k) pteValid then (pageRemove m pgdir (addressOf i j k)).2 else m

lemma freeLeaves_cons :
    freeLeaves a k i j (l :: ks) m = freeLeaves a k i j ks (dropLeaf a k i j m l) := by
  rw [freeLeaves, dropLeaf]
  split
  · rfl
  · rfl

lemma dropLeaf_ram (hk : m.node a [i, j] = some k) (hpage : ramPage (m.word k l) = some page) :
    dropLeaf a k i j m l = (release m page).store (k, l) 0 := by
  unfold ramPage at hpage
  split at hpage
  · rename_i hram
    cases hpage
    have hentry := entry_addressOf hk l
    have hnode : m.node a (pathOf (addressOf i j l)) = some k := by
      rw [pathOf_addressOf]
      exact hk
    unfold dropLeaf
    rw [if_pos hram.1, pageRemove_ram (by rw [hentry]; exact hram.1) (by rw [hentry]; exact hram.2) hnode, hentry,
      (getPageTableIndex_addressOf i j l).2.2]
  · cases hpage

lemma dropLeaf_other (hk : m.node a [i, j] = some k) (hpage : ramPage (m.word k l) = none) :
    dropLeaf a k i j m l = m := by
  unfold dropLeaf
  split
  · rename_i hvalid
    have hentry := entry_addressOf hk l
    have hother : isRam (pte2Pa (m.word k l)) = false := by
      by_contra hram
      unfold ramPage at hpage
      rw [if_pos ⟨hvalid, by simpa using hram⟩] at hpage
      cases hpage
    rw [pageRemove_other (.inr (by rw [hentry]; exact hother))]
  · rfl

/-- The pages outside `D` hold what they held before. -/
def Outside (D : Set Word) (m₀ m : Mem) : Prop := ∀ x, x ∉ D → m.word x = m₀.word x

/-- The inner loop, on a table of leaves that is as it was at the start. -/
theorem freeLeaves_gives (hs : Shape m S) (ha : a ∈ S) (hk : m.node a [i, j] = some k)
    (hnodup : ks.Nodup) (hle : ∀ p, (leafReleases m k ks).count p ≤ (m.ref p).toNat) :
    Gives (leafReleases m k ks) m (freeLeaves a k i j ks m) ∧ Outside {k} m (freeLeaves a k i j ks m) := by
  induction ks generalizing m with
  | nil => exact ⟨Gives.nil, fun _ _ => rfl⟩
  | cons l ks ih =>
    rcases nodup_cons.1 hnodup with ⟨hnot, hnodup'⟩
    cases hpage : ramPage (m.word k l) with
    | none =>
      rw [leafReleases_none hpage] at hle ⊢
      rw [freeLeaves_cons, dropLeaf_other hk hpage]
      exact ih hs hk hnodup' hle
    | some page =>
      rw [leafReleases_some hpage] at hle ⊢
      rw [freeLeaves_cons, dropLeaf_ram hk hpage]
      have hne : m.ref page ≠ 0 := by
        intro hzero
        have := hle page
        rw [hzero, count_cons_self] at this
        exact absurd this (Nat.not_succ_le_zero _)
      have hs' : Shape (release m page) S := hs.of_word release_word
      have hk' : (release m page).node a [i, j] = some k := (node_of_word release_word).trans hk
      have hgives : Gives [page] m ((release m page).store (k, l) 0) := gives_release hne
      -- the entries that are left to do are untouched
      have hrest : leafReleases ((release m page).store (k, l) 0) k ks = leafReleases m k ks := by
        refine filterMap_congr ?_
        intro x hx
        have hxl : ¬(k = k ∧ x = l) := by
          rintro ⟨_, rfl⟩
          exact hnot hx
        show ramPage (Radix.write (release m page).word k l 0 k x) = ramPage (m.word k x)
        rw [Radix.write_of_ne hxl, release_word]
      have hle' : ∀ p, (leafReleases ((release m page).store (k, l) 0) k ks).count p ≤
          (((release m page).store (k, l) 0).ref p).toNat := by
        intro p
        have hbefore := hle p
        have hafter := hgives.count p
        rw [hrest]
        rw [← singleton_append, count_append] at hbefore
        omega
      rcases ih (hs'.store ha rfl hk' 0) ((node_store hs' ha rfl hk' ha (show [i, j].length ≤ 2 from Nat.le_refl 2)
        0).trans hk') hnodup' hle' with ⟨hgives', hout⟩
      rw [hrest] at hgives'
      refine ⟨hgives.append hgives', ?_⟩
      intro x hx
      rw [hout x hx]
      show Radix.write (release m page).word k l 0 x = m.word x
      rw [Radix.write, Function.update_of_ne hx, release_word]

/-! ## The other loops -/

/-- The form of the middle and the outer loop: below an entry `below`, then the table behind it. -/
def levelLoop (table : Word) (below : Fin 512 → Word → Mem → Kernel Mem) (is : List (Fin 512)) (m : Mem) :
    Kernel Mem :=
  is.foldlM (fun m i =>
    if has (m.word table i) pteValid then
      (below i (pte2Pa (m.word table i)) m).bind fun m' => paDecreaseRef m' (pte2Pa (m.word table i))
    else some m) m

/-- What the middle loop does below an entry. -/
def leafTable (pgdir : Word) (i j : Fin 512) (pa2 : Word) (m : Mem) : Kernel Mem :=
  some ((freeLeaves pgdir pa2 i j (List.finRange 512) m).store (pa2, j) 0)

lemma freeTables_eq (pgdir pa : Word) (i : Fin 512) (js : List (Fin 512)) (m : Mem) :
    freeTables pgdir pa i js m = levelLoop pa (leafTable pgdir i) js m := by
  congr 1

/-- What the outer loop does below an entry. -/
def innerTable (pgdir : Word) (i : Fin 512) (pa : Word) (m : Mem) : Kernel Mem :=
  freeTables pgdir pa i (List.finRange 512) m

lemma pgdirFree_eq (m : Mem) (pgdir : Word) :
    pgdirFree m pgdir = (levelLoop pgdir (innerTable pgdir) (List.finRange 512) m).bind fun m =>
      paDecreaseRef m pgdir := by
  unfold pgdirFree levelLoop
  congr 1

/-- The tables of leaves of a page directory. -/
def leafTables (m : Mem) (a : Word) : Set Word := { x | ∃ i j, m.node a [i, j] = some x }

/-- What is known about a loop over the entries of `table`: below the entry `i` the pages `R i` are released, and
only the tables `X i` of leaves are written.  `T i` are the tables among `R i`. -/
structure Level (m₀ : Mem) (a table : Word) (below : Fin 512 → Word → Mem → Kernel Mem)
    (R : Fin 512 → List Word) (T X : Fin 512 → Set Word) : Prop where
  inner : table ∉ leafTables m₀ a
  leaf : ∀ i, X i ⊆ leafTables m₀ a
  apart : ∀ i j, i ≠ j → Disjoint (X i) (X j)
  tables : ∀ i, has (m₀.word table i) pteValid = true → ∀ t ∈ T i, t ∈ R i
  below : ∀ i m D, has (m₀.word table i) pteValid = true → D ⊆ leafTables m₀ a → Disjoint D (X i) →
    Outside D m₀ m → (∀ p, (R i).count p ≤ (m.ref p).toNat) → (∀ t ∈ T i, m.ref t = 1) →
    ∃ m', below i (pte2Pa (m₀.word table i)) m = some m' ∧ Gives (R i) m m' ∧ Outside (D ∪ X i) m₀ m'

/-- What the loop releases for one entry. -/
def levelReleases (m : Mem) (table : Word) (R : Fin 512 → List Word) (i : Fin 512) : List Word :=
  if has (m.word table i) pteValid then R i ++ [pte2Pa (m.word table i)] else []

lemma Gives.ref_one (h : Gives R m m') (hle : ∀ p, (R ++ R').count p ≤ (m.ref p).toNat)
    (hone : m.ref page = 1) (hin : page ∈ R') : m'.ref page = 1 := by
  have hcount := h.count page
  have hbound := hle page
  have hpos := count_pos_iff.2 hin
  have hnat : (m.ref page).toNat = 1 := by
    rw [hone]
    rfl
  rw [count_append] at hbound
  refine BitVec.eq_of_toNat_eq ?_
  show (m'.ref page).toNat = 1
  omega

lemma Gives.count_le (h : Gives R m m') (hle : ∀ p, (R ++ R').count p ≤ (m.ref p).toNat)
    (p : Word) : R'.count p ≤ (m'.ref p).toNat := by
  have hcount := h.count p
  have hbound := hle p
  rw [count_append] at hbound
  omega

variable {below : Fin 512 → Word → Mem → Kernel Mem} {R : Fin 512 → List Word} {T X : Fin 512 → Set Word}

/-- The pages written by the rounds of `is`. -/
def written (m₀ : Mem) (table : Word) (X : Fin 512 → Set Word) (is : List (Fin 512)) : Set Word :=
  { x | ∃ i ∈ is, has (m₀.word table i) pteValid = true ∧ x ∈ X i }

lemma levelLoop_valid {m₁ m₂ : Mem} (hvalid : has (m.word table i) pteValid = true)
    (hbelow : below i (pte2Pa (m.word table i)) m = some m₁)
    (hdec : paDecreaseRef m₁ (pte2Pa (m.word table i)) = some m₂) :
    levelLoop table below (i :: is) m = levelLoop table below is m₂ := by
  have hround : ((below i (pte2Pa (m.word table i)) m).bind fun m' => paDecreaseRef m' (pte2Pa (m.word table i))) =
      some m₂ := by
    rw [hbelow, Option.bind_some, hdec]
  unfold levelLoop
  rw [foldlM_cons, if_pos hvalid, hround]
  rfl

lemma levelLoop_invalid (hvalid : ¬has (m.word table i) pteValid = true) :
    levelLoop table below (i :: is) m = levelLoop table below is m := by
  unfold levelLoop
  rw [foldlM_cons, if_neg hvalid]
  rfl

lemma levelLoop_gives (h : Level m₀ a table below R T X) (hnodup : is.Nodup)
    (hD : D ⊆ leafTables m₀ a)
    (hapart : ∀ i ∈ is, has (m₀.word table i) pteValid = true → Disjoint D (X i)) (hout : Outside D m₀ m)
    (hle : ∀ p, (is.flatMap (levelReleases m₀ table R)).count p ≤ (m.ref p).toNat)
    (hone : ∀ i ∈ is, has (m₀.word table i) pteValid = true →
      m.ref (pte2Pa (m₀.word table i)) = 1 ∧ ∀ t ∈ T i, m.ref t = 1) :
    ∃ m', levelLoop table below is m = some m' ∧ Gives (is.flatMap (levelReleases m₀ table R)) m m' ∧
      Outside (D ∪ written m₀ table X is) m₀ m' := by
  induction is generalizing m D with
  | nil =>
    refine ⟨m, rfl, Gives.nil, ?_⟩
    intro x hx
    exact hout x fun hxD => hx (.inl hxD)
  | cons i is ih =>
    rcases nodup_cons.1 hnodup with ⟨hnot, hnodup'⟩
    have hentry : m.word table i = m₀.word table i := by
      rw [hout table fun hin => h.inner (hD hin)]
    by_cases hvalid : has (m₀.word table i) pteValid = true
    · have hhead : levelReleases m₀ table R i = R i ++ [pte2Pa (m₀.word table i)] := if_pos hvalid
      rw [flatMap_cons, hhead] at hle ⊢
      -- below the entry
      have hle₁ : ∀ p, (R i).count p ≤ (m.ref p).toNat := by
        intro p
        have := hle p
        rw [count_append, count_append] at this
        omega
      rcases h.below i m D hvalid hD (hapart i (mem_cons_self ..) hvalid) hout hle₁
        (hone i (mem_cons_self ..) hvalid).2 with
        ⟨m₁, hbelow, hgives₁, hout₁⟩
      -- the table itself
      have hle₂ : ∀ p, (R i ++ ([pte2Pa (m₀.word table i)] ++ is.flatMap (levelReleases m₀ table R))).count p ≤
          (m.ref p).toNat := by
        rw [← append_assoc]
        exact hle
      have hone₁ : m₁.ref (pte2Pa (m₀.word table i)) = 1 :=
        hgives₁.ref_one hle₂ (hone i (mem_cons_self ..) hvalid).1 (by simp)
      rcases paDecreaseRef_one hone₁ with ⟨m₂, hdec, hgives₂, hword₂⟩
      have hgives := hgives₁.append hgives₂
      -- the rounds that are left
      have hDi : D ∪ X i ⊆ leafTables m₀ a := Set.union_subset hD (h.leaf i)
      have hapart' : ∀ j ∈ is, has (m₀.word table j) pteValid = true → Disjoint (D ∪ X i) (X j) := by
        intro j hj hvalid'
        have hij : i ≠ j := fun hij => hnot (hij ▸ hj)
        exact Set.disjoint_union_left.2 ⟨hapart j (mem_cons_of_mem _ hj) hvalid', h.apart i j hij⟩
      have hout₂ : Outside (D ∪ X i) m₀ m₂ := by
        intro x hx
        rw [hword₂]
        exact hout₁ x hx
      have hone₂ : ∀ j ∈ is, has (m₀.word table j) pteValid = true →
          m₂.ref (pte2Pa (m₀.word table j)) = 1 ∧ ∀ t ∈ T j, m₂.ref t = 1 := by
        intro j hj hvalid'
        have htail : ∀ t ∈ R j ++ [pte2Pa (m₀.word table j)], t ∈ is.flatMap (levelReleases m₀ table R) := by
          intro t ht
          have hlevel : levelReleases m₀ table R j = R j ++ [pte2Pa (m₀.word table j)] := if_pos hvalid'
          exact mem_flatMap.2 ⟨j, hj, hlevel ▸ ht⟩
        rcases hone j (mem_cons_of_mem _ hj) hvalid' with ⟨htable, hbelow⟩
        refine ⟨hgives.ref_one hle htable (htail _ (by simp)), ?_⟩
        intro t ht
        exact hgives.ref_one hle (hbelow t ht) (htail t (mem_append_left _ (h.tables j hvalid' t ht)))
      rcases ih hnodup' hDi hapart' hout₂ (hgives.count_le hle) hone₂ with ⟨m₃, hloop, hgives₃, hout₃⟩
      refine ⟨m₃, ?_, hgives.append hgives₃, ?_⟩
      · rw [← hentry] at hvalid hbelow hdec
        rw [levelLoop_valid hvalid hbelow hdec]
        exact hloop
      · intro x hx
        refine hout₃ x ?_
        rintro ((hxD | hxi) | ⟨j, hj, hvj, hxj⟩)
        · exact hx (.inl hxD)
        · exact hx (.inr ⟨i, mem_cons_self .., hvalid, hxi⟩)
        · exact hx (.inr ⟨j, mem_cons_of_mem _ hj, hvj, hxj⟩)
    · have hhead : levelReleases m₀ table R i = [] := if_neg hvalid
      rw [flatMap_cons, hhead, nil_append] at hle ⊢
      rcases ih hnodup' hD (fun j hj => hapart j (mem_cons_of_mem _ hj)) hout hle
        (fun j hj => hone j (mem_cons_of_mem _ hj)) with ⟨m', hloop, hgives, hout'⟩
      refine ⟨m', ?_, hgives, ?_⟩
      · rw [← hentry] at hvalid
        rw [levelLoop_invalid hvalid]
        exact hloop
      · intro x hx
        refine hout' x ?_
        rintro (hxD | ⟨j, hj, hvj, hxj⟩)
        · exact hx (.inl hxD)
        · exact hx (.inr ⟨j, mem_cons_of_mem _ hj, hvj, hxj⟩)

/-! ## The tables of one directory -/

lemma Shape.valid_iff (hs : Shape m S) (ha : a ∈ S) (hp : p.length < 2) (hk : m.node a p = some k) (i : Fin 512) :
    has (m.word k i) pteValid = true ↔ m.word k i ≠ 0 := by
  constructor
  · exact ne_zero_of_valid
  · intro hne
    rcases hs.entries a ha p k hp hk i with hzero | hvalid
    · exact absurd hzero hne
    · exact hvalid

lemma node_child (hk : m.node a p = some k) (hvalid : has (m.word k i) pteValid = true) :
    m.node a (p ++ [i]) = some (pte2Pa (m.word k i)) := by
  rw [Mem.node, Radix.node_snoc hk]
  exact child_of_ne (ne_zero_of_valid hvalid)

/-- The table of leaves at the end of a path. -/
def leafAt (m : Mem) (a : Word) (i j : Fin 512) : Set Word := { x | m.node a [i, j] = some x }

lemma not_mem_leafTables (hs : Shape m S) (ha : a ∈ S) {b : Word} (hb : b ∈ S) (hp : p.length < 2)
    (hk : m.node b p = some k) : k ∉ leafTables m a := by
  rintro ⟨i, j, hij⟩
  exact hs.forest.ne_of_length_lt hb ha (show [i, j].length ≤ 2 from Nat.le_refl 2) hp hk hij rfl

/-- What the middle loop releases. -/
def tableReleases (m : Mem) (pa : Word) : List Word :=
  (List.finRange 512).flatMap
    (levelReleases m pa fun j => leafReleases m (pte2Pa (m.word pa j)) (List.finRange 512))

/-- What `pgdirFree` releases. -/
def releases (m : Mem) (pgdir : Word) : List Word :=
  (List.finRange 512).flatMap (levelReleases m pgdir fun i => tableReleases m (pte2Pa (m.word pgdir i))) ++ [pgdir]

section

variable (hs : Shape m₀ S) (ha : a ∈ S)
include hs ha

lemma mem_tableReleases (hk : m₀.node a [i] = some k) (hj : m₀.node a [i, j] = some page) :
    page ∈ tableReleases m₀ k := by
  have hchild : child (m₀.word k j) = some page := (Radix.node_snoc hk).symm.trans hj
  have hne : m₀.word k j ≠ 0 := by
    intro hzero
    rw [hzero] at hchild
    cases hchild
  rw [child_of_ne hne] at hchild
  have hvalid := (hs.valid_iff ha (show [i].length < 2 from Nat.lt_succ_self 1) hk j).2 hne
  refine mem_flatMap.2 ⟨j, mem_finRange j, ?_⟩
  rw [levelReleases, if_pos hvalid, Option.some.inj hchild]
  exact mem_append_right _ (mem_singleton_self _)

section

variable (hD : D ⊆ leafTables m₀ a) (hout : Outside D m₀ m)
include hD hout

lemma inner_agree :
    ∀ b ∈ S, ∀ (r : List (Fin 512)) x, r.length < 2 → Radix.node child m₀.word b r = some x →
      m.word x = m₀.word x :=
  fun _ hb _ x hr hx => hout x fun hin => not_mem_leafTables hs ha hb hr hx (hD hin)

lemma Shape.outside : Shape m S := by
  have hinner := inner_agree hs ha hD hout
  refine ⟨?_, hs.forest.of_inner hinner⟩
  intro b hb r x hr hx i
  have hx₀ : m₀.node b r = some x := (Radix.node_of_inner hinner hb (Nat.le_of_lt hr)).symm.trans hx
  rw [hinner b hb r x hr hx₀]
  exact hs.entries b hb r x hr hx₀ i

lemma node_outside {b : Word} (hb : b ∈ S)
    (hq : q.length ≤ 2) : m.node b q = m₀.node b q :=
  Radix.node_of_inner (inner_agree hs ha hD hout) hb hq

end

/-- The middle loop. -/
theorem level_middle (hk : m₀.node a [i] = some k) :
    Level m₀ a k (leafTable a i) (fun j => leafReleases m₀ (pte2Pa (m₀.word k j)) (List.finRange 512))
      (fun _ => ∅) (leafAt m₀ a i) where
  inner := not_mem_leafTables hs ha ha (show [i].length < 2 from Nat.lt_succ_self 1) hk
  leaf := fun j x hx => ⟨i, j, hx⟩
  apart := by
    intro j j' hne
    refine Set.disjoint_left.2 ?_
    intro x hx hx'
    have hpaths := (hs.forest a ha a ha [i, j] [i, j'] x (Nat.le_refl 2) (Nat.le_refl 2) hx hx').2
    simp only [List.cons.injEq, and_true, true_and] at hpaths
    exact hne hpaths
  tables := by
    intro _ _ t ht
    exact absurd ht (Set.notMem_empty t)
  below := by
    intro j m D hvalid hD hapart hout hle _
    have hk' : m₀.node a [i, j] = some (pte2Pa (m₀.word k j)) := node_child hk hvalid
    have hsame : m.word (pte2Pa (m₀.word k j)) = m₀.word (pte2Pa (m₀.word k j)) :=
      hout _ fun hin => Set.disjoint_left.1 hapart hin hk'
    have hleaves : leafReleases m (pte2Pa (m₀.word k j)) (finRange 512) =
        leafReleases m₀ (pte2Pa (m₀.word k j)) (finRange 512) := by
      unfold leafReleases
      rw [hsame]
    have hnode : m.node a [i, j] = some (pte2Pa (m₀.word k j)) :=
      (node_outside hs ha hD hout ha (show [i, j].length ≤ 2 from Nat.le_refl 2)).trans hk'
    rcases freeLeaves_gives (hs.outside ha hD hout) ha hnode (nodup_finRange 512) (by rwa [hleaves]) with
      ⟨hgives, hleaf⟩
    rw [hleaves] at hgives
    refine ⟨(freeLeaves a _ i j (finRange 512) m).store (_, j) 0, by rw [leafTable], hgives.store, ?_⟩
    intro x hx
    have hxk : x ≠ pte2Pa (m₀.word k j) := by
      rintro rfl
      exact hx (.inr hk')
    -- the entry `pa2[j]` that is cleared is in the table of leaves
    show Radix.write _ _ _ _ x = _
    rw [Radix.write, Function.update_of_ne hxk, hleaf x hxk]
    exact hout x fun hin => hx (.inl hin)

/-- The outer loop. -/
theorem level_outer : Level m₀ a a (innerTable a) (fun i => tableReleases m₀ (pte2Pa (m₀.word a i)))
      (fun i => { x | ∃ j, x ∈ leafAt m₀ a i j }) (fun i => { x | ∃ j, x ∈ leafAt m₀ a i j }) where
  inner := not_mem_leafTables hs ha ha (show ([] : List (Fin 512)).length < 2 from Nat.zero_lt_two) rfl
  leaf := fun i x hx => ⟨i, hx⟩
  apart := by
    intro i i' hne
    refine Set.disjoint_left.2 ?_
    rintro x ⟨j, hx⟩ ⟨j', hx'⟩
    have hpaths := (hs.forest a ha a ha [i, j] [i', j'] x (Nat.le_refl 2) (Nat.le_refl 2) hx hx').2
    simp only [List.cons.injEq, and_true] at hpaths
    exact hne hpaths.1
  tables := by
    rintro i hvalid x ⟨j, hx⟩
    have hk : m₀.node a [i] = some (pte2Pa (m₀.word a i)) := node_child (p := []) rfl hvalid
    exact mem_tableReleases hs ha hk hx
  below := by
    intro i m D hvalid hD hapart hout hle hone
    have hk : m₀.node a [i] = some (pte2Pa (m₀.word a i)) := node_child (p := []) rfl hvalid
    have hlevel := level_middle hs ha hk
    have hbelow : ∀ j, has (m₀.word (pte2Pa (m₀.word a i)) j) pteValid = true →
        pte2Pa (m₀.word (pte2Pa (m₀.word a i)) j) ∈ leafAt m₀ a i j := fun j hj => node_child hk hj
    have hapart' : ∀ j, Disjoint D (leafAt m₀ a i j) := by
      intro j
      refine Set.disjoint_left.2 ?_
      intro x hxD hx
      exact Set.disjoint_left.1 hapart hxD ⟨j, hx⟩
    rcases levelLoop_gives hlevel (nodup_finRange 512) hD (fun j _ _ => hapart' j) hout hle
      (fun j _ hj => ⟨hone _ ⟨j, hbelow j hj⟩, fun t ht => absurd ht (Set.notMem_empty t)⟩) with
      ⟨m', hloop, hgives, hout'⟩
    refine ⟨m', ?_, hgives, ?_⟩
    · rw [innerTable, freeTables_eq]
      exact hloop
    · intro x hx
      refine hout' x ?_
      rintro (hxD | ⟨j, _, _, hxj⟩)
      · exact hx (.inl hxD)
      · exact hx (.inr ⟨j, hxj⟩)

/-- `pgdirFree` releases the pages that the tables hold. -/
theorem pgdirFree_gives (hle : ∀ p, (releases m₀ a).count p ≤ (m₀.ref p).toNat)
    (hone : ∀ p t, p.length ≤ 2 → m₀.node a p = some t → m₀.ref t = 1) :
    ∃ m', pgdirFree m₀ a = some m' ∧ Gives (releases m₀ a) m₀ m' := by
  have hempty : (∅ : Set Word) ⊆ leafTables m₀ a := Set.empty_subset _
  have hle₁ : ∀ p, ((finRange 512).flatMap (levelReleases m₀ a fun i =>
      tableReleases m₀ (pte2Pa (m₀.word a i)))).count p ≤ (m₀.ref p).toNat := by
    intro p
    have := hle p
    rw [releases, count_append] at this
    omega
  rcases levelLoop_gives (level_outer hs ha) (nodup_finRange 512) hempty
    (fun i _ _ => Set.disjoint_left.2 fun x hx => absurd hx (Set.notMem_empty x)) (fun _ _ => rfl) hle₁
    (fun i _ hi => ⟨hone [i] _ (show [i].length ≤ 2 from Nat.le_succ 1) (node_child (p := []) rfl hi),
      fun t ⟨j, ht⟩ => hone [i, j] t (Nat.le_refl 2) ht⟩) with ⟨m₁, hloop, hgives, _⟩
  have hroot : m₁.ref a = 1 := hgives.ref_one hle (hone [] a (by decide) rfl) (by simp)
  rcases paDecreaseRef_one hroot with ⟨m₂, hdec, hgives₂, _⟩
  refine ⟨m₂, ?_, hgives.append hgives₂⟩
  rw [pgdirFree_eq, hloop, Option.bind_some, hdec]

end

end Paging
end OsRiscv
