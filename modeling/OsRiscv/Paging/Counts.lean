import Mathlib.Algebra.BigOperators.Fin
import OsRiscv.Lib.Occurrences
import OsRiscv.Paging.Teardown

/-!
# Counts — how often the tables hold a page

`mappings` counts the leaf entries for a page of RAM in the tables of some page directories.  What `pgdirFree`
releases is counted against it: each table once, and each page of RAM once for each of its leaf entries.
-/

namespace OsRiscv
namespace Paging

open Lib List

variable {m m' : Mem} {S : Set Word} {L : Finset Word} {a k va page : Word} {i j : Fin 512}

/-- A place for a leaf entry: page directory, indices in the three levels. -/
abbrev Slot := Word × Fin 512 × Fin 512 × Fin 512

/-- The page of RAM that the leaf entry at a place maps. -/
def slot (m : Mem) (x : Slot) : Option Word := ramPage (m.leaf x.1 [x.2.1, x.2.2.1] x.2.2.2)

def slots (L : Finset Word) : Finset Slot := L ×ˢ Finset.univ

lemma mem_slots {x : Slot} : x ∈ slots L ↔ x.1 ∈ L := by
  unfold slots
  simp only [Finset.mem_product, Finset.mem_univ, and_true]

def mappings (m : Mem) (L : Finset Word) (page : Word) : Nat := occ (slots L) (slot m) page

lemma ramPage_zero : ramPage 0 = none := rfl

/-! ## Setting an entry -/

def slotOf (a va : Word) : Slot := (a, getPageTableIndex va 2, getPageTableIndex va 1, getPageTableIndex va 0)

lemma slot_slotOf : slot m (slotOf a va) = ramPage (m.entry a va) := rfl

lemma mappings_congr (h : ∀ b ∈ L, ∀ q : List (Fin 512), q.length = 2 → ∀ j, m'.leaf b q j = m.leaf b q j) :
    mappings m' L page = mappings m L page := by
  refine congrArg Finset.card (Finset.filter_congr ?_)
  intro x hx
  unfold slot
  rw [h x.1 (mem_slots.1 hx) _ rfl]

lemma mappings_sets {e : Word} (h : Sets (L : Set Word) a va e m m') (ha : a ∈ L) (page : Word) :
    mappings m' L page + (if ramPage (m.entry a va) = some page then 1 else 0) =
      mappings m L page + if ramPage e = some page then 1 else 0 := by
  have hupdate : mappings m' L page =
      occ (slots L) (Function.update (slot m) (slotOf a va) (ramPage e)) page := by
    refine congrArg Finset.card (Finset.filter_congr ?_)
    intro x hx
    unfold slot
    rw [h x.1 (mem_slots.1 hx) _ rfl]
    by_cases hslot : x = slotOf a va
    · subst hslot
      rw [if_pos ⟨rfl, rfl, rfl⟩, Function.update_self]
    · rw [Function.update_of_ne hslot, if_neg]
      rintro ⟨hroot, hpath, hlast⟩
      have hpath' := cons_eq_cons.1 hpath
      exact hslot (Prod.ext hroot (Prod.ext hpath'.1 (Prod.ext (cons_eq_cons.1 hpath'.2).1 hlast)))
  rw [hupdate, mappings, ← slot_slotOf]
  exact occ_update (mem_slots.2 ha) (ramPage e)

/-! ## The tables of one directory, as lists -/

/-- The tables behind the entries of a table. -/
def childrenOf (m : Mem) (k : Word) : List Word := (List.finRange 512).flatMap fun j => (child (m.word k j)).toList

/-- The tables below an entry of a page directory. -/
def tablesBelow (m : Mem) (pgdir : Word) (i : Fin 512) : List Word :=
  (child (m.word pgdir i)).toList.flatMap fun k => k :: childrenOf m k

def tablePages (m : Mem) (pgdir : Word) : List Word := pgdir :: (List.finRange 512).flatMap (tablesBelow m pgdir)

lemma mem_childrenOf : page ∈ childrenOf m k ↔ ∃ j, m.node k [j] = some page := by
  have hnode : ∀ j, m.node k [j] = child (m.word k j) := fun j => Radix.node_snoc (p := []) rfl
  unfold childrenOf
  simp [hnode]

lemma mem_tablesBelow : page ∈ tablesBelow m a i ↔ ∃ p, p.length ≤ 1 ∧ m.node a (i :: p) = some page := by
  have hcons : ∀ p, m.node a (i :: p) = (child (m.word a i)).bind fun k => m.node k p := fun _ => rfl
  unfold tablesBelow
  cases hchild : child (m.word a i) with
  | none => simp [hcons, hchild]
  | some k =>
    simp only [hcons, hchild, Option.toList_some, flatMap_cons, flatMap_nil, append_nil,
      mem_cons, mem_childrenOf, Option.bind_some]
    constructor
    · rintro (rfl | ⟨j, hj⟩)
      · exact ⟨[], Nat.zero_le 1, rfl⟩
      · exact ⟨[j], Nat.le_refl 1, hj⟩
    · rintro ⟨p, hp, hnode⟩
      match p, hp, hnode with
      | [], _, hnode => exact .inl (Option.some.inj hnode).symm
      | [j], _, hnode => exact .inr ⟨j, hnode⟩

lemma mem_tablePages : page ∈ tablePages m a ↔ m.IsTable {a} page := by
  unfold tablePages
  rw [mem_cons, mem_flatMap]
  constructor
  · rintro (rfl | ⟨i, _, hin⟩)
    · exact ⟨page, rfl, [], Nat.zero_le 2, rfl⟩
    · rcases mem_tablesBelow.1 hin with ⟨p, hp, hnode⟩
      exact ⟨a, rfl, i :: p, Nat.succ_le_succ hp, hnode⟩
  · rintro ⟨b, rfl, p, hp, hnode⟩
    cases p with
    | nil => exact .inl (Option.some.inj hnode).symm
    | cons i p => exact .inr ⟨i, mem_finRange i, mem_tablesBelow.2 ⟨p, Nat.le_of_succ_le_succ hp, hnode⟩⟩

/-- No table is reached in two ways. -/
theorem tablePages_nodup (hs : Shape m S) (ha : a ∈ S) : (tablePages m a).Nodup := by
  have hpaths : ∀ p q x, p.length ≤ 2 → q.length ≤ 2 → m.node a p = some x → m.node a q = some x → p = q :=
    fun p q x hp hq hpa hqa => (hs.forest a ha a ha p q x hp hq hpa hqa).2
  refine nodup_cons.2 ⟨?_, nodup_flatMap.2 ⟨?_, ?_⟩⟩
  · intro hin
    rcases mem_flatMap.1 hin with ⟨i, _, hin⟩
    rcases mem_tablesBelow.1 hin with ⟨p, hp, hnode⟩
    exact absurd (hpaths [] (i :: p) a (Nat.zero_le 2) (Nat.succ_le_succ hp) rfl hnode) (cons_ne_nil i p).symm
  · intro i _
    unfold tablesBelow
    cases hchild : child (m.word a i) with
    | none => exact nodup_nil
    | some k =>
      have hk : m.node a [i] = some k := (Radix.node_snoc (p := []) rfl).trans hchild
      have hbelow : ∀ j x, child (m.word k j) = some x → m.node a [i, j] = some x :=
        fun j x hx => (Radix.node_snoc hk).trans hx
      rw [Option.toList_some, flatMap_cons, flatMap_nil, append_nil]
      refine nodup_cons.2 ⟨?_, nodup_flatMap.2 ⟨?_, ?_⟩⟩
      · intro hin
        rcases mem_childrenOf.1 hin with ⟨j, hj⟩
        have hj' := hbelow j k ((Radix.node_snoc (p := []) rfl).symm.trans hj)
        have := hpaths [i] [i, j] k (Nat.le_succ 1) (Nat.le_refl 2) hk hj'
        cases this
      · intro j _
        cases child (m.word k j) with
        | none => exact nodup_nil
        | some x => exact nodup_singleton x
      · refine (nodup_finRange 512).imp ?_
        intro j j' hne x hx hx'
        rw [Option.mem_toList] at hx hx'
        have := hpaths [i, j] [i, j'] x (Nat.le_refl 2) (Nat.le_refl 2) (hbelow j x hx) (hbelow j' x hx')
        simp only [List.cons.injEq, and_true, true_and] at this
        exact hne this
  · refine (nodup_finRange 512).imp ?_
    intro i i' hne x hx hx'
    rcases mem_tablesBelow.1 hx with ⟨p, hp, hnode⟩
    rcases mem_tablesBelow.1 hx' with ⟨p', hp', hnode'⟩
    have := hpaths (i :: p) (i' :: p') x (Nat.succ_le_succ hp) (Nat.succ_le_succ hp') hnode hnode'
    exact hne (cons_eq_cons.1 this).1

/-! ## The leaf entries of one directory -/

/-- The pages of RAM that the leaves below a table map. -/
def leavesBelow (m : Mem) (k : Word) : List Word :=
  (List.finRange 512).flatMap fun j => (child (m.word k j)).toList.flatMap fun k' =>
    leafReleases m k' (List.finRange 512)

def leafPages (m : Mem) (pgdir : Word) : List Word :=
  (List.finRange 512).flatMap fun i => (child (m.word pgdir i)).toList.flatMap (leavesBelow m)

lemma leafReleases_count {ks : List (Fin 512)} : (leafReleases m k ks).count page =
    (ks.map fun l => if ramPage (m.word k l) = some page then 1 else 0).sum := by
  induction ks with
  | nil => rfl
  | cons l ks ih =>
    rw [map_cons, sum_cons, ← ih]
    cases hpage : ramPage (m.word k l) with
    | none => rw [leafReleases_none hpage, if_neg (by simp), Nat.zero_add]
    | some x =>
      rw [leafReleases_some hpage, count_cons, Nat.add_comm]
      simp

lemma leaf_of_missing (hmissing : m.node a [i, j] = none) (l : Fin 512) : ramPage (m.leaf a [i, j] l) = none := by
  rw [Mem.leaf, Radix.leaf]
  rw [Mem.node] at hmissing
  rw [hmissing]
  exact ramPage_zero

lemma leavesBelow_count (hk : m.node a [i] = some k) : (leavesBelow m k).count page =
    ∑ j, ∑ l, if ramPage (m.leaf a [i, j] l) = some page then 1 else 0 := by
  rw [Fin.sum_univ_def, leavesBelow, count_flatMap]
  refine congrArg List.sum (map_congr_left ?_)
  intro j _
  have hnode : m.node a [i, j] = child (m.word k j) := Radix.node_snoc hk
  show List.count page ((child (m.word k j)).toList.flatMap _) = _
  cases hchild : child (m.word k j) with
  | none =>
    have hnone := leaf_of_missing (hnode.trans hchild)
    simp [hnone]
  | some k' =>
    have hleaf : ∀ l, m.leaf a [i, j] l = m.word k' l := fun l => Radix.leaf_eq (hnode.trans hchild)
    simp only [hleaf]
    rw [Option.toList_some, flatMap_singleton, leafReleases_count, Fin.sum_univ_def]

lemma leafPages_count : (leafPages m a).count page = mappings m {a} page := by
  have hsum : mappings m {a} page =
      ∑ i, ∑ j, ∑ l, if ramPage (m.leaf a [i, j] l) = some page then 1 else 0 := by
    unfold mappings occ slots
    rw [Finset.card_filter, Finset.sum_product, Finset.sum_singleton, Fintype.sum_prod_type]
    refine Finset.sum_congr rfl ?_
    intro i _
    rw [Fintype.sum_prod_type]
    rfl
  rw [hsum, Fin.sum_univ_def, leafPages, count_flatMap]
  refine congrArg List.sum (map_congr_left ?_)
  intro i _
  have hnode : m.node a [i] = child (m.word a i) := Radix.node_snoc (p := []) rfl
  show List.count page ((child (m.word a i)).toList.flatMap _) = _
  cases hchild : child (m.word a i) with
  | none =>
    have hnone : ∀ j l, ramPage (m.leaf a [i, j] l) = none := by
      intro j l
      refine leaf_of_missing ?_ l
      show (child (m.word a i)).bind _ = none
      rw [hchild]
      rfl
    simp [hnone]
  | some k =>
    rw [Option.toList_some, flatMap_singleton]
    exact leavesBelow_count (hnode.trans hchild)

/-! ## What is released -/

lemma count_flatMap_add {l : List (Fin 512)} {f g h : Fin 512 → List Word}
    (hparts : ∀ x, (f x).count page = (g x).count page + (h x).count page) :
    (l.flatMap f).count page = (l.flatMap g).count page + (l.flatMap h).count page := by
  induction l with
  | nil => rfl
  | cons x l ih =>
    rw [flatMap_cons, flatMap_cons, flatMap_cons, count_append, count_append,
      count_append, hparts, ih]
    omega

lemma child_of_valid (hvalid : has (m.word k i) pteValid = true) :
    child (m.word k i) = some (pte2Pa (m.word k i)) :=
  child_of_ne (ne_zero_of_valid hvalid)

lemma child_of_invalid (hs : Shape m S) (ha : a ∈ S) {p : List (Fin 512)} (hp : p.length < 2)
    (hk : m.node a p = some k) (hvalid : ¬has (m.word k i) pteValid = true) : child (m.word k i) = none := by
  have hzero : m.word k i = 0 := by
    by_contra hne
    exact hvalid ((hs.valid_iff ha hp hk i).2 hne)
  rw [hzero]
  exact child_zero

section

variable (hs : Shape m S) (ha : a ∈ S)
include hs ha

lemma tableReleases_count (hk : m.node a [i] = some k) (page : Word) :
    (tableReleases m k).count page = (childrenOf m k).count page + (leavesBelow m k).count page := by
  refine count_flatMap_add ?_
  intro j
  unfold levelReleases
  split
  · rename_i hvalid
    rw [child_of_valid hvalid, Option.toList_some, flatMap_singleton, count_append, Nat.add_comm]
  · rename_i hvalid
    rw [child_of_invalid hs ha (show [i].length < 2 from Nat.lt_succ_self 1) hk hvalid]
    rfl

lemma releases_count (page : Word) :
    (releases m a).count page = (tablePages m a).count page + mappings m {a} page := by
  have hparts : ((finRange 512).flatMap (levelReleases m a fun i =>
      tableReleases m (pte2Pa (m.word a i)))).count page =
      ((finRange 512).flatMap (tablesBelow m a)).count page + (leafPages m a).count page := by
    refine count_flatMap_add ?_
    intro i
    unfold levelReleases tablesBelow
    split
    · rename_i hvalid
      have hk : m.node a [i] = some (pte2Pa (m.word a i)) := node_child (p := []) rfl hvalid
      rw [child_of_valid hvalid, Option.toList_some, flatMap_singleton, flatMap_singleton,
        count_append, tableReleases_count hs ha hk]
      simp only [count_cons, count_nil]
      omega
    · rename_i hvalid
      rw [child_of_invalid hs ha (show ([] : List (Fin 512)).length < 2 from Nat.zero_lt_two) rfl hvalid]
      rfl
  rw [← leafPages_count, releases, tablePages, count_append, hparts]
  simp only [count_cons, count_nil]
  omega

end

end Paging
end OsRiscv
