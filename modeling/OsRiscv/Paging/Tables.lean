import OsRiscv.Paging.Entries

/-!
# Tables — the tables of a set of page directories

`Shape` says that the tables below some page directories are well formed, `Tables` that moreover none of
their pages is free.  The functions are described by what they do to the entries of the last level
(`Mem.leaf`), on which `pageWalk` with `create` has no effect, and to the pages (`Grows`).
-/

namespace OsRiscv
namespace Paging

open Lib List
open Lib.Radix (Forest Reached Attach write write_self write_of_node_ne)

/-- The table behind an entry of the first two levels. -/
def child (e : Word) : Option Word := if e = 0 then none else some (pte2Pa e)

lemma child_zero : child 0 = none := rfl

lemma child_of_ne {e : Word} (h : e ≠ 0) : child e = some (pte2Pa e) := if_neg h

namespace Mem

/-- The table that a path leads to. -/
def node (m : Mem) (pgdir : Word) (path : List (Fin 512)) : Option Word := Radix.node child m.word pgdir path

/-- The entry of the last level at the end of a path, 0 without a table. -/
def leaf (m : Mem) (pgdir : Word) (path : List (Fin 512)) (i : Fin 512) : Word :=
  Radix.leaf child m.word 0 pgdir path i

/-- The pages of the tables. -/
def IsTable (m : Mem) (S : Set Word) (page : Word) : Prop := Reached child m.word S 2 page

end Mem

def pathOf (va : Word) : List (Fin 512) := [getPageTableIndex va 2, getPageTableIndex va 1]

/-- The entry of the last level for an address. -/
def Mem.entry (m : Mem) (pgdir va : Word) : Word := m.leaf pgdir (pathOf va) (getPageTableIndex va 0)

structure Shape (m : Mem) (S : Set Word) : Prop where
  entries : ∀ a ∈ S, ∀ p k, p.length < 2 → m.node a p = some k →
    ∀ i, m.word k i = 0 ∨ has (m.word k i) pteValid = true
  forest : Forest child m.word S 2

structure Tables (m : Mem) (S : Set Word) : Prop extends Shape m S where
  notFree : ∀ page, m.IsTable S page → page ∉ m.freePages
  nodup : m.freePages.Nodup
  ram : ∀ page ∈ m.freePages, isRam page = true ∧ downAlign page = page

variable {m m' m'' : Mem} {S : Set Word} {a b k va page : Word} {p q : List (Fin 512)} {i j : Fin 512}
  {ptr : Ptr} {create : Bool}

lemma Tables.isPage (h : Tables m S) (hpage : page ∈ m.freePages) : IsPage page :=
  isPage_of_isRam (h.ram page hpage).1 (h.ram page hpage).2

/-! ## Reading -/

lemma node_pair {x y : Fin 512} : m.node a [x, y] = if m.word a x = 0 then none
    else if m.word (pte2Pa (m.word a x)) y = 0 then none else some (pte2Pa (m.word (pte2Pa (m.word a x)) y)) := by
  show (child (m.word a x)).bind (fun k => (child (m.word k y)).bind some) = _
  by_cases hx : m.word a x = 0
  · rw [if_pos hx, hx, child_zero]
    rfl
  · rw [if_neg hx, child_of_ne hx]
    show (child (m.word (pte2Pa (m.word a x)) y)).bind some = _
    by_cases hy : m.word (pte2Pa (m.word a x)) y = 0
    · rw [if_pos hy, hy, child_zero]
      rfl
    · rw [if_neg hy, child_of_ne hy]
      rfl

lemma pageWalk_false :
    pageWalk m a va false = some ((m.node a (pathOf va)).map fun k => (k, getPageTableIndex va 0), m) := by
  unfold pageWalk walkLevel Mem.load pathOf
  rw [node_pair]
  by_cases hfirst : m.word a (getPageTableIndex va 2) = 0#64
  · simp [hfirst]
  · by_cases hsecond : m.word (pte2Pa (m.word a (getPageTableIndex va 2))) (getPageTableIndex va 1) = 0#64
    · simp [hfirst, hsecond]
    · simp [hfirst, hsecond]

lemma entryOf_eq : entryOf m a va = (m.node a (pathOf va)).map fun k => (k, getPageTableIndex va 0) := by
  rw [entryOf, pageWalk_false]
  rfl

lemma entry_of_node (hk : m.node a (pathOf va) = some k) : m.entry a va = m.word k (getPageTableIndex va 0) :=
  Radix.leaf_eq hk

lemma entry_of_none (hk : m.node a (pathOf va) = none) : m.entry a va = 0 := by
  unfold Mem.entry Mem.leaf Radix.leaf
  rw [show Radix.node child m.word a (pathOf va) = none from hk]

lemma load_entryOf (h : entryOf m a va = some ptr) : m.load ptr = m.entry a va := by
  rw [entryOf_eq] at h
  rcases Option.map_eq_some_iff.1 h with ⟨k, hk, rfl⟩
  exact (entry_of_node hk).symm

lemma pageLookup_eq : pageLookup m a va = if has (m.entry a va) pteValid then
      (m.node a (pathOf va)).map fun k => (pte2Pa (m.entry a va), (k, getPageTableIndex va 0))
    else none := by
  unfold pageLookup
  rw [entryOf_eq]
  cases hk : m.node a (pathOf va) with
  | none =>
    rw [entry_of_none hk]
    rfl
  | some k =>
    rw [entry_of_node hk]
    rfl

lemma exists_node_of_valid (h : has (m.entry a va) pteValid = true) : ∃ k, m.node a (pathOf va) = some k := by
  cases hk : m.node a (pathOf va) with
  | none =>
    rw [entry_of_none hk] at h
    cases h
  | some k => exact ⟨k, rfl⟩

/-- What a caller of `pageLookup` learns: the page and its permissions. -/
def mapping (m : Mem) (pgdir va : Word) : Option (Word × Word) :=
  (pageLookup m pgdir va).map fun found => (found.1, pte2Perm (m.load found.2))

lemma mapping_eq : mapping m a va =
    if has (m.entry a va) pteValid then some (pte2Pa (m.entry a va), pte2Perm (m.entry a va)) else none := by
  unfold mapping
  rw [pageLookup_eq]
  by_cases hvalid : has (m.entry a va) pteValid = true
  · rcases exists_node_of_valid hvalid with ⟨k, hk⟩
    rw [if_pos hvalid, if_pos hvalid, hk]
    show some (pte2Pa (m.entry a va), pte2Perm (m.word k (getPageTableIndex va 0))) = _
    rw [← entry_of_node hk]
  · rw [if_neg hvalid, if_neg hvalid]
    rfl

/-! ## Storing an entry of the last level -/

section

variable (hs : Shape m S) (ha : a ∈ S) (hp : p.length = 2) (hk : m.node a p = some k)
include hs ha hp hk

lemma node_store (hb : b ∈ S) (hq : q.length ≤ 2) (e : Word) : (m.store (k, i) e).node b q = m.node b q :=
  Radix.node_write_leaf hs.forest ha hb hp hq hk

lemma leaf_store (hb : b ∈ S) (hq : q.length = 2) (e : Word) :
    (m.store (k, i) e).leaf b q j = if b = a ∧ q = p ∧ j = i then e else m.leaf b q j :=
  Radix.leaf_write hs.forest ha hb hp hq hk

lemma isTable_store (e : Word) : (m.store (k, i) e).IsTable S page ↔ m.IsTable S page := by
  constructor
  · rintro ⟨b, hb, q, hq, hbq⟩
    exact ⟨b, hb, q, hq, (node_store hs ha hp hk hb hq e).symm.trans hbq⟩
  · rintro ⟨b, hb, q, hq, hbq⟩
    exact ⟨b, hb, q, hq, (node_store hs ha hp hk hb hq e).trans hbq⟩

lemma Shape.store (e : Word) : Shape (m.store (k, i) e) S := by
  refine ⟨?_, hs.forest.write_leaf ha hp hk⟩
  intro b hb q k' hq hbq j
  rw [node_store hs ha hp hk hb (Nat.le_of_lt hq)] at hbq
  have hne : k' ≠ k := hs.forest.ne_of_length_lt hb ha (Nat.le_of_eq hp) (hp ▸ hq) hbq hk
  show write m.word k i e k' j = 0 ∨ has (write m.word k i e k' j) pteValid = true
  rw [write_of_node_ne hne]
  exact hs.entries b hb q k' hq hbq j

end

/-! ## Creating tables -/

/-- Tables were added: `fs` are the pages taken for them. -/
structure Grows (S : Set Word) (fs : List Word) (m m' : Mem) : Prop where
  leaves : ∀ b ∈ S, ∀ q : List (Fin 512), q.length = 2 → ∀ j, m'.leaf b q j = m.leaf b q j
  pages : m.freePages = fs ++ m'.freePages
  tables : ∀ page, m'.IsTable S page ↔ m.IsTable S page ∨ page ∈ fs
  ref : ∀ page, m'.ref page = m.ref page + BitVec.ofNat 32 (fs.count page)

namespace Grows

lemma refl : Grows S [] m m where
  leaves := fun _ _ _ _ _ => rfl
  pages := rfl
  tables := fun _ => by simp
  ref := fun _ => by simp

lemma trans {fs fs' : List Word} (h : Grows S fs m m') (h' : Grows S fs' m' m'') : Grows S (fs ++ fs') m m'' where
  leaves := fun b hb q hq j => (h'.leaves b hb q hq j).trans (h.leaves b hb q hq j)
  pages := by rw [h.pages, h'.pages, append_assoc]
  tables := fun page => by
    rw [h'.tables, h.tables, mem_append]
    exact or_assoc
  ref := fun page => by
    rw [h'.ref, h.ref, count_append, BitVec.ofNat_add, BitVec.add_assoc]

end Grows

lemma pageAlloc_spec (halloc : pageAlloc m = some (page, m')) :
    m.freePages = page :: m'.freePages ∧ m'.ref = m.ref ∧
      m'.word = Function.update m.word page fun _ => 0 := by
  unfold pageAlloc at halloc
  cases hfree : m.freePages with
  | nil =>
    rw [hfree] at halloc
    cases halloc
  | cons f rest =>
    rw [hfree] at halloc
    cases halloc
    exact ⟨rfl, rfl, rfl⟩

lemma child_new (hpage : IsPage page) : child (pa2Pte page ||| pteValid) = some page := by
  rw [child_of_ne (ne_zero_of_valid (has_valid_or _)), pte2Pa_entry hpage isPerm_valid]

/-- A free page `page` is taken, and is to be hung in at the entry `i` of the table `k`; `u` is the memory after
`pageAlloc`. -/
structure Fresh (m u : Mem) (S : Set Word) (a : Word) (p : List (Fin 512)) (k : Word) (i : Fin 512)
    (page : Word) : Prop where
  tables : Tables m S
  pages : m.freePages = page :: u.freePages
  ref : u.ref = m.ref
  word : u.word = Function.update m.word page fun _ => 0
  root : a ∈ S
  depth : p.length < 2
  parent : m.node a p = some k
  missing : m.word k i = 0

/-- The statements of `pageWalk` after `pageAlloc`. -/
def hangIn (u : Mem) (k : Word) (i : Fin 512) (page : Word) : Mem :=
  (u.store (k, i) (pa2Pte page ||| pteValid)).setRef page (u.ref page + 1)

namespace Fresh

variable {u : Mem} (h : Fresh m u S a p k i page)
include h

lemma mem : page ∈ m.freePages := by
  rw [h.pages]
  exact mem_cons_self ..

lemma nodup : (page :: u.freePages).Nodup := h.pages ▸ h.tables.nodup

lemma not_isTable : ¬m.IsTable S page := fun ht => h.tables.notFree page ht h.mem

lemma agree {x : Word} (hx : m.IsTable S x) : u.word x = m.word x := by
  rw [h.word]
  refine Function.update_of_ne ?_ _ _
  rintro rfl
  exact h.not_isTable hx

lemma empty (j : Fin 512) : u.word page j = 0 := by
  rw [h.word, Function.update_self]

lemma node_eq (hb : b ∈ S) (hq : q.length ≤ 2) : Radix.node child u.word b q = m.node b q :=
  Radix.node_of_agree (fun _ hx => h.agree hx) hb hq

lemma isTable_parent : m.IsTable S k := ⟨a, h.root, p, Nat.le_of_lt h.depth, h.parent⟩

lemma attach : Attach child u.word S 2 a p k i (pa2Pte page ||| pteValid) page where
  forest := h.tables.forest.of_agree fun _ hx => h.agree hx
  root := h.root
  depth := h.depth
  parent := (h.node_eq h.root (Nat.le_of_lt h.depth)).trans h.parent
  missing := by
    rw [h.agree h.isTable_parent, h.missing]
    exact child_zero
  entry := child_new (h.tables.isPage h.mem)
  fresh := by
    rintro ⟨b, hb, q, hq, hbq⟩
    exact h.not_isTable ⟨b, hb, q, hq, (h.node_eq hb hq).symm.trans hbq⟩
  empty := fun j => by
    rw [h.empty]
    exact child_zero

lemma isTable_hangIn {x : Word} : (hangIn u k i page).IsTable S x ↔ m.IsTable S x ∨ x = page := by
  have hold : Reached child u.word S 2 x ↔ m.IsTable S x := by
    constructor
    · rintro ⟨b, hb, q, hq, hbq⟩
      exact ⟨b, hb, q, hq, (h.node_eq hb hq).symm.trans hbq⟩
    · rintro ⟨b, hb, q, hq, hbq⟩
      exact ⟨b, hb, q, hq, (h.node_eq hb hq).trans hbq⟩
  rw [← hold]
  exact h.attach.reached_attach

lemma node_hangIn (hb : b ∈ S) (hq : q.length ≤ 2) :
    (hangIn u k i page).node b q = if b = a ∧ q = p ++ [i] then some page else m.node b q := by
  rw [← h.node_eq hb hq]
  exact h.attach.node_attach hb hq

lemma entries_hangIn (hb : b ∈ S) (hq : q.length < 2) {k' : Word} (hbq : (hangIn u k i page).node b q = some k')
    (j : Fin 512) : (hangIn u k i page).word k' j = 0 ∨ has ((hangIn u k i page).word k' j) pteValid = true := by
  show write u.word k i (pa2Pte page ||| pteValid) k' j = 0 ∨
    has (write u.word k i (pa2Pte page ||| pteValid) k' j) pteValid = true
  by_cases hhere : k' = k ∧ j = i
  · rcases hhere with ⟨rfl, rfl⟩
    rw [write_self]
    exact .inr (has_valid_or _)
  · rw [Radix.write_of_ne hhere]
    rw [h.node_hangIn hb (Nat.le_of_lt hq)] at hbq
    by_cases hself : b = a ∧ q = p ++ [i]
    · rw [if_pos hself] at hbq
      cases hbq
      exact .inl (h.empty j)
    · rw [if_neg hself] at hbq
      rw [h.agree ⟨b, hb, q, Nat.le_of_lt hq, hbq⟩]
      exact h.tables.entries b hb q k' hq hbq j

lemma tables_hangIn : Tables (hangIn u k i page) S where
  entries := fun b hb q k' hq hbq j => h.entries_hangIn hb hq hbq j
  forest := h.attach.forest_attach
  notFree := fun x hx hfree => by
    rcases h.isTable_hangIn.1 hx with hold | rfl
    · refine h.tables.notFree x hold ?_
      rw [h.pages]
      exact mem_cons_of_mem _ hfree
    · exact (nodup_cons.1 h.nodup).1 hfree
  nodup := (nodup_cons.1 h.nodup).2
  ram := fun x hx => by
    refine h.tables.ram x ?_
    rw [h.pages]
    exact mem_cons_of_mem _ hx

lemma ref_hangIn (x : Word) : (hangIn u k i page).ref x = m.ref x + BitVec.ofNat 32 ([page].count x) := by
  show Function.update u.ref page (u.ref page + 1) x = _
  rw [h.ref]
  by_cases hx : x = page
  · subst hx
    simp
  · rw [Function.update_of_ne hx, count_eq_zero_of_not_mem (by simpa using hx)]
    simp

lemma grows_hangIn : Grows S [page] m (hangIn u k i page) where
  leaves := fun b hb q hq j =>
    (h.attach.leaf_attach h.empty hb hq).trans
      (Radix.leaf_of_agree (fun _ hx => h.agree hx) hb (Nat.le_of_eq hq))
  pages := h.pages
  tables := fun x => by
    rw [mem_singleton]
    exact h.isTable_hangIn
  ref := h.ref_hangIn

end Fresh

/-- One level of `pageWalk` with `create`. -/
theorem walkLevel_true (ht : Tables m S) (ha : a ∈ S) (hp : p.length < 2) (hk : m.node a p = some k)
    {r : Option Word} (hwalk : walkLevel m (k, i) true = some (r, m')) :
    ∃ k' fs, r = some k' ∧ m'.node a (p ++ [i]) = some k' ∧ Tables m' S ∧ Grows S fs m m' := by
  unfold walkLevel at hwalk
  by_cases hzero : m.load (k, i) = 0
  · rw [if_pos hzero, if_pos rfl] at hwalk
    rcases Option.bind_eq_some_iff.1 hwalk with ⟨⟨page, u⟩, halloc, hret⟩
    rcases Prod.mk.inj (Option.some.inj hret) with ⟨hr, rfl⟩
    rcases pageAlloc_spec halloc with ⟨hfree, href, hword⟩
    have hfresh : Fresh m u S a p k i page := ⟨ht, hfree, href, hword, ha, hp, hk, hzero⟩
    refine ⟨page, [page], ?_, hfresh.attach.node_self, hfresh.tables_hangIn, hfresh.grows_hangIn⟩
    rw [← hr]
    show some (pte2Pa (write u.word k i (pa2Pte page ||| pteValid) k i)) = some page
    rw [write_self, pte2Pa_entry (ht.isPage hfresh.mem) isPerm_valid]
  · rw [if_neg hzero] at hwalk
    cases hwalk
    refine ⟨_, [], rfl, ?_, ht, Grows.refl⟩
    show Radix.node child m.word a (p ++ [i]) = _
    rw [Radix.node_snoc hk]
    exact child_of_ne hzero

lemma pageWalk_true (ht : Tables m S) (ha : a ∈ S) {r : Option Ptr} (hwalk : pageWalk m a va true = some (r, m')) :
    ∃ k fs, r = some (k, getPageTableIndex va 0) ∧ m'.node a (pathOf va) = some k ∧ Tables m' S ∧
      Grows S fs m m' := by
  rcases Option.bind_eq_some_iff.1 hwalk with ⟨⟨r₁, m₁⟩, hfirst, hrest⟩
  rcases walkLevel_true (p := []) ht ha (by decide) rfl hfirst with ⟨k₁, fs₁, rfl, hnode₁, ht₁, hgrows₁⟩
  rcases Option.bind_eq_some_iff.1 hrest with ⟨⟨r₂, m₂⟩, hsecond, hret⟩
  rcases walkLevel_true ht₁ ha (by simp) hnode₁ hsecond with ⟨k₂, fs₂, rfl, hnode₂, ht₂, hgrows₂⟩
  cases hret
  exact ⟨k₂, fs₁ ++ fs₂, rfl, hnode₂, ht₂, hgrows₁.trans hgrows₂⟩

/-- Where the tables are there, `pageWalk` changes nothing. -/
theorem pageWalk_present (hk : m.node a (pathOf va) = some k) :
    pageWalk m a va create = some (some (k, getPageTableIndex va 0), m) := by
  have hlevel : ∀ ptr : Ptr, m.load ptr ≠ 0 → walkLevel m ptr create = some (some (pte2Pa (m.load ptr)), m) := by
    intro ptr hne
    unfold walkLevel
    rw [if_neg hne]
    rfl
  unfold pathOf at hk
  rw [node_pair] at hk
  split at hk
  · cases hk
  · rename_i hx
    split at hk
    · cases hk
    · rename_i hy
      cases hk
      unfold pageWalk
      rw [hlevel (a, getPageTableIndex va 2) hx]
      show (walkLevel m _ create).bind _ = _
      rw [hlevel (pte2Pa (m.load (a, getPageTableIndex va 2)), getPageTableIndex va 1) hy]
      rfl

end Paging
end OsRiscv
