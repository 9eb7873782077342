import OsRiscv.Paging.Tables

/-!
# Map — a page table is a map from pages to entries

`pageInsert` sets the entry of one page, `pageRemove` clears the entry of one page, whatever tables have to be
created on the way.  When `pageInsert` replaces a mapping, `pageRemove` may free a page before the tables are
walked again; but then the tables are all there and no page is taken.
-/

namespace OsRiscv
namespace Paging

open Lib List
open Lib.Radix (Forest)

variable {m m' : Mem} {S : Set Word} {a b k va va' pa perm page : Word} {q : List (Fin 512)} {j : Fin 512}

/-- The entry `e` is set for the page of `va` in the table `a`; nothing else changes for any table. -/
def Sets (S : Set Word) (a va e : Word) (m m' : Mem) : Prop :=
  ∀ b ∈ S, ∀ q : List (Fin 512), q.length = 2 → ∀ j,
    m'.leaf b q j = if b = a ∧ q = pathOf va ∧ j = getPageTableIndex va 0 then e else m.leaf b q j

lemma Sets.entry {e : Word} (h : Sets S a va e m m') (ha : a ∈ S) : m'.entry a va = e := by
  unfold Mem.entry
  rw [h a ha (pathOf va) rfl, if_pos ⟨rfl, rfl, rfl⟩]

lemma Sets.entry_of_ne {e : Word} (h : Sets S a va e m m') (ha : a ∈ S) (hva : va.toNat < 2 ^ 39)
    (hva' : va'.toNat < 2 ^ 39) (hne : pageOf va' ≠ pageOf va) : m'.entry a va' = m.entry a va' := by
  unfold Mem.entry
  rw [h a ha (pathOf va') rfl, if_neg]
  rintro ⟨_, hpath, hindex⟩
  have hlevels := (cons_eq_cons.1 hpath)
  exact hne ((pageOf_eq_iff hva hva').2 ⟨hlevels.1, (cons_eq_cons.1 hlevels.2).1, hindex⟩)

/-! ## `pageRemove` -/

/-- The reference that `pageRemove` gives up. -/
def release (m : Mem) (page : Word) : Mem := pageFree (m.setRef page (m.ref page - 1)) page

lemma release_word : (release m page).word = m.word := by
  unfold release pageFree
  split
  · rfl
  · rfl

lemma pageRemove_ram (hvalid : has (m.entry a va) pteValid = true)
    (hram : isRam (pte2Pa (m.entry a va)) = true) (hk : m.node a (pathOf va) = some k) :
    pageRemove m a va = (0, (release m (pte2Pa (m.entry a va))).store (k, getPageTableIndex va 0) 0) := by
  unfold pageRemove
  rw [pageLookup_eq, if_pos hvalid, hk]
  show (if isRam (pte2Pa (m.entry a va)) then _ else _) = _
  rw [if_pos hram]
  rfl

lemma pageRemove_other (hother : has (m.entry a va) pteValid = false ∨ isRam (pte2Pa (m.entry a va)) = false) :
    pageRemove m a va = (-1, m) := by
  unfold pageRemove
  rw [pageLookup_eq]
  by_cases hvalid : has (m.entry a va) pteValid = true
  · rcases exists_node_of_valid hvalid with ⟨k, hk⟩
    rw [if_pos hvalid, hk]
    show (if isRam (pte2Pa (m.entry a va)) then _ else _) = _
    rcases hother with h | h
    · rw [h] at hvalid
      cases hvalid
    · rw [h]
      rfl
  · rw [if_neg hvalid]

lemma Shape.of_word (hs : Shape m S) (hword : m'.word = m.word) : Shape m' S := by
  refine ⟨?_, ?_⟩
  · intro b hb q k' hq hbq i
    rw [Mem.node, hword] at hbq
    rw [hword]
    exact hs.entries b hb q k' hq hbq i
  · rw [hword]
    exact hs.forest

lemma node_of_word (hword : m'.word = m.word) : m'.node a q = m.node a q := by
  rw [Mem.node, Mem.node, hword]

lemma leaf_of_word (hword : m'.word = m.word) : m'.leaf a q j = m.leaf a q j := by
  rw [Mem.leaf, Mem.leaf, hword]

lemma pageRemove_sets (hs : Shape m S) (ha : a ∈ S) (hvalid : has (m.entry a va) pteValid = true)
    (hram : isRam (pte2Pa (m.entry a va)) = true) : Sets S a va 0 m (pageRemove m a va).2 := by
  rcases exists_node_of_valid hvalid with ⟨k, hk⟩
  rw [pageRemove_ram hvalid hram hk]
  have hs' : Shape (release m (pte2Pa (m.entry a va))) S := hs.of_word release_word
  have hk' : (release m (pte2Pa (m.entry a va))).node a (pathOf va) = some k :=
    (node_of_word release_word).trans hk
  intro b hb q hq j
  rw [leaf_store hs' ha rfl hk' hb hq, leaf_of_word release_word]

lemma pageRemove_shape (hs : Shape m S) (ha : a ∈ S) : Shape (pageRemove m a va).2 S := by
  by_cases hvalid : has (m.entry a va) pteValid = true
  · by_cases hram : isRam (pte2Pa (m.entry a va)) = true
    · rcases exists_node_of_valid hvalid with ⟨k, hk⟩
      rw [pageRemove_ram hvalid hram hk]
      exact (hs.of_word release_word).store ha rfl ((node_of_word release_word).trans hk) 0
    · rw [pageRemove_other (.inr (by simpa using hram))]
      exact hs
  · rw [pageRemove_other (.inl (by simpa using hvalid))]
    exact hs

lemma pageRemove_node (hs : Shape m S) (ha : a ∈ S) (hb : b ∈ S) (hq : q.length ≤ 2) :
    (pageRemove m a va).2.node b q = m.node b q := by
  by_cases hvalid : has (m.entry a va) pteValid = true
  · by_cases hram : isRam (pte2Pa (m.entry a va)) = true
    · rcases exists_node_of_valid hvalid with ⟨k, hk⟩
      rw [pageRemove_ram hvalid hram hk]
      have hk' : (release m (pte2Pa (m.entry a va))).node a (pathOf va) = some k :=
        (node_of_word release_word).trans hk
      rw [node_store (hs.of_word release_word) ha rfl hk' hb hq, node_of_word release_word]
    · rw [pageRemove_other (.inr (by simpa using hram))]
  · rw [pageRemove_other (.inl (by simpa using hvalid))]

/-! ## `pageInsert` -/

/-- The entry that `pageInsert` stores. -/
def newEntry (pa perm : Word) : Word := pa2Pte (downAlign pa) ||| (perm ||| pteAccessed ||| pteDirty) ||| pteValid

lemma entry_downAlign : m.entry a (downAlign va) = m.entry a va := by
  unfold Mem.entry pathOf
  rw [getPageTableIndex_downAlign, getPageTableIndex_downAlign, getPageTableIndex_downAlign]

lemma pathOf_downAlign : pathOf (downAlign va) = pathOf va := by
  unfold pathOf
  rw [getPageTableIndex_downAlign, getPageTableIndex_downAlign]

/-- The memory in which `pageInsert` walks the second time. -/
def cleared (m : Mem) (a va : Word) : Mem :=
  if has (m.entry a va) pteValid then (pageRemove m a (downAlign va)).2 else m

lemma cleared_shape (hs : Shape m S) (ha : a ∈ S) : Shape (cleared m a va) S := by
  unfold cleared
  split
  · exact pageRemove_shape hs ha
  · exact hs

lemma cleared_node (hs : Shape m S) (ha : a ∈ S) (hb : b ∈ S) (hq : q.length ≤ 2) :
    (cleared m a va).node b q = m.node b q := by
  unfold cleared
  split
  · exact pageRemove_node hs ha hb hq
  · rfl

lemma dropMapping_downAlign : dropMapping m a (downAlign va) = cleared m a va := by
  unfold dropMapping cleared
  cases hentry : entryOf m a (downAlign va) with
  | none =>
    rw [entryOf_eq, Option.map_eq_none_iff, pathOf_downAlign] at hentry
    rw [entry_of_none hentry]
    rfl
  | some pte =>
    dsimp only
    rw [load_entryOf hentry, entry_downAlign]

/-- The last statements of `pageInsert`. -/
def setEntry (m : Mem) (pte : Ptr) (pa perm : Word) : Mem :=
  let m := m.store pte (newEntry pa perm)
  if isRam (downAlign pa) then m.setRef (downAlign pa) (m.ref (downAlign pa) + 1) else m

lemma setEntry_word {pte : Ptr} : (setEntry m pte pa perm).word = (m.store pte (newEntry pa perm)).word := by
  unfold setEntry
  split
  · rfl
  · rfl

/-- `pageInsert` clears the old mapping, walks the tables and sets the entry. -/
theorem pageInsert_eq : pageInsert m a va pa perm =
    (pageWalk (cleared m a va) a (downAlign va) true).bind fun walked =>
      walked.1.map fun pte => setEntry walked.2 pte pa perm := by
  unfold pageInsert
  dsimp only
  rw [dropMapping_downAlign]
  congr 1
  funext walked
  rcases walked with ⟨r, u⟩
  cases r with
  | none => rfl
  | some pte => rfl

/-- The walk of `pageInsert`: where a page was mapped the tables are there, and otherwise nothing was removed. -/
theorem pageInsert_walk (ht : Tables m S) (ha : a ∈ S) (hinsert : pageInsert m a va pa perm = some m') :
    ∃ u k fs, m' = setEntry u (k, getPageTableIndex va 0) pa perm ∧ u.node a (pathOf va) = some k ∧
      Shape u S ∧ Grows S fs (cleared m a va) u ∧
      (has (m.entry a va) pteValid = true → u = cleared m a va) := by
  rw [pageInsert_eq] at hinsert
  rcases Option.bind_eq_some_iff.1 hinsert with ⟨⟨r, u⟩, hwalk, hret⟩
  rcases Option.map_eq_some_iff.1 hret with ⟨pte, hr, rfl⟩
  subst hr
  by_cases hvalid : has (m.entry a va) pteValid = true
  · rcases exists_node_of_valid hvalid with ⟨k, hk⟩
    have hk' : (cleared m a va).node a (pathOf (downAlign va)) = some k := by
      rw [cleared_node ht.toShape ha ha (by exact Nat.le_refl 2), pathOf_downAlign, hk]
    rw [pageWalk_present hk', getPageTableIndex_downAlign] at hwalk
    cases hwalk
    rw [pathOf_downAlign] at hk'
    exact ⟨cleared m a va, k, [], rfl, hk', cleared_shape ht.toShape ha, Grows.refl, fun _ => rfl⟩
  · have hcleared : cleared m a va = m := if_neg hvalid
    rw [hcleared] at hwalk
    rcases pageWalk_true ht ha hwalk with ⟨k, fs, hpte, hk, htables, hgrows⟩
    cases hpte
    rw [pathOf_downAlign] at hk
    rw [getPageTableIndex_downAlign]
    refine ⟨u, k, fs, rfl, hk, htables.toShape, ?_, fun h => absurd h hvalid⟩
    rw [hcleared]
    exact hgrows

lemma cleared_leaf (hs : Shape m S) (ha : a ∈ S) (hb : b ∈ S) (hq : q.length = 2)
    (hne : ¬(b = a ∧ q = pathOf va ∧ j = getPageTableIndex va 0)) : (cleared m a va).leaf b q j = m.leaf b q j := by
  unfold cleared
  split
  · rename_i hvalid
    rw [← entry_downAlign] at hvalid
    by_cases hram : isRam (pte2Pa (m.entry a (downAlign va))) = true
    · rw [pageRemove_sets hs ha hvalid hram b hb q hq j, pathOf_downAlign, getPageTableIndex_downAlign,
        if_neg hne]
    · rw [pageRemove_other (.inr (by simpa using hram))]
  · rfl

lemma pageInsert_sets (ht : Tables m S) (ha : a ∈ S) (hinsert : pageInsert m a va pa perm = some m') :
    Sets S a va (newEntry pa perm) m m' := by
  rcases pageInsert_walk ht ha hinsert with ⟨u, k, fs, rfl, hk, hshape, hgrows, _⟩
  intro b hb q hq j
  rw [leaf_of_word setEntry_word, leaf_store hshape ha rfl hk hb hq]
  by_cases hsame : b = a ∧ q = pathOf va ∧ j = getPageTableIndex va 0
  · rw [if_pos hsame, if_pos hsame]
  · rw [if_neg hsame, if_neg hsame, hgrows.leaves b hb q hq j, cleared_leaf ht.toShape ha hb hq hsame]

lemma walkLevel_isSome (ptr : Ptr) (hpages : m.freePages ≠ []) :
    ∃ r u, walkLevel m ptr true = some (r, u) ∧ m.freePages.length ≤ u.freePages.length + 1 := by
  unfold walkLevel
  by_cases hzero : m.load ptr = 0
  · rw [if_pos hzero, if_pos rfl]
    cases hfree : m.freePages with
    | nil => exact absurd hfree hpages
    | cons page rest =>
      unfold pageAlloc
      rw [hfree]
      exact ⟨_, _, rfl, Nat.le_refl _⟩
  · rw [if_neg hzero]
    exact ⟨_, _, rfl, Nat.le_succ _⟩

/-- Two free pages are enough for the missing tables. -/
theorem pageInsert_isSome (ht : Tables m S) (ha : a ∈ S) (hpages : 2 ≤ m.freePages.length) :
    (pageInsert m a va pa perm).isSome = true := by
  have hwalk : ∃ pte u, pageWalk (cleared m a va) a (downAlign va) true = some (some pte, u) := by
    by_cases hvalid : has (m.entry a va) pteValid = true
    · rcases exists_node_of_valid hvalid with ⟨k, hk⟩
      have hk' : (cleared m a va).node a (pathOf (downAlign va)) = some k := by
        rw [cleared_node ht.toShape ha ha (by exact Nat.le_refl 2), pathOf_downAlign, hk]
      exact ⟨_, _, pageWalk_present hk'⟩
    · have hcleared : cleared m a va = m := if_neg hvalid
      rw [hcleared]
      have hne : m.freePages ≠ [] := by
        intro h
        rw [h] at hpages
        exact absurd hpages (by decide)
      rcases walkLevel_isSome (a, getPageTableIndex (downAlign va) 2) hne with ⟨r₁, u₁, hfirst, hlen⟩
      rcases walkLevel_true (p := []) ht ha (by decide) rfl hfirst with ⟨k₁, _, rfl, _, _, _⟩
      have hne' : u₁.freePages ≠ [] := by
        intro h
        rw [h, length_nil] at hlen
        omega
      rcases walkLevel_isSome (k₁, getPageTableIndex (downAlign va) 1) hne' with ⟨r₂, u₂, hsecond, _⟩
      have hboth : pageWalk m a (downAlign va) true =
          some (r₂.map fun table => (table, getPageTableIndex (downAlign va) 0), u₂) := by
        unfold pageWalk
        rw [hfirst]
        show (walkLevel u₁ _ true).bind _ = _
        rw [hsecond]
        cases r₂ with
        | none => rfl
        | some table => rfl
      rcases pageWalk_true ht ha hboth with ⟨k, fs, hr, _, _, _⟩
      rw [hr] at hboth
      exact ⟨_, _, hboth⟩
  rcases hwalk with ⟨pte, u, hwalk⟩
  rw [pageInsert_eq, hwalk]
  rfl

/-! ## The map -/

lemma newEntry_eq (hpa : IsPage pa) :
    newEntry pa perm = pa2Pte pa ||| (perm ||| pteAccessed ||| pteDirty ||| pteValid) := by
  unfold newEntry
  rw [hpa.aligned, BitVec.or_assoc]

lemma isPerm_newPerm (hperm : IsPerm perm) : IsPerm (perm ||| pteAccessed ||| pteDirty ||| pteValid) := by
  rw [BitVec.or_assoc perm]
  exact (hperm.or isPerm_flags).or isPerm_valid

/-- What a lookup gives after `pageInsert`, and after `pageRemove` of a page of RAM. -/
structure IsMap (m : Mem) (pgdir va pa perm : Word) : Prop where
  inserted : ∀ m', pageInsert m pgdir va pa perm = some m' →
    mapping m' pgdir va = some (pa, perm ||| pteAccessed ||| pteDirty ||| pteValid) ∧
    ∀ va' : Word, va'.toNat < 2 ^ 39 → pageOf va' ≠ pageOf va → mapping m' pgdir va' = mapping m pgdir va'
  /-- The call returns when the missing tables can be allocated. -/
  returns : 2 ≤ m.freePages.length → (pageInsert m pgdir va pa perm).isSome = true
  removed : ∀ page pte, pageLookup m pgdir va = some (page, pte) → isRam page = true →
    (pageRemove m pgdir va).1 = 0 ∧ pageLookup (pageRemove m pgdir va).2 pgdir va = none ∧
    ∀ va' : Word, va'.toNat < 2 ^ 39 → pageOf va' ≠ pageOf va →
      mapping (pageRemove m pgdir va).2 pgdir va' = mapping m pgdir va'

theorem page_table_is_map {pgdir : Word} (ht : Tables m {pgdir}) (hva : va.toNat < 2 ^ 39) (hpa : IsPage pa)
    (hperm : IsPerm perm) : IsMap m pgdir va pa perm := by
  have hroot : pgdir ∈ ({pgdir} : Set Word) := rfl
  refine ⟨?_, pageInsert_isSome ht hroot, ?_⟩
  · intro m' hinsert
    have hsets := pageInsert_sets ht hroot hinsert
    refine ⟨?_, ?_⟩
    · have hvalid : has (newEntry pa perm) pteValid = true := has_valid_or _
      rw [mapping_eq, hsets.entry hroot, if_pos hvalid, newEntry_eq hpa, pte2Pa_entry hpa (isPerm_newPerm hperm),
        pte2Perm_entry hpa (isPerm_newPerm hperm)]
    · intro va' hva' hne
      rw [mapping_eq, mapping_eq, hsets.entry_of_ne hroot hva hva' hne]
  · intro page pte hlookup hram
    rw [pageLookup_eq] at hlookup
    split at hlookup
    · rename_i hvalid
      rcases Option.map_eq_some_iff.1 hlookup with ⟨k, hk, hfound⟩
      rcases Prod.mk.inj hfound with ⟨hpage, _⟩
      rw [← hpage] at hram
      have hsets := pageRemove_sets ht.toShape hroot hvalid hram
      refine ⟨?_, ?_, ?_⟩
      · rw [pageRemove_ram hvalid hram hk]
      · rw [pageLookup_eq, hsets.entry hroot]
        rfl
      · intro va' hva' hne
        rw [mapping_eq, mapping_eq, hsets.entry_of_ne hroot hva hva' hne]
    · cases hlookup

lemma tables_of_empty {pgdir : Word} (hzero : ∀ i, m.word pgdir i = 0) (hfree : pgdir ∉ m.freePages)
    (hnodup : m.freePages.Nodup) (hram : ∀ page ∈ m.freePages, isRam page = true ∧ downAlign page = page) :
    Tables m {pgdir} := by
  -- no path leaves the directory
  have hnode : ∀ p k, m.node pgdir p = some k → p = [] ∧ k = pgdir := by
    intro p k hk
    cases p with
    | nil => exact ⟨rfl, (Option.some.inj hk).symm⟩
    | cons i p =>
      have hnone : m.node pgdir (i :: p) = none := by
        show (child (m.word pgdir i)).bind _ = none
        rw [hzero]
        rfl
      rw [hnone] at hk
      cases hk
  refine ⟨⟨?_, ?_⟩, ?_, hnodup, hram⟩
  · rintro a rfl p k _ hk i
    rw [(hnode p k hk).2]
    exact .inl (hzero i)
  · rintro a rfl b rfl p q k _ _ hp hq
    exact ⟨rfl, (hnode p k hp).1.trans (hnode q k hq).1.symm⟩
  · rintro page ⟨a, rfl, p, _, hp⟩
    rw [(hnode p page hp).2]
    exact hfree

/-- Zeroed memory with two free pages. -/
def twoPages : Mem := { word := fun _ _ => 0, ref := fun _ => 0, freePages := [0x80301000, 0x80302000] }

lemma tables_twoPages : Tables twoPages {0x80300000} := by
  have hzero : ∀ i, twoPages.word 0x80300000 i = 0 := fun _ => rfl
  have hfree : (0x80300000 : Word) ∉ twoPages.freePages := by decide +kernel
  have hnodup : twoPages.freePages.Nodup := by decide +kernel
  have hram : ∀ page ∈ twoPages.freePages, isRam page = true ∧ downAlign page = page :=
    forall_mem_cons.2 ⟨by decide +kernel, forall_mem_cons.2 ⟨by decide +kernel, forall_mem_nil _⟩⟩
  exact tables_of_empty hzero hfree hnodup hram

/-- The first page of a process: both tables are created. -/
theorem page_table_is_map_first : IsMap twoPages 0x80300000 0x10000 0x80400000 (pteUser ||| pteRead) ∧
      (pageInsert twoPages 0x80300000 0x10000 0x80400000 (pteUser ||| pteRead)).isSome = true := by
  have hmap : IsMap twoPages 0x80300000 0x10000 0x80400000 (pteUser ||| pteRead) :=
    page_table_is_map tables_twoPages (by decide +kernel) ⟨by decide +kernel, by decide +kernel⟩ (by decide)
  exact ⟨hmap, hmap.returns (by decide)⟩

end Paging
end OsRiscv
