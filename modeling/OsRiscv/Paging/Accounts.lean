import OsRiscv.Paging.Counts

/-!
# Accounts — references, tables and free pages

`Accounts base m L` is the balance of the page allocator for the tables of the page directories `L`: a free page
has no reference and is in no table, and the reference count of a page is the number of its leaf entries, one more
for a table, above what others hold (`base`).  There are fewer leaf entries than a count of 32 bits can hold,
because the tables that hold them are pages of RAM.

`pageRemove`, `pageAlloc` and `allocPgdir` keep the balance.  `pageInsert` keeps it unless the page put in is free
at that moment.
-/

namespace OsRiscv
namespace Paging

open Finset (card_range mem_coe mem_filter mem_insert mem_range)
open Function (update update_of_ne update_self)
open Lib

variable {base : Word → Nat} {m m' : Mem} {L : Finset Word} {a k va pa perm page x : Word} {e : Word}

/-! ## Tables are counted once -/

open Classical in
noncomputable def tableCount (m : Mem) (L : Finset Word) (page : Word) : Nat := if m.IsTable L page then 1 else 0

lemma tableCount_of (h : m.IsTable L page) : tableCount m L page = 1 := if_pos h

lemma tableCount_of_not (h : ¬m.IsTable L page) : tableCount m L page = 0 := if_neg h

lemma tableCount_congr (h : m'.IsTable L page ↔ m.IsTable L page) : tableCount m' L page = tableCount m L page := by
  by_cases ht : m.IsTable L page
  · rw [tableCount_of ht, tableCount_of (h.2 ht)]
  · rw [tableCount_of_not ht, tableCount_of_not fun h' => ht (h.1 h')]

structure Accounts (base : Word → Nat) (m : Mem) (L : Finset Word) : Prop where
  tables : Tables m L
  tableRam : ∀ page, m.IsTable L page → isRam page = true ∧ downAlign page = page
  freeRef : ∀ page ∈ m.freePages, m.ref page = 0
  count : ∀ page, (m.ref page).toNat = base page + mappings m L page + tableCount m L page
  bounded : ∀ page, base page < 2 ^ 31

/-! ## Counts do not wrap around -/

lemma exists_node_of_slot {y : Slot} (h : slot m y = some page) : ∃ k, m.node y.1 [y.2.1, y.2.2.1] = some k := by
  cases hnode : m.node y.1 [y.2.1, y.2.2.1] with
  | none =>
    rw [slot, leaf_of_missing hnode] at h
    cases h
  | some k => exact ⟨k, rfl⟩

/-- The place of a leaf entry in memory. -/
def placeOf (m : Mem) (y : Slot) : Nat × Nat :=
  (((m.node y.1 [y.2.1, y.2.2.1]).map pageOf).getD 0, y.2.2.2.val)

lemma placeOf_eq {y : Slot} (h : m.node y.1 [y.2.1, y.2.2.1] = some k) : placeOf m y = (pageOf k, y.2.2.2.val) := by
  unfold placeOf
  rw [h]
  rfl

lemma eq_of_pageOf_eq {k' : Word} (hk : downAlign k = k) (hk' : downAlign k' = k') (h : pageOf k = pageOf k') :
    k = k' := by
  have hleft := downAlign_toNat k
  have hright := downAlign_toNat k'
  rw [hk] at hleft
  rw [hk'] at hright
  unfold pageOf at h
  exact BitVec.eq_of_toNat_eq (by omega)

namespace Accounts

lemma leafTable_isTable {b : Word} {i j : Fin 512} (hb : b ∈ L) (hk : m.node b [i, j] = some k) : m.IsTable L k :=
  ⟨b, hb, [i, j], Nat.le_refl 2, hk⟩

section

variable (h : Accounts base m L)
include h

lemma placeOf_inj {y y' : Slot} (hy : y.1 ∈ L) (hy' : y'.1 ∈ L) {x x' : Word}
    (hpage : slot m y = some x) (hpage' : slot m y' = some x') (hplace : placeOf m y = placeOf m y') : y = y' := by
  rcases exists_node_of_slot hpage with ⟨k, hk⟩
  rcases exists_node_of_slot hpage' with ⟨k', hk'⟩
  rw [placeOf_eq hk, placeOf_eq hk'] at hplace
  rcases Prod.mk.inj hplace with ⟨htable, hlast⟩
  have hsame := eq_of_pageOf_eq (h.tableRam k (leafTable_isTable hy hk)).2
    (h.tableRam k' (leafTable_isTable hy' hk')).2 htable
  subst hsame
  -- no table is reached in two ways
  have hpaths := h.tables.forest y.1 hy y'.1 hy' [y.2.1, y.2.2.1] [y'.2.1, y'.2.2.1] k (Nat.le_refl 2)
    (Nat.le_refl 2) hk hk'
  have hcons := List.cons_eq_cons.1 hpaths.2
  exact Prod.ext hpaths.1 (Prod.ext hcons.1 (Prod.ext (List.cons_eq_cons.1 hcons.2).1 (Fin.ext hlast)))

lemma mappings_le {n : Nat} (hn : ∀ k, m.IsTable L k → pageOf k < n) (page : Word) :
    mappings m L page ≤ n * 512 := by
  have hcard : mappings m L page ≤ (Finset.range n ×ˢ Finset.range 512).card := by
    refine Finset.card_le_card_of_injOn (placeOf m) ?_ ?_
    · intro y hy
      rcases mem_filter.1 (mem_coe.1 hy) with ⟨hslot, hpage⟩
      rcases exists_node_of_slot hpage with ⟨k, hk⟩
      have hfirst := hn k (leafTable_isTable (mem_slots.1 hslot) hk)
      rw [placeOf_eq hk]
      exact mem_coe.2 (Finset.mem_product.2 ⟨mem_range.2 hfirst, mem_range.2 y.2.2.2.isLt⟩)
    · intro y hy y' hy'
      rcases mem_filter.1 (mem_coe.1 hy) with ⟨hslot, hpage⟩
      rcases mem_filter.1 (mem_coe.1 hy') with ⟨hslot', hpage'⟩
      exact h.placeOf_inj (mem_slots.1 hslot) (mem_slots.1 hslot') hpage hpage'
  rwa [Finset.card_product, card_range, card_range] at hcard

lemma mappings_lt (page : Word) : mappings m L page < 2 ^ 30 := by
  have hpages : ∀ k, m.IsTable L k → pageOf k < 0x90000 := by
    intro k hk
    have hram := (isRam_iff.1 (h.tableRam k hk).1).2
    unfold pageOf
    omega
  have hle := h.mappings_le hpages page
  omega

omit h in
lemma tableCount_le : tableCount m L page ≤ 1 := by
  unfold tableCount
  split
  · exact Nat.le_refl 1
  · exact Nat.zero_le 1

lemma ref_lt (page : Word) : (m.ref page).toNat + 1 < 2 ^ 32 := by
  have hcount := h.count page
  have hmap := h.mappings_lt page
  have htable : tableCount m L page ≤ 1 := tableCount_le
  have hbase := h.bounded page
  omega

omit h in
lemma pos_of_entry (ha : a ∈ L) (hpage : ramPage (m.entry a va) = some page) : 0 < mappings m L page := by
  have hslot : slotOf a va ∈ slots L := mem_slots.2 ha
  exact occ_pos hslot hpage

lemma not_free (hpos : 0 < mappings m L page) : page ∉ m.freePages := by
  intro hfree
  have hcount := h.count page
  rw [h.freeRef page hfree] at hcount
  have hzero : (0 : BitVec 32).toNat = 0 := rfl
  omega

end

end Accounts

/-! ## `pageRemove` -/

lemma store_ref {ptr : Ptr} : (m.store ptr e).ref = m.ref := rfl

lemma store_freePages {ptr : Ptr} : (m.store ptr e).freePages = m.freePages := rfl

lemma release_ref : (release m page).ref = update m.ref page (m.ref page - 1) := by
  unfold release pageFree
  split
  · rfl
  · rfl

lemma mem_release {y : Word} :
    y ∈ (release m page).freePages ↔ (y = page ∧ (release m page).ref page = 0) ∨ y ∈ m.freePages := by
  rw [release_ref, update_self]
  unfold release pageFree
  have hself : (m.setRef page (m.ref page - 1)).ref page = m.ref page - 1 := update_self ..
  rw [hself]
  by_cases hzero : m.ref page - 1 = 0
  · rw [if_pos hzero]
    show y ∈ page :: m.freePages ↔ _
    rw [List.mem_cons, and_iff_left hzero]
  · rw [if_neg hzero]
    show y ∈ m.freePages ↔ _
    rw [or_iff_right fun hboth => hzero hboth.2]

lemma nodup_release (hnodup : m.freePages.Nodup) (hnot : page ∉ m.freePages) : (release m page).freePages.Nodup := by
  unfold release pageFree
  split
  · exact List.nodup_cons.2 ⟨hnot, hnodup⟩
  · exact hnodup

lemma ramPage_eq_some : ramPage e = some page ↔
    has e pteValid = true ∧ isRam (pte2Pa e) = true ∧ pte2Pa e = page := by
  unfold ramPage
  by_cases h : has e pteValid = true ∧ isRam (pte2Pa e) = true
  · simp [h.1, h.2]
  · rw [if_neg h]
    constructor
    · intro hnone
      cases hnone
    · rintro ⟨hvalid, hram, _⟩
      exact absurd ⟨hvalid, hram⟩ h

lemma ramPage_eq_none (h : ramPage e = none) : has e pteValid = false ∨ isRam (pte2Pa e) = false := by
  by_contra hne
  rw [not_or, Bool.not_eq_false, Bool.not_eq_false] at hne
  rw [ramPage, if_pos hne] at h
  cases h

namespace Accounts

section

variable (h : Accounts base m L) (ha : a ∈ L)
include h ha

/-- The entry of a mapped page is cleared, and its reference given up. -/
theorem remove_mapped (hpage : ramPage (m.entry a va) = some page) :
    Accounts base (pageRemove m a va).2 L := by
  rcases ramPage_eq_some.1 hpage with ⟨hvalid, hram, rfl⟩
  have hpos := pos_of_entry ha hpage
  have hnot := h.not_free hpos
  have hsets := pageRemove_sets h.tables.toShape ha hvalid hram
  have hshape : Shape (pageRemove m a va).2 L := pageRemove_shape h.tables.toShape ha
  have hisTable : ∀ y, (pageRemove m a va).2.IsTable L y ↔ m.IsTable L y := by
    intro y
    constructor
    · rintro ⟨b, hb, q, hq, hbq⟩
      exact ⟨b, hb, q, hq, (pageRemove_node h.tables.toShape ha hb hq).symm.trans hbq⟩
    · rintro ⟨b, hb, q, hq, hbq⟩
      exact ⟨b, hb, q, hq, (pageRemove_node h.tables.toShape ha hb hq).trans hbq⟩
  rcases exists_node_of_valid hvalid with ⟨k, hk⟩
  have hfree : (pageRemove m a va).2.freePages = (release m (pte2Pa (m.entry a va))).freePages := by
    rw [pageRemove_ram hvalid hram hk, store_freePages]
  have href : (pageRemove m a va).2.ref = (release m (pte2Pa (m.entry a va))).ref := by
    rw [pageRemove_ram hvalid hram hk, store_ref]
  have hne : m.ref (pte2Pa (m.entry a va)) ≠ 0 := by
    intro hzero
    have hcount := h.count (pte2Pa (m.entry a va))
    rw [hzero] at hcount
    have : (0 : BitVec 32).toNat = 0 := rfl
    omega
  have hcount : ∀ y, ((pageRemove m a va).2.ref y).toNat =
      base y + mappings (pageRemove m a va).2 L y + tableCount (pageRemove m a va).2 L y := by
    intro y
    have hbefore := h.count y
    have hmap := mappings_sets hsets ha y
    have hsub := count_sub_one hne y
    rw [hpage, ramPage_zero] at hmap
    rw [href, release_ref, tableCount_congr (hisTable y)]
    simp only [Option.some.injEq, reduceCtorEq, if_false, Nat.add_zero] at hmap
    simp only [List.count_singleton, beq_iff_eq] at hsub
    omega
  refine ⟨⟨hshape, ?_, ?_, ?_⟩, ?_, ?_, hcount, h.bounded⟩
  · intro y hy
    rw [hfree, mem_release]
    rintro (⟨rfl, hzero⟩ | hin)
    · -- a table keeps a reference of its own
      have := hcount (pte2Pa (m.entry a va))
      rw [href, hzero, tableCount_of hy] at this
      have : (0 : BitVec 32).toNat = 0 := rfl
      omega
    · exact h.tables.notFree y ((hisTable y).1 hy) hin
  · rw [hfree]
    exact nodup_release h.tables.nodup hnot
  · intro y hy
    rw [hfree, mem_release] at hy
    rcases hy with ⟨rfl, _⟩ | hin
    · exact ⟨hram, downAlign_pte2Pa _⟩
    · exact h.tables.ram y hin
  · intro y hy
    exact h.tableRam y ((hisTable y).1 hy)
  · intro y hy
    rw [href]
    rw [hfree, mem_release] at hy
    rcases hy with ⟨rfl, hzero⟩ | hin
    · exact hzero
    · have hother : y ≠ pte2Pa (m.entry a va) := fun hsame => hnot (hsame ▸ hin)
      rw [release_ref, update_of_ne hother]
      exact h.freeRef y hin

lemma remove (va : Word) : Accounts base (pageRemove m a va).2 L := by
  cases hpage : ramPage (m.entry a va) with
  | none =>
    rw [pageRemove_other (ramPage_eq_none hpage)]
    exact h
  | some page => exact h.remove_mapped ha hpage

lemma clear (va : Word) : Accounts base (cleared m a va) L := by
  unfold cleared
  split
  · exact h.remove ha _
  · exact h

end

/-! ## `pageInsert` -/

/-- Pages for tables are taken from the free ones. -/
theorem grow (h : Accounts base m L) {fs : List Word} (hgrows : Grows L fs m m') (ht : Tables m' L) :
    Accounts base m' L := by
  have hnodup : (fs ++ m'.freePages).Nodup := hgrows.pages ▸ h.tables.nodup
  have hin : ∀ y ∈ fs, y ∈ m.freePages := by
    intro y hy
    rw [hgrows.pages]
    exact List.mem_append_left _ hy
  have hsame : ∀ y, y ∉ fs → m'.ref y = m.ref y := by
    intro y hy
    rw [hgrows.ref, List.count_eq_zero_of_not_mem hy]
    exact BitVec.add_zero _
  refine ⟨ht, ?_, ?_, ?_, h.bounded⟩
  · intro y hy
    rcases (hgrows.tables y).1 hy with hold | hnew
    · exact h.tableRam y hold
    · exact h.tables.ram y (hin y hnew)
  · intro y hy
    have hnot : y ∉ fs := fun hfs => (List.nodup_append.1 hnodup).2.2 y hfs y hy rfl
    rw [hsame y hnot]
    refine h.freeRef y ?_
    rw [hgrows.pages]
    exact List.mem_append_right _ hy
  · intro y
    have hbefore := h.count y
    rw [mappings_congr hgrows.leaves]
    by_cases hfs : y ∈ fs
    · have hzero := h.freeRef y (hin y hfs)
      have hone : fs.count y = 1 := List.count_eq_one_of_mem (List.nodup_append.1 hnodup).1 hfs
      have hnotTable : ¬m.IsTable L y := fun htable => h.tables.notFree y htable (hin y hfs)
      rw [hzero, tableCount_of_not hnotTable] at hbefore
      have hnew : (m'.ref y).toNat = 1 := by
        rw [hgrows.ref, hzero, hone]
        rfl
      rw [hnew, tableCount_of ((hgrows.tables y).2 (.inr hfs))]
      have : (0 : BitVec 32).toNat = 0 := rfl
      omega
    · have htable : m'.IsTable L y ↔ m.IsTable L y := (hgrows.tables y).trans (or_iff_left hfs)
      rw [hsame y hfs, hbefore, tableCount_congr htable]

end Accounts

lemma cleared_entry {S : Set Word} (hs : Shape m S) (ha : a ∈ S) :
    ramPage ((cleared m a va).entry a va) = none := by
  unfold cleared
  split
  · cases hpage : ramPage (m.entry a va) with
    | none =>
      have hother := ramPage_eq_none hpage
      rw [← entry_downAlign] at hother
      rw [pageRemove_other hother]
      exact hpage
    | some page =>
      rcases ramPage_eq_some.1 hpage with ⟨hvalid, hram, _⟩
      rw [← entry_downAlign] at hvalid hram
      rw [← entry_downAlign, (pageRemove_sets hs ha hvalid hram).entry ha]
      exact ramPage_zero
  · rename_i hvalid
    exact if_neg fun hboth => hvalid hboth.1

lemma ramPage_newEntry (hpa : IsPage (downAlign pa)) (hperm : IsPerm perm) :
    ramPage (newEntry pa perm) = if isRam (downAlign pa) = true then some (downAlign pa) else none := by
  have hvalid : has (newEntry pa perm) pteValid = true := has_valid_or _
  have hpte : pte2Pa (newEntry pa perm) = downAlign pa := by
    unfold newEntry
    rw [BitVec.or_assoc]
    exact pte2Pa_entry hpa (isPerm_newPerm hperm)
  unfold ramPage
  rw [hpte]
  by_cases hram : isRam (downAlign pa) = true
  · rw [if_pos ⟨hvalid, hram⟩, if_pos hram]
  · rw [if_neg fun hboth => hram hboth.2, if_neg hram]

lemma setEntry_freePages {pte : Ptr} : (setEntry m pte pa perm).freePages = m.freePages := by
  unfold setEntry
  split
  · rfl
  · rfl

lemma setEntry_ref {pte : Ptr} : (setEntry m pte pa perm).ref =
    if isRam (downAlign pa) = true then update m.ref (downAlign pa) (m.ref (downAlign pa) + 1) else m.ref := by
  unfold setEntry
  split
  · rfl
  · rfl

lemma toNat_add_one {n : BitVec 32} (h : n.toNat + 1 < 2 ^ 32) : (n + 1).toNat = n.toNat + 1 := by
  have hone : (1 : BitVec 32).toNat = 1 := rfl
  rw [BitVec.toNat_add, hone]
  omega

namespace Accounts

/-- The entry is set in tables that are there, where no page of RAM is mapped. -/
theorem set (h : Accounts base m L) (ha : a ∈ L) (hk : m.node a (pathOf va) = some k)
    (hold : ramPage (m.entry a va) = none) (hpa : IsPage (downAlign pa)) (hperm : IsPerm perm)
    (hnot : isRam (downAlign pa) = true → downAlign pa ∉ m.freePages) :
    Accounts base (setEntry m (k, getPageTableIndex va 0) pa perm) L := by
  have hshape := h.tables.toShape
  have hsets : Sets L a va (newEntry pa perm) m (setEntry m (k, getPageTableIndex va 0) pa perm) := by
    intro b hb q hq j
    rw [leaf_of_word setEntry_word, leaf_store hshape ha rfl hk hb hq]
  have hisTable : ∀ y, (setEntry m (k, getPageTableIndex va 0) pa perm).IsTable L y ↔ m.IsTable L y := by
    intro y
    rw [← isTable_store hshape ha rfl hk (newEntry pa perm), Mem.IsTable, setEntry_word]
    rfl
  refine ⟨⟨(hshape.store ha rfl hk _).of_word setEntry_word, ?_, ?_, ?_⟩, ?_, ?_, ?_, h.bounded⟩
  · intro y hy
    rw [setEntry_freePages]
    exact h.tables.notFree y ((hisTable y).1 hy)
  · rw [setEntry_freePages]
    exact h.tables.nodup
  · rw [setEntry_freePages]
    exact h.tables.ram
  · intro y hy
    exact h.tableRam y ((hisTable y).1 hy)
  · intro y hy
    rw [setEntry_freePages] at hy
    rw [setEntry_ref]
    split
    · rename_i hram
      have hne : y ≠ downAlign pa := fun hsame => hnot hram (hsame ▸ hy)
      rw [update_of_ne hne]
      exact h.freeRef y hy
    · exact h.freeRef y hy
  · intro y
    have hbefore := h.count y
    have hmap := mappings_sets hsets ha y
    rw [hold, ramPage_newEntry hpa hperm] at hmap
    rw [setEntry_ref, tableCount_congr (hisTable y)]
    by_cases hram : isRam (downAlign pa) = true
    · simp only [if_pos hram, reduceCtorEq, if_false, Option.some.injEq, Nat.add_zero] at hmap ⊢
      by_cases hy : downAlign pa = y
      · subst hy
        rw [if_pos rfl] at hmap
        rw [update_self, toNat_add_one (h.ref_lt _)]
        omega
      · rw [if_neg hy] at hmap
        rw [update_of_ne (Ne.symm hy)]
        omega
    · simp only [if_neg hram, reduceCtorEq, if_false, Nat.add_zero] at hmap ⊢
      omega

lemma insertPage (h : Accounts base m L) (ha : a ∈ L) (hpa : IsPage (downAlign pa)) (hperm : IsPerm perm)
    (hnot : isRam (downAlign pa) = true → downAlign pa ∉ (cleared m a va).freePages)
    (hinsert : pageInsert m a va pa perm = some m') : Accounts base m' L := by
  rw [pageInsert_eq] at hinsert
  rcases Option.bind_eq_some_iff.1 hinsert with ⟨⟨r, u⟩, hwalk, hret⟩
  rcases Option.map_eq_some_iff.1 hret with ⟨pte, hr, rfl⟩
  subst hr
  have hcleared := h.clear ha va
  rcases pageWalk_true hcleared.tables ha hwalk with ⟨k, fs, hpte, hk, htables, hgrows⟩
  cases hpte
  rw [pathOf_downAlign] at hk
  rw [getPageTableIndex_downAlign]
  refine (hcleared.grow hgrows htables).set ha hk ?_ hpa hperm ?_
  · rw [Mem.entry, hgrows.leaves a ha (pathOf va) rfl]
    exact cleared_entry h.tables.toShape ha
  · intro hram hin
    refine hnot hram ?_
    rw [hgrows.pages]
    exact List.mem_append_right _ hin

/-! ## `pageAlloc` and `allocPgdir` -/

section

variable (h : Accounts base m L)
include h

/-- Pages that are no tables are not part of the balance. -/
theorem of_data (hdata : ∀ y, m.IsTable L y → m'.word y = m.word y)
    (hfree : ∃ fs, m.freePages = fs ++ m'.freePages) (href : m'.ref = m.ref) : Accounts base m' L := by
  rcases hfree with ⟨fs, hfree⟩
  have hnode : ∀ b ∈ L, ∀ q : List (Fin 512), q.length ≤ 2 → m'.node b q = m.node b q :=
    fun b hb q hq => Radix.node_of_agree hdata hb hq
  have hisTable : ∀ y, m'.IsTable L y ↔ m.IsTable L y := by
    intro y
    constructor
    · rintro ⟨b, hb, q, hq, hbq⟩
      exact ⟨b, hb, q, hq, (hnode b hb q hq).symm.trans hbq⟩
    · rintro ⟨b, hb, q, hq, hbq⟩
      exact ⟨b, hb, q, hq, (hnode b hb q hq).trans hbq⟩
  have hsub : ∀ y ∈ m'.freePages, y ∈ m.freePages := by
    intro y hy
    rw [hfree]
    exact List.mem_append_right _ hy
  refine ⟨⟨⟨?_, h.tables.forest.of_agree hdata⟩, ?_, ?_, ?_⟩, ?_, ?_, ?_, h.bounded⟩
  · intro b hb q k hq hk i
    rw [hnode b hb q (Nat.le_of_lt hq)] at hk
    rw [hdata k ⟨b, hb, q, Nat.le_of_lt hq, hk⟩]
    exact h.tables.entries b hb q k hq hk i
  · intro y hy hin
    exact h.tables.notFree y ((hisTable y).1 hy) (hsub y hin)
  · exact (List.nodup_append.1 (hfree ▸ h.tables.nodup)).2.1
  · exact fun y hy => h.tables.ram y (hsub y hy)
  · exact fun y hy => h.tableRam y ((hisTable y).1 hy)
  · intro y hy
    rw [href]
    exact h.freeRef y (hsub y hy)
  · intro y
    have hleaves : mappings m' L y = mappings m L y := by
      refine mappings_congr ?_
      intro b hb q hq j
      exact Radix.leaf_of_agree hdata hb (Nat.le_of_eq hq)
    rw [href, hleaves, tableCount_congr (hisTable y)]
    exact h.count y

lemma alloc (halloc : pageAlloc m = some (page, m')) : Accounts base m' L := by
  rcases pageAlloc_spec halloc with ⟨hfree, href, hword⟩
  refine h.of_data ?_ ⟨[page], hfree⟩ href
  intro y hy
  have hne : y ≠ page := by
    rintro rfl
    exact h.tables.notFree y hy (by rw [hfree]; exact List.mem_cons_self ..)
  rw [hword, update_of_ne hne]

/-- A page without entries becomes a page directory. -/
theorem newRoot (hempty : ∀ i, m.word page i = 0) (hfree : page ∉ m.freePages)
    (hnot : ¬m.IsTable L page) (href : m.ref page = 0) (hram : isRam page = true ∧ downAlign page = page) :
    Accounts base (m.setRef page (m.ref page + 1)) (insert page L) := by
  -- the paths from the new directory end there
  have hroot : ∀ p k, m.node page p = some k → p = [] ∧ k = page := by
    intro p k hk
    cases p with
    | nil => exact ⟨rfl, (Option.some.inj hk).symm⟩
    | cons i p =>
      have hnone : m.node page (i :: p) = none := by
        show (child (m.word page i)).bind _ = none
        rw [hempty]
        rfl
      rw [hnone] at hk
      cases hk
  have hnotOld : ∀ b ∈ L, ∀ q : List (Fin 512), q.length ≤ 2 → m.node b q ≠ some page :=
    fun b hb q hq hbq => hnot ⟨b, hb, q, hq, hbq⟩
  have hisTable : ∀ y, (m.setRef page (m.ref page + 1)).IsTable (insert page L : Finset Word) y ↔
      y = page ∨ m.IsTable L y := by
    intro y
    constructor
    · rintro ⟨b, hb, q, hq, hbq⟩
      rcases mem_insert.1 (mem_coe.1 hb) with rfl | hb
      · exact .inl (hroot q y hbq).2
      · exact .inr ⟨b, hb, q, hq, hbq⟩
    · rintro (rfl | ⟨b, hb, q, hq, hbq⟩)
      · exact ⟨y, mem_coe.2 (Finset.mem_insert_self ..), [], Nat.zero_le 2, rfl⟩
      · exact ⟨b, mem_coe.2 (Finset.mem_insert_of_mem hb), q, hq, hbq⟩
  have hmap : ∀ y, mappings (m.setRef page (m.ref page + 1)) (insert page L) y = mappings m L y := by
    intro y
    refine congrArg Finset.card (Finset.ext ?_)
    intro z
    have hz : z.1 = page → slot m z = none := by
      intro hz
      refine leaf_of_missing ?_ _
      rw [hz]
      cases hnode : m.node page [z.2.1, z.2.2.1] with
      | none => rfl
      | some k => cases (hroot _ k hnode).1
    have hslot : slot (m.setRef page (m.ref page + 1)) z = slot m z := rfl
    rw [mem_filter, mem_filter, mem_slots, mem_slots, mem_insert, hslot]
    constructor
    · rintro ⟨hroot | hold, hpage⟩
      · rw [hz hroot] at hpage
        cases hpage
      · exact ⟨hold, hpage⟩
    · rintro ⟨hold, hpage⟩
      exact ⟨.inr hold, hpage⟩
  refine ⟨⟨⟨?_, ?_⟩, ?_, h.tables.nodup, h.tables.ram⟩, ?_, ?_, ?_, h.bounded⟩
  · intro b hb q k hq hk i
    rcases mem_insert.1 (mem_coe.1 hb) with rfl | hb
    · rw [(hroot q k hk).2]
      exact .inl (hempty i)
    · exact h.tables.entries b hb q k hq hk i
  · intro b hb c hc p q k hp hq hbp hcq
    rcases mem_insert.1 (mem_coe.1 hb) with hbnew | hbold
    · rw [hbnew] at hbp ⊢
      rcases hroot p k hbp with ⟨hp', hk⟩
      rw [hk] at hcq
      rcases mem_insert.1 (mem_coe.1 hc) with hcnew | hcold
      · rw [hcnew] at hcq ⊢
        exact ⟨rfl, hp'.trans (hroot q page hcq).1.symm⟩
      · exact absurd hcq (hnotOld c hcold q hq)
    · rcases mem_insert.1 (mem_coe.1 hc) with hcnew | hcold
      · rw [hcnew] at hcq
        rw [(hroot q k hcq).2] at hbp
        exact absurd hbp (hnotOld b hbold p hp)
      · exact h.tables.forest b hbold c hcold p q k hp hq hbp hcq
  · intro y hy
    rcases (hisTable y).1 hy with rfl | hold
    · exact hfree
    · exact h.tables.notFree y hold
  · intro y hy
    rcases (hisTable y).1 hy with rfl | hold
    · exact hram
    · exact h.tableRam y hold
  · intro y hy
    have hne : y ≠ page := fun hsame => hfree (hsame ▸ hy)
    show update m.ref page _ y = 0
    rw [update_of_ne hne]
    exact h.freeRef y hy
  · intro y
    have hbefore := h.count y
    rw [hmap]
    show (update m.ref page (m.ref page + 1) y).toNat = _
    by_cases hy : y = page
    · subst hy
      rw [tableCount_of_not hnot] at hbefore
      rw [update_self, toNat_add_one (h.ref_lt y), tableCount_of ((hisTable y).2 (.inl rfl))]
      omega
    · rw [update_of_ne hy, hbefore]
      by_cases hold : m.IsTable L y
      · rw [tableCount_of hold, tableCount_of ((hisTable y).2 (.inr hold))]
      · rw [tableCount_of_not hold, tableCount_of_not]
        intro hnew
        rcases (hisTable y).1 hnew with hsame | hold'
        · exact hy hsame
        · exact hold hold'

lemma newTable (halloc : allocPgdir m = some (page, m')) :
    Accounts base m' (insert page L) := by
  rcases Option.bind_eq_some_iff.1 halloc with ⟨⟨f, u⟩, hpage, hret⟩
  cases hret
  rcases pageAlloc_spec hpage with ⟨hfree, href, hword⟩
  have hin : page ∈ m.freePages := by
    rw [hfree]
    exact List.mem_cons_self ..
  have hnot : ¬m.IsTable L page := fun ht => h.tables.notFree page ht hin
  have hu := h.alloc hpage
  refine hu.newRoot ?_ ?_ ?_ ?_ (h.tables.ram page hin)
  · intro i
    rw [hword, update_self]
  · exact (List.nodup_cons.1 (hfree ▸ h.tables.nodup)).1
  · rintro ⟨b, hb, q, hq, hbq⟩
    have hagree : ∀ y, m.IsTable L y → u.word y = m.word y := by
      intro y hy
      rw [hword, update_of_ne]
      rintro rfl
      exact hnot hy
    exact hnot ⟨b, hb, q, hq, (Radix.node_of_agree hagree hb hq).symm.trans hbq⟩
  · rw [href]
    exact h.freeRef page hin

end

end Accounts

end Paging
end OsRiscv
