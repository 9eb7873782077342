import OsRiscv.Lib.Run
import OsRiscv.Paging.Accounts

/-!
# Built — the end of a page table that `pageInsert` and `pageRemove` built

`pgdirFree` gives back what the table holds, each page once, provided that the balance of `Accounts` holds when it
starts.  `pageInsert` can break it: it removes the old mapping before it takes the reference for the new one.  When
the two are the same page, with no other reference, the page is put on `freePages` and is mapped all the same.
From there on it can be taken for a table while it is mapped, even for two tables.
-/

namespace OsRiscv
namespace Paging

open Lib List

variable {m m' m₀ m₁ : Mem} {pgdir va pa page : Word} {base : Word → Nat}

/-! ## Building a table -/

inductive TableAct
  | alloc
  | insert (va pa perm : Word)
  | remove (va : Word)
  deriving Repr

def tableStep (pgdir : Word) (m : Mem) : TableAct → Kernel Mem
  | .alloc => (pageAlloc m).map Prod.snd
  | .insert va pa perm => pageInsert m pgdir va pa perm
  | .remove va => some (pageRemove m pgdir va).2

/-- The allocator before the table is created: free pages are pages of RAM without references. -/
structure Ready (m : Mem) : Prop where
  nodup : m.freePages.Nodup
  ram : ∀ page ∈ m.freePages, isRam page = true ∧ downAlign page = page
  freeRef : ∀ page ∈ m.freePages, m.ref page = 0
  bounded : ∀ page, (m.ref page).toNat < 2 ^ 31

/-- What a caller of `pageInsert` has to ensure: the page is not free, and it is not the one that is mapped at the
address already, with no other reference. -/
def KeepsPage (pgdir : Word) (m : Mem) : TableAct → Prop
  | .insert va pa perm => IsPage (downAlign pa) ∧ IsPerm perm ∧ downAlign pa ∉ m.freePages ∧
      ¬(ramPage (m.entry pgdir va) = some (downAlign pa) ∧ m.ref (downAlign pa) = 1)
  | _ => True

instance (pa : Word) : Decidable (IsPage pa) :=
  decidable_of_iff (downAlign pa = pa ∧ pa.toNat < 2 ^ 56) ⟨fun h => ⟨h.1, h.2⟩, fun h => ⟨h.aligned, h.fits⟩⟩

instance (pgdir : Word) (m : Mem) (a : TableAct) : Decidable (KeepsPage pgdir m a) := by
  cases a with
  | insert va pa perm => exact inferInstanceAs (Decidable (_ ∧ _))
  | alloc => exact inferInstanceAs (Decidable True)
  | remove va => exact inferInstanceAs (Decidable True)

lemma not_mem_cleared (hfree : page ∉ m.freePages)
    (hlast : ¬(ramPage (m.entry pgdir va) = some page ∧ m.ref page = 1)) : page ∉ (cleared m pgdir va).freePages := by
  unfold cleared
  split
  · cases hpage : ramPage (m.entry pgdir va) with
    | none =>
      have hother := ramPage_eq_none hpage
      rw [← entry_downAlign] at hother
      rw [pageRemove_other hother]
      exact hfree
    | some old =>
      rcases ramPage_eq_some.1 hpage with ⟨hvalid, hram, rfl⟩
      rcases exists_node_of_valid hvalid with ⟨k, hk⟩
      rw [← entry_downAlign] at hvalid hram
      rw [← pathOf_downAlign] at hk
      rw [pageRemove_ram hvalid hram hk, store_freePages, mem_release, entry_downAlign]
      rintro (⟨rfl, hzero⟩ | hin)
      · rw [release_ref, Function.update_self] at hzero
        exact hlast ⟨hpage, BitVec.sub_eq_iff_eq_add.1 hzero⟩
      · exact hfree hin
  · exact hfree

lemma Ready.accounts (h : Ready m) : Accounts (fun page => (m.ref page).toNat) m ∅ := by
  have hnone : ∀ page, ¬m.IsTable (∅ : Finset Word) page := by
    rintro page ⟨b, hb, _⟩
    exact absurd (Finset.mem_coe.1 hb) (Finset.notMem_empty b)
  have hmap : ∀ page, mappings m ∅ page = 0 := by
    intro page
    unfold mappings occ
    rw [Finset.card_eq_zero, Finset.filter_eq_empty_iff]
    intro y hy
    exact absurd (mem_slots.1 hy) (Finset.notMem_empty y.1)
  refine ⟨⟨⟨?_, ?_⟩, ?_, h.nodup, h.ram⟩, ?_, h.freeRef, ?_, h.bounded⟩
  · intro b hb
    exact absurd (Finset.mem_coe.1 hb) (Finset.notMem_empty b)
  · intro b hb
    exact absurd (Finset.mem_coe.1 hb) (Finset.notMem_empty b)
  · intro page hpage
    exact absurd hpage (hnone page)
  · intro page hpage
    exact absurd hpage (hnone page)
  · intro page
    rw [hmap, tableCount_of_not (hnone page), Nat.add_zero]

lemma tableStep_accounts {L : Finset Word} {a : TableAct} (h : Accounts base m L)
    (hroot : pgdir ∈ L) (hkeeps : KeepsPage pgdir m a) (hstep : tableStep pgdir m a = some m') :
    Accounts base m' L := by
  cases a with
  | alloc =>
    rcases Option.map_eq_some_iff.1 hstep with ⟨⟨page, u⟩, halloc, rfl⟩
    exact h.alloc halloc
  | insert va pa perm =>
    rcases hkeeps with ⟨hpa, hperm, hfree, hlast⟩
    exact h.insertPage hroot hpa hperm (fun _ => not_mem_cleared hfree hlast) hstep
  | remove va =>
    cases hstep
    exact h.remove hroot va

/-! ## Tearing it down -/

/-- What `pgdirFree` is to do with the pages that the table holds. -/
structure TornDown (m : Mem) (pgdir : Word) (m' : Mem) : Prop where
  tables : ∀ page, m.IsTable {pgdir} page → m'.ref page = 0 ∧ m'.freePages.count page = 1
  lowered : ∀ page, ¬m.IsTable {pgdir} page →
    (m'.ref page).toNat + mappings m {pgdir} page = (m.ref page).toNat
  freed : ∀ page, ¬m.IsTable {pgdir} page → 0 < mappings m {pgdir} page → m'.ref page = 0 →
    m'.freePages.count page = 1
  kept : ∀ page, ¬m.IsTable {pgdir} page → mappings m {pgdir} page = 0 ∨ m'.ref page ≠ 0 →
    m'.freePages.count page = m.freePages.count page

/-- The state in which the table may be given up. -/
structure Referenced (m : Mem) (pgdir : Word) : Prop where
  tables : ∀ page, m.IsTable {pgdir} page → m.ref page = 1
  leaves : ∀ page, mappings m {pgdir} page ≤ (m.ref page).toNat

def TeardownExact (m : Mem) (pgdir : Word) : Prop :=
  Referenced m pgdir → ∃ m', pgdirFree m pgdir = some m' ∧ TornDown m pgdir m'

lemma Accounts.teardownExact (h : Accounts base m {pgdir}) : TeardownExact m pgdir := by
  intro href
  have hshape : Shape m {pgdir} := by
    have := h.tables.toShape
    rwa [Finset.coe_singleton] at this
  have hself : pgdir ∈ ({pgdir} : Set Word) := rfl
  have hcount : ∀ page, (m.ref page).toNat = base page + mappings m {pgdir} page + tableCount m {pgdir} page := h.count
  -- a table has its one reference from the tables, so no leaf maps it
  have htable : ∀ page, m.IsTable {pgdir} page → mappings m {pgdir} page = 0 := by
    intro page ht
    have hone : (m.ref page).toNat = 1 := by
      rw [href.tables page ht]
      rfl
    have hc := hcount page
    rw [← Finset.coe_singleton] at ht
    rw [tableCount_of ht] at hc
    omega
  have hreleases : ∀ page, (releases m pgdir).count page =
      (tablePages m pgdir).count page + mappings m {pgdir} page := releases_count hshape hself
  have hin : ∀ page, m.IsTable {pgdir} page → (releases m pgdir).count page = 1 := by
    intro page ht
    rw [hreleases, htable page ht, count_eq_one_of_mem (tablePages_nodup hshape hself) (mem_tablePages.2 ht)]
  have hout : ∀ page, ¬m.IsTable {pgdir} page → (releases m pgdir).count page = mappings m {pgdir} page := by
    intro page ht
    rw [hreleases, count_eq_zero_of_not_mem fun hin => ht (mem_tablePages.1 hin), Nat.zero_add]
  have hle : ∀ page, (releases m pgdir).count page ≤ (m.ref page).toNat := by
    intro page
    by_cases ht : m.IsTable {pgdir} page
    · rw [hin page ht, href.tables page ht]
      exact Nat.le_refl 1
    · rw [hout page ht]
      exact href.leaves page
  rcases pgdirFree_gives hshape hself hle (fun p t hp ht => href.tables t ⟨pgdir, rfl, p, hp, ht⟩) with
    ⟨m', hfree, hgives⟩
  refine ⟨m', hfree, ?_, ?_, ?_, ?_⟩
  · intro page ht
    have hcount' := hgives.count page
    have hlist := hgives.free page
    rw [hin page ht, href.tables page ht] at hcount'
    have hzero : (m'.ref page).toNat = 0 := by
      have : (1 : BitVec 32).toNat = 1 := rfl
      omega
    have hmem : page ∈ releases m pgdir := count_pos_iff.1 (by rw [hin page ht]; exact Nat.one_pos)
    have hnot : page ∉ m.freePages := h.tables.notFree page (by rwa [Finset.coe_singleton])
    rw [if_pos ⟨hmem, hzero⟩, count_eq_zero_of_not_mem hnot] at hlist
    exact ⟨BitVec.eq_of_toNat_eq hzero, hlist⟩
  · intro page ht
    rw [← hout page ht]
    exact hgives.count page
  · intro page ht hpos hzero
    have hlist := hgives.free page
    have hmem : page ∈ releases m pgdir := count_pos_iff.1 (by rw [hout page ht]; exact hpos)
    rw [if_pos ⟨hmem, congrArg BitVec.toNat hzero⟩, count_eq_zero_of_not_mem (h.not_free hpos)] at hlist
    exact hlist
  · intro page ht hkept
    have hlist := hgives.free page
    rw [if_neg, Nat.add_zero] at hlist
    · exact hlist
    · rintro ⟨hmem, hzero⟩
      rcases hkept with hnone | hmore
      · have hpos := count_pos_iff.2 hmem
        rw [hout page ht] at hpos
        omega
      · exact hmore (BitVec.eq_of_toNat_eq hzero)

theorem teardown_exact {acts : List TableAct} (hready : Ready m₀) (halloc : allocPgdir m₀ = some (pgdir, m₁))
    (hrun : Run (fun m a m' => KeepsPage pgdir m a ∧ tableStep pgdir m a = some m') m₁ acts m) :
    TeardownExact m pgdir := by
  have hfirst : Accounts (fun page => (m₀.ref page).toNat) m₁ {pgdir} := hready.accounts.newTable halloc
  have hself : pgdir ∈ ({pgdir} : Finset Word) := Finset.mem_singleton_self pgdir
  have hlast : Accounts (fun page => (m₀.ref page).toNat) m {pgdir} :=
    hrun.invariant hfirst fun _ _ _ h hstep => tableStep_accounts h hself hstep.1 hstep.2
  exact hlast.teardownExact

/-- `Referenced`, computed from the pages that the table holds. -/
def referencedCheck (m : Mem) (pgdir : Word) : Bool :=
  (tablePages m pgdir).all (fun page => m.ref page = 1) &&
    (leafPages m pgdir).all fun page => (leafPages m pgdir).count page ≤ (m.ref page).toNat

lemma referenced_of_check (h : referencedCheck m pgdir = true) : Referenced m pgdir := by
  rw [referencedCheck, Bool.and_eq_true, all_eq_true, all_eq_true] at h
  refine ⟨?_, ?_⟩
  · intro page ht
    exact of_decide_eq_true (h.1 page (mem_tablePages.2 ht))
  · intro page
    rw [← leafPages_count]
    by_cases hin : page ∈ leafPages m pgdir
    · exact of_decide_eq_true (h.2 page hin)
    · rw [count_eq_zero_of_not_mem hin]
      exact Nat.zero_le _

/-- Zeroed memory with free pages. -/
def fourPages : Mem :=
  { word := fun _ _ => 0, ref := fun _ => 0, freePages := [0x80300000, 0x80400000, 0x80301000, 0x80302000] }

lemma ready_fourPages : Ready fourPages := by
  have hram : ∀ page ∈ fourPages.freePages, isRam page = true ∧ downAlign page = page :=
    forall_mem_cons.2 ⟨by decide +kernel, forall_mem_cons.2 ⟨by decide +kernel,
      forall_mem_cons.2 ⟨by decide +kernel, forall_mem_cons.2 ⟨by decide +kernel, forall_mem_nil _⟩⟩⟩⟩
  exact ⟨by decide +kernel, hram, fun _ _ => rfl, fun _ => Nat.pow_pos Nat.two_pos⟩

/-- A page is allocated and mapped, and the table is given up. -/
theorem teardown_exact_page : ∃ m₁ m, allocPgdir fourPages = some (0x80300000, m₁) ∧
      Run (fun m a m' => KeepsPage 0x80300000 m a ∧ tableStep 0x80300000 m a = some m') m₁
        [.alloc, .insert 0x10000 0x80400000 (pteUser ||| pteRead)] m ∧
      Referenced m 0x80300000 ∧ TeardownExact m 0x80300000 := by
  have hstart : ∃ m₁, allocPgdir fourPages = some (0x80300000, m₁) := ⟨_, rfl⟩
  rcases hstart with ⟨m₁, hm₁⟩
  have hview : ((allocPgdir fourPages).bind fun start =>
      runAll (fun m a => if KeepsPage 0x80300000 m a then tableStep 0x80300000 m a else none) start.2
        [.alloc, .insert 0x10000 0x80400000 (pteUser ||| pteRead)]).map (fun m => referencedCheck m 0x80300000) =
      some true := by
    decide +kernel
  rw [hm₁, Option.bind_some] at hview
  rcases Option.map_eq_some_iff.1 hview with ⟨m, hm, hcheck⟩
  have hrun := run_of_runAll_guarded hm
  exact ⟨m₁, m, hm₁, hrun, referenced_of_check hcheck, teardown_exact ready_fourPages hm₁ hrun⟩

/-- The page at 0x80400000 is put in twice more where it is mapped already, and so is on `freePages` twice; then a
new part of the address space takes it for both of its tables. -/
def selfInserts : List TableAct :=
  [.insert 0x10000 0x80400000 (pteUser ||| pteRead), .insert 0x10000 0x80400000 (pteUser ||| pteRead),
    .insert 0x10000 0x80400000 (pteUser ||| pteRead), .insert 0x40001000 0x80401000 (pteUser ||| pteRead),
    .remove 0x10000, .remove 0x40000000]

/-- Memory with three free pages.  The page at 0x80401000 holds data: the first word happens to be an entry for
0x80300000. -/
def threePages : Mem :=
  { word := fun page i => if page = 0x80401000 ∧ i = 0 then pa2Pte 0x80300000 ||| pteValid else 0
    ref := fun _ => 0
    freePages := [0x80300000, 0x80301000, 0x80302000] }

lemma ready_threePages : Ready threePages := by
  have hram : ∀ page ∈ threePages.freePages, isRam page = true ∧ downAlign page = page :=
    forall_mem_cons.2 ⟨by decide +kernel, forall_mem_cons.2 ⟨by decide +kernel,
      forall_mem_cons.2 ⟨by decide +kernel, forall_mem_nil _⟩⟩⟩
  exact ⟨by decide +kernel, hram, fun _ _ => rfl, fun _ => Nat.pow_pos Nat.two_pos⟩

theorem teardown_panics : ∃ m₁ m, Ready threePages ∧ allocPgdir threePages = some (0x80300000, m₁) ∧
      Run (fun m a m' => tableStep 0x80300000 m a = some m') m₁ selfInserts m ∧
      Referenced m 0x80300000 ∧ pgdirFree m 0x80300000 = none ∧ ¬TeardownExact m 0x80300000 := by
  have hstart : ∃ m₁, allocPgdir threePages = some (0x80300000, m₁) := ⟨_, rfl⟩
  rcases hstart with ⟨m₁, hm₁⟩
  have hview : ((allocPgdir threePages).bind fun start => runAll (tableStep 0x80300000) start.2 selfInserts).map
      (fun m => (referencedCheck m 0x80300000, (pgdirFree m 0x80300000).isNone)) = some (true, true) := by
    decide +kernel
  rw [hm₁, Option.bind_some] at hview
  rcases Option.map_eq_some_iff.1 hview with ⟨m, hm, hends⟩
  rcases Prod.mk.inj hends with ⟨hcheck, hnone⟩
  have href := referenced_of_check hcheck
  have hpanic : pgdirFree m 0x80300000 = none := Option.isNone_iff_eq_none.1 hnone
  refine ⟨m₁, m, ready_threePages, hm₁, run_of_runAll hm, href, hpanic, ?_⟩
  intro hexact
  rcases hexact href with ⟨m', hsome, _⟩
  rw [hpanic] at hsome
  cases hsome

end Paging
end OsRiscv
