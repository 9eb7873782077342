import OsRiscv.Exec.Pageout
import OsRiscv.Paging.Built

/-!
# Fault — what `userTrap` does to the page of the address that faulted

`userTrap` of `Trap.c`, with `pageout` of `Page.c` on the memory.  `pageout` and `cowHandler` both end with a new page
that is filled and put where another one may be mapped: `mapPage`.  For load and store faults the handler looks
whether a page is there; for every other exception it goes to `pageout` at once, and a page that was there is gone.
-/

namespace OsRiscv
namespace Paging

open Function (update update_idem update_of_ne update_self)
open Lib List

/-- The words that a process sees on the page of an address, if one is mapped there. -/
def seen (m : Mem) (pgdir va : Word) : Option (Fin 512 → Word) :=
  if has (m.entry pgdir va) pteValid then some (m.word (pte2Pa (m.entry pgdir va))) else none

/-- A page from `pageAlloc` that is filled and goes to `pageInsert`. -/
def mapPage (m : Mem) (pgdir va : Word) (content : Fin 512 → Word) (perm : Word) : Kernel (Word × Mem) := do
  let (page, m) ← pageAlloc m
  let m ← pageInsert { m with word := update m.word page content } pgdir va page perm
  return (page + (va &&& 0xfff), m)

/-- The words and the permissions of the page for an address, or nothing for a panic. -/
abbrev Loader := Word → Option ((Fin 512 → Word) × BitVec 10)

/-- The page that the stack or the segment maps of a process give. -/
def loaderOf (t : Tree.Fs) (maps : List Exec.SegmentMap) : Loader := fun badAddr =>
  (Exec.pageout t maps badAddr.toNat).map fun page =>
    (fun i => BitVec.ofNat 64 (ofLe (slice page.bytes (8 * i) 8)), BitVec.ofNat 10 page.perm)

def pageout (load : Loader) (m : Mem) (pgdir badAddr : Word) : Except Stop (Word × Mem) := orPanic do
  let (content, perm) ← load badAddr
  mapPage m pgdir badAddr content (perm.setWidth 64)

/-- The exceptions of user code but for the system calls. -/
inductive Cause
  | loadPageFault
  | storePageFault
  | other
  deriving DecidableEq

/-- `userTrap`, as far as the memory is concerned: `SIGSEGV` leaves it alone.  `pageLookup` returns 0 without a page. -/
def userTrap (load : Loader) (m : Mem) (pgdir stval : Word) : Cause → Except Stop Mem
  | .loadPageFault =>
    match (pageLookup m pgdir stval).filter (·.1 ≠ 0) with
    | none => Prod.snd <$> pageout load m pgdir stval
    | some (_, pte) => if !has (m.load pte) pteRead then return m else .error .panic
  | .storePageFault =>
    match (pageLookup m pgdir stval).filter (·.1 ≠ 0) with
    | none => Prod.snd <$> pageout load m pgdir stval
    | some (_, pte) =>
      if has (m.load pte) pteCow then Prod.snd <$> cowHandler m pgdir stval
      else if !has (m.load pte) pteWrite then return m
      else .error .panic
  | .other => Prod.snd <$> pageout load m pgdir stval

/-- The exceptions for which the handler finds the page. -/
def Answered (m : Mem) (pgdir va : Word) (cause : Cause) : Prop :=
  cause ≠ .other ∧ pte2Pa (m.entry pgdir va) ≠ 0

variable {base : Word → Nat} {m m' : Mem} {S : Set Word} {L : Finset Word} {a va pa perm page : Word}
  {content : Fin 512 → Word} {load : Loader} {cause : Cause}

/-! ## A new page in the place of another -/

lemma isTable_of_node {k : Word} (ha : a ∈ S) (hk : m.node a (pathOf va) = some k) : m.IsTable S k :=
  ⟨a, ha, pathOf va, Nat.le_refl 2, hk⟩

lemma cleared_word (ha : a ∈ S) {y : Word} (hy : ¬m.IsTable S y) :
    (cleared m a va).word y = m.word y := by
  unfold cleared
  split
  · rename_i hvalid
    rw [← entry_downAlign] at hvalid
    cases hram : isRam (pte2Pa (m.entry a (downAlign va))) with
    | false => rw [pageRemove_other (.inr hram)]
    | true =>
      rcases exists_node_of_valid hvalid with ⟨k, hk⟩
      have hne : y ≠ k := fun heq => hy (heq ▸ isTable_of_node ha hk)
      rw [pageRemove_ram hvalid hram hk]
      funext j
      rw [← @release_word m]
      exact Radix.write_of_node_ne hne
  · rfl

/-- Where a page was mapped, `pageInsert` writes to no page but tables. -/
theorem pageInsert_data (ht : Tables m S) (ha : a ∈ S) (hvalid : has (m.entry a va) pteValid = true)
    (hinsert : pageInsert m a va pa perm = some m') {y : Word} (hy : ¬m.IsTable S y) : m'.word y = m.word y := by
  rcases pageInsert_walk ht ha hinsert with ⟨u, k, fs, rfl, hk, _, _, hsame⟩
  rw [hsame hvalid] at hk ⊢
  rw [cleared_node ht.toShape ha ha (by exact Nat.le_refl 2)] at hk
  have hne : y ≠ k := fun heq => hy (heq ▸ isTable_of_node ha hk)
  rw [setEntry_word, ← @cleared_word m S a va ha y hy]
  funext j
  exact Radix.write_of_node_ne hne

/-- What `mapPage` does, with the page that it takes. -/
structure Mapped (base : Word → Nat) (L : Finset Word) (a va perm : Word) (content : Fin 512 → Word) (m : Mem)
    (page : Word) (m' : Mem) : Prop where
  free : page ∈ m.freePages
  accounts : Accounts base m' L
  sets : Sets L a va (newEntry page perm) m m'
  data : has (m.entry a va) pteValid = true → ∀ y, ¬m.IsTable L y →
    m'.word y = update m.word page content y

lemma mapPage_mapped (h : Accounts base m L) (ha : a ∈ L) (hperm : IsPerm perm)
    (hmap : mapPage m a va content perm = some (pa, m')) :
    ∃ page, Mapped base L a va perm content m page m' := by
  rcases Option.bind_eq_some_iff.1 hmap with ⟨⟨page, u⟩, halloc, hrest⟩
  rcases Option.bind_eq_some_iff.1 hrest with ⟨m'', hinsert, hret⟩
  cases hret
  rcases pageAlloc_spec halloc with ⟨hfree, href, hword⟩
  have hin : page ∈ m.freePages := hfree ▸ mem_cons_self ..
  have hword' : update u.word page content = update m.word page content := by
    rw [hword, update_idem]
  -- the tables do not see the new page
  have hagree : ∀ y, m.IsTable L y → update u.word page content y = m.word y := by
    intro y hy
    rw [hword', update_of_ne]
    rintro rfl
    exact h.tables.notFree y hy hin
  have h' : Accounts base { u with word := update u.word page content } L :=
    h.of_data hagree ⟨[page], hfree⟩ href
  have hleaf : ∀ b ∈ L, ∀ q : List (Fin 512), q.length = 2 → ∀ j,
      ({ u with word := update u.word page content } : Mem).leaf b q j = m.leaf b q j :=
    fun b hb q hq j => Radix.leaf_of_agree hagree hb (Nat.le_of_eq hq)
  have hpage := h.tables.isPage hin
  have hnot : page ∉ u.freePages := (nodup_cons.1 (hfree ▸ h.tables.nodup)).1
  refine ⟨page, hin, h'.insertPage ha (hpage.aligned.symm ▸ hpage) hperm (fun _ => ?_) hinsert, ?_, ?_⟩
  · rw [hpage.aligned]
    refine not_mem_cleared hnot fun hlast => ?_
    have hzero : u.ref page = 0 := href ▸ h.freeRef page hin
    exact absurd (hzero.symm.trans hlast.2) (by decide)
  · intro b hb q hq j
    rw [pageInsert_sets h'.tables ha hinsert b hb q hq j, hleaf b hb q hq j]
  · intro hvalid y hy
    have hvalid' : has (({ u with word := update u.word page content } : Mem).entry a va) pteValid = true := by
      rw [Mem.entry, hleaf a ha (pathOf va) rfl]
      exact hvalid
    rw [pageInsert_data h'.tables ha hvalid' hinsert, ← hword']
    rintro ⟨b, hb, q, hq, hbq⟩
    exact hy ⟨b, hb, q, hq, (Radix.node_of_agree hagree hb hq).symm.trans hbq⟩

namespace Mapped

variable (hm : Mapped base L a va perm content m page m')
include hm

lemma entry (ha : a ∈ L) (h : Accounts base m L) (hperm : IsPerm perm) :
    has (m'.entry a va) pteValid = true ∧ pte2Pa (m'.entry a va) = page := by
  have hpage := h.tables.isPage hm.free
  rw [hm.sets.entry ha]
  refine ⟨has_valid_or _, ?_⟩
  rw [newEntry_eq hpage, pte2Pa_entry hpage (isPerm_newPerm hperm)]

lemma seen (ha : a ∈ L) (h : Accounts base m L) (hperm : IsPerm perm)
    (hvalid : has (m.entry a va) pteValid = true) : seen m' a va = some content := by
  rcases hm.entry ha h hperm with ⟨hvalid', hpa⟩
  rw [Paging.seen, if_pos hvalid', hpa, hm.data hvalid page fun ht => h.tables.notFree page ht hm.free,
    update_self]

end Mapped

/-! ## `pageout` and `cowHandler` -/

lemma isPerm_setWidth (perm : BitVec 10) : IsPerm (perm.setWidth 64) := by
  apply BitVec.eq_of_getLsbD_eq
  intro i hi
  rw [BitVec.getLsbD_and, BitVec.getLsbD_setWidth, paMask_getLsbD]
  by_cases hlow : i < 10
  · simp [hlow]
  · simp [BitVec.getLsbD_of_ge perm i (Nat.not_lt.1 hlow)]

/-- The permissions of the copy. -/
def ownPerm (pte : Word) : Word := (pte2Perm pte ||| pteWrite) &&& ~~~pteCow

lemma isPerm_ownPerm (pte : Word) : IsPerm (ownPerm pte) := by
  apply BitVec.eq_of_getLsbD_eq
  intro i hi
  have hwrite : IsPerm pteWrite := by decide
  have hbit := congrArg (fun x : Word => x.getLsbD i) hwrite
  simp only [ownPerm, pte2Perm, BitVec.getLsbD_and, BitVec.getLsbD_or, BitVec.getLsbD_not] at hbit ⊢
  cases hmask : paMask.getLsbD i with
  | false => simp
  | true =>
    have hnot : pteWrite.getLsbD i = false := by simpa [hmask] using hbit
    simp [hnot]

section

variable (h : Accounts base m L) (ha : a ∈ L) (hvalid : has (m.entry a va) pteValid = true)
include h ha hvalid

lemma Accounts.not_free_entry :
    pte2Pa (m.entry a va) ∉ m.freePages := by
  intro hfree
  have hram : ramPage (m.entry a va) = some (pte2Pa (m.entry a va)) :=
    ramPage_eq_some.2 ⟨hvalid, (h.tables.ram _ hfree).1, rfl⟩
  exact h.not_free (pos_of_entry ha hram) hfree

lemma cowHandler_eq
    (hcow : has (m.entry a va) pteCow = true) : cowHandler m a va =
      orPanic (mapPage m a va (m.word (pte2Pa (m.entry a va))) (ownPerm (m.entry a va))) := by
  rcases exists_node_of_valid hvalid with ⟨k, hk⟩
  have hlookup : pageLookup m a va = some (pte2Pa (m.entry a va), (k, getPageTableIndex va 0)) := by
    rw [pageLookup_eq, if_pos hvalid, hk]
    rfl
  have hload : m.load (k, getPageTableIndex va 0) = m.entry a va := (entry_of_node hk).symm
  unfold cowHandler mapPage
  rw [hlookup]
  dsimp only
  rw [hload, if_pos hcow]
  cases halloc : pageAlloc m with
  | none => rfl
  | some x =>
    rcases x with ⟨page, u⟩
    rcases pageAlloc_spec halloc with ⟨hfree, _, hword⟩
    have hin : page ∈ m.freePages := hfree ▸ mem_cons_self ..
    have hagree : ∀ y, m.IsTable L y → u.word y = m.word y := by
      intro y hy
      rw [hword, update_of_ne]
      rintro rfl
      exact h.tables.notFree y hy hin
    have hnode : u.node a (pathOf va) = some k := (Radix.node_of_agree hagree ha (by exact Nat.le_refl 2)).trans hk
    have hentry : u.entry a va = m.entry a va := Radix.leaf_of_agree hagree ha (Nat.le_refl 2)
    have hlookup' : pageLookup u a va = some (pte2Pa (m.entry a va), (k, getPageTableIndex va 0)) := by
      rw [pageLookup_eq, hentry, if_pos hvalid, hnode]
      rfl
    have hcontent : u.word (pte2Pa (m.entry a va)) = m.word (pte2Pa (m.entry a va)) := by
      rw [hword, update_of_ne]
      intro heq
      exact h.not_free_entry ha hvalid (heq ▸ hin)
    have hload' : (copyPage u (pte2Pa (m.entry a va)) page).load (k, getPageTableIndex va 0) = m.entry a va := by
      have hne : k ≠ page := by
        rintro rfl
        exact h.tables.notFree k (isTable_of_node ha hk) hin
      show update u.word page _ k _ = _
      rw [update_of_ne hne, hagree k (isTable_of_node ha hk)]
      exact hload
    simp only [orPanic, hlookup', Option.getD_some, bind, Except.bind, Option.bind, hload']
    rw [copyPage, hcontent]
    change (orPanic (pageInsert _ a va page (ownPerm (m.entry a va)))).bind _ = _
    cases pageInsert { u with word := update u.word page (m.word (pte2Pa (m.entry a va))) } a va page
        (ownPerm (m.entry a va)) with
    | none => rfl
    | some m' => rfl

omit h ha hvalid in
lemma ok_of_orPanic {α : Type} {x : Kernel α} {y : α} (h : orPanic x = .ok y) : x = some y := by
  cases x with
  | none => cases h
  | some z =>
    cases h
    rfl

lemma cowHandler_seen
    (hcow : has (m.entry a va) pteCow = true) (hok : cowHandler m a va = .ok (pa, m')) :
    seen m' a va = seen m a va := by
  rw [cowHandler_eq h ha hvalid hcow] at hok
  rcases mapPage_mapped h ha (isPerm_ownPerm _) (ok_of_orPanic hok) with ⟨page, hm⟩
  rw [hm.seen ha h (isPerm_ownPerm _) hvalid, seen, if_pos hvalid]

lemma pageout_seen
    (hok : pageout load m a va = .ok (pa, m')) : seen m' a va = (load va).map Prod.fst := by
  rcases Option.bind_eq_some_iff.1 (ok_of_orPanic hok) with ⟨⟨content, perm⟩, hload, hmap⟩
  rcases mapPage_mapped h ha (isPerm_setWidth perm) hmap with ⟨page, hm⟩
  rw [hm.seen ha h (isPerm_setWidth perm) hvalid, hload]
  rfl

end

/-! ## `userTrap` -/

lemma snd_map_ok {x : Except Stop (Word × Mem)} (h : Prod.snd <$> x = .ok m') : ∃ pa, x = .ok (pa, m') := by
  cases x with
  | error stop => cases h
  | ok y =>
    cases h
    exact ⟨y.1, rfl⟩

lemma userTrap_answered (hvalid : has (m.entry a va) pteValid = true) (hans : Answered m a va cause)
    (htrap : userTrap load m a va cause = .ok m') :
    m' = m ∨ has (m.entry a va) pteCow = true ∧ ∃ pa, cowHandler m a va = .ok (pa, m') := by
  rcases exists_node_of_valid hvalid with ⟨k, hk⟩
  have hfound : (pageLookup m a va).filter (·.1 ≠ 0) =
      some (pte2Pa (m.entry a va), (k, getPageTableIndex va 0)) := by
    rw [pageLookup_eq, if_pos hvalid, hk, Option.map_some, Option.filter_some_pos]
    exact decide_eq_true hans.2
  have hload : m.load (k, getPageTableIndex va 0) = m.entry a va := (entry_of_node hk).symm
  cases cause with
  | other => exact absurd rfl hans.1
  | loadPageFault =>
    simp only [userTrap, hfound] at htrap
    split at htrap
    · cases htrap
      exact .inl rfl
    · cases htrap
  | storePageFault =>
    simp only [userTrap, hfound, hload] at htrap
    split at htrap
    · rename_i hcow
      exact .inr ⟨hcow, snd_map_ok htrap⟩
    · split at htrap
      · cases htrap
        exact .inl rfl
      · cases htrap

lemma userTrap_unanswered (hno : ¬Answered m a va cause) :
    userTrap load m a va cause = Prod.snd <$> pageout load m a va := by
  have hnone : cause ≠ .other → (pageLookup m a va).filter (·.1 ≠ 0) = none := by
    intro hcause
    have hzero : pte2Pa (m.entry a va) = 0 := by
      by_contra hne
      exact hno ⟨hcause, hne⟩
    rw [pageLookup_eq, hzero]
    split
    · cases m.node a (pathOf va) <;> rfl
    · rfl
  cases cause with
  | other => rfl
  | loadPageFault => simp only [userTrap, hnone nofun]
  | storePageFault => simp only [userTrap, hnone nofun]

/-- A fault on a page that is mapped: its bytes stay if the handler looks for the page, and then it is left where it
is or copied by `cowHandler`; otherwise they stay only if the new page happens to hold the same. -/
theorem fault_keeps_page_iff (h : Accounts base m L) (ha : a ∈ L) (hvalid : has (m.entry a va) pteValid = true)
    (htrap : userTrap load m a va cause = .ok m') :
    (seen m' a va = seen m a va ↔ Answered m a va cause ∨ (load va).map Prod.fst = seen m a va) ∧
      (Answered m a va cause → m' = m ∨ ∃ pa, cowHandler m a va = .ok (pa, m')) := by
  by_cases hans : Answered m a va cause
  · rcases userTrap_answered hvalid hans htrap with rfl | ⟨hcow, pa, hok⟩
    · exact ⟨iff_of_true rfl (.inl hans), fun _ => .inl rfl⟩
    · exact ⟨iff_of_true (cowHandler_seen h ha hvalid hcow hok) (.inl hans), fun _ => .inr ⟨pa, hok⟩⟩
  · rw [userTrap_unanswered hans] at htrap
    rcases snd_map_ok htrap with ⟨pa, hok⟩
    rw [pageout_seen h ha hvalid hok]
    exact ⟨(or_iff_right hans).symm, fun hyes => absurd hyes hans⟩

def fivePages : Mem where
  word := fun _ _ => 0
  ref := fun _ => 0
  freePages := [0x80300000, 0x80400000, 0x80301000, 0x80302000, 0x80303000]

/-- A new address space with a page of the stack that holds 5 in every word. -/
def stackPage (perm : Word) : Kernel Mem := do
  let (pgdir, m) ← allocPgdir fivePages
  return (← mapPage m pgdir 0x3fffffc000 (fun _ => 5) perm).2

lemma fivePages_ready : Ready fivePages := by
  have hram : ∀ page ∈ fivePages.freePages, isRam page = true ∧ downAlign page = page := by
    simp only [fivePages, forall_mem_cons]
    exact ⟨by decide +kernel, by decide +kernel, by decide +kernel, by decide +kernel, by decide +kernel, nofun⟩
  exact ⟨by decide +kernel, hram, fun _ _ => rfl, fun _ => Nat.pow_pos Nat.two_pos⟩

lemma stackPage_accounts (hperm : IsPerm perm) (h : stackPage perm = some m) :
    Accounts (fun _ => 0) m {0x80300000} := by
  unfold stackPage at h
  rcases Option.bind_eq_some_iff.1 h with ⟨⟨pgdir, u⟩, halloc, hrest⟩
  rcases Option.bind_eq_some_iff.1 hrest with ⟨⟨pa, m'⟩, hmap, hret⟩
  cases hret
  have hnew := fivePages_ready.accounts.newTable halloc
  rcases mapPage_mapped hnew (Finset.mem_insert_self ..) hperm hmap with ⟨_, hm⟩
  cases halloc
  exact hm.accounts

/-- A store to a page that is shared copies it. -/
theorem fault_keeps_shared_page : ∃ m m', stackPage (pteUser ||| pteRead ||| pteCow) = some m ∧
    userTrap (loaderOf Tree.boot []) m 0x80300000 0x3fffffc008 .storePageFault = .ok m' ∧
    m'.entry 0x80300000 0x3fffffc008 ≠ m.entry 0x80300000 0x3fffffc008 ∧
    seen m' 0x80300000 0x3fffffc008 = seen m 0x80300000 0x3fffffc008 := by
  rcases exists_of_any (o := stackPage (pteUser ||| pteRead ||| pteCow)) (P := fun m =>
    has (m.entry 0x80300000 0x3fffffc008) pteValid = true ∧ pte2Pa (m.entry 0x80300000 0x3fffffc008) = 0x80400000 ∧
    (userTrap (loaderOf Tree.boot []) m 0x80300000 0x3fffffc008 .storePageFault).toOption.any (fun m' =>
      pte2Pa (m'.entry 0x80300000 0x3fffffc008) = 0x80303000) = true) (by decide +kernel) with ⟨m, hm, hvalid, hold, hx⟩
  rcases exists_of_any hx with ⟨m', htrap, hnew⟩
  have hok := eq_ok_of_toOption htrap
  have haccounts := stackPage_accounts (by decide) hm
  have hans : Answered m 0x80300000 0x3fffffc008 .storePageFault := ⟨nofun, by rw [hold]; decide⟩
  refine ⟨m, m', hm, hok, fun heq => ?_, ?_⟩
  · rw [heq, hold] at hnew
    exact absurd hnew (by decide)
  · exact (fault_keeps_page_iff haccounts (Finset.mem_singleton_self _) hvalid hok).1.2 (.inl hans)

/-- An instruction fetch from the stack, which may not be executed: the page of the stack is replaced by an empty
one. -/
theorem fetch_clears_stack : ∃ m m', Accounts (fun _ => 0) m {0x80300000} ∧
    has (m.entry 0x80300000 0x3fffffc008) pteValid = true ∧
    userTrap (loaderOf Tree.boot []) m 0x80300000 0x3fffffc008 .other = .ok m' ∧
    seen m' 0x80300000 0x3fffffc008 ≠ seen m 0x80300000 0x3fffffc008 := by
  rcases exists_of_any (o := stackPage (pteUser ||| pteRead ||| pteWrite)) (P := fun m =>
    has (m.entry 0x80300000 0x3fffffc008) pteValid = true ∧ (seen m 0x80300000 0x3fffffc008).map (· 0) = some 5 ∧
    (userTrap (loaderOf Tree.boot []) m 0x80300000 0x3fffffc008 .other).toOption.any (fun m' =>
      (seen m' 0x80300000 0x3fffffc008).map (· 0) = some 0) = true) (by decide +kernel) with ⟨m, hm, hvalid, hold, hx⟩
  rcases exists_of_any hx with ⟨m', htrap, hnew⟩
  refine ⟨m, m', stackPage_accounts (by decide) hm, hvalid, eq_ok_of_toOption htrap, fun heq => ?_⟩
  rw [heq, hold] at hnew
  exact absurd hnew (by decide)

end Paging
end OsRiscv
