import OsRiscv.Exec.Failed
import OsRiscv.Exec.Pageout

/-!
# Lazy — the pages that are loaded are the image of the program

After `exec` the process has the maps of the `PT_LOAD` headers, and a child has them in another order.  Each page that
`pageout` puts together is a page of the image, unless the bss of a segment is longer than the 32 bits of `len` or a
segment reaches into the last page of the address space.
-/

namespace OsRiscv
namespace Exec

open Lib List OsRiscv.Tree

/-! ## The image -/

/-- The address of a segment in memory. -/
def segBase (offset : Nat) (ph : Phdr) : Nat := (ph.vaddr + offset) % 2 ^ 64

def Covers (offset : Nat) (ph : Phdr) (a : Nat) : Prop := segBase offset ph ≤ a ∧ a < segBase offset ph + ph.memsz

instance (offset : Nat) (ph : Phdr) (a : Nat) : Decidable (Covers offset ph a) := inferInstanceAs (Decidable (_ ∧ _))

/-- The segments have no address in common. -/
def Apart (offset : Nat) (ph ph' : Phdr) : Prop := ∀ a, Covers offset ph a → ¬Covers offset ph' a

/-- What the program finds at an address: a byte of the file, 0 in the bss, and 0 where no segment is. -/
def imageByte (d : Dirent) (offset : Nat) (loads : List Phdr) (a : Nat) : UInt8 :=
  match loads.find? fun ph => Covers offset ph a with
  | none => 0
  | some ph => if a - segBase offset ph < ph.filesz then d.data (ph.offset + (a - segBase offset ph)) else 0

/-! ## Page faults and forks -/

/-- The maps of each process and the pages it has.  `family` is a history variable: the process that called `exec` and
its descendants. -/
structure Mem where
  maps : Nat → List SegmentMap
  page : Nat → Nat → Option Page
  family : Nat → Bool

inductive MemAct
  | fault (p badAddr : Nat)
  | fork (p child : Nat)

/-- A fault at an address without a page; a fork, which goes through the list and puts each copy in front. -/
def memStep (t : Fs) (m : Mem) : MemAct → Option Mem
  | .fault p badAddr =>
    match m.page p (badAddr / pageSize) with
    | some _ => none
    | none => (pageout t (m.maps p) badAddr).map fun pg =>
      { m with page := Function.update m.page p (Function.update (m.page p) (badAddr / pageSize) (some pg)) }
  | .fork p child => some
      { maps := Function.update m.maps child (m.maps p).reverse
        page := Function.update m.page child (m.page p)
        family := Function.update m.family child (m.family p) }

/-- The process 0 after `exec`, with some pages there already. -/
def launched (s : Sys) (page : Nat → Nat → Option Page) : Mem where
  maps p := if p = 0 then s.process.segmentMapHead.map s.segmentMap else []
  page := page
  family p := p = 0

/-- In every run, a fault of a process of the family in a segment gives it the page of the image. -/
def Faithful (s : Sys) (de : Ptr) (offset : Nat) (loads : List Phdr) : Prop :=
  ∀ page acts m, Run (fun m a m' => memStep s.fs m a = some m') (launched s page) acts m →
    ∀ p, m.family p = true → ∀ a < 2 ^ 64, pageSize < a → ¬(userStackBottom ≤ a ∧ a < userStackTop) →
      (∃ ph ∈ loads, Covers offset ph a) →
      ∃ pg, pageout s.fs (m.maps p) a = some pg ∧
        ∀ k < pageSize, pg.bytes k = imageByte (s.fs.dirent de) offset loads (downAlign a + k)

/-- A segment whose bss has a length of 32 bits, and that ends before the last page. -/
def Fits (offset : Nat) (ph : Phdr) : Prop :=
  ph.memsz - ph.filesz < 2 ^ 32 ∧ (0 < ph.memsz → segBase offset ph + ph.memsz ≤ 2 ^ 64 - pageSize)

variable {s s' : Sys} {env : Env} {t : Fs} {m m' : Mem} {de : Ptr} {d : Dirent} {elf : Ehdr} {ph ph' : Phdr}
  {psm : SegmentMap} {maps : List SegmentMap} {loads : List Phdr} {offset a n off : Nat} {act : MemAct}

/-! ## The maps of a header -/

lemma mem_mapsOf (h : psm ∈ mapsOf de offset ph) :
    (0 < ph.filesz ∧ psm.sourceFile = some de ∧ psm.va = segBase offset ph ∧ psm.fileOffset = ph.offset ∧
      psm.len = ph.filesz % 2 ^ 32 ∧ psm.flag &&& mapZero = 0) ∨
    (ph.filesz < ph.memsz ∧ psm.sourceFile = none ∧ psm.va = (ph.vaddr + ph.filesz + offset) % 2 ^ 64 ∧
      psm.len = (ph.memsz - ph.filesz) % 2 ^ 32) := by
  rcases mem_append.1 h with h | h
  · split at h
    · rename_i hpos
      rw [mem_singleton] at h
      subst h
      have hflag : (pteExecute ||| pteRead ||| pteWrite) &&& mapZero = 0 := by decide
      exact .inl ⟨hpos, rfl, rfl, rfl, rfl, hflag⟩
    · cases h
  · split at h
    · rename_i hlt
      rw [mem_singleton] at h
      subst h
      exact .inr ⟨hlt, rfl, rfl, rfl⟩
    · cases h

lemma bss_va (hbound : segBase offset ph + ph.memsz < 2 ^ 64) (hle : ph.filesz ≤ ph.memsz) :
    (ph.vaddr + ph.filesz + offset) % 2 ^ 64 = segBase offset ph + ph.filesz := by
  unfold segBase at hbound ⊢
  omega

lemma loadsOf_le (h : ph ∈ (loadsOf d n off).1) : ph.filesz ≤ ph.memsz := by
  induction n generalizing off with
  | zero => cases h
  | succ n ih =>
    unfold loadsOf at h
    cases hread : readPhdr d off with
    | none =>
      rw [hread] at h
      cases h
    | some ph' =>
      rw [hread] at h
      dsimp only at h
      split at h
      · exact ih h
      · split at h
        · cases h
        · rename_i hle
          rcases mem_cons.1 h with rfl | h
          · exact Nat.not_lt.1 hle
          · exact ih h

lemma readEhdr_kind (h : readEhdr d = some elf) : d.dev ≠ .zero ∧ d.dev ≠ .osrelease ∧ d.isDir = false := by
  unfold readEhdr eread at h
  cases hdev : d.dev with
  | zero =>
    have hformat : isElfFormat (List.replicate ehdrSize 0) = false := by decide
    simp [hdev, hformat] at h
  | osrelease =>
    rw [hdev] at h
    cases h
  | regular | none =>
    refine ⟨by simp, by simp, ?_⟩
    cases hdir : d.isDir with
    | false => rfl
    | true => simp [hdev, hdir, ehdrSize] at h

/-- A segment does not reach into the last page. -/
def Ends (offset : Nat) (ph : Phdr) : Prop := 0 < ph.memsz → segBase offset ph + ph.memsz ≤ 2 ^ 64 - pageSize

lemma covers_of_map {x : Nat} (hends : Ends offset ph) (hle : ph.filesz ≤ ph.memsz)
    (hmem : psm ∈ mapsOf de offset ph) (hx : psm.va ≤ x ∧ x < psm.va + psm.len) :
    Covers offset ph x ∧ x < segBase offset ph + ph.filesz + (ph.memsz - ph.filesz) % 2 ^ 32 := by
  rcases mem_mapsOf hmem with ⟨_, _, hva, _, hlen, _⟩ | ⟨hlt, _, hva, hlen⟩
  · rw [hva] at hx
    exact ⟨⟨hx.1, by omega⟩, by omega⟩
  · have hbound := hends (by omega)
    rw [bss_va (by unfold pageSize at hbound; omega) hle] at hva
    exact ⟨⟨by omega, by omega⟩, by omega⟩

lemma exists_of_meets {pageStart : Nat} (h : Meets pageStart psm) :
    ∃ x, pageStart ≤ x ∧ x < pageStart + pageSize ∧ psm.va ≤ x ∧ x < psm.va + psm.len := by
  unfold Meets at h
  exact ⟨max psm.va pageStart, by omega, by omega, by omega, by omega⟩

/-! ## A segment that fits -/

/-- The bytes of the segment are in a file that is read like any file. -/
structure InFile (d : Dirent) (ph : Phdr) : Prop where
  zero : d.dev ≠ .zero
  release : d.dev ≠ .osrelease
  notDir : d.isDir = false
  inside : ph.offset + ph.filesz ≤ d.fileSize
  size : d.fileSize < 2 ^ 32

lemma proper_of_fits (hfits : Fits offset ph) (hle : ph.filesz ≤ ph.memsz) (hfile : InFile (t.dirent de) ph)
    (hmem : psm ∈ mapsOf de offset ph) : Proper t psm := by
  have hinside := hfile.inside
  have hsize := hfile.size
  have hends := hfits.2
  unfold pageSize at hends
  rcases mem_mapsOf hmem with ⟨hpos, hsource, hva, hoff, hlen, hflag⟩ | ⟨hlt, hsource, hva, hlen⟩
  · have hmod : ph.filesz % 2 ^ 32 = ph.filesz := Nat.mod_eq_of_lt (by omega)
    rw [hmod] at hlen
    refine ⟨by rw [hva]; have := hends (by omega); omega, ?_⟩
    intro de' hde'
    rw [hsource] at hde'
    cases hde'
    refine ⟨hflag, hfile.zero, hfile.release, hfile.notDir, ?_, hsize⟩
    rw [hoff, hlen]
    exact hinside
  · rw [bss_va (by omega) hle] at hva
    refine ⟨by rw [hva]; omega, ?_⟩
    intro de' hde'
    rw [hsource] at hde'
    cases hde'

lemma mapByte_eq_some {b : UInt8} (hmem : psm ∈ mapsOf de offset ph) (hle : ph.filesz ≤ ph.memsz)
    (hbyte : mapByte t psm a = some b) : Covers offset ph a ∧ a - segBase offset ph < ph.filesz ∧
      b = (t.dirent de).data (ph.offset + (a - segBase offset ph)) := by
  unfold mapByte at hbyte
  rcases mem_mapsOf hmem with ⟨_, hsource, hva, hoff, hlen, _⟩ | ⟨_, hsource, _, _⟩
  · rw [hsource] at hbyte
    dsimp only at hbyte
    rw [hva, hoff] at hbyte
    split at hbyte
    · rename_i hin
      cases hbyte
      exact ⟨⟨hin.1, by omega⟩, by omega, rfl⟩
    · cases hbyte
  · rw [hsource] at hbyte
    cases hbyte

lemma exists_mapByte (hfile : InFile (t.dirent de) ph) (hcover : Covers offset ph a)
    (hin : a - segBase offset ph < ph.filesz) : ∃ psm ∈ mapsOf de offset ph,
      mapByte t psm a = some ((t.dirent de).data (ph.offset + (a - segBase offset ph))) := by
  have hinside := hfile.inside
  have hsize := hfile.size
  have hlow := hcover.1
  refine ⟨{ sourceFile := some de, va := segBase offset ph, fileOffset := ph.offset,
            len := ph.filesz % 2 ^ 32, flag := pteExecute ||| pteRead ||| pteWrite }, ?_, ?_⟩
  · unfold mapsOf
    rw [if_pos (by omega)]
    exact mem_append_left _ (mem_singleton.2 rfl)
  · unfold mapByte
    dsimp only
    rw [if_pos ⟨hlow, by omega⟩]

lemma exists_meets (hfits : Fits offset ph) (hle : ph.filesz ≤ ph.memsz) (hfile : InFile (t.dirent de) ph)
    (hcover : Covers offset ph a) : ∃ psm ∈ mapsOf de offset ph, Meets (downAlign a) psm := by
  have hinside := hfile.inside
  have hsize := hfile.size
  have hlow := hcover.1
  have hhigh := hcover.2
  have hends := hfits.2 (by omega)
  have hpage : downAlign a ≤ a ∧ a < downAlign a + pageSize ∧ downAlign a + pageSize < 2 ^ 64 := by
    unfold downAlign pageSize at *
    omega
  unfold Meets mapsOf
  by_cases hin : a - segBase offset ph < ph.filesz
  · rw [if_pos (by omega)]
    refine ⟨_, mem_append_left _ (mem_singleton.2 rfl), ?_⟩
    show max (segBase offset ph) _ < min ((segBase offset ph + ph.filesz % 2 ^ 32) % 2 ^ 64) _
    omega
  · have hbss := hfits.1
    rw [if_pos (show ph.memsz > ph.filesz by omega)]
    refine ⟨_, mem_append_right _ (mem_singleton.2 rfl), ?_⟩
    show max ((ph.vaddr + ph.filesz + offset) % 2 ^ 64) _ <
      min (((ph.vaddr + ph.filesz + offset) % 2 ^ 64 + (ph.memsz - ph.filesz) % 2 ^ 32) % 2 ^ 64) _
    rw [bss_va (by omega) hle]
    omega

/-! ## The image -/

lemma eq_of_covers (hapart : loads.Pairwise (Apart offset)) (hph : ph ∈ loads) (hph' : ph' ∈ loads)
    (hcover : Covers offset ph a) (hcover' : Covers offset ph' a) : ph = ph' := by
  by_contra hne
  have hsymm : Std.Symm (Apart offset) := ⟨fun p q hpq x hx hx' => hpq x hx' hx⟩
  exact hapart.forall hph hph' hne a hcover hcover'

lemma imageByte_of_covers (hapart : loads.Pairwise (Apart offset)) (hph : ph ∈ loads) (hcover : Covers offset ph a) :
    imageByte d offset loads a =
      if a - segBase offset ph < ph.filesz then d.data (ph.offset + (a - segBase offset ph)) else 0 := by
  unfold imageByte
  cases hfind : loads.find? fun ph => Covers offset ph a with
  | none =>
    have hnone := find?_eq_none.1 hfind ph hph
    simp only [decide_eq_true_eq] at hnone
    exact absurd hcover hnone
  | some ph' =>
    have hcover' : Covers offset ph' a := by simpa using find?_some hfind
    have heq := eq_of_covers hapart hph (mem_of_find?_eq_some hfind) hcover hcover'
    subst heq
    rfl

lemma imageByte_of_not_covers (hnone : ∀ ph ∈ loads, ¬Covers offset ph a) : imageByte d offset loads a = 0 := by
  unfold imageByte
  have hfind : (loads.find? fun ph => Covers offset ph a) = none := by
    simpa using hnone
  rw [hfind]

/-! ## One page -/

section

variable (hmaps : ∀ psm, psm ∈ maps ↔ psm ∈ loads.flatMap (mapsOf de offset))
  (hle : ∀ ph ∈ loads, ph.filesz ≤ ph.memsz) (hfile : ∀ ph ∈ loads, InFile (t.dirent de) ph)
  (hapart : loads.Pairwise (Apart offset))

include hmaps hle hfile hapart

/-- If all segments fit, a page is a page of the image. -/
theorem pageout_of_fits (hfits : ∀ ph ∈ loads, Fits offset ph) (hlow : pageSize < a)
    (hstack : ¬(userStackBottom ≤ a ∧ a < userStackTop)) (hcover : ∃ ph ∈ loads, Covers offset ph a) :
    ∃ pg, pageout t maps a = some pg ∧
      ∀ k < pageSize, pg.bytes k = imageByte (t.dirent de) offset loads (downAlign a + k) := by
  rcases hcover with ⟨ph, hph, hcover⟩
  have hproper : ∀ psm ∈ maps, Proper t psm := by
    intro psm hpsm
    rcases mem_flatMap.1 ((hmaps psm).1 hpsm) with ⟨ph, hph, hmem⟩
    exact proper_of_fits (hfits ph hph) (hle ph hph) (hfile ph hph) hmem
  have halign : downAlign a % pageSize = 0 := Nat.mul_mod_left _ _
  have hend : downAlign a + pageSize < 2 ^ 64 := by
    have hends := (hfits ph hph).2 (by have := hcover.1; have := hcover.2; omega)
    have hhigh := hcover.2
    unfold downAlign pageSize at *
    omega
  rcases exists_meets (hfits ph hph) (hle ph hph) (hfile ph hph) hcover with ⟨psm, hpsm, hmeets⟩
  have hsome : (maps.foldl (loadMap t (downAlign a)) none).isSome = true :=
    isSome_foldl (.inr ⟨psm, (hmaps psm).2 (mem_flatMap.2 ⟨ph, hph, hpsm⟩), hmeets⟩)
  rcases Option.isSome_iff_exists.1 hsome with ⟨pg, hpg⟩
  refine ⟨{ pg with perm := pteUser ||| pg.perm }, ?_, ?_⟩
  · unfold pageout
    rw [if_neg (by omega), if_neg hstack, hpg]
    rfl
  · intro k hk
    have hcontent : pg.bytes k = content (maps.foldl (loadMap t (downAlign a)) none) k := by
      rw [hpg]
      rfl
    rw [hcontent]
    by_cases hbyte : ∃ ph ∈ loads, Covers offset ph (downAlign a + k) ∧
        downAlign a + k - segBase offset ph < ph.filesz
    · -- an address with a byte in the file: every map that has one for it is of this segment
      rcases hbyte with ⟨ph, hph, hcover, hin⟩
      rw [imageByte_of_covers hapart hph hcover, if_pos hin]
      refine content_foldl_some halign hend hk hproper ?_ ?_
      · rcases exists_mapByte (hfile ph hph) hcover hin with ⟨psm, hpsm, hb⟩
        exact ⟨psm, (hmaps psm).2 (mem_flatMap.2 ⟨ph, hph, hpsm⟩), hb⟩
      · intro psm hpsm c hc
        rcases mem_flatMap.1 ((hmaps psm).1 hpsm) with ⟨ph', hph', hmem⟩
        rcases mapByte_eq_some hmem (hle ph' hph') hc with ⟨hcover', _, hc'⟩
        rw [hc', eq_of_covers hapart hph hph' hcover hcover']
    · -- the bss or a gap between segments: no map has a byte for it
      have hzero : imageByte (t.dirent de) offset loads (downAlign a + k) = 0 := by
        by_cases hsegment : ∃ ph ∈ loads, Covers offset ph (downAlign a + k)
        · rcases hsegment with ⟨ph, hph, hcover⟩
          rw [imageByte_of_covers hapart hph hcover, if_neg fun hin => hbyte ⟨ph, hph, hcover, hin⟩]
        · exact imageByte_of_not_covers fun ph hph hcover => hsegment ⟨ph, hph, hcover⟩
      rw [hzero, content_foldl_none halign hend hk hproper]
      · rfl
      · intro psm hpsm
        rcases mem_flatMap.1 ((hmaps psm).1 hpsm) with ⟨ph', hph', hmem⟩
        cases hc : mapByte t psm (downAlign a + k) with
        | none => rfl
        | some c =>
          rcases mapByte_eq_some hmem (hle ph' hph') hc with ⟨hcover', hin, _⟩
          exact absurd ⟨ph', hph', hcover', hin⟩ hbyte

omit hfile in
/-- A bss that is too long has a page that meets no map. -/
theorem exists_not_meets (hends : ∀ ph ∈ loads, Ends offset ph) (hph : ph ∈ loads)
    (hlong : 2 ^ 32 ≤ ph.memsz - ph.filesz) :
    ∃ a < 2 ^ 64, pageSize < a ∧ ¬(userStackBottom ≤ a ∧ a < userStackTop) ∧ Covers offset ph a ∧
      ∀ psm ∈ maps, ¬Meets (downAlign a) psm := by
  have hbound := hends ph hph (by omega)
  -- a page after the end of the last map of the segment, with a gigabyte to spare if the stack is there
  have hpage : ∃ q, segBase offset ph + ph.filesz + (ph.memsz - ph.filesz) % 2 ^ 32 ≤ q * 4096 ∧ 2 ≤ q ∧
      q * 4096 + 4096 ≤ segBase offset ph + ph.memsz ∧ ¬(userStackBottom ≤ q * 4096 ∧ q * 4096 < userStackTop) := by
    unfold userStackBottom userStackTop
    have hroom : segBase offset ph + ph.filesz + (ph.memsz - ph.filesz) % 2 ^ 32 + 4294967296 ≤
        segBase offset ph + ph.memsz := by
      omega
    generalize segBase offset ph + ph.filesz + (ph.memsz - ph.filesz) % 2 ^ 32 = lo at hroom ⊢
    by_cases hin : 0x3fbfffd000 ≤ (lo / 4096 + 3) * 4096 ∧ (lo / 4096 + 3) * 4096 < 0x3fffffd000
    · have hmul : (lo / 4096 + 3 + 524288) * 4096 = (lo / 4096 + 3) * 4096 + 2147483648 := Nat.add_mul _ _ _
      refine ⟨lo / 4096 + 3 + 524288, ?_⟩
      rw [hmul]
      exact ⟨by omega, by omega, by omega, by omega⟩
    · exact ⟨lo / 4096 + 3, by omega, by omega, by omega, hin⟩
  rcases hpage with ⟨q, hafter, htwo, hbefore, hstack⟩
  have halign : downAlign (q * 4096) = q * 4096 := by
    unfold downAlign pageSize
    rw [Nat.mul_div_cancel q (by omega)]
  have hin : ∀ x, q * 4096 ≤ x → x < q * 4096 + 4096 → Covers offset ph x :=
    fun x hx hx' => ⟨by omega, by omega⟩
  have hfirst : Covers offset ph (q * 4096) := ⟨by omega, by omega⟩
  refine ⟨q * 4096, by omega, by unfold pageSize; omega, hstack, hfirst, ?_⟩
  intro psm hpsm hmeets
  rw [halign] at hmeets
  rcases exists_of_meets hmeets with ⟨x, hx, hx', hva, hlen⟩
  rcases mem_flatMap.1 ((hmaps psm).1 hpsm) with ⟨ph', hph', hmem⟩
  rcases covers_of_map (hends ph' hph') (hle ph' hph') hmem ⟨hva, hlen⟩ with ⟨hcover', hlast⟩
  have heq := eq_of_covers hapart hph hph' (hin x hx hx') hcover'
  subst heq
  omega

end

lemma pageout_of_not_meets (h : ∀ psm ∈ maps, ¬Meets (downAlign a) psm)
    (hstack : ¬(userStackBottom ≤ a ∧ a < userStackTop)) : pageout t maps a = none := by
  unfold pageout
  rw [foldl_of_not_meets h]
  split
  · rfl
  · rfl

lemma not_meets_last (hlast : 2 ^ 64 - pageSize ≤ a) (ha : a < 2 ^ 64) : ¬Meets (downAlign a) psm := by
  have hend : (downAlign a + pageSize) % 2 ^ 64 = 0 := by
    unfold downAlign pageSize at *
    omega
  unfold Meets
  omega

/-! ## Runs -/

/-- The processes of the family have the maps that `exec` has recorded. -/
def FamilyMaps (recorded : List SegmentMap) (m : Mem) : Prop :=
  ∀ p, m.family p = true → ∀ psm, psm ∈ m.maps p ↔ psm ∈ recorded

lemma memStep_family {recorded : List SegmentMap} (h : memStep t m act = some m') (hm : FamilyMaps recorded m) :
    FamilyMaps recorded m' := by
  cases act with
  | fault p badAddr =>
    unfold memStep at h
    cases hpage : m.page p (badAddr / pageSize) with
    | some pg => simp [hpage] at h
    | none =>
      dsimp only at h
      rw [hpage] at h
      rcases Option.map_eq_some_iff.1 h with ⟨pg, _, rfl⟩
      exact hm
  | fork p child =>
    cases h
    intro q hq psm
    by_cases hchild : q = child
    · subst hchild
      simp only [Function.update_self] at hq ⊢
      rw [mem_reverse]
      exact hm p hq psm
    · simp only [Function.update_of_ne hchild] at hq ⊢
      exact hm q hq psm

lemma family_of_run {page : Nat → Nat → Option Page} {acts : List MemAct}
    (h : Run (fun m a m' => memStep t m a = some m') (launched s page) acts m) :
    FamilyMaps (s.process.segmentMapHead.map s.segmentMap) m := by
  refine Run.invariant h ?_ fun _ _ _ hm hs => memStep_family hs hm
  intro p hp psm
  have hzero : p = 0 := by simpa [launched] using hp
  simp [launched, hzero]

lemma faithful_iff (hmaps : s.process.segmentMapHead.map s.segmentMap = (loads.flatMap (mapsOf de offset)).reverse)
    (hle : ∀ ph ∈ loads, ph.filesz ≤ ph.memsz) (hfile : ∀ ph ∈ loads, InFile (s.fs.dirent de) ph)
    (hapart : loads.Pairwise (Apart offset)) : Faithful s de offset loads ↔ ∀ ph ∈ loads, Fits offset ph := by
  have hmem : ∀ psm, psm ∈ s.process.segmentMapHead.map s.segmentMap ↔ psm ∈ loads.flatMap (mapsOf de offset) := by
    intro psm
    rw [hmaps, mem_reverse]
  constructor
  · intro hfaithful
    -- the process itself, before it has any page
    have hpage : ∀ a < 2 ^ 64, pageSize < a → ¬(userStackBottom ≤ a ∧ a < userStackTop) →
        (∃ ph ∈ loads, Covers offset ph a) →
        ¬∀ psm ∈ s.process.segmentMapHead.map s.segmentMap, ¬Meets (downAlign a) psm := by
      intro a ha hlow hstack hcover hmeets
      rcases hfaithful (fun _ _ => none) [] _ (.nil _) 0 rfl a ha hlow hstack hcover with ⟨pg, hpg, _⟩
      have hnone : pageout s.fs ((launched s fun _ _ => none).maps 0) a = none := pageout_of_not_meets hmeets hstack
      rw [hnone] at hpg
      cases hpg
    have hends : ∀ ph ∈ loads, Ends offset ph := by
      intro ph hph hpos
      by_contra hover
      have hbase : segBase offset ph < 2 ^ 64 := Nat.mod_lt _ (by decide)
      refine hpage (max (segBase offset ph) (2 ^ 64 - pageSize)) ?_ ?_ ?_ ⟨ph, hph, ?_, ?_⟩ ?_
      · unfold pageSize
        omega
      · unfold pageSize
        omega
      · unfold userStackTop pageSize
        omega
      · omega
      · omega
      · intro psm _
        refine not_meets_last (by omega) ?_
        unfold pageSize
        omega
    intro ph hph
    refine ⟨?_, hends ph hph⟩
    by_contra hlong
    rcases exists_not_meets hmem hle hapart hends hph (by omega) with ⟨a, ha, hlow, hstack, hcover, hnone⟩
    exact hpage a ha hlow hstack ⟨ph, hph, hcover⟩ hnone
  · intro hfits page acts m hrun p hp a _ hlow hstack hcover
    have hfamily := family_of_run hrun p hp
    exact pageout_of_fits (fun psm => (hfamily psm).trans (hmem psm)) hle hfile hapart hfits hlow hstack hcover

/-! ## After `exec` -/

/-- What `exec` leaves behind, as far as the examples look at it. -/
def outcome (filesz memsz : Nat) : Option (Int × Option Ptr × Nat × List SegmentMap) :=
  (exec loneEnv 1 pathD [] (withProgram filesz memsz)).toOption.map fun x =>
    (x.1, x.2.process.execFile, (x.2.fs.dirent (.dirent 8188)).fileSize,
      x.2.process.segmentMapHead.map x.2.segmentMap)

def programPhdr (filesz memsz : Nat) : Phdr := { type := ptLoad, offset := 0, vaddr := 0x10000, filesz, memsz }

/-- The header of the program in the file. -/
def header (filesz memsz : Nat) : Option (Nat × Nat × Nat × Nat) :=
  (readEhdr ((withProgram filesz memsz).fs.dirent (.dirent 8188))).map fun e => (e.type, e.entry, e.phoff, e.phnum)

lemma readEhdr_of_header {filesz memsz : Nat} (h : header filesz memsz = some (etExec, 0x10000, 64, 1)) :
    readEhdr ((withProgram filesz memsz).fs.dirent (.dirent 8188)) = some ⟨etExec, 0x10000, 64, 1⟩ := by
  rcases Option.map_eq_some_iff.1 h with ⟨⟨type, entry, phoff, phnum⟩, he, hfields⟩
  rcases Prod.mk.inj hfields with ⟨rfl, hfields⟩
  rcases Prod.mk.inj hfields with ⟨rfl, hfields⟩
  rcases Prod.mk.inj hfields with ⟨rfl, rfl⟩
  exact he

lemma exec_of_outcome {filesz memsz size : Nat} {head : List SegmentMap}
    (h : outcome filesz memsz = some (0, some (.dirent 8188), size, head)) :
    ∃ s', exec loneEnv 1 pathD [] (withProgram filesz memsz) = .done 0 s' ∧
      s'.process.execFile = some (.dirent 8188) ∧ (s'.fs.dirent (.dirent 8188)).fileSize = size ∧
      s'.process.segmentMapHead.map s'.segmentMap = head := by
  rcases Option.map_eq_some_iff.1 h with ⟨⟨r, s'⟩, hout, hfields⟩
  rcases Prod.mk.inj hfields with ⟨hr, hfields⟩
  rcases Prod.mk.inj hfields with ⟨hfile, hfields⟩
  rcases Prod.mk.inj hfields with ⟨hsize, hhead⟩
  have hr' : r = 0 := hr
  subst hr'
  exact ⟨s', eq_done_of_toOption hout, hfile, hsize, hhead⟩

end Exec
end OsRiscv
