import OsRiscv.Exec.Recorded

/-!
# Pageout — the page for an address that has not been touched

`pageout` of `Page.c` puts a page together from every segment map that reaches into it.  The lemmas say what one map
adds to the page and, by induction over the list, what all of them do; the order of the list does not matter as long
as no two maps give an address different bytes.
-/

namespace OsRiscv
namespace Exec

open Lib List OsRiscv.Tree

structure Page where
  bytes : Nat → UInt8
  perm : Nat

/-- A page from `pageAlloc`, with no permissions collected yet. -/
def zeroPage : Page := ⟨fun _ => 0, 0⟩

/-- A round of the loop: the part of the page that lies in the map.  Only a map with `MAP_ZERO` has no file; `/ 2 * 2`
is `& ~MAP_ZERO`. -/
def loadMap (t : Fs) (pageStart : Nat) (page : Option Page) (psm : SegmentMap) : Option Page :=
  let start := max psm.va pageStart
  let finish := min ((psm.va + psm.len) % 2 ^ 64) ((pageStart + pageSize) % 2 ^ 64)
  if start < finish then
    let pg := page.getD zeroPage
    let bytes :=
      match psm.sourceFile with
      | some de =>
        if psm.flag &&& mapZero ≠ 0 then pg.bytes
        else overlay pg.bytes (start % pageSize)
          (eread (t.dirent de) ((psm.fileOffset + start - psm.va) % 2 ^ 32) (finish - start))
      | none => pg.bytes
    some { bytes := bytes, perm := pg.perm ||| psm.flag / 2 * 2 }
  else
    page

/-- `pageout`: the page that is inserted for the address, or nothing for a panic. -/
def pageout (t : Fs) (maps : List SegmentMap) (badAddr : Nat) : Option Page :=
  if badAddr ≤ pageSize then
    none
  else if userStackBottom ≤ badAddr ∧ badAddr < userStackTop then
    some { zeroPage with perm := pteUser ||| pteRead ||| pteWrite }
  else
    (maps.foldl (loadMap t (downAlign badAddr)) none).map fun pg => { pg with perm := pteUser ||| pg.perm }

variable {t : Fs} {psm : SegmentMap} {maps : List SegmentMap} {pageStart k a : Nat} {page : Option Page} {d : Dirent}
  {b : UInt8}

/-! ## One map -/

/-- The bytes of a page; none of it is there before the first map. -/
def content (page : Option Page) : Nat → UInt8 := (page.getD zeroPage).bytes

/-- The byte that a map has for an address, if it reads one from its file. -/
def mapByte (t : Fs) (psm : SegmentMap) (a : Nat) : Option UInt8 :=
  match psm.sourceFile with
  | some de =>
    if psm.va ≤ a ∧ a < psm.va + psm.len then some ((t.dirent de).data (psm.fileOffset + (a - psm.va))) else none
  | none => none

/-- A map that ends in the address space, and whose bytes are in its file. -/
structure Proper (t : Fs) (psm : SegmentMap) : Prop where
  bound : psm.va + psm.len < 2 ^ 64
  file : ∀ de, psm.sourceFile = some de → psm.flag &&& mapZero = 0 ∧ (t.dirent de).dev ≠ .zero ∧
    (t.dirent de).dev ≠ .osrelease ∧ (t.dirent de).isDir = false ∧
    psm.fileOffset + psm.len ≤ (t.dirent de).fileSize ∧ (t.dirent de).fileSize < 2 ^ 32

lemma eread_slice (hzero : d.dev ≠ .zero) (hrelease : d.dev ≠ .osrelease) (hdir : d.isDir = false) {off n : Nat}
    (hin : off + n ≤ d.fileSize) (hsize : d.fileSize < 2 ^ 32) : eread d off n = slice d.data off n := by
  have hcond : ¬(off > d.fileSize ∨ (off + n) % 2 ^ 32 < off ∨ d.isDir = true) := by
    rw [hdir]
    rintro (hlt | hlt | hfalse)
    · omega
    · omega
    · cases hfalse
  have hmin : min n (d.fileSize - off) = n := by omega
  unfold eread
  cases hdev : d.dev with
  | zero => exact absurd hdev hzero
  | osrelease => exact absurd hdev hrelease
  | regular => rw [if_neg hcond, hmin]
  | none => rw [if_neg hcond, hmin]

lemma slice_getElem? {f : Nat → UInt8} {o n i : Nat} (hi : i < n) : (slice f o n)[i]? = some (f (o + i)) := by
  unfold slice
  rw [getElem?_map, getElem?_range hi]
  rfl

lemma overlay_slice {f g : Nat → UInt8} {o off n : Nat} :
    overlay g o (slice f off n) k = if o ≤ k ∧ k < o + n then f (off + (k - o)) else g k := by
  by_cases hin : o ≤ k ∧ k < o + n
  · rw [if_pos hin]
    unfold overlay
    rw [if_pos hin.1, slice_getElem? (by omega)]
    rfl
  · rw [if_neg hin]
    refine overlay_of_not_mem ?_
    rw [length_slice]
    omega

/-- What a round does to the bytes. -/
theorem content_loadMap (hp : Proper t psm) (halign : pageStart % pageSize = 0) (hend : pageStart + pageSize < 2 ^ 64)
    (hk : k < pageSize) :
    content (loadMap t pageStart page psm) k = (mapByte t psm (pageStart + k)).getD (content page k) := by
  have hbound := hp.bound
  have hmod : (psm.va + psm.len) % 2 ^ 64 = psm.va + psm.len := Nat.mod_eq_of_lt hbound
  have hpage : (pageStart + pageSize) % 2 ^ 64 = pageStart + pageSize := Nat.mod_eq_of_lt hend
  unfold loadMap mapByte
  dsimp only
  rw [hmod, hpage]
  cases hsource : psm.sourceFile with
  | none =>
    split
    · rfl
    · rfl
  | some de =>
    rcases hp.file de hsource with ⟨hflag, hzero, hrelease, hdir, hin, hsize⟩
    dsimp only
    by_cases hlt : max psm.va pageStart < min (psm.va + psm.len) (pageStart + pageSize)
    · -- the part of the page from `start` to `finish` comes from the file
      have hoff : (psm.fileOffset + max psm.va pageStart - psm.va) % 2 ^ 32 =
          psm.fileOffset + (max psm.va pageStart - psm.va) := by
        omega
      have hstart : max psm.va pageStart % pageSize = max psm.va pageStart - pageStart := by
        unfold pageSize at halign hlt ⊢
        omega
      rw [if_pos hlt, if_neg (by rw [hflag]; decide), hoff, hstart,
        eread_slice hzero hrelease hdir (by omega) hsize]
      show overlay _ _ _ k = _
      rw [overlay_slice]
      by_cases hcover : psm.va ≤ pageStart + k ∧ pageStart + k < psm.va + psm.len
      · rw [if_pos (by omega), if_pos hcover]
        exact congrArg (t.dirent de).data (by omega)
      · rw [if_neg (by omega), if_neg hcover]
        rfl
    · rw [if_neg hlt, if_neg (by omega), Option.getD_none]

lemma isSome_loadMap (h : page.isSome = true) : (loadMap t pageStart page psm).isSome = true := by
  unfold loadMap
  dsimp only
  split
  · rfl
  · exact h

/-! ## All maps -/

section

variable (halign : pageStart % pageSize = 0) (hend : pageStart + pageSize < 2 ^ 64) (hk : k < pageSize)
  (hp : ∀ psm ∈ maps, Proper t psm)
include halign hend hk hp

lemma content_foldl_none (hnone : ∀ psm ∈ maps, mapByte t psm (pageStart + k) = none) :
    content (maps.foldl (loadMap t pageStart) page) k = content page k := by
  induction maps generalizing page with
  | nil => rfl
  | cons psm maps ih =>
    rw [foldl_cons, ih (fun q hq => hp q (by simp [hq])) fun q hq => hnone q (by simp [hq]),
      content_loadMap (hp psm (by simp)) halign hend hk, hnone psm (by simp)]
    rfl

lemma content_foldl_some (hsome : ∃ psm ∈ maps, mapByte t psm (pageStart + k) = some b)
    (hsame : ∀ psm ∈ maps, ∀ c, mapByte t psm (pageStart + k) = some c → c = b) :
    content (maps.foldl (loadMap t pageStart) page) k = b := by
  induction maps generalizing page with
  | nil =>
    rcases hsome with ⟨_, hmem, _⟩
    cases hmem
  | cons psm maps ih =>
    have hp' : ∀ q ∈ maps, Proper t q := fun q hq => hp q (by simp [hq])
    rw [foldl_cons]
    by_cases hlater : ∃ q ∈ maps, mapByte t q (pageStart + k) = some b
    · exact ih hp' hlater fun q hq => hsame q (by simp [hq])
    · -- the first map is the last one with a byte
      have hrest : ∀ q ∈ maps, mapByte t q (pageStart + k) = none := by
        intro q hq
        cases hbyte : mapByte t q (pageStart + k) with
        | none => rfl
        | some c =>
          have hc := hsame q (by simp [hq]) c hbyte
          subst hc
          exact absurd ⟨q, hq, hbyte⟩ hlater
      have hfirst : mapByte t psm (pageStart + k) = some b := by
        rcases hsome with ⟨q, hq, hbyte⟩
        rcases mem_cons.1 hq with rfl | hq
        · exact hbyte
        · exact absurd ⟨q, hq, hbyte⟩ hlater
      rw [content_foldl_none halign hend hk hp' hrest, content_loadMap (hp psm (by simp)) halign hend hk, hfirst]
      rfl

end

/-- The map reaches into the page, as far as `pageout` computes it. -/
def Meets (pageStart : Nat) (psm : SegmentMap) : Prop :=
  max psm.va pageStart < min ((psm.va + psm.len) % 2 ^ 64) ((pageStart + pageSize) % 2 ^ 64)

lemma foldl_of_not_meets (h : ∀ psm ∈ maps, ¬Meets pageStart psm) :
    maps.foldl (loadMap t pageStart) page = page := by
  induction maps generalizing page with
  | nil => rfl
  | cons psm maps ih =>
    have hfirst : loadMap t pageStart page psm = page := if_neg (h psm (by simp))
    rw [foldl_cons, hfirst]
    exact ih fun q hq => h q (by simp [hq])

lemma isSome_foldl (h : page.isSome = true ∨ ∃ psm ∈ maps, Meets pageStart psm) :
    (maps.foldl (loadMap t pageStart) page).isSome = true := by
  induction maps generalizing page with
  | nil =>
    rcases h with h | ⟨_, hmem, _⟩
    · exact h
    · cases hmem
  | cons psm maps ih =>
    refine ih ?_
    rcases h with h | ⟨q, hq, hmeets⟩
    · exact .inl (isSome_loadMap h)
    · rcases mem_cons.1 hq with rfl | hq
      · refine .inl ?_
        have hload : loadMap t pageStart page q = some _ := if_pos hmeets
        rw [hload]
        rfl
      · exact .inr ⟨q, hq, hmeets⟩

end Exec
end OsRiscv
