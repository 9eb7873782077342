import OsRiscv.Tree.LongName

/-!
# NameBounds — the places of `filename` that `enext` stores to

`read_entry_name` gets a pointer into `filename` that was computed from the number of the entry.  What it
stores is recorded here as the list of the indices, which may be negative or past the end.
-/

namespace OsRiscv
namespace Tree

open Lib List

/-! ## The indices of the stores -/

/-- `n` places from `dst` on. -/
def places (dst : Int) (n : Nat) : List Int := (List.range n).map fun i : Nat => dst + i

/-- The stores of `snstr`: a 0 among the characters makes them one fewer. -/
def snstrStores (dst : Int) (src : List Nat) : List Int :=
  let chars := (src.takeWhile (· ≠ 0)).length
  places dst (chars + (src.length - chars - 1))

def readEntryNameStores (dst : Int) (r : Raw) : List Int :=
  if r.attr = attrLongName then
    snstrStores dst (r.wchars 1 5) ++ snstrStores (dst + 5) (r.wchars 14 6) ++ snstrStores (dst + 11) (r.wchars 28 2)
  else
    places dst 13 ++ places dst (shortName r).length

namespace Raw

variable (r : Raw) {src : List Nat} {dst i : Int}

/-- `lcnt` -/
def lcnt : Nat := r.order &&& 0xbf

def isLast : Bool := r.order &&& lastLongEntry ≠ 0

end Raw

/-- The stores of the loop of `enext`; `isSet` says that `*count` has been set.  The second time it is set
the store is through a null pointer. -/
def enextStores : List Raw → Nat → Bool → List Int
  | [], _, _ => []
  | de :: rest, cnt, isSet =>
      if de.order = endOfEntry then
        []
      else if de.order = emptyEntry then
        enextStores rest (cnt + 1) isSet
      else if cnt ≠ 0 then
        []
      else if de.attr = attrLongName then
        if de.isLast = true ∧ isSet = true then
          []
        else
          readEntryNameStores (((de.lcnt : Int) - 1) * charLongName) de ++ enextStores rest 0 (isSet || de.isLast)
      else if isSet = true then
        []
      else
        readEntryNameStores 0 de

lemma mem_places {n : Nat} : i ∈ places dst n ↔ dst ≤ i ∧ i < dst + n := by
  simp only [places, mem_map, mem_range]
  constructor
  · omega
  · rintro ⟨hlow, hhigh⟩
    exact ⟨(i - dst).toNat, by omega, by omega⟩

/-! ## What they have to do with the buffer -/

section Frame

variable {buf : Nat → UInt8} {o k : Nat} {r : Raw}

lemma snstr_frame (hk : (k : Int) ∉ snstrStores o src) : snstr buf o src k = buf k := by
  simp only [snstrStores, mem_places] at hk
  unfold snstr
  rw [overlay_of_not_mem, overlay_of_not_mem]
  · rw [length_map]
    omega
  · rw [length_map, length_replicate]
    omega

lemma readEntryName_frame (hk : (k : Int) ∉ readEntryNameStores o r) : readEntryName buf o r k = buf k := by
  unfold readEntryNameStores at hk
  unfold readEntryName
  by_cases hlong : r.attr = attrLongName
  · rw [if_pos hlong] at hk ⊢
    simp only [mem_append, not_or] at hk
    rcases hk with ⟨⟨h₁, h₂⟩, h₃⟩
    rw [snstr_frame h₃, snstr_frame h₂, snstr_frame h₁]
  · rw [if_neg hlong] at hk ⊢
    simp only [mem_append, mem_places] at hk
    rw [overlay_of_not_mem (by omega), overlay_of_not_mem (by rw [length_replicate]; omega)]

end Frame

/-! ## When they are inside -/

/-- An index within `filename`. -/
def InsideName (i : Int) : Prop := 0 ≤ i ∧ i ≤ fat32MaxFilename

/-- The long entries that `enext` takes the name from: those in front of the first other entry, up to a
second one with the mark. -/
def longsRead : List Raw → Bool → List Raw
  | [], _ => []
  | de :: rest, isSet =>
      if de.order = endOfEntry ∨ de.order = emptyEntry ∨ de.attr ≠ attrLongName then
        []
      else if de.isLast = true ∧ isSet = true then
        []
      else
        de :: longsRead rest (isSet || de.isLast)

lemma snstrStores_bounds :
    (i ∈ snstrStores dst src → dst ≤ i ∧ i < dst + src.length) ∧
      (dst ≤ i → i + 1 < dst + src.length → i ∈ snstrStores dst src) := by
  have hle := length_takeWhile_le (· ≠ 0) src
  simp only [snstrStores, mem_places]
  omega

lemma longStores_inside_iff {de : Raw} (hlong : de.attr = attrLongName) :
    (∀ i ∈ readEntryNameStores (((de.lcnt : Int) - 1) * charLongName) de, InsideName i) ↔
      1 ≤ de.lcnt ∧ de.lcnt ≤ 19 := by
  unfold readEntryNameStores
  rw [if_pos hlong]
  unfold InsideName charLongName fat32MaxFilename
  generalize hdst : ((de.lcnt : Int) - 1) * (13 : Nat) = dst
  have hlens := And.intro (length_wchars de 1 5) (And.intro (length_wchars de 14 6) (length_wchars de 28 2))
  constructor
  · intro hall
    have hhigh := hall (dst + 11) (mem_append_right _ (snstrStores_bounds.2 (Int.le_refl _) (by omega)))
    omega
  · rintro ⟨hlow, hhigh⟩ i hi
    simp only [mem_append] at hi
    rcases hi with (hi | hi) | hi
    · have hb := snstrStores_bounds.1 hi
      omega
    · have hb := snstrStores_bounds.1 hi
      omega
    · have hb := snstrStores_bounds.1 hi
      omega

lemma length_shortName_le (r : Raw) : (shortName r).length ≤ 12 := by
  have hbase := length_takeWhile_le (· ≠ 32) (slice r 0 8)
  have hext := length_takeWhile_le (· ≠ 32) (slice r 8 3)
  rw [length_slice] at hbase hext
  unfold shortName
  rw [length_append, length_append]
  split
  · simp only [length_singleton]
    omega
  · simp only [length_nil]
    omega

lemma shortStores_inside {de : Raw} (hshort : de.attr ≠ attrLongName) :
    ∀ i ∈ readEntryNameStores 0 de, InsideName i := by
  have hlen := length_shortName_le de
  intro i hi
  unfold readEntryNameStores at hi
  rw [if_neg hshort] at hi
  simp only [mem_append, mem_places] at hi
  unfold InsideName fat32MaxFilename
  omega

lemma enextStores_counted {rs : List Raw} {cnt : Nat} {isSet : Bool} (hcnt : cnt ≠ 0) :
    enextStores rs cnt isSet = [] := by
  induction rs generalizing cnt with
  | nil => rfl
  | cons de rest ih =>
      unfold enextStores
      by_cases hend : de.order = endOfEntry
      · rw [if_pos hend]
      by_cases hempty : de.order = emptyEntry
      · rw [if_neg hend, if_pos hempty]
        exact ih (Nat.succ_ne_zero cnt)
      · rw [if_neg hend, if_neg hempty, if_pos hcnt]

lemma enextStores_inside_iff (rs : List Raw) (isSet : Bool) :
    (∀ i ∈ enextStores rs 0 isSet, InsideName i) ↔ ∀ r ∈ longsRead rs isSet, 1 ≤ r.lcnt ∧ r.lcnt ≤ 19 := by
  -- nothing is stored, and no long entry is read
  have hnone : (∀ i ∈ ([] : List Int), InsideName i) ↔ ∀ r ∈ ([] : List Raw), 1 ≤ r.lcnt ∧ r.lcnt ≤ 19 := by
    simp
  induction rs generalizing isSet with
  | nil => exact hnone
  | cons de rest ih =>
    unfold enextStores longsRead
    by_cases hend : de.order = endOfEntry
    · rw [if_pos hend, if_pos (.inl hend)]
      exact hnone
    by_cases hempty : de.order = emptyEntry
    · rw [if_neg hend, if_pos hempty, if_pos (.inr (.inl hempty)), enextStores_counted (Nat.succ_ne_zero 0)]
      exact hnone
    rw [if_neg hend, if_neg hempty, if_neg (not_not.2 rfl)]
    by_cases hlong : de.attr = attrLongName
    · have hread : ¬ (de.order = endOfEntry ∨ de.order = emptyEntry ∨ de.attr ≠ attrLongName) := by
        simp [hend, hempty, hlong]
      rw [if_pos hlong, if_neg hread]
      by_cases hnull : de.isLast = true ∧ isSet = true
      · rw [if_pos hnull, if_pos hnull]
        exact hnone
      · rw [if_neg hnull, if_neg hnull, forall_mem_append, forall_mem_cons]
        exact and_congr (longStores_inside_iff hlong) (ih _)
    · rw [if_neg hlong, if_pos (Or.inr (.inr hlong))]
      refine iff_of_true ?_ (by simp)
      split
      · simp
      · exact shortStores_inside hlong

/-- Whatever the directory holds, the stores of `enext` at any offset are within the name exactly when the
long entries that it takes the name from have numbers from 1 to 19. -/
theorem name_stores_inside_iff (entries : List Raw) (off : Nat) :
    (∀ i ∈ enextStores (entries.drop (off / 32)) 0 false, InsideName i) ↔
      ∀ r ∈ longsRead (entries.drop (off / 32)) false, 1 ≤ r.lcnt ∧ r.lcnt ≤ 19 :=
  enextStores_inside_iff _ false

/-! ## A name of 255 characters -/

def longestName : Str := List.replicate 255 97

/-- The short entry of an empty file. -/
def someShort : Raw := memOf 0 (List.replicate 11 65 ++ List.replicate 21 0)

/-- The name of 255 characters needs 20 entries, and the last part of it is stored past the end. -/
theorem longest_name_overruns :
    ∃ (name : Str) (rs : List Raw) (short : Raw), name.length = fat32MaxFilename ∧ (∀ b ∈ name, b ≠ 0) ∧
      Spells name rs ∧ ¬ ∀ i ∈ enextStores ((rs ++ [short]).drop (0 / 32)) 0 false, InsideName i := by
  have hspells : Spells longestName (spell longestName) := ⟨by decide +kernel, by decide +kernel, by decide +kernel⟩
  have hmem : (258 : Int) ∈ enextStores ((spell longestName ++ [someShort]).drop (0 / 32)) 0 false := by
    decide +kernel
  refine ⟨longestName, spell longestName, someShort, length_replicate, ?_, hspells, fun hall => ?_⟩
  · intro b hb
    rw [eq_of_mem_replicate hb]
    decide
  · exact absurd (hall 258 hmem).2 (by decide)

end Tree
end OsRiscv
