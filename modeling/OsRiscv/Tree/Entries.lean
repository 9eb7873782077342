import Mathlib.Data.List.TakeWhile
import OsRiscv.Tree.Load

/-!
# Entries — what a directory on the volume holds, and what `enext` makes of it

A directory is a sequence of live entries and deleted ones, up to an end marker or the end of its chain.  A
live entry is a short entry, alone or behind the long entries that spell its name, the last of them first.
`enext` reads the name into a buffer that is all 0, so what the parts of `read_entry_name` leave behind the
end of a name does not matter.
-/

namespace OsRiscv
namespace Tree

open Lib List

/-! ## The format -/

/-- A short entry and the long entries in front of it. -/
structure Entry where
  longs : List Raw
  short : Raw

inductive Item
  | live (e : Entry)
  | deleted (r : Raw)

/-- The characters in a long entry, in its three parts. -/
def longParts (r : Raw) : List (List Nat) := [r.wchars 1 5, r.wchars 14 6, r.wchars 28 2]

/-- Long entries with the numbers `n`, .., 1. -/
def IsRun : Nat → List Raw → Prop
  | 0, rs => rs = []
  | n + 1, rs => ∃ r rest, rs = r :: rest ∧ r.order = n + 1 ∧ r.attr = attrLongName ∧ IsRun n rest

namespace Entry

variable (e : Entry) {β : Type*} {o : Nat} {buf : Nat → UInt8} {longs : List Raw} {l l' : List β} {f : Nat → β}

/-- The parts of the name; the long entry with number 1 has the first three. -/
def parts : List (List Nat) := e.longs.reverse.flatMap longParts

/-- The name, in characters of 16 bits. -/
def name : List Nat :=
  if e.longs = [] then (shortName e.short).map UInt8.toNat else e.parts.flatten.takeWhile (· ≠ 0)

def isDir : Bool := e.short.attr &&& Fat.attrDirectory ≠ 0

/-- The entries `.` and `..` -/
def isDot : Bool := e.name = [46] ∨ e.name = [46, 46]

structure Valid : Prop where
  short_order : e.short.order ≠ endOfEntry ∧ e.short.order ≠ emptyEntry
  short_attr : e.short.attr ≠ attrLongName
  run : e.longs = [] ∨ ∃ n r rest, e.longs = r :: rest ∧ r.order = lastLongEntry + (n + 1) ∧
    r.attr = attrLongName ∧ IsRun n rest ∧ n < 20
  name_length : e.name.length ≤ fat32MaxFilename
  short_name : e.longs = [] → 0 ∉ shortName e.short

/-- What a string of bytes keeps of the name. -/
def filename : Str := (e.name.map UInt8.ofNat).takeWhile (· ≠ 0)

end Entry

namespace Item

def raws : Item → List Raw
  | .live e => e.longs ++ [e.short]
  | .deleted r => [r]

def Valid : Item → Prop
  | .live e => e.Valid
  | .deleted r => r.order = emptyEntry

end Item

/-- An end marker, or the end of the chain. -/
def IsEnd : List Raw → Prop
  | [] => True
  | r :: _ => r.order = endOfEntry

/-! ## Names -/

lemma overlay_self {l : List β} {x : β} (hx : x = f (o + l.length)) :
    overlay f o (l ++ [x]) = overlay f o l := by
  funext k
  rcases Nat.lt_trichotomy k (o + l.length) with hk | rfl | hk
  · unfold overlay
    by_cases ho : o ≤ k
    · rw [if_pos ho, if_pos ho, getElem?_append_left (by omega)]
    · rw [if_neg ho, if_neg ho]
  · rw [overlay_of_ge (Nat.le_refl _), overlay_of_mem (by omega) (by simp)]
    simp [hx]
  · rw [overlay_of_ge (by simp; omega), overlay_of_ge (by omega)]

lemma overlay_front :
    overlay (overlay f (o + l.length) l') o l = overlay f o (l ++ l') := by
  rw [← overlay_append]
  funext k
  rcases Nat.lt_or_ge k (o + l.length) with hk | hk
  · rw [overlay_of_lt hk]
    exact overlay_congr (overlay_of_lt hk)
  · rw [overlay_of_ge hk]
    exact (overlay_congr (overlay_of_ge hk)).symm

/-- The bytes that a part of a name leaves in a buffer that is all 0. -/
def padded (src : List Nat) : List UInt8 :=
  let chars := (src.takeWhile (· ≠ 0)).map UInt8.ofNat
  chars ++ List.replicate (src.length - chars.length) 0

lemma length_takeWhile_le (P : β → Bool) (l : List β) : (l.takeWhile P).length ≤ l.length :=
  (takeWhile_sublist P).length_le

@[simp] lemma length_padded (src : List Nat) : (padded src).length = src.length := by
  have hle := length_takeWhile_le (· ≠ 0) src
  simp only [padded, length_append, length_map, length_replicate]
  omega

lemma snstr_eq {src : List Nat}
    (hbuf : ∀ k, o ≤ k → k < o + src.length → buf k = 0) : snstr buf o src = overlay buf o (padded src) := by
  have hle := length_takeWhile_le (· ≠ 0) src
  unfold snstr padded
  dsimp only
  rw [overlay_append]
  generalize hchars : (src.takeWhile (· ≠ 0)).map UInt8.ofNat = chars
  have hlen : chars.length ≤ src.length := by
    rw [← hchars, length_map]
    exact hle
  rcases Nat.eq_or_lt_of_le hlen with heq | hlt
  · simp [heq]
  · -- the one place that is not filled is 0 already
    have hsplit : src.length - chars.length = (src.length - chars.length - 1) + 1 := by omega
    rw [hsplit, List.replicate_succ', ← append_assoc, overlay_self]
    · simp
    · rw [hbuf]
      · simp
      · simp
        omega

/-- The bytes of the name in a long entry. -/
def longBytes (r : Raw) : List UInt8 := (longParts r).flatMap padded

@[simp] lemma length_wchars (r : Raw) (o n : Nat) : (r.wchars o n).length = n := by
  simp [Raw.wchars]

lemma length_longBytes (r : Raw) : (longBytes r).length = charLongName := by
  simp [longBytes, longParts, charLongName]

lemma readEntryName_long {r : Raw} (hlong : r.attr = attrLongName)
    (hbuf : ∀ k, o ≤ k → k < o + charLongName → buf k = 0) : readEntryName buf o r = overlay buf o (longBytes r) := by
  unfold readEntryName
  rw [if_pos hlong]
  dsimp only
  rw [snstr_eq fun k h₁ h₂ => hbuf k h₁ (by simp [charLongName] at h₂ ⊢; omega)]
  rw [snstr_eq (o := o + 5) fun k h₁ h₂ => ?_]
  · rw [snstr_eq fun k h₁ h₂ => ?_]
    · have h₅ : o + 5 = o + (padded (r.wchars 1 5)).length := by simp
      rw [h₅, overlay_append]
      have h₁₁ : o + 11 = o + (padded (r.wchars 1 5) ++ padded (r.wchars 14 6)).length := by simp
      rw [h₁₁, overlay_append]
      simp [longBytes, longParts]
    · rw [overlay_of_ge (by simp; omega), overlay_of_ge (by simp; omega)]
      exact hbuf k (by omega) (by simp [charLongName] at h₂ ⊢; omega)
  · rw [overlay_of_ge (by simp; omega)]
    exact hbuf k (by omega) (by simp [charLongName] at h₂ ⊢; omega)

lemma takeWhile_append_stop {P : β → Bool} {x : β} (hx : P x = false) :
    (l ++ x :: l').takeWhile P = l.takeWhile P := by
  induction l with
  | nil => simp [hx]
  | cons a l ih =>
    cases ha : P a with
    | true => simp [ha, ih]
    | false => simp [ha]

/-- Up to the end of the name the bytes are the characters. -/
theorem flatMap_padded (ps : List (List Nat)) :
    ∃ rest, ps.flatMap padded = (ps.flatten.takeWhile (· ≠ 0)).map UInt8.ofNat ++ rest ∧
      (rest = [] ∨ ∃ rest', rest = 0 :: rest') := by
  induction ps with
  | nil => exact ⟨[], rfl, .inl rfl⟩
  | cons p ps ih =>
    by_cases hzero : 0 ∈ p
    · -- the name ends in this part
      rcases append_of_mem hzero with ⟨a, b, rfl⟩
      refine ⟨List.replicate ((a ++ 0 :: b).length - (a.takeWhile (· ≠ 0)).length) 0 ++ ps.flatMap padded,
        ?_, .inr ?_⟩
      · have hstop : ((a ++ 0 :: b) ++ ps.flatten).takeWhile (· ≠ 0) = a.takeWhile (· ≠ 0) := by
          rw [append_assoc, cons_append]
          exact takeWhile_append_stop (by simp)
        have hstop' : (a ++ 0 :: b).takeWhile (· ≠ 0) = a.takeWhile (· ≠ 0) := takeWhile_append_stop (by simp)
        rw [flatMap_cons, flatten_cons, hstop]
        simp only [padded, hstop', length_map, append_assoc]
      · have hle := length_takeWhile_le (· ≠ 0) a
        have hpos : (a ++ 0 :: b).length - (a.takeWhile (· ≠ 0)).length =
            ((a ++ 0 :: b).length - (a.takeWhile (· ≠ 0)).length - 1) + 1 := by
          simp only [length_append, length_cons]
          omega
        rw [hpos, replicate_succ, cons_append]
        exact ⟨_, rfl⟩
    · rcases ih with ⟨rest, hrest, hend⟩
      have hne : ∀ x ∈ p, decide (x ≠ 0) = true := by
        intro x hx
        have : x ≠ 0 := fun h => hzero (h ▸ hx)
        simpa using this
      have hall : p.takeWhile (· ≠ 0) = p := takeWhile_eq_self_iff.2 hne
      refine ⟨rest, ?_, hend⟩
      rw [flatMap_cons, flatten_cons, hrest, takeWhile_append_of_pos hne]
      unfold padded
      rw [hall]
      simp

lemma cstr_overlay {bytes rest : List UInt8} {chars : List UInt8} (hbytes : bytes = chars ++ rest)
    (hrest : rest = [] ∨ ∃ rest', rest = 0 :: rest') (hlen : chars.length ≤ fat32MaxFilename) :
    cstr (overlay (fun _ => 0) 0 bytes) = chars.takeWhile (· ≠ 0) := by
  unfold cstr
  have hsplit : fat32MaxFilename + 1 = chars.length + (1 + (fat32MaxFilename - chars.length)) := by omega
  have hchars : slice (overlay (fun _ => 0) 0 bytes) 0 chars.length = chars := by
    rw [hbytes, ← overlay_append, slice_congr fun k _ hk => overlay_of_lt hk]
    exact slice_overlay_self
  have hzero : overlay (fun _ => 0) 0 bytes (0 + chars.length + 0) = 0 := by
    rw [hbytes, ← overlay_append]
    rcases hrest with rfl | ⟨rest', rfl⟩
    · rw [overlay_nil]
      exact overlay_of_ge (by omega)
    · rw [overlay_of_mem (by omega) (by simp)]
      simp
  rw [hsplit, slice_add, slice_add, hchars]
  have hone : slice (overlay (fun _ => 0) 0 bytes) (0 + chars.length) 1 = [0] := by
    simp only [slice, range_one, map_cons, map_nil, hzero]
  rw [hone, singleton_append]
  exact takeWhile_append_stop (by simp)

/-! ## A round of the loop -/

section Round

variable {vol : Volume} {de : Raw} {cnt k : Nat} {count : Option Nat} {buf : Nat → UInt8} {ep e : Dirent}

lemma enextRound_result : (∀ k e, enextRound vol de cnt count buf ep = .found k e →
      e.attr = de.attr ∧ e.firstClus = de.firstClus ∧ e.fileSize = de.fileSize) ∧
    ∀ ret k e, enextRound vol de cnt count buf ep = .done (.ok (ret, k, e)) → ret ≠ 1 := by
  unfold enextRound
  dsimp only
  constructor
  · intro k e h
    repeat' split at h
    all_goals cases h
    all_goals exact ⟨rfl, rfl, rfl⟩
  · intro ret k e h
    repeat' split at h
    all_goals cases h
    all_goals decide

lemma enextRound_uniform (vol : Volume) (de : Raw) (cnt : Nat) (count : Option Nat) (buf : Nat → UInt8) :
    (∃ out, ∀ e, enextRound vol de cnt count buf e = .done (.error out)) ∨
    (∃ cnt' count' buf', ∀ e, enextRound vol de cnt count buf e = .next cnt' count' buf') ∨
    (∃ buf' r k, ∀ e, enextRound vol de cnt count buf e = .done (.ok (r, k, { e with filename := cstr buf' }))) ∨
    ∃ buf' k, ∀ e, enextRound vol de cnt count buf e =
      .found k (readEntryInfo vol { e with filename := cstr buf' } de) := by
  unfold enextRound
  dsimp only
  repeat' split
  all_goals first
    | exact .inl ⟨_, fun _ => rfl⟩
    | exact .inr (.inl ⟨_, _, _, fun _ => rfl⟩)
    | exact .inr (.inr (.inl ⟨_, _, _, fun _ => rfl⟩))
    | exact .inr (.inr (.inr ⟨_, _, fun _ => rfl⟩))

end Round

/-! ## `enext` -/

section enext

variable {vol : Volume} {ep : Dirent} {cnt k n : Nat} {buf : Nat → UInt8} {count : Option Nat} {r : Raw}
  {rest tail : List Raw} {e : Entry}

lemma order_and : ∀ n < 20, (n + 1) &&& 0xbf = n + 1 ∧ (n + 1) &&& lastLongEntry = 0 ∧
    (lastLongEntry + (n + 1)) &&& 0xbf = n + 1 ∧ (lastLongEntry + (n + 1)) &&& lastLongEntry ≠ 0 := by
  decide

lemma IsRun.length_eq (h : IsRun n longs) : longs.length = n := by
  induction n generalizing longs with
  | zero =>
    cases h
    rfl
  | succ n ih =>
    rcases h with ⟨_, longs, rfl, _, _, h⟩
    rw [length_cons, ih h]

lemma enextLoop_deleted (hr : r.order = emptyEntry) :
    enextLoop vol (r :: rest) cnt count buf ep = enextLoop vol rest (cnt + 1) count buf ep := by
  rw [enextLoop]
  unfold enextRound
  rw [if_neg (by rw [hr]; decide), if_pos hr]

lemma enextLoop_end (hend : IsEnd tail) :
    enextLoop vol tail cnt count buf ep = .ok (-1, 0, { ep with filename := cstr buf }) := by
  cases tail with
  | nil => rfl
  | cons r tail =>
    have horder : r.order = endOfEntry := hend
    rw [enextLoop]
    unfold enextRound
    rw [if_pos horder]

lemma enextLoop_skipped (hr : r.order ≠ endOfEntry ∧ r.order ≠ emptyEntry) (hcnt : cnt ≠ 0) :
    enextLoop vol (r :: rest) cnt none buf ep = .ok (0, cnt, { ep with filename := cstr buf }) := by
  rw [enextLoop, enextRound, if_neg hr.1, if_neg hr.2, if_pos hcnt]

lemma enextLoop_run {bytes : List UInt8} (hrun : IsRun n longs) (hn : n < 20)
    (hshort : r.order ≠ endOfEntry ∧ r.order ≠ emptyEntry) (hattr : r.attr ≠ attrLongName) :
    enextLoop vol (longs ++ r :: rest) 0 (some k) (overlay (fun _ => 0) (n * charLongName) bytes) ep =
      .ok (1, k, readEntryInfo vol { ep with
        filename := cstr (overlay (fun _ => 0) 0 (longs.reverse.flatMap longBytes ++ bytes)) } r) := by
  induction n generalizing longs bytes with
  | zero =>
    cases hrun
    rw [nil_append, enextLoop, enextRound, if_neg hshort.1, if_neg hshort.2, if_neg (by simp), if_neg hattr]
    simp
  | succ n ih =>
    rcases hrun with ⟨a, longs, rfl, horder, hlong, hrun⟩
    have hand := order_and n (Nat.lt_of_succ_lt hn)
    rw [cons_append, enextLoop, enextRound, if_neg (by rw [horder]; simp [endOfEntry]),
      if_neg (by rw [horder]; simp [emptyEntry]; omega), if_neg (by simp), if_pos hlong]
    rw [horder, hand.1, if_neg (by omega), if_neg (by simp [hand.2.1]), Nat.add_sub_cancel,
      readEntryName_long hlong fun k h₁ h₂ => overlay_of_lt (by rw [Nat.add_mul]; omega)]
    have hat : (n + 1) * charLongName = n * charLongName + (longBytes a).length := by
      rw [length_longBytes, Nat.add_mul, Nat.one_mul]
    rw [hat, overlay_front]
    dsimp only
    rw [ih hrun (Nat.lt_of_succ_lt hn)]
    simp

lemma Entry.Valid.filename_long (hv : e.Valid) (hlongs : e.longs ≠ []) :
    cstr (overlay (fun _ => 0) 0 (e.longs.reverse.flatMap longBytes)) = e.filename := by
  rcases flatMap_padded e.parts with ⟨rest, hbytes, hrest⟩
  have hname : e.name = e.parts.flatten.takeWhile (· ≠ 0) := if_neg hlongs
  have hall : e.longs.reverse.flatMap longBytes = e.parts.flatMap padded := by
    simp only [Entry.parts, flatMap_assoc]
    rfl
  rw [hall, Entry.filename, hname]
  refine cstr_overlay hbytes hrest ?_
  have hlen := hv.name_length
  rw [hname] at hlen
  rw [length_map]
  exact hlen

lemma Entry.Valid.filename_short (hv : e.Valid) (hlongs : e.longs = []) :
    cstr (readEntryName (fun _ => 0) 0 e.short) = e.filename := by
  have hname : e.name = (shortName e.short).map UInt8.toNat := if_pos hlongs
  have hbytes : e.name.map UInt8.ofNat = shortName e.short := by
    rw [hname, map_map]
    exact (map_congr_left fun b _ => by simp).trans (map_id _)
  have hzero : overlay (fun _ => (0 : UInt8)) 0 (List.replicate 13 0) = fun _ => 0 := by
    funext k
    unfold overlay
    rw [if_pos (Nat.zero_le _), getElem?_replicate]
    split <;> rfl
  unfold readEntryName
  rw [if_neg hv.short_attr, hzero, Entry.filename, hbytes]
  refine cstr_overlay (append_nil _).symm (.inl rfl) ?_
  have hlen := hv.name_length
  rw [hname, length_map] at hlen
  exact hlen

lemma enextLoop_live (hv : e.Valid) : enextLoop vol (e.longs ++ e.short :: rest) 0 none (fun _ => 0) ep =
      .ok (1, e.longs.length + 1, readEntryInfo vol { ep with filename := e.filename } e.short) := by
  rcases hv.run with hlongs | ⟨n, r, longs, hlongs, horder, hlong, hrun, hn⟩
  · have hshort := hv.filename_short hlongs
    rw [hlongs, nil_append, enextLoop, enextRound, if_neg hv.short_order.1, if_neg hv.short_order.2, if_neg (by simp),
      if_neg hv.short_attr]
    simp [hshort]
  · have hand := order_and n hn
    have hname := hv.filename_long (by simp [hlongs])
    have hlen := hrun.length_eq
    have hne : r.order ≠ endOfEntry ∧ r.order ≠ emptyEntry := by
      rw [horder]
      simp [endOfEntry, emptyEntry, lastLongEntry]
      omega
    have hbuf : readEntryName (fun _ => 0) (n * charLongName) r = overlay (fun _ => 0) (n * charLongName) (longBytes r) :=
      readEntryName_long hlong fun _ _ _ => rfl
    rw [hlongs] at hname ⊢
    rw [cons_append, enextLoop, enextRound, if_neg hne.1, if_neg hne.2, if_neg (by simp), if_pos hlong]
    rw [horder, hand.2.2.1, if_neg (by omega), if_pos hand.2.2.2, Nat.add_sub_cancel, hbuf]
    dsimp only
    rw [enextLoop_run hrun hn hv.short_order hv.short_attr]
    simp only [reverse_cons, flatMap_append, flatMap_cons, flatMap_nil,
      append_nil] at hname
    rw [hname]
    simp [hlen]

end enext

end Tree
end OsRiscv
