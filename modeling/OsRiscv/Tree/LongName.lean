import OsRiscv.Tree.Entries

/-!
# LongName — how a long name is spelled

A name stands in front of its short entry, 13 characters of 16 bits to a long entry, the last part first.
-/

namespace OsRiscv
namespace Tree

open Lib List

/-- The characters of a name: when they do not fill the last entry, a 0 and then 0xffff. -/
def units (name : Str) : List Nat :=
  name.map UInt8.toNat ++
    if name.length % charLongName = 0 then []
    else 0 :: List.replicate (charLongName - 1 - name.length % charLongName) 0xffff

/-- The number of long entries for a name. -/
def longCount (name : Str) : Nat := (name.length + (charLongName - 1)) / charLongName

/-- The characters in entry `i + 1` of a name. -/
def unitsOf (name : Str) (i : Nat) : List Nat := ((units name).drop (charLongName * i)).take charLongName

/-- The entries `rs` are the standard encoding of `name`. -/
structure Spells (name : Str) (rs : List Raw) : Prop where
  order : rs.map Raw.order =
    (List.range (longCount name)).map fun i => (longCount name - i) ||| (if i = 0 then lastLongEntry else 0)
  attr : ∀ r ∈ rs, r.attr = attrLongName
  chars : rs.reverse.map (fun r => (longParts r).flatten) = (List.range (longCount name)).map (unitsOf name)

lemma length_units (name : Str) : (units name).length = charLongName * longCount name := by
  unfold units longCount charLongName
  split
  case isTrue h =>
    simp
    omega
  case isFalse h =>
    simp
    omega

lemma takeWhile_units {name : Str} (hname : ∀ b ∈ name, b ≠ 0) :
    (units name).takeWhile (· ≠ 0) = name.map UInt8.toNat := by
  have hall : ∀ x ∈ name.map UInt8.toNat, decide (x ≠ 0) = true := by
    intro x hx
    rcases mem_map.1 hx with ⟨b, hb, rfl⟩
    have hne : b.toNat ≠ 0 := fun h => hname b hb (UInt8.toNat_inj.1 h)
    simpa using hne
  unfold units
  rw [takeWhile_append_of_pos hall]
  split
  · simp
  · simp

lemma flatten_pieces {β : Type*} (l : List β) (n k : Nat) :
    ((List.range k).map fun i => (l.drop (n * i)).take n).flatten = l.take (n * k) := by
  induction k with
  | zero => simp
  | succ k ih =>
    rw [range_succ, map_append, flatten_append, ih, Nat.mul_succ, take_add]
    simp

lemma isRun_of_orders {n : Nat} {rs : List Raw} (horder : rs.map Raw.order = (List.range n).map fun i => n - i)
    (hattr : ∀ r ∈ rs, r.attr = attrLongName) : IsRun n rs := by
  induction n generalizing rs with
  | zero => exact map_eq_nil_iff.1 horder
  | succ n ih =>
    rw [range_succ_eq_map, map_cons, map_map] at horder
    rcases map_eq_cons_iff.1 horder with ⟨r, rest, rfl, hr, hrest⟩
    refine ⟨r, rest, rfl, hr, hattr r mem_cons_self, ih ?_ fun x hx => hattr x (mem_cons_of_mem r hx)⟩
    rw [hrest]
    exact map_congr_left fun i _ => Nat.add_sub_add_right n 1 i

lemma or_lastLongEntry : ∀ n ≤ 20, n ||| lastLongEntry = lastLongEntry + n := by
  decide

section Spells

variable {name : Str} {rs : List Raw} {short : Raw} (h : Spells name rs)
include h

lemma Spells.length_eq : rs.length = longCount name := by
  simpa using congrArg List.length h.order

lemma Spells.name_eq (hrs : rs ≠ []) (hname : ∀ b ∈ name, b ≠ 0) :
    (Entry.mk rs short).name = name.map UInt8.toNat := by
  have hparts : (Entry.mk rs short).parts.flatten = (rs.reverse.map fun r => (longParts r).flatten).flatten := by
    unfold Entry.parts
    rw [flatMap_def, flatten_flatten, map_map]
    rfl
  have hunits : (Entry.mk rs short).parts.flatten = units name := by
    rw [hparts, h.chars]
    unfold unitsOf
    rw [flatten_pieces, ← length_units, take_length]
  unfold Entry.name
  rw [if_neg hrs, hunits, takeWhile_units hname]

/-- A name of up to 247 characters: the entries that spell it and a live short entry are as `Entries` has
them, and the string is the name. -/
theorem Spells.valid (hpos : name ≠ []) (hlen : name.length ≤ 247) (hname : ∀ b ∈ name, b ≠ 0)
    (horder : short.order ≠ endOfEntry ∧ short.order ≠ emptyEntry) (hattr : short.attr ≠ attrLongName) :
    (Entry.mk rs short).Valid ∧ (Entry.mk rs short).filename = name := by
  have hcount : 0 < longCount name ∧ longCount name ≤ 19 := by
    have := length_pos_of_ne_nil hpos
    unfold longCount charLongName
    omega
  generalize hk : longCount name - 1 = n
  have hsucc : longCount name = n + 1 := by omega
  have hfirst := h.order
  rw [hsucc, range_succ_eq_map, map_cons, map_map] at hfirst
  rcases map_eq_cons_iff.1 hfirst with ⟨r, rest, rfl, hr, hrest⟩
  have hrs : r :: rest ≠ [] := cons_ne_nil r rest
  have hchars : (Entry.mk (r :: rest) short).name = name.map UInt8.toNat := h.name_eq hrs hname
  refine ⟨⟨horder, hattr, .inr ?_, ?_, fun hnil => absurd hnil hrs⟩, ?_⟩
  · -- the first entry has the mark, and the others go down from it
    refine ⟨n, r, rest, rfl, ?_, h.attr r mem_cons_self, ?_, by omega⟩
    · rw [hr, if_pos rfl, Nat.sub_zero, or_lastLongEntry _ (by omega)]
    · refine isRun_of_orders ?_ fun x hx => h.attr x (mem_cons_of_mem r hx)
      rw [hrest]
      simp
  · rw [hchars, length_map]
    exact Nat.le_trans hlen (by decide)
  · have hback : (name.map UInt8.toNat).map UInt8.ofNat = name := by
      rw [map_map]
      exact (map_congr_left fun b _ => by simp).trans (map_id _)
    unfold Entry.filename
    rw [hchars, hback]
    exact takeWhile_eq_self_iff.2 fun b hb => by simpa using hname b hb

end Spells

/-! ## Writing a name -/

/-- A long entry: the number, and the characters in the three parts. -/
def longEntry (order : Nat) (us : List Nat) : Raw :=
  memOf 0 ([UInt8.ofNat order] ++ (us.take 5).flatMap (toLe 2) ++ [0x0f, 0, 0] ++
    ((us.drop 5).take 6).flatMap (toLe 2) ++ [0, 0] ++ (us.drop 11).flatMap (toLe 2))

/-- The long entries of a name. -/
def spell (name : Str) : List Raw :=
  (List.range (longCount name)).map fun i =>
    longEntry ((longCount name - i) ||| (if i = 0 then lastLongEntry else 0)) (unitsOf name (longCount name - 1 - i))

end Tree
end OsRiscv
