import Mathlib.Data.Finset.Prod
import OsRiscv.Files.Table
import OsRiscv.Lib.Occurrences
import OsRiscv.Lib.Run

/-!
# RefCount — every reference to a file is counted

`count s f` is the number of descriptors and mounted file systems that refer to `f`.  Between calls
it equals `f.ref`.  Inside a call the two differ by the references that the call itself holds, or
still has to take: the debt `d` of `Track`.  Each function moves the debt in one way, and a call is
right if the debt is zero at its end.
-/

namespace OsRiscv
namespace Files

open Function (update update_self)
open Lib List

/-! ## Counting -/

/-- The descriptors of all processes. -/
@[irreducible] def slots : Finset (Nat × Nat) := Finset.range processTotalNumber ×ˢ Finset.range nofile

lemma mem_slots {p fd : Nat} (hp : p < processTotalNumber) (hfd : fd < nofile) : (p, fd) ∈ slots := by
  unfold slots
  exact Finset.mem_product.2 ⟨Finset.mem_range.2 hp, Finset.mem_range.2 hfd⟩

/-- The image of a mounted file system. -/
def mounted (fs : Nat → FileSystem) (i : Nat) : Option Nat :=
  if (fs i).valid then (fs i).image else none

def count (s : Sys) (f : Nat) : Nat :=
  occ slots s.ofile f + occ (Finset.range fileSystemNumber) (mounted s.fileSystem) f

/-- The types whose last reference ends in `pipeClose` or `socketFree`. -/
def Closing (t : FileType) : Prop := t = .pipe ∨ t = .socket

instance (t : FileType) : Decidable (Closing t) := inferInstanceAs (Decidable (_ ∨ _))

/-- One reference to `f` if the slot holds it. -/
def hold (o : Option Nat) (f : Nat) : Int := if o = some f then 1 else 0

@[simp] lemma hold_none (f : Nat) : hold none f = 0 := rfl

@[simp] lemma hold_self (f : Nat) : hold (some f) f = 1 := by simp [hold]

lemma hold_of_ne {f g : Nat} (h : g ≠ f) : hold (some f) g = 0 := by
  have hne : ¬f = g := fun hfg => h hfg.symm
  simp [hold, hne]

lemma occ_update_int {κ : Type} [DecidableEq κ] {S : Finset κ} {g : κ → Option Nat} {k : κ}
    (hk : k ∈ S) (v : Option Nat) (f : Nat) :
    (occ S (update g k v) f : Int) = occ S g f + hold v f - hold (g k) f := by
  have h := occ_update (g := g) (a := f) hk v
  unfold hold
  by_cases h1 : g k = some f <;> by_cases h2 : v = some f <;> simp [h1, h2] at h ⊢ <;> omega

/-! ## The state inside a call -/

/-- A call that began in `s0` has reached `s` and owes `d`.  `own` says whether it may itself create
files that `pipeClose` or `socketFree` has to undo. -/
structure Track (s0 : Sys) (own : Prop) (d : Nat → Int) (s : Sys) : Prop where
  owes : ∀ f, ((s.file f).ref : Int) = count s f + d f
  unused : ∀ f, (s.file f).ref = 0 → (s.file f).type = .none
  /-- A file from before the call is in use as before, or dropped, and then closed if it has to be. -/
  keep : ∀ f, 0 < (s0.file f).ref →
    (0 < (s.file f).ref ∧ (s.file f).type = (s0.file f).type) ∨
    ((s.file f).ref = 0 ∧ (f ∈ s.closes ↔ Closing (s0.file f).type))
  closed : ∀ f ∈ s.closes, (s.file f).ref = 0 ∧ (0 < (s0.file f).ref ∨ own)
  nodup : s.closes.Nodup
  dead : ∀ p, s.live p = false → ∀ fd, s.ofile (p, fd) = none
  bound : ∀ p, s.live p = true → p < processTotalNumber
  range : ∀ p fd, s.ofile (p, fd) ≠ none → fd < nofile

variable {s0 s t : Sys} {own : Prop} {d d' : Nat → Int} {p fd f : Nat} {Q : Unit → Sys → Prop}

lemma Track.congr (h : Track s0 own d s) (hd : ∀ f, d f = d' f) : Track s0 own d' s := by
  have hdd : d = d' := funext hd
  rw [← hdd]
  exact h

/-! ### The basic changes -/

section

variable (h : Track s0 own d s)
include h

lemma Track.setSlot (hp : s.live p = true) (hfd : fd < nofile) (v : Option Nat) :
    Track s0 own (fun f => d f + hold (s.ofile (p, fd)) f - hold v f)
      { s with ofile := update s.ofile (p, fd) v } := by
  have hmem : (p, fd) ∈ slots := mem_slots (h.bound p hp) hfd
  refine ⟨?_, h.unused, h.keep, h.closed, h.nodup, ?_, h.bound, ?_⟩
  · intro f
    have howes := h.owes f
    have hocc := occ_update_int (g := s.ofile) hmem v f
    simp only [count] at howes ⊢
    omega
  · intro q hq x
    have hne : (q, x) ≠ (p, fd) := by
      intro heq
      have hqp : q = p := congrArg Prod.fst heq
      rw [hqp, hp] at hq
      cases hq
    simpa [hne] using h.dead q hq x
  · intro q x hx
    by_cases heq : (q, x) = (p, fd)
    · have hxfd : x = fd := congrArg Prod.snd heq
      rw [hxfd]
      exact hfd
    · exact h.range q x (by simpa [heq] using hx)

/-- A change of the entry of one file in the table. -/
theorem Track.setFile {v : File} (hnot : f ∉ s.closes) (hunused : v.ref = 0 → v.type = .none)
    (hkeep : 0 < (s0.file f).ref → 0 < v.ref ∧ v.type = (s.file f).type)
    (hpos : 0 < (s0.file f).ref → 0 < (s.file f).ref) :
    Track s0 own (fun g => d g + if g = f then (v.ref : Int) - (s.file f).ref else 0)
      { s with file := update s.file f v } := by
  refine ⟨?_, ?_, ?_, ?_, h.nodup, h.dead, h.bound, h.range⟩
  · intro g
    have howes := h.owes g
    simp only [count] at howes ⊢
    by_cases hg : g = f
    · subst hg
      simp only [update_self, if_true]
      omega
    · simpa [hg] using howes
  · intro g hg
    by_cases hgf : g = f
    · subst hgf
      simpa using hunused (by simpa using hg)
    · simpa [hgf] using h.unused g (by simpa [hgf] using hg)
  · intro g hg
    by_cases hgf : g = f
    · subst hgf
      rcases h.keep g hg with ⟨_, htype⟩ | ⟨hz, _⟩
      · have hv := hkeep hg
        exact .inl (by simpa [htype] using hv)
      · exact absurd hz (Nat.ne_of_gt (hpos hg))
    · simpa [hgf] using h.keep g hg
  · intro g hg
    have hgf : g ≠ f := fun heq => hnot (heq ▸ hg)
    simpa [hgf] using h.closed g hg

lemma Track.notMem_of_pos (hpos : 0 < (s.file f).ref) : f ∉ s.closes :=
  fun hmem => absurd (h.closed f hmem).1 (Nat.ne_of_gt hpos)

lemma Track.mem_slots (hslot : s.ofile (p, fd) = some f) : (p, fd) ∈ slots := by
  have hlive : s.live p = true := by
    by_contra hdead
    have hnone := h.dead p (by simpa using hdead) fd
    rw [hslot] at hnone
    cases hnone
  exact Files.mem_slots (h.bound p hlive) (h.range p fd (by simp [hslot]))

lemma Track.pos_of_slot (hd : 0 ≤ d f) (hslot : s.ofile (p, fd) = some f) :
    0 < (s.file f).ref := by
  have hocc := occ_pos (h.mem_slots hslot) hslot
  have howes := h.owes f
  simp only [count] at howes
  omega

lemma Track.slot_unique (hd : d f = 0) {k k' : Nat × Nat}
    (hk : s.ofile k = some f) (hk' : s.ofile k' = some f) (hone : (s.file f).ref = 1) : k = k' := by
  by_contra hne
  have htwo := occ_two (h.mem_slots hk) (h.mem_slots hk') hne hk hk'
  have howes := h.owes f
  simp only [count, hone, hd] at howes
  omega

lemma Track.dup (hpos : 0 < (s.file f).ref) : Track s0 own (fun g => d g + hold (some f) g)
      { s with file := update s.file f { s.file f with ref := (s.file f).ref + 1 } } := by
  have hset := h.setFile (v := { s.file f with ref := (s.file f).ref + 1 })
    (h.notMem_of_pos hpos) (by simp) (by simp) (fun _ => hpos)
  refine hset.congr ?_
  intro g
  by_cases hg : g = f
  · subst hg
    simp
  · simp [hg, hold_of_ne hg]

/-- Nothing has been dropped since the call began: a free entry was free then. -/
def NoDrop (s0 s : Sys) : Prop := s.closes = [] ∧ ∀ f, (s.file f).ref = 0 → (s0.file f).ref = 0

lemma Track.alloc (hno : NoDrop s0 s) (hfree : (s.file f).ref = 0) :
    Track s0 own (fun g => d g + hold (some f) g)
      { s with file := update s.file f { s.file f with ref := 1 } } := by
  have hold0 := hno.2 f hfree
  have hset := h.setFile (f := f) (v := { s.file f with ref := 1 })
    (by simp [hno.1]) (by simp) (by simp [hold0]) (by simp [hold0])
  refine hset.congr ?_
  intro g
  by_cases hg : g = f
  · subst hg
    simp [hfree]
  · simp [hg, hold_of_ne hg]

end

lemma NoDrop.alloc (hno : NoDrop s0 s) :
    NoDrop s0 { s with file := update s.file f { s.file f with ref := 1 } } := by
  refine ⟨hno.1, ?_⟩
  intro g hg
  by_cases hgf : g = f
  · simp [hgf] at hg
  · exact hno.2 g (by simpa [hgf] using hg)

lemma Track.fill (h : Track s0 own d s) {v : File} (hnew : (s0.file f).ref = 0)
    (hpos : 0 < (s.file f).ref) (href : v.ref = (s.file f).ref) :
    Track s0 own d { s with file := update s.file f v } := by
  have hset := h.setFile (h.notMem_of_pos hpos)
    (fun hz => absurd (href ▸ hz) (Nat.ne_of_gt hpos)) (by simp [hnew]) (by simp [hnew])
  refine hset.congr ?_
  intro g
  by_cases hg : g = f <;> simp [hg, href]

/-- What `fileclose(f)` does. -/
structure Dropped (s : Sys) (f : Nat) (t : Sys) : Prop where
  file : t.file = update s.file f { s.file f with
    ref := (s.file f).ref - 1
    type := if (s.file f).ref = 1 then .none else (s.file f).type }
  closes : t.closes =
    if (s.file f).ref = 1 ∧ Closing (s.file f).type then s.closes ++ [f] else s.closes
  ofile : t.ofile = s.ofile
  live : t.live = s.live
  fileSystem : t.fileSystem = s.fileSystem

lemma Track.drop (h : Track s0 own d s) (hpos : 0 < (s.file f).ref)
    (hown : Closing (s.file f).type → 0 < (s0.file f).ref ∨ own) (hd : Dropped s f t) :
    Track s0 own (fun g => d g - hold (some f) g) t := by
  have hnot := h.notMem_of_pos hpos
  have hmem : ∀ g, g ≠ f → (g ∈ t.closes ↔ g ∈ s.closes) := by
    intro g hg
    rw [hd.closes]
    split <;> simp [hg]
  refine ⟨?_, ?_, ?_, ?_, ?_, ?_, ?_, ?_⟩
  · intro g
    have howes := h.owes g
    simp only [count, hd.ofile, hd.fileSystem, hd.file] at howes ⊢
    by_cases hg : g = f
    · subst hg
      simp only [update_self, hold_self]
      omega
    · simpa [hg, hold_of_ne hg] using howes
  · intro g hg
    rw [hd.file] at hg ⊢
    by_cases hgf : g = f
    · subst hgf
      have hone : (s.file g).ref = 1 := by
        simp only [update_self] at hg
        omega
      simp [hone]
    · simpa [hgf] using h.unused g (by simpa [hgf] using hg)
  · intro g hg
    by_cases hgf : g = f
    · subst hgf
      rcases h.keep g hg with ⟨_, htype⟩ | ⟨hz, _⟩
      · rw [hd.file, hd.closes]
        by_cases hone : (s.file g).ref = 1
        · -- the last reference
          refine .inr ⟨by simp [hone], ?_⟩
          by_cases hc : Closing (s.file g).type
          · simp [hone, hc, ← htype]
          · simp [hc, hnot, ← htype]
        · refine .inl ⟨?_, by simp [hone, htype]⟩
          simp only [update_self]
          omega
      · exact absurd hz (Nat.ne_of_gt hpos)
    · rw [hd.file, hmem g hgf]
      simpa [hgf] using h.keep g hg
  · intro g hg
    by_cases hgf : g = f
    · subst hgf
      rw [hd.closes] at hg
      by_cases hlast : (s.file g).ref = 1 ∧ Closing (s.file g).type
      · exact ⟨by simp [hd.file, hlast.1], hown hlast.2⟩
      · simp only [hlast, if_false] at hg
        exact absurd hg hnot
    · have hc := h.closed g ((hmem g hgf).1 hg)
      simpa [hd.file, hgf] using hc
  · rw [hd.closes]
    split
    · exact nodup_append.2 ⟨h.nodup, by simp, by
        intro x hx y hy hxy
        have hyf : y = f := by simpa using hy
        rw [hxy, hyf] at hx
        exact hnot hx⟩
    · exact h.nodup
  · rw [hd.live, hd.ofile]
    exact h.dead
  · rw [hd.live]
    exact h.bound
  · rw [hd.ofile]
    exact h.range

/-! ## Rules for the functions -/

/-- The reference count protocol is not violated: no panic of `filedup` or `fileclose`. -/
def NoRefPanic (r : Panic) (_ : Sys) : Prop := r ≠ .filedup ∧ r ≠ .fileclose

section

variable {E : Panic → Sys → Prop}

@[simp] lemma wp_setSlot (v : Option Nat) :
    wp (setSlot p fd v) Q E s ↔ Q () { s with ofile := update s.ofile (p, fd) v } := .rfl

@[simp] lemma wp_setFile (v : File) :
    wp (setFile f v) Q E s ↔ Q () { s with file := update s.file f v } := .rfl

lemma filealloc_wp {Q : Option Nat → Sys → Prop} (hnone : Q none s) (hsome : ∀ f, (s.file f).ref = 0 →
      Q (some f) { s with file := update s.file f { s.file f with ref := 1 } }) :
    wp filealloc Q E s := by
  unfold filealloc
  simp only [wp_bind, wp_get]
  cases hfind : (List.range nfile).find? fun f => decide ((s.file f).ref = 0) with
  | none => exact hnone
  | some f =>
    have hfree : (s.file f).ref = 0 := by simpa using find?_some hfind
    exact hsome f hfree

lemma fdalloc_wp {Q : Option Nat → Sys → Prop} (hnone : (∀ fd, fd < nofile → s.ofile (p, fd) ≠ none) → Q none s)
    (hsome : ∀ fd, fd < nofile → s.ofile (p, fd) = none →
      Q (some fd) { s with ofile := update s.ofile (p, fd) (some f) }) :
    wp (fdalloc p f) Q E s := by
  unfold fdalloc
  simp only [wp_bind, wp_get]
  cases hfind : (List.range nofile).find? fun fd => decide (s.ofile (p, fd) = none) with
  | none =>
    refine hnone ?_
    intro fd hfd hfree
    have hno := find?_eq_none.1 hfind fd (mem_range.2 hfd)
    simp [hfree] at hno
  | some fd =>
    have hfree : s.ofile (p, fd) = none := by simpa using find?_some hfind
    have hfd : fd < nofile := mem_range.1 (mem_of_find?_eq_some hfind)
    exact hsome fd hfd hfree

lemma filedup_wp (hpos : 0 < (s.file f).ref) (h : Q () { s with
      file := update s.file f { s.file f with ref := (s.file f).ref + 1 } }) :
    wp (filedup f) Q E s := by
  have hnot : ¬(s.file f).ref < 1 := Nat.not_lt.2 hpos
  unfold filedup
  simp only [wp_bind, wp_get, hnot, if_false]
  exact h

lemma fileclose_wp (hpos : 0 < (s.file f).ref)
    (h : ∀ t, Dropped s f t → Q () t) : wp (fileclose f) Q E s := by
  have hnot : ¬(s.file f).ref < 1 := Nat.not_lt.2 hpos
  unfold fileclose
  simp only [wp_bind, wp_get, hnot, if_false]
  by_cases hmore : 0 < (s.file f).ref - 1
  · have hne : (s.file f).ref ≠ 1 := fun h => by simp [h] at hmore
    simp only [hmore, if_true]
    exact h _ ⟨by simp [hne], by simp [hne], rfl, rfl, rfl⟩
  · have hone : (s.file f).ref = 1 := by omega
    simp only [hmore, if_false]
    cases htype : (s.file f).type with
    | pipe => exact h _ ⟨by simp [hone], by simp [hone, htype, Closing], rfl, rfl, rfl⟩
    | socket => exact h _ ⟨by simp [hone], by simp [hone, htype, Closing], rfl, rfl, rfl⟩
    | none => exact h _ ⟨by simp [hone], by simp [htype, Closing], rfl, rfl, rfl⟩
    | entry => exact h _ ⟨by simp [hone], by simp [htype, Closing], rfl, rfl, rfl⟩
    | device => exact h _ ⟨by simp [hone], by simp [htype, Closing], rfl, rfl, rfl⟩

end

end Files
end OsRiscv
