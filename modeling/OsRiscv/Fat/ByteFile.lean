import OsRiscv.Fat.Alloc

/-!
# ByteFile — a file created in this run is a byte array

Every regular file that `ealloc` creates is followed by an array of bytes: `ewrite` writes in the array,
filling the gap behind its end with zeros, and `etrunc` empties it.  Whatever calls were made on whatever
files, the next `eread` returns what reading the array returns.
-/

namespace OsRiscv
namespace Fat

open Function (update update_eq_self update_of_ne update_self)
open Lib List

/-! ## Arrays -/

/-- A regular file: no special device, no directory, not read-only. -/
def Regular (v : Vol) (d : Nat) : Prop :=
  (v.dirents d).dev = .regular ∧ (v.dirents d).attr &&& attrReadOnly = 0 ∧
    (v.dirents d).attr &&& attrDirectory = 0

instance (v : Vol) (d : Nat) : Decidable (Regular v d) := by
  unfold Regular
  infer_instance

/-- Reading an array. -/
def readAt (a : List UInt8) (off n : Nat) : List UInt8 :=
  if a.length < off ∨ (off + n) % 2 ^ 32 < off then [] else (a.drop off).take n

/-- What a call that led from `v` to `t` does to the arrays.  Only a write of at least one byte within the
largest file size changes the array of its file. -/
def Act.arrays (v t : Vol) (arr : Nat → Option (List UInt8)) : Act → Nat → Option (List UInt8)
  | .ewrite d off data =>
    if data ≠ [] ∧ off + data.length ≤ 0xffffffff then
      update arr d ((arr d).map fun a => writeAt 0 a off data)
    else arr
  | .reloc _ _ _ => arr
  | .ealloc _ found _ =>
    match found, v.direntHead with
    | none, ep :: _ => if Regular t ep then update arr ep (some []) else arr
    | _, _ => arr
  | .etrunc d => update arr d ((arr d).map fun _ => [])

inductive Op
  | act (a : Act)
  | eread (d off n : Nat)

/-- The volume, and the arrays of the files created so far. -/
structure Traced where
  vol : Vol
  arr : Nat → Option (List UInt8)

namespace Op

def Ok (g : Geometry) (s : Traced) : Op → Prop
  | act a => a.Ok g s.vol
  | eread d _ _ => d ∈ s.vol.files

instance (g : Geometry) (s : Traced) (o : Op) : Decidable (o.Ok g s) := by
  cases o <;> unfold Ok <;> infer_instance

def step (g : Geometry) (s : Traced) : Op → Option Traced
  | act a =>
    match a.step g s.vol with
    | some t => some ⟨t, a.arrays s.vol t s.arr⟩
    | none => none
  | eread d off n =>
    match Fat.eread g d off n s.vol with
    | .done _ t => some ⟨t, s.arr⟩
    | .panic _ _ => none

end Op

/-! ## A file and its array -/

variable {g : Geometry} {v t u : Vol} {ch ch' : Nat → List Nat} {d e off n : Nat} {data : List UInt8}
  {arr arr' : Nat → Option (List UInt8)} {l l' : List Nat} {a a' : Option (List UInt8)}

/-- File `d` has the clusters `l`, and its content is the array `a`, if it has one. -/
structure Stores (g : Geometry) (v : Vol) (l : List Nat) (a : Option (List UInt8)) (d : Nat) : Prop where
  cur : (v.dirents d).curClus < fat32Eoc
  size : (v.dirents d).fileSize ≤ l.length * g.bytsPerClus
  array : ∀ x, a = some x → Regular v d ∧ (v.dirents d).fileSize = x.length ∧
    fileBytes g v.disk l = memOf 0 x

structure Holds (g : Geometry) (v : Vol) (ch : Nat → List Nat) (arr : Nat → Option (List UInt8)) : Prop where
  inv : Inv g v ch
  apart : Apart v ch
  files : ∀ d ∈ v.files, Stores g v (ch d) (arr d) d
  live : ∀ d, arr d ≠ none → d ∈ v.files

lemma Stores.kept (h : Stores g v l a e) (hdirent : t.dirents e = { v.dirents e with inode := (t.dirents e).inode })
    (hbytes : fileBytes g t.disk l = fileBytes g v.disk l) : Stores g t l a e := by
  constructor
  · rw [hdirent]
    exact h.cur
  · rw [hdirent]
    exact h.size
  · intro x hx
    unfold Regular
    rw [hdirent, hbytes]
    exact h.array x hx

lemma InRange.lt_eoc {c : Nat} (hc : InRange g c) : c < fat32Eoc := by
  have hlim := g.clusters_lt
  have hle := hc.2
  unfold fat32Eoc
  omega

/-- A call on file `d` that led to `u`, and in the end set the size of `d`: what is to be shown is what
became of `d`. -/
theorem Holds.changed (h : Holds g v ch arr) (hd : d ∈ v.files) (hc : Changed g d v ch u ch')
    (hinv : Inv g t ch') (hsame : SameFiles u t) (hdirent : ∀ e, e ≠ d → t.dirents e = u.dirents e)
    (hself : Stores g t (ch' d) (arr' d) d) (hother : ∀ e, e ≠ d → arr' e = arr e) : Holds g t ch' arr' := by
  rcases hc.apart h.apart with ⟨hap, hkeep⟩
  have hfiles : t.files = v.files := hsame.files.trans hc.files
  refine ⟨hinv, ?_, fun e he => ?_, fun e hlive => ?_⟩
  · intro a ha b hb
    rw [hsame.files] at ha hb
    exact hap a ha b hb
  · rw [hfiles] at he
    by_cases hed : e = d
    · subst hed
      exact hself
    · have hbytes := hc.fileBytes h.inv h.apart hd he hed
      rw [← hsame.disk, hkeep e he hed] at hbytes
      rw [hkeep e he hed, hother e hed]
      refine (h.files e he).kept ?_ hbytes
      rw [hdirent e hed]
      exact hc.others e hed
  · rw [hfiles]
    by_cases hed : e = d
    · subst hed
      exact hd
    · rw [hother e hed] at hlive
      exact h.live e hlive

lemma Changed.regular (hc : Changed g d v ch t ch') (h : Regular v d) : Regular t d := by
  unfold Regular
  rw [hc.dev, hc.attr]
  exact h

lemma Holds.grown (h : Holds g v ch arr) (hd : d ∈ v.files) (hinv : Inv g t ch') (hg : Grown g d v ch t ch')
    (hcur : (t.dirents d).curClus < fat32Eoc) : Holds g t ch' arr := by
  have hc := hg.changed
  refine h.changed hd hc hinv (SameFiles.refl t) (fun _ _ => rfl) ⟨hcur, ?_, fun x hx => ?_⟩ fun _ _ => rfl
  · rw [hc.fileSize]
    exact Nat.le_trans (h.files d hd).size (Nat.mul_le_mul_right _ hc.grows.length_le)
  · rcases (h.files d hd).array x hx with ⟨hreg, hsize, hbytes⟩
    rw [hc.fileSize, hg.fileBytes h.inv hd]
    exact ⟨hc.regular hreg, hsize, hbytes⟩

/-! ## One call -/

lemma resized_self {size : Nat} : (v.resized d size).dirents d = { v.dirents d with fileSize := size } :=
  update_self _ _ _

lemma resized_of_ne {size : Nat} (hne : e ≠ d) : (v.resized d size).dirents e = v.dirents e :=
  update_of_ne hne _ _

lemma Regular.writes (h : Regular v d) (hfits : off + data.length ≤ 0xffffffff) : Writes v d off data := by
  refine ⟨?_, hfits, h.2.1⟩
  rw [h.1]
  decide

lemma le_lastClus (hlong : lastClus g off data.length < l.length) :
    off + data.length ≤ l.length * g.bytsPerClus := by
  have hlt := (Nat.div_lt_iff_lt_mul (bytsPerClus_pos g)).1 hlong
  omega

lemma Stored.cur_lt (hs : Stored g d off data v ch t ch') (h : Stores g v l a d) :
    (t.dirents d).curClus < fat32Eoc := by
  rcases hs.cur with hcur | hcur
  · rw [hcur]
    exact h.cur
  · exact hcur.lt_eoc

lemma Stored.stores (hs : Stored g d off data v ch u ch') (h : Stores g v (ch d) a d) (hdata : data ≠ []) :
    Stores g (u.resized d (max (v.dirents d).fileSize (off + data.length))) (ch' d)
      (a.map fun x => writeAt 0 x off data) d := by
  constructor
  · rw [resized_self]
    exact hs.cur_lt h
  · rw [resized_self]
    refine Nat.max_le.2 ⟨?_, le_lastClus (hs.long hdata)⟩
    exact Nat.le_trans h.size (Nat.mul_le_mul_right _ hs.changed.grows.length_le)
  · intro y hy
    rcases Option.map_eq_some_iff.1 hy with ⟨x, hx, rfl⟩
    rcases h.array x hx with ⟨hreg, hsize, hbytes⟩
    refine ⟨?_, ?_, ?_⟩
    · have hreg' := hs.changed.regular hreg
      unfold Regular
      rw [resized_self]
      exact hreg'
    · rw [resized_self, length_writeAt, hsize]
    · rw [memOf_writeAt, ← hbytes]
      exact hs.bytes

section

variable (h : Holds g v ch arr)
include h

lemma Holds.ewrite (hd : d ∈ v.files) (he : (Act.ewrite d off data).Effect g v ch t ch') :
    Holds g t ch' ((Act.ewrite d off data).arrays v t arr) := by
  rw [Act.arrays]
  rcases he with ⟨hnot, rfl, rfl⟩ | ⟨hw, u, hs, rfl⟩
  · -- nothing was written: the file has no array, or the write is too large
    split
    · rename_i hcond
      have hnone : arr d = none := by
        cases harr : arr d with
        | none => rfl
        | some x => exact absurd (((h.files d hd).array x harr).1.writes hcond.2) hnot
      rw [hnone, Option.map_none, ← hnone, update_eq_self]
      exact h
    · exact h
  · by_cases hdata : data = []
    · subst hdata
      rw [if_pos rfl]
      refine h.changed hd hs.changed hs.inv (SameFiles.refl u) (fun _ _ => rfl) ⟨hs.cur_lt (h.files d hd), ?_, ?_⟩
        fun _ _ => rfl
      · rw [hs.changed.fileSize]
        exact Nat.le_trans (h.files d hd).size (Nat.mul_le_mul_right _ hs.changed.grows.length_le)
      · intro x hx
        rcases (h.files d hd).array x hx with ⟨hreg, hsize, hbytes⟩
        rw [hs.changed.fileSize, hs.bytes, overlay_nil]
        exact ⟨hs.changed.regular hreg, hsize, hbytes⟩
    · rw [if_neg hdata, if_pos ⟨hdata, hw.2.1⟩]
      refine h.changed hd hs.changed (hs.inv.congr resized_sameFiles) resized_sameFiles
        (fun e hne => resized_of_ne hne) ?_ fun e hne => update_of_ne hne _ _
      rw [update_self]
      exact hs.stores (h.files d hd) hdata

lemma Holds.ealloc {dp : Nat} {found : Option Nat} {attr : BitVec 8}
    (he : (Act.ealloc dp found attr).Effect g v ch t ch') :
    Holds g t ch' ((Act.ealloc dp found attr).arrays v t arr) := by
  rcases he with ⟨hsome, rfl, rfl⟩ | ⟨rfl, ep, rest, hhead, hc⟩
  · cases found with
    | none => exact absurd rfl hsome
    | some _ => exact h
  · have harr : (Act.ealloc dp none attr).arrays v t arr =
        if Regular t ep then update arr ep (some []) else arr := by
      simp only [Act.arrays, hhead]
    rcases hc.apart h.apart with ⟨hap, hkeep⟩
    have hnone : arr ep = none := by
      by_contra hlive
      exact hc.spare (h.live ep hlive)
    rw [harr]
    refine ⟨hc.inv, hap, fun e he => ?_, fun e hlive => ?_⟩
    · rw [hc.files] at he
      by_cases hep : e = ep
      · -- the new file is empty
        subst hep
        refine ⟨hc.cur, by rw [hc.fileSize]; exact Nat.zero_le _, fun x hx => ?_⟩
        by_cases hreg : Regular t e
        · rw [if_pos hreg, update_self] at hx
          cases hx
          exact ⟨hreg, hc.fileSize, hc.zero⟩
        · rw [if_neg hreg, hnone] at hx
          cases hx
      · have hmem := mem_of_ne_of_mem hep he
        have hbytes := hc.bytes h.apart e hmem
        rw [hkeep e hmem] at hbytes ⊢
        have hsame : (if Regular t ep then update arr ep (some []) else arr) e = arr e := by
          split
          · exact update_of_ne hep _ _
          · rfl
        rw [hsame]
        exact (h.files e hmem).kept (hc.others e hep) hbytes
    · rw [hc.files]
      by_cases hep : e = ep
      · rw [hep]
        exact mem_cons_self
      · refine mem_cons_of_mem _ (h.live e ?_)
        split at hlive
        · rwa [update_of_ne hep] at hlive
        · exact hlive

lemma Holds.etrunc (hd : d ∈ v.files) (he : (Act.etrunc d).Effect g v ch t ch') :
    Holds g t ch' ((Act.etrunc d).arrays v t arr) := by
  rcases he with ⟨rfl, hem⟩
  refine ⟨hem.inv, hem.apart, fun e he => ?_, fun e hlive => ?_⟩
  · rw [hem.files] at he
    rw [Act.arrays]
    by_cases hed : e = d
    · subst hed
      rw [update_self, update_self]
      constructor
      · rw [hem.self]
        exact (h.files e he).cur
      · rw [hem.self]
        exact Nat.zero_le _
      · intro y hy
        rcases Option.map_eq_some_iff.1 hy with ⟨x, hx, rfl⟩
        have hreg := ((h.files e he).array x hx).1
        unfold Regular
        rw [hem.self]
        refine ⟨hreg, rfl, ?_⟩
        funext o
        simp [fileBytes, memOf]
    · rw [update_of_ne hed, update_of_ne hed]
      refine (h.files e he).kept (by rw [hem.others e hed]) (fileBytes_congr fun x hx o _ => ?_)
      exact hem.bytes x o (h.inv.used_of_mem he hx).1
  · rw [hem.files]
    refine h.live e fun hnone => hlive ?_
    rw [Act.arrays]
    by_cases hed : e = d
    · subst hed
      rw [update_self, hnone, Option.map_none]
    · rw [update_of_ne hed, hnone]

lemma Holds.act {a : Act} (hok : a.Ok g v) (he : a.Effect g v ch t ch') :
    Holds g t ch' (a.arrays v t arr) := by
  cases a with
  | ewrite d off data => exact h.ewrite hok.1 he
  | reloc d off alloc =>
    rcases he with ⟨hinv, hg, hcur⟩
    refine h.grown hok.1 hinv hg ?_
    rcases hcur with hcur | hcur
    · exact hcur.lt_eoc
    · rw [hcur]
      by_cases hfirst : (v.dirents d).firstClus = 0
      · rw [hfirst]
        decide
      · have hchain := (h.inv.chain d hok.1 hfirst).chain
        exact InRange.lt_eoc (hchain.ok_of_mem hchain.mem_self)
  | ealloc dp found attr => exact h.ealloc he
  | etrunc d => exact h.etrunc hok he

/-- `eread` returns what reading the array returns, and leaves all files as they are. -/
theorem Holds.eread (hd : d ∈ v.files) : wp (eread g d off n)
      (fun bytes t => (∃ ch', Holds g t ch' arr ∧ Grown g d v ch t ch') ∧ ∀ x, arr d = some x → bytes = readAt x off n)
      (fun r t => (r = .wildInode ∧ t.pool.Full ∧
        ¬v.Room d (clustersFor g off (min n ((v.dirents d).fileSize - off)))) ∨
        (r = .inodeTooLarge ∧ inodeThirdLevelTop < (ch d).length)) v := by
  have hfile := h.files d hd
  refine eread_wp h.inv hd hfile.cur hfile.size (fun t ht hneed => .inl ⟨rfl, ht, hneed⟩)
    (fun hlarge _ => .inr ⟨rfl, hlarge⟩) ?_ ?_ ?_
  · intro hdev bytes
    refine ⟨⟨ch, h, .refl g d v ch⟩, fun x hx => ?_⟩
    have hreg := (hfile.array x hx).1.1
    rw [hreg] at hdev
    rcases hdev with hdev | hdev <;> cases hdev
  · intro hcond
    refine ⟨⟨ch, h, .refl g d v ch⟩, fun x hx => ?_⟩
    rcases hfile.array x hx with ⟨hreg, hsize, _⟩
    rw [hsize] at hcond
    unfold readAt
    rcases hcond with hoff | hwrap | hdir
    · rw [if_pos (.inl hoff)]
    · rw [if_pos (.inr hwrap)]
    · exact absurd hreg.2.2 hdir
  · intro hoff hwrap _ t ch' hr
    have hcur : (t.dirents d).curClus < fat32Eoc := by
      rcases hr.cur with hcur | hcur
      · rw [hcur]
        exact hfile.cur
      · exact hcur.lt_eoc
    refine ⟨⟨ch', h.grown hd hr.inv hr.grown hcur, hr.grown⟩, fun x hx => ?_⟩
    rcases hfile.array x hx with ⟨_, hsize, hbytes⟩
    rw [hsize] at hoff ⊢
    have hcond : ¬ (x.length < off ∨ (off + n) % 2 ^ 32 < off) := by
      rintro (hlt | hlt)
      · exact absurd hoff (Nat.not_le.2 hlt)
      · exact hwrap hlt
    unfold readAt
    rw [hbytes, slice_memOf (by omega), if_neg hcond, take_eq_take_min, length_drop]
    -- cutting at the end of the array twice is cutting once
    simp

end

/-! ## Histories -/

/-- A volume after `fatInit` on which the size of each file is within its clusters. -/
structure Fresh (g : Geometry) (v : Vol) : Prop extends Initialised g v where
  cur : ∀ d ∈ v.files, (v.dirents d).curClus = (v.dirents d).firstClus
  size : ∀ d ∈ v.files, (v.dirents d).fileSize ≤ (chainOf g v d).length * g.bytsPerClus

lemma Fresh.holds (h : Fresh g v) (hzero : fatEntry g v.disk 0 ≠ 0) (hone : fatEntry g v.disk 1 ≠ 0)
    (hchains : ∀ d ∈ v.files, (v.dirents d).firstClus ≠ 0 →
      ∃ l, FileChain g (fatEntry g v.disk) (v.dirents d).firstClus l)
    (hdisj : Apart v (chainOf g v)) : Holds g v (chainOf g v) fun _ => none := by
  refine ⟨h.toInitialised.inv hzero hone hchains, hdisj, fun d hd => ⟨?_, h.size d hd, ?_⟩, ?_⟩
  · rw [h.cur d hd]
    by_cases hfirst : (v.dirents d).firstClus = 0
    · rw [hfirst]
      decide
    · rcases hchains d hd hfirst with ⟨l, hl⟩
      exact InRange.lt_eoc (hl.ok_of_mem hl.mem_self)
  · intro x hx
    cases hx
  · intro d hlive
    exact absurd rfl hlive

lemma Op.step_holds {s s' : Traced} {o : Op} (h : ∃ ch, Holds g s.vol ch s.arr) (hok : o.Ok g s)
    (hstep : o.step g s = some s') : ∃ ch, Holds g s'.vol ch s'.arr := by
  rcases h with ⟨ch, h⟩
  cases o with
  | act a =>
    cases hout : a.step g s.vol with
    | none =>
      rw [Op.step, hout] at hstep
      cases hstep
    | some t =>
      rw [Op.step, hout] at hstep
      cases hstep
      rcases Act.step_effect h.inv h.apart hok hout with ⟨ch', he⟩
      exact ⟨ch', h.act hok he⟩
  | eread d off n =>
    cases hout : Fat.eread g d off n s.vol with
    | done bytes t =>
      rw [Op.step, hout] at hstep
      cases hstep
      rcases (wp_done (h.eread hok) hout).1 with ⟨ch', h', _⟩
      exact ⟨ch', h'⟩
    | panic r t =>
      rw [Op.step, hout] at hstep
      cases hstep

/-- After any history of calls on any files, made while there were free clusters, a regular file that was
created in it has the size of its array, and `eread` returns what reading the array returns; it fails only
when all inodes are in use. -/
theorem eread_returns_array (g : Geometry) {v₀ : Vol} {s : Traced} {os : List Op} (hfresh : Fresh g v₀)
    (hzero : fatEntry g v₀.disk 0 ≠ 0) (hone : fatEntry g v₀.disk 1 ≠ 0)
    (hchains : ∀ d ∈ v₀.files, (v₀.dirents d).firstClus ≠ 0 →
      ∃ l, FileChain g (fatEntry g v₀.disk) (v₀.dirents d).firstClus l)
    (hdisj : ∀ d ∈ v₀.files, ∀ e ∈ v₀.files, d ≠ e → List.Disjoint (chainOf g v₀ d) (chainOf g v₀ e))
    (hrun : Run (fun s o s' => o.Ok g s ∧ o.step g s = some s') ⟨v₀, fun _ => none⟩ os s)
    {d : Nat} {a : List UInt8} (harr : s.arr d = some a)
    (hsmall : (chainOf g s.vol d).length ≤ inodeThirdLevelTop) :
    (s.vol.dirents d).fileSize = a.length ∧
    ∀ off n, wp (eread g d off n) (fun bytes _ => bytes = readAt a off n)
      (fun r t => r = .wildInode ∧ t.pool.Full) s.vol := by
  have hholds : ∃ ch, Holds g s.vol ch s.arr := by
    refine hrun.invariant (P := fun s => ∃ ch, Holds g s.vol ch s.arr)
      ⟨_, hfresh.holds hzero hone hchains hdisj⟩ ?_
    rintro s o s' hs ⟨hok, hstep⟩
    exact Op.step_holds hs hok hstep
  rcases hholds with ⟨ch, h⟩
  have hd : d ∈ s.vol.files := h.live d (by rw [harr]; exact Option.some_ne_none a)
  rw [h.inv.chainOf hd] at hsmall
  refine ⟨((h.files d hd).array a harr).2.1, fun off n => ?_⟩
  have hread := @Holds.eread g s.vol ch d off n s.arr h hd
  unfold wp at hread ⊢
  cases hout : eread g d off n s.vol with
  | done bytes t =>
    rw [hout] at hread
    exact hread.2 a harr
  | panic r t =>
    rw [hout] at hread
    rcases hread with ⟨hwild, hfull, _⟩ | ⟨_, hlarge⟩
    · exact ⟨hwild, hfull⟩
    · exact absurd hsmall (Nat.not_le.2 hlarge)

lemma smallVolume_fresh {n : Fin 100} {fat : List Nat}
    (hboot : superBlockOf (bootSector n) = (smallGeometry n).toSuperBlock) :
    Fresh (smallGeometry n) (smallVolume n fat) where
  toInitialised := smallVolume_initialised hboot
  cur d hd := by
    rfl
  size d _ := Nat.zero_le _

/-- A file is created, written behind its end and read. -/
theorem eread_returns_gap_and_data :
    ∃ s : Traced, Run (fun s o s' => Op.Ok (smallGeometry 3) s o ∧ Op.step (smallGeometry 3) s o = some s')
        ⟨smallVolume 3 smallFat, fun _ => none⟩
        [.act (.ealloc 0 none 0), .act (.ewrite 1 511 [7, 8]), .act (.ewrite 1 2 [5]), .eread 1 0 4] s ∧
      ∃ a, s.arr 1 = some a ∧ a.length = 513 ∧ (a.drop 510).take 3 = [0, 7, 8] ∧
        wp (eread (smallGeometry 3) 1 510 9) (fun bytes _ => bytes = readAt a 510 9)
          (fun r t => r = .wildInode ∧ t.pool.Full) s.vol := by
  refine exists_run_guarded (P := fun s => ((s.arr 1).map fun a => (a.length, (a.drop 510).take 3)) =
    some (513, [0, 7, 8]) ∧ (chainOf (smallGeometry 3) s.vol 1).length = 2) (by decide +kernel) ?_
  rintro s hrun ⟨harr, hlen⟩
  rcases Option.map_eq_some_iff.1 harr with ⟨a, ha, hcontent⟩
  rcases Prod.mk.inj hcontent with ⟨hsize, htail⟩
  refine ⟨a, ha, hsize, htail, ?_⟩
  refine (eread_returns_array (smallGeometry 3) (smallVolume_fresh (by decide +kernel)) (by decide +kernel)
    (by decide +kernel) ?_ ?_ hrun ha (by rw [hlen]; decide)).2 510 9
  · intro d hd _
    rw [mem_singleton.1 hd]
    exact ⟨[2], smallVolume_chain (by decide) (by decide +kernel)⟩
  · intro d hd e he hne
    exact absurd ((mem_singleton.1 hd).trans (mem_singleton.1 he).symm) hne

/-- A write of no bytes behind the end of a file does not move its end: after `ewrite` of nothing at
offset 5 an empty file is still empty, although the array with its end at `max 0 (5 + 0)` has five bytes. -/
theorem eread_after_empty_write : ∃ (g : Geometry) (s t : Traced) (u : Vol) (d off : Nat), Fresh g s.vol ∧
      (fatEntry g s.vol.disk 0 ≠ 0 ∧ fatEntry g s.vol.disk 1 ≠ 0) ∧
      (∀ e ∈ s.vol.files, ∃ l, FileChain g (fatEntry g s.vol.disk) (s.vol.dirents e).firstClus l) ∧
      Run (fun s o s' => Op.Ok g s o ∧ Op.step g s o = some s') s
        [.act (.ealloc 0 none 0), .act (.ewrite d off [])] t ∧
      Regular t.vol d ∧ eread g d 0 off t.vol = .done [] u ∧
      readAt (writeAt 0 [] off []) 0 off = List.replicate 5 0 := by
  have hsome : (runAll (fun s o => if Op.Ok (smallGeometry 3) s o then Op.step (smallGeometry 3) s o else none)
      ⟨smallVolume 3 smallFat, fun _ => none⟩ [.act (.ealloc 0 none 0), .act (.ewrite 1 5 [])]).map
        (fun s => (decide (Regular s.vol 1), match eread (smallGeometry 3) 1 0 5 s.vol with
          | .done bytes _ => some bytes
          | .panic _ _ => none)) = some (true, some []) := by decide +kernel
  rcases Option.map_eq_some_iff.1 hsome with ⟨t, ht, hpair⟩
  rcases Prod.mk.inj hpair with ⟨hreg, hread⟩
  cases hout : eread (smallGeometry 3) 1 0 5 t.vol with
  | panic r u =>
    rw [hout] at hread
    cases hread
  | done bytes u =>
    rw [hout] at hread
    cases hread
    refine ⟨smallGeometry 3, ⟨smallVolume 3 smallFat, fun _ => none⟩, t, u, 1, 5,
      smallVolume_fresh (by decide +kernel), by decide +kernel, fun e he => ?_, run_of_runAll_guarded ht,
      of_decide_eq_true hreg, hout, by decide⟩
    rw [mem_singleton.1 he]
    exact ⟨[2], smallVolume_chain (by decide) (by decide +kernel)⟩

end Fat
end OsRiscv
