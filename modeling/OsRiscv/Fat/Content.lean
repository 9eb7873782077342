import OsRiscv.Fat.Init

/-!
# Content — what `eread` and `ewrite` do to the bytes of a file

`fileBytes` reads the clusters of a chain as one memory, with zeros behind its end.  Extending a chain
does not change it, and writing in a cluster of the chain is an overlay, so `ewrite` as a whole is an
overlay and `eread` a slice.
-/

namespace OsRiscv
namespace Fat

open Function (update update_idem update_of_ne update_self)
open Lib List

variable {g : Geometry} {v t u : Vol} {ch ch' ch'' : Nat → List Nat} {c d e x k off n : Nat} {l : List Nat}
  {data : List UInt8} {disk disk' : Nat → Sector} {E : Panic → Vol → Prop} {Q : List UInt8 → Vol → Prop}

/-- The bytes of the clusters `l`, one after the other. -/
def fileBytes (g : Geometry) (disk : Nat → Sector) (l : List Nat) : Nat → UInt8 := fun o =>
  if o < l.length * g.bytsPerClus then clusByte g disk (l.getD (o / g.bytsPerClus) 0) (o % g.bytsPerClus)
  else 0

lemma div_lt_length {o : Nat} (ho : o < l.length * g.bytsPerClus) : o / g.bytsPerClus < l.length :=
  (Nat.div_lt_iff_lt_mul (bytsPerClus_pos g)).2 ho

lemma getD_mem {i : Nat} (hi : i < l.length) : l.getD i 0 ∈ l := by
  rw [getD_eq_getElem l 0 hi]
  exact getElem_mem hi

lemma fileBytes_congr (h : ∀ x ∈ l, ∀ o < g.bytsPerClus, clusByte g disk' x o = clusByte g disk x o) :
    fileBytes g disk' l = fileBytes g disk l := by
  funext o
  unfold fileBytes
  split
  · rename_i ho
    exact h _ (getD_mem (div_lt_length ho)) _ (Nat.mod_lt _ (bytsPerClus_pos g))
  · rfl

lemma fileBytes_append {new : List Nat} (hzero : ∀ x ∈ new, ∀ o < g.bytsPerClus, clusByte g disk x o = 0) :
    fileBytes g disk (l ++ new) = fileBytes g disk l := by
  funext o
  unfold fileBytes
  have hmod := Nat.mod_lt o (bytsPerClus_pos g)
  by_cases ho : o < l.length * g.bytsPerClus
  · have hlt := div_lt_length ho
    have ho' : o < (l ++ new).length * g.bytsPerClus := by
      rw [length_append, Nat.add_mul]
      omega
    rw [if_pos ho, if_pos ho', getD_append _ _ _ _ hlt]
  · split
    · rename_i ho'
      have hge : l.length ≤ o / g.bytsPerClus :=
        (Nat.le_div_iff_mul_le (bytsPerClus_pos g)).2 (Nat.not_lt.1 ho)
      have hlt := div_lt_length ho'
      rw [length_append] at hlt
      rw [getD_append_right _ _ _ _ hge]
      exact hzero _ (getD_mem (by omega)) _ hmod
    · rfl

/-- Writing in a cluster of the chain. -/
theorem fileBytes_written (hnodup : l.Nodup) (hrange : ∀ y ∈ l, InRange g y) (hk : l[k]? = some x)
    (hfit : off + data.length ≤ g.bytsPerClus) (hw : ClusWritten g disk x off data disk') :
    fileBytes g disk' l = overlay (fileBytes g disk l) (k * g.bytsPerClus + off) data := by
  rcases List.getElem?_eq_some_iff.1 hk with ⟨hklt, hkx⟩
  have hblock : k * g.bytsPerClus + g.bytsPerClus ≤ l.length * g.bytsPerClus := by
    have := Nat.mul_le_mul_right g.bytsPerClus (Nat.succ_le_of_lt hklt)
    rwa [Nat.succ_mul] at this
  funext o
  have hmod := Nat.mod_lt o (bytsPerClus_pos g)
  have hdivmod : o / g.bytsPerClus * g.bytsPerClus + o % g.bytsPerClus = o := by
    rw [Nat.mul_comm]
    exact Nat.div_add_mod o _
  by_cases ho : o < l.length * g.bytsPerClus
  · have hlt := div_lt_length ho
    by_cases hik : o / g.bytsPerClus = k
    · -- in the cluster that was written
      have hle : k * g.bytsPerClus + off ≤ o ↔ off ≤ o % g.bytsPerClus := by
        rw [hik] at hdivmod
        omega
      have hsub : o - (k * g.bytsPerClus + off) = o % g.bytsPerClus - off := by
        rw [hik] at hdivmod
        omega
      have hx : l.getD (o / g.bytsPerClus) 0 = x := by rw [getD_eq_getElem l 0 hlt, ← hkx]; simp only [hik]
      unfold fileBytes overlay
      simp only [ho, if_true, hx, hw.same, overlay, hle, hsub]
    · -- in another one
      have hne : l.getD (o / g.bytsPerClus) 0 ≠ x := by
        rw [getD_eq_getElem l 0 hlt, ← hkx]
        intro heq
        exact hik ((List.Nodup.getElem_inj_iff hnodup).1 heq)
      have hout : o < k * g.bytsPerClus + off ∨ k * g.bytsPerClus + off + data.length ≤ o := by
        rcases Nat.lt_or_gt_of_ne hik with hlt' | hgt
        · have := Nat.mul_le_mul_right g.bytsPerClus (Nat.succ_le_of_lt hlt')
          rw [Nat.succ_mul] at this
          omega
        · have := Nat.mul_le_mul_right g.bytsPerClus (Nat.succ_le_of_lt hgt)
          rw [Nat.succ_mul] at this
          omega
      rw [overlay_of_not_mem hout]
      unfold fileBytes
      rw [if_pos ho, if_pos ho]
      exact hw.other _ _ (hrange _ (getD_mem hlt)) hne hmod
  · rw [overlay_of_ge (by omega)]
    unfold fileBytes
    rw [if_neg ho, if_neg ho]

lemma Grown.fileBytes (h : Inv g v ch) (hd : d ∈ v.files) (hg : Grown g d v ch t ch') :
    Fat.fileBytes g t.disk (ch' d) = Fat.fileBytes g v.disk (ch d) := by
  rcases hg.ext with ⟨new, hnew, hfresh⟩
  rw [hnew, fileBytes_append fun x hx => (hfresh x hx).2.2.2]
  refine fileBytes_congr fun x hx => ?_
  rcases h.used_of_mem hd hx with ⟨hr, hne⟩
  exact (hg.used x hr hne).2

/-! ## What an operation on one file changes -/

/-- From `v` to `t` only file `d` was changed: its chain may have grown, and what is in its clusters may
have changed. -/
structure Changed (g : Geometry) (d : Nat) (v : Vol) (ch : Nat → List Nat) (t : Vol) (ch' : Nat → List Nat) : Prop
    extends OneFile g d v ch t ch' where
  grows : ch d <+: ch' d
  used : ∀ x, InRange g x → fatEntry g v.disk x ≠ 0 → fatEntry g t.disk x ≠ 0 ∧
    (x ∉ ch' d → ∀ o < g.bytsPerClus, clusByte g t.disk x o = clusByte g v.disk x o)

lemma Grown.changed (h : Grown g d v ch t ch') : Changed g d v ch t ch' where
  toOneFile := h.toOneFile
  grows := by
    rcases h.ext with ⟨new, hnew, _⟩
    exact ⟨new, hnew.symm⟩
  used x hr hne := ⟨(h.used x hr hne).1, fun _ => (h.used x hr hne).2⟩

lemma Changed.trans (h : Changed g d v ch t ch') (h' : Changed g d t ch' u ch'') : Changed g d v ch u ch'' where
  toOneFile := h.toOneFile.trans h'.toOneFile
  grows := h.grows.trans h'.grows
  used x hr hne := by
    rcases h.used x hr hne with ⟨hu, hsame⟩
    rcases h'.used x hr hu with ⟨hu', hsame'⟩
    refine ⟨hu', fun hx o ho => ?_⟩
    rw [hsame' hx o ho, hsame (fun hmem => hx (h'.grows.subset hmem)) o ho]

lemma Changed.fileBytes (hc : Changed g d v ch t ch') (h : Inv g v ch) (hap : Apart v ch)
    (hd : d ∈ v.files) (he : e ∈ v.files) (hne : e ≠ d) :
    Fat.fileBytes g t.disk (ch' e) = Fat.fileBytes g v.disk (ch e) := by
  rcases hc.apart hap with ⟨hap', hkeep⟩
  have hsame := hkeep e he hne
  rw [hsame]
  refine fileBytes_congr fun x hx => ?_
  rcases h.used_of_mem he hx with ⟨hr, hused⟩
  refine (hc.used x hr hused).2 fun hmem => ?_
  rw [← hc.files] at hd he
  rw [← hsame] at hx
  exact hap' e he d hd hne hx hmem

/-! ## Writing in a cluster keeps the invariant -/

lemma Inv.written (h : Inv g v ch) (hw : ClusWritten g v.disk x off data disk') :
    Inv g { v with disk := disk' } ch := by
  constructor
  · exact h.reserved
  · intro y hy
    rw [hw.fat y hy.lt_table]
    exact h.bits y hy
  · exact h.empty
  · intro e he hfirst
    exact (h.chain e he hfirst).frame rfl rfl (fun y _ hyr => hw.fat y hyr.lt_table) fun _ _ => rfl
  · exact h.owns
  · exact h.spare
  · exact h.log

lemma Changed.written (hx : x ∈ ch d) (hw : ClusWritten g v.disk x off data disk') :
    Changed g d v ch { v with disk := disk' } ch where
  files := rfl
  others _ _ := rfl
  fileSize := rfl
  attr := rfl
  dev := rfl
  grows := prefix_refl _
  used y hr hne := by
    refine ⟨?_, fun hy o ho => hw.other y o hr (fun heq => hy (heq ▸ hx)) ho⟩
    rwa [hw.fat y hr.lt_table]
  room := rfl
  apart hap := ⟨hap, fun _ _ _ => rfl⟩
  count := rfl

/-! ## `ewrite` -/

/-- The last cluster that a write of `n` bytes at `off` reaches. -/
def lastClus (g : Geometry) (off n : Nat) : Nat := (off + n - 1) / g.bytsPerClus

/-- What the loop of `ewrite` does to its file. -/
structure Stored (g : Geometry) (d off : Nat) (data : List UInt8) (v : Vol) (ch : Nat → List Nat) (t : Vol)
    (ch' : Nat → List Nat) : Prop where
  inv : Inv g t ch'
  changed : Changed g d v ch t ch'
  bytes : fileBytes g t.disk (ch' d) = overlay (fileBytes g v.disk (ch d)) off data
  long : data ≠ [] → lastClus g off data.length < (ch' d).length
  cur : (t.dirents d).curClus = (v.dirents d).curClus ∨ InRange g (t.dirents d).curClus

lemma Stored.nil (h : Inv g v ch) : Stored g d off [] v ch v ch where
  inv := h
  changed := (Grown.refl g d v ch).changed
  bytes := overlay_nil.symm
  long hne := absurd rfl hne
  cur := .inl rfl

/-- One round of the loop of `ewrite`: the cluster of the offset is written. -/
theorem Stored.round {m : Nat} (hd : d ∈ v.files) (h : Inv g v ch) (hm : data.length = m)
    (hpos : 0 < m) (hfit : off % g.bytsPerClus + m ≤ g.bytsPerClus)
    (hr : Reached g d (off / g.bytsPerClus) v ch t ch')
    (hw : ClusWritten g t.disk (t.dirents d).curClus (off % g.bytsPerClus) data disk')
    (hfirst : (v.dirents d).firstClus ≠ 0) : Stored g d off data v ch { t with disk := disk' } ch' := by
  have hdt : d ∈ t.files := by rwa [hr.grown.files]
  have hfirst' : (t.dirents d).firstClus ≠ 0 := by rwa [hr.grown.firstClus]
  have hchain := (hr.inv.chain d hdt hfirst').chain
  have hx : (t.dirents d).curClus ∈ ch' d := mem_of_getElem? hr.cur
  have hoff : off / g.bytsPerClus * g.bytsPerClus + off % g.bytsPerClus = off := by
    rw [Nat.mul_comm]
    exact Nat.div_add_mod off _
  refine ⟨hr.inv.written hw, hr.grown.changed.trans (Changed.written hx hw), ?_, fun _ => ?_,
    .inr (hchain.ok_of_mem hx)⟩
  · have hbytes := fileBytes_written hchain.nodup (fun y hy => hchain.ok_of_mem hy) hr.cur
      (by rw [hm]; exact hfit) hw
    rw [hoff] at hbytes
    rw [hbytes, hr.grown.fileBytes h hd]
  · have hlast : lastClus g off data.length = off / g.bytsPerClus := by
      refine Nat.div_eq_of_lt_le (by omega) ?_
      rw [Nat.succ_mul]
      omega
    rw [hlast, hr.length]
    omega

lemma Stored.append {data' : List UInt8} (h : Stored g d off data v ch t ch')
    (h' : Stored g d (off + data.length) data' t ch' u ch'') : Stored g d off (data ++ data') v ch u ch'' where
  inv := h'.inv
  changed := h.changed.trans h'.changed
  bytes := by
    rw [h'.bytes, h.bytes, overlay_append]
  long hne := by
    by_cases hnil : data' = []
    · subst hnil
      rw [append_nil] at hne ⊢
      exact Nat.lt_of_lt_of_le (h.long hne) h'.changed.grows.length_le
    · have hlong := h'.long hnil
      unfold lastClus at hlong ⊢
      rwa [length_append, ← Nat.add_assoc]
  cur := by
    rcases h'.cur with heq | hr
    · rw [heq]
      exact h.cur
    · exact .inr hr

lemma ewriteLoop_wp {Q : Unit → Vol → Prop} {fuel : Nat} (hfuel : data.length ≤ fuel) (h : Inv g v ch)
    (hd : d ∈ v.files) (hfirst : (v.dirents d).firstClus ≠ 0)
    (hroom : data ≠ [] → lastClus g off data.length + 1 ≤ (ch d).length + (freeClusters g v).card)
    (hfull : ∀ t, t.pool.Full → data ≠ [] → ¬v.Room d (lastClus g off data.length + 1) → E .wildInode t)
    (hlarge : data ≠ [] → 164872 ≤ lastClus g off data.length → ∀ t, E .inodeTooLarge t)
    (hQ : ∀ t ch', Stored g d off data v ch t ch' → Q () t) : wp (ewriteLoop g d fuel off data) Q E v := by
  induction fuel generalizing v ch off data with
  | zero =>
    have hnil : data = [] := length_eq_zero_iff.1 (by omega)
    subst hnil
    exact hQ v ch (Stored.nil h)
  | succ fuel ih =>
    unfold ewriteLoop
    split
    · rename_i hnil
      subst hnil
      exact hQ v ch (Stored.nil h)
    rename_i hdata
    have hpos : 0 < data.length := length_pos_iff.2 hdata
    have hmod := Nat.mod_lt off (bytsPerClus_pos g)
    have hfirstClus : off / g.bytsPerClus ≤ lastClus g off data.length :=
      Nat.div_le_div_right (by omega)
    rw [wp_bind]
    refine relocClus_wp h hd hfirst (fun _ => ?_) (fun t ht hneed => ?_) (fun hk => ?_) ?_ ?_
    · have := hroom hdata
      omega
    · exact hfull t ht hdata fun hr => hneed (hr.mono (by simp only [reach, if_true]; omega))
    · exact hlarge hdata (by omega)
    · intro t ch' hr _
      rw [wp_bind, wp_get, wp_bind]
      generalize hm : min (g.bytsPerClus - off % g.bytsPerClus) data.length = m
      have htake : (data.take m).length = m := by
        rw [length_take]
        omega
      have hdt : d ∈ t.files := by rwa [hr.grown.files]
      have hfirst' : (t.dirents d).firstClus ≠ 0 := by rwa [hr.grown.firstClus]
      have hx := (hr.inv.chain d hdt hfirst').chain.ok_of_mem (mem_of_getElem? hr.cur)
      refine rwClusWrite_wp hx (by rw [htake]; omega) fun disk' hw => ?_
      have hround := Stored.round hd h htake (by omega) (by omega) hr hw hfirst
      -- the rest of the data, behind what this round wrote
      have hdrop : (data.drop m).length = data.length - m := length_drop
      have hlast : data.drop m ≠ [] → lastClus g (off + m) (data.drop m).length = lastClus g off data.length := by
        intro hne
        have hsum : off + m + (data.length - m) = off + data.length := by omega
        unfold lastClus
        rw [hdrop, hsum]
      refine ih (by omega) hround.inv hdt hfirst' ?_ ?_ ?_ ?_
      · intro hne
        have hcard := hround.changed.room
        have := hroom hdata
        rw [hlast hne]
        omega
      · intro u hu hne hneed
        rw [hlast hne] at hneed
        exact hfull u hu hdata fun hr => hneed (hr.congr hround.changed.count)
      · intro hne hk
        rw [hlast hne] at hk
        exact hlarge hdata hk
      · intro u ch'' hrest
        refine hQ u ch'' ?_
        rw [← take_append_drop m data]
        exact hround.append (by rw [htake]; exact hrest)
    · intro t hfalse
      cases hfalse

/-! ## `eread` -/

lemma slice_fileBytes {m : Nat} (hk : l[off / g.bytsPerClus]? = some x)
    (hfit : off % g.bytsPerClus + m ≤ g.bytsPerClus) :
    slice (clusByte g disk x) (off % g.bytsPerClus) m = slice (fileBytes g disk l) off m := by
  rcases List.getElem?_eq_some_iff.1 hk with ⟨hlt, hx⟩
  have hdivmod := Nat.div_add_mod off g.bytsPerClus
  have hblock := Nat.mul_le_mul_left g.bytsPerClus (Nat.succ_le_of_lt hlt)
  rw [Nat.mul_succ, Nat.mul_comm _ l.length] at hblock
  apply map_congr_left
  intro i hi
  have him := mem_range.1 hi
  have hdiv : (off + i) / g.bytsPerClus = off / g.bytsPerClus := by
    refine Nat.div_eq_of_lt_le ?_ ?_
    · rw [Nat.mul_comm]
      omega
    · rw [Nat.succ_mul, Nat.mul_comm]
      omega
  have hmod : (off + i) % g.bytsPerClus = off % g.bytsPerClus + i := by
    have hdivmod' := Nat.div_add_mod (off + i) g.bytsPerClus
    rw [hdiv] at hdivmod'
    omega
  have ho : off + i < l.length * g.bytsPerClus := by omega
  unfold fileBytes
  rw [if_pos ho, hdiv, hmod, getD_eq_getElem l 0 hlt, hx]

/-- What `eread` does to its file: nothing but to its cursor. -/
structure ReadDone (g : Geometry) (d : Nat) (v : Vol) (ch : Nat → List Nat) (t : Vol)
    (ch' : Nat → List Nat) : Prop where
  inv : Inv g t ch'
  grown : Grown g d v ch t ch'
  same : ch' d = ch d
  cur : (t.dirents d).curClus = (v.dirents d).curClus ∨ InRange g (t.dirents d).curClus

lemma ereadLoop_wp {fuel : Nat} (hfuel : n ≤ fuel) (h : Inv g v ch)
    (hd : d ∈ v.files) (hcur : (v.dirents d).curClus < fat32Eoc) (hlen : off + n ≤ (ch d).length * g.bytsPerClus)
    (hfull : ∀ t, t.pool.Full → 0 < n → ¬v.Room d (lastClus g off n + 1) → E .wildInode t)
    (hlarge : 164872 < (ch d).length → ∀ t, E .inodeTooLarge t)
    (hQ : ∀ t ch', ReadDone g d v ch t ch' → Q (slice (fileBytes g v.disk (ch d)) off n) t) :
    wp (ereadLoop g d fuel off n) Q E v := by
  induction fuel generalizing v ch off n Q with
  | zero =>
    have hn : n = 0 := by omega
    subst hn
    exact hQ v ch ⟨h, .refl g d v ch, rfl, .inl rfl⟩
  | succ fuel ih =>
    unfold ereadLoop
    rw [wp_bind, wp_get]
    split
    case isFalse hstop =>
      have hn : n = 0 := by omega
      subst hn
      exact hQ v ch ⟨h, .refl g d v ch, rfl, .inl rfl⟩
    case isTrue hgo =>
      have hbpc := bytsPerClus_pos g
      have hmod := Nat.mod_lt off hbpc
      have hk : off / g.bytsPerClus < (ch d).length := (Nat.div_lt_iff_lt_mul hbpc).2 (by omega)
      have hfirst : (v.dirents d).firstClus ≠ 0 := by
        intro hzero
        rw [(h.empty d hd hzero).1] at hk
        exact absurd hk (Nat.not_lt_zero _)
      rw [wp_bind]
      have hfirstClus : off / g.bytsPerClus ≤ lastClus g off n := Nat.div_le_div_right (by omega)
      refine relocClus_wp h hd hfirst (fun hfalse => by cases hfalse) (fun t ht hneed => hfull t ht (by omega)
        fun hr => hneed (hr.mono ?_)) (fun htop => hlarge (by omega)) ?_ ?_
      · simp only [reach, Bool.false_eq_true, if_false]
        omega
      · intro t ch' hr _
        have hdt : d ∈ t.files := by rwa [hr.grown.files]
        have hfirst' : (t.dirents d).firstClus ≠ 0 := by rwa [hr.grown.firstClus]
        have hsame : ch' d = ch d := by
          rcases hr.grown.ext with ⟨new, hnew, _⟩
          have hlength := hr.length
          rw [hnew, length_append] at hlength
          rw [hnew, length_eq_zero_iff.1 (show new.length = 0 by omega), append_nil]
        have hx := (hr.inv.chain d hdt hfirst').chain.ok_of_mem (mem_of_getElem? hr.cur)
        have hbytes := hr.grown.fileBytes h hd
        rw [wp_bind, wp_get, wp_bind]
        generalize hm : min (g.bytsPerClus - off % g.bytsPerClus) n = m
        refine rwClusRead_wp hx (by omega) ?_
        rw [wp_bind]
        have hlast : 0 < n - m → lastClus g (off + m) (n - m) = lastClus g off n := by
          intro hne
          have hsum : off + m + (n - m) = off + n := by omega
          unfold lastClus
          rw [hsum]
        refine ih (by omega) hr.inv hdt ?_ (by rw [hsame]; omega) ?_ (by rw [hsame]; exact hlarge) ?_
        · have hup := hx.2
          have hlim := g.clusters_lt
          unfold fat32Eoc
          omega
        · intro u hu hne hneed
          rw [hlast hne] at hneed
          exact hfull u hu (by omega) fun hroom => hneed (hroom.congr hr.grown.count)
        · intro u ch'' hrest
          have hsum : m + (n - m) = n := by omega
          have hpart := hQ u ch'' ⟨hrest.inv, hr.grown.trans hrest.grown, hrest.same.trans hsame, ?_⟩
          · rw [wp_pure, slice_fileBytes hr.cur (by omega), hbytes, ← slice_add, hsum]
            exact hpart
          · rcases hrest.cur with heq | hin
            · rw [heq]
              exact .inr hx
            · exact .inr hin
      · omega

/-! ## The first cluster of a file -/

/-- The volume after `firstCluster` gave cluster `c` to file `d`. -/
def Vol.started (v : Vol) (d c : Nat) : Vol :=
  { v with
    dirents := update v.dirents d { v.dirents d with
      curClus := c, firstClus := c, inode := update (v.dirents d).inode 0 c, inodeMaxCluster := 1 } }

lemma started_self : (v.started d c).dirents d = { v.dirents d with
    curClus := c, firstClus := c, inode := update (v.dirents d).inode 0 c, inodeMaxCluster := 1 } :=
  update_self _ _ _

lemma started_of_ne (hne : e ≠ d) : (v.started d c).dirents e = v.dirents e :=
  update_of_ne hne _ _

lemma started_pool : (v.started d c).pool = v.pool.setItem d 0 c := by
  unfold Vol.pool Pool.setItem
  congr 1
  funext e
  by_cases he : e = d
  · subst he
    rw [started_self, update_self]
  · rw [started_of_ne he, update_of_ne he]

section Started

variable (h : Inv g v ch) (hd : d ∈ v.files) (ha : Allocated g v c t)
include h ha

lemma started_put : t.pool.Put (update (held v) d 0) d 0 c (t.started d c).pool := by
  have hpool : t.pool = v.pool := by rw [ha.rest]; rfl
  rw [started_pool, hpool]
  exact Pool.Put.of_direct (h.owns.shrink (update_le_self_iff.2 (Nat.zero_le _))) (update_self _ _ _) (by decide)

include hd

lemma started_hasChain (he : e ∈ v.files) (hfirst : e ≠ d → (v.dirents e).firstClus ≠ 0) :
    HasChain g (t.started d c) (update ch d [c] e) e := by
  have hput := started_put (d := d) h ha
  have hpool : t.pool = v.pool := by rw [ha.rest]; rfl
  have hdirents : t.dirents = v.dirents := by rw [ha.rest]
  by_cases hed : e = d
  · subst hed
    rw [update_self]
    constructor
    · rw [started_self]
      refine Chain.last ha.range ?_
      change EndMark (fatEntry g t.disk c)
      rw [ha.fat c ha.range.lt_table, if_pos rfl]
      decide
    · rw [started_self]
      exact Nat.one_pos
    · rw [started_self]
      exact Nat.le_refl 1
    · rw [started_self]
      exact show 1 ≤ 164872 by decide
    · intro j hj
      rw [started_self] at hj
      have hj0 : j = 0 := by simp only at hj; omega
      subst hj0
      rw [hput.new]
      rfl
  · have hfile := h.chain e he (hfirst hed)
    rw [update_of_ne hed]
    have hdirent : (t.started d c).dirents e = v.dirents e := by rw [started_of_ne hed, hdirents]
    refine hfile.frame (by rw [hdirent]) (by rw [hdirent]) (fun y hy hyr => ?_) fun j hj => ?_
    · change fatEntry g t.disk y = _
      rw [ha.fat y hyr.lt_table, if_neg]
      rintro rfl
      exact fat_ne_zero hfile.chain hy (h.fat_of_free ha.range ha.free)
    · have htop := hfile.le_top
      rw [hput.old e j (by omega) ?_, hpool]
      rw [update_of_ne hed]
      unfold held
      rw [if_pos he]
      omega

lemma started_inv : Inv g (t.started d c) (update ch d [c]) := by
  have hfiles : t.files = v.files := by rw [ha.rest]
  have hhead : t.direntHead = v.direntHead := by rw [ha.rest]
  have hdirents : t.dirents = v.dirents := by rw [ha.rest]
  have hbitmap : t.clusterBitmap = Bitmap.set v.clusterBitmap c := by rw [ha.rest]
  have hallocs : t.allocs = ⟨c, fatEntry g v.disk⟩ :: v.allocs := by rw [ha.rest]
  constructor
  · intro y hy
    change Bitmap.bit t.clusterBitmap y = true
    rw [hbitmap, Bitmap.bit_set, h.reserved y hy, Bool.or_true]
  · intro y hy
    change Bitmap.bit t.clusterBitmap y = true ↔ fatEntry g t.disk y ≠ 0
    rw [hbitmap, Bitmap.bit_set, ha.fat y hy.lt_table]
    by_cases hyc : y = c
    · simp [hyc]
    · simpa [hyc] using h.bits y hy
  · intro e he hfirst
    change e ∈ t.files at he
    rw [hfiles] at he
    have hed : e ≠ d := by
      rintro rfl
      rw [started_self] at hfirst
      have := ha.range.1
      simp only at hfirst
      omega
    rw [started_of_ne hed, hdirents] at hfirst ⊢
    rw [update_of_ne hed]
    exact h.empty e he hfirst
  · intro e he hfirst
    change e ∈ t.files at he
    rw [hfiles] at he
    refine started_hasChain h hd ha he fun hed => ?_
    rwa [started_of_ne hed, hdirents] at hfirst
  · have hown := (started_put (d := d) h ha).owns
    have hheld : held (t.started d c) = update (update (held v) d 0) d (2 * (0 + 1)) := by
      rw [update_idem]
      refine held_update (hfiles.symm ▸ hd) (by rw [started_self]) fun e he => ?_
      rw [started_of_ne he, hdirents, ← hfiles]
      exact ⟨.rfl, rfl⟩
    rw [hheld]
    exact hown
  · change t.direntHead.Nodup ∧ ∀ e ∈ t.direntHead, e ∉ t.files ∧ _
    rw [hhead, hfiles]
    refine ⟨h.spare.1, fun e he => ?_⟩
    have hed : e ≠ d := fun heq => (h.spare.2 e he).1 (heq ▸ hd)
    rw [started_of_ne hed, hdirents]
    exact h.spare.2 e he
  · change ∀ ev ∈ t.allocs, ev.Good g
    rw [hallocs]
    intro ev hev
    rcases mem_cons.1 hev with rfl | hev
    · exact ⟨ha.range, fun c' l' hchain hmem =>
        fat_ne_zero hchain hmem (h.fat_of_free ha.range ha.free)⟩
    · exact h.log ev hev

lemma started_changed (hfirst : (v.dirents d).firstClus = 0) : Changed g d v ch (t.started d c) (update ch d [c]) := by
  have hfiles : t.files = v.files := by rw [ha.rest]
  have hdirents : t.dirents = v.dirents := by rw [ha.rest]
  have hpool : t.pool = v.pool := by rw [ha.rest]; rfl
  rcases h.empty d hd hfirst with ⟨hnil, hmax⟩
  have hfresh : ∀ e ∈ v.files, c ∉ ch e := fun e he hmem =>
    (h.used_of_mem he hmem).2 (h.fat_of_free ha.range ha.free)
  refine ⟨⟨hfiles, fun e he => ?_, ?_, ?_, ?_, ?room, ?apart, ?count⟩, hnil ▸ nil_prefix, ?used⟩
  · rw [started_of_ne he, hdirents]
  · rw [started_self, hdirents]
  · rw [started_self, hdirents]
  · rw [started_self, hdirents]
  case used =>
    intro y hy hne
    have hyc : y ≠ c := by
      rintro rfl
      exact hne (h.fat_of_free ha.range ha.free)
    refine ⟨?_, fun _ o ho => ha.byte y o hy hyc ho⟩
    change fatEntry g t.disk y ≠ 0
    rwa [ha.fat y hy.lt_table, if_neg hyc]
  case room =>
    have hcard := card_freeClusters_set (t := t.started d c) ha.range ha.free
      (show t.clusterBitmap = _ by rw [ha.rest])
    rw [update_self, hnil]
    simpa using hcard
  case apart =>
    intro hap
    have hkeep : ∀ e ∈ v.files, e ≠ d → update ch d [c] e = ch e := fun e _ hne =>
      update_of_ne hne _ _
    refine ⟨?_, hkeep⟩
    intro a hfa b hfb hne
    change a ∈ t.files at hfa
    change b ∈ t.files at hfb
    rw [hfiles] at hfa hfb
    by_cases had : a = d
    · subst had
      rw [update_self, hkeep b hfb (Ne.symm hne)]
      exact singleton_disjoint.2 (hfresh b hfb)
    · rw [hkeep a hfa had]
      by_cases hbd : b = d
      · subst hbd
        rw [update_self]
        exact (singleton_disjoint.2 (hfresh a hfa)).symm
      · rw [hkeep b hfb hbd]
        exact hap a hfa b hfb hne
  case count =>
    rw [started_self, started_pool, hpool, nodes_few (by omega : 2 * (v.dirents d).inodeMaxCluster ≤ 16)]
    exact congrArg (v.pool.count + ·) (nodes_few (show 2 * 1 ≤ 16 by decide)).symm

end Started

lemma firstCluster_wp {Q : Unit → Vol → Prop} (h : Inv g v ch) (hd : d ∈ v.files)
    (hfirst : (v.dirents d).firstClus = 0) (hroom : 0 < (freeClusters g v).card)
    (hQ : ∀ (c : Nat) (t : Vol), InRange g c → Inv g (t.started d c) (update ch d [c]) →
      Changed g d v ch (t.started d c) (update ch d [c]) →
      fileBytes g t.disk [c] = fileBytes g v.disk (ch d) → Q () (t.started d c)) :
    wp (firstCluster g d) Q E v := by
  rcases Finset.card_pos.1 hroom with ⟨r, hr⟩
  have hnil := (h.empty d hd hfirst).1
  unfold firstCluster
  rw [wp_bind]
  refine allocClus_wp h.reserved ⟨r, mem_freeClusters.1 hr⟩ fun c t ha => ?_
  refine hQ c t ha.range (started_inv h hd ha) (started_changed h hd ha hfirst) ?_
  have hzero : fileBytes g t.disk ([] ++ [c]) = fileBytes g t.disk [] := fileBytes_append fun x hx o ho => by
    rw [mem_singleton.1 hx]
    exact ha.zero o ho
  rw [hnil]
  exact hzero.trans (fileBytes_congr fun x hx => by cases hx)

/-! ## The calls -/

/-- The number of clusters that a file has at least after `n` bytes were written at `off`. -/
def clustersFor (g : Geometry) (off n : Nat) : Nat := if n = 0 then 1 else lastClus g off n + 1

def Vol.resized (v : Vol) (d size : Nat) : Vol :=
  { v with dirents := update v.dirents d { v.dirents d with fileSize := size } }

lemma resized_sameFiles {size : Nat} : SameFiles v (v.resized d size) := by
  have hdirent : ∀ e, ((v.resized d size).dirents e).firstClus = (v.dirents e).firstClus ∧
      ((v.resized d size).dirents e).inodeMaxCluster = (v.dirents e).inodeMaxCluster ∧
      ((v.resized d size).dirents e).inode = (v.dirents e).inode := by
    intro e
    by_cases he : e = d
    · subst he
      simp [Vol.resized]
    · simp [Vol.resized, update_of_ne he]
  exact ⟨rfl, rfl, rfl, rfl, rfl, rfl, rfl, fun e => (hdirent e).1, fun e => (hdirent e).2.1,
    fun e => (hdirent e).2.2⟩

/-- The cases in which `ewrite` gets to writing. -/
def Writes (v : Vol) (d off : Nat) (data : List UInt8) : Prop :=
  (v.dirents d).dev ≠ .none ∧ off + data.length ≤ 0xffffffff ∧ (v.dirents d).attr &&& attrReadOnly = 0

instance (v : Vol) (d off : Nat) (data : List UInt8) : Decidable (Writes v d off data) := instDecidableAnd

lemma ewrite_wp {Q : Int → Vol → Prop} (h : Inv g v ch) (hd : d ∈ v.files)
    (hroom : Writes v d off data → clustersFor g off data.length ≤ (ch d).length + (freeClusters g v).card)
    (hfull : ∀ t, t.pool.Full → Writes v d off data → ¬v.Room d (clustersFor g off data.length) → E .wildInode t)
    (hlarge : Writes v d off data → 164872 < clustersFor g off data.length → ∀ t, E .inodeTooLarge t)
    (hnone : (v.dirents d).dev = .none → Q data.length v) (hfail : (v.dirents d).dev ≠ .none →
      (off + data.length > 0xffffffff ∨ (v.dirents d).attr &&& attrReadOnly ≠ 0) → Q (-1) v)
    (hdone : Writes v d off data → ∀ t ch', Stored g d off data v ch t ch' →
      Q data.length (if data = [] then t else t.resized d (max (v.dirents d).fileSize (off + data.length)))) :
    wp (ewrite g d off data) Q E v := by
  unfold ewrite
  rw [wp_bind, wp_get]
  dsimp only
  split
  · rename_i hdev
    exact hnone hdev
  rename_i hdev
  split
  · rename_i hcond
    refine hfail hdev ?_
    rcases hcond with hwrap | hbig | hro
    · omega
    · exact .inl hbig
    · exact .inr hro
  rename_i hcond
  have hfits : off + data.length ≤ 0xffffffff := by
    by_contra hbig
    exact hcond (.inr (.inl (by omega)))
  have hwritable : (v.dirents d).attr &&& attrReadOnly = 0 := by
    by_contra hro
    exact hcond (.inr (.inr hro))
  have hwrites : Writes v d off data := ⟨hdev, hfits, hwritable⟩
  replace hroom := hroom hwrites
  have hneed : data ≠ [] → clustersFor g off data.length = lastClus g off data.length + 1 := fun hne =>
    if_neg (Nat.ne_of_gt (length_pos_iff.2 hne))
  -- the loop and the new size, from a volume in which the file has a cluster
  have hloop : ∀ u chu, Inv g u chu → d ∈ u.files → (u.dirents d).firstClus ≠ 0 → Changed g d v ch u chu →
      fileBytes g u.disk (chu d) = fileBytes g v.disk (ch d) →
      ((u.dirents d).curClus = (v.dirents d).curClus ∨ InRange g (u.dirents d).curClus) →
      wp (do
        ewriteLoop g d data.length off data
        if data.length > 0 then
          modifyDirent d fun e => { e with
            fileSize := if off + data.length > e.fileSize then off + data.length else e.fileSize }
        return (data.length : Int)) Q E u := by
    intro u chu hinv hdu hfirst hchanged hbytes hcur
    rw [wp_bind]
    refine ewriteLoop_wp (Nat.le_refl _) hinv hdu hfirst (fun hne => ?_) (fun t ht hne hfew => ?_)
      (fun hne hk => ?_) ?_
    · have := hchanged.room
      have := hneed hne
      omega
    · rw [← hneed hne] at hfew
      exact hfull t ht hwrites fun hr => hfew (hr.congr hchanged.count)
    · have := hneed hne
      exact hlarge hwrites (by omega)
    · intro t ch' hw
      have hstored : Stored g d off data v ch t ch' := by
        refine ⟨hw.inv, hchanged.trans hw.changed, by rw [hw.bytes, hbytes], hw.long, ?_⟩
        rcases hw.cur with heq | hr
        · rw [heq]
          exact hcur
        · exact .inr hr
      have hq := hdone hwrites t ch' hstored
      split
      · rename_i hlen
        have hne : data ≠ [] := length_pos_iff.1 hlen
        rw [if_neg hne] at hq
        have hsize : (if off + data.length > (t.dirents d).fileSize then off + data.length
            else (t.dirents d).fileSize) = max (v.dirents d).fileSize (off + data.length) := by
          rw [hstored.changed.fileSize, Nat.max_def]
          split <;> split <;> omega
        simp only [wp_bind, modifyDirent, wp_modify, hsize]
        exact hq
      · have hnil : data = [] := length_eq_zero_iff.1 (by omega)
        rw [if_pos hnil] at hq
        exact hq
  split
  · rename_i hfirst
    have hnil := (h.empty d hd hfirst).1
    have hfree : 0 < (freeClusters g v).card := by
      rw [hnil] at hroom
      unfold clustersFor at hroom
      split at hroom <;> simp only [length_nil] at hroom <;> omega
    rw [wp_bind]
    refine firstCluster_wp h hd hfirst hfree fun c t hc hinv hchanged hbytes => ?_
    have hself := started_self (v := t) (d := d) (c := c)
    have hcursor : Grown g d (t.started d c) (update ch d [c]) ((t.started d c).cursor d c 0)
        (update ch d [c]) := (Grown.refl g d _ _).cursor
    have hstate : ({ t.started d c with
        dirents := update (t.started d c).dirents d { (t.started d c).dirents d with clusCnt := 0 } } : Vol)
        = (t.started d c).cursor d c 0 := by
      unfold Vol.cursor
      rw [hself]
    simp only [wp_bind, modifyDirent, wp_modify]
    rw [hstate]
    have hself' : ((t.started d c).cursor d c 0).dirents d =
        { (t.started d c).dirents d with curClus := c, clusCnt := 0 } := update_self _ _ _
    have hd' : d ∈ ((t.started d c).cursor d c 0).files := by
      change d ∈ (t.started d c).files
      rwa [hchanged.files]
    have hresult := hloop ((t.started d c).cursor d c 0) _ (hinv.congr cursor_sameFiles) hd' ?_
      (hchanged.trans hcursor.changed) ?_ ?_
    · simpa only [wp_bind, modifyDirent, wp_modify] using hresult
    · rw [hself', hself]
      exact Nat.ne_of_gt (Nat.lt_of_lt_of_le Nat.two_pos hc.1)
    · rw [update_self]
      exact hbytes
    · rw [hself']
      exact .inr hc
  · rename_i hfirst
    exact hloop v ch h hd hfirst (Grown.refl g d v ch).changed rfl (.inl rfl)

lemma eread_wp (h : Inv g v ch) (hd : d ∈ v.files)
    (hcur : (v.dirents d).curClus < fat32Eoc) (hsize : (v.dirents d).fileSize ≤ (ch d).length * g.bytsPerClus)
    (hfull : ∀ t, t.pool.Full → ¬v.Room d (clustersFor g off (min n ((v.dirents d).fileSize - off))) → E .wildInode t)
    (hlarge : 164872 < (ch d).length → ∀ t, E .inodeTooLarge t)
    (hspecial : (v.dirents d).dev = .zero ∨ (v.dirents d).dev = .osrelease → ∀ bytes, Q bytes v)
    (hnothing : off > (v.dirents d).fileSize ∨ (off + n) % 2 ^ 32 < off ∨
      (v.dirents d).attr &&& attrDirectory ≠ 0 → Q [] v)
    (hdone : off ≤ (v.dirents d).fileSize → ¬ (off + n) % 2 ^ 32 < off →
      (v.dirents d).attr &&& attrDirectory = 0 → ∀ t ch', ReadDone g d v ch t ch' →
      Q (slice (fileBytes g v.disk (ch d)) off (min n ((v.dirents d).fileSize - off))) t) :
    wp (eread g d off n) Q E v := by
  have hregular : wp (if off > (v.dirents d).fileSize ∨ (off + n) % 2 ^ 32 < off ∨
        (v.dirents d).attr &&& attrDirectory ≠ 0 then pure [] else
      let n := if off + n > (v.dirents d).fileSize then (v.dirents d).fileSize - off else n
      ereadLoop g d n off n : FatM (List UInt8)) Q E v := by
    split
    · rename_i hcond
      exact hnothing hcond
    · rename_i hcond
      have hoff : off ≤ (v.dirents d).fileSize := Nat.not_lt.1 fun hlt => hcond (.inl hlt)
      have hwrap : ¬ (off + n) % 2 ^ 32 < off := fun hlt => hcond (.inr (.inl hlt))
      have hdir : (v.dirents d).attr &&& attrDirectory = 0 := by
        by_contra hne
        exact hcond (.inr (.inr hne))
      have hn : (if off + n > (v.dirents d).fileSize then (v.dirents d).fileSize - off else n)
          = min n ((v.dirents d).fileSize - off) := by
        split <;> omega
      rw [hn]
      refine ereadLoop_wp (Nat.le_refl _) h hd hcur (by omega) (fun t ht hpos hneed => hfull t ht ?_) hlarge
        (hdone hoff hwrap hdir)
      unfold clustersFor
      rwa [if_neg (Nat.ne_of_gt hpos)]
  unfold eread
  rw [wp_bind, wp_get]
  dsimp only
  split
  · rename_i hdev
    exact hspecial (.inl hdev) _
  · rename_i hdev
    exact hspecial (.inr hdev) _
  · exact hregular

end Fat
end OsRiscv
