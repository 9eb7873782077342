import OsRiscv.Image.Tower

/-!
# Follow — `reloc_clus` over the read function of a file system

What `Fat.Reloc` shows for a volume on a device holds for a volume on an image as well, given that the
blocks of its FAT can be read: the induction over the tower supplies `Reads`.
-/

namespace OsRiscv
namespace Image

open Lib List
open Fat (Vol Geometry Sector FatM HasChain held AtEnd nodes)
open FileSystem

structure Sound (v : Vol) (fs : FileSystem) : Prop where
  owns : v.pool.Owns (held v)
  mounted : fs.Mounted v
  readable : fs.Readable v
  room : fs.need v ≤ 1024

/-- What a read of `fs` leaves. -/
structure After (fs : FileSystem) (v t : Vol) : Prop where
  touched : Touched fs.images v t
  mounted : fs.Mounted t
  need : fs.need t ≤ fs.need v

lemma Sound.after {fs : FileSystem} {v t : Vol} (h : Sound v fs) (ha : After fs v t) : Sound t fs :=
  ⟨ha.touched.owns, ha.mounted, ha.touched.readable fs h.readable, ha.need.trans h.room⟩

/-- The block number is one of the volume. -/
def Inside (v : Vol) : FileSystem → Nat → Prop
  | .root _ _, _ | .device _ _, _ => True
  | .image _ ep _, b => 512 * b < (v.dirents ep).fileSize

/-- Blocks within reach are read. -/
def Reads (fs : FileSystem) : Prop :=
  ∀ v sec, Sound v fs → Inside v fs sec → fs.Reach v sec →
    wp (fs.read sec) (fun r t => After fs v t ∧ ∃ b, r = some b ∧ b.data = fs.shown v sec) (fun _ _ => False) v

section

variable {parent : FileSystem} {v t : Vol} {d k n off N : Nat} {l : List Nat} {E : Stop → Vol → Prop} {S : List Nat}
  {g : Geometry}

lemma wp_onVol {α : Type} {x : FatM α} {Q : α → Vol → Prop} :
    wp (onVol x) Q E v ↔ wp x Q (fun r t => E (.fat r) t) v := by
  unfold wp onVol
  cases x v with
  | done a t => exact .rfl
  | panic r t => exact .rfl

lemma wp_weaken {α : Type} {x : BCall α} {Q : α → Vol → Prop} (h : wp x Q (fun _ _ => False) v) : wp x Q E v := by
  unfold wp at h ⊢
  cases hout : x v with
  | done a t =>
    rw [hout] at h
    exact h
  | panic r t =>
    rw [hout] at h
    exact h.elim

/-! ## Sectors of the volume -/

lemma fatSec_lt {c : Nat} (hc : c ≤ g.dataClusCnt + 1) : Fat.fatSecOfClus g c < g.totSec := by
  have hsz := g.fatSz_lt
  have htable := g.table_fits
  have hfit := g.data_fits
  have hfirst := g.firstDataSec_eq
  have hcnt := Nat.mul_le_mul_right g.fatSz g.fatCnt_pos
  have hmod : c * 4 % 2 ^ 32 = c * 4 := Nat.mod_eq_of_lt (by omega)
  unfold Fat.fatSecOfClus
  rw [g.bytsPerSec_eq, hmod]
  omega

lemma dataSec_lt {c o : Nat} (hc : Fat.InRange g c) (ho : o < g.bytsPerClus) :
    Fat.firstSecOfClus g c + o / 512 < g.totSec := by
  have hsecs := Fat.secs_of_range hc
  have hfit := g.data_fits
  have hbytes := g.bytsPerClus_eq
  rw [Fat.firstSec_eq hc]
  omega

lemma inside_of_lt {sec : Nat} (hf : parent.Fits v) (hsec : sec < parent.geometry.totSec) :
    Inside v parent sec := by
  cases parent with
  | root g dev => trivial
  | device g major => trivial
  | image g ep parent =>
    change 512 * sec < (v.dirents ep).fileSize
    have hfit : 512 * g.totSec ≤ (v.dirents ep).fileSize := hf
    have hlt : sec < g.totSec := hsec
    omega

/-! ## On a device

Read from the card, these functions are those of `Fat`. -/

section Device

variable {α β : Type}

lemma onVol_bind (x : FatM α) (f : α → FatM β) :
    onVol (x >>= f) = onVol x >>= fun a => onVol (f a) := by
  funext v
  change onVol (Call.bind x f) v = Call.bind (onVol x) (fun a => onVol (f a)) v
  unfold onVol Call.bind
  dsimp only
  cases x v with
  | done a t => rfl
  | panic r t => rfl

lemma onVol_ite {c : Prop} [Decidable c] (x y : FatM α) :
    onVol (if c then x else y) = if c then onVol x else onVol y := by
  split
  · rfl
  · rfl

lemma readFat_bread (g : Geometry) (dev c : Nat) : readFat (bread dev) g c = onVol (Fat.readFat g c) := by
  unfold readFat Fat.readFat
  rw [onVol_ite, onVol_ite]
  by_cases heoc : c ≥ Fat.fat32Eoc
  · rw [if_pos heoc, if_pos heoc]
    rfl
  by_cases hbig : c > g.dataClusCnt + 1
  · rw [if_pos hbig, if_pos hbig]
    rfl
  have hsec := fatSec_lt (Nat.not_lt.1 hbig)
  have htot := g.totSec_lt
  have hmod : Fat.fatSecOfClus g c % 2 ^ 32 = Fat.fatSecOfClus g c := Nat.mod_eq_of_lt (by omega)
  unfold bread
  rw [hmod]
  rfl

lemma nextClus_bread (g : Geometry) (dev d : Nat) :
    nextClus (bread dev) g d = onVol (Fat.nextClus g d false) := by
  unfold nextClus Fat.nextClus
  rw [onVol_bind]
  refine congrArg₂ Bind.bind rfl (funext fun v => ?_)
  rw [onVol_bind, readFat_bread]
  refine congrArg₂ Bind.bind rfl (funext fun clus => ?_)
  rw [onVol_ite]
  rfl

lemma relocLoop_bread (g : Geometry) (dev d n fuel : Nat) :
    relocLoop (bread dev) g d n fuel = onVol (Fat.relocLoop g d n false fuel) := by
  induction fuel with
  | zero => rfl
  | succ fuel ih =>
    unfold relocLoop Fat.relocLoop
    rw [onVol_bind]
    refine congrArg₂ Bind.bind rfl (funext fun v => ?_)
    split
    · rw [onVol_bind, nextClus_bread]
      refine congrArg₂ Bind.bind rfl (funext fun next => ?_)
      cases next with
      | none =>
        rfl
      | some clus =>
        dsimp only
        rw [onVol_bind]
        refine congrArg₂ Bind.bind rfl (funext fun _ => ?_)
        rw [onVol_bind]
        refine congrArg₂ Bind.bind rfl (funext fun w => ?_)
        split
        · rfl
        · rw [onVol_bind]
          refine congrArg₂ Bind.bind rfl (funext fun _ => ?_)
          rw [onVol_bind]
          exact congrArg₂ Bind.bind rfl (funext fun _ => ih)
    · rfl

lemma relocClus_bread (g : Geometry) (dev d off : Nat) :
    relocClus (bread dev) g d off = onVol (Fat.relocClus g d off false) := by
  unfold relocClus Fat.relocClus
  rw [onVol_bind]
  refine congrArg₂ Bind.bind rfl (funext fun v => ?_)
  dsimp only
  split
  · rfl
  split
  · rw [onVol_bind]
    rfl
  · rw [onVol_bind]
    refine congrArg₂ Bind.bind rfl (funext fun _ => ?_)
    rw [onVol_bind, relocLoop_bread]
    refine congrArg₂ Bind.bind rfl (funext fun found => ?_)
    rw [onVol_ite]
    rfl

end Device

/-! ## The next cluster of the chain -/

/-- The state while `reloc_clus` works on file `d` of `parent`, whose chain is `l`; with complete caches there are at
most `N` inodes in use. -/
structure Working (parent : FileSystem) (l : List Nat) (d N : Nat) (v : Vol) : Prop where
  sound : Sound v parent
  fits : parent.Fits v
  out : d ∉ parent.images
  file : d ∈ v.files
  first : (v.dirents d).firstClus ≠ 0
  clusters : parent.clusters v d = l
  chain : HasChain parent.geometry { v with disk := parent.shown v } l d
  fat : ∀ c ∈ l, parent.Reach v (Fat.fatSecOfClus parent.geometry c)
  need : parent.need v + (nodes (2 * l.length) - nodes (2 * (v.dirents d).inodeMaxCluster)) ≤ N
  room : N ≤ 1024

lemma Working.of_touched (h : Working parent l d N v) (ht : Touched S v t) (hm : parent.Mounted t)
    (hc : HasChain parent.geometry { t with disk := parent.shown t } l d)
    (hneed : parent.need t + (nodes (2 * l.length) - nodes (2 * (t.dirents d).inodeMaxCluster)) ≤ N) :
    Working parent l d N t where
  sound := ⟨ht.owns, hm, ht.readable parent h.sound.readable, ((Nat.le_add_right _ _).trans hneed).trans h.room⟩
  fits := ht.fits h.fits
  out := h.out
  file := by
    rw [ht.files]
    exact h.file
  first := by
    rw [ht.first]
    exact h.first
  clusters := by
    rw [ht.clusters]
    exact h.clusters
  chain := hc
  fat c hc := (ht.reach parent _).2 (h.fat c hc)
  need := hneed
  room := h.room

lemma Working.not_mem (h : Working parent l d N v) : ∀ e ∈ parent.images, e ∉ [d] :=
  fun _ he hed => h.out (mem_singleton.1 hed ▸ he)

lemma Working.cursor (h : Working parent l d N v) (clus cnt : Nat) :
    Touched (d :: parent.images) v (v.cursor d clus cnt) ∧ Working parent l d N (v.cursor d clus cnt) := by
  have ht : Touched [d] v (v.cursor d clus cnt) := touched_cursor h.sound.owns
  refine ⟨ht.mono (by simp), h.of_touched ht (ht.mounted parent h.not_mem h.sound.mounted) ?_ ?_⟩
  · rw [ht.shown]
    exact h.chain.congr Fat.cursor_sameFiles
  · have hsame : Fat.SameFiles v (v.cursor d clus cnt) := Fat.cursor_sameFiles
    have hneed := ht.need parent h.not_mem
    rw [hsame.pool] at hneed
    rw [hsame.max, Nat.add_right_cancel hneed]
    exact h.need

/-- A read of the parent leaves the file as it was. -/
lemma Working.after (h : Working parent l d N v) (ha : After parent v t) : Working parent l d N t := by
  have hmax : (t.dirents d).inodeMaxCluster = (v.dirents d).inodeMaxCluster := by rw [ha.touched.others d h.out]
  refine h.of_touched ha.touched ha.mounted ?_ ?_
  · rw [ha.touched.shown]
    exact ha.touched.hasChain h.out h.file h.chain
  · rw [hmax]
    exact (Nat.add_le_add_right ha.need _).trans h.need

section Advanced

variable {clus m : Nat} {p : Fat.Pool}

/-- The cache grows by one position of the chain. -/
lemma Working.advanced (h : Working parent l d N v) (hmax : (v.dirents d).inodeMaxCluster = m)
    (hput : v.pool.Put (held v) d m clus p) (hm : m < 164872) (hnext : l[m]? = some clus) :
    Touched (d :: parent.images) v ((v.advanced d clus m).withPool p) ∧
      Working parent l d N ((v.advanced d clus m).withPool p) := by
  have hadv := touched_advanced h.file hmax hput
  refine ⟨hadv.mono (by simp), h.of_touched hadv (hadv.mounted parent h.not_mem h.sound.mounted) ?_ ?_⟩
  · rw [hadv.shown]
    exact hasChain_advanced h.file hmax hput hm hnext h.chain
  · have hlen : m < l.length := (List.getElem?_eq_some_iff.1 hnext).1
    have hmono : nodes (2 * (m + 1)) ≤ nodes (2 * l.length) := Fat.nodes_mono (by omega)
    have hbelow : nodes (2 * m) ≤ nodes (2 * (m + 1)) := Fat.nodes_mono (by omega)
    have hparent := hadv.need parent h.not_mem
    have hcount := hput.count
    have hneed := h.need
    have hself : (((v.advanced d clus m).withPool p).dirents d).inodeMaxCluster = m + 1 := by rw [Fat.advanced_self]
    have hpool : ((v.advanced d clus m).withPool p).pool.count = p.count := rfl
    rw [hmax] at hneed
    rw [hself]
    omega

/-- There is a free inode for the next position of the chain. -/
lemma Working.not_full (h : Working parent l d N v) (hmax : (v.dirents d).inodeMaxCluster = m)
    (hnext : l[m]? = some clus) : ¬1024 + nodes (2 * m) < v.pool.count + nodes (2 * (m + 1)) := by
  have hlen : m < l.length := (List.getElem?_eq_some_iff.1 hnext).1
  have hmono : nodes (2 * (m + 1)) ≤ nodes (2 * l.length) := Fat.nodes_mono (by omega)
  have hcount := count_le_need (v := v) parent
  have hneed := h.need
  have hroom := h.room
  rw [hmax] at hneed
  omega

end Advanced

section

variable (hreads : Reads parent) (h : Working parent l d N v)
include hreads h

lemma readFat_wp {Q : Nat → Vol → Prop} {c : Nat} (hc : c ∈ l)
    (hQ : ∀ t, After parent v t → Q (Fat.fatEntry parent.geometry (parent.shown v) c) t) :
    wp (readFat parent.read parent.geometry c) Q E v := by
  have hrange := h.chain.chain.ok_of_mem hc
  have hlt : ¬c ≥ Fat.fat32Eoc := by
    have hclus := parent.geometry.clusters_lt
    have hup := hrange.2
    unfold Fat.fat32Eoc
    omega
  have hle : ¬c > parent.geometry.dataClusCnt + 1 := Nat.not_lt.2 hrange.2
  unfold readFat
  rw [if_neg hlt, if_neg hle, wp_bind]
  have hinside := inside_of_lt h.fits (fatSec_lt hrange.2)
  refine wp_mono (wp_weaken (hreads v _ h.sound hinside (h.fat c hc))) ?_
  rintro r t ⟨ha, b, rfl, hdata⟩
  rw [wp_pure, hdata]
  exact hQ t ha

lemma nextClus_wp {Q : Option Nat → Vol → Prop} (hcur : l[k]? = some (v.dirents d).curClus)
    (hQ : ∀ t, After parent v t → Q l[k + 1]? t) :
    wp (nextClus parent.read parent.geometry d) Q E v := by
  unfold nextClus
  rw [wp_bind, wp_get, wp_bind]
  refine readFat_wp hreads h (mem_of_getElem? hcur) ?_
  intro t ha
  rcases Fat.next_cases h.chain.chain hcur with ⟨hmark, _, hlen⟩ | ⟨hmark, hnext⟩
  · have hnone : l[k + 1]? = none := getElem?_eq_none (by omega)
    rw [if_pos hmark, wp_pure, ← hnone]
    exact hQ t ha
  · rw [if_neg hmark, wp_pure, ← hnext]
    exact hQ t ha

/-! ## The loop -/

lemma relocLoop_wp {Q : Bool → Vol → Prop} {fuel : Nat} (hfuel : n ≤ k + fuel)
    (hk : k ≤ n) (hat : AtEnd v (fun _ => l) d k)
    (hlarge : 164872 ≤ n → ∀ t, E (.fat .inodeTooLarge) t)
    (hdone : ∀ t, Touched (d :: parent.images) v t → Working parent l d N t → n < 164872 →
      l[n]? = some (t.dirents d).curClus → Q true t)
    (hend : ∀ t, Touched (d :: parent.images) v t → Working parent l d N t → l.length ≤ n →
      (t.dirents d).curClus = (v.dirents d).firstClus → Q false t) :
    wp (relocLoop parent.read parent.geometry d n fuel) Q E v := by
  induction fuel generalizing v k with
  | zero =>
    have hkn : k = n := by omega
    subst hkn
    have htop : (v.dirents d).inodeMaxCluster ≤ 164872 := h.chain.le_top
    have hmax := hat.max
    exact hdone v (Touched.refl h.sound.owns) h (by omega) hat.cur
  | succ fuel ih =>
    unfold relocLoop
    rw [wp_bind, wp_get, hat.cnt]
    split
    case isFalse hle =>
      have hkn : k = n := by omega
      subst hkn
      have htop : (v.dirents d).inodeMaxCluster ≤ 164872 := h.chain.le_top
      have hmax := hat.max
      exact hdone v (Touched.refl h.sound.owns) h (by omega) hat.cur
    case isTrue hlt =>
      rw [wp_bind]
      refine nextClus_wp hreads h hat.cur ?_
      intro t ha
      -- the reads below have left the file as it was
      have ht := ha.touched
      have hdirent := ht.others d h.out
      have hcnt : (t.dirents d).clusCnt = k := by rw [hdirent, hat.cnt]
      have hmax : (t.dirents d).inodeMaxCluster = k + 1 := by rw [hdirent, hat.max]
      have hw := h.after ha
      have htouch : Touched (d :: parent.images) v t := ht.mono fun e he => mem_cons_of_mem d he
      cases hnext : l[k + 1]? with
      | none =>
        have hlen : l.length ≤ k + 1 := getElem?_eq_none_iff.1 hnext
        rcases hw.cursor (t.dirents d).firstClus 0 with ⟨hc1, hc2⟩
        refine hend (t.cursor d (t.dirents d).firstClus 0) (htouch.trans hc1) hc2 (by omega) ?_
        simp [Fat.Vol.cursor, ht.first]
      | some clus =>
        have hheld : held t d = 2 * (k + 1) := by
          unfold held
          rw [if_pos hw.file, hmax]
        simp only [wp_bind, wp_onVol, Fat.modifyDirent, wp_modify, wp_get, Function.update_self, hcnt,
          hmax, Function.update_idem, ne_eq, not_true, if_false]
        change wp (Fat.putInode d (k + 1) clus) _ _ (t.advanced d clus (k + 1))
        rw [← Fat.advanced_withPool]
        refine Fat.putInode_wp ht.owns hheld (fun p _ hfull => absurd hfull (hw.not_full hmax hnext))
          (fun hk => hlarge (by omega) _) ?_
        intro hk1 p hput
        -- the cache is one longer, with the cursor on its end again
        rcases hw.advanced hmax hput hk1 hnext with ⟨hadv, hw'⟩
        have hself := @Fat.advanced_self t d clus (k + 1) p
        have htouch' := htouch.trans hadv
        refine ih (k := k + 1) hw' (by omega) (by omega) ?_ ?_ ?_
        · constructor
          · exact hw'.file
          · exact hw'.first
          · rw [hself]
          · rw [hself]
          · rw [hself]
            exact hnext
        · intro w hw1 hw2 hn hcur
          exact hdone w (htouch'.trans hw1) hw2 hn hcur
        · intro w hw1 hw2 hn hcur
          refine hend w (htouch'.trans hw1) hw2 hn ?_
          rw [hcur, htouch'.first]

lemma relocClus_wp {Q : Int → Vol → Prop}
    (hlarge : 164872 ≤ off / parent.geometry.bytsPerClus → ∀ t, E (.fat .inodeTooLarge) t)
    (hdone : ∀ t, Touched (d :: parent.images) v t → Working parent l d N t →
      off / parent.geometry.bytsPerClus < 164872 →
      l[off / parent.geometry.bytsPerClus]? = some (t.dirents d).curClus →
      Q (off % parent.geometry.bytsPerClus : Nat) t)
    (hend : ∀ t, Touched (d :: parent.images) v t → Working parent l d N t →
      l.length ≤ off / parent.geometry.bytsPerClus →
      (t.dirents d).curClus = (v.dirents d).firstClus → Q (-1) t) :
    wp (relocClus parent.read parent.geometry d off) Q E v := by
  have hpos : 0 < (v.dirents d).inodeMaxCluster := h.chain.pos
  have htop : (v.dirents d).inodeMaxCluster ≤ 164872 := h.chain.le_top
  unfold relocClus
  rw [wp_bind, wp_get, if_neg (h.chain.asserted h.first)]
  dsimp only
  split
  case isTrue hcached =>
    rw [wp_bind, wp_onVol]
    refine Fat.eFindInode_wp h.chain hcached fun clus hclus => ?_
    refine hdone _ (h.cursor clus _).1 (h.cursor clus _).2 (by omega) ?_
    rw [hclus]
    simp [Fat.Vol.cursor]
  case isFalse huncached =>
    rw [wp_bind, wp_onVol]
    refine Fat.eFindInode_wp h.chain (by omega) fun clus hclus => ?_
    rw [wp_bind]
    rcases h.cursor clus ((v.dirents d).inodeMaxCluster - 1) with ⟨hc1, hc2⟩
    refine relocLoop_wp hreads hc2 (by omega) (by omega) (Fat.atEnd_cursor h.file h.first hpos hclus) hlarge ?_ ?_
    · intro t ht hw hn hcur
      exact hdone t (hc1.trans ht) hw hn hcur
    · intro t ht hw hshort hcur
      refine hend t (hc1.trans ht) hw hshort ?_
      rw [hcur, hc1.first]

end

end

end Image
end OsRiscv
