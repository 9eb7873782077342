import OsRiscv.Image.Follow

/-!
# Blocks — a mounted image shows the bytes of its file

By induction over the tower of file systems: a read of a block of the image returns the device block
that has its bytes, as long as the translation stays within the inode cache and the positive numbers.
At the end of the file `getBlockNumber` compares with the wrong operator.
-/

namespace OsRiscv
namespace Image

open Lib List
open Fat (Vol Geometry Sector HasChain held nodes)
open FileSystem

variable {fs parent : FileSystem} {g : Geometry} {v t : Vol} {b d ep : Nat} {l : List Nat} {E : Stop → Vol → Prop}
  {x N : Nat}

/-- The result is the buffer of the device block that has block `b`. -/
def Shows (fs : FileSystem) (v : Vol) (b : Nat) (r : Option Buf) : Prop :=
  ∃ dev blk, fs.place v b = some (dev, blk) ∧ r = some ⟨dev, blk, v.disk blk⟩

/-- A read leaves all but cursors and caches alone, and is right exactly if the block is within reach. -/
def ReadOk (fs : FileSystem) (v : Vol) (b : Nat) : Prop :=
  wp (fs.read b) (fun r t => After fs v t ∧ (Shows fs v b r ↔ fs.Reach v b)) (fun _ _ => ¬fs.Reach v b) v

/-! ## Numbers -/

lemma toInt_neg_iff (hx : x < 2 ^ 32) : toInt x < 0 ↔ 2 ^ 31 ≤ x := by
  unfold toInt
  split
  · omega
  · omega

lemma toInt_of_lt (hx : x < 2 ^ 31) : toInt x = x := if_pos hx

lemma toInt_ne (hx : x < g.totSec) : toInt x ≠ -1 := by
  have htot := g.totSec_lt
  unfold toInt
  split
  · omega
  · omega

/-! ## The image file -/

lemma first_ne_zero (hc : parent.Covered v ep) (hpos : 0 < (v.dirents ep).fileSize) :
    (v.dirents ep).firstClus ≠ 0 := by
  intro hzero
  have hnil : parent.clusters v ep = [] := if_pos hzero
  have hsize := hc.size
  rw [hnil, length_nil, Nat.zero_mul] at hsize
  omega

lemma working (h : Sound v (.image g ep parent)) (hfirst : (v.dirents ep).firstClus ≠ 0) :
    Working parent (parent.clusters v ep) ep ((FileSystem.image g ep parent).need v) v := by
  rcases h.mounted with ⟨hm, hf, hne, hc⟩
  exact ⟨⟨h.owns, hm, h.readable.1, (Nat.le_add_right _ _).trans h.room⟩, hf, hne, hc.file, hfirst, rfl,
    hc.chain hfirst, h.readable.2, Nat.le_refl _, h.room⟩

lemma after_of_working (ht : Touched (ep :: parent.images) v t) (hc : parent.Covered v ep)
    (hw : Working parent l ep ((FileSystem.image g ep parent).need v) t) : After (.image g ep parent) v t := by
  refine ⟨ht, ⟨hw.sound.mounted, hw.fits, hw.out, hw.file, ?_, ?_, ?_⟩, ?_⟩
  · intro _
    rw [hw.clusters]
    exact hw.chain
  · rw [ht.size, ht.clusters]
    exact hc.size
  · rw [ht.size]
    exact hc.size_lt
  · have hneed := hw.need
    rw [← hw.clusters] at hneed
    exact hneed

lemma getD_of_getElem? {i c : Nat} (h : l[i]? = some c) : l.getD i 0 = c := by
  rw [getD_eq_getElem?_getD, h]
  rfl

/-! ## Reading -/

lemma reads_of_read_wp (h : ∀ v b, Sound v fs → Inside v fs b → ReadOk fs v b) : Reads fs := by
  intro v sec hs hin hreach
  have hw := h v sec hs hin
  unfold ReadOk wp at hw
  unfold wp
  cases hout : fs.read sec v with
  | done r t =>
    rw [hout] at hw
    rcases hw with ⟨ha, hshows⟩
    rcases hshows.2 hreach with ⟨dev, blk, hplace, rfl⟩
    refine ⟨ha, _, rfl, ?_⟩
    unfold FileSystem.shown contents
    rw [hplace]
  | panic r t =>
    rw [hout] at hw
    exact hw hreach

lemma bread_wp {dev : Nat} (h : v.pool.Owns (held v))
    (hplace : fs.place v b = some (dev, b)) (hm : fs.Mounted v) (hreach : fs.Reach v b ↔ b < 2 ^ 32) :
    wp (bread dev b) (fun r t => After fs v t ∧ (Shows fs v b r ↔ fs.Reach v b)) E v := by
  refine ⟨⟨Touched.refl h, hm, Nat.le_refl _⟩, ?_⟩
  rw [hreach]
  unfold Shows
  rw [hplace]
  constructor
  · rintro ⟨dev', blk, hsome, hbuf⟩
    rcases Prod.mk.inj (Option.some.inj hsome) with ⟨_, rfl⟩
    have hblk : b % 2 ^ 32 = b := congrArg Buf.blockno (Option.some.inj hbuf)
    omega
  · intro hlt
    rw [Nat.mod_eq_of_lt hlt]
    exact ⟨dev, b, rfl, rfl⟩

/-- `getBlockNumber` at an offset that is not past the size of the file. -/
theorem getBlockNumber_wp {Q : Int → Vol → Prop} {offset : Nat}
    (hreads : Reads parent) (hw : Working parent l ep N v) (hoff : b * 512 % 2 ^ 32 = offset)
    (hle : offset ≤ (v.dirents ep).fileSize)
    (hlarge : 164872 ≤ offset / parent.geometry.bytsPerClus → ∀ t, E (.fat .inodeTooLarge) t)
    (hdone : ∀ t c, Touched (ep :: parent.images) v t → Working parent l ep N t →
      offset / parent.geometry.bytsPerClus < 164872 → l[offset / parent.geometry.bytsPerClus]? = some c →
      Q (toInt (Fat.firstSecOfClus parent.geometry c + offset % parent.geometry.bytsPerClus / 512)) t)
    (hend : ∀ t, Touched (ep :: parent.images) v t → Working parent l ep N t →
      l.length ≤ offset / parent.geometry.bytsPerClus →
      Q (toInt (Fat.firstSecOfClus parent.geometry (v.dirents ep).firstClus +
        offset % parent.geometry.bytsPerClus / 512)) t) :
    wp (getBlockNumber parent.read parent.geometry ep b) Q E v := by
  have hpos := Fat.bytsPerClus_pos parent.geometry
  have htot := parent.geometry.totSec_lt
  have hmod : offset % parent.geometry.bytsPerClus < parent.geometry.bytsPerClus := Nat.mod_lt _ hpos
  unfold getBlockNumber
  rw [hoff, parent.geometry.bytsPerSec_eq]
  simp only [wp_bind, wp_get]
  rw [if_neg (Nat.not_lt.2 hle), wp_bind]
  refine relocClus_wp hreads hw hlarge ?_ ?_
  · intro t ht hw' htop hcur
    have hsmall := dataSec_lt (hw'.chain.chain.ok_of_mem (mem_of_getElem? hcur)) hmod
    rw [wp_bind, wp_get, wp_pure, Nat.mod_eq_of_lt (by omega)]
    exact hdone t _ ht hw' htop hcur
  · intro t ht hw' hshort hcur
    have hsmall := dataSec_lt (hw.chain.chain.ok_of_mem hw.chain.chain.mem_self) hmod
    change Fat.firstSecOfClus _ (v.dirents ep).firstClus + _ < _ at hsmall
    rw [wp_bind, wp_get, wp_pure, hcur, Nat.mod_eq_of_lt (by omega)]
    exact hend t ht hw' hshort

/-- The second half of `mountBlockRead`: the block of the parent. -/
theorem readParent_wp {sec : Nat} (hparent : ∀ v b, Sound v parent → Inside v parent b → ReadOk parent v b)
    (hc : parent.Covered v ep) (hin : 512 * b < (v.dirents ep).fileSize)
    (ht : Touched (ep :: parent.images) v t)
    (hw : Working parent l ep ((FileSystem.image g ep parent).need v) t)
    (hsec : sectorOf parent.geometry (parent.clusters v ep) b = sec)
    (hsmall : sec < parent.geometry.totSec) (hsec31 : sec < 2 ^ 31)
    (htop : 512 * b / parent.geometry.bytsPerClus < 164872) : wp (parent.read sec)
      (fun r u => After (.image g ep parent) v u ∧
        (Shows (.image g ep parent) v b r ↔ (FileSystem.image g ep parent).Reach v b))
      (fun _ _ => ¬(FileSystem.image g ep parent).Reach v b) t := by
  have hplace : (FileSystem.image g ep parent).place v b = parent.place t sec := by
    rw [ht.place parent, ← hsec]
    exact if_pos hin
  have hreach : (FileSystem.image g ep parent).Reach v b ↔ parent.Reach t sec := by
    rw [ht.reach parent, ← hsec]
    constructor
    · exact fun hr => hr.2.2
    · intro hr
      refine ⟨htop, ?_, hr⟩
      rw [hsec]
      exact hsec31
  rw [hreach]
  refine wp_mono (hparent t sec hw.sound (inside_of_lt hw.fits hsmall)) ?_
  rintro r u ⟨hu, hshows⟩
  have hu' : Touched (ep :: parent.images) t u := hu.touched.mono fun e he => mem_cons_of_mem ep he
  refine ⟨after_of_working (ht.trans hu') hc (hw.after hu), ?_⟩
  unfold Shows
  rw [hplace, ← ht.disk]
  exact hshows

lemma mountBlockRead_wp (hparent : ∀ v b, Sound v parent → Inside v parent b → ReadOk parent v b)
    (h : Sound v (.image g ep parent)) (hin : 512 * b < (v.dirents ep).fileSize) :
    ReadOk (.image g ep parent) v b := by
  rcases h.mounted with ⟨_, _, _, hc⟩
  have hlt := hc.size_lt
  have hpos := Fat.bytsPerClus_pos parent.geometry
  have htot := parent.geometry.totSec_lt
  have hw := working h (first_ne_zero hc (by omega))
  have hoff : b * 512 % 2 ^ 32 = 512 * b := by omega
  have hlen : 512 * b / parent.geometry.bytsPerClus < (parent.clusters v ep).length :=
    (Nat.div_lt_iff_lt_mul hpos).2 (Nat.lt_of_lt_of_le hin hc.size)
  change wp (mountBlockRead parent.read parent.geometry ep b) _ _ v
  unfold mountBlockRead
  rw [wp_bind]
  refine getBlockNumber_wp (reads_of_read_wp hparent) hw hoff (Nat.le_of_lt hin)
    (fun hlarge t hreach => absurd hreach.1 (Nat.not_lt.2 hlarge)) ?_ ?_
  · intro t c ht hw' htop hcur
    have hsec : sectorOf parent.geometry (parent.clusters v ep) b =
        Fat.firstSecOfClus parent.geometry c + 512 * b % parent.geometry.bytsPerClus / 512 := by
      unfold sectorOf
      rw [getD_of_getElem? hcur]
    have hsmall := dataSec_lt (hw'.chain.chain.ok_of_mem (mem_of_getElem? hcur)) (Nat.mod_lt (512 * b) hpos)
    generalize Fat.firstSecOfClus parent.geometry c + 512 * b % parent.geometry.bytsPerClus / 512 = sec
      at hsec hsmall ⊢
    by_cases hneg : toInt sec < 0
    · -- the number of the sector is taken for an error
      have hbig := (toInt_neg_iff (by omega)).1 hneg
      rw [if_pos hneg, wp_pure]
      refine ⟨after_of_working ht hc hw', ?_⟩
      refine iff_of_false ?_ ?_
      · rintro ⟨dev, blk, _, hnone⟩
        cases hnone
      · intro hreach
        have hsec31 := hreach.2.1
        omega
    · have hsec31 : sec < 2 ^ 31 := by
        by_contra hge
        exact hneg ((toInt_neg_iff (by omega)).2 (Nat.not_lt.1 hge))
      rw [if_neg hneg, toInt_of_lt hsec31, Int.toNat_natCast]
      exact readParent_wp hparent hc hin ht hw' hsec hsmall hsec31 htop
  · -- the chain covers the file
    intro t _ _ hshort
    exact absurd hshort (Nat.not_le.2 hlen)

lemma readOk (fs : FileSystem) : ∀ (v : Vol) (b : Nat), Sound v fs → Inside v fs b → ReadOk fs v b := by
  induction fs with
  | root g dev =>
    intro v b h _
    exact bread_wp h.owns rfl trivial .rfl
  | device g major =>
    intro v b h _
    exact bread_wp h.owns rfl trivial .rfl
  | image g ep parent ih =>
    intro v b h hin
    exact mountBlockRead_wp ih h hin

/-! ## The bytes of the image -/

/-- The block of the file system is the block of the file. -/
theorem shown_eq_fileBytes {i : Nat} (hc : parent.Covered v ep) (hin : 512 * b < (v.dirents ep).fileSize)
    (hi : i < 512) : (FileSystem.image g ep parent).shown v b i =
      Fat.fileBytes parent.geometry (parent.shown v) (parent.clusters v ep) (512 * b + i) := by
  have hbytes := parent.geometry.bytsPerClus_eq
  have hshown : (FileSystem.image g ep parent).shown v b =
      parent.shown v (sectorOf parent.geometry (parent.clusters v ep) b) := by
    have hplace : (FileSystem.image g ep parent).place v b =
        parent.place v (sectorOf parent.geometry (parent.clusters v ep) b) := if_pos hin
    unfold FileSystem.shown contents
    rw [hplace]
  -- clusters are whole numbers of blocks
  have hdiv : (512 * b + i) / parent.geometry.bytsPerClus = 512 * b / parent.geometry.bytsPerClus := by
    rw [hbytes, Nat.mul_comm _ 512, ← Nat.div_div_eq_div_mul, ← Nat.div_div_eq_div_mul]
    congr 1
    omega
  have hmod : (512 * b + i) % parent.geometry.bytsPerClus =
      512 * b % parent.geometry.bytsPerClus + i := by
    have hsplit := Nat.div_add_mod (512 * b + i) parent.geometry.bytsPerClus
    have hsplit' := Nat.div_add_mod (512 * b) parent.geometry.bytsPerClus
    rw [hdiv] at hsplit
    omega
  have hblock : 512 * b % parent.geometry.bytsPerClus =
      512 * b % parent.geometry.bytsPerClus / 512 * 512 := by
    have hdvd : 512 ∣ 512 * b % parent.geometry.bytsPerClus := by
      rw [Nat.dvd_mod_iff ⟨parent.geometry.secPerClus, by rw [hbytes, Nat.mul_comm]⟩]
      exact ⟨b, rfl⟩
    exact (Nat.div_mul_cancel hdvd).symm
  have hlen : 512 * b + i < (parent.clusters v ep).length * parent.geometry.bytsPerClus := by
    have hsize := hc.size
    rw [hbytes, ← Nat.mul_assoc] at hsize ⊢
    omega
  rw [hshown]
  unfold Fat.fileBytes
  rw [if_pos hlen, hdiv, hmod, hblock]
  unfold Fat.clusByte sectorOf
  rw [← Nat.add_assoc, ← Nat.add_mul, flat_mul_add hi]

/-! ## The end of the file -/

lemma getBlockNumber_end (h : Sound v (.image g ep parent)) :
    wp (getBlockNumber parent.read parent.geometry ep b)
      (fun n _ => n = -1 ↔ (v.dirents ep).fileSize < b * 512 % 2 ^ 32)
      (fun _ _ => b * 512 % 2 ^ 32 ≤ (v.dirents ep).fileSize) v := by
  generalize hoff : b * 512 % 2 ^ 32 = offset
  by_cases hpast : (v.dirents ep).fileSize < offset
  · unfold getBlockNumber
    rw [hoff, wp_bind, wp_get, if_pos hpast]
    exact iff_of_true rfl hpast
  · have hpast' := Nat.not_lt.1 hpast
    by_cases hfirst : (v.dirents ep).firstClus = 0
    · -- `reloc_clus` asserts that there is a first cluster
      unfold getBlockNumber relocClus
      rw [hoff, wp_bind, wp_get, if_neg hpast, wp_bind, wp_bind, wp_get, if_pos (.inl hfirst)]
      exact hpast'
    · have hw := working h hfirst
      have hpos := Fat.bytsPerClus_pos parent.geometry
      have hmod : offset % parent.geometry.bytsPerClus < parent.geometry.bytsPerClus := Nat.mod_lt _ hpos
      refine getBlockNumber_wp (reads_of_read_wp (readOk parent)) hw hoff hpast' (fun _ _ => hpast') ?_ ?_
      · intro t c _ hw' _ hcur
        have hrange := hw'.chain.chain.ok_of_mem (mem_of_getElem? hcur)
        exact iff_of_false (toInt_ne (dataSec_lt hrange hmod)) hpast
      · intro t _ _ _
        have hrange := hw.chain.chain.ok_of_mem hw.chain.chain.mem_self
        exact iff_of_false (toInt_ne (dataSec_lt hrange hmod)) hpast

/-- Block `b` is right: in the file, the read returns the buffer of the device block that has it; past the end
`getBlockNumber` returns -1. -/
def BlockOk (g : Geometry) (ep : Nat) (parent : FileSystem) (v : Vol) (b : Nat) : Prop :=
  if 512 * b < (v.dirents ep).fileSize then
    wp ((FileSystem.image g ep parent).read b) (fun r _ => Shows (.image g ep parent) v b r)
      (fun _ _ => False) v
  else
    wp (getBlockNumber parent.read parent.geometry ep b) (fun n _ => n = -1) (fun _ _ => False) v

def BlockCond (g : Geometry) (ep : Nat) (parent : FileSystem) (v : Vol) (b : Nat) : Prop :=
  if 512 * b < (v.dirents ep).fileSize then (FileSystem.image g ep parent).Reach v b
  else (v.dirents ep).fileSize < b * 512 % 2 ^ 32

/-- In a well-formed tower, with free inodes for the caches of its image files: block `b` is right exactly under the
condition.  The blocks of the image are the bytes of its file, and a read of one of them leaves the tower well formed,
with as many free inodes as it still needs. -/
theorem image_shows_file_iff (h : Sound v (.image g ep parent)) :
    (BlockOk g ep parent v b ↔ BlockCond g ep parent v b) ∧ (512 * b < (v.dirents ep).fileSize →
      (∀ i < 512, (FileSystem.image g ep parent).shown v b i =
        Fat.fileBytes parent.geometry (parent.shown v) (parent.clusters v ep) (512 * b + i)) ∧
      ∀ r t, (FileSystem.image g ep parent).read b v = .done r t → Sound t (.image g ep parent)) := by
  have hc := h.mounted.2.2.2
  unfold BlockOk BlockCond
  by_cases hin : 512 * b < (v.dirents ep).fileSize
  · have hread := readOk (.image g ep parent) v b h hin
    rw [if_pos hin, if_pos hin]
    unfold ReadOk wp at hread
    unfold wp
    cases hout : (FileSystem.image g ep parent).read b v with
    | done r t =>
      rw [hout] at hread
      rcases hread with ⟨ha, hshows⟩
      refine ⟨hshows, fun _ => ⟨fun i hi => shown_eq_fileBytes hc hin hi, ?_⟩⟩
      intro r' t' heq
      cases heq
      exact h.after ha
    | panic r t =>
      rw [hout] at hread
      refine ⟨iff_of_false id hread, fun _ => ⟨fun i hi => shown_eq_fileBytes hc hin hi, ?_⟩⟩
      intro r' t' heq
      cases heq
  · have hend := getBlockNumber_end (b := b) h
    rw [if_neg hin, if_neg hin]
    refine ⟨?_, fun hin' => absurd hin' hin⟩
    unfold wp at hend ⊢
    cases hout : getBlockNumber parent.read parent.geometry ep b v with
    | done n t =>
      rw [hout] at hend
      exact hend
    | panic r t =>
      rw [hout] at hend
      exact iff_of_false id (Nat.not_lt.2 hend)

/-! ## An image of one block -/

/-- A card with one cluster of data, and a file of 512 bytes in it: the image. -/
def oneBlockVolume : Vol :=
  { Fat.smallVolume 1 Fat.smallFat with
    dirents := fun d => { Fat.smallDirents d with attr := 0, fileSize := if d = 0 then 512 else 0 } }

def oneBlockParent : FileSystem := .root (Fat.smallGeometry 1) 0

lemma oneBlock_chain :
    Fat.FileChain (Fat.smallGeometry 1) (Fat.fatEntry (Fat.smallGeometry 1) oneBlockVolume.disk) 2 [2] :=
  Fat.smallVolume_chain (by decide) (by decide +kernel)

lemma clusters_root (v : Vol) (g : Geometry) (dev d : Nat) :
    (FileSystem.root g dev).clusters v d = Fat.chainOf g v d := rfl

lemma oneBlock_clusters : oneBlockParent.clusters oneBlockVolume 0 = [2] := by
  have hfirst : (oneBlockVolume.dirents 0).firstClus ≠ 0 := by decide
  unfold oneBlockParent
  rw [clusters_root]
  exact Fat.chainOf_eq hfirst oneBlock_chain

lemma owns_of_held_le (h : ∀ d, held v d ≤ 2) : v.pool.Owns (held v) := by
  have hnone : ∀ (d : Nat) (n : Fat.Node), ¬n.Owned (held v d) := by
    intro d n hn
    have hle := h d
    have hlt := hn.2
    cases n <;> simp only [Fat.Node.start] at hlt <;> omega
  exact ⟨fun d n hn => absurd hn (hnone d n), fun d n _ _ hn => absurd hn (hnone d n)⟩

lemma need_of_few (hfew : (parent.clusters v ep).length ≤ 8) :
    (FileSystem.image g ep parent).need v = parent.need v := by
  have hzero : nodes (2 * (parent.clusters v ep).length) = 0 := Fat.nodes_few (by omega)
  simp only [FileSystem.need, hzero, Nat.zero_sub, Nat.add_zero]

lemma need_root {dev : Nat} (hfree : ∀ x < 1024, Bitmap.bit v.inodeBitmap x = false) :
    (FileSystem.root g dev).need v ≤ 1024 :=
  (Nat.le_of_eq (Bitmap.count_of_empty hfree)).trans (Nat.zero_le 1024)

lemma hasChain_first {disk : Nat → Sector} (hmax : (v.dirents d).inodeMaxCluster = 1)
    (hitem : (v.dirents d).inode 0 = (v.dirents d).firstClus)
    (hchain : Fat.FileChain g (Fat.fatEntry g disk) (v.dirents d).firstClus l) : HasChain g { v with disk } l d := by
  have hpos := hchain.length_pos
  constructor
  · exact hchain
  · change 0 < (v.dirents d).inodeMaxCluster
    omega
  · change (v.dirents d).inodeMaxCluster ≤ l.length
    omega
  · change (v.dirents d).inodeMaxCluster ≤ 164872
    omega
  · intro j hj
    change j < (v.dirents d).inodeMaxCluster at hj
    have hj0 : j = 0 := by omega
    subst hj0
    rw [hchain.getElem?_zero, ← hitem]
    rfl

lemma oneBlock_sound : Sound oneBlockVolume (.image (Fat.smallGeometry 1) 0 oneBlockParent) := by
  refine ⟨owns_of_held_le ?_, ?_, ?_, ?_⟩
  · intro d
    by_cases hd : d = 0
    · rw [hd]
      decide
    · have hout : d ∉ oneBlockVolume.files := fun hmem => hd (mem_singleton.1 hmem)
      unfold held
      rw [if_neg hout]
      omega
  · refine ⟨trivial, trivial, by simp [oneBlockParent, FileSystem.images], ?_⟩
    refine ⟨by decide, ?_, ?_, by decide⟩
    · intro _
      exact hasChain_first (by decide) (by decide) oneBlock_chain
    · decide
  · refine ⟨trivial, ?_⟩
    intro c hc
    rw [oneBlock_clusters, mem_singleton] at hc
    subst hc
    change Fat.fatSecOfClus (Fat.smallGeometry 1) 2 < 2 ^ 32
    decide
  · rw [need_of_few (by rw [oneBlock_clusters]; decide)]
    exact need_root fun x _ => BitVec.getLsbD_zero

/-- The image has 512 bytes, so that block 1 is past its end.  `getBlockNumber` gives the first sector of
the file instead of -1, and the read returns the buffer of block 0. -/
theorem block_past_end_is_first_block : Sound oneBlockVolume (.image (Fat.smallGeometry 1) 0 oneBlockParent) ∧
      (oneBlockVolume.dirents 0).fileSize = 512 ∧
      (∃ t, getBlockNumber oneBlockParent.read oneBlockParent.geometry 0 1 oneBlockVolume = .done 2 t) ∧
      (((FileSystem.image (Fat.smallGeometry 1) 0 oneBlockParent).read 1 oneBlockVolume).toOption.map
        fun r => r.1.map fun b => (b.dev, b.blockno)) = some (some (0, 2)) ∧
      (((FileSystem.image (Fat.smallGeometry 1) 0 oneBlockParent).read 0 oneBlockVolume).toOption.map
        fun r => r.1.map fun b => (b.dev, b.blockno)) = some (some (0, 2)) ∧
      ¬BlockOk (Fat.smallGeometry 1) 0 oneBlockParent oneBlockVolume 1 := by
  have hnumber : ((getBlockNumber oneBlockParent.read oneBlockParent.geometry 0 1
      oneBlockVolume).toOption.map fun r => r.1) = some 2 := by
    decide +kernel
  rcases Option.map_eq_some_iff.1 hnumber with ⟨⟨n, t⟩, hout, hn⟩
  obtain rfl : n = 2 := hn
  have hdone := eq_done_of_toOption hout
  refine ⟨oneBlock_sound, rfl, ⟨t, hdone⟩, by decide +kernel, by decide +kernel, ?_⟩
  intro hok
  unfold BlockOk at hok
  rw [if_neg (by decide)] at hok
  have hresult := wp_done hok hdone
  cases hresult

/-! ## An image in an image -/

/-- The sectors of the card: boot sector and FAT, and in clusters 2 to 4 the image, which has a boot
sector, a FAT and one cluster itself. -/
def nestedDisk : Nat → Sector
  | 2 => Fat.smallDisk 1 Fat.smallFat 0
  | 3 => Fat.smallDisk 1 Fat.smallFat 1
  | 4 => fun i => UInt8.ofNat i
  | b => Fat.smallDisk 3 [0x0ffffff8, 0x0fffffff, 3, 4, 0x0fffffff] b

/-- Dirent 0 is the image on the card, dirent 1 the image in it. -/
def nestedDirents (d : Nat) : Fat.Dirent where
  attr := 0
  firstClus := 2
  fileSize := if d = 0 then 1536 else 512
  curClus := 2
  inodeMaxCluster := 1
  clusCnt := 0
  inode _ := 2
  dev := .regular

def nestedVolume : Vol :=
  { Fat.smallVolume 3 [] with disk := nestedDisk, dirents := nestedDirents, files := [0, 1] }

def nestedParent : FileSystem :=
  .image (Fat.smallGeometry 1) 0 (.root (Fat.smallGeometry 3) 0)

lemma nested_clusters : (FileSystem.root (Fat.smallGeometry 3) 0).clusters nestedVolume 0 = [2, 3, 4] ∧
      nestedParent.clusters nestedVolume 1 = [2] := by
  decide +kernel

lemma nested_chain_outer : Fat.FileChain (Fat.smallGeometry 3)
    (Fat.fatEntry (Fat.smallGeometry 3) ((FileSystem.root (Fat.smallGeometry 3) 0).shown nestedVolume))
    2 [2, 3, 4] := by
  have hfat : [2, 3, 4].map (Fat.fatEntry (Fat.smallGeometry 3)
      ((FileSystem.root (Fat.smallGeometry 3) 0).shown nestedVolume)) = [3, 4, 0x0fffffff] := by
    decide +kernel
  simp only [map_cons, map_nil, List.cons.injEq, and_true] at hfat
  rcases hfat with ⟨htwo, hthree, hfour⟩
  refine Chain.link (by decide) (by rw [htwo]; decide) ?_
  rw [htwo]
  refine Chain.link (by decide) (by rw [hthree]; decide) ?_
  rw [hthree]
  exact Chain.last (by decide) (by rw [hfour]; decide)

lemma nested_chain_inner : Fat.FileChain (Fat.smallGeometry 1)
    (Fat.fatEntry (Fat.smallGeometry 1) (nestedParent.shown nestedVolume)) 2 [2] :=
  Chain.last (by decide) (by decide +kernel)

lemma nested_sound : Sound nestedVolume (.image (Fat.smallGeometry 1) 1 nestedParent) := by
  rcases nested_clusters with ⟨houter, hinner⟩
  refine ⟨owns_of_held_le ?_, ⟨⟨trivial, trivial, by simp [FileSystem.images], ?_⟩, ?_, ?_, ?_⟩, ?_, ?_⟩
  · intro d
    unfold held
    split
    · exact Nat.le_refl 2
    · omega
  · refine ⟨by decide, ?_, ?_, by decide⟩
    · intro _
      exact hasChain_first rfl rfl nested_chain_outer
    · decide
  · change 512 * 3 ≤ 1536
    decide
  · decide
  · refine ⟨by decide, ?_, ?_, by decide⟩
    · intro _
      exact hasChain_first rfl rfl nested_chain_inner
    · decide
  · refine ⟨⟨trivial, ?_⟩, ?_⟩
    · intro c hc
      rw [houter] at hc
      have hc' : c = 2 ∨ c = 3 ∨ c = 4 := by simpa using hc
      change Fat.fatSecOfClus (Fat.smallGeometry 3) c < 2 ^ 32
      rcases hc' with rfl | rfl | rfl
      · decide
      · decide
      · decide
    · intro c hc
      rw [hinner, mem_singleton] at hc
      subst hc
      change _ ∧ sectorOf _ _ _ < 2 ^ 31 ∧ sectorOf _ _ _ < 2 ^ 32
      decide
  · rw [need_of_few (by rw [hinner]; decide)]
    unfold nestedParent
    rw [need_of_few (by rw [houter]; decide)]
    exact need_root fun x _ => BitVec.getLsbD_zero

/-- Block 0 of the image in the image is the card's sector 4. -/
theorem image_shows_file_nested :
    (FileSystem.image (Fat.smallGeometry 1) 1 nestedParent).place nestedVolume 0 = some (0, 4) ∧
      BlockOk (Fat.smallGeometry 1) 1 nestedParent nestedVolume 0 := by
  refine ⟨by decide +kernel, (image_shows_file_iff nested_sound).1.2 ?_⟩
  change _ ∧ sectorOf _ _ _ < 2 ^ 31 ∧ _ ∧ sectorOf _ _ _ < 2 ^ 31 ∧ sectorOf _ _ _ < 2 ^ 32
  decide

end Image
end OsRiscv
