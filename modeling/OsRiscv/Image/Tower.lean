import OsRiscv.Image.Model

/-!
# Tower — well-formed towers of file systems, and what a read may change

A read moves the cursors of the image files in the tower and may extend their inode caches.  `Touched`
says that it does nothing else: where the blocks are, and what is in them, stays as it was.
-/

namespace OsRiscv
namespace Image

open Lib List
open Fat (Vol Geometry Sector HasChain held nodes)

variable {fs parent : FileSystem} {v t u : Vol} {d e : Nat} {S S' : List Nat} {disk : Nat → Sector} {g : Geometry}
  {l : List Nat} {clus m : Nat} {p : Fat.Pool}

namespace FileSystem

/-- The volume lies within its image. -/
def Fits (v : Vol) : FileSystem → Prop
  | root _ _ | device _ _ => True
  | image g ep _ => 512 * g.totSec ≤ (v.dirents ep).fileSize

/-- A file of `fs` has a well-formed chain that covers its bytes, and its inode cache is the beginning
of it. -/
structure Covered (fs : FileSystem) (v : Vol) (d : Nat) : Prop where
  file : d ∈ v.files
  chain : (v.dirents d).firstClus ≠ 0 →
    HasChain fs.geometry { v with disk := fs.shown v } (fs.clusters v d) d
  size : (v.dirents d).fileSize ≤ (fs.clusters v d).length * fs.geometry.bytsPerClus
  size_lt : (v.dirents d).fileSize < 2 ^ 32

def Mounted (v : Vol) : FileSystem → Prop
  | root _ _ | device _ _ => True
  | image _ ep parent => parent.Mounted v ∧ parent.Fits v ∧ ep ∉ parent.images ∧ parent.Covered v ep

/-- The translation of block `b` stays within the inode cache and within the positive numbers. -/
def Reach (v : Vol) : FileSystem → Nat → Prop
  | root _ _, b | device _ _, b => b < 2 ^ 32
  | image _ ep parent, b =>
    512 * b / parent.geometry.bytsPerClus < 164872 ∧
    sectorOf parent.geometry (parent.clusters v ep) b < 2 ^ 31 ∧
    parent.Reach v (sectorOf parent.geometry (parent.clusters v ep) b)

/-- The FAT entries of the image files can be read. -/
def Readable (v : Vol) : FileSystem → Prop
  | root _ _ | device _ _ => True
  | image _ ep parent => parent.Readable v ∧
      ∀ c ∈ parent.clusters v ep, parent.Reach v (Fat.fatSecOfClus parent.geometry c)

/-- How many inodes are in use when the caches of all image files are complete. -/
def need (v : Vol) : FileSystem → Nat
  | root _ _ | device _ _ => v.pool.count
  | image _ ep parent => parent.need v +
      (nodes (2 * (parent.clusters v ep).length) - nodes (2 * (v.dirents ep).inodeMaxCluster))

lemma count_le_need : ∀ fs : FileSystem, v.pool.count ≤ fs.need v
  | root _ _ | device _ _ => Nat.le_refl _
  | image _ _ parent => (count_le_need parent).trans (Nat.le_add_right _ _)

end FileSystem

open FileSystem

/-! ## Reads change nothing but cursors and caches -/

structure Touched (S : List Nat) (v t : Vol) : Prop where
  disk : t.disk = v.disk
  files : t.files = v.files
  first : ∀ e, (t.dirents e).firstClus = (v.dirents e).firstClus
  size : ∀ e, (t.dirents e).fileSize = (v.dirents e).fileSize
  others : ∀ e ∉ S, t.dirents e = { v.dirents e with inode := (t.dirents e).inode }
  owns : t.pool.Owns (held t)
  slots : ∀ e ∈ v.files, ∀ j < (v.dirents e).inodeMaxCluster, j < 164872 →
    t.pool.slot e j = v.pool.slot e j
  max : ∀ e, (v.dirents e).inodeMaxCluster ≤ (t.dirents e).inodeMaxCluster

lemma Touched.refl (h : v.pool.Owns (held v)) : Touched S v v :=
  ⟨rfl, rfl, fun _ => rfl, fun _ => rfl, fun _ _ => rfl, h, fun _ _ _ _ _ => rfl, fun _ => Nat.le_refl _⟩

lemma Touched.mono (h : Touched S v t) (hsub : ∀ e ∈ S, e ∈ S') : Touched S' v t :=
  ⟨h.disk, h.files, h.first, h.size, fun e he => h.others e fun hmem => he (hsub e hmem), h.owns, h.slots,
    h.max⟩

lemma Touched.trans (h : Touched S v t) (h' : Touched S t u) : Touched S v u where
  disk := h'.disk.trans h.disk
  files := h'.files.trans h.files
  first e := (h'.first e).trans (h.first e)
  size e := (h'.size e).trans (h.size e)
  others e he := by
    rw [h'.others e he, h.others e he]
  owns := h'.owns
  slots e he j hj htop := by
    have hj' := Nat.lt_of_lt_of_le hj (h.max e)
    rw [h'.slots e (by rw [h.files]; exact he) j hj' htop, h.slots e he j hj htop]
  max e := (h.max e).trans (h'.max e)

namespace Touched

section

variable (h : Touched S v t)
include h

lemma place : ∀ fs : FileSystem, fs.place t = fs.place v
  | .root _ _ => rfl
  | .device _ _ => rfl
  | .image g ep parent => by
      have hparent := place parent
      funext b
      have hcontents : contents t (parent.place t) = contents v (parent.place v) := by
        unfold contents
        rw [hparent, h.disk]
      have hchain : chain parent.geometry (contents t (parent.place t)) t ep =
          chain parent.geometry (contents v (parent.place v)) v ep := by
        rw [hcontents]
        unfold chain Fat.chainOf
        simp only [h.first]
      simp only [FileSystem.place]
      rw [h.size, hchain, hparent]

lemma shown (fs : FileSystem) : fs.shown t = fs.shown v := by
  unfold FileSystem.shown contents
  rw [h.place, h.disk]

lemma clusters (fs : FileSystem) (d : Nat) : fs.clusters t d = fs.clusters v d := by
  unfold FileSystem.clusters chain Fat.chainOf
  rw [h.shown]
  simp only [h.first]

lemma reach : ∀ (fs : FileSystem) (b : Nat), fs.Reach t b ↔ fs.Reach v b
  | .root _ _, _ => Iff.rfl
  | .device _ _, _ => Iff.rfl
  | .image g ep parent, b => by
      simp only [Reach, h.clusters]
      rw [reach parent]

lemma readable : ∀ fs : FileSystem, fs.Readable v → fs.Readable t
  | .root _ _, _ => trivial
  | .device _ _, _ => trivial
  | .image g ep parent, hr => by
      refine ⟨readable parent hr.1, ?_⟩
      intro c hc
      rw [h.clusters] at hc
      exact (h.reach parent _).2 (hr.2 c hc)

lemma hasChain (he : e ∉ S) (hfile : e ∈ v.files) (hc : HasChain g { v with disk } l e) :
    HasChain g { t with disk } l e := by
  have hmax : (t.dirents e).inodeMaxCluster = (v.dirents e).inodeMaxCluster := by rw [h.others e he]
  exact hc.frame (h.first e) hmax (fun _ _ _ => rfl) fun j hj =>
    h.slots e hfile j hj (Nat.lt_of_lt_of_le hj hc.le_top)

lemma covered (he : e ∉ S) (hc : fs.Covered v e) : fs.Covered t e := by
  refine ⟨?_, ?_, ?_, ?_⟩
  · rw [h.files]
    exact hc.file
  · intro hfirst
    rw [h.first] at hfirst
    rw [h.shown, h.clusters]
    exact h.hasChain he hc.file (hc.chain hfirst)
  · rw [h.size, h.clusters]
    exact hc.size
  · rw [h.size]
    exact hc.size_lt

lemma fits (hf : fs.Fits v) : fs.Fits t := by
  cases fs with
  | root g dev => trivial
  | device g major => trivial
  | image g ep parent =>
    change 512 * g.totSec ≤ (t.dirents ep).fileSize
    rw [h.size]
    exact hf

lemma mounted : ∀ fs : FileSystem, (∀ e ∈ fs.images, e ∉ S) → fs.Mounted v → fs.Mounted t
  | .root _ _, _, _ => trivial
  | .device _ _, _, _ => trivial
  | .image _ ep parent, hout, ⟨hm, hf, hne, hc⟩ =>
    ⟨mounted parent (fun e he => hout e (mem_cons_of_mem _ he)) hm, h.fits hf, hne,
      h.covered (hout ep mem_cons_self) hc⟩

/-- The caches of the image files are as they were. -/
lemma need : ∀ fs : FileSystem, (∀ e ∈ fs.images, e ∉ S) → fs.need t + v.pool.count = fs.need v + t.pool.count
  | .root _ _, _ | .device _ _, _ => Nat.add_comm _ _
  | .image _ ep parent, hout => by
      have hparent := need parent fun e he => hout e (mem_cons_of_mem _ he)
      have hmax : (t.dirents ep).inodeMaxCluster = (v.dirents ep).inodeMaxCluster := by
        rw [h.others ep (hout ep mem_cons_self)]
      simp only [FileSystem.need, h.clusters, hmax]
      omega

end

end Touched

/-! ## The steps of `reloc_clus` -/

lemma touched_cursor {clus cnt : Nat} (h : v.pool.Owns (held v)) : Touched [d] v (v.cursor d clus cnt) := by
  have hs : Fat.SameFiles v (v.cursor d clus cnt) := Fat.cursor_sameFiles
  constructor
  · rfl
  · rfl
  · exact hs.firstClus
  · exact Lib.apply_update_of_eq
  · intro e he
    have hne : e ≠ d := fun heq => he (mem_singleton.2 heq)
    simp [Fat.Vol.cursor, hne]
  · rw [hs.pool, hs.held]
    exact h
  · intro e _ j _ _
    rw [hs.pool]
  · intro e
    rw [hs.max]

lemma touched_advanced (hd : d ∈ v.files)
    (hmax : (v.dirents d).inodeMaxCluster = m) (hput : v.pool.Put (held v) d m clus p) :
    Touched [d] v ((v.advanced d clus m).withPool p) := by
  constructor
  · rfl
  · rfl
  · intro e
    by_cases he : e = d
    · rw [he, Fat.advanced_self]
    · rw [Fat.advanced_of_ne he]
  · intro e
    by_cases he : e = d
    · rw [he, Fat.advanced_self]
    · rw [Fat.advanced_of_ne he]
  · intro e he
    have hne : e ≠ d := fun heq => he (mem_singleton.2 heq)
    rw [Fat.advanced_of_ne hne]
  · rw [Fat.advanced_held hd]
    exact hput.owns
  · intro e hfile j hj htop
    refine hput.old e j htop ?_
    unfold held
    rw [if_pos hfile]
    omega
  · intro e
    by_cases he : e = d
    · rw [he, Fat.advanced_self]
      exact hmax ▸ Nat.le_succ m
    · rw [Fat.advanced_of_ne he]

lemma hasChain_advanced (hd : d ∈ v.files) (hmax : (v.dirents d).inodeMaxCluster = m)
    (hput : v.pool.Put (held v) d m clus p) (hm : m < 164872) (hnew : l[m]? = some clus)
    (hc : HasChain g { v with disk } l d) : HasChain g { (v.advanced d clus m).withPool p with disk } l d := by
  have ht := touched_advanced hd hmax hput
  have hcount : (((v.advanced d clus m).withPool p).dirents d).inodeMaxCluster = m + 1 := by
    rw [Fat.advanced_self]
  subst hmax
  refine hc.next rfl (ht.first d) hcount hm (fun j hj => ?_)
    (hnew.trans (congrArg some hput.new.symm))
  exact ht.slots d hd j hj (Nat.lt_trans hj hm)

end Image
end OsRiscv
