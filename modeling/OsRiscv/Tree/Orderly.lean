import OsRiscv.Tree.System

/-!
# Orderly — runs that keep links, mounts and devices apart

What the results about links and lookups need of a tree besides its lists: the text of a link is an absolute path,
a mounted file system has been set up, and a free dirent is neither a mount point nor a device, since `ealloc`
leaves `head` and `dev` as they are.  `Settled` says so of each entry, and orderly actions keep it.
-/

namespace OsRiscv
namespace Tree

open Lib List

/-- What holds of the entry `d`, which is in the tree if `live`. -/
structure Kept (t : Fs) (live : Prop) (d : Dirent) : Prop where
  name : 0 ∉ d.filename
  clean : ¬ live → d.head = none ∧ d.dev = .regular
  mounted : ∀ k, d.head = some k → (t.dirent (.root k)).isDir = true
  link : live → d.isLink = true → ∃ s, readLink d = .ok (slash :: s)

structure Settled (t : Fs) (sh : Shape) : Prop where
  sound : Sound t sh none
  distinct : Distinct t sh
  kept : ∀ q, Kept t (sh.Live q) (t.dirent q)

/-- The volume is fit and holds no links. -/
def Volume.Linkless (vol : Volume) : Prop :=
  ∃ layout d, OnDisk vol layout d vol.rootClus ∧ InOrder vol layout d True vol.rootClus ∧
    NamesDiffer layout d vol.rootClus ∧ NoLinks layout d vol.rootClus

/-- A new link is made where there is nothing or a directory, and its text fits the buffer that reads it. -/
def Linkable (t : Fs) (c : Ctx) (oldFd : Int) (oldPath : Str) (newFd : Int) (newPath : Str) : Prop :=
  (∀ n e via, ename n t c newFd newPath false = .ok (some e, via) → (t.dirent e).isDir = true) ∧
    ∀ n e via buf, ename n t c oldFd oldPath true = .ok (some e, via) → getAbsolutePath t e = some buf →
      buf.length < fat32MaxFilename

/-- Proper actions that make links only by `do_linkat`, where nothing is, and leave them alone otherwise; no device
and no mount point is unlinked, and only a file system that was set up is mounted.  Paths are strings without 0. -/
def Act.Orderly (t : Fs) (a : Act) : Prop :=
  a.Proper t ∧
    match a with
    | .fatInit _ vol => vol.Linkless
    | .create _ _ path type _ => 0 ∉ path ∧ type ≠ .link
    | .unlinkat c fd path => ∀ n e via, ename n t c fd path true = .ok (some e, via) →
        (t.dirent e).head = none ∧ (t.dirent e).dev = .regular
    | .linkat c oldFd oldPath newFd newPath _ => 0 ∉ newPath ∧ Linkable t c oldFd oldPath newFd newPath
    | .mount _ _ k => (t.dirent (.root k)).isDir = true
    | .device _ _ _ => True
    | .write c fd _ _ _ => ∀ e, c.ofile fd = some (some e) → (t.dirent e).isLink = false
    | .trunc c fd => ∀ e, c.ofile fd = some (some e) → (t.dirent e).isLink = false

variable {t t' u : Fs} {sh sh' : Shape} {c : Ctx} {p q e : Ptr} {i k n clus : Nat} {d : Dirent} {fd : Int}
  {path name : Str} {type : FileKind} {vol : Volume} {a : Act} {rest : List Nat} {oldPath newPath : Str}
  {r oldFd newFd : Int} {f : Dirent → Dirent} {o : Option Nat}

/-! ## One entry changes -/

lemma Kept.congr {live live' : Prop} {d' : Dirent} (h : Kept t live d) (hlive : live' ↔ live)
    (hcontent : d'.content = d.content)
    (hdir : ∀ k, (t.dirent (.root k)).isDir = true → (t'.dirent (.root k)).isDir = true) : Kept t' live' d' := by
  have hhead : d'.head = d.head := field_content Dirent.head (fun _ => rfl) hcontent
  have hdev : d'.dev = d.dev := field_content Dirent.dev (fun _ => rfl) hcontent
  have hname : d'.filename = d.filename := filename_congr hcontent
  have hlink : d'.isLink = d.isLink := isLink_congr hcontent
  have htext : readLink d' = readLink d := field_content readLink (fun _ => rfl) hcontent
  refine ⟨?_, ?_, ?_, ?_⟩
  · rw [hname]
    exact h.name
  · rw [hhead, hdev, hlive]
    exact h.clean
  · intro k hk
    rw [hhead] at hk
    exact hdir k (h.mounted k hk)
  · rw [hlive, hlink, htext]
    exact h.link

lemma Settled.change (h : Settled t sh) (e : Ptr) (hs : Sound t' sh' none) (hd : Distinct t' sh')
    (hdir : ∀ k, (t.dirent (.root k)).isDir = true → (t'.dirent (.root k)).isDir = true)
    (hlive : ∀ q, q ≠ e → (sh'.Live q ↔ sh.Live q))
    (hcontent : ∀ q, q ≠ e → (t'.dirent q).content = (t.dirent q).content)
    (he : Kept t' (sh'.Live e) (t'.dirent e)) : Settled t' sh' := by
  refine ⟨hs, hd, fun q => ?_⟩
  by_cases hq : q = e
  · subst hq
    exact he
  · exact (h.kept q).congr (hlive q hq) (hcontent q hq) hdir

lemma Settled.set (h : Settled t sh) (hd : (t.dirent p).SamePlace d) (hkept : Kept t (sh.Live p) d) :
    Settled (t.set p d) sh := by
  have hdir : ∀ k, (t.dirent (.root k)).isDir = true → ((t.set p d).dirent (.root k)).isDir = true := by
    intro k hk
    rwa [field_set Dirent.isDir hd.isDir]
  refine h.change p (h.sound.set hd) (h.distinct.set hd.filename) hdir (fun q _ => .rfl) ?_ ?_
  · intro q hq
    rw [dirent_set_of_ne hq]
  · rw [dirent_set_self]
    exact hkept.congr .rfl rfl hdir

lemma Kept.data {live : Prop} (h : Kept t live d) (hlink : d.isLink = false) (x y z : Nat) (g : Nat → UInt8)
    (hz : z = d.ntRes ∨ z = 0) : Kept t live { d with firstClus := x, fileSize := y, data := g, ntRes := z } := by
  refine ⟨h.name, h.clean, h.mounted, fun _ hz' => ?_⟩
  have hz' : z = dtLnk := by simpa [Dirent.isLink] using hz'
  rcases hz with hz | hz
  · have hlink' : d.isLink = true := by simp [Dirent.isLink, ← hz, hz']
    rw [hlink] at hlink'
    cases hlink'
  · rw [hz] at hz'
    cases hz'

/-! ## The calls -/

lemma Settled.entry {dp : Ptr} {attr : BitVec 8} (h : Settled t sh)
    (hs : Sound (withEntry t dp i name attr clus) (Shape.add { sh with free := rest } dp i) none)
    (hd : Distinct (withEntry t dp i name attr clus) (Shape.add { sh with free := rest } dp i))
    (hname : 0 ∉ name) (hattr : attr ≠ Fat.attrLink) :
    Settled (withEntry t dp i name attr clus) (Shape.add { sh with free := rest } dp i) := by
  have hold := h.kept (.dirent i)
  have hdir : ∀ k, (t.dirent (.root k)).isDir = true →
      ((withEntry t dp i name attr clus).dirent (.root k)).isDir = true := by
    intro k hk
    have hne : Ptr.root k ≠ .dirent i := nofun
    rwa [isDir_congr (content_withEntry_of_ne hne)]
  refine h.change (.dirent i) hs hd hdir (fun q hq => ?_) (fun q hq => content_withEntry_of_ne hq) ?_
  · rw [Shape.live_add]
    simp [hq]
  · -- the fields that `ealloc` does not write are those of a free dirent
    have hnew : Kept t True (initDirent (t.dirent (.dirent i)) dp (t.dirent dp) name attr clus) := by
      refine ⟨fun h0 => hname (mem_of_mem_take h0), fun hn => absurd trivial hn, hold.mounted, fun _ hlink => ?_⟩
      have hres : (initDirent (t.dirent (.dirent i)) dp (t.dirent dp) name attr clus).ntRes = 0 := if_neg hattr
      unfold Dirent.isLink at hlink
      rw [hres] at hlink
      cases hlink
    refine hnew.congr ?_ content_withEntry_self hdir
    rw [Shape.live_add]
    simp

lemma Settled.eremove (h : Settled t sh) (hi : i ∈ sh.kids p) (hnone : sh.kids (.dirent i) = [])
    (hclean : (t.dirent (.dirent i)).head = none ∧ (t.dirent (.dirent i)).dev = .regular)
    (hok : eremove t (.dirent i) = .ok t') : Settled t' (sh.freed p i) := by
  rcases h.sound.toRep.eremove_spec hi with ⟨u, hu, _, hsame⟩
  rw [hok] at hu
  cases hu
  have hdir : ∀ k, (t.dirent (.root k)).isDir = true → (t'.dirent (.root k)).isDir = true := by
    intro k hk
    rwa [isDir_congr (hsame.content _)]
  refine h.change (.dirent i) (h.sound.eremove_sound hi hnone hok) ?_ hdir ?_ (fun q _ => hsame.content q) ?_
  · refine h.distinct.mono (fun q => Shape.kids_remove_sublist) fun q j _ => ?_
    exact filename_congr (hsame.content _)
  · intro q hq
    rw [h.sound.toRep.live_freed hi]
    simp [hq]
  · have hkept := h.kept (.dirent i)
    have hfreed : Kept t False (t.dirent (.dirent i)) := ⟨hkept.name, fun _ => hclean, hkept.mounted, nofun⟩
    refine hfreed.congr ?_ (hsame.content _) hdir
    rw [h.sound.toRep.live_freed hi]
    simp

lemma doUnlinkat_settled (h : Settled t sh) (hc : c.Live sh) {r : Int}
    (hchildless : ∀ n e via, ename n t c fd path true = .ok (some e, via) → (t.dirent e).firstChild = none)
    (hclean : ∀ n e via, ename n t c fd path true = .ok (some e, via) →
      (t.dirent e).head = none ∧ (t.dirent e).dev = .regular)
    (hok : doUnlinkat n t c fd path = .ok (r, t')) : ∃ sh', Settled t' sh' := by
  rcases doUnlinkat_ok h.sound hc hok with ⟨_, _, _, rfl⟩ | ⟨i, p, via, hname, hi, _, hremove⟩
  · exact ⟨sh, h⟩
  · have hnone := h.sound.kids_of_childless (hchildless n _ via hname)
    have hset : Settled (unlinked t (.dirent i)) sh :=
      h.set ⟨rfl, rfl, rfl, rfl, rfl, rfl⟩ ((h.kept _).data (ename_isLink hname) _ _ _ _ (.inr rfl))
    refine ⟨_, hset.eremove hi hnone ?_ hremove⟩
    unfold unlinked
    rw [dirent_set_self]
    exact hclean n _ via hname

/-! ## Links -/

lemma absoluteLoop_head {room : Nat} {s buf : Str} (h : absoluteLoop t n room p s = some buf)
    (hs : s = [] → (t.dirent p).parent ≠ none) (hslash : s ≠ [] → s.head? = some slash) : buf.head? = some slash := by
  induction n generalizing room p s with
  | zero => cases h
  | succ n ih =>
    unfold absoluteLoop at h
    split at h
    · rename_i hparent
      cases h
      exact hslash fun heq => hs heq hparent
    · dsimp only at h
      split at h
      · cases h
      · exact ih h (by simp) (by simp)

lemma getAbsolutePath_slash {buf : Str} (h : getAbsolutePath t p = some buf) : ∃ s, buf = slash :: s := by
  have hhead : buf.head? = some slash := by
    unfold getAbsolutePath at h
    split at h
    · cases h
      rfl
    · rename_i hparent
      refine absoluteLoop_head h (fun _ => ?_) (fun hne => absurd rfl hne)
      rw [hparent]
      nofun
  exact head?_eq_some_iff.1 hhead

/-- A file that has just been created, in a dirent that was no device. -/
structure Dirent.Fresh (d : Dirent) : Prop where
  dev : d.dev = .regular
  isDir : d.isDir = false
  fileSize : d.fileSize = 0
  writable : d.attr &&& Fat.attrReadOnly = 0

lemma fresh_withEntry {dp : Ptr} (hdev : (t.dirent (.dirent i)).dev = .regular) :
    ((withEntry t dp i name (attrOf .file) clus).dirent (.dirent i)).Fresh := by
  have hcontent : ((withEntry t dp i name (attrOf .file) clus).dirent (.dirent i)).content =
      (initDirent (t.dirent (.dirent i)) dp (t.dirent dp) name (attrOf .file) clus).content := content_withEntry_self
  refine ⟨?_, ?_, ?_, ?_⟩
  · exact (field_content Dirent.dev (fun _ => rfl) hcontent).trans hdev
  · exact (isDir_congr hcontent).trans isDir_initDirent
  · exact field_content Dirent.fileSize (fun _ => rfl) hcontent
  · exact (field_content (fun d => d.attr &&& Fat.attrReadOnly) (fun _ => rfl) hcontent).trans
      (by decide : ((0 : BitVec 8) ||| Fat.attrArchive) &&& Fat.attrReadOnly = 0)

namespace Dirent.Fresh

variable {buf : Str} (h : d.Fresh) (hbuf : buf.length < fat32MaxPath)
include h hbuf

lemma ewrite_eq : ewrite d 0 (buf ++ [0]) clus = ((buf ++ [0]).length, { d with
    firstClus := if d.firstClus = 0 then clus else d.firstClus
    data := overlay d.data 0 (buf ++ [0])
    fileSize := (buf ++ [0]).length }) := by
  have hfit : buf.length + 1 ≤ 260 := hbuf
  have hnot : ¬ ((0 + (buf ++ [0]).length) % 2 ^ 32 < 0 ∨ 0 + (buf ++ [0]).length > 0xffffffff ∨
      d.attr &&& Fat.attrReadOnly ≠ 0) := by
    rw [length_append, h.writable]
    simp only [length_singleton, ne_eq, not_true, or_false]
    omega
  have hpos : (buf ++ [0]).length > 0 := by simp
  unfold ewrite
  rw [if_neg (by rw [h.dev]; nofun), if_neg hnot, h.fileSize, if_pos hpos]
  simp

/-- What `jumpToLinkDirent` reads after `do_linkat` has written to the file. -/
theorem eread_linked : eread { (ewrite d 0 (buf ++ [0]) clus).2 with ntRes := dtLnk } 0 fat32MaxFilename =
      (buf ++ [0]).take fat32MaxFilename := by
  rw [h.ewrite_eq hbuf]
  unfold eread
  dsimp only
  rw [h.dev]
  rw [if_neg]
  · exact slice_overlay_take
  · rintro (hoff | hoff | hdir)
    · omega
    · omega
    · have hdir' : d.isDir = true := hdir
      rw [h.isDir] at hdir'
      cases hdir'

omit hbuf in
lemma readLink_linked (hlen : buf.length < fat32MaxFilename) :
    readLink { (ewrite d 0 (buf ++ [0]) clus).2 with ntRes := dtLnk } = .ok (buf.takeWhile (· ≠ 0)) := by
  have hfit : buf.length < 255 := hlen
  have hall : (buf ++ [0]).take fat32MaxFilename = buf ++ [0] := by
    refine take_of_length_le ?_
    simp only [length_append, length_singleton, fat32MaxFilename]
    omega
  unfold readLink
  rw [h.eread_linked (by simp only [fat32MaxPath]; omega), hall, if_pos (by simp)]
  rw [takeWhile_append]
  split
  · rename_i hwhole
    rw [(takeWhile_sublist _).eq_of_length hwhole]
    simp
  · rfl

lemma readLink_long (hlen : fat32MaxFilename ≤ buf.length) (hzero : 0 ∉ buf) :
    readLink { (ewrite d 0 (buf ++ [0]) clus).2 with ntRes := dtLnk } = .error .undefined := by
  unfold readLink
  rw [h.eread_linked hbuf, take_append_of_le_length hlen, if_neg]
  exact fun h0 => hzero (mem_of_mem_take h0)

end Dirent.Fresh

/-- The cases of `do_linkat` where there is nothing or a directory at `new`. -/
theorem doLinkat_new (h : Sound t sh none) (hc : c.Live sh)
    (hnew : ∀ n e via, ename n t c newFd newPath false = .ok (some e, via) → (t.dirent e).isDir = true)
    (hok : doLinkat n t c oldFd oldPath newFd newPath clus = .ok (r, t')) : (r = -1 ∧ t' = t) ∨
      ∃ e via dp name i rest, ename n t c oldFd oldPath true = .ok (some e, via) ∧
        enameparent n t c newFd newPath = .ok (some dp, name) ∧ sh.Live dp ∧ (t.dirent dp).isDir = true ∧
        named t sh dp name = none ∧ sh.free = i :: rest ∧
        ∃ u, u = withEntry t dp i name (attrOf .file) clus ∧ Sound u (Shape.add { sh with free := rest } dp i) none ∧
          (Distinct t sh → Distinct u (Shape.add { sh with free := rest } dp i)) ∧
          ((getAbsolutePath u e = none ∧ r = -1 ∧ eremove u (.dirent i) = .ok t') ∨
            ∃ buf, getAbsolutePath u e = some buf ∧
              (((ewrite (u.dirent (.dirent i)) 0 (buf ++ [0]) clus).1 ≠ buf.length + 1 ∧ r = -1 ∧
                  eremove (u.set (.dirent i) (ewrite (u.dirent (.dirent i)) 0 (buf ++ [0]) clus).2) (.dirent i) = .ok t') ∨
                ((ewrite (u.dirent (.dirent i)) 0 (buf ++ [0]) clus).1 = buf.length + 1 ∧ r = 0 ∧
                  t' = u.set (.dirent i)
                    { (ewrite (u.dirent (.dirent i)) 0 (buf ++ [0]) clus).2 with ntRes := dtLnk }))) := by
  rcases doLinkat_ok hok with ⟨_, _, hr, ht⟩ | ⟨e, via, target, u, hold, hcreate, hrest⟩
  · exact .inl ⟨hr, ht⟩
  · rcases create_ok h hc hcreate with ⟨_, _, rfl, rfl⟩ |
      ⟨dp, name, hparent, hdp, hdir, ⟨ep, hfound, rfl, hr⟩ | ⟨hnone, i, rest, hfree, rfl, hs', hdist, rfl⟩⟩
    · rcases hrest with ⟨_, hr, ht⟩ | ⟨q, hq, _⟩
      · exact .inl ⟨hr, ht⟩
      · cases hq
    · -- an entry that exists is a directory, for which `create` returns NULL
      rcases ename_of_enameparent hparent ((dirlookup_ok_iff h.toRep).2 ⟨hdir, hfound⟩) with ⟨via', hname⟩
      rw [if_pos (.inr ⟨rfl, hnew n ep via' hname⟩)] at hr
      subst hr
      rcases hrest with ⟨_, hr, ht⟩ | ⟨q, hq, _⟩
      · exact .inl ⟨hr, ht⟩
      · cases hq
    · rcases hrest with ⟨hq, _⟩ | ⟨q, hq, hlink⟩
      · cases hq
      · cases hq
        exact .inr ⟨e, via, dp, name, i, rest, hold, hparent, hdp, hdir, hnone, hfree, _, rfl, hs', hdist, hlink⟩

lemma Sound.parent_live (h : Sound t sh o) (hp : sh.Live p) (hq : (t.dirent p).parent = some q) :
    sh.Live q := by
  cases p with
  | root k =>
    rw [h.rootless k] at hq
    cases hq
  | dirent j =>
    rcases hp with ⟨r, hr⟩
    rw [h.parent r j hr] at hq
    cases hq
    exact h.inner hr

lemma Sound.getAbsolutePath_congr (h : Sound t sh o)
    (hcontent : ∀ q, sh.Live q → (t'.dirent q).content = (t.dirent q).content) (hp : sh.Live p) :
    getAbsolutePath t' p = getAbsolutePath t p := by
  have hparent : ∀ q, sh.Live q → (t'.dirent q).parent = (t.dirent q).parent := fun q hq =>
    field_content Dirent.parent (fun _ => rfl) (hcontent q hq)
  have hloop : ∀ n room s p, sh.Live p → absoluteLoop t' n room p s = absoluteLoop t n room p s := by
    intro n
    induction n with
    | zero => exact fun _ _ _ _ => rfl
    | succ n ih =>
      intro room s p hp
      unfold absoluteLoop
      rw [hparent p hp, filename_congr (hcontent p hp)]
      cases hdp : (t.dirent p).parent with
      | none => rfl
      | some dp =>
        dsimp only
        split
        · rfl
        · exact ih _ _ dp (h.parent_live hp hdp)
  unfold getAbsolutePath
  rw [hparent p hp]
  cases (t.dirent p).parent with
  | none => rfl
  | some dp => exact hloop _ _ _ p hp

lemma doLinkat_settled (h : Settled t sh) (hc : c.Live sh)
    (hpath : 0 ∉ newPath) (hlinkable : Linkable t c oldFd oldPath newFd newPath)
    (hok : doLinkat n t c oldFd oldPath newFd newPath clus = .ok (r, t')) : ∃ sh', Settled t' sh' := by
  rcases doLinkat_new h.sound hc hlinkable.1 hok with ⟨_, rfl⟩ |
    ⟨e, via, dp, name, i, rest, hold, hparent, hdp, _, _, hfree, u, hu, hs, hdist, hlink⟩
  · exact ⟨sh, h⟩
  · have hname : 0 ∉ name := fun h0 => hpath (elemsLoop_subset (enameparent_name hparent) h0)
    have hset : Settled u (Shape.add { sh with free := rest } dp i) := by
      subst hu
      exact h.entry hs (hdist h.distinct) hname (by decide)
    have hfreed : ¬ sh.Live (.dirent i) := by
      rintro ⟨q, hq⟩
      exact h.sound.apart q i hq (by simp [hfree])
    have hi : i ∈ (Shape.add { sh with free := rest } dp i).kids dp := by simp
    have hne : Ptr.dirent i ≠ dp := by
      rintro rfl
      exact hfreed hdp
    have hnone : (Shape.add { sh with free := rest } dp i).kids (.dirent i) = [] := by
      rw [Shape.kids_add_of_ne hne]
      exact h.sound.kids_free (by simp [hfree])
    -- the new entry is no mount point and no device, as its dirent was free
    have hclean : (u.dirent (.dirent i)).head = none ∧ (u.dirent (.dirent i)).dev = .regular := by
      subst hu
      rw [field_content Dirent.head (fun _ => rfl) content_withEntry_self,
        field_content Dirent.dev (fun _ => rfl) content_withEntry_self]
      exact (h.kept _).clean hfreed
    rcases hlink with ⟨_, _, hremove⟩ | ⟨buf, hbuf, ⟨_, _, hremove⟩ | ⟨_, _, rfl⟩⟩
    · exact ⟨_, hset.eremove hi hnone hclean hremove⟩
    · rcases ewrite_eq (u.dirent (.dirent i)) 0 (buf ++ [0]) clus with ⟨x, y, g, hwrite⟩
      have hplain : (u.dirent (.dirent i)).isLink = false := by
        subst hu
        rw [isLink_congr content_withEntry_self]
        rfl
      have hset' := hset.set ewrite_samePlace (by
        rw [hwrite]
        exact (hset.kept _).data hplain x y _ g (.inl rfl))
      refine ⟨_, hset'.eremove hi hnone ?_ hremove⟩
      rw [dirent_set_self, hwrite]
      exact hclean
    · refine ⟨_, hset.set (linked_samePlace buf) ?_⟩
      rcases ewrite_eq (u.dirent (.dirent i)) 0 (buf ++ [0]) clus with ⟨x, y, g, hwrite⟩
      have hkept := hset.kept (.dirent i)
      rw [hwrite]
      refine ⟨hkept.name, hkept.clean, hkept.mounted, fun _ _ => ?_⟩
      rw [← hwrite]
      -- the text is the absolute path of the entry, which is in the tree
      have hlive : sh.Live e := ((h.sound.closed hc).ename hold).1 e rfl
      have hbuf' : getAbsolutePath t e = some buf := by
        rw [← hbuf]
        refine (h.sound.getAbsolutePath_congr (fun q hq => ?_) hlive).symm
        subst hu
        exact content_withEntry_of_ne fun heq => hfreed (heq ▸ hq)
      have hfresh : (u.dirent (.dirent i)).Fresh := by
        rw [hu]
        exact fresh_withEntry ((h.kept _).clean hfreed).2
      rcases getAbsolutePath_slash hbuf' with ⟨s, rfl⟩
      refine ⟨s.takeWhile (· ≠ 0), ?_⟩
      rw [hfresh.readLink_linked (hlinkable.2 n e via _ hold hbuf')]
      rfl

/-! ## Steps and runs -/

lemma create_settled (h : Settled t sh) (hc : c.Live sh) {r : Option Ptr} (hpath : 0 ∉ path) (htype : type ≠ .link)
    (hok : create n t c fd path type clus = .ok (r, t')) : ∃ sh', Settled t' sh' := by
  rcases create_ok h.sound hc hok with ⟨_, _, _, rfl⟩ |
    ⟨dp, name, hparent, _, _, ⟨_, _, rfl, _⟩ | ⟨_, i, rest, hfree, rfl, hs, hdist, _⟩⟩
  · exact ⟨sh, h⟩
  · exact ⟨sh, h⟩
  · have hname : 0 ∉ name := fun h0 => hpath (elemsLoop_subset (enameparent_name hparent) h0)
    refine ⟨_, h.entry hs (hdist h.distinct) hname ?_⟩
    cases type with
    | link => exact absurd rfl htype
    | dir => decide
    | file => decide
    | char => decide
    | other => decide

lemma fatInit_settled (h : Settled t sh) (hfresh : (t.dirent (.root k)).isDir = false) (hvol : vol.Linkless)
    (hok : fatInit n vol k t = .ok t') : ∃ sh', Settled t' sh' := by
  rcases hvol with ⟨layout, depth, hon, horder, hdiff, hlinks⟩
  rcases h.sound.setRoot vol hfresh with ⟨hs, hnil⟩
  set u := t.set (.root k) (rootDirent vol k) with hu
  have hself : u.dirent (.root k) = rootDirent vol k := dirent_set_self
  have hother : ∀ q, q ≠ .root k → u.dirent q = t.dirent q := fun q hq => dirent_set_of_ne hq
  rcases loadDirents_result hs (p := .root k) trivial (by rw [hself]; exact isDir_rootDirent)
    (by rw [hself]; exact hon) hok with ⟨sh', hres⟩
  have hroot : (Ptr.root k = .root k) = True := by simp
  have hnames := hres.names
  have hnew := hres.links
  rw [hroot, hself] at hnames hnew
  refine ⟨sh', hres.sound, hnames horder hdiff ?_ hnil, fun q => ⟨?_, ?_, ?_, ?_⟩⟩
  · exact h.distinct.mono (fun _ => .refl _) fun _ _ _ => by rw [hother _ (by nofun)]
  · refine loadDirents_zeroFree ?_ hok q
    have hzero : ZeroFree t := fun q => (h.kept q).name
    exact hzero.set (by decide : (0 : UInt8) ∉ [slash])
  · intro hq
    have hdead : ¬ sh.Live q := fun hlive => hq (hres.grown.live hs hlive)
    have hqk : q ≠ .root k := by
      rintro rfl
      exact hdead trivial
    rw [hres.grown.head, hres.grown.dev, hother q hqk]
    exact (h.kept q).clean hdead
  · intro k' hk'
    rw [hres.grown.head] at hk'
    rw [isDir_congr (hres.grown.content (.root k') trivial)]
    by_cases hkk : Ptr.root k' = .root k
    · rw [hkk, hself]
      exact isDir_rootDirent
    · rw [hother _ hkk]
      by_cases hqk : q = .root k
      · subst hqk
        rw [hself] at hk'
        cases hk'
      · rw [hother q hqk] at hk'
        exact (h.kept q).mounted k' hk'
  · intro hlive' hlink
    by_cases hlive : sh.Live q
    · -- what was in the tree has not changed, and the root is no link
      have hcontent := hres.grown.content q hlive
      rw [isLink_congr hcontent] at hlink
      rw [field_content readLink (fun _ => rfl) hcontent]
      by_cases hqk : q = .root k
      · subst hqk
        rw [hself] at hlink
        exact absurd hlink (by decide : ¬ ((0 : Nat) = dtLnk : Bool) = true)
      · rw [hother q hqk] at hlink ⊢
        exact (h.kept q).link hlive hlink
    · rw [hnew horder hlinks q hlive' hlive] at hlink
      cases hlink

lemma update_settled (h : Settled t sh) (hc : c.Live sh)
    (hplace : ∀ d : Dirent, d.SamePlace (f d)) (hres : ∀ d, (f d).ntRes = d.ntRes)
    (hhead : ∀ d k, (f d).head = some k → d.head = some k ∨ (t.dirent (.root k)).isDir = true)
    (hok : update n t c path f = .ok t') : ∃ sh', Settled t' sh' := by
  rcases bind_eq_ok.1 hok with ⟨⟨entry, via⟩, hname, hset⟩
  cases entry with
  | none =>
    cases hset
    exact ⟨sh, h⟩
  | some e =>
    cases hset
    have hkept := h.kept e
    have hlive : sh.Live e := ((h.sound.closed hc).ename hname).1 e rfl
    refine ⟨sh, h.set (hplace _) ⟨?_, fun hn => absurd hlive hn, fun k hk => ?_, fun _ hlink => ?_⟩⟩
    · rw [(hplace _).filename]
      exact hkept.name
    · rcases hhead _ k hk with hk | hk
      · exact hkept.mounted k hk
      · exact hk
    · have hnot := ename_isLink hname
      unfold Dirent.isLink at hlink hnot
      rw [hres, hnot] at hlink
      cases hlink

lemma updateFile_settled {fd : Nat} (h : Settled t sh)
    (hlink : ∀ e, c.ofile fd = some (some e) → (t.dirent e).isLink = false)
    (hf : ∀ d, ∃ x y g, f d = { d with firstClus := x, fileSize := y, data := g }) :
    Settled (updateFile t c fd f) sh := by
  unfold updateFile
  split
  · rename_i e hfile
    rcases hf (t.dirent e) with ⟨x, y, g, heq⟩
    rw [heq]
    refine h.set ⟨rfl, rfl, rfl, rfl, rfl, rfl⟩ ?_
    exact (h.kept e).data (hlink e hfile) x y _ g (.inl rfl)
  · exact h

lemma step_settled (h : ∃ sh, Settled t sh) (horderly : a.Orderly t) (hstep : Step t a t') :
    ∃ sh', Settled t' sh' := by
  rcases h with ⟨sh, h⟩
  rcases horderly with ⟨hproper, hmore⟩
  rcases hstep with ⟨n, hok⟩
  have hctx : ∀ {c : Ctx}, c.InTree t → c.Live sh := h.sound.toRep.ctx_inTree_iff.1
  cases a with
  | fatInit k vol => exact fatInit_settled h hproper.1 hmore hok
  | create c fd path type clus =>
    rcases bind_eq_ok.1 hok with ⟨⟨r, u⟩, hcreate, hu⟩
    cases hu
    exact create_settled h (hctx hproper) hmore.1 hmore.2 hcreate
  | unlinkat c fd path =>
    rcases bind_eq_ok.1 hok with ⟨⟨r, u⟩, hunlink, hu⟩
    cases hu
    exact doUnlinkat_settled h (hctx hproper.1) hproper.2 hmore hunlink
  | linkat c oldFd oldPath newFd newPath clus =>
    rcases bind_eq_ok.1 hok with ⟨⟨r, u⟩, hlink, hu⟩
    cases hu
    exact doLinkat_settled h (hctx hproper) hmore.1 hmore.2 hlink
  | mount c path k =>
    refine update_settled h (hctx hproper) (f := fun d => { d with head := some k }) ?_ (fun _ => rfl) ?_ hok
    · exact fun _ => ⟨rfl, rfl, rfl, rfl, rfl, rfl⟩
    · intro d k' hk'
      cases hk'
      exact .inr hmore
  | device c path dev =>
    refine update_settled h (hctx hproper) (f := fun d => { d with dev := dev }) ?_ (fun _ => rfl) ?_ hok
    · exact fun _ => ⟨rfl, rfl, rfl, rfl, rfl, rfl⟩
    · exact fun d k' hk' => .inl hk'
  | write c fd off bytes clus =>
    cases hok
    exact ⟨sh, updateFile_settled h hmore fun d => ewrite_eq d off bytes clus⟩
  | trunc c fd =>
    cases hok
    exact ⟨sh, updateFile_settled h hmore fun d => ⟨0, 0, fun _ => 0, rfl⟩⟩

lemma settled_boot : Settled boot bootShape := by
  refine ⟨sound_boot, distinct_boot, fun q => ?_⟩
  have hkept : Kept boot (bootShape.Live q) zeroDirent :=
    ⟨by decide, fun _ => ⟨rfl, rfl⟩, nofun, fun _ hlink => absurd hlink (by decide)⟩
  cases q with
  | dirent i => exact hkept.congr .rfl rfl fun _ hk => hk
  | root k => exact hkept

/-- Runs of orderly actions. -/
abbrev OrderlyRun (as : List Act) (t : Fs) : Prop := Run (fun t a t' => a.Orderly t ∧ Step t a t') boot as t

lemma OrderlyRun.settled {as : List Act} (hrun : OrderlyRun as t) : ∃ sh, Settled t sh :=
  hrun.invariant ⟨bootShape, settled_boot⟩ fun _ _ _ h hstep => step_settled h hstep.1 hstep.2

end Tree
end OsRiscv
