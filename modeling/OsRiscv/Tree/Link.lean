import OsRiscv.Tree.Unlink

/-!
# Link — where a link made by `do_linkat` leads

The text of the new link is the absolute path of the entry within its own file system.  It is looked up from the
root of the root file system, so the link leads to the entry if that path names the entry there, and if the text
with its final 0 fits the buffer of `jumpToLinkDirent`, which is five bytes shorter than the one it was written
from.  A lookup of the text that comes to the new link itself never ends.
-/

namespace OsRiscv
namespace Tree

open Lib List

/-- The same entries with the same contents are in the tree. -/
def SameTree (t t' : Fs) : Prop :=
  ∀ q, (t'.InTree q ↔ t.InTree q) ∧ (t.InTree q → (t'.dirent q).content = (t.dirent q).content ∧
    ∀ l, Linked t'.next (t'.dirent q).firstChild l ↔ Linked t.next (t.dirent q).firstChild l)

/-- What `do_linkat` with the result `r` is for: on success `new` was free and leads to what `old` leads to, and the
entries that were there have not changed; on failure nothing has. -/
structure Links (t : Fs) (c : Ctx) (oldFd : Int) (oldPath : Str) (newFd : Int) (newPath : Str) (r : Int) (t' : Fs) :
    Prop where
  free : r = 0 → ∃ n via, ename n t c newFd newPath false = .ok (none, via)
  same : r = 0 → ∃ n x via₁ via₂, ename n t' c newFd newPath true = .ok (some x, via₁) ∧
    ename n t' c oldFd oldPath true = .ok (some x, via₂)
  unchanged : r = 0 → ∀ q, t.InTree q → t'.InTree q ∧ (t'.dirent q).content = (t.dirent q).content
  failed : r = -1 → SameTree t t'

/-- `new` cannot be created, as there is no directory for it or it is a directory itself; or there is nothing, and
the absolute path `buf` of the entry `e` fits the buffer and leads to `e`. -/
def LinkLeads (t : Fs) (c : Ctx) (e : Ptr) (buf : Str) (newFd : Int) (newPath : Str) : Prop :=
  (∃ n name, enameparent n t c newFd newPath = .ok (none, name)) ∨
  (∃ n x via, ename n t c newFd newPath false = .ok (some x, via) ∧ (t.dirent x).isDir = true) ∨
  ((∃ n via, ename n t c newFd newPath false = .ok (none, via)) ∧ buf.length < fat32MaxFilename ∧
    ∃ n via, ename n t c atFdcwd buf true = .ok (some e, via))

/-- `t'` is `t` with the new child `i` of `dp` under the name `name`. -/
structure Added (t : Fs) (sh : Shape) (dp : Ptr) (name : Str) (i : Nat) (t' : Fs) (sh' : Shape) : Prop where
  sound : Sound t sh none
  rep' : Rep t' sh'
  distinct' : Distinct t' sh'
  kids : ∀ q, sh'.kids q = if q = dp then i :: sh.kids q else sh.kids q
  dead : ¬ sh.Live (.dirent i)
  live : sh.Live dp
  isDir : (t.dirent dp).isDir = true
  free : named t sh dp name = none
  root : t'.rootFileSystem = t.rootFileSystem
  content : ∀ q, q ≠ .dirent i → (t'.dirent q).content = (t.dirent q).content
  filename : (t'.dirent (.dirent i)).filename = name.take fat32MaxFilename

variable {t t' : Fs} {sh sh' : Shape} {c : Ctx} {p q e dp : Ptr} {o : Option Ptr} {i j n m clus : Nat} {fd : Int}
  {path name name' buf : Str} {names : List Str} {via : List Ptr} {d : Dirent} {rest : List Nat}

lemma find?_congr_of_mem {α : Type*} {P Q : α → Bool} {l : List α} (h : ∀ x ∈ l, P x = Q x) :
    l.find? P = l.find? Q := by
  induction l with
  | nil => rfl
  | cons a l ih =>
    rw [find?_cons, find?_cons, h a mem_cons_self, ih fun x hx => h x (mem_cons_of_mem _ hx)]

namespace Added

variable (h : Added t sh dp name i t' sh')
include h

lemma field {β : Type*} (f : Dirent → β) (hf : ∀ d : Dirent, f d.content = f d) (hq : q ≠ .dirent i) :
    f (t'.dirent q) = f (t.dirent q) := field_content f hf (h.content q hq)

lemma ne_of_live (hq : sh.Live q) : q ≠ .dirent i := by
  rintro rfl
  exact h.dead hq

lemma ne_of_kid (hj : j ∈ sh.kids q) : j ≠ i := by
  rintro rfl
  exact h.dead ⟨q, hj⟩

lemma childNamed_iff (hj : j ≠ i) :
    childNamed t' (sh'.kids q) name' = some j ↔ childNamed t (sh.kids q) name' = some j := by
  have hold : (sh.kids q).find? (fun j => sameName (t'.dirent (.dirent j)).filename name') =
      childNamed t (sh.kids q) name' := by
    refine find?_congr_of_mem fun j hj => ?_
    have hne : Ptr.dirent j ≠ .dirent i := fun heq => h.ne_of_kid hj (Ptr.dirent.inj heq)
    rw [h.field Dirent.filename (fun _ => rfl) hne]
  rw [← hold]
  unfold childNamed
  rw [h.kids]
  by_cases hq : q = dp
  · rw [if_pos hq]
    cases hi : sameName (t'.dirent (.dirent i)).filename name' with
    | false => simp [hi]
    | true =>
      -- the old child would have the name of the new one
      simp only [find?_cons, hi, Option.some.injEq]
      refine ⟨fun heq => absurd heq.symm hj, fun hsome => ?_⟩
      have hjk : j ∈ sh.kids q := mem_of_find?_eq_some hsome
      have hname : sameName (t'.dirent (.dirent j)).filename name' = true := by
        simpa using find?_some hsome
      have hpair := h.distinct' q
      rw [h.kids, if_pos hq] at hpair
      have hij := (pairwise_cons.1 hpair).1 j hjk
      simp only [sameName, decide_eq_true_eq, decide_eq_false_iff_not] at hi hname hij
      exact absurd (hi.trans hname.symm) hij
  · rw [if_neg hq]

lemma name_ne : name ≠ [dot] ∧ name ≠ [dot, dot] := by
  constructor
  · rintro rfl
    have hnone := h.free
    cases hnone
  · rintro rfl
    exact h.sound.named_dotdot h.live h.isDir h.free

lemma named_iff (hp : p ≠ .dirent i) (hq : q ≠ .dirent i) :
    named t' sh' p name' = some q ↔ named t sh p name' = some q := by
  unfold named
  rw [h.field Dirent.fileSystem (fun _ => rfl) hp, h.field Dirent.parent (fun _ => rfl) hp]
  split
  · exact .rfl
  · split
    · exact .rfl
    · simp only [Option.map_eq_some_iff]
      constructor
      · rintro ⟨j, hj, rfl⟩
        have hji : j ≠ i := fun heq => hq (by rw [heq])
        exact ⟨j, (h.childNamed_iff hji).1 hj, rfl⟩
      · rintro ⟨j, hj, rfl⟩
        have hji : j ≠ i := fun heq => hq (by rw [heq])
        exact ⟨j, (h.childNamed_iff hji).2 hj, rfl⟩

lemma dirlookup_iff (hp : p ≠ .dirent i) (hq : q ≠ .dirent i) :
    dirlookup t' p name' = .ok (some q) ↔ dirlookup t p name' = .ok (some q) := by
  rw [dirlookup_ok_iff h.rep', dirlookup_ok_iff h.sound.toRep, h.named_iff hp hq,
    h.field Dirent.isDir (fun _ => rfl) hp]

lemma dirlookup_new : dirlookup t' dp name = .ok (some (.dirent i)) := by
  refine (dirlookup_ok_iff h.rep').2 ⟨?_, ?_⟩
  · rw [h.field Dirent.isDir (fun _ => rfl) (h.ne_of_live h.live)]
    exact h.isDir
  · unfold named childNamed
    rw [if_neg h.name_ne.1, if_neg h.name_ne.2, h.kids, if_pos rfl, find?_cons, h.filename]
    simp [sameName, take_take]

lemma frame : Frame t t' sh.Live where
  root := h.root
  isDir := fun _ hq => h.field Dirent.isDir (fun _ => rfl) (h.ne_of_live hq)
  head := fun _ hq => h.field Dirent.head (fun _ => rfl) (h.ne_of_live hq)
  isLink := fun _ hq => h.field Dirent.isLink (fun _ => rfl) (h.ne_of_live hq)
  text := fun _ hq _ => h.field readLink (fun _ => rfl) (h.ne_of_live hq)
  found := fun _ _ _ hp hq hfound => (h.dirlookup_iff (h.ne_of_live hp) (h.ne_of_live hq)).2 hfound

lemma frame_back : Frame t' t (· ≠ .dirent i) where
  root := h.root.symm
  isDir := fun _ hq => (h.field Dirent.isDir (fun _ => rfl) hq).symm
  head := fun _ hq => (h.field Dirent.head (fun _ => rfl) hq).symm
  isLink := fun _ hq => (h.field Dirent.isLink (fun _ => rfl) hq).symm
  text := fun _ hq _ => (h.field readLink (fun _ => rfl) hq).symm
  found := fun _ _ _ hp hq hfound => (h.dirlookup_iff hp hq).1 hfound

section live

variable (hc : c.Live sh)
include hc

lemma ename {follow : Bool} (hname : Tree.ename n t c fd path follow = .ok (some q, via)) :
    Tree.ename n t' c fd path follow = .ok (some q, via) :=
  h.frame.ename hname ((h.sound.closed hc).ename hname).2 nofun

lemma enameparent (hname : Tree.enameparent n t c fd path = .ok (some q, name')) :
    Tree.enameparent n t' c fd path = .ok (some q, name') := by
  rcases bind_eq_ok.1 hname with ⟨⟨p', name'', via⟩, hpath, heq⟩
  cases heq
  have hclosed := h.sound.closed hc
  unfold Tree.enameparent
  rw [h.frame.lookupPath (fun o q via => h.frame.jumpToLinkDirent) (fun o q via => jumpToLinkDirent_mem) hpath
    (hclosed.lookupPath (hclosed.jumpToLinkDirent n) hpath).2 nofun]
  rfl

end live

end Added

/-! ## Lookups that come through a link -/

lemma lookupLoop_jumped {jump : Option Ptr → Except Stop (Ptr × List Ptr)} {parent : Bool} {r : Walked}
    (hjump : ∀ o q via, jump o = .ok (q, via) → .dirent i ∈ via → ∃ x, jump (some (.dirent i)) = .ok x)
    (hloop : lookupLoop t jump parent o names = .ok (r, via)) (hi : .dirent i ∈ via) :
    ∃ x, jump (some (.dirent i)) = .ok x := by
  have henter : ∀ {o : Option Ptr} {dir : Option Ptr} {via : List Ptr}, enter t jump o = .ok (dir, via) →
      .dirent i ∈ via → ∃ x, jump (some (.dirent i)) = .ok x := by
    intro o dir via henter hi
    rcases bind_eq_ok.1 henter with ⟨⟨p, v⟩, hp, heq⟩
    cases heq
    rcases mem_append.1 hi with hi | hi
    · exact hjump o p v hp hi
    · -- only roots are crossed to
      unfold cross at hi
      split at hi
      · cases hi
      · split at hi
        · simp at hi
        · cases hi
  induction names generalizing o via with
  | nil =>
    cases hloop
    cases hi
  | cons name names ih =>
    rcases lookupLoop_cons hloop with ⟨dir, via₁, hdir, ⟨rfl, _⟩ | ⟨_, found, via₂, _, _, hrest, rfl⟩⟩
    · exact henter hdir hi
    · rcases mem_append.1 hi with hi | hi
      · exact henter hdir hi
      · exact ih hrest hi

/-- A link that a lookup comes through can be followed with the same fuel. -/
theorem jumpToLinkDirent_jumped (hjump : jumpToLinkDirent t c n o = .ok (q, via)) (hi : .dirent i ∈ via) :
    ∃ x, jumpToLinkDirent t c n (some (.dirent i)) = .ok x := by
  induction n generalizing o q via with
  | zero => cases hjump
  | succ n ih =>
    have hmore : (∃ x, jumpToLinkDirent t c n (some (.dirent i)) = .ok x) →
        ∃ x, jumpToLinkDirent t c (n + 1) (some (.dirent i)) = .ok x := by
      rintro ⟨x, hx⟩
      exact ⟨x, ok_of_le (fun n => jumpToLinkDirent_below n (some (.dirent i))) (Nat.le_succ n) hx⟩
    rcases jumpToLinkDirent_succ hjump with ⟨link, rfl, hcases⟩
    by_cases hself : link = .dirent i
    · subst hself
      exact ⟨_, hjump⟩
    rcases hcases with ⟨_, _, p, _, via₁, via₂, _, h₁, h₂, rfl⟩ | ⟨_, rfl, rfl⟩
    · rcases (jumpToLinkDirent_mem h₂).2 with ⟨y, _, rfl⟩
      rcases lookupPath_follow_iff.1 h₁ with ⟨_, o, x, v₁, v₂, _, hloop, hx, rfl⟩
      -- it is met in the lookup of the text, or when its end is followed
      have hin : .dirent i ∈ v₁ ∨ .dirent i ∈ v₂ ∨ .dirent i ∈ via₂ := by
        simpa [Ne.symm hself, or_assoc] using hi
      rcases hin with hin | hin | hin
      · exact hmore (lookupLoop_jumped (fun o q via => ih) hloop hin)
      · exact hmore (ih hx hin)
      · exact hmore (ih h₂ hin)
    · exact absurd (mem_singleton.1 hi).symm hself

/-! ## The text of a link -/

lemma absoluteLoop_zeroFree {room : Nat} {s : Str} (hnames : ZeroFree t) (hs : 0 ∉ s)
    (h : absoluteLoop t n room p s = some buf) : 0 ∉ buf := by
  induction n generalizing room p s with
  | zero => cases h
  | succ n ih =>
    unfold absoluteLoop at h
    split at h
    · cases h
      exact hs
    · dsimp only at h
      split at h
      · cases h
      · refine ih ?_ h
        simp [hs, hnames p, slash]

lemma getAbsolutePath_zeroFree (hnames : ZeroFree t) (h : getAbsolutePath t p = some buf) : 0 ∉ buf := by
  unfold getAbsolutePath at h
  split at h
  · cases h
    decide
  · exact absoluteLoop_zeroFree hnames (by simp) h

lemma absoluteLoop_length {room : Nat} {s : Str} (h : absoluteLoop t n room p s = some buf) :
    buf.length ≤ room + s.length := by
  induction n generalizing room p s with
  | zero => cases h
  | succ n ih =>
    unfold absoluteLoop at h
    split at h
    · cases h
      omega
    · dsimp only at h
      split at h
      · cases h
      · have hlen := ih h
        simp only [length_cons, length_append, cons_append] at hlen
        omega

lemma getAbsolutePath_length (h : getAbsolutePath t p = some buf) : buf.length < fat32MaxPath := by
  unfold getAbsolutePath at h
  split at h
  · cases h
    decide
  · have hlen := absoluteLoop_length h
    simp only [length_nil, fat32MaxPath] at hlen ⊢
    omega

/-! ## A new link -/

/-- `i` is a new link with the text `buf`. -/
structure NewLink (t : Fs) (sh : Shape) (dp : Ptr) (name : Str) (i : Nat) (buf : Str) (t' : Fs) (sh' : Shape) : Prop
    extends Added t sh dp name i t' sh' where
  isLink : (t'.dirent (.dirent i)).isLink = true
  slash : ∃ s, buf = slash :: s
  text : buf.length < fat32MaxFilename → readLink (t'.dirent (.dirent i)) = .ok buf
  long : fat32MaxFilename ≤ buf.length → readLink (t'.dirent (.dirent i)) = .error .undefined

namespace NewLink

variable (h : NewLink t sh dp name i buf t' sh')
include h

/-- The link leads to what its text leads to in the old tree. -/
theorem leads_iff (hc : c.Live sh) : (∃ n via, jumpToLinkDirent t' c n (some (.dirent i)) = .ok (e, via)) ↔
    buf.length < fat32MaxFilename ∧ ∃ n via, Tree.ename n t c atFdcwd buf true = .ok (some e, via) := by
  rcases h.slash with ⟨s, rfl⟩
  have hroot : ∀ t : Fs, startDirent t c atFdcwd (Tree.slash :: s) = some (some (.root t.rootFileSystem)) := by
    simp [startDirent]
  constructor
  · intro hex
    -- with the least fuel the lookup of the text does not come back to the link
    have hex' : ∃ n, ∃ via, jumpToLinkDirent t' c n (some (.dirent i)) = .ok (e, via) := hex
    classical
    rcases hn : Nat.find hex' with _ | n
    · rcases Nat.find_spec hex' with ⟨via, hjump⟩
      rw [hn] at hjump
      cases hjump
    · rcases Nat.find_spec hex' with ⟨via, hjump⟩
      rw [hn] at hjump
      have hmin : ∀ x, jumpToLinkDirent t' c n (some (.dirent i)) ≠ .ok x := by
        rintro ⟨x, via'⟩ hx
        have hle := ok_of_le (fun n => jumpToLinkDirent_below n (some (.dirent i))) (Nat.le_succ n) hx
        rw [hjump] at hle
        cases hle
        exact Nat.find_min hex' (by omega) ⟨_, hx⟩
      by_cases hlen : (Tree.slash :: s).length < fat32MaxFilename
      · refine ⟨hlen, n, ?_⟩
        rcases (jumpToLinkDirent_absolute_iff h.isLink (h.text hlen)).1 hjump with ⟨x, v₁, v₂, hloop, hx, _⟩
        have hjumped : ∀ o q via, jumpToLinkDirent t' c n o = .ok (q, via) → .dirent i ∈ via →
            ∃ x, jumpToLinkDirent t' c n (some (.dirent i)) = .ok x := fun o q via => jumpToLinkDirent_jumped
        have hv₁ : ∀ q ∈ v₁, q ≠ .dirent i := by
          rintro q hq rfl
          rcases lookupLoop_jumped hjumped hloop hq with ⟨y, hy⟩
          exact hmin y hy
        have hv₂ : ∀ q ∈ v₂, q ≠ .dirent i := by
          rintro q hq rfl
          rcases jumpToLinkDirent_jumped hx hq with ⟨y, hy⟩
          exact hmin y hy
        have hxi : x ≠ .dirent i := by
          rintro rfl
          exact hmin _ hx
        have hback := h.frame_back
        have hloop' := hback.lookupLoop (fun o q via => hback.jumpToLinkDirent) (fun o q via => jumpToLinkDirent_mem)
          hloop hv₁ (fun y hy => by cases hy; exact hxi) fun _ h => by cases h
        rw [h.root] at hloop'
        exact ⟨_, ename_follow_iff.2 ⟨_, _, v₁, v₂, hroot t, hloop', hback.jumpToLinkDirent hx hv₂, rfl⟩⟩
      · have htext := h.long (Nat.le_of_not_lt hlen)
        unfold jumpToLinkDirent at hjump
        rw [if_pos h.isLink, htext] at hjump
        cases hjump
  · rintro ⟨hlen, n, via, hname⟩
    rcases ename_follow_iff.1 (h.toAdded.ename hc hname) with ⟨o, x, v₁, v₂, hstart, hloop, hx, rfl⟩
    cases hstart
    rcases (jumpToLinkDirent_mem hx).2 with ⟨y, _, rfl⟩
    exact ⟨n + 1, _, (jumpToLinkDirent_absolute_iff h.isLink (h.text hlen)).2 ⟨y, v₁, v₂, hloop, hx, rfl⟩⟩

end NewLink

/-! ## The call -/

lemma ename_follow_intro {via' : List Ptr} (hplain : ename m t c fd path false = .ok (some e, via))
    (hjump : jumpToLinkDirent t c n (some e) = .ok (q, via')) :
    ∃ k via'', ename k t c fd path true = .ok (some q, via'') := by
  have hplain' := ok_of_le (fun n => ename_below fd path false n) (le_max_left m n) hplain
  have hjump' := ok_of_le (fun n => jumpToLinkDirent_below n (some e)) (le_max_right m n) hjump
  rcases ename_plain_iff.1 hplain' with ⟨o, v, hstart, hloop, _⟩
  exact ⟨_, _, ename_follow_iff.2 ⟨o, _, v, via', hstart, hloop, hjump', rfl⟩⟩

section call

variable {oldFd newFd r : Int} {oldPath newPath : Str}

lemma SameTree.refl : SameTree t t := fun _ => ⟨.rfl, fun _ => ⟨rfl, fun _ => .rfl⟩⟩

lemma links_failed (hr : r = -1) : Links t c oldFd oldPath newFd newPath r t :=
  ⟨fun h => by omega, fun h => by omega, fun h => by omega, fun _ => SameTree.refl⟩

lemma not_links_file (hs : Settled t sh) (hq : sh.Live q)
    (hname : ename n t c newFd newPath false = .ok (some q, via))
    (hlink : (r = 0) ∨ (r = -1 ∧ ∃ d, (t.dirent q).SamePlace d ∧ eremove (t.set q d) q = .ok t')) :
    ¬ Links t c oldFd oldPath newFd newPath r t' := by
  intro hlinks
  rcases hlink with hr | ⟨hr, d, hd, hremove⟩
  · rcases hlinks.free hr with ⟨m, via', hnone⟩
    cases ename_unique hname hnone
  · cases q with
    | root k =>
      unfold eremove at hremove
      rw [dirent_set_self, hd.parent, hs.sound.rootless k] at hremove
      cases hremove
    | dirent i =>
      rcases hq with ⟨p, hi⟩
      rcases (hs.sound.set hd).toRep.eremove_spec hi with ⟨u, hu, hrep', _⟩
      rw [hremove] at hu
      cases hu
      have htree := ((hlinks.failed hr) (.dirent i)).1.2 (hs.sound.toRep.inTree_iff.2 ⟨p, hi⟩)
      rw [hrep'.inTree_iff, hs.sound.toRep.live_freed hi] at htree
      exact htree.1 rfl

/-- What `ealloc` adds. -/
theorem Settled.added (hs : Settled t sh) {dp : Ptr} {attr : BitVec 8} {u : Fs} (hdp : sh.Live dp)
    (hdir : (t.dirent dp).isDir = true) (hnone : named t sh dp name = none) (hfree : sh.free = i :: rest)
    (hu : u = withEntry t dp i name attr clus) (hsound : Sound u (Shape.add { sh with free := rest } dp i) none)
    (hdist : Distinct u (Shape.add { sh with free := rest } dp i)) :
    Added t sh dp name i u (Shape.add { sh with free := rest } dp i) := by
  refine ⟨hs.sound, hsound.toRep, hdist, ?_, ?_, hdp, hdir, hnone, ?_, ?_, ?_⟩
  · intro q
    by_cases hq : q = dp
    · subst hq
      rw [if_pos rfl, Shape.kids_add_self]
    · rw [if_neg hq, Shape.kids_add_of_ne hq]
  · rintro ⟨q, hq⟩
    exact hs.sound.apart q i hq (by simp [hfree])
  · subst hu
    rfl
  · subst hu
    exact fun q hq => content_withEntry_of_ne hq
  · subst hu
    exact filename_congr content_withEntry_self

lemma Added.set (h : Added t sh dp name i t' sh') (hd : (t'.dirent (.dirent i)).SamePlace d) :
    Added t sh dp name i (t'.set (.dirent i) d) sh' := by
  refine ⟨h.sound, h.rep'.set hd.nextBrother hd.firstChild hd.parent, h.distinct'.set hd.filename, h.kids, h.dead,
    h.live, h.isDir, h.free, h.root, ?_, ?_⟩
  · intro q hq
    rw [dirent_set_of_ne hq]
    exact h.content q hq
  · rw [dirent_set_self, hd.filename]
    exact h.filename

lemma newLink (hs : Settled t sh) {dp : Ptr} {u : Fs} (he : sh.Live e)
    (habs : getAbsolutePath t e = some buf) (hdp : sh.Live dp)
    (hdir : (t.dirent dp).isDir = true) (hnone : named t sh dp name = none) (hfree : sh.free = i :: rest)
    (hu : u = withEntry t dp i name (attrOf .file) clus)
    (hsound : Sound u (Shape.add { sh with free := rest } dp i) none)
    (hdist : Distinct u (Shape.add { sh with free := rest } dp i)) :
    getAbsolutePath u e = some buf ∧ (ewrite (u.dirent (.dirent i)) 0 (buf ++ [0]) clus).1 = buf.length + 1 ∧
      NewLink t sh dp name i buf
        (u.set (.dirent i) { (ewrite (u.dirent (.dirent i)) 0 (buf ++ [0]) clus).2 with ntRes := dtLnk })
        (Shape.add { sh with free := rest } dp i) := by
  have hadd := hs.added hdp hdir hnone hfree hu hsound hdist
  have hfresh : (u.dirent (.dirent i)).Fresh := by
    subst hu
    exact fresh_withEntry ((hs.kept _).clean hadd.dead).2
  have hlen := getAbsolutePath_length habs
  have hzero := getAbsolutePath_zeroFree (fun q => (hs.kept q).name) habs
  refine ⟨?_, ?_, hadd.set (linked_samePlace buf), ?_, getAbsolutePath_slash habs, ?_, ?_⟩
  · rw [hs.sound.getAbsolutePath_congr (fun q hq => hadd.content q (hadd.ne_of_live hq)) he]
    exact habs
  · rw [hfresh.ewrite_eq hlen]
    simp
  · rw [dirent_set_self]
    rfl
  · intro hfit
    rw [dirent_set_self, hfresh.readLink_linked hfit, takeWhile_eq_self_iff.2]
    intro x hx
    simpa using fun heq : x = 0 => hzero (heq ▸ hx)
  · intro hlong
    rw [dirent_set_self]
    exact hfresh.readLink_long hlen hlong hzero

/-- A new link does what it is for if its text leads to the entry. -/
theorem NewLink.links_iff (h : NewLink t sh dp name i buf t' sh') (hc : c.Live sh)
    (hold : ename m t c oldFd oldPath true = .ok (some e, via))
    (hparent : enameparent n t c newFd newPath = .ok (some dp, name)) : Links t c oldFd oldPath newFd newPath 0 t' ↔
      buf.length < fat32MaxFilename ∧ ∃ n via, ename n t c atFdcwd buf true = .ok (some e, via) := by
  rw [← h.leads_iff hc]
  have hold' := h.toAdded.ename hc hold
  rcases ename_of_enameparent (h.toAdded.enameparent hc hparent) h.dirlookup_new with ⟨v, hnew⟩
  constructor
  · intro hlinks
    rcases hlinks.same rfl with ⟨k, x, v₁, v₂, hx, hx'⟩
    cases ename_unique hold' hx'
    exact ename_follow_of_plain hnew hx
  · rintro ⟨k, v', hjump⟩
    rcases ename_follow_intro hnew hjump with ⟨k', v'', hx⟩
    refine ⟨fun _ => ?_, fun _ => ?_, fun _ q hq => ?_, fun hr => by cases hr⟩
    · have hnone : dirlookup t dp name = .ok none := (dirlookup_ok_iff h.sound.toRep).2 ⟨h.isDir, h.free⟩
      exact ⟨n, ename_of_enameparent hparent hnone⟩
    · -- both lookups with the same fuel
      exact ⟨max k' m, e, v'', via, ok_of_le (fun n => ename_below newFd newPath true n) (le_max_left k' m) hx,
        ok_of_le (fun n => ename_below oldFd oldPath true n) (le_max_right k' m) hold'⟩
    · have hlive := h.sound.toRep.inTree_iff.1 hq
      refine ⟨h.rep'.inTree_iff.2 ?_, h.content q (h.ne_of_live hlive)⟩
      cases q with
      | root k => trivial
      | dirent j =>
        rcases hlive with ⟨p, hp⟩
        refine ⟨p, ?_⟩
        rw [h.kids]
        split
        · exact mem_cons_of_mem _ hp
        · exact hp

/-- `do_linkat` for an entry whose absolute path fits `FAT32_MAX_PATH`. -/
theorem linkat_leads_iff {as : List Act} (hrun : OrderlyRun as t) (hc : c.InTree t)
    (hold : ename m t c oldFd oldPath true = .ok (some e, via)) (habs : getAbsolutePath t e = some buf)
    (hok : doLinkat n t c oldFd oldPath newFd newPath clus = .ok (r, t')) :
    Links t c oldFd oldPath newFd newPath r t' ↔ LinkLeads t c e buf newFd newPath := by
  rcases hrun.settled with ⟨sh, hs⟩
  have hlive := hs.sound.toRep.ctx_inTree_iff.1 hc
  rcases doLinkat_ok hok with ⟨v, hnone, _⟩ | ⟨e', v, target, u, hold', hcreate, hrest⟩
  · cases ename_unique hold hnone
  cases ename_unique hold hold'
  have he : sh.Live e := ((hs.sound.closed hlive).ename hold).1 e rfl
  rcases create_ok hs.sound hlive hcreate with ⟨name, hparent, rfl, rfl⟩ |
    ⟨dp, name, hparent, hdp, hdir, ⟨ep, hfound, rfl, hr⟩ | ⟨hnone, i, rest, hfree, hu, hsound, hdist, rfl⟩⟩
  · -- there is no directory for the new name
    rcases hrest with ⟨_, hr, rfl⟩ | ⟨q, hq, _⟩
    · exact iff_of_true (links_failed hr) (.inl ⟨n, name, hparent⟩)
    · cases hq
  · rcases ename_of_enameparent hparent ((dirlookup_ok_iff hs.sound.toRep).2 ⟨hdir, hfound⟩) with ⟨v', hname⟩
    have hep : sh.Live ep := named_live hs.sound.toRep hdp (fun _ _ => hs.sound.inner) hfound
    by_cases hkind : (u.dirent ep).isDir = true
    · -- there is a directory, for which `create` returns NULL
      rw [if_pos (.inr ⟨rfl, hkind⟩)] at hr
      subst hr
      rcases hrest with ⟨_, hr, rfl⟩ | ⟨q, hq, _⟩
      · exact iff_of_true (links_failed hr) (.inr (.inl ⟨n, ep, v', hname, hkind⟩))
      · cases hq
    · rw [if_neg (by simp [hkind])] at hr
      subst hr
      refine iff_of_false (not_links_file hs hep hname ?_) ?_
      · rcases hrest with ⟨hq, _⟩ | ⟨q, hq, hlink⟩
        · cases hq
        · cases hq
          rcases hlink with ⟨hnone, _⟩ | ⟨buf', _, ⟨_, hr, hremove⟩ | ⟨_, hr, _⟩⟩
          · rw [habs] at hnone
            cases hnone
          · exact .inr ⟨hr, _, ewrite_samePlace, hremove⟩
          · exact .inl hr
      · rintro (⟨k, name', hparent'⟩ | ⟨k, x, v'', hx, hxdir⟩ | ⟨⟨k, v'', hx⟩, _⟩)
        · have heq := ok_unique (fun n => enameparent_below newFd newPath n) hparent hparent'
          cases heq
        · cases ename_unique hname hx
          exact hkind hxdir
        · cases ename_unique hname hx
  · -- the link is made
    rcases newLink hs he habs hdp hdir hnone hfree hu hsound (hdist hs.distinct) with ⟨habs', hwrite, hnew⟩
    rcases ename_of_enameparent hparent ((dirlookup_ok_iff hs.sound.toRep).2 ⟨hdir, hnone⟩) with ⟨v', hname⟩
    have hlink : r = 0 ∧ t' = u.set (.dirent i)
        { (ewrite (u.dirent (.dirent i)) 0 (buf ++ [0]) clus).2 with ntRes := dtLnk } := by
      rcases hrest with ⟨hq, _⟩ | ⟨q, hq, hlink⟩
      · cases hq
      · cases hq
        rcases hlink with ⟨hnone', _⟩ | ⟨buf', hbuf', ⟨hfail, _⟩ | ⟨_, hr, ht⟩⟩
        · rw [habs'] at hnone'
          cases hnone'
        · rw [habs'] at hbuf'
          cases hbuf'
          exact absurd hwrite hfail
        · rw [habs'] at hbuf'
          cases hbuf'
          exact ⟨hr, ht⟩
    rcases hlink with ⟨rfl, rfl⟩
    rw [hnew.links_iff hlive hold hparent]
    constructor
    · rintro ⟨hlen, hleads⟩
      exact .inr (.inr ⟨⟨n, v', hname⟩, hlen, hleads⟩)
    · rintro (⟨k, name', hparent'⟩ | ⟨k, x, v'', hx, hxdir⟩ | ⟨_, hlen, hleads⟩)
      · have heq := ok_unique (fun n => enameparent_below newFd newPath n) hparent hparent'
        cases heq
      · cases ename_unique hname hx
      · exact ⟨hlen, hleads⟩

end call

/-! Links to the file `/d`: at the place of a file, and where there is nothing. -/

def twoFilesActs : List Act :=
  [.fatInit 0 (rootVolume []), .create rootCtx atFdcwd pathD .file 0, .create rootCtx atFdcwd pathL .file 0]

/-- The file `/l` becomes the link. -/
theorem linkat_overwrites : ∃ t t' via, Run Step boot twoFilesActs t ∧
    ename 2 t rootCtx atFdcwd pathD true = .ok (some (.dirent 8191), via) ∧
    getAbsolutePath t (.dirent 8191) = some pathD ∧ doLinkat 2 t rootCtx atFdcwd pathD atFdcwd pathL 7 = .ok (0, t') ∧
    ¬ Links t rootCtx atFdcwd pathD atFdcwd pathL 0 t' := by
  set t := (after twoFilesActs).getD boot with ht
  have hrun : after twoFilesActs = some t := by
    rfl
  rcases exists_ok_of_fst (y := doLinkat 2 t rootCtx atFdcwd pathD atFdcwd pathL 7) (a := 0) (by decide +kernel)
    with ⟨t', hlink⟩
  have hold : ename 2 t rootCtx atFdcwd pathD true = .ok (some (.dirent 8191), [.root 0, .dirent 8191]) := by
    decide +kernel
  have hnew : ename 2 t rootCtx atFdcwd pathL false = .ok (some (.dirent 8190), [.root 0, .dirent 8190]) := by
    decide +kernel
  refine ⟨t, t', _, run_after hrun, hold, by decide +kernel, hlink, fun hlinks => ?_⟩
  rcases hlinks.free rfl with ⟨n, via, hfree⟩
  cases ename_unique hfree hnew

def oneFileActs : List Act := [.fatInit 0 (rootVolume []), .create rootCtx atFdcwd pathD .file 0]

theorem linkat_leads_file : ∃ t t', OrderlyRun oneFileActs t ∧
    doLinkat 2 t rootCtx atFdcwd pathD atFdcwd pathL 7 = .ok (0, t') ∧
    Links t rootCtx atFdcwd pathD atFdcwd pathL 0 t' := by
  set t₁ := boot.stepped (.fatInit 0 (rootVolume []))
  set t₂ := t₁.stepped (.create rootCtx atFdcwd pathD .file 0)
  rcases exists_ok_of_fst (y := doLinkat 2 t₂ rootCtx atFdcwd pathD atFdcwd pathL 7) (a := 0) (by decide +kernel)
    with ⟨t', h₃⟩
  have hrun : OrderlyRun oneFileActs t₂ := by
    refine .cons ⟨⟨⟨by decide +kernel, fit_empty⟩, linkless_empty⟩, step_stepped (by decide +kernel)⟩ ?_
    exact .cons ⟨⟨rootCtx_inTree _, by decide, by decide⟩, step_stepped (by decide +kernel)⟩ (.nil _)
  have hname : ename 2 t₂ rootCtx atFdcwd pathD true = .ok (some (.dirent 8191), [.root 0, .dirent 8191]) := by
    decide +kernel
  have habs : getAbsolutePath t₂ (.dirent 8191) = some pathD := by decide +kernel
  have hnone : ename 2 t₂ rootCtx atFdcwd pathL false = .ok (none, [.root 0]) := by decide +kernel
  refine ⟨t₂, t', hrun, h₃, (linkat_leads_iff hrun (rootCtx_inTree _) hname habs h₃).2 (.inr (.inr ?_))⟩
  exact ⟨⟨2, _, hnone⟩, by decide, 2, _, hname⟩

end Tree
end OsRiscv
