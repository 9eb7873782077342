import OsRiscv.Tree.Link

/-!
# Ends — lookups that end without an assertion

A lookup and the links it follows call each other through the texts of the links.  It ends in a tree in which
each link leads somewhere: its text is the path of an entry with no link on the way.  `do_linkat` makes such links
if the absolute path leads to the entry, and they stay such links if nothing on their way is unlinked or mounted on.
-/

namespace OsRiscv
namespace Tree

open Lib List

/-- `jumpToLinkDirent` for entries that are no links. -/
def plainJump (t : Fs) : Option Ptr → Except Stop (Ptr × List Ptr)
  | none => .error .assertion
  | some q => if (t.dirent q).isLink then .error .fuel else .ok (q, [q])

/-- The path leads from the root to the entry `e`, which is no link, with no link on the way. -/
def PlainPath (t : Fs) (path : Str) (e : Ptr) (via : List Ptr) : Prop :=
  lookupLoop t (plainJump t) false (some (.root t.rootFileSystem)) (elems path) = .ok (.ended (some e), via) ∧
    (t.dirent e).isLink = false

/-- The text of the link is an absolute path that leads to an entry with no other link on the way. -/
def Leads (t : Fs) (q : Ptr) : Prop :=
  ∃ s e via, readLink (t.dirent q) = .ok (slash :: s) ∧ PlainPath t (slash :: s) e via

/-- No link that is in the tree leads through `e`. -/
def OffLinks (t : Fs) (e : Ptr) : Prop :=
  ∀ q, t.InTree q → (t.dirent q).isLink = true → ∀ c n p via, jumpToLinkDirent t c n (some q) = .ok (p, via) → e ∉ via

/-- Orderly actions by which links lead somewhere and go on to do so. -/
def Act.Steady (t : Fs) (a : Act) : Prop :=
  a.Orderly t ∧
    match a with
    | .linkat c oldFd oldPath _ _ _ => ∀ n e via, ename n t c oldFd oldPath true = .ok (some e, via) →
        ∃ buf via, getAbsolutePath t e = some buf ∧ PlainPath t buf e via
    | .unlinkat c fd path => ∀ n e via, ename n t c fd path true = .ok (some e, via) → OffLinks t e
    | .mount c path _ => ∀ n e via, ename n t c atFdcwd path true = .ok (some e, via) → OffLinks t e
    | _ => True

/-- Each lookup, from the root, the current directory or an open file, returns. -/
def Ends (t : Fs) : Prop :=
  ∀ (c : Ctx) (fd : Int) (path : Str), c.InTree t → startDirent t c fd path ≠ some none →
    (∀ follow, ∃ n x, ename n t c fd path follow = .ok x) ∧ ∃ n x, enameparent n t c fd path = .ok x

variable {t t' : Fs} {sh sh' : Shape} {c : Ctx} {p q e : Ptr} {o : Option Ptr} {i k n : Nat} {fd : Int}
  {path name : Str} {names : List Str} {via : List Ptr} {a : Act} {S : Ptr → Prop} {f : Dirent → Dirent}

/-! ## Links that lead somewhere -/

lemma plainJump_ok (h : plainJump t o = .ok (q, via)) : o = some q ∧ via = [q] ∧ (t.dirent q).isLink = false := by
  cases o with
  | none => cases h
  | some q' =>
    unfold plainJump at h
    dsimp only at h
    split at h
    · cases h
    · rename_i hlink
      cases h
      exact ⟨rfl, rfl, by simpa using hlink⟩

lemma plainJump_below (n : Nat) (o : Option Ptr) :
    Below Stop.fuel (plainJump t o) (jumpToLinkDirent t c (n + 1) o) := by
  cases o with
  | none => exact .refl _
  | some q =>
    unfold plainJump jumpToLinkDirent
    dsimp only
    by_cases hlink : (t.dirent q).isLink = true
    · rw [if_pos hlink]
      exact .bot _
    · rw [if_neg hlink, if_neg hlink]
      exact .refl _

lemma PlainPath.jump {s : Str} (h : PlainPath t (slash :: s) e via) (hlink : (t.dirent q).isLink = true)
    (htext : readLink (t.dirent q) = .ok (slash :: s)) (c : Ctx) :
    jumpToLinkDirent t c 2 (some q) = .ok (e, q :: (via ++ [e]) ++ [e]) := by
  rcases h with ⟨hloop, hplain⟩
  refine (jumpToLinkDirent_absolute_iff hlink htext).2 ⟨e, via, [e], ?_, ?_, rfl⟩
  · rcases lookupLoop_below (plainJump_below 0) false (some (.root t.rootFileSystem)) (elems (slash :: s)) with hoof | heq
    · rw [hloop] at hoof
      cases hoof
    · rw [heq, hloop]
  · unfold jumpToLinkDirent
    rw [if_neg (by simp [hplain])]

lemma plainJump_mem : ∀ o q via, plainJump t o = .ok (q, via) → q ∈ via ∧ ∃ p ∈ via, o = some p := by
  intro o q via h
  rcases plainJump_ok h with ⟨rfl, rfl, _⟩
  simp

lemma PlainPath.frame (h : PlainPath t path e via) (hF : Frame t t' S) (hvia : ∀ x ∈ via, S x)
    (he : S e) : PlainPath t' path e via := by
  have hjump : ∀ o q via, plainJump t o = .ok (q, via) → (∀ p ∈ via, S p) → plainJump t' o = .ok (q, via) := by
    intro o q via hjump hS
    rcases plainJump_ok hjump with ⟨rfl, rfl, hlink⟩
    unfold plainJump
    dsimp only
    rw [hF.isLink q (hS q (by simp)), if_neg (by simp [hlink])]
  refine ⟨?_, ?_⟩
  · rw [hF.root]
    exact hF.lookupLoop hjump plainJump_mem h.1 hvia (fun x hx => by cases hx; exact he) nofun
  · rw [hF.isLink e he]
    exact h.2

lemma PlainPath.live (hs : Sound t sh none) (h : PlainPath t path e via) : sh.Live e ∧ ∀ x ∈ via, sh.Live x := by
  have hclosed : Closed t rootCtx sh.Live := hs.closed ⟨trivial, nofun⟩
  have hjump : ∀ o q via, (∀ p, o = some p → sh.Live p) → plainJump t o = .ok (q, via) →
      sh.Live q ∧ ∀ p ∈ via, sh.Live p := by
    intro o q via ho hjump
    rcases plainJump_ok hjump with ⟨rfl, rfl, _⟩
    exact ⟨ho q rfl, fun p hp => by rw [mem_singleton.1 hp]; exact ho q rfl⟩
  rcases hclosed.lookupLoop hjump (fun x hx => by cases hx; trivial) h.1 with ⟨he, hvia⟩
  exact ⟨he e rfl, hvia⟩

lemma Leads.frame (h : Leads t q) (hF : Frame t t' S) (hlink : (t.dirent q).isLink = true)
    (hway : ∀ s e via, readLink (t.dirent q) = .ok (slash :: s) → PlainPath t (slash :: s) e via →
      S q ∧ S e ∧ ∀ x ∈ via, S x) : Leads t' q := by
  rcases h with ⟨s, e, via, htext, hpath⟩
  rcases hway s e via htext hpath with ⟨hq, he, hvia⟩
  refine ⟨s, e, via, ?_, hpath.frame hF hvia he⟩
  rw [hF.text q hq hlink]
  exact htext

lemma OffLinks.way {s : Str} {x : Ptr} (h : OffLinks t x) (hq : t.InTree q) (hlink : (t.dirent q).isLink = true)
    (htext : readLink (t.dirent q) = .ok (slash :: s)) (hpath : PlainPath t (slash :: s) e via) :
    q ≠ x ∧ e ≠ x ∧ ∀ y ∈ via, y ≠ x := by
  have hx := h q hq hlink rootCtx 2 e _ (hpath.jump hlink htext rootCtx)
  refine ⟨?_, ?_, ?_⟩
  · rintro rfl
    simp at hx
  · rintro rfl
    simp at hx
  · rintro y hy rfl
    simp [hy] at hx

/-! ## Lookups in such a tree -/

lemma lookupLoop_ended {jump : Option Ptr → Except Stop (Ptr × List Ptr)} {parent : Bool}
    (h : lookupLoop t jump parent (some q) names = .ok (.ended o, via)) : o ≠ none := by
  induction names generalizing q via with
  | nil =>
    cases h
    nofun
  | cons name names ih =>
    rcases lookupLoop_cons_ended h with ⟨_, _, found, via₂, _, _, hloop, _⟩
    exact ih hloop

lemma Settled.cross_isDir (hs : Settled t sh) (hdir : (cross t q).1 = some e) :
    (t.dirent q).isDir = true ∧ (t.dirent e).isDir = true ∧ ∀ x ∈ (cross t q).2, (t.dirent x).isDir = true := by
  unfold cross at hdir ⊢
  by_cases hfile : (t.dirent q).isDir = false
  · rw [if_pos hfile] at hdir
    cases hdir
  · have hq : (t.dirent q).isDir = true := by simpa using hfile
    rw [if_neg hfile] at hdir ⊢
    cases hhead : (t.dirent q).head with
    | none =>
      rw [hhead] at hdir
      cases hdir
      exact ⟨hq, hq, nofun⟩
    | some k =>
      rw [hhead] at hdir
      cases hdir
      have hk := (hs.kept q).mounted k hhead
      refine ⟨hq, hk, fun x hx => ?_⟩
      rw [mem_singleton.1 hx]
      exact hk

section ends

variable (hs : Settled t sh) (hleads : ∀ q, sh.Live q → (t.dirent q).isLink = true → Leads t q)
include hs hleads

omit hs in
lemma jump_ends (c : Ctx) (hq : sh.Live q) : ∃ x, jumpToLinkDirent t c 2 (some q) = .ok x := by
  by_cases hlink : (t.dirent q).isLink = true
  · rcases hleads q hq hlink with ⟨s, e, via, htext, hpath⟩
    exact ⟨_, hpath.jump hlink htext c⟩
  · refine ⟨(q, [q]), ?_⟩
    unfold jumpToLinkDirent
    rw [if_neg hlink]

lemma lookupLoop_ends (hc : c.Live sh) (hq : sh.Live q) (parent : Bool) (names : List Str) :
    ∃ x, lookupLoop t (jumpToLinkDirent t c 2) parent (some q) names = .ok x := by
  have hclosed := hs.sound.closed hc
  induction names generalizing q with
  | nil => exact ⟨_, rfl⟩
  | cons name names ih =>
    rcases jump_ends hleads c hq with ⟨⟨p, via⟩, hjump⟩
    have hp : sh.Live p := (hclosed.jumpToLinkDirent 2 _ p via (fun x hx => by cases hx; exact hq) hjump).1
    have henter : enter t (jumpToLinkDirent t c 2) (some q) = .ok ((cross t p).1, via ++ (cross t p).2) := by
      unfold enter
      rw [hjump]
      rfl
    unfold lookupLoop
    rw [henter, ok_bind]
    cases hdir : (cross t p).1 with
    | none => exact ⟨_, rfl⟩
    | some dir =>
      dsimp only
      split
      · exact ⟨_, rfl⟩
      · have hkind : (t.dirent dir).isDir = true := (hs.cross_isDir hdir).2.1
        rw [(dirlookup_ok_iff hs.sound.toRep).2 ⟨hkind, rfl⟩, ok_bind]
        cases hfound : named t sh dir name with
        | none => exact ⟨_, rfl⟩
        | some found =>
          have hlive : sh.Live found :=
            named_live hs.sound.toRep ((hclosed.cross hp).1 dir hdir) (fun _ _ => hs.sound.inner) hfound
          rcases ih hlive with ⟨⟨r, more⟩, hloop⟩
          dsimp only
          rw [hloop]
          exact ⟨_, rfl⟩

lemma lookupPath_ends (hc : c.Live sh) (parent follow : Bool) (hstart : startDirent t c fd path ≠ some none) :
    ∃ x, lookupPath t c (jumpToLinkDirent t c 2) fd path parent follow = .ok x := by
  have hclosed := hs.sound.closed hc
  unfold lookupPath
  cases ho : startDirent t c fd path with
  | none => exact ⟨_, rfl⟩
  | some o =>
    cases o with
    | none => exact absurd ho hstart
    | some q =>
      have hq : sh.Live q := hclosed.start ho
      rcases lookupLoop_ends hs hleads hc hq parent (elems path) with ⟨⟨w, via⟩, hloop⟩
      dsimp only
      rw [hloop, ok_bind]
      cases w with
      | returned entry name => exact ⟨_, rfl⟩
      | ended entry =>
        have hentry := (hclosed.lookupLoop (hclosed.jumpToLinkDirent 2) (fun x hx => by cases hx; exact hq) hloop).1
        cases follow with
        | false => exact ⟨_, rfl⟩
        | true =>
          cases entry with
          | none => exact absurd rfl (lookupLoop_ended hloop)
          | some x =>
            rcases jump_ends hleads c (hentry x rfl) with ⟨y, hjump⟩
            dsimp only
            rw [if_pos rfl, hjump]
            exact ⟨_, rfl⟩

lemma ends : Ends t := by
  intro c fd path hc hstart
  have hlive := hs.sound.toRep.ctx_inTree_iff.1 hc
  refine ⟨fun follow => ?_, ?_⟩
  · rcases lookupPath_ends hs hleads hlive false follow hstart with ⟨x, hx⟩
    refine ⟨2, (x.1, x.2.2), ?_⟩
    unfold ename
    rw [hx]
    rfl
  · rcases lookupPath_ends hs hleads hlive true true hstart with ⟨x, hx⟩
    refine ⟨2, (x.1, x.2.1), ?_⟩
    unfold enameparent
    rw [hx]
    rfl

end ends

/-! ## What one step keeps -/

/-- The links in the tree lead somewhere. -/
def LinksLead (t : Fs) : Prop := ∀ q, t.InTree q → (t.dirent q).isLink = true → Leads t q

section steps

variable (hs : Settled t sh) (hleads : LinksLead t)
include hs hleads

lemma Added.leads {dp : Ptr} (h : Added t sh dp name i t' sh') (hq : sh.Live q)
    (hlink : (t'.dirent q).isLink = true) : Leads t' q := by
  rw [h.frame.isLink q hq] at hlink
  refine (hleads q (hs.sound.toRep.inTree_iff.2 hq) hlink).frame h.frame hlink fun s e via _ hpath => ?_
  exact ⟨hq, hpath.live hs.sound⟩

omit hs hleads in
lemma Added.live_or {dp : Ptr} (h : Added t sh dp name i t' sh') (hq : t'.InTree q) : q = .dirent i ∨ sh.Live q := by
  have hlive := h.rep'.inTree_iff.1 hq
  cases q with
  | root k => exact .inr trivial
  | dirent j =>
    rcases hlive with ⟨p, hp⟩
    rw [h.kids] at hp
    split at hp
    · rcases mem_cons.1 hp with rfl | hp
      · exact .inl rfl
      · exact .inr ⟨p, hp⟩
    · exact .inr ⟨p, hp⟩

lemma create_leads (hc : c.Live sh) {type : FileKind} {clus : Nat} {r : Option Ptr} (htype : type ≠ .link)
    (hok : create n t c fd path type clus = .ok (r, t')) : LinksLead t' := by
  rcases create_ok hs.sound hc hok with ⟨_, _, _, rfl⟩ |
    ⟨dp, name, _, hdp, hdir, ⟨_, _, rfl, _⟩ | ⟨hnone, i, rest, hfree, hu, hsound, hdist, _⟩⟩
  · exact hleads
  · exact hleads
  · have hadd := hs.added hdp hdir hnone hfree hu hsound (hdist hs.distinct)
    intro q hq hlink
    rcases hadd.live_or hq with rfl | hlive
    · -- the new entry is no link
      have hres : (t'.dirent (.dirent i)).ntRes = if attrOf type = Fat.attrLink then dtLnk else 0 := by
        rw [hu]
        exact field_content Dirent.ntRes (fun _ => rfl) content_withEntry_self
      have hattr : attrOf type ≠ Fat.attrLink := by
        cases type with
        | link => exact absurd rfl htype
        | dir => decide
        | file => decide
        | char => decide
        | other => decide
      unfold Dirent.isLink at hlink
      rw [hres, if_neg hattr] at hlink
      cases hlink
    · exact hadd.leads hs hleads hlive hlink

lemma doLinkat_leads (hc : c.Live sh) {r oldFd newFd : Int} {oldPath newPath : Str} {clus : Nat}
    (hlinkable : Linkable t c oldFd oldPath newFd newPath)
    (hpath : ∀ n e via, ename n t c oldFd oldPath true = .ok (some e, via) →
      ∃ buf via, getAbsolutePath t e = some buf ∧ PlainPath t buf e via)
    (hok : doLinkat n t c oldFd oldPath newFd newPath clus = .ok (r, t')) : LinksLead t' := by
  rcases doLinkat_new hs.sound hc hlinkable.1 hok with ⟨_, rfl⟩ |
    ⟨e, via, dp, name, i, rest, hold, _, hdp, hdir, hnone, hfree, u, hu, hsound, hdist, hlink⟩
  · exact hleads
  · rcases hpath n e via hold with ⟨buf, via', habs, hplain⟩
    have he : sh.Live e := ((hs.sound.closed hc).ename hold).1 e rfl
    rcases newLink hs he habs hdp hdir hnone hfree hu hsound (hdist hs.distinct) with ⟨habs', hwrite, hnew⟩
    have ht : t' = u.set (.dirent i)
        { (ewrite (u.dirent (.dirent i)) 0 (buf ++ [0]) clus).2 with ntRes := dtLnk } := by
      rcases hlink with ⟨hnone', _⟩ | ⟨buf', hbuf', ⟨hfail, _⟩ | ⟨_, _, ht⟩⟩
      · rw [habs'] at hnone'
        cases hnone'
      · rw [habs'] at hbuf'
        cases hbuf'
        exact absurd hwrite hfail
      · rw [habs'] at hbuf'
        cases hbuf'
        exact ht
    subst ht
    intro q hq hqlink
    rcases hnew.toAdded.live_or hq with rfl | hlive
    · rcases hnew.slash with ⟨s, rfl⟩
      rcases hplain.live hs.sound with ⟨he', hvia'⟩
      exact ⟨s, e, via', hnew.text (hlinkable.2 n e via _ hold habs), hplain.frame hnew.frame hvia' he'⟩
    · exact hnew.toAdded.leads hs hleads hlive hqlink

lemma doUnlinkat_leads (hc : c.Live sh) {r : Int}
    (hoff : ∀ n e via, ename n t c fd path true = .ok (some e, via) → OffLinks t e)
    (hok : doUnlinkat n t c fd path = .ok (r, t')) : LinksLead t' := by
  rcases doUnlinkat_ok hs.sound hc hok with ⟨_, _, _, rfl⟩ | ⟨i, p, via, hname, hi, _, hremove⟩
  · exact hleads
  · have h := hs.sound.toRep.removed hs.distinct hi hremove
    intro q hq hlink
    rw [h.rep'.inTree_iff, hs.sound.toRep.live_freed hi] at hq
    rw [h.isLink hq.1] at hlink
    have htree := hs.sound.toRep.inTree_iff.2 hq.2
    refine (hleads q htree hlink).frame h.frame hlink fun s e via' htext hpath => ?_
    exact (hoff n _ via hname).way htree hlink htext hpath

omit hleads in
lemma Settled.frame_set {d : Dirent} (hd : (t.dirent p).SamePlace d)
    (hlink : d.isLink = (t.dirent p).isLink) (hhead : S p → d.head = (t.dirent p).head)
    (htext : (t.dirent p).isLink = true → readLink d = readLink (t.dirent p)) : Frame t (t.set p d) S where
  root := rfl
  isDir := fun q _ => field_set Dirent.isDir hd.isDir q
  head := by
    intro q hq
    by_cases hqp : q = p
    · subst hqp
      rw [dirent_set_self]
      exact hhead hq
    · rw [dirent_set_of_ne hqp]
  isLink := fun q _ => field_set Dirent.isLink hlink q
  text := by
    intro q _ hq
    by_cases hqp : q = p
    · subst hqp
      rw [dirent_set_self]
      exact htext hq
    · rw [dirent_set_of_ne hqp]
  found := by
    intro q name x _ _ hfound
    rcases (dirlookup_ok_iff hs.sound.toRep).1 hfound with ⟨hdir, hname⟩
    refine (dirlookup_ok_iff (hs.sound.set hd).toRep).2 ⟨?_, ?_⟩
    · rw [field_set Dirent.isDir hd.isDir]
      exact hdir
    · rw [← hname]
      unfold named childNamed
      simp only [field_set Dirent.fileSystem hd.fileSystem, field_set Dirent.parent hd.parent,
        field_set Dirent.filename hd.filename]

lemma set_leads {d : Dirent} (hd : (t.dirent p).SamePlace d) (hlink : d.isLink = (t.dirent p).isLink)
    (htext : (t.dirent p).isLink = true → readLink d = readLink (t.dirent p))
    (hhead : d.head = (t.dirent p).head ∨ OffLinks t p) : LinksLead (t.set p d) := by
  intro q hq hqlink
  have htree : t.InTree q := by
    rw [(hs.sound.set hd).toRep.inTree_iff] at hq
    exact hs.sound.toRep.inTree_iff.2 hq
  rw [field_set Dirent.isLink hlink] at hqlink
  rcases hhead with hhead | hoff
  · have hF : Frame t (t.set p d) fun _ => True := hs.frame_set hd hlink (fun _ => hhead) htext
    exact (hleads q htree hqlink).frame hF hqlink fun _ _ _ _ _ => ⟨trivial, trivial, fun _ _ => trivial⟩
  · have hF : Frame t (t.set p d) (· ≠ p) := hs.frame_set hd hlink (fun hne => absurd rfl hne) htext
    exact (hleads q htree hqlink).frame hF hqlink fun s e via htext' hpath => hoff.way htree hqlink htext' hpath

lemma update_leads (hplace : ∀ d : Dirent, d.SamePlace (f d)) (hres : ∀ d, (f d).ntRes = d.ntRes)
    (hhead : ∀ n e via, ename n t c atFdcwd path true = .ok (some e, via) →
      (f (t.dirent e)).head = (t.dirent e).head ∨ OffLinks t e)
    (hok : update n t c path f = .ok t') : LinksLead t' := by
  rcases bind_eq_ok.1 hok with ⟨⟨entry, via⟩, hname, hset⟩
  cases entry with
  | none =>
    cases hset
    exact hleads
  | some e =>
    cases hset
    have hlink : (f (t.dirent e)).isLink = (t.dirent e).isLink := by
      unfold Dirent.isLink
      rw [hres]
    refine set_leads hs hleads (hplace _) hlink (fun hlink' => ?_) (hhead n e via hname)
    rw [ename_isLink hname] at hlink'
    cases hlink'

lemma updateFile_leads {fd : Nat}
    (hlink : ∀ e, c.ofile fd = some (some e) → (t.dirent e).isLink = false)
    (hf : ∀ d, ∃ x y g, f d = { d with firstClus := x, fileSize := y, data := g }) :
    LinksLead (updateFile t c fd f) := by
  unfold updateFile
  split
  · rename_i e hfile
    rcases hf (t.dirent e) with ⟨x, y, g, heq⟩
    rw [heq]
    refine set_leads hs hleads ⟨rfl, rfl, rfl, rfl, rfl, rfl⟩ rfl (fun hlink' => ?_) (.inl rfl)
    rw [hlink e hfile] at hlink'
    cases hlink'
  · exact hleads

omit hleads in
lemma Settled.named_isDir (hp : sh.Live p) (hdir : (t.dirent p).isDir = true) (hq : named t sh p name = some q) :
    (∃ j, q = .dirent j) ∨ (t.dirent q).isDir = true := by
  unfold named at hq
  split at hq
  · cases hq
    exact .inr hdir
  · split at hq
    · split at hq
      · cases hq
        exact .inr hdir
      · cases p with
        | root k =>
          rw [hs.sound.rootless k] at hq
          cases hq
        | dirent j =>
          rcases hp with ⟨d, hd⟩
          rw [hs.sound.parent d j hd] at hq
          cases hq
          exact .inr (hs.sound.dirs q j hd)
    · rcases Option.map_eq_some_iff.1 hq with ⟨j, _, rfl⟩
      exact .inl ⟨j, rfl⟩

omit hleads in
/-- A path with names in it does not come to a root that is no directory. -/
theorem Settled.past_root (hk : (t.dirent (.root k)).isDir = false) (hq : sh.Live q)
    (hloop : lookupLoop t (plainJump t) false (some q) names = .ok (.ended (some e), via)) :
    (∀ x ∈ via, x ≠ .root k) ∧ (names ≠ [] → e ≠ .root k) := by
  have hne : ∀ {x : Ptr}, (t.dirent x).isDir = true → x ≠ .root k := by
    rintro x hx rfl
    rw [hk] at hx
    cases hx
  have hclosed : Closed t rootCtx sh.Live := hs.sound.closed ⟨trivial, nofun⟩
  induction names generalizing q via with
  | nil =>
    cases hloop
    exact ⟨nofun, fun h => absurd rfl h⟩
  | cons name names ih =>
    rcases lookupLoop_cons_ended hloop with ⟨dir, via₁, found, via₂, henter, hfound, hmore, rfl⟩
    rcases (dirlookup_ok_iff hs.sound.toRep).1 hfound with ⟨hdir, hnamed⟩
    rcases bind_eq_ok.1 henter with ⟨⟨p, v⟩, hjump, heq⟩
    rcases plainJump_ok hjump with ⟨heq', rfl, _⟩
    cases heq'
    rcases Prod.mk.inj (Except.ok.inj heq) with ⟨hcross, rfl⟩
    rcases hs.cross_isDir hcross with ⟨hqdir, _, hmoredir⟩
    have hdirlive : sh.Live dir := (hclosed.cross hq).1 dir hcross
    have hlive := hclosed.found dir name found hdirlive hfound
    rcases ih hlive hmore with ⟨hvia₂, hend⟩
    refine ⟨fun x hx => ?_, fun _ => ?_⟩
    · rcases mem_append.1 hx with hx | hx
      · rcases mem_append.1 hx with hx | hx
        · rw [mem_singleton.1 hx]
          exact hne hqdir
        · exact hne (hmoredir x hx)
      · exact hvia₂ x hx
    · cases names with
      | cons _ _ => exact hend (by simp)
      | nil =>
        cases hmore
        rcases hs.named_isDir hdirlive hdir hnamed with ⟨j, rfl⟩ | hfounddir
        · nofun
        · exact hne hfounddir

/-- Loading a volume into a root that was no directory. -/
theorem fatInit_leads {vol : Volume} (hfresh : (t.dirent (.root k)).isDir = false) (hvol : vol.Linkless)
    (hok : fatInit n vol k t = .ok t') : LinksLead t' := by
  rcases hvol with ⟨layout, depth, hon, horder, _, hnolinks⟩
  rcases hs.sound.setRoot vol hfresh with ⟨hsound, _⟩
  set u := t.set (.root k) (rootDirent vol k) with hu
  have hself : u.dirent (.root k) = rootDirent vol k := dirent_set_self
  rcases loadDirents_result hsound (p := .root k) trivial (by rw [hself]; exact isDir_rootDirent)
    (by rw [hself]; exact hon) hok with ⟨sh', hres⟩
  have hnew := hres.links
  rw [show (Ptr.root k = .root k) = True by simp, hself] at hnew
  have hrootLink : (t'.dirent (.root k)).isLink = false := by
    rw [isLink_congr (hres.grown.content (.root k) trivial), hself]
    rfl
  have hcontent : ∀ q, sh.Live q → q ≠ .root k → (t'.dirent q).content = (t.dirent q).content := by
    intro q hq hqk
    rw [hres.grown.content q hq, hu, dirent_set_of_ne hqk]
  -- seen from the other entries nothing has changed
  have hF : Frame t t' fun q => sh.Live q ∧ q ≠ .root k := by
    refine ⟨hres.grown.root, ?_, ?_, ?_, ?_, ?_⟩
    · exact fun q hq => isDir_congr (hcontent q hq.1 hq.2)
    · exact fun q hq => field_content Dirent.head (fun _ => rfl) (hcontent q hq.1 hq.2)
    · exact fun q hq => isLink_congr (hcontent q hq.1 hq.2)
    · exact fun q hq _ => field_content readLink (fun _ => rfl) (hcontent q hq.1 hq.2)
    · intro q name x hq _ hfound
      rcases (dirlookup_ok_iff hs.sound.toRep).1 hfound with ⟨hdir, hname⟩
      refine (dirlookup_ok_iff hres.sound.toRep).2 ⟨?_, ?_⟩
      · rw [isDir_congr (hcontent q hq.1 hq.2)]
        exact hdir
      · rw [← hname]
        unfold named childNamed
        rw [hres.grown.kids q hq.1 hq.2, field_content Dirent.fileSystem (fun _ => rfl) (hcontent q hq.1 hq.2),
          field_content Dirent.parent (fun _ => rfl) (hcontent q hq.1 hq.2)]
        have hfind := find?_congr_of_mem
          (P := fun i => sameName (t'.dirent (.dirent i)).filename name)
          fun i hi => by
            rw [filename_congr (hcontent (.dirent i) ⟨q, hi⟩ nofun)]
        rw [hfind]
  intro q hq hlink
  by_cases hlive : sh.Live q
  · have hqk : q ≠ .root k := by
      rintro rfl
      rw [hrootLink] at hlink
      cases hlink
    rw [isLink_congr (hcontent q hlive hqk)] at hlink
    rcases hleads q (hs.sound.toRep.inTree_iff.2 hlive) hlink with ⟨s, e, via, htext, hpath⟩
    refine ⟨s, e, via, ?_, ?_⟩
    · rw [hF.text q ⟨hlive, hqk⟩ hlink]
      exact htext
    · have hlive₀ : sh.Live (.root t.rootFileSystem) := trivial
      rcases hs.past_root hfresh hlive₀ hpath.1 with ⟨hvia, hend⟩
      rcases hpath.live hs.sound with ⟨helive, hvialive⟩
      by_cases hempty : elems (slash :: s) = []
      · -- the path of the root itself
        rcases hpath with ⟨hloop, hplain⟩
        rw [hempty] at hloop
        cases hloop
        refine ⟨?_, ?_⟩
        · rw [hempty, hF.root]
          rfl
        · by_cases hroot : Ptr.root t.rootFileSystem = .root k
          · rw [hroot]
            exact hrootLink
          · rw [hF.isLink _ ⟨hlive₀, hroot⟩]
            exact hplain
      · exact hpath.frame hF (fun x hx => ⟨hvialive x hx, hvia x hx⟩) ⟨helive, hend hempty⟩
  · rw [hnew horder hnolinks q (hres.sound.toRep.inTree_iff.1 hq) hlive] at hlink
    cases hlink

end steps

lemma step_leads (hset : ∃ sh, Settled t sh) (hleads : LinksLead t) (hsteady : a.Steady t) (hstep : Step t a t') :
    LinksLead t' := by
  rcases hset with ⟨sh, hs⟩
  rcases hsteady with ⟨⟨hproper, horderly⟩, hmore⟩
  rcases hstep with ⟨n, hok⟩
  have hctx : ∀ {c : Ctx}, c.InTree t → c.Live sh := hs.sound.toRep.ctx_inTree_iff.1
  cases a with
  | fatInit k vol => exact fatInit_leads hs hleads hproper.1 horderly hok
  | create c fd path type clus =>
    rcases bind_eq_ok.1 hok with ⟨⟨r, u⟩, hcreate, hu⟩
    cases hu
    exact create_leads hs hleads (hctx hproper) horderly.2 hcreate
  | unlinkat c fd path =>
    rcases bind_eq_ok.1 hok with ⟨⟨r, u⟩, hunlink, hu⟩
    cases hu
    exact doUnlinkat_leads hs hleads (hctx hproper.1) hmore hunlink
  | linkat c oldFd oldPath newFd newPath clus =>
    rcases bind_eq_ok.1 hok with ⟨⟨r, u⟩, hlink, hu⟩
    cases hu
    exact doLinkat_leads hs hleads (hctx hproper) horderly.2 hmore hlink
  | mount c path k =>
    refine update_leads hs hleads (f := fun d => { d with head := some k }) ?_ (fun _ => rfl) ?_ hok
    · exact fun _ => ⟨rfl, rfl, rfl, rfl, rfl, rfl⟩
    · exact fun n e via hname => .inr (hmore n e via hname)
  | device c path dev =>
    refine update_leads hs hleads (f := fun d => { d with dev := dev }) ?_ (fun _ => rfl) ?_ hok
    · exact fun _ => ⟨rfl, rfl, rfl, rfl, rfl, rfl⟩
    · exact fun _ _ _ _ => .inl rfl
  | write c fd off bytes clus =>
    cases hok
    exact updateFile_leads hs hleads horderly fun d => ewrite_eq d off bytes clus
  | trunc c fd =>
    cases hok
    exact updateFile_leads hs hleads horderly fun d => ⟨0, 0, fun _ => 0, rfl⟩

/-- In every run of steady actions, each lookup returns in the state that is reached. -/
theorem lookups_end {as : List Act} (hrun : Run (fun t a t' => a.Steady t ∧ Step t a t') boot as t) : Ends t := by
  have hinv : (∃ sh, Settled t sh) ∧ LinksLead t := by
    refine hrun.invariant (P := fun t => (∃ sh, Settled t sh) ∧ LinksLead t) ⟨⟨bootShape, settled_boot⟩, ?_⟩ ?_
    · intro q _ hlink
      have hnot : (boot.dirent q).isLink = false := by
        cases q with
        | dirent i => rfl
        | root k => rfl
      rw [hnot] at hlink
      cases hlink
    · rintro t a t' ⟨hset, hleads⟩ ⟨hsteady, hstep⟩
      exact ⟨step_settled hset hsteady.1 hstep, step_leads hset hleads hsteady hstep⟩
  rcases hinv with ⟨⟨sh, hs⟩, hleads⟩
  exact ends hs fun q hq hlink => hleads q (hs.sound.toRep.inTree_iff.2 hq) hlink

def danglingActs : List Act := linkActs ++ [.unlinkat rootCtx atFdcwd pathD]

/-- The file that a link leads to is unlinked: following the link fails the assertion. -/
theorem dangling_link_asserts : ∃ t, Run Step boot danglingActs t ∧ ¬ Ends t := by
  rcases exists_of_any (o := after danglingActs) (P := fun t =>
    startDirent t rootCtx atFdcwd pathL = some (some (.root 0)) ∧
    ename 3 t rootCtx atFdcwd pathL true = .error .assertion) (by decide +kernel) with ⟨t, ht, hstart, hname⟩
  refine ⟨t, run_after ht, fun hends => ?_⟩
  rcases (hends rootCtx atFdcwd pathL ⟨trivial, nofun⟩ (by rw [hstart]; nofun)).1 true with ⟨n, x, hx⟩
  have heq := eq_of_ne_oof (fun n => ename_below atFdcwd pathL true n) (by rw [hx]; nofun)
    (by rw [hname]; nofun)
  rw [hx, hname] at heq
  cases heq

theorem lookups_end_link : ∃ t, Run Step boot linkActs t ∧ Ends t := by
  set t₁ := boot.stepped (.fatInit 0 (rootVolume []))
  set t₂ := t₁.stepped (.create rootCtx atFdcwd pathD .file 0)
  set t₃ := t₂.stepped (.linkat rootCtx atFdcwd pathD atFdcwd pathL 7)
  have hname : ename 2 t₂ rootCtx atFdcwd pathD true = .ok (some (.dirent 8191), [.root 0, .dirent 8191]) := by
    decide +kernel
  have hnone : ename 2 t₂ rootCtx atFdcwd pathL false = .ok (none, [.root 0]) := by decide +kernel
  have habs : getAbsolutePath t₂ (.dirent 8191) = some pathD := by decide +kernel
  have hpath : PlainPath t₂ pathD (.dirent 8191) [.root 0] := ⟨by decide +kernel, by decide +kernel⟩
  have hlinkable : Linkable t₂ rootCtx atFdcwd pathD atFdcwd pathL := by
    refine ⟨fun n e via hn => ?_, fun n e via buf hn hbuf => ?_⟩
    · cases ename_unique hn hnone
    · cases ename_unique hn hname
      rw [habs] at hbuf
      cases hbuf
      decide
  have hrun : Run (fun t a t' => a.Steady t ∧ Step t a t') boot linkActs t₃ := by
    refine .cons ⟨⟨⟨⟨by decide +kernel, fit_empty⟩, linkless_empty⟩, trivial⟩, step_stepped (by decide +kernel)⟩ ?_
    refine .cons ⟨⟨⟨rootCtx_inTree _, by decide, by decide⟩, trivial⟩, step_stepped (by decide +kernel)⟩ ?_
    refine .cons ⟨⟨⟨rootCtx_inTree _, by decide, hlinkable⟩, fun n e via hn => ?_⟩, step_stepped (by decide +kernel)⟩ (.nil _)
    cases ename_unique hn hname
    exact ⟨pathD, _, habs, hpath⟩
  exact ⟨t₃, hrun.mono fun _ _ _ hstep => hstep.2, lookups_end hrun⟩

end Tree
end OsRiscv
