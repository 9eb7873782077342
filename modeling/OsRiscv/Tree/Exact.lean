import OsRiscv.Tree.Directory

/-!
# Exact — when loading a directory is exact

`Exact` is the purpose of `loadDirents`: one child for each live entry, with what the entry says, and below it
the directory that it names, unless it is a dot entry.  `loadDirents_exact` says for which directories the
function does that.
-/

namespace OsRiscv
namespace Tree

open List hiding tail
open Lib

section defs

variable (layout : Nat → List Item) (t : Fs) (sh : Shape) {tail : List Raw}

/-- The dirent `i` is the entry's, with its name in bytes, and below it is what should be. -/
structure ChildExact (sub : Ptr → Nat → Prop) (oe : Nat × Entry) (i : Nat) : Prop where
  name : (t.dirent (.dirent i)).filename.map UInt8.toNat = oe.2.name
  attr : (t.dirent (.dirent i)).attr = oe.2.short.attr
  firstClus : (t.dirent (.dirent i)).firstClus = oe.2.short.firstClus
  fileSize : (t.dirent (.dirent i)).fileSize = oe.2.short.fileSize
  off : (t.dirent (.dirent i)).off = oe.1
  below : oe.2.isDir = true → oe.2.isDot = false → sub (.dirent i) oe.2.short.firstClus
  rest : ¬ (oe.2.isDir = true ∧ oe.2.isDot = false) → sh.kids (.dirent i) = []

/-- In front of the children `old` of `p` there is one for each live entry of the directory `x`. -/
def Exact : Nat → Ptr → Nat → List Nat → Prop
  | 0, _, _, _ => False
  | d + 1, p, x, old => ∃ new, sh.kids p = new ++ old ∧
      List.Forall₂ (ChildExact t sh fun q y => Exact d q y []) (liveAt 0 (layout x)) new.reverse

/-- The characters of all names are bytes. -/
def ByteNames : Nat → Nat → Prop
  | 0, _ => False
  | d + 1, x => ∀ oe ∈ liveAt 0 (layout x), (∀ ch ∈ oe.2.name, ch < 256) ∧
      (oe.2.isDir = true → oe.2.isDot = false → ByteNames d oe.2.short.firstClus)

end defs

variable {vol : Volume} {layout : Nat → List Item} {k d n m off ep : Nat} {t t' : Fs} {sh sh' : Shape} {p q : Ptr}
  {S : Ptr → Prop} {i x : Nat} {oe : Nat × Entry} {e : Entry} {its : List Item} {raws : List Raw} {old : List Nat}

/-! ## Names -/

lemma liveAt_valid (hv : ∀ it ∈ its, it.Valid) (hoe : oe ∈ liveAt off its) : oe.2.Valid := by
  induction its generalizing off with
  | nil => cases hoe
  | cons it its ih =>
    have hrest : ∀ it ∈ its, it.Valid := fun it hit => hv it (by simp [hit])
    cases it with
    | deleted r => exact ih hrest hoe
    | live f =>
      rcases mem_cons.1 hoe with rfl | hoe
      · exact hv (.live f) (by simp)
      · exact ih hrest hoe

lemma Entry.Valid.zero_notMem_name (hv : e.Valid) : 0 ∉ e.name := by
  intro hzero
  unfold Entry.name at hzero
  split at hzero
  · rename_i hlongs
    rcases mem_map.1 hzero with ⟨b, hb, hb0⟩
    refine hv.short_name hlongs ?_
    rwa [show b = 0 from UInt8.toNat_inj.1 hb0] at hb
  · have hmem := mem_takeWhile_imp hzero
    simp at hmem

lemma Entry.Valid.map_filename_iff (hv : e.Valid) :
    e.filename.map UInt8.toNat = e.name ↔ ∀ ch ∈ e.name, ch < 256 := by
  constructor
  · intro hname ch hch
    rw [← hname] at hch
    rcases mem_map.1 hch with ⟨b, _, rfl⟩
    exact b.toNat_lt
  · intro hbytes
    have hmod : ∀ ch ∈ e.name, (UInt8.ofNat ch).toNat = ch := by
      intro ch hch
      simpa using Nat.mod_eq_of_lt (hbytes ch hch)
    have hall : e.filename = e.name.map UInt8.ofNat := by
      unfold Entry.filename
      rw [takeWhile_eq_self_iff]
      intro b hb
      rcases mem_map.1 hb with ⟨ch, hch, rfl⟩
      have hne : UInt8.ofNat ch ≠ 0 := by
        intro hzero
        have hch0 := hmod ch hch
        rw [hzero] at hch0
        refine hv.zero_notMem_name ?_
        rwa [← show (0 : Nat) = ch from hch0] at hch
      simpa using hne
    rw [hall, map_map]
    exact (map_congr_left hmod).trans (map_id _)

/-! ## What is left behind is exact just if the directory is in order -/

lemma dirent_ne_root : (Ptr.dirent i = .root k) = False := by
  simp

lemma OnDisk.valid (hon : OnDisk vol layout (d + 1) x) (hoe : oe ∈ liveAt 0 (layout x)) : oe.2.Valid := by
  rcases hon.1 with ⟨_, _, hv, _⟩
  exact liveAt_valid hv hoe

lemma exact_of_left (hon : OnDisk vol layout d x) (hleft : Left vol layout k t sh S d p x old)
    (horder : InOrder vol layout d (p = .root k) x) (hbytes : ByteNames layout d x) :
    Exact layout t sh d p x old := by
  induction d generalizing p x old with
  | zero => cases hon
  | succ d ih =>
    rcases hleft with ⟨new, hnew, _, hleft⟩
    refine ⟨new, hnew, ?_⟩
    refine forall₂_imp_mem (hleft horder.1) fun oe hoe i _ hchild => ?_
    rcases hchild with ⟨_, hloaded, hbelow⟩
    rcases horder.2 oe hoe with ⟨hdec, hordbelow⟩
    rcases hbytes oe hoe with ⟨hname, hbytesbelow⟩
    refine ⟨?_, hloaded.attr, hloaded.firstClus, hloaded.fileSize, hloaded.off, ?_, ?_⟩
    · rw [hloaded.filename]
      exact (hon.valid hoe).map_filename_iff.2 hname
    · intro hdir hdot
      have hon' := hon.2 oe hoe hdir hdot
      by_cases hdesc : descends (p = .root k) oe
      · refine ih hon' (hbelow.dirs hdesc hdot) ?_ (hbytesbelow hdir hdot)
        rw [dirent_ne_root]
        exact hordbelow hdir hdot
      · -- a directory in the place of a dot entry, with nothing in it
        have hno : NoLive vol oe.2.short.firstClus := by
          rcases hdec hdir with hiff | hno
          · exact absurd ⟨hdir, hiff.2 hdot⟩ hdesc
          · exact hno
        cases d with
        | zero => cases hon'
        | succ d =>
          refine ⟨[], hbelow.rest hdesc, ?_⟩
          rw [(noLive_iff hon').1 hno]
          exact List.Forall₂.nil
    · intro hnot
      by_cases hdesc : descends (p = .root k) oe
      · -- a dot entry in the place of another, with nothing in it
        have hdot : oe.2.isDot = true := by
          cases hd : oe.2.isDot with
          | true => rfl
          | false => exact absurd ⟨hdesc.1, hd⟩ hnot
        rw [hbelow.dots hdesc hdot]
        rcases hdec hdesc.1 with hiff | hno
        · rw [hdot] at hiff
          cases hiff.1 hdesc.2
        · exact hno
      · exact hbelow.rest hdesc

lemma exists_of_forall₂ {α β : Type*} {R R' : α → β → Prop} {l : List α} {l' : List β} (h : List.Forall₂ R l l')
    (h' : List.Forall₂ R' l l') {a : α} (ha : a ∈ l) : ∃ b, R a b ∧ R' a b := by
  induction h with
  | nil => cases ha
  | cons hab _ ih =>
    cases h' with
    | cons hab' h' =>
      rcases mem_cons.1 ha with rfl | ha
      · exact ⟨_, hab, hab'⟩
      · exact ih h' ha

lemma Exact.liveAt_eq_nil (h : Exact layout t sh d p x []) (hkids : sh.kids p = []) : liveAt 0 (layout x) = [] := by
  cases d with
  | zero => cases h
  | succ d =>
    rcases h with ⟨new, hnew, hforall⟩
    have hlen := hforall.length_eq
    rw [hkids, append_nil] at hnew
    rw [← hnew] at hlen
    exact length_eq_zero_iff.1 hlen

lemma tidy_of_liveAt_eq_nil (h : liveAt off its = []) : Tidy its := by
  cases its with
  | nil => trivial
  | cons it its =>
    cases it with
    | live f => cases h
    | deleted r => exact fun off' => liveAt_eq_nil_of off' h

lemma inOrder_of_liveAt_eq_nil {isRoot : Prop} (hon : OnDisk vol layout d x) (h : liveAt 0 (layout x) = []) :
    InOrder vol layout d isRoot x ∧ ByteNames layout d x := by
  cases d with
  | zero => cases hon
  | succ d =>
    refine ⟨⟨tidy_of_liveAt_eq_nil h, ?_⟩, ?_⟩
    · rw [h]
      nofun
    · unfold ByteNames
      rw [h]
      nofun

lemma inOrder_of_exact (hon : OnDisk vol layout d x) (hleft : Left vol layout k t sh S d p x old)
    (hexact : Exact layout t sh d p x old) : InOrder vol layout d (p = .root k) x ∧ ByteNames layout d x := by
  induction d generalizing p x old with
  | zero => cases hon
  | succ d ih =>
    rcases hleft with ⟨new, hnew, hlen, hleft⟩
    rcases hexact with ⟨new', hnew', hexact⟩
    have heq : new' = new := append_cancel_right (hnew'.symm.trans hnew)
    subst heq
    -- one child for each live entry: no round was for deleted entries
    have htidy : Tidy (layout x) := by
      rw [← rounds_eq_iff (layout x) 0, ← hlen, hexact.length_eq, length_reverse]
    have hchild : ∀ oe ∈ liveAt 0 (layout x), (Decided vol (p = .root k) oe ∧ ∀ ch ∈ oe.2.name, ch < 256) ∧
        (oe.2.isDir = true → oe.2.isDot = false →
          InOrder vol layout d False oe.2.short.firstClus ∧ ByteNames layout d oe.2.short.firstClus) := by
      intro oe hoe
      rcases exists_of_forall₂ (hleft htidy) hexact hoe with ⟨i, ⟨_, hloaded, hbelow⟩, hex⟩
      refine ⟨⟨?_, ?_⟩, ?_⟩
      · intro hdir
        by_cases hdesc : descends (p = .root k) oe
        · cases hdot : oe.2.isDot with
          | true => exact .inr ((hbelow.dots hdesc hdot).1 (hex.rest (by simp [hdot])))
          | false => exact .inl ⟨fun _ => rfl, fun _ => hdesc.2⟩
        · have hplace : ¬ (oe.1 > 32 ∨ p = .root k) := fun hp => hdesc ⟨hdir, hp⟩
          cases hdot : oe.2.isDot with
          | true => exact .inl ⟨fun hp => absurd hp hplace, nofun⟩
          | false =>
            -- the directory was not loaded, so it has nothing in it
            refine .inr ((noLive_iff (hon.2 oe hoe hdir hdot)).2 ?_)
            exact (hex.below hdir hdot).liveAt_eq_nil (hbelow.rest hdesc)
      · rw [← (hon.valid hoe).map_filename_iff, ← hloaded.filename]
        exact hex.name
      · intro hdir hdot
        by_cases hdesc : descends (p = .root k) oe
        · have hsub := ih (hon.2 oe hoe hdir hdot) (hbelow.dirs hdesc hdot) (hex.below hdir hdot)
          rw [dirent_ne_root] at hsub
          exact hsub
        · exact inOrder_of_liveAt_eq_nil (hon.2 oe hoe hdir hdot)
            ((hex.below hdir hdot).liveAt_eq_nil (hbelow.rest hdesc))
    exact ⟨⟨htidy, fun oe hoe => ⟨(hchild oe hoe).1.1, fun hdir hdot => ((hchild oe hoe).2 hdir hdot).1⟩⟩,
      fun oe hoe => ⟨(hchild oe hoe).1.2, fun hdir hdot => ((hchild oe hoe).2 hdir hdot).2⟩⟩

/-! ## The loading ends -/

section fuel

variable {loop loop' : Ptr → List Raw → Nat → Nat → Fs → Except Stop Fs}
  (hloop : ∀ p raws off ep t, Below Stop.fuel (loop p raws off ep t) (loop' p raws off ep t))
include hloop

lemma loadWith_below (p : Ptr) (t : Fs) : Below Stop.fuel (loadWith vol loop p t) (loadWith vol loop' p t) := by
  unfold loadWith
  cases vol.entries (t.dirent p).firstClus with
  | none => exact .refl _
  | some raws => exact (Below.refl _).bind fun _ => hloop _ _ _ _ _

lemma loadBelow_below (p : Ptr) (off ep : Nat) (isDir : Bool) (t : Fs) :
    Below Stop.fuel (loadBelow vol k loop p off ep isDir t) (loadBelow vol k loop' p off ep isDir t) := by
  unfold loadBelow
  split
  · exact loadWith_below hloop _ _
  · exact .refl _

end fuel

lemma loadLoop_below (n : Nat) (p : Ptr) (raws : List Raw) (off ep : Nat) (t : Fs) :
    Below Stop.fuel (loadLoop vol k n p raws off ep t) (loadLoop vol k (n + 1) p raws off ep t) := by
  induction n generalizing p raws off ep t with
  | zero => exact .bot _
  | succ n ih =>
    refine (Below.refl _).bind ?_
    rintro ⟨r, count, d⟩
    dsimp only
    split
    · exact .refl _
    · refine (loadBelow_below ih _ _ _ _ _).bind fun u => (Below.refl _).bind fun v => ?_
      exact ih _ _ _ _ _

lemma loadLoop_of_enext {count : Nat} {d : Dirent}
    (hd : enext vol raws (t.dirent (.dirent ep)) off = .ok (-1, count, d)) :
    ∃ t', loadLoop vol k 1 p raws off ep t = .ok t' := by
  refine ⟨direntFree (t.set (.dirent ep) d) ep, ?_⟩
  unfold loadLoop
  rw [hd]
  rfl

lemma exists_loadWith_noLive (h : Sound t sh none) (hno : NoLive vol (t.dirent p).firstClus)
    (hfree : 0 < sh.free.length) : ∃ n t', loadWith vol (loadLoop vol k n) p t = .ok t' := by
  rcases exists_cons_of_length_pos hfree with ⟨ep, rest, hfree⟩
  rcases hno with ⟨raws, hentries, hnone⟩
  rcases hnone (t.dirent (.dirent ep)) with ⟨count, d, hd⟩
  rcases loadLoop_of_enext (t := { t with direntHead := t.next ep }) hd with ⟨t', hok⟩
  refine ⟨1, t', ?_⟩
  unfold loadWith
  rw [hentries, (h.alloc hfree).1]
  exact hok

/-- The directories at depth `d` are loaded if there are dirents enough. -/
def Loads (vol : Volume) (layout : Nat → List Item) (k d : Nat) : Prop :=
  ∀ x p t sh, OnDisk vol layout d x → InOrder vol layout d (p = .root k) x → Sound t sh none → sh.Live p →
    (t.dirent p).isDir = true → (t.dirent p).firstClus = x → diskSize layout d x < sh.free.length →
    ∃ n t', loadWith vol (loadLoop vol k n) p t = .ok t'

lemma exists_loadBelow (hloads : Loads vol layout k d) (h : Sound t sh none) (hep : sh.Live (.dirent ep))
    (hloaded : Loaded t oe ep)
    (hon : oe.2.isDir = true → oe.2.isDot = false → OnDisk vol layout d oe.2.short.firstClus)
    (horder : EntriesInOrder vol layout d (p = .root k) [oe]) (hsize : entriesSize layout d [oe] ≤ sh.free.length) :
    ∃ n t', loadBelow vol k (loadLoop vol k n) p oe.1 ep oe.2.isDir t = .ok t' := by
  have hdir : (t.dirent (.dirent ep)).isDir = oe.2.isDir := by
    unfold Dirent.isDir Entry.isDir
    rw [hloaded.attr]
  rcases horder oe (by simp) with ⟨hdec, hordbelow⟩
  unfold loadBelow
  by_cases hdesc : descends (p = .root k) oe
  · simp only [if_pos (show _ ∧ _ from hdesc)]
    cases hdot : oe.2.isDot with
    | true =>
      refine exists_loadWith_noLive h ?_ ?_
      · rw [hloaded.firstClus]
        rcases hdec hdesc.1 with hiff | hno
        · rw [hdot] at hiff
          cases hiff.1 hdesc.2
        · exact hno
      · simp only [entriesSize, hdot, map_cons, map_nil, sum_cons, sum_nil] at hsize
        omega
    | false =>
      refine hloads oe.2.short.firstClus _ t sh (hon hdesc.1 hdot) ?_ h hep (by rw [hdir]; exact hdesc.1)
        hloaded.firstClus ?_
      · rw [dirent_ne_root]
        exact hordbelow hdesc.1 hdot
      · simp only [entriesSize, hdot, hdesc.1, map_cons, map_nil, sum_cons, sum_nil, and_self,
          if_true] at hsize
        omega
  · simp only [if_neg (show ¬ (_ ∧ _) from hdesc)]
    exact ⟨0, t, rfl⟩

lemma exists_loadLoop_nil (hend : IsEnd tail) (hv : ∀ it ∈ its, it.Valid)
    (hraws : raws.drop m = its.flatMap Item.raws ++ tail) (hnil : liveAt (32 * m) its = []) :
    ∃ n t', loadLoop vol k n p raws (32 * m) ep t = .ok t' := by
  have hfind : ∃ count dd, enext vol raws (t.dirent (.dirent ep)) (32 * m) = .ok (-1, count, dd) := by
    unfold enext
    rw [Nat.mul_div_cancel_left m (by decide), hraws]
    exact (enextLoop_noLive hv hend).2 hnil
  rcases hfind with ⟨count, dd, hd⟩
  exact ⟨1, loadLoop_of_enext hd⟩

lemma exists_loadLoop (hloads : Loads vol layout k d) (hend : IsEnd tail) (htidy : Tidy its)
    (hv : ∀ it ∈ its, it.Valid) (hraws : raws.drop m = its.flatMap Item.raws ++ tail)
    (horder : EntriesInOrder vol layout d (p = .root k) (liveAt (32 * m) its))
    (hon : ∀ oe ∈ liveAt (32 * m) its, oe.2.isDir = true → oe.2.isDot = false →
      OnDisk vol layout d oe.2.short.firstClus)
    (h : Sound t sh (some ep)) (hp : sh.Live p) (hdir : (t.dirent p).isDir = true)
    (hsize : entriesSize layout d (liveAt (32 * m) its) ≤ sh.free.length) :
    ∃ n t', loadLoop vol k n p raws (32 * m) ep t = .ok t' := by
  induction its generalizing m ep t sh with
  | nil => exact exists_loadLoop_nil hend hv hraws rfl
  | cons it its ih =>
    cases it with
    | deleted r => exact exists_loadLoop_nil hend hv hraws (htidy _)
    | live f =>
      have hf : f.Valid := hv (.live f) (by simp)
      have hd : enext vol raws (t.dirent (.dirent ep)) (32 * m) = .ok (1, f.longs.length + 1,
          readEntryInfo vol { t.dirent (.dirent ep) with filename := f.filename } f.short) := by
        unfold enext
        rw [Nat.mul_div_cancel_left m (by decide), hraws, flatMap_cons, append_assoc]
        exact enextLoop_front hf
      have hpe : p ≠ .dirent ep := by
        rintro rfl
        exact h.not_live hp
      rcases linkChild_grown h hp hdir hd with ⟨hs₁, hg₁⟩
      rcases entriesInOrder_cons horder with ⟨horder₁, horder₂⟩
      rw [liveAt, entriesSize_cons] at hsize
      have hon₁ := hon (32 * m, f) (by simp [liveAt])
      have hlive₁ : (sh.add p ep).Live (.dirent ep) := ⟨p, by simp⟩
      have hnil : (sh.add p ep).kids (.dirent ep) = [] := by
        rw [Shape.kids_add_of_ne hpe.symm]
        exact h.kids_eq_nil (h.hold ep rfl).2
      have hfree₁ : (sh.add p ep).free = sh.free := rfl
      -- the child and what is below it
      rcases exists_loadBelow hloads hs₁ hlive₁ loaded_linkChild hon₁ horder₁ (by rw [hfree₁]; omega) with
        ⟨n₁, t₂, hbelow⟩
      rcases loadBelow_result (loopSpec vol layout k n₁) hs₁ hlive₁ hnil loaded_linkChild hon₁ hbelow with
        ⟨sh₂, hres⟩
      have hcount := hres.count horder₁
      rw [hfree₁] at hcount
      rcases exists_cons_of_length_pos (l := sh₂.free) (by omega) with ⟨ep', rest, hfree⟩
      have hlen : sh₂.free.length = rest.length + 1 := by rw [hfree, length_cons]
      -- the entries after it
      have hg₃ := (hg₁.trans_below h hp h.not_live hres.grown).trans h (Grown.alloc ep' rest)
      have hoff : 32 * (m + (f.longs.length + 1)) = 32 * m + 32 * (f.longs.length + 1) := Nat.mul_add _ _ _
      have hdir₃ : (t₂.dirent p).isDir = true := (isDir_congr (hg₃.content p hp)).trans hdir
      rw [flatMap_cons, append_assoc] at hraws
      rw [← hoff] at horder₂ hsize
      rcases ih htidy (fun it hit => hv it (by simp [hit])) (drop_raws hraws) horder₂
        (fun oe hoe => hon oe (by simp [liveAt, ← hoff, hoe])) (hres.sound.alloc hfree).2 (hg₃.live h hp) hdir₃
        (by dsimp only; omega) with ⟨n₂, t', hrest⟩
      refine ⟨max n₁ n₂ + 1, t', ?_⟩
      set t₁ := linkChild t k p (32 * m) ep
        (readEntryInfo vol { t.dirent (.dirent ep) with filename := f.filename } f.short) with ht₁
      have hgrow : ∀ n, Below Stop.fuel (loadBelow vol k (loadLoop vol k n) p (32 * m) ep f.isDir t₁)
          (loadBelow vol k (loadLoop vol k (n + 1)) p (32 * m) ep f.isDir t₁) :=
        fun n => loadBelow_below (loadLoop_below n) p (32 * m) ep f.isDir t₁
      unfold loadLoop
      rw [hd, ok_bind]
      refine bind_eq_ok.2 ⟨t₂, ok_of_le hgrow (Nat.le_max_left n₁ n₂) hbelow, ?_⟩
      rw [(hres.sound.alloc hfree).1, ok_bind, ← hoff]
      exact ok_of_le (fun n => loadLoop_below n p raws _ ep' _) (Nat.le_max_right n₁ n₂) hrest

lemma loads (vol : Volume) (layout : Nat → List Item) (k d : Nat) : Loads vol layout k d := by
  induction d with
  | zero =>
    intro x p t sh hon
    cases hon
  | succ d ih =>
    intro x p t sh hon horder h hp hdir hx hsize
    rcases hon with ⟨⟨raws, hentries, hv, tail, hend, hraws⟩, hbelow⟩
    rcases exists_cons_of_length_pos (l := sh.free) (by omega) with ⟨ep, rest, hfree⟩
    have hlen : sh.free.length = rest.length + 1 := by rw [hfree, length_cons]
    rcases exists_loadLoop (m := 0) ih hend horder.1 hv hraws horder.2 hbelow (h.alloc hfree).2 (live_alloc hp) hdir (by
      change entriesSize layout d (liveAt 0 (layout x)) < sh.free.length at hsize
      change entriesSize layout d (liveAt 0 (layout x)) ≤ rest.length
      omega) with ⟨n, t', hok⟩
    refine ⟨n, t', ?_⟩
    unfold loadWith
    rw [hx, hentries, (h.alloc hfree).1]
    exact hok

/-! ## Exactly which directories are loaded exactly -/

lemma loadLoop_head (hok : loadLoop vol k n p raws off ep t = .ok t') : t'.direntHead ≠ none := by
  induction n generalizing raws off ep t with
  | zero => cases hok
  | succ n ih =>
    rcases bind_eq_ok.1 hok with ⟨⟨r, count, d⟩, _, hok⟩
    dsimp only at hok
    split at hok
    · cases hok
      nofun
    · rcases bind_eq_ok.1 hok with ⟨_, _, hok⟩
      rcases bind_eq_ok.1 hok with ⟨⟨ep', v⟩, _, hok⟩
      exact ih hok

lemma loadDirents_head (hok : loadDirents n vol k p t = .ok t') : t'.direntHead ≠ none := by
  rcases loadWith_ok hok with ⟨_, _, _, _, _, hok⟩
  exact loadLoop_head hok

/-- The short entry of the file `A`, of 5 bytes, with first cluster 3. -/
def fileRaw : Raw := fun i =>
  [65, 32, 32, 32, 32, 32, 32, 32, 32, 32, 32, 0x20, 0, 0, 0, 0, 0, 0, 0, 0, 0, 0, 0, 0, 0, 0, 3, 0, 5].getD i 0

/-- The entry of a file that has been deleted. -/
def deletedRaw : Raw := fun i => if i = 0 then 0xe5 else fileRaw i

def fileEntry : Entry := { longs := [], short := fileRaw }

/-- The volume whose root directory holds the items. -/
def rootVolume (its : List Item) : Volume :=
  { rootClus := 2, entries := fun x => if x = 2 then some (its.flatMap Item.raws) else none, bytes := fun _ _ => 0 }

def rootLayout (its : List Item) (x : Nat) : List Item := if x = 2 then its else []

/-- The tree before its root directory is loaded. -/
def beforeLoad (vol : Volume) : Fs := boot.set (.root 0) (rootDirent vol 0)

lemma fileEntry_valid : fileEntry.Valid where
  short_order := by decide
  short_attr := by decide
  run := .inl rfl
  name_length := by decide
  short_name := by decide

lemma onDisk_root (hv : ∀ it ∈ its, it.Valid) (hfiles : ∀ oe ∈ liveAt 0 its, oe.2.isDir = false) :
    OnDisk (rootVolume its) (rootLayout its) 1 2 := by
  refine ⟨⟨its.flatMap Item.raws, rfl, hv, [], trivial, by rw [append_nil]; rfl⟩, ?_⟩
  intro oe hoe hdir
  rw [hfiles oe hoe] at hdir
  cases hdir

lemma sound_beforeLoad (vol : Volume) : Sound (beforeLoad vol) bootShape none := (sound_boot.setRoot vol rfl).1

end Tree
end OsRiscv
