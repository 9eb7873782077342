import OsRiscv.Mount.Model

/-!
# Loaded — the dirents that loading a volume takes

`loadDirents` takes dirents from the front of the free list and puts the last one back, so the free list afterwards is
the end of the one before.  Nothing is assumed of the rest of the tree: an image can be mounted in a file system whose
old directories are still in the table.
-/

namespace OsRiscv
namespace Mount

open Lib List OsRiscv.Tree

variable {t t' u : Fs} {p : Ptr} {vol : Volume} {k n off ep count : Nat} {r : Int} {d : Dirent}
  {entries : List Raw} {l : List Nat} {loop : Ptr → List Raw → Nat → Nat → Fs → Except Stop Fs} {q : Ptr}

/-- From the free list `l` a load below `p` has taken `taken`, and has written nothing but `p` and dirents of `l`. -/
structure Took (k : Nat) (p : Ptr) (t : Fs) (l : List Nat) (t' : Fs) (taken rest : List Nat) : Prop where
  split : l = taken ++ rest
  free : Linked t'.next t'.direntHead rest
  root : t'.rootFileSystem = t.rootFileSystem
  other : ∀ q, q ≠ p → (∀ i ∈ l, q ≠ .dirent i) → t'.dirent q = t.dirent q
  parent : t'.dirent p = { t.dirent p with firstChild := (t'.dirent p).firstChild }
  owner : ∀ i ∈ taken, (t'.dirent (.dirent i)).fileSystem = k
  same : taken = [] → (t'.dirent p).firstChild = (t.dirent p).firstChild
  grown : taken ≠ [] → (t'.dirent p).firstChild ≠ none

section

variable (h : Linked t.next t.direntHead l)
include h

lemma took_nil : Took k p t l t [] l :=
  ⟨rfl, h, rfl, fun _ _ _ => rfl, rfl, nofun, fun _ => rfl, fun h => absurd rfl h⟩

lemma direntAlloc_linked (halloc : direntAlloc t = .ok (ep, u)) :
    ∃ rest, l = ep :: rest ∧ Linked u.next u.direntHead rest ∧ u = { t with direntHead := t.next ep } := by
  unfold direntAlloc at halloc
  cases hhead : t.direntHead with
  | none =>
    rw [hhead] at halloc
    cases halloc
  | some i =>
    rw [hhead] at halloc h
    cases halloc
    cases h with
    | @cons _ rest hrest => exact ⟨rest, rfl, hrest, rfl⟩

lemma linked_set (hp : ∀ i ∈ l, p ≠ .dirent i) :
    Linked (t.set p d).next (t.set p d).direntHead l := by
  refine h.congr fun i hi => ?_
  have hne : Ptr.dirent i ≠ p := fun heq => hp i hi heq.symm
  show ((t.set p d).dirent (.dirent i)).nextBrother = _
  rw [dirent_set_of_ne hne]
  rfl

lemma linked_linkChild (hep : ep ∉ l) (hp : ∀ i ∈ l, p ≠ .dirent i) :
    Linked (linkChild t k p off ep d).next (linkChild t k p off ep d).direntHead l := by
  have hne : ∀ i ∈ l, Ptr.dirent ep ≠ .dirent i := fun i hi heq => hep (Ptr.dirent.inj heq ▸ hi)
  exact linked_set (linked_set h hne) hp

lemma took_done (hep : ep ∉ l) (hp : ∀ i ∈ ep :: l, p ≠ .dirent i) :
    Took k p t (ep :: l) (direntFree (t.set (.dirent ep) d) ep) [] (ep :: l) := by
  have hne : ∀ i ∈ l, Ptr.dirent ep ≠ .dirent i := fun i hi heq => hep (Ptr.dirent.inj heq ▸ hi)
  have hother : ∀ q, q ≠ .dirent ep → (direntFree (t.set (.dirent ep) d) ep).dirent q = t.dirent q := by
    intro q hq
    show ((t.set (.dirent ep) d).set (.dirent ep) _).dirent q = _
    rw [dirent_set_of_ne hq, dirent_set_of_ne hq]
  have hpe : p ≠ .dirent ep := hp ep mem_cons_self
  constructor
  · rfl
  · have hnext : (direntFree (t.set (.dirent ep) d) ep).next =
        Function.update (t.set (.dirent ep) d).next ep t.direntHead := next_set_dirent
    rw [hnext]
    exact (linked_set h hne).push hep
  · rfl
  · intro q _ hq
    exact hother q (hq ep mem_cons_self)
  · rw [hother p hpe]
  · nofun
  · intro _
    rw [hother p hpe]
  · exact fun hnil => absurd rfl hnil

end

/-- The rule for `loadDirents` from the rule for its loop. -/
theorem loadWith_took
    (hloop : ∀ {entries ep l t t'}, Linked t.next t.direntHead l → ep ∉ l → (∀ i ∈ ep :: l, p ≠ .dirent i) →
      loop p entries 0 ep t = .ok t' → ∃ taken rest, Took k p t (ep :: l) t' taken rest)
    (h : Linked t.next t.direntHead l) (hp : ∀ i ∈ l, p ≠ .dirent i) (hok : loadWith vol loop p t = .ok t') :
    ∃ taken rest, Took k p t l t' taken rest := by
  rcases loadWith_ok hok with ⟨entries, ep, u, _, halloc, hok⟩
  have hnodup := h.nodup
  rcases direntAlloc_linked h halloc with ⟨rest, rfl, hrest, rfl⟩
  rcases hloop hrest (nodup_cons.1 hnodup).1 hp hok with ⟨taken, rest', htook⟩
  exact ⟨taken, rest', htook.split, htook.free, htook.root, htook.other, htook.parent, htook.owner, htook.same,
    htook.grown⟩

lemma linkChild_self (hp : p ≠ .dirent ep) : ((linkChild t k p off ep d).dirent (.dirent ep)).fileSystem = k ∧
      (linkChild t k p off ep d).dirent p = { t.dirent p with firstChild := some ep } := by
  unfold linkChild
  constructor
  · rw [dirent_set_of_ne hp.symm, dirent_set_self]
  · rw [dirent_set_self, dirent_set_of_ne hp]

lemma linkChild_other (hqp : q ≠ p) (hq : q ≠ .dirent ep) :
    (linkChild t k p off ep d).dirent q = t.dirent q := by
  unfold linkChild
  rw [dirent_set_of_ne hqp, dirent_set_of_ne hq]

/-- One round of the loop: `ep` has become a child of `p`, the directories below it are loaded, and the loop goes on
with what is left of the free list. -/
theorem Took.round {u v : Fs} {ep' : Nat} {taken₁ taken₂ rest₁ rest₂ : List Nat} (hep : ep ∉ l)
    (hp : ∀ i ∈ ep :: l, p ≠ .dirent i) (hnodup : l.Nodup)
    (hbelow : Took k (.dirent ep) (linkChild t k p off ep d) l u taken₁ (ep' :: rest₁))
    (hmore : Took k p { u with direntHead := v.direntHead } (ep' :: rest₁) t' taken₂ rest₂) :
    Took k p t (ep :: l) t' (ep :: taken₁ ++ taken₂) rest₂ := by
  have hsub : ∀ i ∈ ep' :: rest₁, i ∈ l := by
    intro i hi
    rw [hbelow.split]
    exact mem_append_right _ hi
  have hpe : p ≠ .dirent ep := hp ep mem_cons_self
  have hpl : ∀ i ∈ l, p ≠ .dirent i := fun i hi => hp i (mem_cons_of_mem _ hi)
  -- `p` is not written while the directories below `ep` are loaded
  have hup : u.dirent p = { t.dirent p with firstChild := some ep } := by
    rw [hbelow.other p hpe hpl]
    exact (linkChild_self hpe).2
  -- what was taken before stays as it is in the rest of the loop
  have hkeep : ∀ i, i ∉ ep' :: rest₁ → p ≠ .dirent i → t'.dirent (.dirent i) = u.dirent (.dirent i) := by
    intro i hi hpi
    exact hmore.other _ hpi.symm fun j hj heq => hi (Ptr.dirent.inj heq ▸ hj)
  constructor
  · rw [hbelow.split, hmore.split]
    simp
  · exact hmore.free
  · rw [hmore.root]
    exact hbelow.root
  · intro q hqp hq
    have hqe : q ≠ .dirent ep := hq ep mem_cons_self
    have hql : ∀ i ∈ l, q ≠ .dirent i := fun i hi => hq i (mem_cons_of_mem _ hi)
    calc t'.dirent q = u.dirent q := hmore.other q hqp fun i hi => hql i (hsub i hi)
      _ = (linkChild t k p off ep d).dirent q := hbelow.other q hqe hql
      _ = t.dirent q := linkChild_other hqp hqe
  · have hparent : t'.dirent p = { u.dirent p with firstChild := (t'.dirent p).firstChild } := hmore.parent
    rw [hup] at hparent
    exact hparent
  · intro i hi
    rcases mem_append.1 hi with hi | hi
    · rcases mem_cons.1 hi with rfl | hi
      · rw [hkeep i (fun hin => hep (hsub i hin)) hpe, hbelow.parent]
        exact (linkChild_self hpe).1
      · have hil : i ∈ l := by
          rw [hbelow.split]
          exact mem_append_left _ hi
        have hout : i ∉ ep' :: rest₁ := by
          rw [hbelow.split] at hnodup
          exact fun hin => (nodup_append.1 hnodup).2.2 i hi i hin rfl
        rw [hkeep i hout (hpl i hil)]
        exact hbelow.owner i hi
    · exact hmore.owner i hi
  · intro hnil
    cases hnil
  · intro _
    by_cases hnil : taken₂ = []
    · have hsame : (t'.dirent p).firstChild = (u.dirent p).firstChild := hmore.same hnil
      rw [hsame, hup]
      nofun
    · exact hmore.grown hnil

lemma loadLoop_took (h : Linked t.next t.direntHead l) (hep : ep ∉ l) (hp : ∀ i ∈ ep :: l, p ≠ .dirent i)
    (hok : loadLoop vol k n p entries off ep t = .ok t') : ∃ taken rest, Took k p t (ep :: l) t' taken rest := by
  -- by induction on the fuel: it covers the directories below and the rounds that are left
  induction n generalizing p entries off ep t t' l with
  | zero => cases hok
  | succ n ih =>
    rcases bind_eq_ok.1 hok with ⟨⟨r, count, d⟩, _, hok⟩
    dsimp only at hok
    split at hok
    · cases hok
      exact ⟨[], ep :: l, took_done h hep hp⟩
    · rcases bind_eq_ok.1 hok with ⟨u, hsub, hok⟩
      rcases bind_eq_ok.1 hok with ⟨⟨ep', v⟩, halloc, hok⟩
      have hpl : ∀ i ∈ l, p ≠ .dirent i := fun i hi => hp i (mem_cons_of_mem _ hi)
      have hlinked : Linked (linkChild t k p off ep d).next (linkChild t k p off ep d).direntHead l :=
        linked_linkChild h hep hpl
      have hbelow : ∃ taken rest, Took k (.dirent ep) (linkChild t k p off ep d) l u taken rest := by
        unfold loadBelow at hsub
        split at hsub
        · refine loadWith_took ih hlinked ?_ hsub
          intro i hi heq
          exact hep (Ptr.dirent.inj heq ▸ hi)
        · cases hsub
          exact ⟨[], l, took_nil hlinked⟩
      rcases hbelow with ⟨taken₁, rest, hbelow⟩
      rcases direntAlloc_linked hbelow.free halloc with ⟨rest₁, rfl, hrest₁, hv⟩
      have hin : ∀ i ∈ ep' :: rest₁, i ∈ l := by
        intro i hi
        rw [hbelow.split]
        exact mem_append_right _ hi
      have hnodup : (ep' :: rest₁).Nodup := hbelow.free.nodup
      rcases ih hrest₁ (nodup_cons.1 hnodup).1 (fun i hi => hpl i (hin i hi)) hok with ⟨taken₂, rest₂, hmore⟩
      have hv' : v = { u with direntHead := v.direntHead } := by rw [hv]
      rw [hv'] at hmore
      exact ⟨ep :: taken₁ ++ taken₂, rest₂, hbelow.round hep hp h.nodup hmore⟩

/-! ## Mount points -/

/-- Loading writes no `head`, so the dirents that it takes keep theirs. -/
theorem fatInit_head (hok : fatInit n vol k t = .ok t') (hq : q ≠ .root k) :
    (t'.dirent q).head = (t.dirent q).head := by
  have hload : (t'.dirent q).head = ((t.set (.root k) (rootDirent vol k)).dirent q).head := by
    refine loadDirents_keeps (P := fun u => (u.dirent q).head = _) (fun hsame h => by rw [hsame, h]) ?_ rfl hok
    intro t ep entries off r count d p h hd
    have hkeep : d.head = (t.dirent (.dirent ep)).head :=
      enextLoop_keeps Dirent.head (fun _ _ => rfl) (fun _ _ => rfl) hd
    rw [← h]
    constructor
    · unfold linkChild
      rw [field_set Dirent.head (by rfl)]
      exact field_set Dirent.head (by exact hkeep) q
    · rw [field_direntFree Dirent.head fun _ _ => rfl]
      exact field_set Dirent.head hkeep q
  rw [hload, dirent_set_of_ne hq]

/-! ## A whole volume -/

lemma fatInit_took (h : Linked t.next t.direntHead l) (hok : fatInit n vol k t = .ok t') :
    ∃ taken rest, Took k (.root k) (t.set (.root k) (rootDirent vol k)) l t' taken rest :=
  loadWith_took (fun hfree hep hp hloop => loadLoop_took hfree hep hp hloop) (linked_set h nofun) nofun hok

end Mount
end OsRiscv
