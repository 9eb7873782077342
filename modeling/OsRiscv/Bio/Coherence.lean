import OsRiscv.Bio.Cache
import OsRiscv.Lib.FirstMatch

/-!
# Coherence — when the buffer cache returns the last data written

`bwrite` never reaches the device, so the only copy of a modification is the buffer it was made in,
and it lives until `bget` recycles that buffer.  The invariant `Inv` says that the cached copies are
current and that the device is current for every block without one.  It survives every step except a
`bread` that recycles a buffer whose data differs from the device.
-/

namespace OsRiscv
namespace Bio

open Lib List

variable {δ : Type*} {dev : Nat} {c c' : Bcache δ} {s t : Sys δ} {p : BufPtr} {tid blockno : Nat} {d : δ}

/-! ## Lookups -/

@[simp] lemma setBuf_order (p : BufPtr) (b : Buf δ) : (c.setBuf p b).order = c.order := rfl

@[simp] lemma setBuf_disk (p : BufPtr) (b : Buf δ) : (c.setBuf p b).disk = c.disk := rfl

@[simp] lemma setBuf_self (p : BufPtr) (b : Buf δ) : (c.setBuf p b).buf p = b := by
  simp [Bcache.setBuf]

lemma setBuf_of_ne {p q : BufPtr} (b : Buf δ) (h : q ≠ p) : (c.setBuf p b).buf q = c.buf q := by
  simp [Bcache.setBuf, h]

@[simp] lemma setBuf_setBuf (p : BufPtr) (b b' : Buf δ) : (c.setBuf p b).setBuf p b' = c.setBuf p b' := by
  simp [Bcache.setBuf]

lemma lookup_eq (hdev : dev < 2 ^ 31) (blockno : Nat) :
    lookup c dev blockno = (c.order (groupOf blockno)).find? (carries c dev blockno) :=
  if_pos hdev

lemma key_of_lookup {blockno : Nat} (h : lookup c dev blockno = some p) :
    (c.buf p).dev = dev ∧ (c.buf p).blockno = blockno := by
  unfold lookup at h
  split at h
  · simpa [carries] using find?_some h
  · simp at h

lemma lookup_setBuf_of_key {b : Buf δ} (hd : b.dev = (c.buf p).dev)
    (hb : b.blockno = (c.buf p).blockno) (blockno : Nat) :
    lookup (c.setBuf p b) dev blockno = lookup c dev blockno := by
  have hkey : ∀ q, ((c.setBuf p b).buf q).dev = (c.buf q).dev ∧
      ((c.setBuf p b).buf q).blockno = (c.buf q).blockno := by
    intro q
    by_cases hq : q = p
    · subst hq
      simp [hd, hb]
    · simp [setBuf_of_ne b hq]
  have hcarries : carries (c.setBuf p b) dev blockno = carries c dev blockno := by
    funext q
    simp [carries, hkey]
  simp only [lookup, setBuf_order, hcarries]

lemma forall_setBuf {b : Buf δ} {P : BufPtr → Buf δ → Prop} (hp : P p b)
    (h : ∀ q, q ≠ p → P q (c.buf q)) : ∀ q, P q ((c.setBuf p b).buf q) := by
  intro q
  by_cases hq : q = p
  · subst hq
    simpa using hp
  · simpa [setBuf_of_ne b hq] using h q hq

/-! ## What `bread` can do -/

/-- The buffer that a completed `bread` hands out. -/
def loaded (tid dev blockno refcnt : Nat) (data : δ) : Buf δ :=
  { valid := true, dev := dev, blockno := blockno, locked := true, tid := tid, refcnt := refcnt, data := data }

lemma bread_cases (h : bread c tid dev blockno = some (p, c')) :
    (lookup c dev blockno = some p ∧ ∃ r d,
      c' = c.setBuf p (loaded tid dev blockno r d) ∧
      d = if (c.buf p).valid then (c.buf p).data else c.disk blockno) ∨
    (lookup c dev blockno = none ∧ victim c blockno = some p ∧
      c' = c.setBuf p (loaded tid dev blockno 1 (c.disk blockno))) := by
  unfold bread bget at h
  cases hl : lookup c dev blockno with
  | some q =>
    have hkey := key_of_lookup hl
    cases hlock : (c.buf q).locked with
    | true => simp [hl, acquiresleep, hlock] at h
    | false =>
      -- the buffer is handed out as it is, or filled from the device first
      cases hv : (c.buf q).valid with
      | true =>
        simp [hl, acquiresleep, hlock, hv] at h
        rcases h with ⟨rfl, rfl⟩
        refine .inl ⟨rfl, (c.buf q).refcnt + 1, (c.buf q).data, ?_, by simp [hv]⟩
        simp [loaded, hkey]
      | false =>
        simp [hl, acquiresleep, hlock, hv] at h
        rcases h with ⟨rfl, rfl⟩
        refine .inl ⟨rfl, (c.buf q).refcnt + 1, c.disk blockno, ?_, by simp [hv]⟩
        simp [loaded, hkey]
  | none =>
    cases hvic : victim c blockno with
    | none => simp [hl, hvic] at h
    | some q =>
      cases hlock : (c.buf q).locked with
      | true => simp [hl, hvic, acquiresleep, hlock] at h
      | false =>
        simp [hl, hvic, acquiresleep, hlock] at h
        rcases h with ⟨rfl, rfl⟩
        exact .inr ⟨rfl, rfl, by simp [loaded]⟩

/-! ## The invariant -/

structure Inv (dev : Nat) (s : Sys δ) : Prop where
  /-- A valid buffer is the one that a lookup of its block finds. -/
  first : ∀ p, (s.cache.buf p).valid → lookup s.cache dev (s.cache.buf p).blockno = some p
  /-- A valid buffer holds the current content of its block. -/
  current : ∀ p, (s.cache.buf p).valid → (s.cache.buf p).data = s.content (s.cache.buf p).blockno
  /-- The device holds the current content of every block that has no valid buffer. -/
  uncached : ∀ b, (∀ p, (s.cache.buf p).valid → (s.cache.buf p).blockno ≠ b) →
    s.content b = s.cache.disk b
  /-- A buffer in use is valid. -/
  inUse : ∀ p, (s.cache.buf p).locked → (s.cache.buf p).valid

lemma Inv.unique (h : Inv dev s) {p q : BufPtr} (hp : (s.cache.buf p).valid)
    (hq : (s.cache.buf q).valid) (hb : (s.cache.buf p).blockno = (s.cache.buf q).blockno) : p = q := by
  have hp' := h.first p hp
  have hq' := h.first q hq
  rw [hb, hq'] at hp'
  exact (Option.some.inj hp').symm

/-- The `bread` of `blockno` recycles no buffer whose data differs from the device. -/
def RecyclesClean (c : Bcache δ) (dev blockno : Nat) : Prop :=
  lookup c dev blockno = none → ∀ p, victim c blockno = some p → (c.buf p).valid = true →
    (c.buf p).data = c.disk (c.buf p).blockno

/-- The data of a completed `bread`, in terms of the history. -/
theorem bread_hit_data (hs : Inv dev s) {blockno : Nat}
    (hl : lookup s.cache dev blockno = some p)
    (hd : d = if (s.cache.buf p).valid then (s.cache.buf p).data else s.cache.disk blockno) :
    d = s.content blockno := by
  have hkey := key_of_lookup hl
  cases hv : (s.cache.buf p).valid with
  | true =>
    have hcur := hs.current p hv
    simpa [hkey.2, hd, hv] using hcur
  | false =>
    -- a valid buffer for the block would have been found before this one
    have hnone : ∀ q, (s.cache.buf q).valid → (s.cache.buf q).blockno ≠ blockno := by
      intro q hq hb
      have hfirst := hs.first q hq
      rw [hb, hl] at hfirst
      cases hfirst
      simp [hv] at hq
    simpa [hd, hv] using (hs.uncached blockno hnone).symm

lemma Inv.not_cached (hs : Inv dev s) {blockno : Nat} (hl : lookup s.cache dev blockno = none) :
    ∀ q, (s.cache.buf q).valid → (s.cache.buf q).blockno ≠ blockno := by
  intro q hq hb
  have hfirst := hs.first q hq
  rw [hb, hl] at hfirst
  cases hfirst

/-- A buffer changes and keeps its key: then no lookup changes. -/
theorem setBuf_inv (hs : Inv dev s) {x : Buf δ} (hd : x.dev = (s.cache.buf p).dev)
    (hb : x.blockno = (s.cache.buf p).blockno) (hkeep : (s.cache.buf p).valid → x.valid)
    (hfirst : x.valid → lookup s.cache dev x.blockno = some p) (hdata : x.valid → x.data = s.content x.blockno)
    (huse : x.locked → x.valid) : Inv dev { s with cache := s.cache.setBuf p x } := by
  have hlook : ∀ b, lookup (s.cache.setBuf p x) dev b = lookup s.cache dev b := lookup_setBuf_of_key hd hb
  refine ⟨?_, ?_, ?_, ?_⟩
  · simp only [hlook]
    exact forall_setBuf (P := fun q b => b.valid → lookup s.cache dev b.blockno = some q) hfirst fun q _ => hs.first q
  · exact forall_setBuf (P := fun _ b => b.valid → b.data = s.content b.blockno) hdata fun q _ => hs.current q
  · intro b hno
    refine hs.uncached b ?_
    intro q hq
    by_cases hqp : q = p
    · subst hqp
      simpa [hkeep hq, hb] using hno q
    · simpa [setBuf_of_ne _ hqp, hq] using hno q
  · exact forall_setBuf (P := fun _ b => b.locked → b.valid) huse fun q _ => hs.inUse q

lemma bread_hit_inv (hs : Inv dev s) {tid blockno r : Nat}
    (hl : lookup s.cache dev blockno = some p) (hd : d = s.content blockno) :
    Inv dev { s with cache := s.cache.setBuf p (loaded tid dev blockno r d) } := by
  have hkey := key_of_lookup hl
  exact setBuf_inv hs hkey.1.symm hkey.2.symm (fun _ => rfl) (fun _ => hl) (fun _ => hd) fun _ => rfl

/-- A `bread` that recycles `p`: it loses its old block and becomes the only buffer of the new one. -/
theorem bread_miss_inv (hdev : dev < 2 ^ 31) (hs : Inv dev s) {tid blockno r : Nat}
    (hl : lookup s.cache dev blockno = none) (hp : p ∈ s.cache.order (groupOf blockno))
    (hclean : (s.cache.buf p).valid = true →
      (s.cache.buf p).data = s.cache.disk (s.cache.buf p).blockno) :
    Inv dev { s with
      cache := s.cache.setBuf p (loaded tid dev blockno r (s.cache.disk blockno)) } := by
  have hother := hs.not_cached hl
  refine ⟨?_, ?_, ?_, ?_⟩
  · refine forall_setBuf (P := fun q b => b.valid → lookup (s.cache.setBuf p _) dev b.blockno = some q)
      ?_ ?_
    · -- nothing else in the group carries the new key
      intro _
      rw [lookup_eq hdev] at hl ⊢
      refine find?_of_unique hp (by simp [carries, loaded]) ?_
      intro x hx hmatch
      by_cases hxp : x = p
      · exact hxp
      · have hnone := find?_eq_none.1 hl x hx
        exact absurd (by simpa [carries, setBuf_of_ne _ hxp, loaded] using hmatch) hnone
    · -- another valid buffer has another key, and `p` does not come to carry it
      intro q hqp hq
      have hfirst := hs.first q hq
      have hkey := key_of_lookup hfirst
      rw [lookup_eq hdev] at hfirst ⊢
      refine find?_of_imp hfirst (by simp [carries, setBuf_of_ne _ hqp, hkey]) ?_
      intro x _ hmatch
      by_cases hxp : x = p
      · have hb : blockno = (s.cache.buf q).blockno := by
          simpa [carries, hxp, loaded] using hmatch
        exact absurd hb.symm (hother q hq)
      · simpa [carries, setBuf_of_ne _ hxp] using hmatch
  · exact forall_setBuf (P := fun _ b => b.valid → b.data = s.content b.blockno)
      (fun _ => (hs.uncached blockno hother).symm) fun q _ => hs.current q
  · intro b hb
    by_cases hold : (s.cache.buf p).valid ∧ (s.cache.buf p).blockno = b
    · -- the block that lost its buffer: the recycled data was on the device already
      rcases hold with ⟨hv, rfl⟩
      exact (hs.current p hv).symm.trans (hclean hv)
    · refine hs.uncached b ?_
      intro q hq hqb
      by_cases hqp : q = p
      · exact hold ⟨hqp ▸ hq, hqp ▸ hqb⟩
      · have hne : (s.cache.buf q).blockno ≠ b := by simpa [setBuf_of_ne _ hqp, hq] using hb q
        exact hne hqb
  · exact forall_setBuf (P := fun _ b => b.locked → b.valid) (fun _ => rfl) fun q _ => hs.inUse q

lemma bread_inv (hdev : dev < 2 ^ 31) (hs : Inv dev s)
    (hclean : RecyclesClean s.cache dev blockno) (h : bread s.cache tid dev blockno = some (p, c')) :
    Inv dev { s with cache := c' } := by
  rcases bread_cases h with ⟨hl, r, d, rfl, hd⟩ | ⟨hl, hvic, rfl⟩
  · exact bread_hit_inv hs hl (bread_hit_data hs hl hd)
  · have hp : p ∈ s.cache.order (groupOf blockno) := by
      simpa using mem_of_find?_eq_some hvic
    exact bread_miss_inv hdev hs hl hp (hclean hl p hvic)

/-! ## Modification and release -/

lemma valid_of_holding (hs : Inv dev s) {tid : Nat}
    (h : holdingsleep tid (s.cache.buf p) = true) : (s.cache.buf p).valid = true := by
  have hlocked : (s.cache.buf p).locked = true ∧ (s.cache.buf p).tid = tid := by
    simpa [holdingsleep] using h
  exact hs.inUse p hlocked.1

/-- The holder of a buffer writes to it: the history moves along with the buffer. -/
theorem modify_inv (hs : Inv dev s) {tid : Nat} (h : holdingsleep tid (s.cache.buf p) = true) :
    Inv dev { cache := s.cache.setBuf p { s.cache.buf p with data := d },
              content := Function.update s.content (s.cache.buf p).blockno d } := by
  have hv := valid_of_holding hs h
  have hlook : ∀ b, lookup (s.cache.setBuf p { s.cache.buf p with data := d }) dev b =
      lookup s.cache dev b :=
    lookup_setBuf_of_key rfl rfl
  refine ⟨?_, ?_, ?_, ?_⟩
  · simp only [hlook]
    exact forall_setBuf (P := fun q b => b.valid → lookup s.cache dev b.blockno = some q)
      (hs.first p) fun q _ => hs.first q
  · refine forall_setBuf
      (P := fun _ b => b.valid → b.data = Function.update s.content (s.cache.buf p).blockno d b.blockno)
      (fun _ => by simp) ?_
    intro q hqp hq
    -- no other valid buffer holds this block
    have hne : (s.cache.buf q).blockno ≠ (s.cache.buf p).blockno := fun hb => hqp (hs.unique hq hv hb)
    simpa [hne] using hs.current q hq
  · intro b hb
    have hne : b ≠ (s.cache.buf p).blockno := by
      have := hb p
      simp only [setBuf_self, hv, forall_const] at this
      exact this.symm
    have hunc := hs.uncached b ?_
    · simpa [hne] using hunc
    · intro q hq
      by_cases hqp : q = p
      · simpa [hqp] using hne.symm
      · simpa [setBuf_of_ne _ hqp, hq] using hb q
  · exact forall_setBuf (P := fun _ b => b.locked → b.valid) (hs.inUse p) fun q _ => hs.inUse q

lemma unlock_inv (hs : Inv dev s) {r : Nat} : Inv dev { s with
      cache := s.cache.setBuf p { s.cache.buf p with locked := false, tid := 0, refcnt := r } } :=
  setBuf_inv hs rfl rfl id (hs.first p) (hs.current p) nofun

lemma moveToFront_inv (hdev : dev < 2 ^ 31) (hs : Inv dev s) (hv : (s.cache.buf p).valid = true) :
    Inv dev { s with cache := { s.cache with
      order := moveToFront s.cache.order (groupOf (s.cache.buf p).blockno) p } } := by
  refine ⟨?_, hs.current, hs.uncached, hs.inUse⟩
  intro q hq
  have hfirst := hs.first q hq
  have hmatch : carries s.cache dev (s.cache.buf q).blockno p = true → p = q := by
    intro h
    have hkey : (s.cache.buf p).dev = dev ∧ (s.cache.buf p).blockno = (s.cache.buf q).blockno := by
      simpa [carries] using h
    exact hs.unique hv hq hkey.2
  rw [lookup_eq hdev] at hfirst ⊢
  have hfront := find?_moveToFront hfirst hmatch
  by_cases hg : groupOf (s.cache.buf q).blockno = groupOf (s.cache.buf p).blockno
  · rw [hg] at hfront
    simp only [moveToFront, hg, if_true]
    exact hfront
  · -- another group: `p` does not match there, so leaving it out of the list changes nothing
    have hne : carries s.cache dev (s.cache.buf q).blockno p = false := by
      by_contra h
      exact hg (by rw [hmatch (by simpa using h)])
    rw [find?_cons_of_neg (by simp [hne])] at hfront
    simp only [moveToFront, hg, if_false]
    exact hfront

lemma brelse_inv (hdev : dev < 2 ^ 31) (hs : Inv dev s) {tid : Nat}
    (h : brelse s.cache tid p = some c') : Inv dev { s with cache := c' } := by
  unfold brelse at h
  split at h
  · rename_i hhold
    have hv := valid_of_holding hs hhold
    have hun := unlock_inv hs (p := p) (r := (s.cache.buf p).refcnt - 1)
    by_cases hz : (s.cache.buf p).refcnt - 1 = 0
    · simp only [hz, if_true, Option.some.injEq] at h
      subst h
      rw [hz] at hun
      have hmove := moveToFront_inv hdev hun (p := p) (by simpa using hv)
      simpa using hmove
    · simp only [hz, if_false, Option.some.injEq] at h
      subst h
      exact hun
  · cases h

/-! ## Runs -/

/-- No step of the run destroys the only copy of a modification. -/
def OpClean (dev : Nat) (s : Sys δ) : Op δ → Prop
  | .bread _ blockno => RecyclesClean s.cache dev blockno
  | .modify _ _ _ => True
  | .brelse _ _ => True

def CleanStep (dev : Nat) (s : Sys δ) (op : Op δ) (t : Sys δ) : Prop :=
  OpClean dev s op ∧ step dev s op = some t

lemma step_inv (hdev : dev < 2 ^ 31) {op : Op δ} (hs : Inv dev s) (hclean : OpClean dev s op)
    (h : step dev s op = some t) : Inv dev t := by
  cases op with
  | bread tid blockno =>
    cases hb : bread s.cache tid dev blockno with
    | none => simp [step, hb] at h
    | some r =>
      have ht : { s with cache := r.2 } = t := by simpa [step, hb] using h
      subst ht
      exact bread_inv hdev hs hclean hb
  | modify tid p d =>
    cases hhold : holdingsleep tid (s.cache.buf p) with
    | false =>
      have hnot : holdingsleep tid { s.cache.buf p with data := d } = false := hhold
      simp [step, bwrite, hnot] at h
    | true =>
      have hheld : holdingsleep tid { s.cache.buf p with data := d } = true := hhold
      simp only [step, bwrite, setBuf_self, hheld, if_true] at h
      cases h
      simpa using modify_inv hs hhold
  | brelse tid p =>
    cases hb : brelse s.cache tid p with
    | none => simp [step, hb] at h
    | some c =>
      have ht : { s with cache := c } = t := by simpa [step, hb] using h
      subst ht
      exact brelse_inv hdev hs hb

lemma init_inv (disk : Nat → δ) (zero : δ) : Inv dev (init disk zero) := by
  refine ⟨?_, ?_, ?_, ?_⟩ <;> simp [init, binit]

/-- The data that a `bread` of the block would hand out. -/
def fetch (c : Bcache δ) (dev blockno : Nat) : δ :=
  match lookup c dev blockno with
  | some p => if (c.buf p).valid then (c.buf p).data else c.disk blockno
  | none => c.disk blockno

lemma bread_data (h : bread c tid dev blockno = some (p, c')) :
    (c'.buf p).data = fetch c dev blockno := by
  rcases bread_cases h with ⟨hl, r, d, rfl, hd⟩ | ⟨hl, _, rfl⟩
  · simp [fetch, hl, loaded, hd]
  · simp [fetch, hl, loaded]

lemma fetch_eq_content (hs : Inv dev s) (blockno : Nat) : fetch s.cache dev blockno = s.content blockno := by
  unfold fetch
  split
  · rename_i p hl
    exact bread_hit_data hs hl rfl
  · rename_i hl
    exact (hs.uncached _ (hs.not_cached hl)).symm

lemma fetch_of_uncached {blockno : Nat}
    (h : ∀ p, (c.buf p).valid → (c.buf p).dev = dev → (c.buf p).blockno ≠ blockno) :
    fetch c dev blockno = c.disk blockno := by
  unfold fetch
  split
  · rename_i p hl
    have hkey := key_of_lookup hl
    have hv : ¬(c.buf p).valid := fun hv => h p hv hkey.1 hkey.2
    simp [hv]
  · rfl

lemma dirty_recycle_lost (hs : Inv dev s)
    (h : bread s.cache tid dev blockno = some (p, c')) (hl : lookup s.cache dev blockno = none)
    (hv : (s.cache.buf p).valid = true) (hdirty : (s.cache.buf p).data ≠ s.cache.disk (s.cache.buf p).blockno) :
    fetch c' dev (s.cache.buf p).blockno ≠ s.content (s.cache.buf p).blockno := by
  rcases bread_cases h with ⟨hl', _⟩ | ⟨_, _, rfl⟩
  · rw [hl] at hl'
    cases hl'
  · have hunc : fetch (s.cache.setBuf p (loaded tid dev blockno 1 (s.cache.disk blockno))) dev
        (s.cache.buf p).blockno = s.cache.disk (s.cache.buf p).blockno := by
      refine fetch_of_uncached (forall_setBuf
        (P := fun _ b => b.valid → b.dev = dev → b.blockno ≠ (s.cache.buf p).blockno) ?_ ?_)
      · -- the new block is not the old one, which a lookup would have found
        intro _ _ hb
        have hfirst := hs.first p hv
        have hkey : blockno = (s.cache.buf p).blockno := hb
        rw [← hkey, hl] at hfirst
        cases hfirst
      · intro q hqp hq _ hb
        exact hqp (hs.unique hq hv hb)
    rw [hunc, ← hs.current p hv]
    exact hdirty.symm

/-- In a run that recycles only buffers whose data the device also holds, every completed `bread`
returns the last modification of its block, or the device content if there was none; and the
condition is exact: the next step keeps all blocks readable so if and only if it meets it. -/
theorem bread_returns_content (hdev : dev < 2 ^ 31) {disk : Nat → δ} {zero : δ} {ops : List (Op δ)}
    (hrun : Run (CleanStep dev) (init disk zero) ops s) :
    (∀ tid blockno p c', bread s.cache tid dev blockno = some (p, c') →
      (c'.buf p).data = s.content blockno) ∧
    ∀ op t, step dev s op = some t →
      ((∀ blockno, fetch t.cache dev blockno = t.content blockno) ↔ OpClean dev s op) := by
  have hs : Inv dev s := by
    refine hrun.invariant (init_inv disk zero) ?_
    intro s op t hs hstep
    exact step_inv hdev hs hstep.1 hstep.2
  refine ⟨?_, ?_⟩
  · intro tid blockno p c' h
    exact (bread_data h).trans (fetch_eq_content hs blockno)
  · intro op t hstep
    refine ⟨?_, fun hclean => fetch_eq_content (step_inv hdev hs hclean hstep)⟩
    intro hall
    cases op with
    | bread tid blockno =>
      intro hl p hvic hv
      by_contra hdirty
      cases hb : bread s.cache tid dev blockno with
      | none => simp [step, hb] at hstep
      | some r =>
        have ht : { s with cache := r.2 } = t := by simpa [step, hb] using hstep
        -- the buffer that was recycled is the victim
        have hr : r.1 = p := by
          rcases bread_cases hb with ⟨hl', _⟩ | ⟨_, hvic', _⟩
          · rw [hl] at hl'
            cases hl'
          · rw [hvic] at hvic'
            exact (Option.some.inj hvic').symm
        subst ht hr
        exact dirty_recycle_lost hs hb hl hv hdirty (hall _)
    | modify _ _ _ => trivial
    | brelse _ _ => trivial

/-- One sector: `uchar data[BSIZE]`. -/
abbrev Sector := Fin 512 → UInt8

/-- An empty cache over a device of zeroes. -/
def blank : Sys Sector := init (fun _ => fun _ => 0) fun _ => 0

/-- A modification that is still in its buffer is read back. -/
theorem bread_returns_modified :
    ∃ s, Run (CleanStep 0) blank [.bread 1 7, .modify 1 (7, 0) fun _ => 1, .brelse 1 (7, 0)] s ∧
      ∀ tid p c', bread s.cache tid 0 7 = some (p, c') → (c'.buf p).data = fun _ => 1 := by
  have hclean : OpClean 0 blank (.bread 1 7) := by
    intro _ p _ hv
    cases hv
  have hread : Run (CleanStep 0) blank [.bread 1 7] _ := (Run.nil blank).snoc ⟨hclean, rfl⟩
  have hmodify := hread.snoc (a := Op.modify 1 (7, 0) fun _ => 1) ⟨trivial, rfl⟩
  have hrun := hmodify.snoc (a := Op.brelse 1 (7, 0)) ⟨trivial, rfl⟩
  refine ⟨_, hrun, ?_⟩
  intro tid p c' h
  have hdata := (bread_returns_content (by decide) hrun).1 tid 7 p c' h
  exact hdata.trans rfl

/-- Thread 1 modifies block 7 and then reads sixteen other blocks of its group. -/
def overrun : List (Op Sector) :=
  [.bread 1 7, .modify 1 (7, 0) fun _ => 1, .brelse 1 (7, 0)] ++
    (List.range 16).flatMap fun k =>
      [.bread 1 (7 + 1024 * (k + 1)), .brelse 1 (7, (k + 1) % 16)]

/-- After `overrun` the modification is gone: block 7 reads as the device holds it. -/
theorem bread_after_overrun : ∃ s p c', Run (fun s op t => step 0 s op = some t) blank overrun s ∧
      bread s.cache 1 0 7 = some (p, c') ∧ (c'.buf p).data ≠ s.content 7 := by
  have hobs : ((runAll (step 0) blank overrun).bind fun s =>
      (bread s.cache 1 0 7).map fun r => ((r.2.buf r.1).data 0, s.content 7 0)) = some (0, 1) := by
    decide +kernel
  rcases Option.bind_eq_some_iff.1 hobs with ⟨s, hs, hread⟩
  rcases Option.map_eq_some_iff.1 hread with ⟨⟨p, c'⟩, hbread, hpair⟩
  refine ⟨s, p, c', run_of_runAll hs, hbread, ?_⟩
  intro heq
  have hzero : (c'.buf p).data 0 = 0 := congrArg Prod.fst hpair
  have hone : s.content 7 0 = 1 := congrArg Prod.snd hpair
  rw [heq, hone] at hzero
  exact absurd hzero (by decide)

end Bio
end OsRiscv
