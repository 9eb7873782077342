import Mathlib.Tactic.Ring

/-!
# Call — kernel code that changes a state and may panic

A call runs on a state and either is done, with a result, or panics.  Also the state in which it
panics is kept: what was done before the panic has been done.

Calls are reasoned about backwards, with weakest preconditions: the `wp` lemmas of the basic calls are
the `simp` set, each function of a model adds the rule for itself, and loops have an invariant rule.
-/

namespace OsRiscv
namespace Lib

/-- The outcome of a call: done with a result, or stopped by a panic for a reason. -/
inductive Outcome (σ ρ α : Type*)
  | done (a : α) (s : σ)
  | panic (r : ρ) (s : σ)

def Call (σ ρ α : Type*) := σ → Outcome σ ρ α

variable {σ ρ α β : Type} {x : Call σ ρ α} {f : β → Call σ ρ Unit} {Q' : α → σ → Prop} {bs : List β}

namespace Call

def pure (a : α) : Call σ ρ α := fun s => .done a s

def bind (x : Call σ ρ α) (f : α → Call σ ρ β) : Call σ ρ β := fun s =>
  match x s with
  | .done a t => f a t
  | .panic r t => .panic r t

instance : Monad (Call σ ρ) where
  pure := Call.pure
  bind := Call.bind

def get : Call σ ρ σ := fun s => .done s s

def modify (f : σ → σ) : Call σ ρ Unit := fun s => .done () (f s)

def panic (r : ρ) : Call σ ρ α := fun s => .panic r s

/-- Run a call for each element of a list. -/
def forEach (f : α → Call σ ρ Unit) : List α → Call σ ρ Unit
  | [] => pure ()
  | a :: as => bind (f a) fun _ => forEach f as

end Call

/-! ## Weakest preconditions

`wp x Q E s`: the call `x`, started in `s`, is done with `Q` or panics with `E`. -/

def wp (x : Call σ ρ α) (Q : α → σ → Prop) (E : ρ → σ → Prop) (s : σ) : Prop :=
  match x s with
  | .done a t => Q a t
  | .panic r t => E r t

section

variable {Q : α → σ → Prop} {E : ρ → σ → Prop} {s : σ}

@[simp] lemma wp_pure (a : α) : wp (Pure.pure a : Call σ ρ α) Q E s ↔ Q a s := .rfl

@[simp] lemma wp_bind (x : Call σ ρ β) (f : β → Call σ ρ α) :
    wp (x >>= f) Q E s ↔ wp x (fun b t => wp (f b) Q E t) E s := by
  change (match Call.bind x f s with
    | .done a t => Q a t
    | .panic r t => E r t) ↔ _
  unfold Call.bind wp
  cases x s with
  | done b t => exact .rfl
  | panic r t => exact .rfl

@[simp] lemma wp_get {Q : σ → σ → Prop} : wp (Call.get : Call σ ρ σ) Q E s ↔ Q s s := .rfl

@[simp] lemma wp_modify {Q : Unit → σ → Prop} (f : σ → σ) :
    wp (Call.modify f : Call σ ρ Unit) Q E s ↔ Q () (f s) := .rfl

@[simp] lemma wp_panic (r : ρ) : wp (Call.panic r : Call σ ρ α) Q E s ↔ E r s := .rfl

lemma wp_mono (h : wp x Q' E s) (hQ : ∀ a t, Q' a t → Q a t) : wp x Q E s := by
  unfold wp at h ⊢
  cases hout : x s with
  | done a t =>
    rw [hout] at h
    exact hQ a t h
  | panic r t =>
    rw [hout] at h
    exact h

/-- The rule for a loop over a list: `I as` holds when `as` is still to be done. -/
theorem wp_forEach {I : List β → σ → Prop}
    (hstep : ∀ b bs t, I (b :: bs) t → wp (f b) (fun _ => I bs) E t) {s : σ}
    (h : I bs s) : wp (Call.forEach f bs) (fun _ => I []) E s := by
  induction bs generalizing s with
  | nil => exact h
  | cons b bs ih =>
    refine (wp_bind (f b) fun _ => Call.forEach f bs).2 ?_
    exact wp_mono (hstep b bs s h) fun _ t ht => ih ht

/-- What `wp` says of a call that is done. -/
theorem wp_done {a : α} {t : σ} (h : wp x Q E s) (hx : x s = .done a t) : Q a t := by
  unfold wp at h
  rwa [hx] at h

/-- What `wp` says of a call that panicked. -/
theorem wp_panicked {r : ρ} {t : σ} (h : wp x Q E s) (hx : x s = .panic r t) : E r t := by
  unfold wp at h
  rwa [hx] at h

/-- A call that cannot panic is done. -/
theorem exists_done (h : wp x Q (fun _ _ => False) s) : ∃ a t, x s = .done a t ∧ Q a t := by
  unfold wp at h
  cases hout : x s with
  | done a t =>
    rw [hout] at h
    exact ⟨a, t, rfl, h⟩
  | panic r t =>
    rw [hout] at h
    exact h.elim

end

/-- The result and the state of a call that is done. -/
def Outcome.toOption : Outcome σ ρ α → Option (α × σ)
  | .done a s => some (a, s)
  | .panic _ _ => none

lemma eq_done_of_toOption {o : Outcome σ ρ α} {a : α} {s : σ} (h : o.toOption = some (a, s)) : o = .done a s := by
  cases o with
  | done b t =>
    cases h
    rfl
  | panic r t => cases h

/-! ## Calls that keep an invariant -/

/-- Started where `I` holds, the call ends where `I` holds, or panics. -/
def Keeps (I : σ → Prop) (x : Call σ ρ α) : Prop := ∀ s, I s → wp x (fun _ => I) (fun _ _ => True) s

namespace Keeps

variable {I : σ → Prop}

lemma pure (a : α) : Keeps I (Pure.pure a : Call σ ρ α) := fun _ h => h

lemma panic (r : ρ) : Keeps I (Call.panic r : Call σ ρ α) := fun _ _ => trivial

lemma get : Keeps I (Call.get : Call σ ρ σ) := fun _ h => h

lemma modify {f : σ → σ} (hf : ∀ s, I s → I (f s)) : Keeps I (Call.modify f : Call σ ρ Unit) := hf

lemma bind {x : Call σ ρ β} {f : β → Call σ ρ α} (hx : Keeps I x) (hf : ∀ b, Keeps I (f b)) :
    Keeps I (x >>= f) := fun s h =>
  (wp_bind x f).2 (wp_mono (hx s h) fun b t ht => hf b t ht)

lemma forEach (hf : ∀ b, Keeps I (f b)) (bs : List β) : Keeps I (Call.forEach f bs) :=
  fun _ h => wp_forEach (fun b _ t ht => hf b t ht) h

end Keeps

end Lib
end OsRiscv
