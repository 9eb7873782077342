import Mathlib.Tactic.Ring

/-!
# Trace — a run with a log that may stop

A run writes a log and either has a result or stops for a reason; what is in the log when it stops stays there.  The
rules say when all of the log has a property: the log of a sequence is that of its first part, followed by that of the
second if the first has a result.
-/

namespace OsRiscv
namespace Lib

open List

structure Trace (ε ρ α : Type*) where
  log : List ε
  result : Except ρ α

variable {ε ρ α β : Type} {x : Trace ε ρ α} {a : α}

namespace Trace

protected def pure (a : α) : Trace ε ρ α := ⟨[], .ok a⟩

protected def bind (x : Trace ε ρ α) (f : α → Trace ε ρ β) : Trace ε ρ β :=
  match x.result with
  | .ok a => ⟨x.log ++ (f a).log, (f a).result⟩
  | .error r => ⟨x.log, .error r⟩

instance : Monad (Trace ε ρ) where
  pure := Trace.pure
  bind := Trace.bind

def emit (e : ε) : Trace ε ρ Unit := ⟨[e], .ok ()⟩

def stop (r : ρ) : Trace ε ρ α := ⟨[], .error r⟩

/-! ## Sequences -/

lemma result_bind_ok (h : x.result = .ok a) (f : α → Trace ε ρ β) :
    (x >>= f).result = (f a).result := by
  change (Trace.bind x f).result = _
  unfold Trace.bind
  rw [h]

lemma result_bind_error {r : ρ} (h : x.result = .error r) (f : α → Trace ε ρ β) :
    (x >>= f).result = .error r := by
  change (Trace.bind x f).result = _
  unfold Trace.bind
  rw [h]

lemma mem_log_left {e : ε} (h : e ∈ x.log) (f : α → Trace ε ρ β) : e ∈ (x >>= f).log := by
  change e ∈ (Trace.bind x f).log
  unfold Trace.bind
  cases x.result with
  | ok a => exact mem_append_left _ h
  | error r => exact h

lemma mem_log_right {e : ε} {f : α → Trace ε ρ β} (hx : x.result = .ok a)
    (h : e ∈ (f a).log) : e ∈ (x >>= f).log := by
  change e ∈ (Trace.bind x f).log
  unfold Trace.bind
  rw [hx]
  exact mem_append_right _ h

/-! ## Properties of the log -/

def All (P : ε → Prop) (x : Trace ε ρ α) : Prop := ∀ e ∈ x.log, P e

variable {P : ε → Prop}

@[simp] lemma all_pure (a : α) : All P (pure a : Trace ε ρ α) := fun _ h => by cases h

@[simp] lemma all_stop (r : ρ) : All P (stop r : Trace ε ρ α) := fun _ h => by cases h

@[simp] lemma all_emit (e : ε) : All P (emit e : Trace ε ρ Unit) ↔ P e := by
  constructor
  · intro h
    exact h e (mem_singleton.2 rfl)
  · intro h e' he'
    rw [mem_singleton.1 he']
    exact h

lemma all_bind (x : Trace ε ρ α) (f : α → Trace ε ρ β) :
    All P (x >>= f) ↔ All P x ∧ ∀ a, x.result = .ok a → All P (f a) := by
  change All P (Trace.bind x f) ↔ _
  unfold Trace.bind All
  cases hr : x.result with
  | ok a =>
    constructor
    · intro h
      refine ⟨fun e he => h e (mem_append_left _ he), fun b hb e he => ?_⟩
      cases hb
      exact h e (mem_append_right _ he)
    · rintro ⟨hx, hf⟩ e he
      rcases mem_append.1 he with he | he
      · exact hx e he
      · exact hf a rfl e he
  | error r =>
    constructor
    · intro h
      exact ⟨h, fun b hb => by cases hb⟩
    · intro h
      exact h.1

/-- The rules for a first part whose result is known. -/
theorem all_bind_ok (h : x.result = .ok a) (f : α → Trace ε ρ β) :
    All P (x >>= f) ↔ All P x ∧ All P (f a) := by
  rw [all_bind]
  constructor
  · rintro ⟨hx, hf⟩
    exact ⟨hx, hf a h⟩
  · rintro ⟨hx, hf⟩
    refine ⟨hx, fun b hb => ?_⟩
    rw [h] at hb
    cases hb
    exact hf

lemma all_bind_error {r : ρ} (h : x.result = .error r) (f : α → Trace ε ρ β) :
    All P (x >>= f) ↔ All P x := by
  rw [all_bind]
  constructor
  · exact fun hall => hall.1
  · intro hx
    refine ⟨hx, fun b hb => ?_⟩
    rw [h] at hb
    cases hb

end Trace

end Lib
end OsRiscv
