import Mathlib.Tactic.Ring

/-!
# Run — labelled runs of a step relation

A system is given by a step relation `step : σ → α → σ → Prop` between states, labelled by the
action taken.  `Run step s as t` says that the actions `as`, taken in this order, lead from `s`
to `t`.  A partial step *function* `f : σ → α → Option σ` is used through `fun s a t => f s a = some t`.

Every safety result is obtained from `Run.invariant`: what one step preserves, a run preserves.
-/

namespace OsRiscv
namespace Lib

variable {σ α : Type*} {step : σ → α → σ → Prop} {as : List α} {s t : σ} {f : σ → α → Option σ} {P : σ → Prop}

/-- `Run step s as t`: the actions `as` lead from `s` to `t`.  Runs grow at their end. -/
inductive Run (step : σ → α → σ → Prop) : σ → List α → σ → Prop where
  | nil (s : σ) : Run step s [] s
  | snoc {s t u : σ} {as : List α} {a : α} :
      Run step s as t → step t a u → Run step s (as ++ [a]) u

namespace Run

/-- What every step preserves, a run preserves. -/
theorem invariant (h : Run step s as t)
    (h0 : P s) (hstep : ∀ s a t, P s → step s a t → P t) : P t := by
  induction h with
  | nil => exact h0
  | snoc _ hlast ih => exact hstep _ _ _ ih hlast

/-- The invariant rule for runs all of whose actions satisfy `A`. -/
theorem invariant_of_forall {A : α → Prop}
    (h : Run step s as t) (hA : ∀ a ∈ as, A a) (h0 : P s) (hstep : ∀ s a t, A a → P s → step s a t → P t) : P t := by
  induction h with
  | nil => exact h0
  | snoc _ hlast ih =>
    have hinit := ih (fun b hb => hA b (List.mem_append_left _ hb))
    exact hstep _ _ _ (hA _ (by simp)) hinit hlast

/-- A run of steps that are steps of another system. -/
theorem mono {step' : σ → α → σ → Prop} (h : Run step s as t)
    (hstep : ∀ s a t, step s a t → step' s a t) : Run step' s as t := by
  induction h with
  | nil => exact .nil _
  | snoc _ hlast ih => exact .snoc ih (hstep _ _ _ hlast)

/-- A step in front of a run. -/
theorem cons {s t u : σ} {a : α} (hfirst : step s a t) (h : Run step t as u) :
    Run step s (a :: as) u := by
  induction h with
  | nil => exact .snoc (.nil s) hfirst
  | snoc _ hlast ih => exact .snoc ih hlast

end Run

/-- Execute a list of actions with a partial step function. -/
def runAll (f : σ → α → Option σ) (s : σ) : List α → Option σ
  | [] => some s
  | a :: as => (f s a).bind fun t => runAll f t as

/-- An execution is a run. -/
theorem run_of_runAll (h : runAll f s as = some t) : Run (fun s a t => f s a = some t) s as t := by
  induction as generalizing s with
  | nil =>
    cases h
    exact .nil _
  | cons a as ih =>
    rcases Option.bind_eq_some_iff.1 h with ⟨u, hu, hrest⟩
    exact .cons hu (ih hrest)

/-- An execution that checks a condition before each step is a run of steps that meet it. -/
theorem run_of_runAll_guarded {G : σ → α → Prop}
    [∀ s a, Decidable (G s a)]
    (h : runAll (fun s a => if G s a then f s a else none) s as = some t) :
    Run (fun s a t => G s a ∧ f s a = some t) s as t := by
  refine (run_of_runAll h).mono fun s a t hstep => ?_
  by_cases hG : G s a
  · exact ⟨hG, by simpa [hG] using hstep⟩
  · simp [hG] at hstep

/-- What every round preserves, a loop preserves. -/
theorem foldlM_invariant (h : as.foldlM f s = some t) (h0 : P s) (hstep : ∀ s a t, P s → f s a = some t → P t) : P t := by
  induction as generalizing s with
  | nil =>
    cases h
    exact h0
  | cons a as ih =>
    rcases Option.bind_eq_some_iff.1 h with ⟨u, hu, hrest⟩
    exact ih hrest (hstep s a u h0 hu)

section

variable {P Q : σ → Prop} [DecidablePred P]

/-- What a computation shows of its result. -/
theorem exists_of_any {o : Option σ} (h : o.any (P ·) = true) : ∃ t, o = some t ∧ P t := by
  rcases (Option.any_eq_true_iff_get _ _).1 h with ⟨hsome, hP⟩
  exact ⟨_, (Option.some_get hsome).symm, of_decide_eq_true hP⟩

/-- An execution to a state with the property `P`. -/
theorem exists_run (h : (runAll f s as).any (P ·) = true)
    (hQ : ∀ t, Run (fun s a t => f s a = some t) s as t → P t → Q t) :
    ∃ t, Run (fun s a t => f s a = some t) s as t ∧ Q t := by
  rcases exists_of_any h with ⟨t, ht, hP⟩
  have hrun := run_of_runAll ht
  exact ⟨t, hrun, hQ t hrun hP⟩

theorem exists_run_guarded {G : σ → α → Prop} [∀ s a, Decidable (G s a)]
    (h : (runAll (fun s a => if G s a then f s a else none) s as).any (P ·) = true)
    (hQ : ∀ t, Run (fun s a t => G s a ∧ f s a = some t) s as t → P t → Q t) :
    ∃ t, Run (fun s a t => G s a ∧ f s a = some t) s as t ∧ Q t := by
  rcases exists_of_any h with ⟨t, ht, hP⟩
  have hrun := run_of_runAll_guarded ht
  exact ⟨t, hrun, hQ t hrun hP⟩

end

/-! ## Traces -/

/-- Where an element of `xs ++ ys` stands. -/
theorem append_eq_append_cons {β : Type*} {xs ys before after : List β} {b : β}
    (h : xs ++ ys = before ++ b :: after) :
    (∃ rest, xs = before ++ b :: rest) ∨ ∃ front, before = xs ++ front ∧ ys = front ++ b :: after := by
  rcases List.append_eq_append_iff.1 h with ⟨front, hb, hy⟩ | ⟨rest, hx, hb⟩
  · exact .inr ⟨front, hb, hy⟩
  · cases rest with
    | nil => exact .inr ⟨[], by simpa using hx.symm, by simpa using hb.symm⟩
    | cons b' rest =>
      have : b = b' := (List.cons.inj hb).1
      exact .inl ⟨rest, by rw [hx, this]⟩

end Lib
end OsRiscv
