import OsRiscv.Pipe.Fifo

/-!
# Halts — which stretches of the pipe calls end in `panic` or in a failing `assert`

Both ends may be closed, and the lengths are any: `filewrite` hands the `len` of `syscallWrite` and
the `iovLen` of each element of `syscallWriteVector` to `pipeWrite` as they are.  A writer that waits
still has a byte to store (`writersWait_of_run`), so `assert(i != 0)` fails for empty writes only,
and `panic("")` is met by every other write that finds the read end closed.
-/

namespace OsRiscv
namespace Pipe

open Lib

variable {ι : Type*} {s s' : Sys ι} {t : ι} {id i : Nat} {buf rest : List UInt8}

/-- The thread of the action can be given the processor for it. -/
def Enabled (s : Sys ι) : Act ι → Prop
  | .write t _ | .read t _ | .close t _ => Ready s t
  | .resume t => (s.threads t).state = .runnable ∧ (s.threads t).call.isSome

/-- A write is of at least one byte, and finds the read end open, also after each of its sleeps. -/
def Survives (s : Sys ι) : Act ι → Prop
  | .write _ buf => buf ≠ [] ∧ s.pi.readopen = true
  | .resume t =>
    match (s.threads t).call with
    | some (.write _ _ _ _) => s.pi.readopen = true
    | _ => True
  | .read _ _ | .close _ _ => True

def WritersWait (s : Sys ι) : Prop :=
  ∀ t id buf i rest, (s.threads t).call = some (.write id buf i rest) → rest ≠ []

lemma ne_nil_of_full {pi pi' : PipeBuf} {j : Nat} {left : List UInt8}
    (hloop : pipeWriteLoop pi i rest = .full pi' j left) : left ≠ [] := by
  induction rest generalizing pi i with
  | nil => cases hloop
  | cons ch rest ih =>
    unfold pipeWriteLoop at hloop
    split at hloop
    · cases hloop
    · split at hloop
      · cases hloop
        exact List.cons_ne_nil _ _
      · exact ih hloop

lemma pipeWriteLoop_stops {pi : PipeBuf} (i : Nat) (rest : List UInt8) (hopen : pi.readopen = true) :
    (∃ pi', pipeWriteLoop pi i rest = .done pi' (i + rest.length)) ∨
      ∃ pi' j left, pipeWriteLoop pi i rest = .full pi' j left := by
  induction rest generalizing pi i with
  | nil => exact .inl ⟨pi, rfl⟩
  | cons ch rest ih =>
    by_cases hfull : pi.Full
    · exact .inr ⟨pi, i, ch :: rest, by simp [pipeWriteLoop, hopen, hfull]⟩
    · have hloop : pipeWriteLoop pi i (ch :: rest) = pipeWriteLoop (pi.put ch) (i + 1) rest := by
        simp [pipeWriteLoop, hopen, hfull]
      rw [hloop, List.length_cons, Nat.add_comm rest.length, ← Nat.add_assoc]
      exact ih (i + 1) hopen

variable [DecidableEq ι]

lemma runWrite_isSome_iff (hrest : rest ≠ []) : (runWrite s t id buf i rest).isSome ↔ s.pi.readopen = true := by
  by_cases hopen : s.pi.readopen = true
  · rcases pipeWriteLoop_stops i rest hopen with ⟨pi, hloop⟩ | ⟨pi, j, left, hloop⟩
    · simp [runWrite, hloop, hrest, hopen]
    · simp [runWrite, hloop, hopen]
  · -- the first round of the loop finds the read end closed
    cases rest with
    | nil => exact absurd rfl hrest
    | cons ch rest => simp [runWrite, pipeWriteLoop, hopen]

lemma runWrite_waits (h : WritersWait s) (hrun : runWrite s t id buf i rest = some s') : WritersWait s' := by
  intro t' id' buf' i' rest' hcall
  unfold runWrite at hrun
  cases hloop : pipeWriteLoop s.pi i rest with
  | panicked => simp [hloop] at hrun
  | done pi j =>
    simp only [hloop, Option.ite_none_left_eq_some, Option.some.injEq] at hrun
    rw [← hrun.2] at hcall
    by_cases ht : t' = t
    · simp [ht, Thread.idle] at hcall
    · exact h t' id' buf' i' rest' (by simpa [Function.update_of_ne ht] using hcall)
  | full pi j left =>
    simp only [hloop, Option.some.injEq] at hrun
    subst hrun
    by_cases ht : t' = t
    · -- the writer itself sleeps in front of its next byte
      simp only [sleep, ht, Function.update_self, Option.some.injEq, Call.write.injEq] at hcall
      exact hcall.2.2.2 ▸ ne_nil_of_full hloop
    · exact h t' id' buf' i' rest' (by simpa [sleep, Function.update_of_ne ht] using hcall)

lemma runRead_waits {n : Nat} (h : WritersWait s) : WritersWait (runRead s t id n) := by
  intro t' id' buf' i' rest' hcall
  unfold runRead at hcall
  split at hcall <;> by_cases ht : t' = t
  · simp [sleep, ht] at hcall
  · exact h t' id' buf' i' rest' (by simpa [sleep, Function.update_of_ne ht] using hcall)
  · simp [ht, Thread.idle] at hcall
  · exact h t' id' buf' i' rest' (by simpa [Function.update_of_ne ht] using hcall)

lemma step_waits {a : Act ι} (h : WritersWait s) (hstep : step s a = some s') : WritersWait s' := by
  cases a with
  | write t buf =>
    simp only [step, Option.ite_none_right_eq_some] at hstep
    exact runWrite_waits (s := { s with nextId := s.nextId + 1 }) h hstep.2
  | read t n =>
    simp only [step, Option.ite_none_right_eq_some, Option.some.injEq] at hstep
    exact hstep.2 ▸ runRead_waits h
  | resume t =>
    simp only [step, Option.ite_none_right_eq_some] at hstep
    cases hcall : (s.threads t).call with
    | none => simp [hcall] at hstep
    | some c =>
      cases c with
      | write id buf i rest =>
        rw [hcall] at hstep
        exact runWrite_waits h hstep.2
      | read id n =>
        rw [hcall] at hstep
        cases hstep.2
        exact runRead_waits h
  | close t writable =>
    simp only [step, Option.ite_none_right_eq_some, Option.some.injEq] at hstep
    rcases hstep with ⟨_, rfl⟩
    intro t' id buf i rest hcall
    refine h t' id buf i rest ?_
    cases writable <;> simpa [pipeClose] using hcall

lemma writersWait_of_run {data : Nat → UInt8} {acts : List (Act ι)}
    (hrun : Run (fun s a s' => step s a = some s') (init data) acts s) : WritersWait s :=
  hrun.invariant (by simp [WritersWait, init, Thread.idle]) fun _ _ _ h hstep => step_waits h hstep

/-- In every state that is reached, and for every thread that can go on there: the kernel survives its
stretch exactly if it is no write, or a write of at least one byte that finds the read end open. -/
theorem pipe_call_survives_iff (data : Nat → UInt8) {acts : List (Act ι)} {a : Act ι}
    (hrun : Run (fun s a s' => step s a = some s') (init data) acts s) (ha : Enabled s a) :
    (step s a).isSome ↔ Survives s a := by
  have hwait := writersWait_of_run hrun
  cases a with
  | write t buf =>
    have hready : Ready s t := ha
    simp only [step, if_pos hready, Survives]
    by_cases hbuf : buf = []
    · simp [hbuf, runWrite, pipeWriteLoop]
    · simpa [hbuf] using runWrite_isSome_iff hbuf
  | read t n =>
    have hready : Ready s t := ha
    simp [step, hready, Survives]
  | resume t =>
    rcases ha with ⟨hstate, hcall⟩
    rcases Option.isSome_iff_exists.1 hcall with ⟨c, hc⟩
    cases c with
    | write id buf i rest => simpa [step, hstate, hc, Survives] using runWrite_isSome_iff (hwait t id buf i rest hc)
    | read id n => simp [step, hstate, hc, Survives]
  | close t writable =>
    have hready : Ready s t := ha
    simp [step, hready, Survives]

/-- A write of two bytes into a new pipe. -/
theorem two_byte_write_survives : (step (init fun _ => 0 : Sys Bool) (.write true [1, 2])).isSome :=
  (pipe_call_survives_iff (a := .write true [1, 2]) (fun _ => 0) (.nil _) ⟨rfl, rfl⟩).2 ⟨by decide, rfl⟩

/-- An empty write to a new pipe, and a write after the read end was closed. -/
theorem pipe_write_halts : (Enabled (init fun _ => 0 : Sys Bool) (.write true []) ∧
      step (init fun _ => 0 : Sys Bool) (.write true []) = none) ∧
    ∃ s : Sys Bool, runAll step (init fun _ => 0) [.close false false] = some s ∧
      Enabled s (.write true [1]) ∧ step s (.write true [1]) = none :=
  ⟨⟨⟨rfl, rfl⟩, rfl⟩, _, rfl, ⟨rfl, rfl⟩, rfl⟩

end Pipe
end OsRiscv
