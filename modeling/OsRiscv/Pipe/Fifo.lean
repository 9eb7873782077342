import OsRiscv.Pipe.Model

/-!
# Fifo — the pipe delivers what was stored, in order, and no wakeup is lost

The invariant `Inv` relates the ring of the pipe to the trace of stored and taken bytes and says
which threads may be asleep.  `step_inv` shows that every stretch of a reader, of a writer or of a
closer keeps it; `pipe_fifo` reads the laws of the pipe off it for every run.
-/

namespace OsRiscv
namespace Pipe

open Function (update update_of_ne update_self)
open Lib List

/-! ## Reading a trace -/

/-- The bytes stored, in the order stored. -/
def storedBytes (tr : List Event) : List UInt8 :=
  tr.filterMap fun
    | .stored _ ch => some ch
    | _ => none

/-- The bytes taken, in the order taken. -/
def takenBytes (tr : List Event) : List UInt8 :=
  tr.filterMap fun
    | .taken _ ch => some ch
    | _ => none

/-- The bytes stored by the call number `id`, in the order stored. -/
def storedBy (id : Nat) (tr : List Event) : List UInt8 :=
  tr.filterMap fun
    | .stored id' ch => if id' = id then some ch else none
    | _ => none

section Trace

variable (tr : List Event) (id : Nat) (out : List UInt8) {threads : ι → Thread} {channel channel' : Chan} {t' : ι}

@[simp] lemma storedBytes_append (tr' : List Event) :
    storedBytes (tr ++ tr') = storedBytes tr ++ storedBytes tr' := by
  simp [storedBytes]

@[simp] lemma takenBytes_append (tr' : List Event) : takenBytes (tr ++ tr') = takenBytes tr ++ takenBytes tr' := by
  simp [takenBytes]

@[simp] lemma storedBy_append (tr' : List Event) : storedBy id (tr ++ tr') = storedBy id tr ++ storedBy id tr' := by
  simp [storedBy]

@[simp] lemma storedBytes_stored : storedBytes (out.map (.stored id)) = out := by
  simp [storedBytes, filterMap_map]

@[simp] lemma takenBytes_stored : takenBytes (out.map (.stored id)) = [] := by
  simp [takenBytes, filterMap_map]

@[simp] lemma takenBytes_taken : takenBytes (out.map (.taken id)) = out := by
  simp [takenBytes, filterMap_map]

@[simp] lemma storedBytes_taken : storedBytes (out.map (.taken id)) = [] := by
  simp [storedBytes, filterMap_map]

@[simp] lemma storedBy_taken (id' : Nat) : storedBy id (out.map (.taken id')) = [] := by
  simp [storedBy, filterMap_map]

@[simp] lemma storedBy_stored_self : storedBy id (out.map (.stored id)) = out := by
  simp [storedBy, filterMap_map]

lemma storedBy_stored_ne {id' : Nat} (h : id' ≠ id) : storedBy id (out.map (.stored id')) = [] := by
  simp [storedBy, filterMap_map, h]

variable (buf : List UInt8) (n ret : Nat)

@[simp] lemma storedBytes_wrote : storedBytes [.wrote id buf ret] = [] := rfl
@[simp] lemma storedBytes_read : storedBytes [.read id n ret] = [] := rfl
@[simp] lemma takenBytes_wrote : takenBytes [.wrote id buf ret] = [] := rfl
@[simp] lemma takenBytes_read : takenBytes [.read id n ret] = [] := rfl
@[simp] lemma storedBy_wrote (id' : Nat) : storedBy id' [.wrote id buf ret] = [] := rfl
@[simp] lemma storedBy_read (id' : Nat) : storedBy id' [.read id n ret] = [] := rfl
@[simp] lemma storedBytes_closedWrite : storedBytes [.closedWrite] = [] := rfl
@[simp] lemma takenBytes_closedWrite : takenBytes [.closedWrite] = [] := rfl
@[simp] lemma storedBy_closedWrite : storedBy id [.closedWrite] = [] := rfl

end Trace

/-! ## The ring operations -/

lemma and_pipeSize (k : Nat) : k &&& (pipeSize - 1) = k % pipeSize := by
  simpa [pipeSize] using Nat.and_two_pow_sub_one_eq_mod k 16

/-- Between the counters lie at most `PIPESIZE` bytes. -/
structure PipeBuf.Bounded (pi : PipeBuf) : Prop where
  le : pi.nread ≤ pi.nwrite
  room : pi.nwrite ≤ pi.nread + pipeSize

/-- The tests and the indices computed from the counters are the same for the 64-bit counters of the
source, which hold the running numbers modulo `2 ^ 64`. -/
theorem counters_wrap {pi : PipeBuf} (h : pi.Bounded) :
    (pi.nwrite % 2 ^ 64 = (pi.nread % 2 ^ 64 + pipeSize) % 2 ^ 64 ↔ pi.Full) ∧
      (pi.nread % 2 ^ 64 = pi.nwrite % 2 ^ 64 ↔ pi.Empty) ∧
      ∀ k, (k % 2 ^ 64) &&& (pipeSize - 1) = k &&& (pipeSize - 1) := by
  obtain ⟨hle, hroom⟩ := h
  simp only [pipeSize] at hroom
  refine ⟨?_, ?_, ?_⟩
  · simp only [PipeBuf.Full, pipeSize]
    omega
  · simp only [PipeBuf.Empty]
    omega
  · intro k
    rw [and_pipeSize, and_pipeSize]
    exact Nat.mod_mod_of_dvd k ⟨2 ^ 48, by simp [pipeSize]⟩

/-- `pi'` is `pi` after the bytes `out` were stored. -/
structure Stored (pi : PipeBuf) (out : List UInt8) (pi' : PipeBuf) : Prop where
  readopen : pi'.readopen = pi.readopen
  writeopen : pi'.writeopen = pi.writeopen
  queue : pi'.queue = pi.queue ++ out
  bounded : pi'.Bounded

lemma Stored.refl {pi : PipeBuf} (h : pi.Bounded) : Stored pi [] pi :=
  ⟨rfl, rfl, by simp, h⟩

lemma stored_put {pi : PipeBuf} (h : pi.Bounded) (hfull : ¬ pi.Full) (ch : UInt8) : Stored pi [ch] (pi.put ch) := by
  obtain ⟨hle, hroom⟩ := h
  have hlt : pi.nwrite < pi.nread + pipeSize := Nat.lt_of_le_of_ne hroom hfull
  refine ⟨rfl, rfl, ?_, ?_⟩
  · simp only [PipeBuf.queue, PipeBuf.put, and_pipeSize]
    exact window_push ch hle hlt
  · exact ⟨by simp [PipeBuf.put]; omega, by simp [PipeBuf.put]; omega⟩

lemma Stored.trans {pi pi' pi'' : PipeBuf} {out out' : List UInt8}
    (h : Stored pi out pi') (h' : Stored pi' out' pi'') : Stored pi (out ++ out') pi'' :=
  ⟨h'.readopen.trans h.readopen, h'.writeopen.trans h.writeopen,
    by rw [h'.queue, h.queue, append_assoc], h'.bounded⟩

/-- `pi'` is `pi` after the bytes `out` were taken. -/
structure Taken (pi : PipeBuf) (out : List UInt8) (pi' : PipeBuf) : Prop where
  readopen : pi'.readopen = pi.readopen
  writeopen : pi'.writeopen = pi.writeopen
  queue : pi.queue = out ++ pi'.queue
  bounded : pi'.Bounded

lemma taken_get {pi : PipeBuf} (h : pi.Bounded) (hempty : ¬ pi.Empty) : Taken pi [pi.get.1] pi.get.2 := by
  obtain ⟨hle, hroom⟩ := h
  have hlt : pi.nread < pi.nwrite := Nat.lt_of_le_of_ne hle hempty
  refine ⟨rfl, rfl, ?_, ?_⟩
  · simp only [PipeBuf.queue, PipeBuf.get, and_pipeSize, singleton_append]
    exact window_pop hlt
  · exact ⟨by simp [PipeBuf.get]; omega, by simp [PipeBuf.get]; omega⟩

/-! ## The loops -/

/-- Everything the loop of `pipeWrite` can do: it stores a prefix `out` of the remaining bytes, and
it stops early only in a full pipe. -/
theorem pipeWriteLoop_cases {pi : PipeBuf} (h : pi.Bounded) (hopen : pi.readopen = true)
    (i : Nat) (rest : List UInt8) :
    (∃ pi', pipeWriteLoop pi i rest = .done pi' (i + rest.length) ∧ Stored pi rest pi') ∨
      ∃ pi' out rest', pipeWriteLoop pi i rest = .full pi' (i + out.length) rest' ∧
        rest = out ++ rest' ∧ rest' ≠ [] ∧ Stored pi out pi' ∧ pi'.Full := by
  induction rest generalizing pi i with
  | nil => exact .inl ⟨pi, rfl, Stored.refl h⟩
  | cons ch rest ih =>
    by_cases hfull : pi.Full
    · refine .inr ⟨pi, [], ch :: rest, ?_, rfl, by simp, Stored.refl h, hfull⟩
      simp [pipeWriteLoop, hopen, hfull]
    · have hput := stored_put h hfull ch
      have hloop : pipeWriteLoop pi i (ch :: rest) = pipeWriteLoop (pi.put ch) (i + 1) rest := by
        simp [pipeWriteLoop, hopen, hfull]
      have hlen : ∀ l : List UInt8, i + 1 + l.length = i + (ch :: l).length := by
        simp only [length_cons]
        omega
      rcases ih hput.bounded (hput.readopen.trans hopen) (i + 1) with
        ⟨pi', heq, hst⟩ | ⟨pi', out, rest', heq, hsplit, hne, hst, hf⟩
      · exact .inl ⟨pi', by rw [hloop, heq, hlen], hput.trans hst⟩
      · refine .inr ⟨pi', ch :: out, rest', ?_, ?_, hne, hput.trans hst, hf⟩
        · rw [hloop, heq, hlen]
        · simp [hsplit]

/-- The copy loop of `pipeRead` takes a prefix of the queue, and with `n ≥ 1` it takes nothing only
from an empty pipe. -/
theorem pipeReadLoop_spec {pi : PipeBuf} (h : pi.Bounded) (n : Nat) :
    Taken pi (pipeReadLoop pi n).1 (pipeReadLoop pi n).2 ∧
      (1 ≤ n → (pipeReadLoop pi n).1 = [] → pi.Empty ∧ (pipeReadLoop pi n).2 = pi) := by
  induction n generalizing pi with
  | zero => exact ⟨⟨rfl, rfl, by simp [pipeReadLoop], h⟩, by omega⟩
  | succ n ih =>
    by_cases hempty : pi.Empty
    · simp only [pipeReadLoop, if_pos hempty]
      exact ⟨⟨rfl, rfl, by simp, h⟩, fun _ _ => ⟨hempty, trivial⟩⟩
    · have hget := taken_get h hempty
      obtain ⟨htail, -⟩ := ih hget.bounded
      simp only [pipeReadLoop, if_neg hempty]
      refine ⟨⟨?_, ?_, ?_, htail.bounded⟩, by simp⟩
      · exact htail.readopen.trans hget.readopen
      · exact htail.writeopen.trans hget.writeopen
      · rw [hget.queue, htail.queue]
        simp

/-! ## The invariant -/

variable {ι : Type*}

/-- `t` is asleep on `chan`. -/
def SleepsOn (threads : ι → Thread) (t : ι) (chan : Chan) : Prop :=
  (threads t).state = .sleeping ∧ (threads t).chan = some chan

/-- The number of a call. -/
def Call.id : Call → Nat
  | .write id _ _ _ => id
  | .read id _ => id

/-- A call in progress: its number is in use, and what it stored followed by what it still has to
store is its buffer. -/
def CallOk (nextId : Nat) (tr : List Event) : Call → Prop
  | .write id buf i rest => id < nextId ∧ rest ≠ [] ∧ storedBy id tr ++ rest = buf ∧ i = (storedBy id tr).length
  | .read id n => id < nextId ∧ 1 ≤ n

/-- What a finished call promises about the part of the trace before its return. -/
def ReturnOk (before : List Event) : Event → Prop
  | .wrote id buf ret => ret = buf.length ∧ storedBy id before = buf
  | .read _ _ ret => ret = 0 → .closedWrite ∈ before ∧ takenBytes before = storedBytes before
  | _ => True

/-- The calls in progress have numbers of their own, and agree with the trace. -/
structure CallsInv (nextId : Nat) (tr : List Event) (threads : ι → Thread) : Prop where
  ok : ∀ t c, (threads t).call = some c → CallOk nextId tr c
  unique : ∀ t t' c c', (threads t).call = some c → (threads t').call = some c' →
    c.id = c'.id → t = t'
  fresh : ∀ id, nextId ≤ id → storedBy id tr = []

structure Inv (s : Sys ι) : Prop where
  bounded : s.pi.Bounded
  readopen : s.pi.readopen = true
  fifo : storedBytes s.trace = takenBytes s.trace ++ s.pi.queue
  closed : s.pi.writeopen = false → .closedWrite ∈ s.trace
  sleepRead : ∀ t, SleepsOn s.threads t .nread → s.pi.Empty ∧ s.pi.writeopen = true
  sleepWrite : ∀ t, SleepsOn s.threads t .nwrite → s.pi.Full
  calls : CallsInv s.nextId s.trace s.threads
  returns : ∀ before ev after, s.trace = before ++ ev :: after → ReturnOk before ev

/-! ## Wakeups -/

@[simp] lemma wakeup_call (channel : Chan) (threads : ι → Thread) (t : ι) :
    (wakeup channel threads t).call = (threads t).call := by
  unfold wakeup
  split <;> rfl

lemma sleeps_of_wakeup {t : ι}
    (h : SleepsOn (wakeup channel threads) t channel') : channel' ≠ channel ∧ SleepsOn threads t channel' := by
  obtain ⟨hst, hch⟩ := h
  unfold wakeup at hst hch
  split at hst
  · cases hst
  · rename_i hnot
    rw [if_neg hnot] at hch
    refine ⟨?_, hst, hch⟩
    intro he
    subst he
    exact hnot ⟨hst, hch⟩

/-! ## The history -/

section

variable {tr evs : List Event} (h : ∀ before ev after, tr = before ++ ev :: after → ReturnOk before ev)
include h

lemma returns_append
    (hnew : ∀ before ev after, evs = before ++ ev :: after → ReturnOk (tr ++ before) ev) :
    ∀ before ev after, tr ++ evs = before ++ ev :: after → ReturnOk before ev := by
  intro before ev after heq
  rcases append_eq_append_cons heq with ⟨rest, hx⟩ | ⟨front, rfl, hy⟩
  · exact h before ev rest hx
  · exact hnew front ev after hy

lemma returns_bytes
    (hevs : ∀ ev ∈ evs, ∀ before, ReturnOk before ev) :
    ∀ before ev after, tr ++ evs = before ++ ev :: after → ReturnOk before ev := by
  refine returns_append h ?_
  intro before ev after heq
  refine hevs ev ?_ _
  rw [heq]
  simp

lemma returns_last {last : Event}
    (hevs : ∀ ev ∈ evs, ∀ before, ReturnOk before ev) (hlast : ReturnOk (tr ++ evs) last) :
    ∀ before ev after, tr ++ evs ++ [last] = before ++ ev :: after → ReturnOk before ev := by
  refine returns_append (returns_bytes h hevs) ?_
  intro before ev after heq
  cases before with
  | nil =>
    have : last = ev := by
      simpa using (List.cons.inj heq).1
    subst this
    simpa using hlast
  | cons b before => simp at heq

end

lemma returnOk_stored {id : Nat} {out : List UInt8} :
    ∀ ev ∈ out.map (Event.stored id), ∀ before, ReturnOk before ev := by
  intro ev hev before
  obtain ⟨ch, -, rfl⟩ := mem_map.1 hev
  trivial

lemma returnOk_taken {id : Nat} {out : List UInt8} :
    ∀ ev ∈ out.map (Event.taken id), ∀ before, ReturnOk before ev := by
  intro ev hev before
  obtain ⟨ch, -, rfl⟩ := mem_map.1 hev
  trivial

lemma callOk_congr {nextId : Nat} {tr tr' : List Event} {c : Call}
    (heq : storedBy c.id tr' = storedBy c.id tr) (h : CallOk nextId tr c) : CallOk nextId tr' c := by
  cases c with
  | write id buf i rest =>
    simp only [Call.id] at heq
    simpa [CallOk, heq] using h
  | read id n => exact h

/-- The call number `id` of thread `t` adds the events `evs` and goes on as `th`; all other threads
keep their calls. -/
theorem CallsInv.advance {nextId id : Nat} {tr evs : List Event} {threads threads' : ι → Thread}
    {t : ι} (h : CallsInv nextId tr threads) (hid : id < nextId)
    (hown : ∀ t' c, (threads t').call = some c → c.id = id → t' = t)
    (hothers : ∀ t', t' ≠ t → (threads' t').call = (threads t').call) (hevs : ∀ id', id' ≠ id → storedBy id' evs = [])
    (ht : ∀ c, (threads' t).call = some c → c.id = id ∧ CallOk nextId (tr ++ evs) c) :
    CallsInv nextId (tr ++ evs) threads' := by
  refine ⟨?_, ?_, ?_⟩
  · intro t' c hc
    by_cases htt : t' = t
    · subst htt
      exact (ht c hc).2
    · rw [hothers t' htt] at hc
      have hne : c.id ≠ id := fun he => htt (hown t' c hc he)
      refine callOk_congr ?_ (h.ok t' c hc)
      simp [hevs _ hne]
  · intro t₁ t₂ c₁ c₂ h₁ h₂ he
    by_cases ht₁ : t₁ = t <;> by_cases ht₂ : t₂ = t
    · exact ht₁.trans ht₂.symm
    · subst ht₁
      rw [hothers t₂ ht₂] at h₂
      exact (hown t₂ c₂ h₂ (he.symm.trans (ht c₁ h₁).1)).symm
    · subst ht₂
      rw [hothers t₁ ht₁] at h₁
      exact hown t₁ c₁ h₁ (he.trans (ht c₂ h₂).1)
    · rw [hothers t₁ ht₁] at h₁
      rw [hothers t₂ ht₂] at h₂
      exact h.unique t₁ t₂ c₁ c₂ h₁ h₂ he
  · intro id' hid'
    have hne : id' ≠ id := by omega
    simp [h.fresh id' hid', hevs id' hne]

/-! ## What one step preserves -/

variable {s s' : Sys ι} {t : ι}

lemma pipeClose_inv (h : Inv s) : Inv (pipeClose s true) := by
  simp only [pipeClose, if_true]
  refine ⟨⟨h.bounded.le, h.bounded.room⟩, h.readopen, ?_, ?_, ?_, ?_, ⟨?_, ?_, ?_⟩, ?_⟩
  · simpa [PipeBuf.queue] using h.fifo
  · simp
  · intro t' hsl
    exact absurd rfl (sleeps_of_wakeup hsl).1
  · intro t' hsl
    exact h.sleepWrite t' (sleeps_of_wakeup hsl).2
  · intro t' c hc
    refine callOk_congr ?_ (h.calls.ok t' c (by simpa using hc))
    simp
  · intro t₁ t₂ c₁ c₂ h₁ h₂ he
    exact h.calls.unique t₁ t₂ c₁ c₂ (by simpa using h₁) (by simpa using h₂) he
  · intro id hid
    simpa using h.calls.fresh id hid
  · refine returns_bytes h.returns ?_
    intro ev hev before
    rw [mem_singleton] at hev
    subst hev
    trivial

lemma Inv.nextId_succ (h : Inv s) : Inv { s with nextId := s.nextId + 1 } := by
  refine ⟨h.bounded, h.readopen, h.fifo, h.closed, h.sleepRead, h.sleepWrite, ?_, h.returns⟩
  refine ⟨?_, h.calls.unique, fun id hid => h.calls.fresh id (by simp only at hid; omega)⟩
  intro t c hc
  have := h.calls.ok t c hc
  cases c with
  | write id buf i rest => exact ⟨Nat.lt_succ_of_lt this.1, this.2⟩
  | read id n => exact ⟨Nat.lt_succ_of_lt this.1, this.2⟩

lemma Inv.call_id_ne (h : Inv s) {c : Call} (hc : (s.threads t').call = some c) : c.id ≠ s.nextId := by
  have := h.calls.ok t' c hc
  cases c with
  | write id buf i rest => exact Nat.ne_of_lt this.1
  | read id n => exact Nat.ne_of_lt this.1

variable [DecidableEq ι]

lemma sleeps_of_return (h : SleepsOn (update (wakeup channel threads) t .idle) t' channel') :
    channel' ≠ channel ∧ SleepsOn threads t' channel' := by
  by_cases ht : t' = t
  · subst ht
    simp [SleepsOn, Thread.idle] at h
  · simp only [SleepsOn, update_of_ne ht] at h
    exact sleeps_of_wakeup h

lemma sleeps_of_sleep {chan channel' : Chan} {call : Call}
    (h : SleepsOn (sleep t chan call threads) t' channel') :
    t' = t ∧ channel' = chan ∨ SleepsOn threads t' channel' := by
  by_cases ht : t' = t
  · subst ht
    simp only [SleepsOn, sleep, update_self, Option.some.injEq] at h
    exact .inl ⟨rfl, h.2.symm⟩
  · simp only [SleepsOn, sleep, update_of_ne ht] at h
    exact .inr h

/-- A stretch of `pipeWrite` keeps the invariant, wherever it stops. -/
theorem runWrite_inv {id i : Nat} {buf rest : List UInt8} (h : Inv s)
    (hc : CallOk s.nextId s.trace (.write id buf i rest))
    (hown : ∀ t' c, (s.threads t').call = some c → c.id = id → t' = t)
    (hrun : runWrite s t id buf i rest = some s') : Inv s' := by
  obtain ⟨hid, hne, hbuf, hi⟩ := hc
  rcases pipeWriteLoop_cases h.bounded h.readopen i rest with
    ⟨pi, hloop, hst⟩ | ⟨pi, out, rest', hloop, hsplit, hne', hst, hfull⟩
  · -- all bytes are stored: the call returns
    have hpos : i + rest.length ≠ 0 := by
      have := length_pos_iff.2 hne
      omega
    have htake : rest.take (i + rest.length - i) = rest := by simp
    simp only [runWrite, hloop, if_neg hpos, htake, Option.some.injEq] at hrun
    subst hrun
    refine ⟨hst.bounded, hst.readopen.trans h.readopen, ?_, ?_, ?_, ?_, ?_, ?_⟩
    · simp [h.fifo, hst.queue]
    · intro hw
      have := h.closed (hst.writeopen ▸ hw)
      simp [this]
    · intro t' hsl
      exact absurd rfl (sleeps_of_return hsl).1
    · intro t' hsl
      -- a writer that stores a byte starts in a pipe that is not full
      have hf := h.sleepWrite t' (sleeps_of_return hsl).2
      cases rest with
      | nil => exact absurd rfl hne
      | cons ch rest => simp [pipeWriteLoop, h.readopen, hf] at hloop
    · rw [append_assoc]
      refine h.calls.advance hid hown ?_ ?_ ?_
      · intro t' ht
        simp [update_of_ne ht]
      · intro id' hne
        simp [storedBy_stored_ne id' rest hne.symm]
      · simp [Thread.idle]
    · refine returns_last h.returns returnOk_stored ⟨?_, ?_⟩
      · rw [← hbuf, hi, length_append]
      · simp [hbuf]
  · -- the pipe is full: the writer wakes the readers and sleeps
    have htake : rest.take (i + out.length - i) = out := by simp [hsplit]
    simp only [runWrite, hloop, htake, Option.some.injEq] at hrun
    subst hrun
    refine ⟨hst.bounded, hst.readopen.trans h.readopen, ?_, ?_, ?_, fun _ _ => hfull, ?_, ?_⟩
    · simp [h.fifo, hst.queue]
    · intro hw
      have := h.closed (hst.writeopen ▸ hw)
      simp [this]
    · intro t' hsl
      rcases sleeps_of_sleep hsl with ⟨-, he⟩ | hw
      · cases he
      · exact absurd rfl (sleeps_of_wakeup hw).1
    · refine h.calls.advance hid hown ?_ ?_ ?_
      · intro t' ht
        simp [sleep, update_of_ne ht]
      · intro id' hne
        simp [storedBy_stored_ne id' out hne.symm]
      · intro c hcall
        simp only [sleep, update_self, Option.some.injEq] at hcall
        subst hcall
        exact ⟨rfl, hid, hne', by simp [← hbuf, hsplit], by simp [hi]⟩
    · exact returns_bytes h.returns returnOk_stored

/-- A stretch of `pipeRead` keeps the invariant. -/
theorem runRead_inv {id n : Nat} (h : Inv s) (hc : CallOk s.nextId s.trace (.read id n))
    (hown : ∀ t' c, (s.threads t').call = some c → c.id = id → t' = t) : Inv (runRead s t id n) := by
  obtain ⟨hid, hn⟩ := hc
  by_cases hwait : s.pi.Empty ∧ s.pi.writeopen = true
  · -- nothing to read and the write end is open: the reader sleeps
    simp only [runRead, if_pos hwait]
    refine ⟨h.bounded, h.readopen, h.fifo, h.closed, fun _ _ => hwait, ?_, ?_, h.returns⟩
    · intro t' hsl
      rcases sleeps_of_sleep hsl with ⟨-, he⟩ | hw
      · cases he
      · exact h.sleepWrite t' hw
    · have hcalls : CallsInv s.nextId (s.trace ++ []) (sleep t .nread (.read id n) s.threads) := by
        refine h.calls.advance hid hown ?_ ?_ ?_
        · intro t' ht
          simp [sleep, update_of_ne ht]
        · simp [storedBy]
        · intro c hcall
          simp only [sleep, update_self, Option.some.injEq] at hcall
          subst hcall
          exact ⟨rfl, hid, hn⟩
      simpa using hcalls
  · -- bytes are taken, or the pipe is at its end
    obtain ⟨htk, hzero⟩ := pipeReadLoop_spec h.bounded n
    simp only [runRead, if_neg hwait]
    refine ⟨htk.bounded, htk.readopen.trans h.readopen, ?_, ?_, ?_, ?_, ?_, ?_⟩
    · simp [h.fifo, htk.queue]
    · intro hw
      have := h.closed (htk.writeopen ▸ hw)
      simp [this]
    · intro t' hsl
      exact absurd (h.sleepRead t' (sleeps_of_return hsl).2) hwait
    · intro t' hsl
      exact absurd rfl (sleeps_of_return hsl).1
    · rw [append_assoc]
      refine h.calls.advance hid hown ?_ ?_ ?_
      · intro t' ht
        simp [update_of_ne ht]
      · simp
      · simp [Thread.idle]
    · refine returns_last h.returns returnOk_taken ?_
      intro hret
      have hnil : (pipeReadLoop s.pi n).1 = [] := length_eq_zero_iff.1 hret
      obtain ⟨hempty, -⟩ := hzero hn hnil
      have hclosed : s.pi.writeopen = false := by
        cases hw : s.pi.writeopen with
        | false => rfl
        | true => exact absurd ⟨hempty, hw⟩ hwait
      refine ⟨by simp [h.closed hclosed], ?_⟩
      have hq : s.pi.queue = [] := by
        rw [PipeBuf.queue, hempty, window_self]
      simp [hnil, h.fifo, hq]

/-- The actions of a run in which the read end stays open and every call is for at least one byte. -/
def Allowed : Act ι → Prop
  | .write _ buf => 1 ≤ buf.length
  | .read _ n => 1 ≤ n
  | .resume _ => True
  | .close _ writable => writable = true

lemma step_inv {a : Act ι} (ha : Allowed a) (h : Inv s) (hstep : step s a = some s') : Inv s' := by
  cases a with
  | write t buf =>
    simp only [step] at hstep
    split at hstep
    · refine runWrite_inv h.nextId_succ ?_ ?_ hstep
      · have hfresh := h.calls.fresh s.nextId (Nat.le_refl _)
        exact ⟨Nat.lt_succ_self _, length_pos_iff.1 ha, by simp [hfresh], by simp [hfresh]⟩
      · intro t' c hc hid
        exact absurd hid (h.call_id_ne hc)
    · cases hstep
  | read t n =>
    simp only [step] at hstep
    split at hstep
    · cases hstep
      refine runRead_inv h.nextId_succ ⟨Nat.lt_succ_self _, ha⟩ ?_
      intro t' c hc hid
      exact absurd hid (h.call_id_ne hc)
    · cases hstep
  | resume t =>
    simp only [step] at hstep
    split at hstep
    · cases hcall : (s.threads t).call with
      | none => simp [hcall] at hstep
      | some c =>
        have hok := h.calls.ok t c hcall
        have hown : ∀ t' c', (s.threads t').call = some c' → c'.id = c.id → t' = t :=
          fun t' c' hc' he => h.calls.unique t' t c' c hc' hcall he
        cases c with
        | write id buf i rest =>
          rw [hcall] at hstep
          exact runWrite_inv h hok hown hstep
        | read id n =>
          rw [hcall] at hstep
          cases hstep
          exact runRead_inv h hok hown
    · cases hstep
  | close t writable =>
    have hw : writable = true := ha
    subst hw
    simp only [step] at hstep
    split at hstep
    · cases hstep
      exact pipeClose_inv h
    · cases hstep

/-! ## Runs -/

omit [DecidableEq ι] in
lemma init_inv (data : Nat → UInt8) : Inv (init data : Sys ι) := by
  refine ⟨⟨Nat.le_refl _, Nat.zero_le _⟩, rfl, ?_, ?_, ?_, ?_, ⟨?_, ?_, ?_⟩, ?_⟩
  · simp [init, storedBytes, takenBytes, PipeBuf.queue, PipeBuf.new]
  · simp [init, PipeBuf.new]
  · simp [init, SleepsOn, Thread.idle]
  · simp [init, SleepsOn, Thread.idle]
  · simp [init, Thread.idle]
  · simp [init, Thread.idle]
  · simp [init, storedBy]
  · simp [init]

/-- The laws of a pipe whose read end is open, for any number of threads, any order in which the
scheduler picks them and any point at which the write end is closed. -/
theorem pipe_fifo (data : Nat → UInt8) {acts : List (Act ι)} {s : Sys ι} (hacts : ∀ a ∈ acts, Allowed a)
    (hrun : Run (fun s a s' => step s a = some s') (init data) acts s) :
    (s.pi.nread ≤ s.pi.nwrite ∧ s.pi.nwrite ≤ s.pi.nread + pipeSize) ∧
      takenBytes s.trace <+: storedBytes s.trace ∧
      (∀ before after id buf ret, s.trace = before ++ .wrote id buf ret :: after →
        ret = buf.length ∧ storedBy id before = buf) ∧
      (∀ before after id n, s.trace = before ++ .read id n 0 :: after →
        .closedWrite ∈ before ∧ takenBytes before = storedBytes before) ∧
      (∀ t, SleepsOn s.threads t .nread → s.pi.Empty ∧ s.pi.writeopen = true) ∧
      (∀ t, SleepsOn s.threads t .nwrite → s.pi.Full) := by
  have hinv : Inv s :=
    hrun.invariant_of_forall hacts (init_inv data) (fun _ _ _ ha hi hs => step_inv ha hi hs)
  refine ⟨⟨hinv.bounded.le, hinv.bounded.room⟩, ?_, ?_, ?_, hinv.sleepRead, hinv.sleepWrite⟩
  · rw [hinv.fifo]
    exact prefix_append _ _
  · intro before after id buf ret heq
    exact hinv.returns before _ after heq
  · intro before after id n heq
    exact hinv.returns before _ after heq rfl

/-- A reader that has to wait, the writer that wakes it, and the reader's second stretch. -/
theorem pipe_fifo_reader_waits : ∃ s : Sys Bool,
      runAll step (init fun _ => 0) [.read true 4, .write false [1, 2], .resume true] = some s ∧
        takenBytes s.trace = [1, 2] ∧ takenBytes s.trace <+: storedBytes s.trace := by
  refine ⟨_, rfl, rfl, ?_⟩
  have hallowed : ∀ a ∈ [Act.read true 4, .write false [1, 2], .resume true], Allowed a := by
    simp [Allowed]
  exact (pipe_fifo (fun _ => 0) hallowed (run_of_runAll rfl)).2.1

end Pipe
end OsRiscv
