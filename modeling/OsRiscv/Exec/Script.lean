import OsRiscv.Exec.Failed

/-!
# Script — the first line of a script, and scripts that name scripts

`load_script` of `Exec.c` works on a buffer of the stack in which `eread` has put the first 127 bytes of the file.  It
has the line only if the end of the line is among them.  Each script puts at least one word in front of the arguments,
so the recursion of `exec` and `load_script` comes to its end in `script_argv` when nothing else ends it.
-/

namespace OsRiscv
namespace Exec

open Lib List OsRiscv.Tree

variable {file b : Str} {argv : List Str} {stale : Nat → UInt8}

/-! ## The first line -/

/-- The first line of a text; a 0 ends the text. -/
def lineOf (file : Str) : Str := file.takeWhile fun c => c ≠ 0 ∧ c ≠ 10

/-- The interpreter and the arguments that the first line of a file calls for. -/
def scriptCall (file : Str) (argv : List Str) : Option (Str × List Str) :=
  (scriptLine (lineOf file)).map fun x => (x.1, x.1 :: x.2.toList ++ argv)

/-- The line ends in the text, and its words fit in `script_argv` with the arguments. -/
structure Parses (b : Str) (argv : List Str) : Prop where
  ends : ∃ c ∈ b, c = 0 ∨ c = 10
  room : ∀ call, scriptCall b argv = some call → call.2.length ≤ maxArg

lemma lineOf_append (h : ∃ c ∈ b, c = 0 ∨ c = 10) (rest : Str) : lineOf (b ++ rest) = lineOf b := by
  unfold lineOf
  rw [takeWhile_append, if_neg]
  intro hlen
  rcases h with ⟨c, hc, hend⟩
  have hself := (takeWhile_sublist _).eq_of_length hlen
  have hgo := takeWhile_eq_self_iff.1 hself c hc
  rcases hend with rfl | rfl
  · simp at hgo
  · simp at hgo

section

variable (hb : b.length < binprmBufSize)
include hb

lemma slice_buffer : slice (overlay stale 0 b) 0 binprmBufSize =
    b ++ slice (overlay stale 0 b) b.length (binprmBufSize - b.length) := by
  have hadd : binprmBufSize = b.length + (binprmBufSize - b.length) := by omega
  conv_lhs => rw [hadd]
  rw [slice_add, slice_overlay_self, Nat.zero_add]

lemma loadScript_of_ends (h : ∃ c ∈ b, c = 0 ∨ c = 10) :
    loadScript (overlay stale 0 b) argv =
      match scriptCall b argv with
      | none => .ok none
      | some call => if maxArg < call.2.length then .error .undefined else .ok (some call) := by
  have hline := lineOf_append h (slice (overlay stale 0 b) b.length (binprmBufSize - b.length))
  rw [← slice_buffer hb, lineOf] at hline
  have hlt : (lineOf b).length < binprmBufSize := Nat.lt_of_le_of_lt (takeWhile_sublist _).length_le hb
  simp only [loadScript, hline, if_neg (Nat.ne_of_lt hlt), scriptCall]
  cases scriptLine (lineOf b) with
  | none => rfl
  | some x => rfl

/-- What may be left on the stack: the start of a script without an end. -/
def endless (k : Nat) : UInt8 := if k = 0 then 35 else if k = 1 then 33 else 1

/-- Without an end the scan may run out of the buffer. -/
theorem loadScript_of_open (h : ¬∃ c ∈ b, c = 0 ∨ c = 10) :
    loadScript (overlay endless 0 b) argv = .error .undefined := by
  have hall : lineOf (slice (overlay endless 0 b) 0 binprmBufSize) = slice (overlay endless 0 b) 0 binprmBufSize := by
    refine takeWhile_eq_self_iff.2 fun c hc => decide_eq_true ?_
    rw [slice_buffer hb] at hc
    rcases mem_append.1 hc with hc | hc
    · exact ⟨fun h0 => h ⟨c, hc, Or.inl h0⟩, fun h10 => h ⟨c, hc, Or.inr h10⟩⟩
    · rcases mem_map.1 hc with ⟨k, _, rfl⟩
      rw [overlay_of_ge (by omega), endless]
      split_ifs <;> decide
  rw [lineOf] at hall
  simp only [loadScript, hall, length_slice, if_pos]

end

lemma exec_of_full {env : Env} {s s' : Sys} {m : Nat} {path : Str} {r : Int} (hfull : maxArg ≤ argv.length)
    (hexec : exec env m path argv s = .done r s') : r < 0 := by
  rcases wp_done (exec_wp m path argv) hexec with ⟨hr, _⟩ | ⟨_, hshort, _⟩
  · exact hr
  · omega

lemma loadScript_eq_iff (file : Str) (argv : List Str) :
    (∀ stale, loadScript (overlay stale 0 (file.take (binprmBufSize - 1))) argv = .ok (scriptCall file argv)) ↔
      Parses (file.take (binprmBufSize - 1)) argv := by
  have hb : (file.take (binprmBufSize - 1)).length < binprmBufSize := by
    rw [length_take]
    unfold binprmBufSize
    omega
  have hcall : (∃ c ∈ file.take (binprmBufSize - 1), c = 0 ∨ c = 10) →
      scriptCall file argv = scriptCall (file.take (binprmBufSize - 1)) argv := by
    intro hends
    have hline := lineOf_append hends (file.drop (binprmBufSize - 1))
    rw [take_append_drop] at hline
    rw [scriptCall, hline, scriptCall]
  constructor
  · intro h
    have hends : ∃ c ∈ file.take (binprmBufSize - 1), c = 0 ∨ c = 10 := by
      by_contra hopen
      have herror := (h endless).symm.trans (loadScript_of_open hb hopen)
      cases herror
    refine ⟨hends, fun call hsome => Nat.le_of_not_lt fun hfull => ?_⟩
    have hone := h fun _ => 0
    rw [loadScript_of_ends hb hends, hsome] at hone
    dsimp only at hone
    rw [if_pos hfull] at hone
    cases hone
  · rintro ⟨hends, hroom⟩ stale
    rw [loadScript_of_ends hb hends, hcall hends]
    cases hsome : scriptCall (file.take (binprmBufSize - 1)) argv with
    | none => rfl
    | some call => exact if_neg (Nat.not_lt.2 (hroom call hsome))

variable {env : Env} {s : Sys} {path : Str} {m n : Nat} {de : Ptr} {via : List Ptr}

/-- The bytes of a file that are read for the first line. -/
def head (d : Dirent) : Str := eread d 0 (binprmBufSize - 1)

lemma head_length (d : Dirent) : (head d).length < binprmBufSize := by
  unfold head eread
  split
  · simp [binprmBufSize]
  · decide
  · split
    · decide
    · rw [length_slice]
      unfold binprmBufSize
      omega

/-- The scripts from a path on come to an end: there is no file, the buffer does not show a script whatever it held
before, or the line is parsed and the scripts from its interpreter on come to an end. -/
inductive ScriptsEnd (n : Nat) (t : Fs) (c : Ctx) : Str → List Str → Prop
  | stops {path : Str} {argv : List Str} (h : ∀ de via, ename n t c atFdcwd path true = .ok (some de, via) →
      ∀ stale, ¬(overlay stale 0 (head (t.dirent de)) 0 = 35 ∧ overlay stale 0 (head (t.dirent de)) 1 = 33)) :
    ScriptsEnd n t c path argv
  | script {path : Str} {argv : List Str} {de : Ptr} {via : List Ptr}
      (hfile : ename n t c atFdcwd path true = .ok (some de, via)) (hparses : Parses (head (t.dirent de)) argv)
      (hnext : ∀ call, scriptCall (head (t.dirent de)) argv = some call → ScriptsEnd n t c call.1 call.2) :
    ScriptsEnd n t c path argv

/-- A call of `exec` that calls no other one. -/
def LastExec (env : Env) (s : Sys) (m : Nat) (path : Str) (argv : List Str) : Prop :=
  ∀ de via, ename env.fuel s.fs s.ctx atFdcwd path true = .ok (some de, via) →
    firstLine env m (s.fs.dirent de) 0 = 35 ∧ firstLine env m (s.fs.dirent de) 1 = 33 →
      loadScript (firstLine env m (s.fs.dirent de)) argv = .ok none

lemma load_firstLine {d : Dirent} (h : ∃ c ∈ head d, c = 0 ∨ c = 10) : loadScript (firstLine env m d) argv =
    match scriptCall (head d) argv with
    | none => .ok none
    | some call => if maxArg < call.2.length then .error .undefined else .ok (some call) :=
  loadScript_of_ends (head_length d) h

lemma exec_freed : exec env (m + 1) path argv (freed s) = exec env (m + 1) path argv s := by
  unfold exec processMapFree
  show Call.bind (Call.modify freed) _ (freed s) = Call.bind (Call.modify freed) _ s
  unfold Call.bind Call.modify
  rw [freed_freed]

lemma exec_script (hscript : firstLine env m (s.fs.dirent de) 0 = 35 ∧ firstLine env m (s.fs.dirent de) 1 = 33)
    (hfile : ename env.fuel s.fs s.ctx atFdcwd path true = .ok (some de, via)) :
    exec env (m + 1) path argv s =
      match loadScript (firstLine env m (s.fs.dirent de)) argv with
      | .error e => .panic e (freed s)
      | .ok none => .done (-8) (freed s)
      | .ok (some call) => exec env m call.1 call.2 (freed s) := by
  have hlookup : lookup env.fuel path true (freed s) = .done (some de) (freed s) := by
    unfold lookup
    show Call.bind Call.get _ (freed s) = _
    unfold Call.bind Call.get
    dsimp only [freed]
    rw [hfile]
    rfl
  show Call.bind (lookup env.fuel path true) _ (freed s) = _
  unfold Call.bind
  rw [hlookup]
  show (if firstLine env m (s.fs.dirent de) 0 = 35 ∧ firstLine env m (s.fs.dirent de) 1 = 33 then _
    else _ : ECall Int) (freed s) = _
  have hline : overlay (env.bprmbuf m) 0 (eread ((freed s).fs.dirent de) 0 (binprmBufSize - 1)) =
      firstLine env m (s.fs.dirent de) := rfl
  rw [if_pos hscript, hline]
  cases loadScript (firstLine env m (s.fs.dirent de)) argv with
  | error e => rfl
  | ok call =>
    cases call with
    | none => rfl
    | some call => rfl

/-- The next script has more arguments, and they fit: there is a level left for it. -/
theorem level_of_room {call : Str × List Str} (hcall : scriptCall b argv = some call) (hle : call.2.length ≤ maxArg)
    (hroom : maxArg < m + 1 + argv.length) : ∃ k, m = k + 1 ∧ maxArg < k + 1 + call.2.length := by
  rcases Option.map_eq_some_iff.1 hcall with ⟨x, _, rfl⟩
  simp only [cons_append, length_cons, length_append] at hle ⊢
  exact ⟨m - 1, by omega, by omega⟩

lemma exec_ends (h : ScriptsEnd env.fuel s.fs s.ctx path argv) (hroom : maxArg < n + 1 + argv.length) :
    ∃ m path' argv', LastExec env s m path' argv' ∧ exec env (n + 1) path argv s = exec env (m + 1) path' argv' s := by
  induction h generalizing n with
  | @stops path argv h => exact ⟨n, path, argv, fun de via hfile hscript => absurd hscript (h de via hfile _), rfl⟩
  | @script path argv de via hfile hparses _ ih =>
    by_cases hlast : LastExec env s n path argv
    · exact ⟨n, path, argv, hlast, rfl⟩
    · -- a call that is not the last one finds the same file, and a script in it that has a line
      unfold LastExec at hlast
      push Not at hlast
      rcases hlast with ⟨de', via', hfile', hscript, hsome⟩
      cases hfile.symm.trans hfile'
      rw [load_firstLine hparses.ends] at hsome
      rw [exec_script hscript hfile, load_firstLine hparses.ends]
      cases hcall : scriptCall (head (s.fs.dirent de)) argv with
      | none =>
        rw [hcall] at hsome
        exact absurd rfl hsome
      | some call =>
        have hle := hparses.room call hcall
        rcases level_of_room hcall hle hroom with ⟨k, rfl, hnext⟩
        dsimp only
        rw [if_neg (Nat.not_lt.2 hle)]
        dsimp only
        rw [exec_freed]
        exact ih call hcall hnext

lemma endless_script {k : Nat} {c : UInt8} (hk : endless k = c) (h : overlay stale 0 b k = c) :
    overlay endless 0 b k = c := by
  by_cases hlt : k < b.length
  · rw [overlay_of_mem (Nat.zero_le k) hlt] at h ⊢
    exact h
  · rw [overlay_of_ge (by omega)]
    exact hk

lemma exec_stuck (h : ¬ScriptsEnd env.fuel s.fs s.ctx path argv) (hroom : maxArg < n + 1 + argv.length) :
    ∃ s', exec { env with bprmbuf := fun _ => endless } (n + 1) path argv s = .panic .undefined s' := by
  induction n using Nat.strong_induction_on generalizing path argv s with
  | _ m ih =>
    have hsome : ∃ de via, ename env.fuel s.fs s.ctx atFdcwd path true = .ok (some de, via) ∧ ∃ stale,
        overlay stale 0 (head (s.fs.dirent de)) 0 = 35 ∧ overlay stale 0 (head (s.fs.dirent de)) 1 = 33 := by
      by_contra hnone
      exact h (.stops fun de via hfile stale hscript => hnone ⟨de, via, hfile, stale, hscript⟩)
    rcases hsome with ⟨de, via, hfile, stale, h0, h1⟩
    set env' := { env with bprmbuf := fun _ => endless } with henv
    have hscript : firstLine env' m (s.fs.dirent de) 0 = 35 ∧ firstLine env' m (s.fs.dirent de) 1 = 33 :=
      ⟨endless_script rfl h0, endless_script rfl h1⟩
    rw [exec_script hscript hfile]
    by_cases hends : ∃ c ∈ head (s.fs.dirent de), c = 0 ∨ c = 10
    · rw [load_firstLine hends]
      cases hcall : scriptCall (head (s.fs.dirent de)) argv with
      | none => exact absurd (.script hfile ⟨hends, by simp [hcall]⟩ (by simp [hcall])) h
      | some call =>
        dsimp only
        split_ifs with hfull
        · exact ⟨freed s, rfl⟩
        · rcases level_of_room hcall (Nat.le_of_not_lt hfull) hroom with ⟨k, rfl, hnext⟩
          refine ih k (Nat.lt_succ_self k) (fun hscripts => h (.script hfile ⟨hends, ?_⟩ ?_)) hnext
          · simpa [hcall] using hfull
          · intro call' hcall'
            cases hcall.symm.trans hcall'
            exact hscripts
    · have hload : loadScript (firstLine env' m (s.fs.dirent de)) argv = .error .undefined :=
        loadScript_of_open (head_length _) hends
      rw [hload]
      exact ⟨freed s, rfl⟩

/-- `/d` is a script that names itself. -/
def selfScript : Sys :=
  { lone [] with
    fs := (after [.fatInit 0 (rootVolume []), .create rootCtx atFdcwd pathD .file 8,
      .write { rootCtx with ofile := fun _ => some (some (.dirent 8191)) } 3 0 [35, 33, 47, 100, 10] 8]).getD boot }

/-- What a call ends with, if it does not return. -/
def stop (o : Outcome Sys Panic Int) : Option Panic :=
  match o with
  | .done _ _ => none
  | .panic e _ => some e

end Exec
end OsRiscv
