import Mathlib.Tactic.Ring

/-!
# Chain — chains of cells linked by a table

`next` gives for each cell the cell that follows it, or an end mark (`stop`).  `Chain next ok stop c l`:
from `c` the links run through the cells `l`, all of them `ok`, to an end mark.
-/

namespace OsRiscv
namespace Lib

open List

variable {α : Type*}

inductive Chain (next : α → α) (ok stop : α → Prop) : α → List α → Prop where
  | last {c : α} : ok c → stop (next c) → Chain next ok stop c [c]
  | link {c : α} {l : List α} :
      ok c → ¬ stop (next c) → Chain next ok stop (next c) l → Chain next ok stop c (c :: l)

namespace Chain

variable {next next' : α → α} {ok stop : α → Prop} {c x y : α} {l l' : List α}

section

variable (h : Chain next ok stop c l)
include h

lemma ok_of_mem (hx : x ∈ l) : ok x := by
  induction h with
  | last hok _ =>
    rw [mem_singleton.1 hx]
    exact hok
  | link hok _ _ ih =>
    rcases mem_cons.1 hx with rfl | hx
    · exact hok
    · exact ih hx

lemma getElem?_zero : l[0]? = some c := by
  cases h with
  | last => rfl
  | link => rfl

lemma mem_self : c ∈ l :=
  mem_of_getElem? h.getElem?_zero

lemma length_pos : 0 < l.length :=
  length_pos_of_mem h.mem_self

/-- The chain from a cell is determined by the table. -/
theorem unique (h' : Chain next ok stop c l') : l = l' := by
  induction h generalizing l' with
  | last _ hstop =>
    cases h' with
    | last => rfl
    | link _ hgo _ => exact absurd hstop hgo
  | link _ hgo _ ih =>
    cases h' with
    | last _ hstop => exact absurd hstop hgo
    | link _ _ hrest => rw [ih hrest]

/-- From each cell of a chain the rest of the chain starts. -/
theorem suffix (hx : x ∈ l) :
    ∃ front rest, l = front ++ rest ∧ Chain next ok stop x rest := by
  induction h with
  | last hok hstop =>
    rw [mem_singleton.1 hx]
    exact ⟨[], _, rfl, Chain.last hok hstop⟩
  | link hok hgo hrest ih =>
    rcases mem_cons.1 hx with rfl | hx
    · exact ⟨[], _, rfl, Chain.link hok hgo hrest⟩
    · rcases ih hx with ⟨front, rest, rfl, hsuffix⟩
      exact ⟨_ :: front, rest, rfl, hsuffix⟩

lemma nodup : l.Nodup := by
  induction h with
  | last => simp
  | @link c l hok hgo hrest ih =>
    refine nodup_cons.2 ⟨fun hmem => ?_, ih⟩
    -- a second visit would start the same chain again, which is longer than its own suffix
    rcases hrest.suffix hmem with ⟨front, rest, heq, hsuffix⟩
    have hsame := congrArg List.length (hsuffix.unique (Chain.link hok hgo hrest))
    have hlen := congrArg List.length heq
    simp only [length_append, length_cons] at hsame hlen
    omega

/-- A chain depends on the table only at its own cells. -/
theorem congr (hsame : ∀ x ∈ l, next' x = next x) : Chain next' ok stop c l := by
  induction h with
  | last hok hstop =>
    refine Chain.last hok ?_
    rwa [hsame _ (mem_singleton_self _)]
  | link hok hgo hrest ih =>
    have hhead := hsame _ (mem_cons_self)
    refine Chain.link hok (by rwa [hhead]) ?_
    rw [hhead]
    exact ih fun x hx => hsame x (mem_cons_of_mem _ hx)

/-- A position of the chain at whose cell the table has an end mark is the last one. -/
theorem length_of_stop {i : Nat} (hx : l[i]? = some x)
    (hstop : stop (next x)) : l.length = i + 1 := by
  induction h generalizing i with
  | last =>
    cases i with
    | zero => rfl
    | succ i => simp at hx
  | link _ hgo _ ih =>
    cases i with
    | zero =>
      have hxc := Option.some.inj hx
      subst hxc
      exact absurd hstop hgo
    | succ i => rw [length_cons, ih (by simpa using hx)]

/-- The cell after a position of the chain is the one in the table. -/
theorem getElem?_succ {i : Nat} (hx : l[i]? = some x)
    (hgo : ¬ stop (next x)) : l[i + 1]? = some (next x) := by
  induction h generalizing i with
  | last _ hstop =>
    cases i with
    | zero =>
      have hxc := Option.some.inj hx
      subst hxc
      exact absurd hstop hgo
    | succ i => simp at hx
  | link _ _ hrest ih =>
    cases i with
    | zero =>
      have hxc := Option.some.inj hx
      subst hxc
      simpa using hrest.getElem?_zero
    | succ i => simpa using ih (by simpa using hx)

/-- Linking a new cell behind the last one. -/
theorem snoc (hx : l[l.length - 1]? = some x) (hyl : y ∉ l) (hy : ok y)
    (hygo : ¬ stop y) (hkeep : ∀ z ∈ l, z ≠ x → next' z = next z) (hlink : next' x = y)
    (hend : stop (next' y)) : Chain next' ok stop c (l ++ [y]) := by
  induction h with
  | @last c hok hstop =>
    have hxc : c = x := by simpa using hx
    subst hxc
    refine Chain.link hok (by rwa [hlink]) ?_
    rw [hlink]
    exact Chain.last hy hend
  | @link c l hok hgo hrest ih =>
    have hpos := hrest.length_pos
    have hx' : l[l.length - 1]? = some x := by
      have hlen : (c :: l).length - 1 = (l.length - 1) + 1 := by
        simp only [length_cons]
        omega
      rw [hlen] at hx
      simpa using hx
    have hne : c ≠ x := by
      rintro rfl
      exact (nodup_cons.1 (Chain.link hok hgo hrest).nodup).1 (mem_of_getElem? hx')
    have hhead : next' c = next c := hkeep c mem_cons_self hne
    refine Chain.link hok (by rwa [hhead]) ?_
    rw [hhead]
    exact ih hx' (fun hmem => hyl (mem_cons_of_mem _ hmem))
      fun z hz hzx => hkeep z (mem_cons_of_mem _ hz) hzx

end

/-! ## Following a chain -/

/-- Follow the links from `c` to the end mark, through at most `n` cells. -/
def walk (next : α → α) (stop : α → Prop) [DecidablePred stop] : Nat → α → List α
  | 0, _ => []
  | n + 1, c => if stop (next c) then [c] else c :: walk next stop n (next c)

lemma walk_eq [DecidablePred stop] (h : Chain next ok stop c l) {n : Nat} (hn : l.length ≤ n) :
    walk next stop n c = l := by
  induction h generalizing n with
  | last _ hstop =>
    cases n with
    | zero => simp at hn
    | succ n => simp [walk, hstop]
  | link _ hgo _ ih =>
    cases n with
    | zero => simp at hn
    | succ n => rw [walk, if_neg hgo, ih (by simpa using hn)]

end Chain

end Lib
end OsRiscv
