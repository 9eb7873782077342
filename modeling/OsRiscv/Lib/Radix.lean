import Mathlib.Tactic.Ring

/-!
# Radix — tables of tables in a memory

A memory gives for a node and an index an entry, and an entry may lead to a node.  `node child mem a path` is
the node that a path of indices leads to from the root `a`.

`Forest` says that the nodes of a set of roots, down to a depth, are all different: no node is reached in two
ways.  Under it a write to one entry is seen by exactly the paths through that entry, a fresh node without
entries can be hung in (`node_attach`), and the entries of the deepest nodes are a map (`leaf_write`).
-/

namespace OsRiscv
namespace Lib
namespace Radix

open List

variable {κ ι ω : Type*} {k' : κ}

def node (child : ω → Option κ) (mem : κ → ι → ω) : κ → List ι → Option κ
  | k, [] => some k
  | k, i :: path => (child (mem k i)).bind fun k' => node child mem k' path

section

variable {child : ω → Option κ} {mem mem' : κ → ι → ω} {a b k : κ} {i : ι} {p q : List ι}

lemma node_append : node child mem a (p ++ q) = (node child mem a p).bind fun k => node child mem k q := by
  induction p generalizing a with
  | nil => rfl
  | cons i p ih =>
    show (child (mem a i)).bind _ = ((child (mem a i)).bind _).bind _
    cases child (mem a i) with
    | none => rfl
    | some k => exact ih

lemma node_snoc (hp : node child mem a p = some k) : node child mem a (p ++ [i]) = child (mem k i) := by
  rw [node_append, hp]
  show (child (mem k i)).bind some = _
  cases child (mem k i) with
  | none => rfl
  | some k' => rfl

/-- A path sees only the entries on it. -/
theorem node_congr (h : ∀ p i rest k, q = p ++ i :: rest → node child mem a p = some k → mem' k i = mem k i) :
    node child mem' a q = node child mem a q := by
  induction q generalizing a with
  | nil => rfl
  | cons i q ih =>
    have hfirst : mem' a i = mem a i := h [] i q a rfl rfl
    show (child (mem' a i)).bind _ = (child (mem a i)).bind _
    rw [hfirst]
    cases hchild : child (mem a i) with
    | none => rfl
    | some k =>
      refine ih ?_
      intro p j rest k' hq hp
      refine h (i :: p) j rest k' (by rw [hq, cons_append]) ?_
      show (child (mem a i)).bind _ = some k'
      rw [hchild]
      exact hp

end

/-- No two paths of length at most `d` from the roots `S` lead to the same node. -/
def Forest (child : ω → Option κ) (mem : κ → ι → ω) (S : Set κ) (d : Nat) : Prop :=
  ∀ a ∈ S, ∀ b ∈ S, ∀ p q k, p.length ≤ d → q.length ≤ d →
    node child mem a p = some k → node child mem b q = some k → a = b ∧ p = q

def Reached (child : ω → Option κ) (mem : κ → ι → ω) (S : Set κ) (d : Nat) (k : κ) : Prop :=
  ∃ a ∈ S, ∃ p, p.length ≤ d ∧ node child mem a p = some k

/-- The entry at the end of a path, or `zero` where a node is missing. -/
def leaf (child : ω → Option κ) (mem : κ → ι → ω) (zero : ω) (a : κ) (p : List ι) (i : ι) : ω :=
  match node child mem a p with
  | none => zero
  | some k => mem k i

variable {child : ω → Option κ} {mem mem' : κ → ι → ω} {S : Set κ} {d : Nat} {zero e : ω} {a b k f : κ}
  {i j : ι} {p q : List ι}

lemma leaf_eq (hp : node child mem a p = some k) : leaf child mem zero a p i = mem k i := by
  unfold leaf
  rw [hp]

lemma Forest.congr (hf : Forest child mem S d)
    (hsame : ∀ a ∈ S, ∀ p, p.length ≤ d → node child mem' a p = node child mem a p) : Forest child mem' S d := by
  intro a ha b hb p q k hp hq hap hbq
  rw [hsame a ha p hp] at hap
  rw [hsame b hb q hq] at hbq
  exact hf a ha b hb p q k hp hq hap hbq

/-- The entries of the deepest nodes lead nowhere, so what they hold is not part of the tables. -/
theorem node_of_inner (hinner : ∀ b ∈ S, ∀ r k, r.length < d → node child mem b r = some k → mem' k = mem k) (ha : a ∈ S)
    (hpd : p.length ≤ d) : node child mem' a p = node child mem a p := by
  refine node_congr ?_
  intro p' j rest k hp hk
  have hlen : p'.length < d := by
    rw [hp, length_append, length_cons] at hpd
    omega
  rw [hinner a ha p' k hlen hk]

/-! ## A node that no path reaches -/

section

variable (hagree : ∀ k, Reached child mem S d k → mem' k = mem k)
include hagree

/-- What a node holds that is not reached is not seen. -/
theorem node_of_agree (ha : a ∈ S)
    (hpd : p.length ≤ d) : node child mem' a p = node child mem a p :=
  node_of_inner (fun b hb r k hr hk => hagree k ⟨b, hb, r, Nat.le_of_lt hr, hk⟩) ha hpd

lemma Forest.of_agree (hf : Forest child mem S d) : Forest child mem' S d :=
  hf.congr fun _ ha _ => node_of_agree hagree ha

lemma leaf_of_agree (ha : a ∈ S)
    (hpd : p.length ≤ d) : leaf child mem' zero a p i = leaf child mem zero a p i := by
  unfold leaf
  rw [node_of_agree hagree ha hpd]
  cases hp : node child mem a p with
  | none => rfl
  | some k =>
    show mem' k i = mem k i
    rw [hagree k ⟨a, ha, p, hpd, hp⟩]

end

lemma Forest.of_inner (hf : Forest child mem S d)
    (hinner : ∀ b ∈ S, ∀ r k, r.length < d → node child mem b r = some k → mem' k = mem k) : Forest child mem' S d :=
  hf.congr fun _ ha _ => node_of_inner hinner ha

/-- In a forest the deepest nodes are not inner ones. -/
theorem Forest.ne_of_length_lt (hf : Forest child mem S d) (ha : a ∈ S) (hb : b ∈ S) (hq : q.length ≤ d)
    (hlt : p.length < q.length) (hap : node child mem a p = some k) (hbq : node child mem b q = some f) : k ≠ f := by
  rintro rfl
  have hpq := (hf a ha b hb p q k (by omega) hq hap hbq).2
  rw [hpq] at hlt
  omega

/-! ## Writing an entry -/

variable [DecidableEq κ] [DecidableEq ι]

def write (mem : κ → ι → ω) (k : κ) (i : ι) (e : ω) : κ → ι → ω :=
  Function.update mem k (Function.update (mem k) i e)

@[simp] lemma write_self : write mem k i e k i = e := by
  simp [write]

lemma write_of_node_ne (h : k' ≠ k) : write mem k i e k' j = mem k' j := by
  simp [write, h]

lemma write_of_ne (h : ¬(k' = k ∧ j = i)) : write mem k i e k' j = mem k' j := by
  by_cases hk : k' = k
  · subst hk
    have hj : j ≠ i := fun hj => h ⟨rfl, hj⟩
    simp [write, hj]
  · exact write_of_node_ne hk

section

variable (hf : Forest child mem S d) (ha : a ∈ S)
include hf ha

/-- A write at the end of `p` is seen only through `p`. -/
theorem node_write_of_not_through (hb : b ∈ S) (hpd : p.length ≤ d)
    (hqd : q.length ≤ d) (hp : node child mem a p = some k) (hnot : ∀ rest, ¬(b = a ∧ q = p ++ i :: rest)) :
    node child (write mem k i e) b q = node child mem b q := by
  refine node_congr ?_
  intro p' j rest k' hq hp'
  refine write_of_ne ?_
  rintro ⟨rfl, rfl⟩
  have hlen : p'.length ≤ d := by
    rw [hq, length_append] at hqd
    omega
  rcases hf b hb a ha p' p k' hlen hpd hp' hp with ⟨hba, hpp⟩
  exact hnot rest ⟨hba, by rw [hq, hpp]⟩

lemma node_write_leaf (hb : b ∈ S) (hpd : p.length = d)
    (hqd : q.length ≤ d) (hp : node child mem a p = some k) :
    node child (write mem k i e) b q = node child mem b q := by
  refine node_of_inner ?_ hb hqd
  intro c hc r k' hr hk'
  have hne : k' ≠ k := hf.ne_of_length_lt hc ha (Nat.le_of_eq hpd) (hpd ▸ hr) hk' hp
  exact Function.update_of_ne hne _ _

lemma leaf_write (hb : b ∈ S) (hpd : p.length = d)
    (hqd : q.length = d) (hp : node child mem a p = some k) : leaf child (write mem k i e) zero b q j =
      if b = a ∧ q = p ∧ j = i then e else leaf child mem zero b q j := by
  unfold leaf
  rw [node_write_leaf hf ha hb hpd (Nat.le_of_eq hqd) hp]
  cases hq : node child mem b q with
  | none =>
    have hne : ¬(b = a ∧ q = p ∧ j = i) := by
      rintro ⟨rfl, rfl, _⟩
      rw [hp] at hq
      cases hq
    rw [if_neg hne]
  | some k' =>
    dsimp only
    by_cases hsame : b = a ∧ q = p ∧ j = i
    · rcases hsame with ⟨rfl, rfl, rfl⟩
      rw [hp] at hq
      cases hq
      rw [if_pos ⟨rfl, rfl, rfl⟩, write_self]
    · rw [if_neg hsame]
      refine write_of_ne ?_
      rintro ⟨rfl, rfl⟩
      rcases hf b hb a ha q p k' (Nat.le_of_eq hqd) (Nat.le_of_eq hpd) hq hp with ⟨hba, hqp⟩
      exact hsame ⟨hba, hqp, rfl⟩

lemma Forest.write_leaf (hpd : p.length = d)
    (hp : node child mem a p = some k) : Forest child (write mem k i e) S d :=
  hf.congr fun _ hb _ hq => node_write_leaf hf ha hb hpd hq hp

end

/-! ## Hanging in a fresh node -/

/-- The data of hanging the node `f`, which is not reached and has no entries, in below `p`. -/
structure Attach (child : ω → Option κ) (mem : κ → ι → ω) (S : Set κ) (d : Nat) (a : κ) (p : List ι) (k : κ)
    (i : ι) (e : ω) (f : κ) : Prop where
  forest : Forest child mem S d
  root : a ∈ S
  depth : p.length < d
  parent : node child mem a p = some k
  missing : child (mem k i) = none
  entry : child e = some f
  fresh : ¬Reached child mem S d f
  empty : ∀ j, child (mem f j) = none

namespace Attach

variable (h : Attach child mem S d a p k i e f)
include h

omit [DecidableEq κ] [DecidableEq ι] in
lemma ne : k ≠ f := by
  rintro rfl
  exact h.fresh ⟨a, h.root, p, Nat.le_of_lt h.depth, h.parent⟩

lemma node_below (rest : List ι) :
    node child (write mem k i e) a (p ++ i :: rest) = if rest = [] then some f else none := by
  have hparent : node child (write mem k i e) a p = some k := by
    rw [node_write_of_not_through h.forest h.root h.root (Nat.le_of_lt h.depth) (Nat.le_of_lt h.depth) h.parent]
    · exact h.parent
    · rintro rest ⟨_, hp⟩
      simp at hp
  rw [node_append, hparent]
  show (child (write mem k i e k i)).bind _ = _
  rw [write_self, h.entry]
  cases rest with
  | nil => rfl
  | cons j rest =>
    -- the fresh node leads nowhere
    show (child (write mem k i e f j)).bind _ = none
    rw [write_of_node_ne (Ne.symm h.ne), h.empty j]
    rfl

lemma node_attach (hb : b ∈ S) (hqd : q.length ≤ d) : node child (write mem k i e) b q =
      if b = a ∧ q = p ++ [i] then some f else node child mem b q := by
  by_cases hthrough : ∃ rest, b = a ∧ q = p ++ i :: rest
  · rcases hthrough with ⟨rest, rfl, rfl⟩
    rw [h.node_below]
    have hold : node child mem b (p ++ i :: rest) = none := by
      rw [node_append, h.parent]
      show (child (mem k i)).bind _ = none
      rw [h.missing]
      rfl
    rw [hold]
    cases rest with
    | nil => simp
    | cons j rest => simp
  · have hnot : ∀ rest, ¬(b = a ∧ q = p ++ i :: rest) := fun rest hr => hthrough ⟨rest, hr⟩
    rw [node_write_of_not_through h.forest h.root hb (Nat.le_of_lt h.depth) hqd h.parent hnot,
      if_neg (hnot [])]

lemma node_self : node child (write mem k i e) a (p ++ [i]) = some f := by
  simpa using h.node_below []

lemma forest_attach : Forest child (write mem k i e) S d := by
  have hfresh : ∀ c ∈ S, ∀ r : List ι, r.length ≤ d → node child mem c r ≠ some f :=
    fun c hc r hr hcr => h.fresh ⟨c, hc, r, hr, hcr⟩
  intro b hb c hc q r k' hq hr hbq hcr
  rw [h.node_attach hb hq] at hbq
  rw [h.node_attach hc hr] at hcr
  by_cases hbnew : b = a ∧ q = p ++ [i]
  · rw [if_pos hbnew] at hbq
    by_cases hcnew : c = a ∧ r = p ++ [i]
    · exact ⟨hbnew.1.trans hcnew.1.symm, hbnew.2.trans hcnew.2.symm⟩
    · rw [if_neg hcnew] at hcr
      cases hbq
      exact absurd hcr (hfresh c hc r hr)
  · rw [if_neg hbnew] at hbq
    by_cases hcnew : c = a ∧ r = p ++ [i]
    · rw [if_pos hcnew] at hcr
      cases hcr
      exact absurd hbq (hfresh b hb q hq)
    · rw [if_neg hcnew] at hcr
      exact h.forest b hb c hc q r k' hq hr hbq hcr

lemma reached_attach : Reached child (write mem k i e) S d k' ↔ Reached child mem S d k' ∨ k' = f := by
  constructor
  · rintro ⟨b, hb, q, hq, hbq⟩
    rw [h.node_attach hb hq] at hbq
    by_cases hnew : b = a ∧ q = p ++ [i]
    · rw [if_pos hnew] at hbq
      exact .inr (Option.some.inj hbq).symm
    · rw [if_neg hnew] at hbq
      exact .inl ⟨b, hb, q, hq, hbq⟩
  · rintro (⟨b, hb, q, hq, hbq⟩ | rfl)
    · refine ⟨b, hb, q, hq, ?_⟩
      rw [h.node_attach hb hq]
      have hold : ¬(b = a ∧ q = p ++ [i]) := by
        rintro ⟨rfl, rfl⟩
        rw [node_snoc h.parent, h.missing] at hbq
        cases hbq
      rw [if_neg hold]
      exact hbq
    · have hlen : (p ++ [i]).length ≤ d := by
        rw [length_append]
        exact h.depth
      exact ⟨a, h.root, p ++ [i], hlen, h.node_self⟩

/-- The entries of the deepest nodes are as before when a missing entry and an entry of the fresh node are
both `zero`. -/
theorem leaf_attach (hempty : ∀ j, mem f j = zero) (hb : b ∈ S) (hqd : q.length = d) :
    leaf child (write mem k i e) zero b q j = leaf child mem zero b q j := by
  unfold leaf
  rw [h.node_attach hb (Nat.le_of_eq hqd)]
  by_cases hnew : b = a ∧ q = p ++ [i]
  · rw [if_pos hnew]
    rcases hnew with ⟨rfl, rfl⟩
    rw [node_snoc h.parent, h.missing]
    show write mem k i e f j = zero
    rw [write_of_node_ne (Ne.symm h.ne), hempty]
  · rw [if_neg hnew]
    cases hq : node child mem b q with
    | none => rfl
    | some k' =>
      have hne : k ≠ k' :=
        h.forest.ne_of_length_lt h.root hb (Nat.le_of_eq hqd) (hqd ▸ h.depth) h.parent hq
      exact write_of_node_ne hne.symm

end Attach

end Radix
end Lib
end OsRiscv
