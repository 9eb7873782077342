import Mathlib.Data.Finset.Prod
import Mathlib.Tactic.Ring

/-!
# Nodes — the inodes of the pool that a file needs

A dirent keeps its first eight clusters in its own inode, the next ones in inodes of the pool that its
inode points to (`second`), the rest in inodes (`leaf`) that other inodes of the pool (`top`) point to.
Which nodes the first positions need, and how many, depends on the number of positions alone.
-/

namespace OsRiscv
namespace Fat

open Finset (card_insert_of_notMem mem_filter mem_insert)

/-- The inodes of the pool that a file uses. -/
inductive Node
  | second (i : Nat)
  | top (k : Nat)
  | leaf (k j : Nat)
  deriving DecidableEq

namespace Node

def Valid : Node → Prop
  | second i => i < 16
  | top k => k < 40
  | leaf k j => k < 40 ∧ j < 64

/-- When a node is allocated.  Position `pos` takes two steps: in step `2 * pos` a `top` may be
allocated, in step `2 * pos + 1` a `second` or a `leaf`. -/
def start : Node → Nat
  | second i => 2 * (8 + 64 * i) + 1
  | top k => 2 * (1032 + 4096 * k)
  | leaf k j => 2 * (1032 + 4096 * k + 64 * j) + 1

/-- The item of the dirent's inode through which the node is reached. -/
def root : Node → Nat
  | second i => 8 + i
  | top k => 24 + k
  | leaf k _ => 24 + k

/-- The node is allocated before step `b`. -/
def Owned (b : Nat) (n : Node) : Prop := n.Valid ∧ n.start < b

lemma start_inj {m n : Node} (hm : m.Valid) (hn : n.Valid) (h : m.start = n.start) : m = n := by
  cases m <;> cases n <;> simp only [Valid, start, second.injEq, top.injEq, leaf.injEq, reduceCtorEq] at *
    <;> omega

lemma Owned.mono {b b' : Nat} {n : Node} (h : n.Owned b) (hb : b ≤ b') : n.Owned b' :=
  ⟨h.1, Nat.lt_of_lt_of_le h.2 hb⟩

lemma Owned.top_of_leaf {b k j : Nat} (h : (leaf k j).Owned b) : (top k).Owned b := by
  rcases h with ⟨⟨hk, _⟩, hstart⟩
  refine ⟨hk, ?_⟩
  simp only [start] at hstart ⊢
  omega

end Node

/-- The node that has position `pos`; `none` for the inode of the dirent itself. -/
def slotNode (pos : Nat) : Option Node :=
  if pos < 8 then none
  else if pos < 1032 then some (.second ((pos - 8) / 64))
  else some (.leaf ((pos - 1032) / 4096) ((pos - 1032) / 64 % 64))

/-- The item of that inode that has position `pos`. -/
def slotItem (pos : Nat) : Nat :=
  if pos < 8 then pos else if pos < 1032 then (pos - 8) % 64 else (pos - 1032) % 64

lemma slotNode_owned {pos : Nat} {n : Node} (hpos : pos < 164872) (h : slotNode pos = some n) :
    n.Owned (2 * (pos + 1)) := by
  unfold slotNode at h
  split at h
  · cases h
  split at h
  · cases h
    simp only [Node.Owned, Node.Valid, Node.start]
    omega
  · cases h
    simp only [Node.Owned, Node.Valid, Node.start]
    omega

lemma slotNode_ne_top {pos k : Nat} : slotNode pos ≠ some (.top k) := by
  unfold slotNode
  split
  · simp
  · split <;> simp

lemma slot_inj {i j : Nat} (hnode : slotNode i = slotNode j) (hitem : slotItem i = slotItem j) : i = j := by
  unfold slotNode slotItem at *
  by_cases hi8 : i < 8 <;> by_cases hj8 : j < 8 <;> by_cases hi : i < 1032 <;> by_cases hj : j < 1032 <;>
    simp only [hi8, hj8, hi, hj, if_true, if_false, Option.some.injEq, Node.second.injEq,
      Node.leaf.injEq, reduceCtorEq] at hnode hitem <;> omega

/-! ## The number of nodes -/

namespace Node

/-- All nodes that a file can have. -/
def all : Finset Node :=
  (Finset.range 16).image second ∪ (Finset.range 40).image top ∪
    (Finset.range 40 ×ˢ Finset.range 64).image fun p => leaf p.1 p.2

lemma mem_all {n : Node} : n ∈ all ↔ n.Valid := by
  cases n with
  | second i => simp [all, Valid]
  | top k => simp [all, Valid]
  | leaf k j => simp [all, Valid]

end Node

/-- The nodes that are allocated before step `b`. -/
def ownedNodes (b : Nat) : Finset Node := Node.all.filter fun n => n.start < b

/-- How many nodes are allocated before step `b`. -/
@[irreducible] def nodes (b : Nat) : Nat := (ownedNodes b).card

variable {b b' pos : Nat} {n : Node}

lemma mem_ownedNodes : n ∈ ownedNodes b ↔ n.Owned b := by
  unfold ownedNodes Node.Owned
  rw [mem_filter, Node.mem_all]

lemma nodes_mono (hle : b ≤ b') : nodes b ≤ nodes b' := by
  unfold nodes
  refine Finset.card_le_card fun n hn => ?_
  rw [mem_ownedNodes] at hn ⊢
  exact hn.mono hle

lemma nodes_of_start (hvalid : n.Valid) (hstart : n.start = b) : nodes (b + 1) = nodes b + 1 := by
  have hinsert : ownedNodes (b + 1) = insert n (ownedNodes b) := by
    ext m
    rw [mem_insert, mem_ownedNodes, mem_ownedNodes]
    constructor
    · rintro ⟨hm, hlt⟩
      rcases Nat.lt_or_eq_of_le (Nat.le_of_lt_succ hlt) with hbefore | heq
      · exact .inr ⟨hm, hbefore⟩
      · exact .inl (Node.start_inj hm hvalid (heq.trans hstart.symm))
    · rintro (rfl | hm)
      · exact ⟨hvalid, by omega⟩
      · exact hm.mono (Nat.le_succ b)
  unfold nodes
  rw [hinsert, card_insert_of_notMem]
  intro hn
  exact absurd (mem_ownedNodes.1 hn).2 (by omega)

lemma nodes_of_none (hnone : ∀ n : Node, n.Valid → n.start ≠ b) : nodes (b + 1) = nodes b := by
  unfold nodes
  refine congrArg Finset.card (Finset.ext fun m => ?_)
  rw [mem_ownedNodes, mem_ownedNodes]
  constructor
  · rintro ⟨hm, hlt⟩
    exact ⟨hm, Nat.lt_of_le_of_ne (Nat.le_of_lt_succ hlt) (hnone m hm)⟩
  · intro hm
    exact hm.mono (Nat.le_succ b)

lemma nodes_of_none_at (hnone : ∀ n : Node, n.Valid → n.start ≠ 2 * pos ∧ n.start ≠ 2 * pos + 1) :
    nodes (2 * (pos + 1)) = nodes (2 * pos) :=
  (nodes_of_none fun n hn => (hnone n hn).2).trans (nodes_of_none fun n hn => (hnone n hn).1)

lemma nodes_next_le : nodes (2 * (pos + 1)) ≤ nodes (2 * pos) + 2 := by
  have hstep : ∀ b, nodes (b + 1) ≤ nodes b + 1 := by
    intro b
    by_cases hex : ∃ n : Node, n.Valid ∧ n.start = b
    · rcases hex with ⟨n, hvalid, hstart⟩
      exact Nat.le_of_eq (nodes_of_start hvalid hstart)
    · rw [nodes_of_none fun n hvalid hstart => hex ⟨n, hvalid, hstart⟩]
      exact Nat.le_succ _
  exact (hstep _).trans (Nat.succ_le_succ (hstep _))

lemma nodes_few (hb : b ≤ 16) : nodes b = 0 := by
  unfold nodes
  refine Finset.card_eq_zero.2 (Finset.eq_empty_of_forall_notMem fun n hn => ?_)
  have hlt := (mem_ownedNodes.1 hn).2
  cases n <;> simp only [Node.start] at hlt <;> omega

end Fat
end OsRiscv
