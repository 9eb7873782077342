import Mathlib.Data.List.TakeWhile
import OsRiscv.Fat.Nodes
import OsRiscv.Fat.Volume

/-!
# Inode — the three-level inode cache over the shared pool

`Owns` says that every node of every file has an inode of the pool that is in use and belongs to no other
node.  It follows that entering a cluster at the next position of one file changes no other position of any
file; the inodes that this takes are as many as nodes become due.
-/

namespace OsRiscv
namespace Fat

open Function (update update_idem update_of_ne update_self)
open Lib List

/-- The part of a volume that the inode cache lives in. -/
structure Pool where
  inodes : Nat → Nat → Nat
  bits : Nat → BitVec 64
  /-- `dirents[d].inode.item` -/
  item : Nat → Nat → Nat

namespace Pool

def setItem (p : Pool) (d i x : Nat) : Pool :=
  { p with item := update p.item d (update (p.item d) i x) }

def setInode (p : Pool) (x i c : Nat) : Pool :=
  { p with inodes := update p.inodes x (update (p.inodes x) i c) }

def take (p : Pool) (x : Nat) : Pool := { p with bits := Bitmap.set p.bits x }

def release (p : Pool) (x : Nat) : Pool := { p with bits := Bitmap.clear p.bits x }

/-- All inodes of the pool are in use. -/
def Full (p : Pool) : Prop := ∀ x < 1024, Bitmap.bit p.bits x = true

/-- How many inodes of the pool are in use. -/
def count (p : Pool) : Nat := Bitmap.count p.bits 1024

end Pool

lemma inodeLevels : inodeItemNum = 64 ∧ inodeSecondItemBase = 8 ∧ inodeThirdItemBase = 24 ∧
    inodeSecondLevelBottom = 8 ∧ inodeThirdLevelBottom = 1032 ∧ inodeThirdLevelTop = 164872 := by decide

namespace Pool

variable {p p' : Pool} {d e pos x c : Nat} {n m : Node} {bound : Nat → Nat} {Q : Unit → Vol → Prop}
  {bits : Nat → BitVec 64} {i : Nat} {r : Nat} {bound' : Nat → Nat}

lemma Full.count (h : p.Full) : p.count = 1024 := Bitmap.count_of_full h

/-- The inode of the pool that a node of file `d` is. -/
def index (p : Pool) (d : Nat) : Node → Nat
  | .second i => p.item d (8 + i)
  | .top k => p.item d (24 + k)
  | .leaf k j => p.inodes (p.item d (24 + k)) j

/-- What file `d` has at position `pos`. -/
def slot (p : Pool) (d pos : Nat) : Nat :=
  match slotNode pos with
  | none => p.item d (slotItem pos)
  | some n => p.inodes (p.index d n) (slotItem pos)

lemma inodeAt_eq (hpos : pos < 164872) : inodeAt p.inodes (p.item d) pos = some (p.slot d pos) := by
  have htop : pos < inodeThirdLevelTop := hpos
  unfold inodeAt slot slotNode slotItem
  by_cases h8 : pos < 8
  · have h8' : pos < inodeSecondLevelBottom := h8
    simp [h8, h8']
  · have h8' : ¬ pos < inodeSecondLevelBottom := h8
    by_cases h : pos < 1032
    · have h' : pos < inodeThirdLevelBottom := h
      simp only [h8, h8', h, h', if_true, if_false]
      rfl
    · have h' : ¬ pos < inodeThirdLevelBottom := h
      have hdiv : (pos - 1032) / 64 / 64 = (pos - 1032) / 4096 := by omega
      simp only [h8, h8', h, h', htop, if_true, if_false, index]
      rw [← hdiv]
      rfl

/-- Each node of each file has an inode of the pool of its own; file `d` has its nodes up to step
`bound d`. -/
structure Owns (p : Pool) (bound : Nat → Nat) : Prop where
  live : ∀ d n, n.Owned (bound d) → p.index d n < 1024 ∧ Bitmap.bit p.bits (p.index d n) = true
  inj : ∀ d n e m, n.Owned (bound d) → m.Owned (bound e) → p.index d n = p.index e m → d = e ∧ n = m

lemma Owns.of_owned (h : p.Owns bound) (hown : ∀ e (n : Node), n.Owned (bound' e) → n.Owned (bound e)) :
    p.Owns bound' where
  live e n hn := h.live e n (hown e n hn)
  inj e n e' m hn hm := h.inj e n e' m (hown e n hn) (hown e' m hm)

lemma Owns.shrink (h : p.Owns bound) (hle : ∀ e, bound' e ≤ bound e) : p.Owns bound' :=
  h.of_owned fun e _ hn => hn.mono (hle e)

lemma Owns.update_bound {b : Nat} (h : p.Owns bound) (hown : ∀ n : Node, n.Owned b → n.Owned (bound d)) :
    p.Owns (update bound d b) := by
  refine h.of_owned fun e n hn => ?_
  by_cases he : e = d
  · subst he
    rw [update_self] at hn
    exact hown n hn
  · rwa [update_of_ne he] at hn

lemma Owns.skip (h : p.Owns bound) (hnone : ∀ n : Node, n.Valid → n.start ≠ bound d) :
    p.Owns (update bound d (bound d + 1)) :=
  h.update_bound fun n hn => ⟨hn.1, Nat.lt_of_le_of_ne (Nat.le_of_lt_succ hn.2) (hnone n hn.1)⟩

lemma Owns.skipPos (h : p.Owns bound) (hb : bound d = 2 * pos)
    (hnone : ∀ n : Node, n.Valid → n.start ≠ 2 * pos ∧ n.start ≠ 2 * pos + 1) :
    p.Owns (update bound d (2 * (pos + 1))) := by
  refine h.update_bound fun n hn => ⟨hn.1, ?_⟩
  have hlt := hn.2
  have hne := hnone n hn.1
  omega

/-- A step in which a node is allocated: it gets an inode that was free. -/
theorem Owns.add (h : p.Owns bound) (hvalid : n.Valid) (hstart : n.start = bound d) (hx : x < 1024)
    (hfree : Bitmap.bit p.bits x = false) (hbits : p'.bits = Bitmap.set p.bits x) (hnew : p'.index d n = x)
    (hold : ∀ e m, m.Owned (bound e) → p'.index e m = p.index e m) :
    p'.Owns (update bound d (bound d + 1)) := by
  -- a node that is owned now is the new one, or it was owned before
  have hown : ∀ e m, m.Owned (update bound d (bound d + 1) e) →
      (e = d ∧ m = n) ∨ m.Owned (bound e) := by
    intro e m hm
    by_cases he : e = d
    · subst he
      rw [update_self] at hm
      rcases Nat.lt_or_eq_of_le (Nat.le_of_lt_succ hm.2) with hlt | heq
      · exact .inr ⟨hm.1, hlt⟩
      · exact .inl ⟨rfl, Node.start_inj hm.1 hvalid (heq.trans hstart.symm)⟩
    · rw [update_of_ne he] at hm
      exact .inr hm
  have hfresh : ∀ e m, m.Owned (bound e) → p.index e m ≠ x := by
    rintro e m hm rfl
    rw [(h.live e m hm).2] at hfree
    cases hfree
  constructor
  · intro e m hm
    rcases hown e m hm with ⟨rfl, rfl⟩ | ho
    · rw [hnew, hbits]
      exact ⟨hx, by simp⟩
    · have hlive := h.live e m ho
      rw [hold e m ho, hbits]
      exact ⟨hlive.1, by simp [hlive.2]⟩
  · intro e m e' m' hm hm' heq
    rcases hown e m hm with ⟨rfl, rfl⟩ | ho <;> rcases hown e' m' hm' with ⟨rfl, rfl⟩ | ho'
    · exact ⟨rfl, rfl⟩
    · rw [hnew, hold e' m' ho'] at heq
      exact absurd heq.symm (hfresh e' m' ho')
    · rw [hnew, hold e m ho] at heq
      exact absurd heq (hfresh e m ho)
    · rw [hold e m ho, hold e' m' ho'] at heq
      exact h.inj e m e' m' ho ho' heq

/-! ## What the updates leave as it was -/

lemma item_setItem {i j : Nat} (hne : (e, j) ≠ (d, i)) : (p.setItem d i x).item e j = p.item e j := by
  unfold setItem
  by_cases he : e = d
  · subst he
    have hj : j ≠ i := fun h => hne (by rw [h])
    simp [update_of_ne hj]
  · simp [update_of_ne he]

lemma item_setItem_self : (p.setItem d i x).item d i = x := by
  simp [setItem]

lemma index_setItem (hne : (e, n.root) ≠ (d, i)) : (p.setItem d i x).index e n = p.index e n := by
  cases n with
  | second i => exact item_setItem hne
  | top k => exact item_setItem hne
  | leaf k j =>
    have hroot : (p.setItem d i x).item e (24 + k) = p.item e (24 + k) := item_setItem hne
    change (p.setItem d i x).inodes _ j = _
    rw [hroot]
    rfl

lemma inodes_setInode {y i j : Nat} (hne : (y, j) ≠ (x, i)) : (p.setInode x i c).inodes y j = p.inodes y j := by
  unfold setInode
  by_cases hy : y = x
  · subst hy
    have hj : j ≠ i := fun h => hne (by rw [h])
    simp [update_of_ne hj]
  · simp [update_of_ne hy]

lemma inodes_setInode_self : (p.setInode x i c).inodes x i = c := by
  simp [setInode]

lemma index_setInode (hne : ∀ k j, n = .leaf k j → (p.index e (.top k), j) ≠ (x, i)) :
    (p.setInode x i c).index e n = p.index e n := by
  cases n with
  | second i => rfl
  | top k => rfl
  | leaf k j => exact inodes_setInode (hne k j rfl)

lemma slot_congr (hitem : slotNode pos = none → p'.item e (slotItem pos) = p.item e (slotItem pos))
    (hindex : ∀ n, slotNode pos = some n → p'.index e n = p.index e n ∧
      p'.inodes (p.index e n) (slotItem pos) = p.inodes (p.index e n) (slotItem pos)) :
    p'.slot e pos = p.slot e pos := by
  unfold slot
  cases hnode : slotNode pos with
  | none => exact hitem hnode
  | some n =>
    rcases hindex n hnode with ⟨hsame, hcontent⟩
    simp only [hsame, hcontent]

/-! ## Entering a cluster -/

/-- Positions entered before are unchanged. -/
def Keeps (p : Pool) (bound : Nat → Nat) (p' : Pool) : Prop :=
  ∀ e j, j < 164872 → 2 * (j + 1) ≤ bound e → p'.slot e j = p.slot e j

lemma Keeps.trans {p'' : Pool} (h : p.Keeps bound p') (h' : p'.Keeps bound' p'')
    (hle : ∀ e, bound e ≤ bound' e) : p.Keeps bound p'' := fun e j hj hb =>
  (h' e j hj (Nat.le_trans hb (hle e))).trans (h e j hj hb)

section

variable (h : p.Owns bound)
include h

lemma Owns.congr (hbits : p'.bits = p.bits)
    (hold : ∀ e m, m.Owned (bound e) → p'.index e m = p.index e m) : p'.Owns bound := by
  constructor
  · intro e m hm
    rw [hold e m hm, hbits]
    exact h.live e m hm
  · intro e m e' m' hm hm' heq
    rw [hold e m hm, hold e' m' hm'] at heq
    exact h.inj e m e' m' hm hm' heq

/-- A new node that the dirent's inode points to. -/
theorem Owns.addRoot (hvalid : n.Valid) (hstart : n.start = bound d)
    (hleaf : ∀ k j, n ≠ .leaf k j) (hx : x < 1024) (hfree : Bitmap.bit p.bits x = false) :
    ((p.take x).setItem d n.root x).Owns (update bound d (bound d + 1)) ∧
      p.Keeps bound ((p.take x).setItem d n.root x) := by
  have hold : ∀ (e : Nat) (m : Node), m.Owned (bound e) →
      ((p.take x).setItem d n.root x).index e m = p.index e m := by
    intro e m hm
    refine index_setItem fun heq => ?_
    rcases Prod.mk.inj heq with ⟨rfl, hroot⟩
    have hlt := hm.2
    have hmv := hm.1
    -- the nodes below the item are the new node, and leaves that are allocated after it
    cases n with
    | second i => cases m <;> simp only [Node.root, Node.Valid, Node.start] at * <;> omega
    | top k => cases m <;> simp only [Node.root, Node.Valid, Node.start] at * <;> omega
    | leaf k j => exact hleaf k j rfl
  constructor
  · refine h.add hvalid hstart hx hfree rfl ?_ hold
    cases n with
    | second i => exact item_setItem_self
    | top k => exact item_setItem_self
    | leaf k j => exact absurd rfl (hleaf k j)
  · intro e j hj hb
    refine slot_congr (fun hnone => ?_) fun m hm =>
      ⟨hold e m ((slotNode_owned hj hm).mono hb), rfl⟩
    refine item_setItem fun heq => ?_
    have hroot := (Prod.mk.inj heq).2
    have h8 : j < 8 := by
      by_contra hge
      unfold slotNode at hnone
      rw [if_neg hge] at hnone
      split at hnone <;> cases hnone
    unfold slotItem at hroot
    rw [if_pos h8] at hroot
    cases n <;> simp only [Node.root] at hroot <;> omega

lemma Owns.addLeaf {k j : Nat} (hvalid : (Node.leaf k j).Valid)
    (hstart : (Node.leaf k j).start = bound d) (hx : x < 1024) (hfree : Bitmap.bit p.bits x = false) :
    ((p.take x).setInode (p.index d (.top k)) j x).Owns (update bound d (bound d + 1)) ∧
      p.Keeps bound ((p.take x).setInode (p.index d (.top k)) j x) := by
  have htop : (Node.top k).Owned (bound d) := by
    refine ⟨hvalid.1, ?_⟩
    rw [← hstart]
    simp only [Node.start]
    omega
  have hold : ∀ (e : Nat) (m : Node), m.Owned (bound e) →
      ((p.take x).setInode (p.index d (.top k)) j x).index e m = p.index e m := by
    intro e m hm
    refine index_setInode fun k' j' hmk heq => ?_
    subst hmk
    rcases Prod.mk.inj heq with ⟨hidx, rfl⟩
    rcases h.inj e (.top k') d (.top k) hm.top_of_leaf htop hidx with ⟨rfl, hk⟩
    cases hk
    have := hm.2
    omega
  constructor
  · exact h.add hvalid hstart hx hfree rfl inodes_setInode_self hold
  · intro e i hi hb
    refine slot_congr (fun _ => rfl) fun m hm => ?_
    have hmo := (slotNode_owned hi hm).mono hb
    refine ⟨hold e m hmo, inodes_setInode fun heq => ?_⟩
    have htopm := (h.inj e m d (.top k) hmo htop (Prod.mk.inj heq).1).2
    subst htopm
    exact slotNode_ne_top hm

lemma Owns.write (hpos : pos < 164872) (hn : slotNode pos = some n)
    (hb : bound d = 2 * (pos + 1)) : (p.setInode (p.index d n) (slotItem pos) c).Owns bound ∧
      (p.setInode (p.index d n) (slotItem pos) c).slot d pos = c ∧
      ∀ e j, (e, j) ≠ (d, pos) → j < 164872 → 2 * (j + 1) ≤ bound e →
        (p.setInode (p.index d n) (slotItem pos) c).slot e j = p.slot e j := by
  have hno : n.Owned (bound d) := by
    rw [hb]
    exact slotNode_owned hpos hn
  have hold : ∀ (e : Nat) (m : Node), m.Owned (bound e) →
      (p.setInode (p.index d n) (slotItem pos) c).index e m = p.index e m := by
    intro e m hm
    refine index_setInode fun k j hmk heq => ?_
    subst hmk
    have htop := (h.inj e (.top k) d n hm.top_of_leaf hno (Prod.mk.inj heq).1).2
    subst htop
    exact slotNode_ne_top hn
  refine ⟨h.congr rfl hold, ?_, ?_⟩
  · unfold slot
    rw [hn]
    simp only [hold d n hno]
    exact inodes_setInode_self
  · intro e j hne hj hbj
    refine slot_congr (fun _ => rfl) fun m hm => ?_
    have hmo := (slotNode_owned hj hm).mono hbj
    refine ⟨hold e m hmo, inodes_setInode fun heq => ?_⟩
    rcases Prod.mk.inj heq with ⟨hidx, hitem⟩
    rcases h.inj e m d n hmo hno hidx with ⟨rfl, rfl⟩
    exact hne (by rw [slot_inj (hm.trans hn.symm) hitem])

/-- Cluster `c` was entered at the next position `pos` of file `d`. -/
structure Put (p : Pool) (bound : Nat → Nat) (d pos c : Nat) (p' : Pool) : Prop where
  owns : p'.Owns (update bound d (2 * (pos + 1)))
  new : p'.slot d pos = c
  old : p.Keeps bound p'
  count : p'.count + nodes (2 * pos) = p.count + nodes (2 * (pos + 1))

omit h in
lemma Put.of_write (hown : p'.Owns (update bound d (2 * (pos + 1)))) (hkeep : p.Keeps bound p')
    (hcount : p'.count + nodes (2 * pos) = p.count + nodes (2 * (pos + 1)))
    (hb : bound d = 2 * pos) (hpos : pos < 164872) (hn : slotNode pos = some n) :
    p.Put bound d pos c (p'.setInode (p'.index d n) (slotItem pos) c) := by
  rcases hown.write hpos hn (update_self d _ bound) with ⟨howns, hnew, hold⟩
  refine ⟨howns, hnew, fun e j hj hbj => ?_, hcount⟩
  have hle : bound e ≤ update bound d (2 * (pos + 1)) e := le_update_self_iff.2 (by omega) e
  have hne : (e, j) ≠ (d, pos) := by
    rintro heq
    rcases Prod.mk.inj heq with ⟨rfl, rfl⟩
    omega
  exact (hold e j hne hj (hbj.trans hle)).trans (hkeep e j hj hbj)

lemma Put.of_direct (hb : bound d = 2 * pos) (hpos : pos < 8) :
    p.Put bound d pos c (p.setItem d pos c) := by
  have hroot : ∀ m : Node, m.root ≠ pos := by
    intro m
    cases m <;> simp only [Node.root] <;> omega
  have hindex : ∀ e m, (p.setItem d pos c).index e m = p.index e m := fun e m =>
    index_setItem fun heq => hroot m (Prod.mk.inj heq).2
  have hnone : ∀ n : Node, n.Valid → n.start ≠ 2 * pos ∧ n.start ≠ 2 * pos + 1 := by
    intro n _
    cases n <;> simp only [Node.start] <;> omega
  refine ⟨(h.skipPos hb hnone).congr rfl fun e m _ => hindex e m, ?_, fun e j hj hbj => ?_, ?_⟩
  · have hnone : slotNode pos = none := if_pos hpos
    have hself : slotItem pos = pos := if_pos hpos
    unfold slot
    rw [hnone, hself]
    exact item_setItem_self
  · refine slot_congr (fun hnone => item_setItem fun heq => ?_) fun m _ => ⟨hindex e m, rfl⟩
    rcases Prod.mk.inj heq with ⟨rfl, hitem⟩
    have hsame : j = pos := by
      unfold slotItem at hitem
      split at hitem
      · exact hitem
      · unfold slotNode at hnone
        rename_i hj8
        rw [if_neg hj8] at hnone
        split at hnone <;> cases hnone
    omega
  · rw [nodes_of_none_at hnone]
    rfl

end

end Pool

/-! ## The functions on the pool -/

def Vol.pool (v : Vol) : Pool := ⟨v.inodes, v.inodeBitmap, fun d => (v.dirents d).inode⟩

def Vol.withPool (v : Vol) (p : Pool) : Vol :=
  { v with
    inodes := p.inodes
    inodeBitmap := p.bits
    dirents := fun d => { v.dirents d with inode := p.item d } }

lemma Vol.withPool_pool (v : Vol) : v.withPool v.pool = v := rfl

lemma pool_update {v t : Vol} {x : Dirent} (ht : t.dirents = update v.dirents d x) (hx : x.inode = (v.dirents d).inode)
    (hinodes : t.inodes = v.inodes) (hbits : t.inodeBitmap = v.inodeBitmap) : t.pool = v.pool := by
  have hitem : (fun e => (update v.dirents d x e).inode) = fun e => (v.dirents e).inode :=
    funext fun e => apply_update_of_eq (f := Dirent.inode) e hx
  unfold Vol.pool
  rw [ht, hinodes, hbits, hitem]

section Rules

variable {v : Vol} {p : Pool} {E : Panic → Vol → Prop} {d x i pos c : Nat} {bound : Nat → Nat}

lemma setInode_wp (hQ : Q () (v.withPool (p.setInode x i c))) :
    wp (setInode x i c) Q E (v.withPool p) := hQ

lemma setItem_wp (hQ : Q () (v.withPool (p.setItem d i x))) :
    wp (setItem d i x) Q E (v.withPool p) := by
  have hdirents : update (v.withPool p).dirents d
      { (v.withPool p).dirents d with inode := update ((v.withPool p).dirents d).inode i x }
      = (v.withPool (p.setItem d i x)).dirents := by
    funext e
    by_cases he : e = d
    · subst he
      simp [Vol.withPool, Pool.setItem]
    · simp [Vol.withPool, Pool.setItem, update_of_ne he]
  unfold setItem modifyDirent
  rw [wp_modify, hdirents]
  exact hQ

lemma inodeAlloc_wp {Q : Nat → Vol → Prop} (hfull : p.Full → E .wildInode (v.withPool p))
    (hQ : ∀ x, x < 1024 → Bitmap.bit p.bits x = false → (p.take x).count = p.count + 1 →
      Q x (v.withPool (p.take x))) : wp inodeAlloc Q E (v.withPool p) := by
  unfold inodeAlloc inodeScan Bitmap.scan
  rw [wp_bind, wp_get]
  rw [show (v.withPool p).inodeBitmap = p.bits from rfl]
  cases hfirst : Bitmap.firstFree p.bits (inodeNum / 64 * 8) with
  | some x =>
    rcases Bitmap.firstFree_eq_some hfirst with ⟨_, hfree, hbelow⟩
    rw [Option.map_some]
    dsimp only
    split
    · rename_i hx
      exact hQ x hx hfree (Bitmap.count_set hx hfree)
    · rename_i hx
      exact hfull fun y hy => hbelow y (Nat.lt_of_lt_of_le hy (Nat.not_lt.1 hx))
  | none => exact hfull fun x hx => Bitmap.firstFree_eq_none hfirst (Nat.lt_trans hx (by decide))

lemma inodeFree_wp (hlive : Bitmap.bit p.bits x = true)
    (hQ : Q () (v.withPool (p.release x))) : wp (inodeFree x) Q E (v.withPool p) := by
  change wp (if Bitmap.bit p.bits x = true then _ else _) Q E _
  rw [if_pos hlive]
  exact hQ

section

variable (h : p.Owns bound) (hb : bound d = 2 * pos)
include h hb

lemma putInode_second (hlo : 8 ≤ pos) (hhi : pos < 1032)
    (hfull : ∀ p', p'.Full → 1024 + nodes (2 * pos) < p.count + nodes (2 * (pos + 1)) → E .wildInode (v.withPool p'))
    (hQ : ∀ p', p.Put bound d pos c p' → Q () (v.withPool p')) : wp (putInode d pos c) Q E (v.withPool p) := by
  have hlo' : ¬ pos < inodeSecondLevelBottom := Nat.not_lt.2 hlo
  have hhi' : pos < inodeThirdLevelBottom := hhi
  have hnode : slotNode pos = some (.second ((pos - 8) / 64)) := by
    unfold slotNode
    rw [if_neg (by omega), if_pos hhi]
  have hitem : slotItem pos = (pos - 8) % 64 := by
    unfold slotItem
    rw [if_neg (by omega), if_pos hhi]
  have hwrite : ∀ p', p'.Owns (update bound d (2 * (pos + 1))) → p.Keeps bound p' →
      p'.count + nodes (2 * pos) = p.count + nodes (2 * (pos + 1)) →
      Q () (v.withPool (p'.setInode (p'.index d (.second ((pos - 8) / 64))) ((pos - 8) % 64) c)) := by
    intro p' hown hkeep hcount
    rw [← hitem]
    exact hQ _ (Pool.Put.of_write hown hkeep hcount hb (by omega) hnode)
  unfold putInode
  rw [if_neg hlo', if_pos hhi']
  change wp (if (pos - 8) % 64 = 0 then _ else _) Q E _
  by_cases hzero : (pos - 8) % 64 = 0
  · rw [if_pos hzero]
    simp only [wp_bind]
    -- step `2 * pos` allocates nothing, step `2 * pos + 1` the new node
    have hnone : ∀ n : Node, n.Valid → n.start ≠ 2 * pos := by
      intro n _
      cases n <;> simp only [Node.start] <;> omega
    have hvalid : (Node.second ((pos - 8) / 64)).Valid := show _ < 16 by omega
    have hstart : (Node.second ((pos - 8) / 64)).start = 2 * pos + 1 := by
      simp only [Node.start]
      omega
    have hnodes : nodes (2 * (pos + 1)) = nodes (2 * pos) + 1 := by
      rw [← nodes_of_none hnone]
      exact nodes_of_start hvalid hstart
    refine inodeAlloc_wp (fun hp => hfull p hp (by rw [hp.count]; omega)) fun x hx hfree hcount => setItem_wp ?_
    have hskip := h.skip (d := d) (by rw [hb]; exact hnone)
    rcases hskip.addRoot hvalid (by rw [update_self, hb]; exact hstart)
      (fun _ _ hleaf => by cases hleaf) hx hfree with ⟨hown, hkeep⟩
    rw [update_self, update_idem, hb] at hown
    refine setInode_wp (E := E) (hwrite _ hown (fun e j hj hbj =>
      hkeep e j hj (hbj.trans (le_update_self_iff.2 (Nat.le_succ _) e))) ?_)
    change (p.take x).count + _ = _
    omega
  · rw [if_neg hzero]
    have hnone : ∀ n : Node, n.Valid → n.start ≠ 2 * pos ∧ n.start ≠ 2 * pos + 1 := by
      intro n _
      cases n <;> simp only [Node.start] <;> omega
    refine setInode_wp (E := E) (hwrite p (h.skipPos hb hnone) (fun _ _ _ _ => rfl) ?_)
    rw [nodes_of_none_at hnone]

/-- `put_inode` in the third level: position `t` of leaf `j` below node `k`. -/
theorem putInode_third {k j t : Nat}
    (hpos : pos = 1032 + 4096 * k + 64 * j + t) (hk : k < 40) (hj : j < 64) (ht : t < 64)
    (hfull : ∀ p', p'.Full → 1024 + nodes (2 * pos) < p.count + nodes (2 * (pos + 1)) → E .wildInode (v.withPool p'))
    (hQ : ∀ p', p.Put bound d pos c p' → Q () (v.withPool p')) : wp (putInode d pos c) Q E (v.withPool p) := by
  have hlo1 : ¬ pos < 8 := by omega
  have hlo2 : ¬ pos < 1032 := by omega
  have hhi : pos < 164872 := by omega
  have hidx1 : (pos - 1032) / 64 / 64 = k := by omega
  have hidx2 : (pos - 1032) / 64 % 64 = j := by omega
  have hidx3 : (pos - 1032) % 64 = t := by omega
  have hnode : slotNode pos = some (.leaf k j) := by
    have hk' : (pos - 1032) / 4096 = k := by omega
    unfold slotNode
    rw [if_neg hlo1, if_neg hlo2, hk', hidx2]
  have hitem : slotItem pos = t := by
    unfold slotItem
    rw [if_neg hlo1, if_neg hlo2, hidx3]
  have hwrite : ∀ p', p'.Owns (update bound d (2 * (pos + 1))) → p.Keeps bound p' →
      p'.count + nodes (2 * pos) = p.count + nodes (2 * (pos + 1)) →
      Q () (v.withPool (p'.setInode (p'.index d (.leaf k j)) t c)) := by
    intro p' hown hkeep hcount
    rw [← hitem]
    exact hQ _ (Pool.Put.of_write hown hkeep hcount hb hhi hnode)
  -- from any pool in which step `2 * pos` is done, the leaf is allocated and written
  have hleaf : t = 0 → ∀ p', p'.Owns (update bound d (2 * pos + 1)) → p.Keeps bound p' →
      p'.count + nodes (2 * pos) = p.count + nodes (2 * pos + 1) → wp (do
        let y ← inodeAlloc
        let v ← Call.get
        setInode ((v.dirents d).inode (24 + k)) j y
        let v ← Call.get
        setInode (v.inodes ((v.dirents d).inode (24 + k)) j) t c) Q E (v.withPool p') := by
    intro ht0 p' hown hkeep hcount
    simp only [wp_bind]
    have hstart : (Node.leaf k j).start = 2 * pos + 1 := by
      simp only [Node.start]
      omega
    have hnodes : nodes (2 * (pos + 1)) = nodes (2 * pos + 1) + 1 :=
      nodes_of_start (n := .leaf k j) ⟨hk, hj⟩ hstart
    refine inodeAlloc_wp (fun hp => hfull p' hp ?_) fun y hy hfree hone => ?_
    · have hall := hp.count
      omega
    rcases hown.addLeaf ⟨hk, hj⟩ (by rw [update_self]; exact hstart) hy hfree with ⟨hown', hkeep'⟩
    rw [update_self, update_idem] at hown'
    refine setInode_wp (E := E) (setInode_wp (E := E) (hwrite _ hown'
      (hkeep.trans hkeep' (le_update_self_iff.2 (by omega))) ?_))
    change (p'.take y).count + _ = _
    omega
  unfold putInode
  simp only [inodeLevels, hlo1, hlo2, hhi, hidx1, hidx2, hidx3, if_true, if_false]
  by_cases ht0 : t = 0
  · rw [if_pos ht0]
    by_cases hj0 : j = 0
    · rw [if_pos hj0, wp_bind]
      have hstart : (Node.top k).start = 2 * pos := by
        simp only [Node.start]
        omega
      have hnodes : nodes (2 * pos + 1) = nodes (2 * pos) + 1 := nodes_of_start (n := .top k) hk hstart
      have hmono : nodes (2 * pos + 1) ≤ nodes (2 * (pos + 1)) := nodes_mono (by omega)
      refine inodeAlloc_wp (fun hp => hfull p hp (by rw [hp.count]; omega)) fun x hx hfree hone => ?_
      rw [wp_bind]
      refine setItem_wp ?_
      rcases h.addRoot (n := .top k) hk (hstart.trans hb.symm) (fun _ _ hl => by cases hl) hx hfree with ⟨hown, hkeep⟩
      rw [hb] at hown
      refine hleaf ht0 _ hown hkeep ?_
      change (p.take x).count + _ = _
      omega
    · rw [if_neg hj0]
      have hnone : ∀ n : Node, n.Valid → n.start ≠ 2 * pos := by
        intro n hn
        cases n <;> simp only [Node.start, Node.Valid] at hn ⊢ <;> omega
      have hskip := h.skip (d := d) (by rw [hb]; exact hnone)
      rw [hb] at hskip
      exact hleaf ht0 p hskip (fun _ _ _ _ => rfl) (by rw [nodes_of_none hnone])
  · rw [if_neg ht0]
    have hnone : ∀ n : Node, n.Valid → n.start ≠ 2 * pos ∧ n.start ≠ 2 * pos + 1 := by
      intro n hn
      cases n <;> simp only [Node.start, Node.Valid] at hn ⊢ <;> omega
    refine setInode_wp (E := E) (hwrite p (h.skipPos hb hnone) (fun _ _ _ _ => rfl) ?_)
    rw [nodes_of_none_at hnone]

lemma putInode_wp
    (hfull : ∀ p', p'.Full → 1024 + nodes (2 * pos) < p.count + nodes (2 * (pos + 1)) → E .wildInode (v.withPool p'))
    (hlarge : 164872 ≤ pos → E .inodeTooLarge (v.withPool p))
    (hQ : pos < 164872 → ∀ p', p.Put bound d pos c p' → Q () (v.withPool p')) :
    wp (putInode d pos c) Q E (v.withPool p) := by
  rcases Nat.lt_or_ge pos 8 with h8 | h8
  · have h8' : pos < inodeSecondLevelBottom := h8
    unfold putInode
    rw [if_pos h8']
    exact setItem_wp (hQ (by omega) _ (Pool.Put.of_direct h hb h8))
  rcases Nat.lt_or_ge pos 1032 with h2 | h2
  · exact putInode_second h hb h8 h2 hfull (hQ (by omega))
  rcases Nat.lt_or_ge pos 164872 with h3 | h3
  · have hsplit : pos = 1032 + 4096 * ((pos - 1032) / 4096) + 64 * ((pos - 1032) / 64 % 64)
        + (pos - 1032) % 64 := by omega
    exact putInode_third h hb hsplit (by omega) (Nat.mod_lt _ (by decide)) (Nat.mod_lt _ (by decide)) hfull
      (hQ h3)
  · unfold putInode
    simp only [inodeLevels, Nat.not_lt.2 h8, Nat.not_lt.2 h2, Nat.not_lt.2 h3, if_false]
    exact hlarge h3

end

/-! ## Giving the inodes back -/

/-- The order in which `eFreeInode` frees the nodes of a file. -/
def Node.rank : Node → Nat
  | .second i => i
  | .leaf k j => 16 + 65 * k + j
  | .top k => 16 + 65 * k + 64

/-- The tests of `eFreeInode` for a file with `m` positions in its cache.  The third level counts its blocks from the
second level's first item, so it takes a node for one that begins 16 blocks later. -/
def Node.Freeable (m : Nat) : Node → Prop
  | .second i => 8 + 64 * i < m
  | .top k => 1032 + 4096 * (k + 16) < m
  | .leaf k j => 1032 + 4096 * (k + 16) + 64 * j < m

/-- Of file `d`, with `m` positions, those of the nodes before `r` that pass the tests may have been freed; all others
are in use. -/
def Freed (p : Pool) (bound : Nat → Nat) (d m r : Nat) (bits : Nat → BitVec 64) : Prop :=
  ∀ (e : Nat) (n : Node), n.Owned (bound e) → (e = d → r ≤ n.rank ∨ ¬n.Freeable m) →
    Bitmap.bit bits (p.index e n) = true

lemma Freed.mono {r r' : Nat} (h : Freed p bound d m r bits) (hle : r ≤ r') :
    Freed p bound d m r' bits := fun e n hn hr => h e n hn fun he => (hr he).imp_left (Nat.le_trans hle)

lemma freeNode_wp {n : Node} (hown : p.Owns bound) (hn : n.Owned (bound d)) (hfree : n.Freeable m)
    (h : Freed p bound d m r bits) (hr : r ≤ n.rank)
    (hQ : ∀ bits', Freed p bound d m (n.rank + 1) bits' → Q () (v.withPool { p with bits := bits' })) :
    wp (inodeFree (p.index d n)) Q E (v.withPool { p with bits := bits }) := by
  refine inodeFree_wp (h d n hn fun _ => .inl hr) (hQ _ ?_)
  intro e n' hn' hr'
  have hne : p.index e n' ≠ p.index d n := by
    intro heq
    rcases hown.inj e n' d n hn' hn heq with ⟨rfl, rfl⟩
    rcases hr' rfl with hlt | hnot
    · omega
    · exact hnot hfree
  rw [Bitmap.bit_clear, h e n' hn' fun he => (hr' he).imp_left fun hlt => by omega]
  simp [hne]

/-- The state in which `eFreeInode` has still to free the nodes of the items `bs`, of rank `f b` on. -/
def Freeing (v : Vol) (p : Pool) (bound : Nat → Nat) (d m : Nat) (ok : Nat → Prop) (f : Nat → Nat) (stop : Nat)
    (bs : List Nat) (t : Vol) : Prop :=
  (∀ b ∈ bs, ok b) ∧ bs.Pairwise (· < ·) ∧ ∃ r bits, t = v.withPool { p with bits := bits } ∧
    Freed p bound d m r bits ∧ r ≤ stop ∧ ∀ b ∈ bs, r ≤ f b

section Loop

variable {ok : Nat → Prop} {f : Nat → Nat} {stop : Nat}

lemma Freeing.start {l : List Nat} {cond : Nat → Bool}
    (hok : ∀ b ∈ l, cond b = true → ok b) (hsorted : l.Pairwise (· < ·)) (h : Freed p bound d m r bits)
    (hstop : r ≤ stop) (hf : ∀ b ∈ l, r ≤ f b) :
    Freeing v p bound d m ok f stop (l.takeWhile cond) (v.withPool { p with bits := bits }) := by
  have hsub : ∀ b ∈ l.takeWhile cond, b ∈ l := fun b hb => (takeWhile_sublist cond).subset hb
  exact ⟨fun b hb => hok b (hsub b hb) (mem_takeWhile_imp hb),
    hsorted.sublist (takeWhile_sublist cond), r, bits, rfl, h, hstop, fun b hb => hf b (hsub b hb)⟩

lemma Freeing.round {b : Nat} {bs : List Nat} {t : Vol} {body : FatM Unit}
    (h : Freeing v p bound d m ok f stop (b :: bs) t) (hbody : ok b → ∀ r bits, Freed p bound d m r bits → r ≤ f b →
      wp body (fun _ u => ∃ r' bits', u = v.withPool { p with bits := bits' } ∧
        Freed p bound d m r' bits' ∧ r' ≤ stop ∧ ∀ b', b < b' → r' ≤ f b') E
        (v.withPool { p with bits := bits })) :
    wp body (fun _ => Freeing v p bound d m ok f stop bs) E t := by
  rcases h with ⟨hok, hsorted, r, bits, rfl, hfreed, _, hr⟩
  rcases pairwise_cons.1 hsorted with ⟨hhead, htail⟩
  refine wp_mono (hbody (hok b mem_cons_self) r bits hfreed (hr b mem_cons_self)) ?_
  rintro _ _ ⟨r', bits', rfl, hfreed', hstop', hr'⟩
  exact ⟨fun b' hb' => hok b' (mem_cons_of_mem _ hb'), htail, r', bits', rfl, hfreed', hstop',
    fun b' hb' => hr' b' (hhead b' hb')⟩

end Loop

lemma Freed.owns (h : Freed p bound d m r bits) (hown : p.Owns bound) :
    ({ p with bits := bits } : Pool).Owns (update bound d 0) := by
  have hother : ∀ (e : Nat) (n : Node), n.Owned (update bound d 0 e) → e ≠ d ∧ n.Owned (bound e) := by
    intro e n hn
    by_cases he : e = d
    · subst he
      rw [update_self] at hn
      exact absurd hn.2 (Nat.not_lt_zero _)
    · rw [update_of_ne he] at hn
      exact ⟨he, hn⟩
  constructor
  · intro e n hn
    rcases hother e n hn with ⟨he, hn⟩
    exact ⟨(hown.live e n hn).1, h e n hn fun heq => absurd heq he⟩
  · intro e n e' n' hn hn' heq
    exact hown.inj e n e' n' (hother e n hn).2 (hother e' n' hn').2 heq

/-- The second-level nodes: node `i - 8` for item `i`. -/
theorem freeSecond_wp {m : Nat} (hown : p.Owns bound) (hb : bound d = 2 * m) :
    wp (Call.forEach (fun i => inodeFree (p.item d i))
        ((List.range' 8 16).takeWhile fun i => m > 8 + (i - 8) * 64))
      (fun _ t => ∃ bits, t = v.withPool { p with bits := bits } ∧ Freed p bound d m 16 bits)
      E (v.withPool p) := by
  have hall : Freed p bound d m 0 p.bits := fun e n hn _ => (hown.live e n hn).2
  refine wp_mono (wp_forEach (I := Freeing v p bound d m
    (fun i => 8 ≤ i ∧ i < 24 ∧ 8 + (i - 8) * 64 < m) (fun i => i - 8) 16) ?_
    (Freeing.start ?_ pairwise_lt_range' hall (Nat.zero_le _) fun _ _ => Nat.zero_le _)) ?_
  · intro i is t h
    refine h.round fun hi r bits hfreed hr => ?_
    have hn : (Node.second (i - 8)).Owned (bound d) := by
      simp only [Node.Owned, Node.Valid, Node.start]
      omega
    have hitem : p.item d i = p.index d (.second (i - 8)) := by
      have : 8 + (i - 8) = i := by omega
      simp only [Pool.index, this]
    rw [hitem]
    refine freeNode_wp hown hn (by simp only [Node.Freeable]; omega) hfreed hr
      fun bits' hbits' => ⟨_, bits', rfl, hbits', ?_, fun b' hlt => ?_⟩
    · simp only [Node.rank]
      omega
    · simp only [Node.rank]
      omega
  · intro i hi hused
    have hmem := mem_range'_1.1 hi
    exact ⟨hmem.1, by omega, of_decide_eq_true hused⟩
  · rintro _ _ ⟨_, _, r, bits, rfl, hfreed, hstop, _⟩
    exact ⟨bits, rfl, hfreed.mono hstop⟩

/-- The leaves below a node of the third level.  The base that `eFreeInode` computes is past the node's
own block, so the leaves it frees are in use. -/
theorem freeLeaves_wp {m k r : Nat} (hown : p.Owns bound) (hb : bound d = 2 * m)
    (hk : k < 40) (h : Freed p bound d m r bits) (hr : r ≤ 16 + 65 * k) : wp (Call.forEach (fun j => do
          let v ← Call.get
          inodeFree (v.inodes (p.item d (24 + k)) j))
        ((List.range 64).takeWhile fun j => m > 1032 + (24 + k - 8) * 64 * 64 + j * 64))
      (fun _ t => ∃ bits', t = v.withPool { p with bits := bits' } ∧
        Freed p bound d m (16 + 65 * k + 64) bits')
      E (v.withPool { p with bits := bits }) := by
  refine wp_mono (wp_forEach (I := Freeing v p bound d m
    (fun j => j < 64 ∧ 1032 + (24 + k - 8) * 64 * 64 + j * 64 < m) (fun j => 16 + 65 * k + j)
    (16 + 65 * k + 64)) ?_ (Freeing.start ?_ pairwise_lt_range h (by omega) fun _ _ => by omega)) ?_
  · intro j js t ht
    refine ht.round fun hj r bits hfreed hr => ?_
    have hn : (Node.leaf k j).Owned (bound d) := by
      simp only [Node.Owned, Node.Valid, Node.start]
      omega
    rw [wp_bind, wp_get]
    change wp (inodeFree (p.index d (.leaf k j))) _ E _
    refine freeNode_wp hown hn (by simp only [Node.Freeable]; omega) hfreed hr
      fun bits' hbits' => ⟨_, bits', rfl, hbits', ?_, fun b' hlt => ?_⟩
    · simp only [Node.rank]
      omega
    · simp only [Node.rank]
      omega
  · intro j hj hused
    exact ⟨mem_range.1 hj, of_decide_eq_true hused⟩
  · rintro _ _ ⟨_, _, r, bits, rfl, hfreed, hstop, _⟩
    exact ⟨bits, rfl, hfreed.mono hstop⟩

lemma eFreeInode_wp (hown : p.Owns bound) (hb : bound d = 2 * (v.dirents d).inodeMaxCluster)
    (hQ : ∀ bits, ({ p with bits := bits } : Pool).Owns (update bound d 0) →
      (∀ n : Node, n.Owned (bound d) → ¬n.Freeable (v.dirents d).inodeMaxCluster →
        Bitmap.bit bits (p.index d n) = true) →
      wp (modifyDirent d fun e => { e with inodeMaxCluster := 0 }) Q E
        (v.withPool { p with bits := bits })) :
    wp (eFreeInode d) Q E (v.withPool p) := by
  unfold eFreeInode
  simp only [inodeLevels, wp_bind, wp_get]
  refine wp_mono (freeSecond_wp (m := (v.dirents d).inodeMaxCluster) hown hb) ?_
  rintro _ _ ⟨bits, rfl, hfreed⟩
  refine wp_mono (wp_forEach (I := Freeing v p bound d (v.dirents d).inodeMaxCluster
    (fun i => 24 ≤ i ∧ i < 64 ∧ 1032 + (i - 8) * 64 * 64 < (v.dirents d).inodeMaxCluster)
    (fun i => 16 + 65 * (i - 24)) (16 + 65 * 40)) ?_
    (Freeing.start ?_ pairwise_lt_range' hfreed (by decide) fun i _ => by omega)) ?_
  · intro i is t ht
    refine ht.round fun hi r bits hfreed hr => ?_
    have hk : i = 24 + (i - 24) := by omega
    generalize i - 24 = k at hk hr
    subst hk
    have hn : (Node.top k).Owned (bound d) := by
      simp only [Node.Owned, Node.Valid, Node.start]
      omega
    rw [wp_bind]
    refine wp_mono (freeLeaves_wp (m := (v.dirents d).inodeMaxCluster) hown hb hn.1 hfreed hr) ?_
    rintro _ _ ⟨bits', rfl, hfreed'⟩
    change wp (inodeFree (p.index d (.top k))) _ E _
    refine freeNode_wp hown hn (by simp only [Node.Freeable]; omega) hfreed' (Nat.le_refl _)
      fun bits'' hbits'' => ⟨_, bits'', rfl, hbits'', ?_, fun b' hlt => ?_⟩
    · simp only [Node.rank]
      omega
    · simp only [Node.rank]
      omega
  · intro i hi hused
    have hmem := mem_range'_1.1 hi
    exact ⟨hmem.1, by omega, of_decide_eq_true hused⟩
  · rintro _ _ ⟨_, _, r, bits, rfl, hfreed, _⟩
    exact hQ bits (hfreed.owns hown) fun n hn hnot => hfreed d n hn fun _ => .inr hnot

end Rules

end Fat
end OsRiscv
