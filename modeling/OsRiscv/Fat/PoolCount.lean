import OsRiscv.Fat.Inode

/-!
# PoolCount — how many inodes `eFreeInode` gives back

Of a file without nodes of the third level `eFreeInode` frees the second-level nodes one after the other, and there are
as many of them as the file has nodes.
-/

namespace OsRiscv
namespace Fat

open Lib List

variable {v : Vol} {d m : Nat} {bound : Nat → Nat} {Q : Unit → Vol → Prop} {E : Panic → Vol → Prop}

lemma takeWhile_range' {a n m : Nat} {p : Nat → Bool} (hm : m ≤ n) (hp : ∀ i, a ≤ i → i < a + m → p i = true)
    (hstop : m < n → p (a + m) = false) : (range' a n).takeWhile p = range' a m := by
  have hsplit : range' a n = range' a m ++ range' (a + m) (n - m) := by
    rw [range'_append_1, Nat.add_sub_cancel' hm]
  have hrest : (range' (a + m) (n - m)).takeWhile p = [] := by
    rcases Nat.eq_or_lt_of_le hm with heq | hlt
    · rw [heq, Nat.sub_self]
      rfl
    · have hsucc : n - m = n - m - 1 + 1 := by omega
      rw [hsucc, range'_succ, takeWhile_cons_of_neg (by simp [hstop hlt])]
  rw [hsplit, takeWhile_append_of_pos, hrest, append_nil]
  intro i hi
  have hmem := mem_range'_1.1 hi
  exact hp i hmem.1 hmem.2

lemma nodes_second (hm : m ≤ 1032) : nodes (2 * m) = (m - 8 + 63) / 64 := by
  have himage : ownedNodes (2 * m) = (Finset.range ((m - 8 + 63) / 64)).image Node.second := by
    ext n
    rw [mem_ownedNodes, Finset.mem_image]
    cases n with
    | second i =>
      simp only [Node.Owned, Node.Valid, Node.start, Node.second.injEq, Finset.mem_range, exists_eq_right]
      omega
    | top k =>
      simp only [Node.Owned, Node.Valid, Node.start, reduceCtorEq, and_false, exists_false, iff_false]
      omega
    | leaf k j =>
      simp only [Node.Owned, Node.Valid, Node.start, reduceCtorEq, and_false, exists_false, iff_false]
      omega
  unfold nodes
  rw [himage, Finset.card_image_of_injective _ fun a b h => Node.second.inj h, Finset.card_range]

lemma freed_second (hm : m ≤ 1032) :
    (range' 8 16).takeWhile (fun i => decide (m > 8 + (i - 8) * 64)) = range' 8 ((m - 8 + 63) / 64) := by
  apply takeWhile_range' (by omega)
  · intro i hlo hhi
    exact decide_eq_true (by omega)
  · intro hlt
    exact decide_eq_false (by omega)

lemma freed_third (hm : m ≤ 1032) :
    (range' 24 40).takeWhile (fun i => decide (m > 1032 + (i - 8) * 64 * 64)) = [] := by
  apply takeWhile_range' (Nat.zero_le _)
  · omega
  · intro _
    exact decide_eq_false (by omega)

lemma inodeFree_count {x : Nat} (hx : x < 1024) :
    wp (inodeFree x) (fun _ t => t.pool.count + 1 = v.pool.count) (fun _ _ => True) v := by
  unfold inodeFree
  rw [wp_bind, wp_get]
  by_cases hbit : Bitmap.bit v.inodeBitmap x = true
  · rw [if_pos hbit, wp_modify]
    exact Bitmap.count_clear hx hbit
  · rw [if_neg hbit]
    trivial

lemma freeAll_count {f : Nat → Nat} {l : List Nat} (hl : ∀ i ∈ l, f i < 1024) :
    wp (Call.forEach (fun i => inodeFree (f i)) l) (fun _ t => t.pool.count + l.length = v.pool.count)
      (fun _ _ => True) v := by
  induction l generalizing v with
  | nil => exact Nat.add_zero _
  | cons i l ih =>
    refine (wp_bind (inodeFree (f i)) fun _ => Call.forEach (fun i => inodeFree (f i)) l).2 ?_
    refine wp_mono (inodeFree_count (hl i mem_cons_self)) ?_
    intro _ t ht
    refine wp_mono (ih fun j hj => hl j (mem_cons_of_mem i hj)) ?_
    intro _ u hu
    rw [length_cons]
    omega

/-- Of a file without nodes of the third level `eFreeInode` frees as many inodes as the file has nodes. -/
theorem eFreeInode_count (hown : v.pool.Owns bound) (hb : bound d = 2 * (v.dirents d).inodeMaxCluster)
    (hm : (v.dirents d).inodeMaxCluster ≤ 1032) :
    wp (eFreeInode d) (fun _ t => t.pool.count + nodes (2 * (v.dirents d).inodeMaxCluster) = v.pool.count)
      (fun _ _ => True) v := by
  rw [nodes_second hm]
  unfold eFreeInode modifyDirent
  simp only [inodeLevels, wp_bind, wp_get]
  rw [freed_second hm]
  refine wp_mono (freeAll_count ?_) ?_
  · intro i hi
    have hmem := mem_range'_1.1 hi
    have hnode : (Node.second (i - 8)).Owned (bound d) := by
      simp only [Node.Owned, Node.Valid, Node.start]
      omega
    have hitem : 8 + (i - 8) = i := by omega
    have hlt := (hown.live d _ hnode).1
    simp only [Pool.index, hitem] at hlt
    exact hlt
  · intro _ t ht
    rw [length_range'] at ht
    rw [freed_third hm]
    refine Eq.trans ?_ ht
    congr 2
    exact pool_update rfl rfl rfl rfl

/-- Of a file whose positions are all in the dirent `eFreeInode` frees nothing. -/
theorem eFreeInode_none (hmax : (v.dirents d).inodeMaxCluster ≤ 8)
    (hQ : wp (modifyDirent d fun e => { e with inodeMaxCluster := 0 }) Q E v) : wp (eFreeInode d) Q E v := by
  have hsecond := freed_second (m := (v.dirents d).inodeMaxCluster) (by omega)
  have hzero : ((v.dirents d).inodeMaxCluster - 8 + 63) / 64 = 0 := by omega
  rw [hzero] at hsecond
  unfold eFreeInode
  simp only [inodeLevels, wp_bind, wp_get]
  rw [hsecond, freed_third (by omega)]
  exact hQ

end Fat
end OsRiscv
