import Mathlib.Tactic.Ring

/-!
# Zeroing — `bzero`, `bcopy`

The stores of `bzero` in their order.  Pointers advance and compare modulo `2 ^ 64`.
-/

namespace OsRiscv
namespace Memory

/-- A store of zeros: its address and its size in bytes. -/
structure Store where
  addr : Nat
  size : Nat
  deriving DecidableEq, Repr

/-- Set `n` bytes from `start` on to 0. -/
def zeroed (start n : Nat) (mem : Nat → UInt8) : Nat → UInt8 := fun a => if start ≤ a ∧ a < start + n then 0 else mem a

def Store.run (mem : Nat → UInt8) (s : Store) : Nat → UInt8 := zeroed s.addr s.size mem

/-- `while (go start) { *start = 0; start += size; }`, `none` when the fuel does not reach its end. -/
def storeWhile (go : Nat → Bool) (size : Nat) : Nat → Nat → Option (List Store × Nat)
  | 0, _ => none
  | fuel + 1, start =>
    if go start then
      (storeWhile go size fuel ((start + size) % 2 ^ 64)).map fun r => (⟨start, size⟩ :: r.1, r.2)
    else some ([], start)

def bzero (fuel start len : Nat) : Option (List Store) := do
  let finish := (start + len) % 2 ^ 64
  if len ≤ 7 then
    let (bytes, _) ← storeWhile (· < finish) 1 fuel start
    return bytes
  let (front, start) ← storeWhile (· &&& 7 ≠ 0) 1 fuel start
  let (words, start) ← storeWhile (fun start => (start + 7) % 2 ^ 64 < finish) 8 fuel start
  let (tail, _) ← storeWhile (· < finish) 1 fuel start
  return front ++ words ++ tail

/-- The stores of a loop that makes `n` rounds. -/
def stores (start size n : Nat) : List Store := (List.range n).map fun i => ⟨start + size * i, size⟩

variable {start finish size m n fuel : Nat} {mem : Nat → UInt8}

lemma zeroed_zeroed : zeroed (start + m) n (zeroed start m mem) = zeroed start (m + n) mem := by
  funext a
  unfold zeroed
  by_cases hm : start ≤ a ∧ a < start + m
  · rw [if_pos hm, ite_self, if_pos (by omega)]
  · rw [if_neg hm]
    congr 1
    apply propext
    omega

lemma foldl_stores : (stores start size n).foldl Store.run mem = zeroed start (size * n) mem := by
  induction n with
  | zero =>
    funext a
    exact (if_neg (by omega)).symm
  | succ n ih =>
    have hlast : stores start size (n + 1) = stores start size n ++ [⟨start + size * n, size⟩] := by
      simp [stores, List.range_succ]
    rw [hlast, List.foldl_append, ih]
    exact zeroed_zeroed

lemma storeWhile_eq {go : Nat → Bool} (hgo : ∀ i < n, go (start + size * i) = true)
    (hend : go (start + size * n) = false) (htop : start + size * n < 2 ^ 64) (hfuel : n < fuel) :
    storeWhile go size fuel start = some (stores start size n, start + size * n) := by
  induction n generalizing start fuel with
  | zero =>
    cases fuel with
    | zero => omega
    | succ fuel => simp [storeWhile, stores, show go start = false from hend]
  | succ n ih =>
    cases fuel with
    | zero => omega
    | succ fuel =>
      have hshift : ∀ i, start + size * (i + 1) = start + size + size * i := fun i => by
        rw [Nat.mul_succ]
        omega
      rw [hshift] at hend htop ⊢
      have hrest := ih (fun i hi => hshift i ▸ hgo (i + 1) (by omega)) hend htop (by omega : n < fuel)
      rw [storeWhile, if_pos (show go start = true from hgo 0 (by omega)), Nat.mod_eq_of_lt (by omega), hrest]
      simp [stores, List.range_succ_eq_map, Function.comp_def, hshift]

lemma byteLoop (hle : start ≤ finish) (hfinish : finish < 2 ^ 64) (hfuel : finish - start < fuel) :
    storeWhile (· < finish) 1 fuel start = some (stores start 1 (finish - start), finish) := by
  have hend : start + 1 * (finish - start) = finish := by omega
  rw [storeWhile_eq (n := finish - start) (fun i hi => ?_) ?_ (by omega) hfuel, hend]
  · simp
    omega
  · simp
    omega

/-- Below the end of the address space `bzero` ends, stores words at aligned addresses only, and sets the bytes of the
range and no others. -/
theorem bzero_exact (start len : Nat) (h : start + len < 2 ^ 64) : ∃ l,
    (∀ fuel, len + 8 ≤ fuel → bzero fuel start len = some l) ∧ (∀ s ∈ l, s.size = 8 → s.addr % 8 = 0) ∧
    ∀ mem, l.foldl Store.run mem = zeroed start len mem ∧
      zeroed start len mem = (stores start 1 len).foldl Store.run mem := by
  have hbytes : ∀ mem, zeroed start len mem = (stores start 1 len).foldl Store.run mem := fun mem => by
    rw [foldl_stores, Nat.one_mul]
  have hfinish : (start + len) % 2 ^ 64 = start + len := Nat.mod_eq_of_lt h
  by_cases hle : len ≤ 7
  · refine ⟨stores start 1 len, fun fuel hfuel => ?_, by simp [stores], fun mem => ⟨(hbytes mem).symm, hbytes mem⟩⟩
    rw [bzero, if_pos hle, hfinish, byteLoop (by omega) h (by omega), Nat.add_sub_cancel_left]
    rfl
  · -- `m` bytes up to an aligned address, `n` words, and the rest
    rcases (⟨_, rfl⟩ : ∃ m, m = (8 - start % 8) % 8) with ⟨m, hm⟩
    rcases (⟨_, rfl⟩ : ∃ n, n = (len - m) / 8) with ⟨n, hn⟩
    refine ⟨stores start 1 m ++ stores (start + m) 8 n ++ stores (start + m + 8 * n) 1 (len - m - 8 * n),
      fun fuel hfuel => ?_, ?_, fun mem => ?_⟩
    · have hfront : storeWhile (· &&& 7 ≠ 0) 1 fuel start = some (stores start 1 m, start + 1 * m) := by
        refine storeWhile_eq (fun i hi => ?_) ?_ (by omega) (by omega)
        · rw [decide_eq_true_iff, Nat.and_two_pow_sub_one_eq_mod _ 3]
          omega
        · rw [decide_eq_false_iff_not, Nat.and_two_pow_sub_one_eq_mod _ 3]
          omega
      have hwords : storeWhile (fun a => (a + 7) % 2 ^ 64 < start + len) 8 fuel (start + m) =
          some (stores (start + m) 8 n, start + m + 8 * n) := by
        refine storeWhile_eq (fun i hi => ?_) ?_ (by omega) (by omega)
        · rw [decide_eq_true_iff]
          omega
        · rw [decide_eq_false_iff_not]
          omega
      have htail : storeWhile (· < start + len) 1 fuel (start + m + 8 * n) = _ := byteLoop (by omega) h (by omega)
      rw [bzero, if_neg hle, hfinish, hfront]
      dsimp only [Option.bind_eq_bind, Option.bind_some]
      rw [Nat.one_mul, hwords]
      dsimp only [Option.bind_some]
      rw [htail, show start + len - (start + m + 8 * n) = len - m - 8 * n by omega]
      rfl
    · simp only [stores, List.mem_append, List.mem_map]
      rintro s ((⟨i, _, rfl⟩ | ⟨i, _, rfl⟩) | ⟨i, _, rfl⟩) hsize
      · cases hsize
      · dsimp only
        omega
      · cases hsize
    · rw [List.foldl_append, List.foldl_append, foldl_stores, foldl_stores, foldl_stores, Nat.one_mul, Nat.one_mul,
        zeroed_zeroed, zeroed_zeroed, show m + (8 * n + (len - m - 8 * n)) = len by omega]
      exact ⟨rfl, hbytes mem⟩

theorem bzero_page : ∃ l, (∀ fuel, 4096 + 8 ≤ fuel → bzero fuel 0x80200001 4096 = some l) ∧
    (∀ s ∈ l, s.size = 8 → s.addr % 8 = 0) ∧ ∀ mem, l.foldl Store.run mem = zeroed 0x80200001 4096 mem ∧
      zeroed 0x80200001 4096 mem = (stores 0x80200001 1 4096).foldl Store.run mem :=
  bzero_exact 0x80200001 4096 (by decide)

/-- A range that ends with the address space: its end wraps to 0 and nothing is stored. -/
theorem bzero_top : bzero 16 (2 ^ 64 - 8) 8 = some [] ∧
    ¬ ∀ mem, [].foldl Store.run mem = zeroed (2 ^ 64 - 8) 8 mem := by
  refine ⟨by decide +kernel, fun h => ?_⟩
  have hlast := congrFun (h fun _ => 1) (2 ^ 64 - 8)
  exact absurd hlast (by decide +kernel)

def bcopyLoop (finish : Nat) : Nat → Nat → Nat → (Nat → UInt8) → Option (Nat → UInt8)
  | 0, _, _, _ => none
  | fuel + 1, src, dst, mem =>
    if src < finish then
      bcopyLoop finish fuel ((src + 1) % 2 ^ 64) ((dst + 1) % 2 ^ 64) fun a => if a = dst then mem src else mem a
    else some mem

def bcopy (fuel src dst len : Nat) := bcopyLoop ((src + len) % 2 ^ 64) fuel src dst

/-- Memory after `k` rounds.  An overlap repeats the bytes in front of it. -/
def copied (src dst k : Nat) (mem : Nat → UInt8) (a : Nat) : UInt8 :=
  if dst ≤ a ∧ a < dst + k then mem (src + if src < dst then (a - dst) % (dst - src) else a - dst) else mem a

lemma copied_succ : (fun a => if a = dst + k then copied src dst k mem (src + k) else copied src dst k mem a) =
    copied src dst (k + 1) mem := by
  funext a
  unfold copied
  by_cases ha : a = dst + k
  · by_cases hin : src < dst ∧ dst ≤ src + k
    · -- the byte read was written `dst - src` rounds ago
      have hmod := Nat.mod_eq_sub_mod (show k ≥ dst - src by omega)
      simp [ha, hin, hmod, show src + k - dst = k - (dst - src) by omega]
    · have hmod : src < dst → k % (dst - src) = k := fun h => Nat.mod_eq_of_lt (by omega)
      simp +contextual [ha, hmod, show dst ≤ src + k → ¬ src < dst by omega]
  · rw [if_neg ha]
    congr 1
    apply propext
    omega

/-- `bcopy` on ranges that may overlap. -/
theorem bcopy_eq (fuel : Nat) (hsrc : src + len < 2 ^ 64) (hdst : dst + len < 2 ^ 64) :
    bcopy (fuel + len + 1) src dst len mem = some (copied src dst len mem) := by
  have hloop : ∀ n k, k + n = len → bcopyLoop (src + len) (fuel + n + 1) (src + k) (dst + k) (copied src dst k mem) =
      some (copied src dst len mem) := by
    intro n
    induction n with
    | zero =>
      rintro k rfl
      exact if_neg (by omega)
    | succ n ih =>
      intro k hk
      rw [bcopyLoop, if_pos (by omega), copied_succ, Nat.mod_eq_of_lt (by omega), Nat.mod_eq_of_lt (by omega)]
      exact ih (k + 1) (by omega)
  have hnone : copied src dst 0 mem = mem := funext fun a => if_neg (by omega)
  rw [bcopy, Nat.mod_eq_of_lt hsrc]
  simpa [hnone] using hloop len 0 (by omega)

theorem bcopy_repeats : bcopy 4 8 9 3 .ofNat = some (copied 8 9 3 .ofNat) := bcopy_eq 0 (by decide) (by decide)

end Memory
end OsRiscv
