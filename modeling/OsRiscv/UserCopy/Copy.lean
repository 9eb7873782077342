import OsRiscv.Exec.Elf
import OsRiscv.Lib.Trace

/-!
# Copy — from user memory to kernel objects

`copyin` of `Page.c` and `copyinstr` of `Sysarg.c`, with a log of the stores they make.  A page of user memory is there,
or `pageout` provides it, or the kernel panics; how an address is translated, and the bytes of the same two functions,
are in `Paging.Translate`.  `copyin` and `copyinstr` know nothing of the size of the object they write to.
-/

namespace OsRiscv
namespace UserCopy

open Lib Exec

/-- Stores of `len` bytes to an object, beginning at `off`. -/
structure Store (ω : Type) where
  object : ω
  off : Nat
  len : Nat

inductive Stop
  | pageout
  | assertion
  | wildPointer
  deriving DecidableEq, Repr

/-- The bytes of each page of the user, by its number. -/
abbrev User := Nat → Option (Nat → UInt8)

abbrev Copying (ω α : Type) := Trace (Store ω) Stop α

variable {ω : Type}

/-! ## The loops -/

/-- The loop of `copyin`, a round for each page. -/
def copyinLoop (u : User) (dst : ω) : Nat → Nat → Nat → Nat → Copying ω Unit
  | 0, _, _, _ => pure ()
  | fuel + 1, off, src, len =>
    if len = 0 then
      pure ()
    else
      match u (src / pageSize) with
      | none => Trace.stop .pageout
      | some _ => do
          let n := min (pageSize - src % pageSize) len
          Trace.emit ⟨dst, off, n⟩
          copyinLoop u dst fuel (off + n) ((downAlign src + pageSize) % 2 ^ 64) (len - n)

/-- `copyin`; each round copies a byte at least. -/
def copyin (u : User) (dst : ω) (src len : Nat) : Copying ω Unit := copyinLoop u dst len 0 src len

/-- `copyinstr`, byte by byte: the text, unless it is longer than `max`. -/
def copyinstr (u : User) (dst : ω) : Nat → Nat → Nat → Copying ω (Option (List UInt8))
  | 0, _, _ => pure none
  | max + 1, off, src =>
    match u (src / pageSize) with
    | none => Trace.stop .pageout
    | some page => do
        Trace.emit ⟨dst, off, 1⟩
        let c := page (src % pageSize)
        if c = 0 then
          return some []
        else do
          let rest ← copyinstr u dst max (off + 1) ((src + 1) % 2 ^ 64)
          return rest.map (c :: ·)

/-! ## What the user provides -/

/-- The first `n` bytes from `src` can be read. -/
def Readable (u : User) (src n : Nat) : Prop := ∀ j < n, (u ((src + j) % 2 ^ 64 / pageSize)).isSome = true

/-- The byte at an address. -/
def byteAt (u : User) (a : Nat) : Option UInt8 := (u (a / pageSize)).map fun page => page (a % pageSize)

/-- The byte at `src + j` -/
def userByte (u : User) (src j : Nat) : Option UInt8 := byteAt u ((src + j) % 2 ^ 64)

variable {u : User} {dst : ω} {fuel off src len size n k max : Nat}

lemma readable_of_page (hsrc : src < 2 ^ 64) (hpage : (u (src / pageSize)).isSome = true)
    (hn : n ≤ pageSize - src % pageSize) : Readable u src n := by
  intro j hj
  have hsame : (src + j) % 2 ^ 64 / pageSize = src / pageSize := by
    unfold pageSize at *
    omega
  rw [hsame]
  exact hpage

lemma readable_add (hsrc : src < 2 ^ 64) (hpage : (u (src / pageSize)).isSome = true) :
    Readable u src (pageSize - src % pageSize + n) ↔ Readable u ((downAlign src + pageSize) % 2 ^ 64) n := by
  have hnext : ∀ j, ((downAlign src + pageSize) % 2 ^ 64 + j) % 2 ^ 64 =
      (src + (pageSize - src % pageSize + j)) % 2 ^ 64 := by
    intro j
    have hdown : downAlign src + pageSize = src + (pageSize - src % pageSize) := by
      unfold downAlign pageSize
      omega
    rw [hdown, Nat.mod_add_mod, Nat.add_assoc]
  constructor
  · intro h j hj
    rw [hnext]
    exact h _ (by omega)
  · intro h j hj
    by_cases hlt : j < pageSize - src % pageSize
    · exact readable_of_page hsrc hpage (Nat.le_refl _) j hlt
    · have := h (j - (pageSize - src % pageSize)) (by omega)
      rw [hnext] at this
      have hj' : pageSize - src % pageSize + (j - (pageSize - src % pageSize)) = j := by omega
      rw [hj'] at this
      exact this

/-! ## `copyin` -/

/-- The store is in its object. -/
def InObject (size : ω → Nat) (st : Store ω) : Prop := st.off + st.len ≤ size st.object

section

variable (hsrc : src < 2 ^ 64)
include hsrc

lemma copyinLoop_ok_iff (hfuel : len ≤ fuel) :
    (copyinLoop u dst fuel off src len).result = .ok () ↔ Readable u src len := by
  induction fuel generalizing off src len with
  | zero =>
    exact iff_of_true rfl fun j hj => absurd hj (by omega)
  | succ fuel ih =>
    unfold copyinLoop
    split
    · exact iff_of_true rfl fun j hj => absurd hj (by omega)
    · have hfirst : (src + 0) % 2 ^ 64 / pageSize = src / pageSize := by
        rw [Nat.add_zero, Nat.mod_eq_of_lt hsrc]
      cases hpage : u (src / pageSize) with
      | none =>
        refine iff_of_false (fun h => by cases h) fun h => ?_
        have := h 0 (by omega)
        rw [hfirst, hpage] at this
        cases this
      | some page =>
        have hsome : (u (src / pageSize)).isSome = true := by rw [hpage]; rfl
        have hrest : src % pageSize < pageSize := Nat.mod_lt _ (by decide)
        show (copyinLoop u dst fuel (off + min (pageSize - src % pageSize) len) _ _).result = _ ↔ _
        rw [ih (Nat.mod_lt _ (by decide)) (by omega)]
        by_cases hshort : len ≤ pageSize - src % pageSize
        · exact iff_of_true (fun j hj => absurd hj (by omega)) (readable_of_page hsrc hsome hshort)
        · rw [Nat.min_eq_left (by omega), ← readable_add hsrc hsome, Nat.add_sub_cancel' (by omega)]

/-- The stores of `copyin` are in the object exactly if the length is at most its size, or the kernel panics before it
gets further. -/
theorem copyinLoop_all {size : ω → Nat} (hfuel : len ≤ fuel) (hoff : off ≤ size dst) :
    (copyinLoop u dst fuel off src len).All (InObject size) ↔
      off + len ≤ size dst ∨ ¬Readable u src (size dst + 1 - off) := by
  induction fuel generalizing off src len with
  | zero =>
    have hlen : len = 0 := by omega
    subst hlen
    exact iff_of_true (Trace.all_pure ()) (.inl hoff)
  | succ fuel ih =>
    unfold copyinLoop
    split
    · rename_i hzero
      subst hzero
      exact iff_of_true (Trace.all_pure ()) (.inl hoff)
    · cases hpage : u (src / pageSize) with
      | none =>
        refine iff_of_true (Trace.all_stop _) (.inr fun h => ?_)
        have := h 0 (by omega)
        rw [Nat.add_zero, Nat.mod_eq_of_lt hsrc, hpage] at this
        cases this
      | some page =>
        have hsome : (u (src / pageSize)).isSome = true := by rw [hpage]; rfl
        have hrest : src % pageSize < pageSize := Nat.mod_lt _ (by decide)
        rw [Trace.all_bind_ok rfl, Trace.all_emit]
        show off + min (pageSize - src % pageSize) len ≤ size dst ∧ _ ↔ _
        by_cases hin : off + min (pageSize - src % pageSize) len ≤ size dst
        · rw [and_iff_right hin, ih (Nat.mod_lt _ (by decide)) (by omega) hin]
          by_cases hshort : len ≤ pageSize - src % pageSize
          · exact iff_of_true (.inl (by omega)) (.inl (by omega))
          · -- the page is copied to its end, and the next one is as far from the end of the object
            rw [Nat.min_eq_left (by omega)] at hin ⊢
            have hsum : off + (pageSize - src % pageSize) + (len - (pageSize - src % pageSize)) = off + len := by
              omega
            have hleft : size dst + 1 - off =
                pageSize - src % pageSize + (size dst + 1 - (off + (pageSize - src % pageSize))) := by
              omega
            rw [hsum, hleft, readable_add hsrc hsome]
        · -- this page reaches behind the object, and all of it is readable
          refine iff_of_false (fun h => hin h.1) ?_
          rintro (hle | hnot)
          · omega
          · exact hnot (readable_of_page hsrc hsome (by omega))

lemma copyin_ok_iff : (copyin u dst src len).result = .ok () ↔ Readable u src len :=
  copyinLoop_ok_iff hsrc (Nat.le_refl _)

lemma copyin_all {size : ω → Nat} :
    (copyin u dst src len).All (InObject size) ↔ len ≤ size dst ∨ ¬Readable u src (size dst + 1) := by
  have h : (copyinLoop u dst len 0 src len).All (InObject size) ↔
      0 + len ≤ size dst ∨ ¬Readable u src (size dst + 1 - 0) :=
    copyinLoop_all hsrc (Nat.le_refl _) (Nat.zero_le _)
  rw [Nat.zero_add, Nat.sub_zero] at h
  exact h

end

/-! ## `copyinstr` -/

/-- The text at an address, as `copyinstr` sees it. -/
def userText (u : User) : Nat → Nat → Except Stop (Option (List UInt8))
  | 0, _ => .ok none
  | max + 1, src =>
    match byteAt u src with
    | none => .error .pageout
    | some c =>
      if c = 0 then .ok (some [])
      else (userText u max ((src + 1) % 2 ^ 64)).map fun rest => rest.map (c :: ·)

lemma copyinstr_result : (copyinstr u dst max off src).result = userText u max src := by
  induction max generalizing off src with
  | zero => rfl
  | succ max ih =>
    unfold copyinstr userText byteAt
    cases u (src / pageSize) with
    | none => rfl
    | some page =>
      dsimp only [Option.map_some]
      split
      · rfl
      · have hrest : (copyinstr u dst max (off + 1) ((src + 1) % 2 ^ 64)).result =
            userText u max ((src + 1) % 2 ^ 64) := ih
        rw [← hrest]
        show (Trace.bind (copyinstr u dst max (off + 1) ((src + 1) % 2 ^ 64)) _).result = _
        unfold Trace.bind
        cases (copyinstr u dst max (off + 1) ((src + 1) % 2 ^ 64)).result with
        | ok rest => rfl
        | error e => rfl

/-- A text that ends, or cannot be read any more, before the end of the object. -/
def Ends (u : User) (src n : Nat) : Prop := (∃ j < n, userByte u src j = some 0) ∨ ¬Readable u src (n + 1)

lemma ends_succ (hsrc : src < 2 ^ 64) {page : Nat → UInt8} (hpage : u (src / pageSize) = some page)
    (hc : page (src % pageSize) ≠ 0) : Ends u src (n + 1) ↔ Ends u ((src + 1) % 2 ^ 64) n := by
  have hnext : ∀ j, ((src + 1) % 2 ^ 64 + j) % 2 ^ 64 = (src + (j + 1)) % 2 ^ 64 := by
    omega
  have hfirst : (src + 0) % 2 ^ 64 = src := by rw [Nat.add_zero, Nat.mod_eq_of_lt hsrc]
  unfold Ends userByte byteAt
  refine or_congr ?_ (not_congr ?_)
  · constructor
    · rintro ⟨j, hj, hzero⟩
      cases j with
      | zero =>
        rw [hfirst, hpage] at hzero
        exact absurd (Option.some.inj hzero) hc
      | succ j =>
        refine ⟨j, by omega, ?_⟩
        rw [hnext]
        exact hzero
    · rintro ⟨j, hj, hzero⟩
      refine ⟨j + 1, by omega, ?_⟩
      rw [hnext] at hzero
      exact hzero
  · constructor
    · intro h j hj
      rw [hnext]
      exact h (j + 1) (by omega)
    · intro h j hj
      cases j with
      | zero =>
        rw [hfirst, hpage]
        rfl
      | succ j =>
        have := h j (by omega)
        rw [hnext] at this
        exact this

lemma copyinstr_all {size : ω → Nat} (hsrc : src < 2 ^ 64) (hoff : off ≤ size dst) :
    (copyinstr u dst max off src).All (InObject size) ↔ off + max ≤ size dst ∨ Ends u src (size dst - off) := by
  induction max generalizing off src with
  | zero => exact iff_of_true (Trace.all_pure _) (.inl hoff)
  | succ max ih =>
    unfold copyinstr
    have hfirst : (src + 0) % 2 ^ 64 = src := by rw [Nat.add_zero, Nat.mod_eq_of_lt hsrc]
    cases hpage : u (src / pageSize) with
    | none =>
      refine iff_of_true (Trace.all_stop _) (.inr (.inr fun h => ?_))
      have := h 0 (by omega)
      rw [hfirst, hpage] at this
      cases this
    | some page =>
      rw [Trace.all_bind_ok rfl, Trace.all_emit]
      show off + 1 ≤ size dst ∧ _ ↔ _
      by_cases hin : off + 1 ≤ size dst
      · rw [and_iff_right hin]
        have hsucc : size dst - off = size dst - (off + 1) + 1 := by omega
        by_cases hc : page (src % pageSize) = 0
        · rw [if_pos hc]
          refine iff_of_true (Trace.all_pure _) (.inr (.inl ⟨0, by omega, ?_⟩))
          unfold userByte byteAt
          rw [hfirst, hpage]
          exact congrArg some hc
        · have hsum : off + 1 + max = off + (max + 1) := by omega
          rw [if_neg hc, Trace.all_bind, ih (Nat.mod_lt _ (by decide)) hin, hsucc, ends_succ hsrc hpage hc, hsum]
          exact and_iff_left fun _ _ => Trace.all_pure _
      · -- the object is full, and there is a byte to store
        refine iff_of_false (fun h => hin h.1) ?_
        rintro (hle | ⟨j, hj, _⟩ | hnot)
        · omega
        · omega
        · refine hnot fun j hj => ?_
          have hj0 : j = 0 := by omega
          rw [hj0, hfirst, hpage]
          rfl

end UserCopy
end OsRiscv
