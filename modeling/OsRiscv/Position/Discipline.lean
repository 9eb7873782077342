import OsRiscv.Lib.Run
import OsRiscv.Position.Model

/-!
# Discipline — which calls keep the position

A program counts on the position: reads and writes move it by what they report, `lseek` moves it to what it returns,
and the other calls leave it alone.  `pos` is the position as a program computes it from the results; as long as each
call meets `Keeps`, it is the `off` of the file.
-/

namespace OsRiscv
namespace Position

open Lib OsRiscv.Tree

/-! ## Calls for one file -/

inductive Act
  | read (n : Nat) (other : Int)
  | write (bytes : List UInt8) (clus : Nat) (other : Int)
  | lseek (offset : Nat) (mode : Int)
  | pread (off n : Nat)
  | mmap (addr len : Nat) (anonymous : Bool) (off : Nat)
  | sendfile (outFile offset count clus : Nat) (other : Nat → Int)

/-- The registers have 64 bits, counts and offsets in memory 32. -/
def Act.Typed : Act → Prop
  | .read n _ => n < 2 ^ 32
  | .write bytes _ _ => bytes.length < 2 ^ 32
  | .lseek offset _ => offset < 2 ^ 64
  | .sendfile _ offset count _ _ => offset < 2 ^ 32 ∧ count < 2 ^ 32
  | _ => True

/-- The call, with its result. -/
def step (f : Nat) (s : Sys) : Act → Int × Sys
  | .read n other => ((fileread s f n other).1, (fileread s f n other).2.2)
  | .write bytes clus other => filewrite s f bytes clus other
  | .lseek offset mode => syscallLSeek s f offset mode
  | .pread off n => ((syscallPRead s f off n).1, s)
  | .mmap addr len anonymous off => doMmap s f addr len anonymous off
  | .sendfile outFile offset count clus other => syscallSendFile s f outFile offset count clus other

/-- What the call should do to the position. -/
def Disciplined (f : Nat) (s : Sys) (a : Act) : Prop :=
  let off : Int := (s.file f).off
  let off' : Int := ((step f s a).2.file f).off
  let r := (step f s a).1
  match a with
  | .read _ _ | .write _ _ _ => (0 ≤ r → off' = off + r) ∧ (r < 0 → off' = off)
  | .lseek _ _ => (0 ≤ r ∧ off' = r) ∨ (r < 0 ∧ off' = off)
  | .pread _ _ | .mmap _ _ _ _ | .sendfile _ _ _ _ _ => off' = off

/-! ## The condition -/

/-- Only the files without an end take the position over 32 bits. -/
def ReadKeeps (d : Dirent) (off n : Nat) : Prop :=
  match d.dev with
  | .zero => int n ≤ 0 ∨ off + n < 2 ^ 32
  | .osrelease => off + 7 < 2 ^ 32
  | _ => True

/-- `ewrite` of `n` bytes does not fail. -/
def Writes (d : Dirent) (off n : Nat) : Prop := d.dev = .none ∨ off + n < 2 ^ 32 ∧ d.attr &&& Fat.attrReadOnly = 0

instance (d : Dirent) (off n : Nat) : Decidable (Writes d off n) := inferInstanceAs (Decidable (_ ∨ _ ∧ _))

/-- The count is not negative and the position stays in 32 bits, or the write fails and its count is not -1. -/
def WriteKeeps (d : Dirent) (off n : Nat) : Prop :=
  if Writes d off n then n < 2 ^ 31 ∧ off + n < 2 ^ 32 else n ≠ 2 ^ 32 - 1

/-- The position to which `mmap` takes the file: the offset, and the bytes that are read from there. -/
def mapEnd (readable : Bool) (d : Dirent) (len off : Nat) : Nat :=
  if readable then (off % 2 ^ 32 + (int (eread d (off % 2 ^ 32) (len % 2 ^ 32)).length).toNat) % 2 ^ 32
  else off % 2 ^ 32

/-- What has to hold before a call for the position to be kept.  A transfer with `sendfile` has to begin at the position
and to transfer nothing. -/
def Keeps (f ep : Nat) (s : Sys) : Act → Prop
  | .read n _ => (s.file f).readable = true → ReadKeeps (s.dirent ep) (s.file f).off n
  | .write bytes _ _ => (s.file f).writable = true → WriteKeeps (s.dirent ep) (s.file f).off bytes.length
  | .lseek offset mode => ∀ base, seekBase s f mode = some base →
      (offset + base) % 2 ^ 64 < 2 ^ 32 ∨
        (2 ^ 63 ≤ (offset + base) % 2 ^ 64 ∧ (offset + base) % 2 ^ 32 = (s.file f).off)
  | .pread _ _ => True
  | .mmap _ len anonymous off => anonymous = false → mapEnd (s.file f).readable (s.dirent ep) len off = (s.file f).off
  | .sendfile _ offset count _ _ => offset = (s.file f).off ∧
      (count = 0 ∨ (s.file f).readable = false ∨ (eread (s.dirent ep) offset (min count 512)).length = 0)

variable {s s' : Sys} {f ep n off offset count clus outFile fuel : Nat} {a : Act} {bytes : List UInt8} {other : Int}
  {mode : Int}

/-! ## One call -/

lemma eread_length (d : Dirent) (off n : Nat) :
    (d.dev = .zero ∧ (eread d off n).length = n) ∨ (d.dev = .osrelease ∧ (eread d off n).length = 7) ∨
      (d.dev ≠ .zero ∧ d.dev ≠ .osrelease ∧
        ((eread d off n).length = 0 ∨ off + (eread d off n).length ≤ d.fileSize)) := by
  cases hdev : d.dev with
  | zero => exact .inl ⟨rfl, by simp [eread, hdev]⟩
  | osrelease => exact .inr (.inl ⟨rfl, by simp [eread, hdev]⟩)
  | regular | none => exact .inr (.inr ⟨by simp, by simp, eread_length_le (by simp [hdev]) (by simp [hdev])⟩)

lemma readKeeps_iff {d : Dirent} (hoff : off < 2 ^ 32) (hsize : d.fileSize < 2 ^ 32) :
    ReadKeeps d off n ↔ (0 < int (eread d off n).length → off + (eread d off n).length < 2 ^ 32) := by
  unfold ReadKeeps
  rcases eread_length d off n with ⟨hdev, hlen⟩ | ⟨hdev, hlen⟩ | ⟨hzero, hrelease, hlen⟩
  · rw [hdev, hlen]
    omega
  · rw [hdev, hlen]
    have hint : int (7 : Nat) = 7 := by decide
    rw [hint]
    omega
  · have hmatch : (match d.dev with
        | .zero => int n ≤ 0 ∨ off + n < 2 ^ 32
        | .osrelease => off + 7 < 2 ^ 32
        | _ => True) = True := by
      cases hdev : d.dev with
      | zero => exact absurd hdev hzero
      | osrelease => exact absurd hdev hrelease
      | regular | none => rfl
    rw [hmatch]
    constructor
    · intro _ _
      omega
    · intro _
      trivial

lemma read_iff (ht : Typed s) (he : Entry s f ep) (hn : n < 2 ^ 32) :
    Disciplined f s (.read n other) ↔ Keeps f ep s (.read n other) := by
  have hoff := ht.off f
  unfold Disciplined Keeps step
  dsimp only
  cases hread : (s.file f).readable with
  | false =>
    rw [fileread_of_not_readable hread]
    constructor
    · intro _ hfalse
      cases hfalse
    · intro _
      exact ⟨fun h => by omega, fun _ => rfl⟩
  | true =>
    rw [fileread_fst he hread, fileread_state he hread, readKeeps_iff hoff (ht.size ep)]
    have hlen : (eread (s.dirent ep) (s.file f).off n).length < 2 ^ 32 := by
      have hsize := ht.size ep
      rcases eread_length (s.dirent ep) (s.file f).off n with ⟨_, h⟩ | ⟨_, h⟩ | ⟨_, _, h⟩
      · omega
      · omega
      · omega
    generalize (eread (s.dirent ep) (s.file f).off n).length = len at hlen ⊢
    by_cases hpos : 0 < int len
    · have hint : int len = len := by
        unfold int at hpos ⊢
        omega
      rw [if_pos hpos, setOff_off, hint]
      constructor
      · omega
      · intro h
        have := h rfl (by omega)
        refine ⟨fun _ => by omega, fun hneg => by omega⟩
    · rw [if_neg hpos]
      constructor
      · intro _ _ h
        exact absurd h hpos
      · intro _
        refine ⟨fun h0 => by omega, fun _ => rfl⟩

lemma ewrite_fst {d : Dirent} {off : Nat} :
    (ewrite d off bytes clus).1 = if Writes d off bytes.length then (bytes.length : Int) else -1 := by
  unfold ewrite
  dsimp only
  split
  · rename_i hnone
    have hwrites : Writes d off bytes.length := .inl hnone
    rw [if_pos hwrites]
  · rename_i hnone
    split
    · rename_i hfail
      rw [if_neg]
      rintro (h | ⟨hfull, hattr⟩)
      · exact hnone h
      · rcases hfail with h | h | h
        · omega
        · omega
        · exact h hattr
    · rename_i hdone
      simp only [not_or, not_not] at hdone
      have hwrites : Writes d off bytes.length := .inr ⟨by omega, hdone.2.2⟩
      rw [if_pos hwrites]

lemma write_iff (he : Entry s f ep) (hn : bytes.length < 2 ^ 32) :
    Disciplined f s (.write bytes clus other) ↔ Keeps f ep s (.write bytes clus other) := by
  unfold Disciplined Keeps step
  dsimp only
  cases hwrite : (s.file f).writable with
  | false =>
    rw [filewrite_of_not_writable hwrite]
    constructor
    · intro _ hfalse
      cases hfalse
    · intro _
      exact ⟨fun h => by omega, fun _ => rfl⟩
  | true =>
    unfold WriteKeeps
    have hresult := @ewrite_fst clus bytes (s.dirent ep) (s.file f).off
    cases hw : ewrite (s.dirent ep) (s.file f).off bytes clus with
    | mk r d =>
      rw [hw] at hresult
      rw [filewrite_eq he hwrite hw]
      generalize bytes.length = len at hn hresult ⊢
      by_cases hwrites : Writes (s.dirent ep) (s.file f).off len
      · -- the write is done: the result is negative for a count of 2^31 or more
        rw [if_pos hwrites] at hresult ⊢
        subst hresult
        rw [if_pos rfl, setOff_off]
        have hint : int len = len ∨ (2 ^ 31 ≤ len ∧ int len < 0) := by
          unfold int
          omega
        constructor
        · rcases hint with hint | ⟨hlen, hneg⟩
          · have hlt : int len < 2 ^ 31 := (int_lt len).2
            omega
          · omega
        · intro h
          have := h rfl
          rcases hint with hint | ⟨hlen, hneg⟩
          · exact ⟨fun _ => by omega, fun hneg => by omega⟩
          · omega
      · have hone : int (-1) = -1 := by decide
        rw [if_neg hwrites] at hresult ⊢
        subst hresult
        rw [hone]
        by_cases hlen : (-1 : Int) = int len
        · -- a failed write of 2^32 - 1 bytes takes the position back by one
          have hmax : len = 2 ^ 32 - 1 := by
            unfold int at hlen
            omega
          rw [if_pos hlen, setOff_off, ← hlen]
          constructor
          · omega
          · intro h
            exact absurd hmax (h rfl)
        · have hmax : len ≠ 2 ^ 32 - 1 := by
            rintro rfl
            exact hlen (by decide)
          rw [if_neg hlen]
          constructor
          · intro _ _
            exact hmax
          · intro _
            exact ⟨fun h => by omega, fun _ => rfl⟩

lemma lseek_iff : Disciplined f s (.lseek offset mode) ↔ Keeps f ep s (.lseek offset mode) := by
  unfold Disciplined Keeps step syscallLSeek
  dsimp only
  cases seekBase s f mode with
  | none =>
    dsimp only
    constructor
    · intro _ base hbase
      cases hbase
    · intro _
      exact .inr ⟨by omega, rfl⟩
  | some base =>
    dsimp only
    rw [setOff_off]
    have hlt : (offset + base) % 2 ^ 64 < 2 ^ 64 := Nat.mod_lt _ (by decide)
    constructor
    · intro h base' hbase
      cases hbase
      rcases long_cases hlt with ⟨hv, hl⟩ | ⟨hv, hl⟩
      · omega
      · omega
    · intro h
      have hkeeps := h base rfl
      rcases long_cases hlt with ⟨hv, hl⟩ | ⟨hv, hl⟩
      · rw [hl]
        omega
      · omega

lemma mmap_iff (he : Entry s f ep) {anonymous : Bool} {addr len : Nat} :
    Disciplined f s (.mmap addr len anonymous off) ↔ Keeps f ep s (.mmap addr len anonymous off) := by
  unfold Disciplined Keeps step doMmap
  dsimp only
  cases anonymous with
  | true => simp
  | false =>
    have hend : ((fileread (s.setOff f (off % 2 ^ 32)) f (len % 2 ^ 32) 0).2.2.file f).off =
        mapEnd (s.file f).readable (s.dirent ep) len off := by
      have hreadable : ((s.setOff f (off % 2 ^ 32)).file f).readable = (s.file f).readable := by
        simp [Sys.setOff, Sys.setFile]
      unfold mapEnd
      cases hread : (s.file f).readable with
      | false =>
        rw [fileread_of_not_readable (hreadable.trans hread)]
        simp
      | true =>
        rw [fileread_state (setOff_entry he) (hreadable.trans hread), setOff_off, setOff_dirent, if_pos rfl]
        generalize (eread (s.dirent ep) (off % 2 ^ 32) (len % 2 ^ 32)).length = k
        by_cases hpos : 0 < int k
        · rw [if_pos hpos, setOff_off]
        · have hzero : (int k).toNat = 0 := by omega
          rw [if_neg hpos, setOff_off, hzero]
          simp
    rw [if_neg (by simp)]
    have hstate : ((if 0 ≤ (fileread (s.setOff f (off % 2 ^ 32)) f (len % 2 ^ 32) 0).1 then
        ((addr : Int), (fileread (s.setOff f (off % 2 ^ 32)) f (len % 2 ^ 32) 0).2.2)
      else (-1, (fileread (s.setOff f (off % 2 ^ 32)) f (len % 2 ^ 32) 0).2.2)).2.file f).off =
        mapEnd (s.file f).readable (s.dirent ep) len off := by
      split
      · exact hend
      · exact hend
    constructor
    · omega
    · intro h
      have := h rfl
      omega

lemma pread_disciplined : Disciplined f s (.pread off n) := rfl

/-- A transfer that reads nothing leaves the position where the offset was. -/
theorem sendfile_disciplined (he : Entry s f ep) {other : Nat → Int}
    (h : Keeps f ep s (.sendfile outFile offset count clus other)) :
    Disciplined f s (.sendfile outFile offset count clus other) := by
  rcases h with ⟨hoffset, hnothing⟩
  have hself : s.setOff f offset = s := by
    unfold Sys.setOff Sys.setFile
    rw [hoffset]
    simp
  have hloop : (sendLoop f outFile clus other count s count 0).2 = s := by
    cases count with
    | zero => rfl
    | succ k =>
      unfold sendLoop
      rw [if_neg (by omega)]
      have hread : (fileread s f (min (k + 1) 512) (other k)).1 ≤ 0 ∧
          (fileread s f (min (k + 1) 512) (other k)).2.2 = s := by
        rcases hnothing with hzero | hnothing
        · omega
        · cases hread : (s.file f).readable with
          | false =>
            rw [fileread_of_not_readable hread]
            exact ⟨by omega, rfl⟩
          | true =>
            have hlen : (eread (s.dirent ep) (s.file f).off (min (k + 1) 512)).length = 0 := by
              rcases hnothing with hfalse | hlen
              · rw [hread] at hfalse
                cases hfalse
              · rw [← hoffset]
                exact hlen
            have hint : int ((0 : Nat) : Int) = 0 := by decide
            rw [fileread_fst he hread, fileread_state he hread, hlen, hint]
            exact ⟨by omega, if_neg (by omega)⟩
      dsimp only
      rw [if_neg (show ¬0 < (fileread s f (min (k + 1) 512) (other k)).1 by omega)]
      rw [if_pos (by omega)]
      exact hread.2
  unfold Disciplined step syscallSendFile
  dsimp only
  rw [hself, hloop]

lemma disciplined_of_keeps (ht : Typed s) (he : Entry s f ep) (ha : a.Typed) (h : Keeps f ep s a) :
    Disciplined f s a := by
  cases a with
  | read n other => exact (read_iff ht he ha).2 h
  | write bytes clus other => exact (write_iff he ha).2 h
  | lseek offset mode => exact lseek_iff.2 h
  | pread off n => exact pread_disciplined
  | mmap addr len anonymous off => exact (mmap_iff he).2 h
  | sendfile outFile offset count clus other => exact sendfile_disciplined he h

lemma keeps_of_disciplined (ht : Typed s) (he : Entry s f ep) (ha : a.Typed)
    (hnot : ∀ outFile offset count clus other, a ≠ .sendfile outFile offset count clus other)
    (h : Disciplined f s a) : Keeps f ep s a := by
  cases a with
  | read n other => exact (read_iff ht he ha).1 h
  | write bytes clus other => exact (write_iff he ha).1 h
  | lseek offset mode => exact lseek_iff.1 h
  | pread off n => exact trivial
  | mmap addr len anonymous off => exact (mmap_iff he).1 h
  | sendfile outFile offset count clus other => exact absurd rfl (hnot outFile offset count clus other)

/-! ## Every call keeps the widths and the types -/

/-- What is kept by writing `off` and by writing to a dirent is kept by the calls. -/
structure Stable (P : Sys → Prop) : Prop where
  off : ∀ {s f off}, P s → off < 2 ^ 32 → P (s.setOff f off)
  dirent : ∀ {s ep off bytes clus}, P s → P (s.setDirent ep (ewrite (s.dirent ep) off bytes clus).2)

lemma stable_typed : Stable Typed where
  off h hoff := setOff_typed h hoff
  dirent h := setDirent_typed h (ewrite_size (h.size _))

lemma stable_entry : Stable fun s => Entry s f ep where
  off h _ := setOff_entry h
  dirent h := h

namespace Stable

variable {P : Sys → Prop} (hP : Stable P)

include hP

lemma fileread (h : P s) : P (fileread s f n other).2.2 := by
  unfold Position.fileread
  dsimp only
  split
  · exact h
  · split
    · dsimp only
      split
      · exact hP.off h (Nat.mod_lt _ (by decide))
      · exact h
    · exact h

lemma filewrite (h : P s) : P (filewrite s f bytes clus other).2 := by
  unfold Position.filewrite
  dsimp only
  split
  · exact h
  · split
    · split
      · exact hP.off (hP.dirent h) (Nat.mod_lt _ (by decide))
      · exact hP.dirent h
    · exact h

lemma sendLoop {other : Nat → Int} {size : Nat} (h : P s) :
    P (sendLoop f outFile clus other fuel s count size).2 := by
  induction fuel generalizing s count size with
  | zero => exact h
  | succ fuel ih =>
    unfold Position.sendLoop
    split
    · exact h
    · dsimp only
      have hread : P (Position.fileread s f (min count 512) (other fuel)).2.2 := hP.fileread h
      generalize Position.fileread s f (min count 512) (other fuel) = rd at hread ⊢
      have hround : P (if 0 < rd.1 then Position.filewrite rd.2.2 outFile rd.2.1 clus (other fuel)
          else (rd.1, rd.2.2)).2 := by
        split
        · exact hP.filewrite hread
        · exact hread
      generalize (if 0 < rd.1 then Position.filewrite rd.2.2 outFile rd.2.1 clus (other fuel)
        else (rd.1, rd.2.2)) = wr at hround ⊢
      split
      · exact hround
      · exact ih hround

lemma step (h : P s) (ha : a.Typed) : P (step f s a).2 := by
  cases a with
  | read n other => exact hP.fileread h
  | write bytes clus other => exact hP.filewrite h
  | lseek offset mode =>
    unfold Position.step syscallLSeek
    dsimp only
    cases seekBase s f mode with
    | none => exact h
    | some base => exact hP.off h (Nat.mod_lt _ (by decide))
  | pread off n => exact h
  | mmap addr len anonymous off =>
    unfold Position.step doMmap
    dsimp only
    have hread : P (Position.fileread (s.setOff f (off % 2 ^ 32)) f (len % 2 ^ 32) 0).2.2 :=
      hP.fileread (hP.off h (Nat.mod_lt off (by decide)))
    split
    · exact h
    · split
      · exact hread
      · exact hread
  | sendfile outFile offset count clus other => exact hP.sendLoop (hP.off h ha.1)

end Stable

/-! ## The position of a program -/

/-- The position after a call with the result `r`, as a program computes it. -/
def posNext (f : Nat) (s : Sys) (pos : Nat) (a : Act) : Nat :=
  match a with
  | .read _ _ | .write _ _ _ => pos + (step f s a).1.toNat
  | .lseek offset mode =>
    let base := if mode = seekCur then some pos else seekBase s f mode
    match base with
    | none => pos
    | some base =>
      let target := base + long offset
      if 0 ≤ target ∧ target < 2 ^ 63 then target.toNat else pos
  | .pread _ _ | .mmap _ _ _ _ | .sendfile _ _ _ _ _ => pos

lemma seek_target {base off' v : Nat} (hoffset : offset < 2 ^ 64) (hbase : base < 2 ^ 32)
    (hv : (offset + base) % 2 ^ 64 = v)
    (h : (0 ≤ long v ∧ (off' : Int) = long v) ∨ (long v < 0 ∧ (off' : Int) = off)) :
    (if 0 ≤ base + long offset ∧ base + long offset < 2 ^ 63 then (base + long offset).toNat else off) = off' := by
  have hsum : (v < 2 ^ 63 ∧ long v = v) ∨ (2 ^ 63 ≤ v ∧ long v = v - 2 ^ 64) := by
    refine long_cases ?_
    rw [← hv]
    exact Nat.mod_lt _ (by decide)
  have hlong := long_cases hoffset
  split
  · omega
  · omega

lemma posNext_eq (ht : Typed s) (ha : a.Typed) (h : Disciplined f s a) :
    posNext f s (s.file f).off a = ((step f s a).2.file f).off := by
  have hmoves : ∀ r off off' : Int, 0 ≤ off → (0 ≤ r → off' = off + r) ∧ (r < 0 → off' = off) →
      off + r.toNat = off' := by
    omega
  cases a with
  | read n other =>
    have := hmoves _ _ _ (Int.natCast_nonneg _) h
    exact Int.ofNat_inj.1 this
  | write bytes clus other =>
    have := hmoves _ _ _ (Int.natCast_nonneg _) h
    exact Int.ofNat_inj.1 this
  | lseek offset mode =>
    have hbase : (if mode = seekCur then some (s.file f).off else seekBase s f mode) = seekBase s f mode := by
      split
      · rename_i hmode
        subst hmode
        rfl
      · rfl
    have hlt : ∀ base, seekBase s f mode = some base → base < 2 ^ 32 := by
      intro base hb
      unfold seekBase at hb
      split at hb
      · cases hb
        decide
      · split at hb
        · cases hb
          exact ht.off f
        · split at hb
          · rcases Option.map_eq_some_iff.1 hb with ⟨ep, _, rfl⟩
            exact ht.size ep
          · cases hb
    unfold Disciplined step syscallLSeek at h
    unfold posNext step syscallLSeek
    dsimp only at h ⊢
    rw [hbase]
    cases hb : seekBase s f mode with
    | none => rfl
    | some base =>
      have hoffset : offset < 2 ^ 64 := ha
      have hsmall := hlt base hb
      rw [hb] at h
      dsimp only at h ⊢
      exact seek_target hoffset hsmall rfl h
  | pread off n => rfl
  | mmap addr len anonymous off => exact (Int.ofNat_inj.1 h).symm
  | sendfile outFile offset count clus other => exact (Int.ofNat_inj.1 h).symm

/-- A call that meets the condition, and the position of the program. -/
def PStep (f ep : Nat) (x : Sys × Nat) (a : Act) (y : Sys × Nat) : Prop :=
  a.Typed ∧ Keeps f ep x.1 a ∧ y = ((step f x.1 a).2, posNext f x.1 x.2 a)

lemma off_eq_pos {x y : Sys × Nat} {acts : List Act} (ht : Typed x.1) (he : Entry x.1 f ep)
    (hpos : (x.1.file f).off = x.2) (h : Run (PStep f ep) x acts y) :
    Typed y.1 ∧ Entry y.1 f ep ∧ (y.1.file f).off = y.2 := by
  refine Run.invariant (P := fun y : Sys × Nat => Typed y.1 ∧ Entry y.1 f ep ∧ (y.1.file f).off = y.2) h
    ⟨ht, he, hpos⟩ ?_
  rintro ⟨s, pos⟩ a _ ⟨ht, he, hpos⟩ ⟨ha, hkeeps, rfl⟩
  dsimp only at ht he hpos hkeeps ⊢
  subst hpos
  refine ⟨stable_typed.step ht ha, stable_entry.step he ha, ?_⟩
  exact (posNext_eq ht ha (disciplined_of_keeps ht he ha hkeeps)).symm

/-- Calls that meet the condition are disciplined, and after any number of them a read gives the bytes at the position
that the program has computed.  Except for `sendfile` the condition is also necessary. -/
theorem position_discipline (f ep : Nat) (s₀ : Sys) (ht : Typed s₀) (he : Entry s₀ f ep) :
    (∀ a : Act, a.Typed → (Keeps f ep s₀ a → Disciplined f s₀ a) ∧
      ((∀ outFile offset count clus other, a ≠ .sendfile outFile offset count clus other) →
        Disciplined f s₀ a → Keeps f ep s₀ a)) ∧
    ∀ acts s pos, Run (PStep f ep) (s₀, (s₀.file f).off) acts (s, pos) →
      (s.file f).off = pos ∧ (∀ a : Act, a.Typed → Keeps f ep s a → Disciplined f s a) ∧
        ∀ n other, (s.file f).readable = true → (fileread s f n other).2.1 = eread (s.dirent ep) pos n := by
  refine ⟨fun a ha => ⟨disciplined_of_keeps ht he ha, keeps_of_disciplined ht he ha⟩, ?_⟩
  intro acts s pos hrun
  rcases off_eq_pos ht he rfl hrun with ⟨ht', he', hpos⟩
  dsimp only at ht' he' hpos
  refine ⟨hpos, fun a ha => disciplined_of_keeps ht' he' ha, ?_⟩
  intro n other hread
  rw [← hpos]
  exact fileread_bytes he' hread

/-! ## A file of ten bytes -/

lemma tenBytes_typed : Typed tenBytes := by
  constructor
  · intro _
    show 0 < 2 ^ 32
    decide
  · intro _
    show 10 < 2 ^ 32
    decide

lemma tenBytes_entry : Entry tenBytes 0 0 := ⟨rfl, rfl⟩

/-- A mapping of the first four bytes takes the position along: the next read gives bytes 4 to 7. -/
theorem mmap_moves_position : (tenBytes.file 0).off = 0 ∧
    ((step 0 tenBytes (.mmap 0x1000 4 false 0)).2.file 0).off = 4 ∧
    (fileread (step 0 tenBytes (.mmap 0x1000 4 false 0)).2 0 4 0).2.1 = [4, 5, 6, 7] ∧
    eread (tenBytes.dirent 0) 0 4 = [0, 1, 2, 3] ∧ ¬Disciplined 0 tenBytes (.mmap 0x1000 4 false 0) := by
  refine ⟨rfl, by decide, by decide, by decide, ?_⟩
  show ¬(((step 0 tenBytes (.mmap 0x1000 4 false 0)).2.file 0).off : Int) = (tenBytes.file 0).off
  decide

/-- After a read of four bytes and an `lseek` to byte 3, the next read begins there. -/
theorem position_after_seek : ∃ s, (step 0 (step 0 tenBytes (.read 4 0)).2 (.lseek 3 seekSet)).2 = s ∧
      (fileread s 0 2 0).2.1 = eread (s.dirent 0) 3 2 := by
  have hread : PStep 0 0 (tenBytes, 0) (.read 4 0) ((step 0 tenBytes (.read 4 0)).2, 4) := by
    refine ⟨show 4 < 2 ^ 32 by decide, fun _ => trivial, ?_⟩
    have hpos : posNext 0 tenBytes 0 (.read 4 0) = 4 := by decide
    rw [hpos]
  have hseek : PStep 0 0 ((step 0 tenBytes (.read 4 0)).2, 4) (.lseek 3 seekSet)
      ((step 0 (step 0 tenBytes (.read 4 0)).2 (.lseek 3 seekSet)).2, 3) := by
    refine ⟨show 3 < 2 ^ 64 by decide, ?_, ?_⟩
    · intro base hbase
      cases hbase
      exact .inl (by decide)
    · have hpos : posNext 0 (step 0 tenBytes (.read 4 0)).2 4 (.lseek 3 seekSet) = 3 := by decide
      rw [hpos]
  have hrun := (Run.nil (tenBytes, 0)).snoc hread |>.snoc hseek
  exact ⟨_, rfl, ((position_discipline 0 0 tenBytes tenBytes_typed tenBytes_entry).2 _ _ _ hrun).2.2 2 0 (by decide)⟩

end Position
end OsRiscv
