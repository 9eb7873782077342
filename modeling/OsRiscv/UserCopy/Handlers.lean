import OsRiscv.Lib.Word
import OsRiscv.UserCopy.Copy

/-!
# Handlers — system calls that copy to objects of a fixed size

`rt_sigprocmask`, `rt_sigtimedwait`, `bind`, `connect` and `sendto` of `Syscall.c`, `write` on a socket, `mount` and
`umount`, up to the last store to one of their buffers.  Some of them pass a length or a limit that has nothing to do
with the size of the buffer.
-/

namespace OsRiscv
namespace UserCopy

open Lib Exec

/-- The buffers, by the function they belong to. -/
inductive Object
  | sigprocmaskSet
  | timedwaitTs
  | timedwaitSet
  | timedwaitInfo
  | bindAddr
  | connectAddr
  | sendtoAddr
  | sendtoBuf
  | socketWriteBuf
  | mountType
  | mountImagePath
  | mountPath
  | mountData
  | umountPath
  deriving DecidableEq, Repr

def sizeofSignalSet : Nat := 128
def sizeofTimeSpec : Nat := 16
def sizeofSignalInfo : Nat := 128
def sizeofSocketAddr : Nat := 32

def Object.size : Object → Nat
  | .sigprocmaskSet | .timedwaitSet => sizeofSignalSet
  | .timedwaitTs => sizeofTimeSpec
  | .timedwaitInfo => sizeofSignalInfo
  | .bindAddr | .connectAddr | .sendtoAddr => sizeofSocketAddr
  | .sendtoBuf => pageSize
  | .socketWriteBuf => pageSize * 10
  | .mountType | .mountData => 10
  | .mountImagePath | .mountPath | .umountPath => fat32MaxFilename

/-- The registers with the arguments. -/
structure Regs where
  a0 : Nat
  a1 : Nat
  a2 : Nat
  a3 : Nat
  a4 : Nat
  a5 : Nat

/-- They have 64 bits. -/
structure Regs.Typed (r : Regs) : Prop where
  a0 : r.a0 < 2 ^ 64
  a1 : r.a1 < 2 ^ 64
  a2 : r.a2 < 2 ^ 64
  a3 : r.a3 < 2 ^ 64
  a4 : r.a4 < 2 ^ 64
  a5 : r.a5 < 2 ^ 64

/-- What else a call depends on: the memory of the process, which paths `ename` finds, whether there is a `File` at
`ofile[fd]`, and whether that is a socket open for writing. -/
structure Env where
  user : User
  found : List UInt8 → Bool
  file : Nat → Bool
  socket : Nat → Bool

abbrev Handler := Copying Object Unit

def copyTo (e : Env) (dst : Object) (src len : Nat) : Handler := copyin e.user dst src len

def fetchstr (e : Env) (dst : Object) (src max : Nat) : Copying Object (Option (List UInt8)) :=
  copyinstr e.user dst max 0 src

/-! ## The calls -/

def syscallSignProccessMask (e : Env) (r : Regs) : Handler := copyTo e .sigprocmaskSet r.a1 r.a3

def syscallSignalTimedWait (e : Env) (r : Regs) : Handler := do
  if r.a2 ≠ 0 then copyTo e .timedwaitTs r.a2 sizeofTimeSpec else pure ()
  copyTo e .timedwaitSet r.a0 r.a3
  copyTo e .timedwaitInfo r.a0 sizeofSignalInfo

def syscallBind (e : Env) (r : Regs) : Handler := copyTo e .bindAddr r.a1 r.a2

def syscallConnect (e : Env) (r : Regs) : Handler := copyTo e .connectAddr r.a1 r.a2

/-- The first statement of `sendTo`: `buf[len] = 0`. -/
def sendTo (buf : Object) (len : Nat) : Handler := Trace.emit ⟨buf, len, 1⟩

def syscallSendTo (e : Env) (r : Regs) : Handler :=
  if r.a5 ≠ sizeofSocketAddr then
    Trace.stop .assertion
  else do
    copyTo e .sendtoAddr r.a4 sizeofSocketAddr
    copyTo e .sendtoBuf r.a1 (min r.a2 pageSize)
    if e.file r.a0 = false then Trace.stop .wildPointer else sendTo .sendtoBuf (r.a2 % 2 ^ 32)

/-- `syscallWrite`, if the descriptor is a socket open for writing: `filewrite` calls `socket_write`. -/
def syscallWrite (e : Env) (r : Regs) : Handler :=
  let len := int r.a2
  if e.socket r.a0 = false ∨ len < 0 then
    pure ()
  else do
    copyTo e .socketWriteBuf r.a1 len.toNat
    sendTo .socketWriteBuf len.toNat

/-- `strncmp(type, "vfat", 4) == 0` -/
def isVfat (type : List UInt8) : Bool := type.take 4 = [0x76, 0x66, 0x61, 0x74]

def syscallMount (e : Env) (r : Regs) : Handler := do
  match ← fetchstr e .mountType r.a2 10 with
  | none => return ()
  | some type =>
    if isVfat type = false then
      return ()
    else do
      match ← fetchstr e .mountImagePath r.a0 fat32MaxPath with
      | none => return ()
      | some imagePath =>
        if e.found imagePath = false then
          return ()
        else do
          match ← fetchstr e .mountPath r.a1 fat32MaxPath with
          | none => return ()
          | some mountPath =>
            if e.found mountPath = false then
              return ()
            else if r.a4 = 0 then
              return ()
            else do
              let _ ← fetchstr e .mountData r.a4 10
              return ()

def syscallUmount (e : Env) (r : Regs) : Handler := do
  let _ ← fetchstr e .umountPath r.a0 fat32MaxPath
  return ()

inductive Syscall
  | sigprocmask
  | sigtimedwait
  | bind
  | connect
  | sendto
  | write
  | mount
  | umount

def handler (e : Env) (r : Regs) : Syscall → Handler
  | .sigprocmask => syscallSignProccessMask e r
  | .sigtimedwait => syscallSignalTimedWait e r
  | .bind => syscallBind e r
  | .connect => syscallConnect e r
  | .sendto => syscallSendTo e r
  | .write => syscallWrite e r
  | .mount => syscallMount e r
  | .umount => syscallUmount e r

/-! ## The condition -/

/-- `len` bytes fit in the object, or the kernel panics on the way. -/
def Fits (e : Env) (dst : Object) (src len : Nat) : Prop := len ≤ dst.size ∨ ¬Readable e.user src (dst.size + 1)

/-- The text fits in the object with its end, or the kernel panics on the way. -/
def TextFits (e : Env) (dst : Object) (src max : Nat) : Prop := max ≤ dst.size ∨ Ends e.user src dst.size

def text (e : Env) (src max : Nat) : Except Stop (Option (List UInt8)) := userText e.user max src

/-- What has to hold of the arguments. -/
def Bounded (e : Env) (r : Regs) : Syscall → Prop
  | .sigprocmask => Fits e .sigprocmaskSet r.a1 r.a3
  | .sigtimedwait => (r.a2 ≠ 0 ∧ ¬Readable e.user r.a2 sizeofTimeSpec) ∨ Fits e .timedwaitSet r.a0 r.a3
  | .bind => Fits e .bindAddr r.a1 r.a2
  | .connect => Fits e .connectAddr r.a1 r.a2
  | .sendto => r.a5 = sizeofSocketAddr → Readable e.user r.a4 sizeofSocketAddr →
      Readable e.user r.a1 (min r.a2 pageSize) → e.file r.a0 = true → r.a2 % 2 ^ 32 < pageSize
  | .write => e.socket r.a0 = true → 0 ≤ int r.a2 →
      Fits e .socketWriteBuf r.a1 (int r.a2).toNat ∧
        (Readable e.user r.a1 (int r.a2).toNat → (int r.a2).toNat < pageSize * 10)
  | .mount => ∀ type, text e r.a2 10 = .ok (some type) → isVfat type = true →
      TextFits e .mountImagePath r.a0 fat32MaxPath ∧
        ∀ imagePath, text e r.a0 fat32MaxPath = .ok (some imagePath) → e.found imagePath = true →
          TextFits e .mountPath r.a1 fat32MaxPath
  | .umount => TextFits e .umountPath r.a0 fat32MaxPath

/-- Every store of the call is in the object it is made to. -/
def Safe {α : Type} (x : Copying Object α) : Prop := x.All (InObject Object.size)

variable {e : Env} {r : Regs} {dst : Object} {src len max : Nat} {α β : Type}

/-! ## The parts of a call -/

lemma safe_pure (a : α) : Safe (pure a : Copying Object α) := Trace.all_pure a

lemma safe_stop (stop : Stop) : Safe (Trace.stop stop : Copying Object α) := Trace.all_stop stop

lemma safe_copyTo (hsrc : src < 2 ^ 64) : Safe (copyTo e dst src len) ↔ Fits e dst src len := copyin_all hsrc

lemma safe_copyTo_bind (hsrc : src < 2 ^ 64) {f : Unit → Copying Object β} :
    Safe (copyTo e dst src len >>= f) ↔ Fits e dst src len ∧ (Readable e.user src len → Safe (f ())) := by
  unfold Safe
  rw [Trace.all_bind]
  refine and_congr (copyin_all hsrc) ?_
  constructor
  · intro h hread
    exact h () ((copyin_ok_iff hsrc).2 hread)
  · intro h _ hok
    exact h ((copyin_ok_iff hsrc).1 hok)

lemma safe_fetchstr_bind (hsrc : src < 2 ^ 64) {f : Option (List UInt8) → Copying Object β} :
    Safe (fetchstr e dst src max >>= f) ↔
      TextFits e dst src max ∧ ∀ t, text e src max = .ok t → Safe (f t) := by
  unfold Safe fetchstr
  rw [Trace.all_bind, copyinstr_all hsrc (Nat.zero_le _), copyinstr_result, Nat.zero_add, Nat.sub_zero]
  rfl

lemma safe_sendTo : Safe (sendTo dst len) ↔ len < dst.size := Trace.all_emit _

lemma fits_of_le (h : len ≤ dst.size) : Fits e dst src len := .inl h

lemma textFits_of_le (h : max ≤ dst.size) : TextFits e dst src max := .inl h

/-! ## The calls -/

lemma sigtimedwait_iff (hr : r.Typed) : Safe (syscallSignalTimedWait e r) ↔ Bounded e r .sigtimedwait := by
  have hrest : Safe (copyTo e .timedwaitSet r.a0 r.a3 >>= fun _ => copyTo e .timedwaitInfo r.a0 sizeofSignalInfo) ↔
      Fits e .timedwaitSet r.a0 r.a3 := by
    rw [safe_copyTo_bind hr.a0, safe_copyTo hr.a0]
    exact and_iff_left fun _ => fits_of_le (Nat.le_refl _)
  have hfits : Fits e .timedwaitTs r.a2 sizeofTimeSpec := fits_of_le (Nat.le_refl _)
  unfold syscallSignalTimedWait Bounded
  by_cases hts : r.a2 = 0
  · rw [if_neg (by simpa using hts)]
    refine hrest.trans ?_
    constructor
    · exact .inr
    · rintro (⟨hne, _⟩ | hfits)
      · exact absurd hts hne
      · exact hfits
  · rw [if_pos hts, safe_copyTo_bind hr.a2, hrest, and_iff_right hfits]
    constructor
    · intro h
      by_cases hread : Readable e.user r.a2 sizeofTimeSpec
      · exact .inr (h hread)
      · exact .inl ⟨hts, hread⟩
    · rintro (⟨_, hnot⟩ | hfits) hread
      · exact absurd hread hnot
      · exact hfits

lemma sendto_iff (hr : r.Typed) : Safe (syscallSendTo e r) ↔ Bounded e r .sendto := by
  unfold syscallSendTo Bounded
  by_cases haddr : r.a5 = sizeofSocketAddr
  · have hfits : Fits e .sendtoAddr r.a4 sizeofSocketAddr := fits_of_le (Nat.le_refl _)
    have hbuf : Fits e .sendtoBuf r.a1 (min r.a2 pageSize) := fits_of_le (Nat.min_le_right _ _)
    rw [if_neg (by simpa using haddr), safe_copyTo_bind hr.a4, and_iff_right hfits, safe_copyTo_bind hr.a1,
      and_iff_right hbuf]
    cases hfile : e.file r.a0 with
    | false =>
      exact iff_of_true (fun _ _ => safe_stop _) fun _ _ _ h => by cases h
    | true =>
      rw [if_neg (by simp), safe_sendTo]
      constructor
      · intro h _ hread hread' _
        exact h hread hread'
      · intro h hread hread'
        exact h haddr hread hread' rfl
  · rw [if_pos haddr]
    exact iff_of_true (safe_stop _) fun h => absurd h haddr

lemma write_iff (hr : r.Typed) : Safe (syscallWrite e r) ↔ Bounded e r .write := by
  unfold syscallWrite Bounded
  by_cases hskip : e.socket r.a0 = false ∨ int r.a2 < 0
  · rw [if_pos hskip]
    refine iff_of_true (safe_pure _) fun hsocket hlen => ?_
    rcases hskip with hfalse | hneg
    · rw [hsocket] at hfalse
      cases hfalse
    · omega
  · rcases not_or.1 hskip with ⟨hsocket, hlen⟩
    rw [if_neg hskip, safe_copyTo_bind hr.a1, safe_sendTo]
    constructor
    · intro h _ _
      exact h
    · intro h
      exact h (by simpa using hsocket) (by omega)

lemma mount_iff (hr : r.Typed) : Safe (syscallMount e r) ↔ Bounded e r .mount := by
  -- the last part: the path of the directory, and the data
  have hpath : Safe (fetchstr e .mountPath r.a1 fat32MaxPath >>= fun t => match t with
      | none => pure ()
      | some mountPath =>
        if e.found mountPath = false then pure ()
        else if r.a4 = 0 then pure ()
        else do
          let _ ← fetchstr e .mountData r.a4 10
          pure ()) ↔ TextFits e .mountPath r.a1 fat32MaxPath := by
    rw [safe_fetchstr_bind hr.a1]
    refine and_iff_left fun t _ => ?_
    cases t with
    | none => exact safe_pure _
    | some mountPath =>
      dsimp only
      split
      · exact safe_pure _
      · split
        · exact safe_pure _
        · rw [safe_fetchstr_bind hr.a4]
          exact ⟨textFits_of_le (Nat.le_refl _), fun _ _ => safe_pure _⟩
  have htype : TextFits e .mountType r.a2 10 := textFits_of_le (Nat.le_refl _)
  unfold syscallMount Bounded
  rw [safe_fetchstr_bind hr.a2, and_iff_right htype]
  constructor
  · intro h type ht hvfat
    have himage := h _ ht
    dsimp only at himage
    rw [if_neg (by simp [hvfat]), safe_fetchstr_bind hr.a0] at himage
    refine ⟨himage.1, fun imagePath hpathname hfound => ?_⟩
    have hrest := himage.2 _ hpathname
    dsimp only at hrest
    rw [if_neg (by simp [hfound])] at hrest
    exact hpath.1 hrest
  · intro h t ht
    cases t with
    | none => exact safe_pure _
    | some type =>
      dsimp only
      cases hvfat : isVfat type with
      | false =>
        exact safe_pure _
      | true =>
        rcases h type ht hvfat with ⟨hfits, hrest⟩
        rw [if_neg (by simp), safe_fetchstr_bind hr.a0]
        refine ⟨hfits, fun t ht => ?_⟩
        cases t with
        | none => exact safe_pure _
        | some imagePath =>
          dsimp only
          cases hfound : e.found imagePath with
          | false =>
            exact safe_pure _
          | true =>
            exact hpath.2 (hrest imagePath ht hfound)

lemma umount_iff (hr : r.Typed) : Safe (syscallUmount e r) ↔ Bounded e r .umount := by
  unfold syscallUmount Bounded
  rw [safe_fetchstr_bind hr.a0]
  exact and_iff_left fun _ _ => safe_pure _

/-- For all arguments, memories and states: the stores of a call stay in their objects exactly if the arguments meet the
condition. -/
theorem stores_in_object_iff (e : Env) (r : Regs) (hr : r.Typed) (c : Syscall) :
    Safe (handler e r c) ↔ Bounded e r c := by
  cases c with
  | sigprocmask => exact safe_copyTo hr.a1
  | sigtimedwait => exact sigtimedwait_iff hr
  | bind => exact safe_copyTo hr.a1
  | connect => exact safe_copyTo hr.a1
  | sendto => exact sendto_iff hr
  | write => exact write_iff hr
  | mount => exact mount_iff hr
  | umount => exact umount_iff hr

/-- A process whose memory is all there. -/
def zeroEnv : Env :=
  { user := fun _ => some fun _ => 0, found := fun _ => true, file := fun _ => true, socket := fun _ => true }

/-- The descriptor 3, an address, and a length in `a2`. -/
def regs (len : Nat) : Regs := { a0 := 3, a1 := 0x2000, a2 := len, a3 := 0, a4 := 0x3000, a5 := sizeofSocketAddr }

lemma regs_typed {len : Nat} (h : len < 2 ^ 64) : (regs len).Typed :=
  ⟨by show 3 < _; decide, by show 0x2000 < _; decide, h, by show 0 < _; decide, by show 0x3000 < _; decide,
    by show sizeofSocketAddr < _; decide⟩

/-- `bind` with an address of 40 bytes writes 40 bytes to an object of 32, and `sendto` with a page of data stores the
byte behind its buffer. -/
theorem bind_and_sendto_overrun : (⟨.bindAddr, 0, 40⟩ : Store Object) ∈ (handler zeroEnv (regs 40) .bind).log ∧
    ¬InObject Object.size ⟨.bindAddr, 0, 40⟩ ∧
    (⟨.sendtoBuf, 4096, 1⟩ : Store Object) ∈ (handler zeroEnv (regs 4096) .sendto).log ∧
    ¬InObject Object.size ⟨.sendtoBuf, 4096, 1⟩ := by
  refine ⟨?_, ?_, ?_, ?_⟩
  · exact List.mem_singleton.2 rfl
  · show ¬0 + 40 ≤ 32
    decide
  · have hlog : (handler zeroEnv (regs 4096) .sendto).log =
        [⟨.sendtoAddr, 0, 32⟩, ⟨.sendtoBuf, 0, 4096⟩, ⟨.sendtoBuf, 4096, 1⟩] := rfl
    rw [hlog]
    simp
  · show ¬4096 + 1 ≤ 4096
    decide

/-- `bind` with an address of 16 bytes. -/
theorem bind_sixteen_safe : Safe (handler zeroEnv (regs 16) .bind) :=
  (stores_in_object_iff zeroEnv (regs 16) (regs_typed (by decide)) .bind).2 (.inl (by decide))

end UserCopy
end OsRiscv
