import OsRiscv.Lib.Run
import OsRiscv.Position.Model

/-!
# Append — writers with `O_APPEND`

`O_APPEND` is used once, when the file is opened: `off` becomes the size of the file.  After that each file has a
position of its own, and a file whose position has been left behind by another writer overwrites what that one wrote.
-/

namespace OsRiscv
namespace Position

open Lib List OsRiscv.Tree

/-! ## Writers of one file -/

inductive AppendAct
  | open (f flags : Nat)
  | write (f : Nat) (bytes : List UInt8) (clus : Nat)

/-- The system, with a history of the writers of one dirent: the files that were opened with `O_APPEND`, those for which
another file has written since they were opened or have written themselves, the bytes of the writes that succeeded, and
whether no stale file has written. -/
structure Writers where
  sys : Sys
  opened : List Nat
  stale : Nat → Bool
  written : List UInt8
  orderly : Bool

def Writers.start (s : Sys) : Writers := ⟨s, [], fun _ => false, [], true⟩

/-- An `open` with `O_APPEND` and without `O_TRUNC`, or a write to a file that has been opened this way. -/
def appendStep (ep : Nat) (w : Writers) : AppendAct → Option Writers
  | .open f flags =>
    if flags &&& oAppend ≠ 0 ∧ flags &&& oTrunc = 0 then
      some { w with
        sys := openAt w.sys f ep flags
        opened := f :: w.opened
        stale := Function.update w.stale f false }
    else
      none
  | .write f bytes clus =>
    if f ∈ w.opened ∧ bytes.length < 2 ^ 31 then
      let r := filewrite w.sys f bytes clus 0
      if 0 ≤ r.1 ∧ bytes ≠ [] then
        some { w with
          sys := r.2
          stale := fun g => if g = f then w.stale f else true
          written := w.written ++ bytes
          orderly := w.orderly && !w.stale f }
      else
        some { w with sys := r.2 }
    else
      none

def content (d : Dirent) : List UInt8 := slice d.data 0 d.fileSize

variable {s : Sys} {f ep off clus flags : Nat} {d : Dirent} {bytes : List UInt8} {other : Int} {w w' : Writers}
  {a : AppendAct} {c : List UInt8} {d' : Dirent}

/-! ## One write -/

lemma ewrite_cases (hdev : d.dev ≠ .none) (off : Nat) (bytes : List UInt8) (clus : Nat) :
    ewrite d off bytes clus = (-1, d) ∨
      ∃ d' : Dirent, ewrite d off bytes clus = ((bytes.length : Int), d') ∧ off + bytes.length < 2 ^ 32 ∧ d'.dev = d.dev ∧
        d'.data = overlay d.data off bytes ∧
        d'.fileSize = if bytes.length > 0 then max d.fileSize (off + bytes.length) else d.fileSize := by
  unfold ewrite
  rw [if_neg hdev]
  split
  · exact .inl rfl
  · exact .inr ⟨_, rfl, by omega, rfl, rfl, rfl⟩

lemma filewrite_cases (he : Entry s f ep) (hdev : (s.dirent ep).dev ≠ .none) (hlen : bytes.length < 2 ^ 31)
    (clus : Nat) (other : Int) : ((filewrite s f bytes clus other).1 < 0 ∧ (filewrite s f bytes clus other).2 = s) ∨
      ∃ d' : Dirent, (filewrite s f bytes clus other).1 = bytes.length ∧
        (filewrite s f bytes clus other).2 = (s.setDirent ep d').setOff f ((s.file f).off + bytes.length) ∧
        (s.file f).off + bytes.length < 2 ^ 32 ∧ d'.dev = (s.dirent ep).dev ∧
        d'.data = overlay (s.dirent ep).data (s.file f).off bytes ∧
        d'.fileSize = if bytes.length > 0 then max (s.dirent ep).fileSize ((s.file f).off + bytes.length)
          else (s.dirent ep).fileSize := by
  cases hwrite : (s.file f).writable with
  | false =>
    rw [filewrite_of_not_writable hwrite]
    exact .inl ⟨by omega, rfl⟩
  | true =>
    have hint : int bytes.length = bytes.length := int_of_lt (by omega) (by omega)
    rcases ewrite_cases hdev (s.file f).off bytes clus with hw | ⟨d', hw, hroom, hdev', hdata, hsize⟩
    · have hone : int (-1) = -1 := by decide
      rw [filewrite_eq he hwrite hw, hint, hone, if_neg (by omega)]
      refine .inl ⟨by omega, ?_⟩
      unfold Sys.setDirent
      rw [Function.update_eq_self]
    · rw [filewrite_eq he hwrite hw, if_pos rfl, hint, Nat.mod_eq_of_lt hroom]
      exact .inr ⟨d', rfl, rfl, hroom, hdev', hdata, hsize⟩

/-! ## The writers -/

/-- `c` is the content before the first write. -/
structure AppendInv (ep : Nat) (c : List UInt8) (w : Writers) : Prop where
  dev : (w.sys.dirent ep).dev ≠ .none
  entry : ∀ f ∈ w.opened, Entry w.sys f ep
  bound : ∀ f ∈ w.opened, (w.sys.file f).off ≤ (w.sys.dirent ep).fileSize
  content : w.orderly = true → content (w.sys.dirent ep) = c ++ w.written
  stale : w.orderly = true → ∀ f ∈ w.opened, (w.stale f = true ↔ (w.sys.file f).off < (w.sys.dirent ep).fileSize)
  -- once a stale file has written, the file is shorter than what has been written to it
  short : w.orderly = false → (w.sys.dirent ep).fileSize < c.length + w.written.length

lemma length_content : (content d).length = d.fileSize := length_slice

lemma content_append (hdata : d'.data = overlay d.data d.fileSize bytes)
    (hsize : d'.fileSize = d.fileSize + bytes.length) : content d' = content d ++ bytes := by
  unfold content
  rw [hsize, hdata, slice_add, slice_overlay_of_disjoint (by omega), Nat.zero_add, slice_overlay_self]

lemma openAt_eq (s : Sys) (f ep : Nat) (htrunc : flags &&& oTrunc = 0) (happend : flags &&& oAppend ≠ 0) :
    (openAt s f ep flags).dirent = s.dirent ∧ Entry (openAt s f ep flags) f ep ∧
      ((openAt s f ep flags).file f).off = (s.dirent ep).fileSize ∧
      ∀ g, g ≠ f → (openAt s f ep flags).file g = s.file g := by
  have hd : (if (s.dirent ep).isDir = false ∧ flags &&& oTrunc ≠ 0 then etrunc (s.dirent ep) else s.dirent ep) =
      s.dirent ep := if_neg fun h => h.2 htrunc
  unfold openAt Entry Sys.setFile Sys.setDirent
  dsimp only
  rw [hd, if_pos happend, Function.update_eq_self]
  refine ⟨rfl, ?_, ?_, ?_⟩
  · simp
  · simp
  · intro g hg
    simp [hg]

section

variable (hi : AppendInv ep c w)
include hi

lemma AppendInv.congr (hdev : (s.dirent ep).dev = (w.sys.dirent ep).dev)
    (hcontent : Position.content (s.dirent ep) = Position.content (w.sys.dirent ep))
    (hentry : ∀ f ∈ w.opened, Entry s f ep) (hoff : ∀ f, (s.file f).off = (w.sys.file f).off) :
    AppendInv ep c { w with sys := s } := by
  have hsize : (s.dirent ep).fileSize = (w.sys.dirent ep).fileSize := by
    rw [← length_content, hcontent, length_content]
  refine ⟨by rw [hdev]; exact hi.dev, hentry, fun f hf => ?_, fun ho => ?_, fun ho f hf => ?_, fun ho => ?_⟩
  · rw [hoff, hsize]
    exact hi.bound f hf
  · rw [hcontent]
    exact hi.content ho
  · rw [hoff, hsize]
    exact hi.stale ho f hf
  · rw [hsize]
    exact hi.short ho

lemma open_inv (htrunc : flags &&& oTrunc = 0) (happend : flags &&& oAppend ≠ 0) :
    AppendInv ep c { w with
      sys := openAt w.sys f ep flags
      opened := f :: w.opened
      stale := Function.update w.stale f false } := by
  rcases openAt_eq w.sys f ep htrunc happend with ⟨hdirent, hentry, hoff, hother⟩
  have hfile : ∀ g ∈ f :: w.opened, g ≠ f → g ∈ w.opened := by
    intro g hg hne
    rcases mem_cons.1 hg with rfl | hg
    · exact absurd rfl hne
    · exact hg
  refine ⟨?_, ?_, ?_, ?_, ?_, ?_⟩
  · rw [hdirent]
    exact hi.dev
  · intro g hg
    by_cases hne : g = f
    · rw [hne]
      exact hentry
    · unfold Entry
      rw [hother g hne]
      exact hi.entry g (hfile g hg hne)
  · intro g hg
    rw [hdirent]
    by_cases hne : g = f
    · rw [hne]
      exact Nat.le_of_eq hoff
    · rw [hother g hne]
      exact hi.bound g (hfile g hg hne)
  · intro ho
    rw [hdirent]
    exact hi.content ho
  · intro ho g hg
    dsimp only
    rw [hdirent]
    by_cases hne : g = f
    · rw [hne, hoff, Function.update_self]
      simp
    · rw [hother g hne, Function.update_of_ne hne]
      exact hi.stale ho g (hfile g hg hne)
  · intro ho
    rw [hdirent]
    exact hi.short ho

lemma write_inv (hf : f ∈ w.opened) (hbytes : bytes ≠ [])
    (hdev : d'.dev = (w.sys.dirent ep).dev)
    (hdata : d'.data = overlay (w.sys.dirent ep).data (w.sys.file f).off bytes)
    (hsize : d'.fileSize = max (w.sys.dirent ep).fileSize ((w.sys.file f).off + bytes.length)) :
    AppendInv ep c { w with
      sys := (w.sys.setDirent ep d').setOff f ((w.sys.file f).off + bytes.length)
      stale := fun g => if g = f then w.stale f else true
      written := w.written ++ bytes
      orderly := w.orderly && !w.stale f } := by
  have hpos : 0 < bytes.length := length_pos_iff.2 hbytes
  have hd' : ((w.sys.setDirent ep d').setOff f ((w.sys.file f).off + bytes.length)).dirent ep = d' := by
    simp [Sys.setDirent]
  have hoff : ∀ g, g ≠ f → (((w.sys.setDirent ep d').setOff f ((w.sys.file f).off + bytes.length)).file g).off =
      (w.sys.file g).off := by
    intro g hg
    simp [Sys.setOff, Sys.setFile, hg]
  have hbound := hi.bound f hf
  refine ⟨?_, ?_, ?_, ?_, ?_, ?_⟩
  · rw [hd', hdev]
    exact hi.dev
  · intro g hg
    exact setOff_entry (hi.entry g hg)
  · intro g hg
    rw [hd', hsize]
    by_cases hne : g = f
    · rw [hne, setOff_off]
      omega
    · have := hi.bound g hg
      rw [hoff g hne]
      omega
  · intro ho
    rcases Bool.and_eq_true_iff.1 ho with ⟨ho, hstale⟩
    -- the file that writes is not stale: it is at the end
    have hend : (w.sys.file f).off = (w.sys.dirent ep).fileSize := by
      have hnot := (not_congr (hi.stale ho f hf)).1 (by simpa using hstale)
      omega
    have happend : content d' = content (w.sys.dirent ep) ++ bytes :=
      content_append (by rw [hdata, hend]) (by omega)
    rw [hd', happend, hi.content ho, append_assoc]
  · intro ho g hg
    rcases Bool.and_eq_true_iff.1 ho with ⟨ho, hstale⟩
    have hnot := (not_congr (hi.stale ho f hf)).1 (by simpa using hstale)
    dsimp only
    rw [hd', hsize]
    by_cases hne : g = f
    · rw [if_pos hne, hne, setOff_off]
      have hfalse : w.stale f = false := by simpa using hstale
      rw [hfalse]
      constructor
      · intro h
        cases h
      · omega
    · have := hi.bound g hg
      rw [if_neg hne, hoff g hne]
      constructor
      · omega
      · intro _
        rfl
  · intro ho
    rw [hd', hsize, length_append]
    cases hw : w.orderly with
    | false =>
      have := hi.short hw
      omega
    | true =>
      -- a stale file writes: it begins before the end
      rw [hw] at ho
      have hstale : w.stale f = true := by simpa using ho
      have hlt := (hi.stale hw f hf).1 hstale
      have hlen : (w.sys.dirent ep).fileSize = c.length + w.written.length := by
        rw [← length_content, hi.content hw, length_append]
      omega

lemma appendStep_inv (h : appendStep ep w a = some w') : AppendInv ep c w' := by
  cases a with
  | «open» f flags =>
    unfold appendStep at h
    dsimp only at h
    split at h
    · rename_i hflags
      cases h
      exact open_inv hi hflags.2 hflags.1
    · cases h
  | write f bytes clus =>
    unfold appendStep at h
    dsimp only at h
    split at h
    · rename_i hguard
      rcases hguard with ⟨hf, hlen⟩
      rcases filewrite_cases (hi.entry f hf) hi.dev hlen clus 0 with
        ⟨hneg, hsame⟩ | ⟨d', hr, hs, _, hdev, hdata, hsize⟩
      · rw [if_neg (by omega), hsame] at h
        cases h
        exact hi
      · rw [hr, hs] at h
        by_cases hbytes : bytes = []
        · -- a write of nothing leaves the bytes, the size and the position as they are
          subst hbytes
          cases h
          rw [overlay_nil] at hdata
          rw [if_neg (by simp)] at hsize
          have hd' : ∀ o, ((w.sys.setDirent ep d').setOff f o).dirent ep = d' := by
            simp [Sys.setDirent]
          refine hi.congr (by rw [hd', hdev]) ?_ (fun g hg => setOff_entry (hi.entry g hg)) fun g => ?_
          · rw [hd']
            unfold content
            rw [hdata, hsize]
          · by_cases hne : g = f
            · rw [hne, setOff_off]
              rfl
            · simp [Sys.setOff, Sys.setFile]
        · have hpos : 0 < bytes.length := length_pos_iff.2 hbytes
          rw [if_pos ⟨by omega, hbytes⟩] at h
          cases h
          rw [if_pos hpos] at hsize
          exact write_inv hi hf hbytes hdev hdata hsize
    · cases h

end

/-! ## Every interleaving -/

/-- After any interleaving of opens and writes, the content is what was there before with the buffers behind it exactly
if no file has written after another one has written behind its back. -/
theorem appends_in_order_iff (ep : Nat) (s : Sys) (hdev : (s.dirent ep).dev ≠ .none) (acts : List AppendAct)
    (w : Writers) (hrun : Run (fun w a w' => appendStep ep w a = some w') (Writers.start s) acts w) :
    content (w.sys.dirent ep) = content (s.dirent ep) ++ w.written ↔ w.orderly = true := by
  have hstart : AppendInv ep (content (s.dirent ep)) (Writers.start s) := by
    refine ⟨hdev, fun f hf => ?_, fun f hf => ?_, fun _ => ?_, fun _ f hf => ?_, fun ho => ?_⟩
    · cases hf
    · cases hf
    · exact (append_nil _).symm
    · cases hf
    · cases ho
  have hinv := Run.invariant hrun hstart
    fun _ _ _ hi hs => appendStep_inv hi hs
  constructor
  · intro heq
    cases ho : w.orderly with
    | true => rfl
    | false =>
      have hshort := hinv.short ho
      rw [← length_content, heq, length_append] at hshort
      omega
  · exact hinv.content

/-- `O_WRONLY | O_APPEND` -/
def appendFlags : Nat := oWronly ||| oAppend

/-- Two files are opened, then both write a byte: the second byte is written over the first. -/
theorem append_overwrites : ∃ w, Run (fun w a w' => appendStep 0 w a = some w') (Writers.start tenBytes)
      [.open 0 appendFlags, .open 1 appendFlags, .write 0 [97] 0, .write 1 [98] 0] w ∧
    w.written = [97, 98] ∧ content (w.sys.dirent 0) = [0, 1, 2, 3, 4, 5, 6, 7, 8, 9, 98] ∧
    content (w.sys.dirent 0) ≠ content (tenBytes.dirent 0) ++ w.written := by
  refine exists_run (P := fun w => w.written = [97, 98] ∧
    content (w.sys.dirent 0) = [0, 1, 2, 3, 4, 5, 6, 7, 8, 9, 98]) (by decide) ?_
  rintro w _ ⟨hwritten, hcontent⟩
  rw [hcontent, hwritten]
  decide

/-- The second file is opened after the write of the first, which writes no more. -/
theorem appends_in_turn : ∃ w, Run (fun w a w' => appendStep 0 w a = some w') (Writers.start tenBytes)
      [.open 0 appendFlags, .write 0 [97] 0, .open 1 appendFlags, .write 1 [98] 0] w ∧
    content (w.sys.dirent 0) = content (tenBytes.dirent 0) ++ w.written := by
  refine exists_run (P := fun w => w.orderly = true) (by decide) ?_
  intro w hrun
  exact (appends_in_order_iff 0 tenBytes (by decide) _ w hrun).2

end Position
end OsRiscv
