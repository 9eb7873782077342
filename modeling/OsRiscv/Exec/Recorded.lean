import OsRiscv.Exec.Model

/-!
# Recorded — the segment maps that `exec` makes

`loadsOf` are the `PT_LOAD` headers up to the first one that ends the loop.  `Appended` says what recording maps does
to the state: the first free places of the table are taken, and the new maps are in front of the list, the last one
first.
-/

namespace OsRiscv
namespace Exec

open Lib List OsRiscv.Tree

variable {s s' t u : Sys} {maps maps' : List SegmentMap} {l l' : List Nat} {de : Ptr} {d : Dirent} {offset off n i : Nat}
  {env : Env} {argv : List Str} {bitmap : Nat → Bool}

/-! ## The table -/

def freeMaps (bitmap : Nat → Bool) : List Nat := (List.range segmentMapNumber).filter fun i => bitmap i = false

lemma mem_freeMaps (h : i ∈ freeMaps bitmap) : bitmap i = false := by
  simpa using (mem_filter.1 h).2

lemma freeMaps_take (h : (List.range segmentMapNumber).find? (fun i => bitmap i = false) = some i) :
    freeMaps bitmap = i :: freeMaps (Function.update bitmap i true) := by
  have hhead : (freeMaps bitmap).head? = some i := by
    unfold freeMaps
    rw [head?_filter]
    exact h
  have hsub : freeMaps (Function.update bitmap i true) = (freeMaps bitmap).filter fun j => j ≠ i := by
    unfold freeMaps
    rw [filter_filter]
    refine filter_congr fun j _ => ?_
    by_cases hj : j = i
    · simp [hj]
    · simp [hj]
  have hnodup : (freeMaps bitmap).Nodup := nodup_range.filter _
  cases hfree : freeMaps bitmap with
  | nil =>
    rw [hfree] at hhead
    cases hhead
  | cons j rest =>
    rw [hfree] at hhead hsub hnodup
    have hj : j = i := Option.some.inj hhead
    subst hj
    have hrest : ∀ x ∈ rest, x ≠ j := fun x hx heq => (nodup_cons.1 hnodup).1 (heq ▸ hx)
    rw [hsub, filter_cons_of_neg (by simp), filter_eq_self.2 (by simpa using hrest)]

/-- `maps` have been recorded, at the places `l`. -/
structure Appended (s : Sys) (maps : List SegmentMap) (l : List Nat) (s' : Sys) : Prop where
  fs : s'.fs = s.fs
  ctx : s'.ctx = s.ctx
  process : s'.process = { s.process with segmentMapHead := l ++ s.process.segmentMapHead }
  maps : l.map s'.segmentMap = maps.reverse
  places : freeMaps s.segmentMapBitmap = l.reverse ++ freeMaps s'.segmentMapBitmap
  bitmap : ∀ i, s'.segmentMapBitmap i = (s.segmentMapBitmap i || decide (i ∈ l))
  other : ∀ i ∉ l, s'.segmentMap i = s.segmentMap i

namespace Appended

lemma refl (s : Sys) : Appended s [] [] s :=
  ⟨rfl, rfl, rfl, rfl, rfl, fun i => by simp, fun _ _ => rfl⟩

lemma fresh (h : Appended s maps l s') (hi : i ∈ l) : s.segmentMapBitmap i = false := by
  refine mem_freeMaps ?_
  rw [h.places]
  exact mem_append_left _ (mem_reverse.2 hi)

lemma live (h : Appended s maps l s') (hi : i ∈ l) : s'.segmentMapBitmap i = true := by
  rw [h.bitmap i]
  simp [hi]

lemma trans (h : Appended s maps l t) (h' : Appended t maps' l' u) : Appended s (maps ++ maps') (l' ++ l) u := by
  -- what is recorded later goes to other places
  have hkeep : l.map u.segmentMap = l.map t.segmentMap := by
    refine map_congr_left fun i hi => h'.other i fun hin => ?_
    have hfree := h'.fresh hin
    rw [h.live hi] at hfree
    cases hfree
  constructor
  · rw [h'.fs, h.fs]
  · rw [h'.ctx, h.ctx]
  · rw [h'.process, h.process, append_assoc]
  · rw [map_append, h'.maps, hkeep, h.maps, reverse_append]
  · rw [h.places, h'.places, reverse_append, append_assoc]
  · intro i
    rw [h'.bitmap, h.bitmap]
    simp only [mem_append, Bool.decide_or]
    cases s.segmentMapBitmap i <;> cases decide (i ∈ l) <;> cases decide (i ∈ l') <;> rfl
  · intro i hi
    rw [mem_append, not_or] at hi
    rw [h'.other i hi.1, h.other i hi.2]

end Appended

lemma appendSegmentMap_wp (psm : SegmentMap) :
    wp (appendSegmentMap psm) (fun _ s' => ∃ i, Appended s [psm] [i] s') (fun _ _ => True) s := by
  unfold appendSegmentMap segmentMapAlloc
  simp only [wp_bind, wp_get]
  cases hfind : (List.range segmentMapNumber).find? fun i => decide (s.segmentMapBitmap i = false) with
  | none => exact trivial
  | some i =>
    refine ⟨i, rfl, rfl, rfl, ?_, ?_, ?_, ?_⟩
    · exact congrArg (fun m => [m]) (Function.update_self i psm s.segmentMap)
    · exact freeMaps_take hfind
    · intro j
      by_cases hj : j = i
      · simp [hj]
      · simp [hj]
    · intro j hj
      exact Function.update_of_ne (by simpa using hj) _ _

lemma forEach_appended (maps : List SegmentMap) :
    wp (Call.forEach appendSegmentMap maps) (fun _ s' => ∃ l, Appended s maps l s') (fun _ _ => True) s := by
  induction maps generalizing s with
  | nil => exact ⟨[], Appended.refl s⟩
  | cons psm maps ih =>
    refine (wp_bind (appendSegmentMap psm) fun _ => Call.forEach appendSegmentMap maps).2 ?_
    refine wp_mono (appendSegmentMap_wp psm) ?_
    rintro _ t ⟨i, ht⟩
    refine wp_mono ih ?_
    rintro _ u ⟨l, hu⟩
    exact ⟨l ++ [i], ht.trans hu⟩

/-! ## The loop over the program headers -/

/-- The headers that are recorded, and whether the loop gets to its end. -/
def loadsOf (d : Dirent) : Nat → Nat → List Phdr × Bool
  | 0, _ => ([], true)
  | n + 1, off =>
    match readPhdr d off with
    | none => ([], false)
    | some ph =>
      if ph.type ≠ ptLoad then
        loadsOf d n (off + phdrSize)
      else if ph.memsz < ph.filesz then
        ([], false)
      else
        (ph :: (loadsOf d n (off + phdrSize)).1, (loadsOf d n (off + phdrSize)).2)

lemma recordLoop_wp (hd : s.fs.dirent de = d) : wp (recordLoop de offset n off)
      (fun ok s' => ok = (loadsOf d n off).2 ∧ ∃ l, Appended s ((loadsOf d n off).1.flatMap (mapsOf de offset)) l s')
      (fun _ _ => True) s := by
  induction n generalizing off s with
  | zero => exact ⟨rfl, [], Appended.refl s⟩
  | succ n ih =>
    unfold recordLoop loadsOf
    rw [wp_bind, wp_get, hd]
    cases readPhdr d off with
    | none => exact ⟨rfl, [], Appended.refl s⟩
    | some ph =>
      dsimp only
      split
      · exact ih hd
      · split
        · exact ⟨rfl, [], Appended.refl s⟩
        · rw [wp_bind]
          refine wp_mono (forEach_appended (mapsOf de offset ph)) ?_
          rintro _ t ⟨l, ht⟩
          refine wp_mono (ih (by rw [ht.fs]; exact hd)) ?_
          rintro ok u ⟨hok, l', hu⟩
          exact ⟨hok, l' ++ l, ht.trans hu⟩

/-! ## Up to the stack -/

/-- The maps that are recorded for the file. -/
def recordedMaps (de : Ptr) (d : Dirent) : List SegmentMap :=
  match readEhdr d with
  | none => []
  | some elf => (loadsOf d elf.phnum elf.phoff).1.flatMap (mapsOf de (loadOffset elf))

/-- The heaps after an interpreter has been mapped, if the file names one and nothing is wrong before. -/
def heapsAfter (env : Env) (t : Fs) (c : Ctx) (d : Dirent) (h : Heaps) : Heaps :=
  match readEhdr d with
  | none => h
  | some elf =>
    if (loadsOf d elf.phnum elf.phoff).2 = false then
      h
    else
      match findInterp env.fuel t c d elf.phnum elf.phoff none with
      | .ok (some (some p)) => ((mapInterp (t.dirent p) h).toOption).getD h
      | _ => h

def Sys.withHeaps (s : Sys) (h : Heaps) : Sys := { s with process := { s.process with heaps := h } }

lemma pushArgs_wp {Q : Bool → Sys → Prop} (h : ∀ ok : Bool, (ok = true → argv.length < maxArg) → Q ok s) :
    wp (pushArgs argv) Q (fun _ _ => True) s := by
  unfold pushArgs buildStack
  cases pushStrings userStackTop (argv.map List.length) with
  | none => exact h _ nofun
  | some sp =>
    split_ifs with hfull
    · exact trivial
    · exact h _ fun _ => Nat.lt_of_not_le hfull

lemma loadProgram_wp (hd : s.fs.dirent de = d) : wp (loadProgram env de argv)
      (fun ok s' => (ok = true → argv.length < maxArg ∧
          ∃ elf, readEhdr d = some elf ∧ (loadsOf d elf.phnum elf.phoff).2 = true) ∧
        ∃ l t, Appended s (recordedMaps de d) l t ∧ s' = t.withHeaps (heapsAfter env s.fs s.ctx d s.process.heaps))
      (fun _ _ => True) s := by
  have hself : ∀ {t : Sys}, t.process.heaps = s.process.heaps → t = t.withHeaps s.process.heaps := by
    intro t ht
    unfold Sys.withHeaps
    rw [← ht]
  unfold loadProgram recordedMaps heapsAfter
  rw [wp_bind, wp_get, hd]
  cases helf : readEhdr d with
  | none => exact ⟨nofun, [], s, Appended.refl s, hself rfl⟩
  | some elf =>
    dsimp only
    rw [wp_bind]
    refine wp_mono (recordLoop_wp hd) ?_
    rintro ok t ⟨rfl, l, ht⟩
    have htheaps : t.process.heaps = s.process.heaps := by rw [ht.process]
    cases hok : (loadsOf d elf.phnum elf.phoff).2 with
    | false =>
      exact ⟨nofun, l, t, ht, hself htheaps⟩
    | true =>
      rw [if_neg (by simp)]
      have hloaded : ∃ elf', some elf = some elf' ∧ (loadsOf d elf'.phnum elf'.phoff).2 = true := ⟨elf, rfl, hok⟩
      cases hinterp : findInterp env.fuel s.fs s.ctx d elf.phnum elf.phoff none with
      | error e => exact trivial
      | ok r =>
        cases r with
        | none => exact ⟨nofun, l, t, ht, hself htheaps⟩
        | some interpreter =>
          cases interpreter with
          | none => exact pushArgs_wp fun ok hshort => ⟨fun h => ⟨hshort h, hloaded⟩, l, t, ht, hself htheaps⟩
          | some p =>
            cases hmap : mapInterp (s.fs.dirent p) s.process.heaps with
            | error e => simp only [hmap, wp_panic]
            | ok h =>
              simp only [hmap, wp_bind, wp_modify]
              exact pushArgs_wp fun ok hshort => ⟨fun h => ⟨hshort h, hloaded⟩, l, t, ht, rfl⟩

/-! ## The whole call -/

/-- The text of the buffer for the first line. -/
def firstLine (env : Env) (m : Nat) (d : Dirent) : Nat → UInt8 :=
  overlay (env.bprmbuf m) 0 (eread d 0 (binprmBufSize - 1))

/-- The file that is loaded in the end, at most `m` scripts away. -/
def target (env : Env) (t : Fs) (c : Ctx) : Nat → Str → List Str → Option Ptr
  | 0, _, _ => none
  | m + 1, path, argv =>
    match ename env.fuel t c atFdcwd path true with
    | .ok (some de, _) =>
      if firstLine env m (t.dirent de) 0 = 35 ∧ firstLine env m (t.dirent de) 1 = 33 then
        match loadScript (firstLine env m (t.dirent de)) argv with
        | .ok (some (name, argv)) => target env t c m name argv
        | _ => none
      else
        some de
    | _ => none

/-- What a call records. -/
def attemptMaps (env : Env) (s : Sys) (m : Nat) (path : Str) (argv : List Str) : List SegmentMap :=
  match target env s.fs s.ctx m path argv with
  | none => []
  | some de => recordedMaps de (s.fs.dirent de)

def attemptHeaps (env : Env) (s : Sys) (m : Nat) (path : Str) (argv : List Str) : Heaps :=
  match target env s.fs s.ctx m path argv with
  | none => s.process.heaps
  | some de => heapsAfter env s.fs s.ctx (s.fs.dirent de) s.process.heaps

/-- A call that has succeeded: the file is loaded, its maps are recorded, and nothing but the bytes of one file has
changed in the file system. -/
structure Succeeded (s : Sys) (de : Ptr) (s' : Sys) : Prop where
  header : ∃ elf, readEhdr (s.fs.dirent de) = some elf ∧ (loadsOf (s.fs.dirent de) elf.phnum elf.phoff).2 = true
  maps : s'.process.segmentMapHead.map s'.segmentMap = (recordedMaps de (s.fs.dirent de)).reverse
  execFile : s'.process.execFile = some de
  kind : (s'.fs.dirent de).dev = (s.fs.dirent de).dev ∧ (s'.fs.dirent de).attr = (s.fs.dirent de).attr

lemma freed_freed (s : Sys) : freed (freed s) = freed s := by
  unfold freed
  simp

lemma commit_wp (hd : t.fs = s.fs) : wp (commit env de)
      (fun _ s' => s'.process.segmentMapHead = t.process.segmentMapHead ∧ s'.segmentMap = t.segmentMap ∧
        s'.process.execFile = some de ∧
        (s'.fs.dirent de).dev = (s.fs.dirent de).dev ∧ (s'.fs.dirent de).attr = (s.fs.dirent de).attr)
      (fun _ _ => True) t := by
  unfold commit lookup setProcess
  simp only [wp_bind, wp_get, wp_modify]
  cases getAbsolutePath t.fs de with
  | none => exact trivial
  | some buf =>
    simp only [wp_bind, wp_get]
    cases ename env.fuel t.fs t.ctx atFdcwd Open.procSelfExe false with
    | error stop => exact trivial
    | ok r =>
      rcases r with ⟨entry, via⟩
      cases entry with
      | none => exact trivial
      | some exe =>
        rw [wp_pure]
        have hwrite := ewrite_eq (t.fs.dirent exe) 0 (buf ++ [0]) env.clus
        dsimp only
        rcases hwrite with ⟨a, b, g, hwrite⟩
        split
        · exact trivial
        · refine ⟨rfl, rfl, rfl, ?_, ?_⟩
          · rw [field_set Dirent.dev (by rw [hwrite]), hd]
          · rw [field_set Dirent.attr (by rw [hwrite]), hd]

/-- The part of `exec` for a file that is not a script. -/
theorem loaded_wp (m : Nat) : wp (do
        setProcess { (freed s).process with pgdir := env.pagetable m }
        let loaded ← loadProgram env de argv
        let t ← Call.get
        if loaded = false then do
          setProcess { t.process with pgdir := (freed s).process.pgdir }
          return -1
        else do
          commit env de
          return 0)
      (fun r s' => (r < 0 ∧ ∃ l t, Appended (freed s) (recordedMaps de (s.fs.dirent de)) l t ∧
          s' = t.withHeaps (heapsAfter env s.fs s.ctx (s.fs.dirent de) s.process.heaps)) ∨
        (r = 0 ∧ argv.length < maxArg ∧ ∃ de', some de = some de' ∧ Succeeded s de' s'))
      (fun _ _ => True) (freed s) := by
  unfold setProcess
  simp only [wp_bind, wp_modify, wp_get]
  refine wp_mono (loadProgram_wp rfl) ?_
  rintro ok u ⟨hloaded, l, t, ht, rfl⟩
  cases ok with
  | false =>
    refine .inl ⟨by omega, l, { t with process := { t.process with pgdir := s.process.pgdir } }, ?_, rfl⟩
    refine ⟨ht.fs, ht.ctx, ?_, ht.maps, ht.places, ht.bitmap, ht.other⟩
    rw [ht.process]
    rfl
  | true =>
    have hfs : (t.withHeaps (heapsAfter env s.fs s.ctx (s.fs.dirent de) s.process.heaps)).fs = s.fs := ht.fs
    rw [if_neg (by simp), wp_bind]
    refine wp_mono (commit_wp hfs) ?_
    rintro _ s' ⟨hhead, hmap, hfile, hdev, hattr⟩
    refine .inr ⟨rfl, (hloaded rfl).1, de, rfl, (hloaded rfl).2, ?_, hfile, hdev, hattr⟩
    have hl : s'.process.segmentMapHead = l := by
      rw [hhead]
      show t.process.segmentMapHead = l
      rw [ht.process]
      exact append_nil l
    rw [hl, hmap]
    exact ht.maps

lemma loadScript_length {buf : Nat → UInt8} {call : Str × List Str} (h : loadScript buf argv = .ok (some call)) :
    argv.length < call.2.length := by
  unfold loadScript at h
  dsimp only at h
  split at h
  · cases h
  · split at h
    · cases h
    · split at h
      · cases h
      · cases h
        simp only [cons_append, length_cons, length_append]
        omega

lemma exec_wp (m : Nat) (path : Str) (argv : List Str) : wp (exec env m path argv)
      (fun r s' =>
        (r < 0 ∧ ∃ l t, Appended (freed s) (attemptMaps env s m path argv) l t ∧
          s' = t.withHeaps (attemptHeaps env s m path argv)) ∨
        (r = 0 ∧ argv.length < maxArg ∧ ∃ de, target env s.fs s.ctx m path argv = some de ∧ Succeeded s de s'))
      (fun _ _ => True) s := by
  induction m generalizing path argv s with
  | zero => exact trivial
  | succ m ih =>
    -- a call that fails before a program is loaded has freed the maps and nothing else
    have hearly : ∃ l t, Appended (freed s) [] l t ∧ freed s = t.withHeaps s.process.heaps :=
      ⟨[], freed s, Appended.refl _, rfl⟩
    unfold exec processMapFree lookup attemptMaps attemptHeaps target
    simp only [wp_bind, wp_modify, wp_get]
    have hfs : (freed s).fs = s.fs := rfl
    have hctx : (freed s).ctx = s.ctx := rfl
    rw [hfs, hctx]
    cases ename env.fuel s.fs s.ctx atFdcwd path true with
    | error stop => exact trivial
    | ok r =>
      rcases r with ⟨entry, via⟩
      cases entry with
      | none => exact .inl ⟨by omega, hearly⟩
      | some de =>
        simp only [wp_pure, wp_bind, wp_get]
        rw [hfs]
        have hbuf : overlay (env.bprmbuf m) 0 (eread (s.fs.dirent de) 0 (binprmBufSize - 1)) =
            firstLine env m (s.fs.dirent de) := rfl
        rw [hbuf]
        by_cases hscript : firstLine env m (s.fs.dirent de) 0 = 35 ∧ firstLine env m (s.fs.dirent de) 1 = 33
        · rw [if_pos hscript, if_pos hscript]
          cases hload : loadScript (firstLine env m (s.fs.dirent de)) argv with
          | error e => exact trivial
          | ok r =>
            cases r with
            | none => exact .inl ⟨by omega, hearly⟩
            | some r =>
              rcases r with ⟨name, argv'⟩
              have hnested := ih (s := freed s) name argv'
              rw [freed_freed] at hnested
              refine wp_mono hnested ?_
              rintro r s' (⟨hr, hfail⟩ | ⟨hr, hshort, de', hde', hs⟩)
              · exact .inl ⟨hr, hfail⟩
              · refine .inr ⟨hr, ?_, de', hde', hs.header, hs.maps, hs.execFile, hs.kind⟩
                exact Nat.lt_trans (loadScript_length hload) hshort
        · rw [if_neg hscript, if_neg hscript]
          exact loaded_wp m

end Exec
end OsRiscv
