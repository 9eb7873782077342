import OsRiscv.Exec.Recorded

/-!
# Failed — what an `exec` that fails has done

The first thing that `exec` does is to free the segment maps of the process, and nothing puts them back.  A call that
fails leaves the maps that it has recorded itself, and the heaps where mapping the interpreter has moved them.  So the
process is as before only if these are what it had.
-/

namespace OsRiscv
namespace Exec

open Lib List OsRiscv.Tree

variable {s s' t : Sys} {env : Env} {m : Nat} {path : Str} {argv : List Str} {maps : List SegmentMap} {l : List Nat}
  {h : Heaps} {r : Int}

/-- The process has everything that it had, and no map that was free is in use. -/
structure Unchanged (s s' : Sys) : Prop where
  pgdir : s'.process.pgdir = s.process.pgdir
  head : s'.process.segmentMapHead = s.process.segmentMapHead
  maps : ∀ i ∈ s.process.segmentMapHead, s'.segmentMap i = s.segmentMap i
  live : ∀ i ∈ s.process.segmentMapHead, s'.segmentMapBitmap i = s.segmentMapBitmap i
  heaps : s'.process.heaps = s.process.heaps
  execFile : s'.process.execFile = s.process.execFile
  released : ∀ i, s'.segmentMapBitmap i = true → s.segmentMapBitmap i = true

/-- Recording `maps` would give the process the maps that it has, in the places where they are. -/
structure SameMaps (s : Sys) (maps : List SegmentMap) : Prop where
  same : s.process.segmentMapHead.map s.segmentMap = maps.reverse
  places : s.process.segmentMapHead = ((freeMaps (freed s).segmentMapBitmap).take maps.length).reverse
  live : ∀ i ∈ s.process.segmentMapHead, s.segmentMapBitmap i = true

lemma Appended.length (ha : Appended s maps l t) : l.length = maps.length := by
  have hlen := congrArg List.length ha.maps
  rwa [length_map, length_reverse] at hlen

lemma Appended.eq_take (ha : Appended s maps l t) :
    l = ((freeMaps s.segmentMapBitmap).take maps.length).reverse := by
  have hlen : l.reverse.length = maps.length := by rw [length_reverse, ha.length]
  rw [ha.places, ← hlen, take_left, reverse_reverse]

lemma unchanged_iff_of_appended (ha : Appended (freed s) maps l t) :
    Unchanged s (t.withHeaps h) ↔ SameMaps s maps ∧ h = s.process.heaps := by
  have hprocess : (t.withHeaps h).process = { s.process with segmentMapHead := l, heaps := h } := by
    show { t.process with heaps := h } = _
    rw [ha.process]
    show ({ s.process with segmentMapHead := l ++ [], heaps := h } : Process) = _
    rw [append_nil]
  constructor
  · intro hu
    have hl : l = s.process.segmentMapHead := by
      have hhead := hu.head
      rwa [hprocess] at hhead
    refine ⟨⟨?_, ?_, ?_⟩, ?_⟩
    · rw [← ha.maps, hl]
      exact map_congr_left fun i hi => (hu.maps i hi).symm
    · rw [← hl]
      exact ha.eq_take
    · intro i hi
      rw [← hu.live i hi]
      exact ha.live (hl ▸ hi)
    · have hheaps := hu.heaps
      rwa [hprocess] at hheaps
  · rintro ⟨hsame, rfl⟩
    have hl : l = s.process.segmentMapHead := by
      rw [hsame.places]
      exact ha.eq_take
    -- what was freed has been taken again
    have hbitmap : ∀ i, t.segmentMapBitmap i = s.segmentMapBitmap i := by
      intro i
      rw [ha.bitmap, hl]
      show (s.segmentMapBitmap i && decide (i ∉ s.process.segmentMapHead) || _) = _
      by_cases hi : i ∈ s.process.segmentMapHead
      · simp [hi, hsame.live i hi]
      · simp [hi]
    have hmaps : ∀ i ∈ s.process.segmentMapHead, t.segmentMap i = s.segmentMap i := by
      have heq : l.map t.segmentMap = l.map s.segmentMap := by
        rw [ha.maps, hl]
        exact hsame.same.symm
      rw [← hl]
      exact map_inj_left.1 heq
    constructor
    · rw [hprocess]
    · rw [hprocess]
      exact hl
    · exact hmaps
    · exact fun i _ => hbitmap i
    · rw [hprocess]
    · rw [hprocess]
    · intro i hi
      rw [← hbitmap i]
      exact hi

lemma exec_failed (hexec : exec env m path argv s = .done r s') (hr : r < 0) : Unchanged s s' ↔
      SameMaps s (attemptMaps env s m path argv) ∧ attemptHeaps env s m path argv = s.process.heaps := by
  rcases wp_done (exec_wp m path argv) hexec with ⟨_, l, t, ha, rfl⟩ | ⟨rfl, _⟩
  · exact unchanged_iff_of_appended ha
  · omega

/-- A call of `exec` that returns a negative value leaves the process as it was exactly if the maps that it has
recorded are those that the process had, and the interpreter was mapped without moving the heaps.  A call of
`sys_exec` also leaves it as it was if the arguments cannot be fetched. -/
theorem failed_exec_unchanged_iff (env : Env) (m : Nat) (s : Sys) :
    (∀ path argv r s', exec env m path argv s = .done r s' → r < 0 →
      (Unchanged s s' ↔
        SameMaps s (attemptMaps env s m path argv) ∧ attemptHeaps env s m path argv = s.process.heaps)) ∧
    ∀ path fetch r s', sysExec env m path fetch s = .done r s' → r < 0 →
      (Unchanged s s' ↔ ∀ p argv, path = some p → fetchArgs fetch maxArg 0 = some argv →
        SameMaps s (attemptMaps env s m p argv) ∧ attemptHeaps env s m p argv = s.process.heaps) := by
  have hrefl : Unchanged s s := ⟨rfl, rfl, fun _ _ => rfl, fun _ _ => rfl, rfl, rfl, fun _ h => h⟩
  refine ⟨fun path argv r s' hexec hr => exec_failed hexec hr, ?_⟩
  intro path fetch r s' hexec hr
  unfold sysExec at hexec
  cases path with
  | none =>
    cases hexec
    exact iff_of_true hrefl fun p argv hp => by cases hp
  | some p =>
    cases hargs : fetchArgs fetch maxArg 0 with
    | none =>
      rw [hargs] at hexec
      cases hexec
      exact iff_of_true hrefl fun p argv _ ha => by cases ha
    | some argv =>
      rw [hargs] at hexec
      rw [exec_failed hexec hr]
      constructor
      · rintro hcond p' argv' hp hargv
        cases hp
        cases hargv
        exact hcond
      · intro hcond
        exact hcond p argv rfl rfl

/-! ## A path that is not there -/

/-- A process with the maps `head`, on a card with an empty root directory. -/
def lone (head : List Nat) : Sys where
  fs := (after [.fatInit 0 (rootVolume [])]).getD boot
  ctx := rootCtx
  process := { pgdir := 1, segmentMapHead := head, heaps := ⟨userBrkHeapBottom, userMmapHeapBottom⟩, execFile := none }
  segmentMap := fun _ => { sourceFile := none, va := 0x10000, fileOffset := 0, len := 1, flag := mapZero }
  segmentMapBitmap := fun i => i ∈ head

def loneEnv : Env := { fuel := 2, bprmbuf := fun _ _ => 0, pagetable := fun _ => 2, clus := 0 }

/-- The process has a map, and after a call for `/d`, which is not there, it has none. -/
theorem failed_exec_frees_maps : ∃ s', exec loneEnv 1 pathD [] (lone [0]) = .done (-1) s' ∧
    (lone [0]).process.segmentMapHead = [0] ∧ s'.process.segmentMapHead = [] ∧ ¬Unchanged (lone [0]) s' := by
  rcases exists_of_any (o := (exec loneEnv 1 pathD [] (lone [0])).toOption) (P := fun x => x.1 = -1 ∧
    x.2.process.segmentMapHead = []) (by decide +kernel) with ⟨⟨r, s'⟩, hout, hr, hhead⟩
  obtain rfl : r = -1 := hr
  refine ⟨s', eq_done_of_toOption hout, rfl, hhead, ?_⟩
  intro hu
  have hsame := hu.head
  rw [hhead] at hsame
  cases hsame

/-! ## A program that starts itself -/

/-- A program with one segment at `0x10000`. -/
def program (filesz memsz : Nat) : List UInt8 :=
  -- the header: the magic number, `ET_EXEC`, the entry, the place and the number of the program headers
  [0x7f, 0x45, 0x4c, 0x46] ++ List.replicate 12 0 ++ toLe 2 etExec ++ List.replicate 6 0 ++ toLe 8 0x10000 ++
    toLe 8 64 ++ List.replicate 16 0 ++ toLe 2 1 ++ List.replicate 6 0 ++
  -- the program header: `PT_LOAD`, the offset, the address, the sizes
  toLe 4 ptLoad ++ List.replicate 4 0 ++ toLe 8 0 ++ toLe 8 0x10000 ++ List.replicate 8 0 ++ toLe 8 filesz ++
    toLe 8 memsz ++ List.replicate 8 0

def pathProc : Str := Open.procSelfExe.take 5
def pathSelf : Str := Open.procSelfExe.take 10

/-- `/proc/self/exe`, and the program as `/d`. -/
def programActs (filesz memsz : Nat) : List Act :=
  [.fatInit 0 (rootVolume []), .create rootCtx atFdcwd pathProc .dir 5, .create rootCtx atFdcwd pathSelf .dir 6,
   .create rootCtx atFdcwd Open.procSelfExe .file 7, .create rootCtx atFdcwd pathD .file 8,
   .write { rootCtx with ofile := fun _ => some (some (.dirent 8188)) } 3 0 (program filesz memsz) 8]

def withProgram (filesz memsz : Nat) : Sys := { lone [] with fs := (after (programActs filesz memsz)).getD boot }

/-- The process that runs the program: a map for the file and one for the bss. -/
def selfRunning : Sys :=
  { withProgram 120 200 with
    process := { (lone [1, 0]).process with execFile := some (.dirent 8188) }
    segmentMap := fun i =>
      if i = 0 then { sourceFile := some (.dirent 8188), va := 0x10000, fileOffset := 0, len := 120, flag := 14 }
      else { sourceFile := none, va := 0x10078, fileOffset := 0, len := 80, flag := 7 }
    segmentMapBitmap := fun i => i ∈ [1, 0] }

/-- An argument that fills the first page of the stack. -/
def longArg : Str := List.replicate 4095 97

/-- The call records the two maps again before it fails. -/
theorem failed_exec_unchanged_self : ∃ s', exec loneEnv 1 pathD [longArg] selfRunning = .done (-1) s' ∧
    Unchanged selfRunning s' := by
  rcases exists_of_any (o := (exec loneEnv 1 pathD [longArg] selfRunning).toOption) (P := fun x => x.1 = -1)
    (by decide +kernel) with ⟨⟨r, s'⟩, hout, hr⟩
  obtain rfl : r = -1 := hr
  have hdone := eq_done_of_toOption hout
  have hmaps : SameMaps selfRunning (attemptMaps loneEnv selfRunning 1 pathD [longArg]) :=
    ⟨by decide +kernel, by decide +kernel, by decide +kernel⟩
  have hheaps : attemptHeaps loneEnv selfRunning 1 pathD [longArg] = selfRunning.process.heaps := by decide +kernel
  exact ⟨s', hdone, ((failed_exec_unchanged_iff loneEnv 1 selfRunning).1 pathD [longArg] (-1) s' hdone (by omega)).2
    ⟨hmaps, hheaps⟩⟩

end Exec
end OsRiscv
