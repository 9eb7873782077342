import OsRiscv.Fat.Init
import OsRiscv.Tree.LongName

/-!
# OnDisk — `enext` on the clusters of a directory

The loop of `enext` finds each entry with `reloc_clus` and `rw_clus`.  Where the directory holds some entries,
it does what `Load` says of the list of them, also when they go on in the next cluster of the chain.
-/

namespace OsRiscv
namespace Tree

open Lib

/-! ## `enext` -/

section Disk

open Fat

/-- `read_entry_info`, its part about the clusters. -/
def infoOf (de : Raw) (e : Fat.Dirent) : Fat.Dirent :=
  { e with
    attr := de.attr, firstClus := de.firstClus, inode := Function.update e.inode 0 de.firstClus
    inodeMaxCluster := 1, fileSize := de.fileSize, curClus := de.firstClus, clusCnt := 0 }

/-- The loop of `enext` on the directory `dp`; `ep` is the dirent that it fills, with the name in `d`. -/
def enextOn (g : Geometry) (vol : Volume) (dp ep : Nat) : Nat → Nat → Nat → Option Nat → (Nat → UInt8) → Dirent →
    FatM (Except Stop (Int × Nat × Dirent))
  | 0, _, _, _, _, _ => pure (.error .fuel)
  | n + 1, off, cnt, count, buf, d => do
    let off2 ← relocClus g dp off false
    if off2 = -1 then
      return .ok (-1, 0, { d with filename := cstr buf })
    else
      let v ← Call.get
      let bytes ← rwClusRead g (v.dirents dp).curClus off2.toNat 32
      match enextRound vol (memOf 0 bytes) cnt count buf d with
      | .next cnt count buf => enextOn g vol dp ep n ((off + 32) % 2 ^ 32) cnt count buf d
      | .found k e =>
        modifyDirent ep (infoOf (memOf 0 bytes))
        return .ok (1, k, e)
      | .done out => return out

/-- `enext`; both of its panics come before the loop. -/
def enextDisk (g : Geometry) (vol : Volume) (dp ep n off : Nat) (d : Dirent) :
    FatM (Except Stop (Int × Nat × Dirent)) := do
  let v ← Call.get
  if (v.dirents dp).attr &&& attrDirectory = 0 then
    return .error .notDir
  else if off % 32 ≠ 0 then
    return .error .assertion
  else
    enextOn g vol dp ep n off 0 none (fun _ => 0) d

/-- The clusters `l` hold the entries `rs` from offset `off` on; offsets are words of 32 bits. -/
def HoldsAt (g : Geometry) (disk : Nat → Sector) (l : List Nat) (off : Nat) (rs : List Raw) : Prop :=
  ∀ i r, rs[i]? = some r → ∃ c, l[(off + 32 * i) % 2 ^ 32 / g.bytsPerClus]? = some c ∧
    memOf 0 (slice (clusByte g disk c) ((off + 32 * i) % 2 ^ 32 % g.bytsPerClus) 32) = r

variable {g : Geometry} {vol : Volume} {v : Vol} {ch : Nat → List Nat} {dp ep n off cnt k : Nat} {rs : List Raw}
  {count : Option Nat} {buf : Nat → UInt8} {d e : Dirent} {ret : Int}

lemma entry_fits (halign : off % 32 = 0) : off % g.bytsPerClus + 32 ≤ g.bytsPerClus := by
  have hmod := Nat.mod_lt off (bytsPerClus_pos g)
  have hdvd : off % g.bytsPerClus % 32 = off % 32 := by
    rw [g.bytsPerClus_eq]
    exact Nat.mod_mod_of_dvd off ⟨g.secPerClus * 16, by omega⟩
  rw [g.bytsPerClus_eq] at hmod hdvd ⊢
  omega

lemma relocClus_reads {Q : Int → Vol → Prop} {E : Panic → Vol → Prop} (h : Inv g v ch) (hdp : dp ∈ v.files)
    (hfirst : (v.dirents dp).firstClus ≠ 0) {c : Nat} (hc : (ch dp)[off / g.bytsPerClus]? = some c)
    (hroom : v.Room dp (ch dp).length) (htop : (ch dp).length ≤ inodeThirdLevelTop)
    (hQ : ∀ t ch', Inv g t ch' → ch' dp = ch dp → t.files = v.files →
      (t.dirents dp).firstClus = (v.dirents dp).firstClus → (t.dirents dp).curClus = c → t.Room dp (ch dp).length →
      (∀ x ∈ ch dp, ∀ o < g.bytsPerClus, clusByte g t.disk x o = clusByte g v.disk x o) →
      Q (off % g.bytsPerClus : Nat) t) : wp (relocClus g dp off false) Q E v := by
  have hlt := (List.getElem?_eq_some_iff.1 hc).1
  have hlarge : off / g.bytsPerClus < 164872 := Nat.lt_of_lt_of_le hlt htop
  refine relocClus_wp h hdp hfirst nofun (fun t _ hneed => absurd (hroom.mono (Nat.min_le_left _ _)) hneed)
    (fun hle => absurd hle (by omega)) ?_ fun t _ hshort => absurd hshort (by omega)
  intro t ch' hr _
  rcases hr.grown.ext with ⟨new, hnew, _⟩
  have hnil : new = [] := by
    have hlen := hr.length
    rw [hnew, List.length_append] at hlen
    exact List.length_eq_zero_iff.1 (by omega)
  have hsame : ch' dp = ch dp := by rw [hnew, hnil, List.append_nil]
  refine hQ t ch' hr.inv hsame hr.grown.files hr.grown.firstClus ?_ (hroom.congr hr.grown.count) ?_
  · have hcur := hr.cur
    rw [hsame, hc] at hcur
    exact (Option.some.inj hcur).symm
  · intro x hx
    rcases h.used_of_mem hdp hx with ⟨hrange, hused⟩
    exact (hr.grown.used x hrange hused).2

lemma HoldsAt.tail {disk disk' : Nat → Sector} {l : List Nat} {r : Raw} (h : HoldsAt g disk l off (r :: rs))
    (halign : off % 32 = 0) (hdisk : ∀ x ∈ l, ∀ o < g.bytsPerClus, clusByte g disk' x o = clusByte g disk x o) :
    HoldsAt g disk' l ((off + 32) % 2 ^ 32) rs := by
  intro i x hx
  have hat : ((off + 32) % 2 ^ 32 + 32 * i) % 2 ^ 32 = (off + 32 * (i + 1)) % 2 ^ 32 := by omega
  rcases h (i + 1) x hx with ⟨c, hc, hbytes⟩
  refine ⟨c, by rw [hat]; exact hc, ?_⟩
  have hfit := @entry_fits g ((off + 32 * (i + 1)) % 2 ^ 32) (by omega)
  rw [hat, ← hbytes, slice_congr fun o _ ho => hdisk c (List.mem_of_getElem? hc) o (by omega)]

/-- Where the list of entries decides what `enext` returns, so does the directory that holds them. -/
theorem enextOn_wp (h : Inv g v ch) (hdp : dp ∈ v.files) (hfirst : (v.dirents dp).firstClus ≠ 0)
    (hoff : off < 2 ^ 32) (halign : off % 32 = 0) (hholds : HoldsAt g v.disk (ch dp) off rs) (hn : rs.length ≤ n)
    (hloop : enextLoop vol rs cnt count buf d = .ok (ret, k, e)) (hret : ret ≠ -1)
    (hroom : v.Room dp (ch dp).length) (htop : (ch dp).length ≤ inodeThirdLevelTop) :
    wp (enextOn g vol dp ep n off cnt count buf d)
      (fun out t => out = .ok (ret, k, e) ∧ (ret = 1 → (t.dirents ep).attr = e.attr ∧
        (t.dirents ep).firstClus = e.firstClus ∧ (t.dirents ep).fileSize = e.fileSize))
      (fun _ _ => False) v := by
  induction rs generalizing v ch off cnt count buf n with
  | nil =>
    cases hloop
    exact absurd rfl hret
  | cons r rs ih =>
    cases n with
    | zero => cases hn
    | succ n =>
      rcases hholds 0 r rfl with ⟨c, hc, hbytes⟩
      rw [Nat.mul_zero, Nat.add_zero, Nat.mod_eq_of_lt hoff] at hc hbytes
      unfold enextOn
      rw [wp_bind]
      refine relocClus_reads h hdp hfirst hc hroom htop ?_
      intro t ch' hinv hsame hfiles hfirst' hcur hroom' hdisk
      have hmem := List.mem_of_getElem? hc
      have hrange : InRange g c := (h.used_of_mem hdp hmem).1
      have hne : ¬ ((off % g.bytsPerClus : Nat) : Int) = -1 := by omega
      rw [if_neg hne, wp_bind, wp_get, wp_bind, hcur]
      refine rwClusRead_wp hrange (entry_fits halign) ?_
      have hfit := @entry_fits g off halign
      rw [Int.toNat_natCast, slice_congr fun o _ ho => hdisk c hmem o (by omega), hbytes]
      rw [enextLoop] at hloop
      -- the round decides, or the rest of the entries does
      cases hround : enextRound vol r cnt count buf d with
      | next cnt' count' buf' =>
        rw [hround] at hloop
        refine ih hinv (hfiles ▸ hdp) (hfirst' ▸ hfirst) (Nat.mod_lt _ (by decide)) (by omega) ?_
          (Nat.le_of_succ_le_succ hn) hloop ?_ ?_
        · rw [hsame]
          exact hholds.tail halign hdisk
        · rw [hsame]
          exact hroom'
        · rw [hsame]
          exact htop
      | found k' e' =>
        rw [hround] at hloop
        cases hloop
        rcases enextRound_result.1 k e hround with ⟨hattr, hclus, hsize⟩
        refine ⟨rfl, fun _ => ?_⟩
        simp [infoOf, hattr, hclus, hsize]
      | done out =>
        rw [hround] at hloop
        cases hloop
        exact ⟨rfl, fun hone => absurd hone (enextRound_result.2 ret k e hround)⟩

/-- Where a directory holds the standard encoding of a name of up to 247 characters and then a live short
entry, and there are free inodes for the clusters of the directory, `enext` returns 1 with the count of the entries,
the name, and what the short entry says. -/
theorem long_name_decoded {name : Str} {short : Raw} (h : Inv g v ch) (hdp : dp ∈ v.files)
    (hfirst : (v.dirents dp).firstClus ≠ 0) (hdir : (v.dirents dp).attr &&& attrDirectory ≠ 0)
    (hoff : off < 2 ^ 32) (halign : off % 32 = 0) (hpos : name ≠ []) (hlen : name.length ≤ 247)
    (hname : ∀ b ∈ name, b ≠ 0) (hspells : Spells name rs)
    (horder : short.order ≠ endOfEntry ∧ short.order ≠ emptyEntry) (hattr : short.attr ≠ attrLongName)
    (hholds : HoldsAt g v.disk (ch dp) off (rs ++ [short])) (hn : rs.length < n)
    (hroom : v.Room dp (ch dp).length) (htop : (ch dp).length ≤ inodeThirdLevelTop) :
    ∃ e t, enextDisk g vol dp ep n off d v = .done (.ok (1, longCount name + 1, e)) t ∧ e.filename = name ∧
      e.attr = short.attr ∧ e.firstClus = short.firstClus ∧ e.fileSize = short.fileSize ∧
      (t.dirents ep).attr = short.attr ∧ (t.dirents ep).firstClus = short.firstClus ∧
      (t.dirents ep).fileSize = short.fileSize := by
  rcases hspells.valid hpos hlen hname horder hattr with ⟨hvalid, hfile⟩
  have hloop := @enextLoop_live vol d [] _ hvalid
  rw [hfile, hspells.length_eq] at hloop
  have hfuel : (rs ++ [short]).length ≤ n := by
    rw [List.length_append]
    exact hn
  have hwp := @enextOn_wp g vol v ch dp ep n off _ _ _ _ _ _ _ _ h hdp hfirst hoff halign hholds hfuel hloop (by decide)
    hroom htop
  have hdisk : enextDisk g vol dp ep n off d v = enextOn g vol dp ep n off 0 none (fun _ => 0) d v := by
    change (if (v.dirents dp).attr &&& attrDirectory = 0 then _ else if off % 32 ≠ 0 then _ else
      enextOn g vol dp ep n off 0 none (fun _ => 0) d : FatM (Except Stop (Int × Nat × Dirent))) v = _
    rw [if_neg hdir, if_neg (not_not.2 halign)]
  unfold wp at hwp
  rw [← hdisk] at hwp
  cases hout : enextDisk g vol dp ep n off d v with
  | panic r t =>
    rw [hout] at hwp
    exact hwp.elim
  | done out t =>
    rw [hout] at hwp
    rcases hwp with ⟨rfl, hinfo⟩
    exact ⟨_, t, rfl, rfl, rfl, rfl, rfl, hinfo rfl⟩

/-! ## A name across two clusters -/

def longName : Str := [97, 98, 99, 100, 101, 102, 103, 104, 105]

def plainShort : Raw := memOf 0 (List.replicate 11 65 ++ 0x20 :: List.replicate 20 0)

/-- The root has the clusters 2 and 3; its long entry is the last entry of the first. -/
def twoClusterDisk : Nat → Sector :=
  Function.update (Function.update (smallDisk 2 [0x0ffffff8, 0x0fffffff, 3, 0x0fffffff]) 2
    (overlay (fun _ => 0) 480 ((spell longName).flatMap fun r => slice r 0 32))) 3
    (overlay (fun _ => 0) 0 (slice plainShort 0 32))

def twoClusterVolume : Vol :=
  { smallVolume 2 [] with
    disk := twoClusterDisk, clusterBitmap := fatInitBitmap (smallGeometry 2) twoClusterDisk }

theorem long_name_decoded_across :
    ∃ e t, enextDisk (smallGeometry 2) ⟨2, fun _ => none, fun _ _ => 0⟩ 0 1 2 480 zeroDirent twoClusterVolume =
      .done (.ok (1, longCount longName + 1, e)) t ∧ e.filename = longName ∧
      e.attr = plainShort.attr ∧ e.firstClus = plainShort.firstClus ∧ e.fileSize = plainShort.fileSize ∧
      (t.dirents 1).attr = plainShort.attr ∧ (t.dirents 1).firstClus = plainShort.firstClus ∧
      (t.dirents 1).fileSize = plainShort.fileSize := by
  have hnext : fatEntry (smallGeometry 2) twoClusterVolume.disk 2 = 3 := by decide +kernel
  have hlast : FileChain (smallGeometry 2) (fatEntry (smallGeometry 2) twoClusterVolume.disk) 3 [3] :=
    Chain.last (by decide) (by decide +kernel)
  have hchain : FileChain (smallGeometry 2) (fatEntry (smallGeometry 2) twoClusterVolume.disk) 2 [2, 3] :=
    Chain.link (by decide) (by decide +kernel) (hnext.symm ▸ hlast)
  have hinit : Initialised (smallGeometry 2) twoClusterVolume :=
    ⟨by decide +kernel, by simp only [twoClusterVolume], by simp [twoClusterVolume, smallVolume, smallDirents],
      by simp [twoClusterVolume, smallVolume, smallDirents], rfl⟩
  have hinv := hinit.inv (by decide +kernel) (by decide +kernel) fun d hd _ => by
    rw [List.mem_singleton.1 hd]
    exact ⟨_, hchain⟩
  have hspells : Spells longName (spell longName) := ⟨by decide +kernel, by decide +kernel, by decide +kernel⟩
  have hclusters : (chainOf (smallGeometry 2) twoClusterVolume 0).length = 2 := by
    rw [chainOf_eq (by decide) hchain]
    rfl
  refine long_name_decoded hinv (by decide) (by decide) (by decide) (by decide) (by decide) (by decide) (by decide)
    (by decide +kernel) hspells (by decide +kernel) (by decide +kernel) ?_ (by decide) ?_ ?_
  · intro i r hr
    cases i with
    | zero =>
      cases hr
      exact ⟨2, rfl, congrArg (memOf 0) (by decide +kernel)⟩
    | succ i =>
      cases i with
      | zero =>
        cases hr
        exact ⟨3, rfl, congrArg (memOf 0) (by decide +kernel)⟩
      | succ i => cases hr
  · have hcount : twoClusterVolume.pool.count = 0 := Bitmap.count_of_empty fun x _ => BitVec.getLsbD_zero
    have hnodes : nodes (2 * (chainOf (smallGeometry 2) twoClusterVolume 0).length) = 0 := nodes_few (by omega)
    unfold Vol.Room
    omega
  · rw [hclusters]
    decide

end Disk

end Tree
end OsRiscv
