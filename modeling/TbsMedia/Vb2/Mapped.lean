import TbsMedia.Vb2.Dequeue
import TbsMedia.Vb2.UserMemory

/-!
`vb2_mmap` and the MAPPED flag. The flag compares a count of successful calls with the number of
planes, so a plane that is mapped twice counts for two.
-/

namespace TbsMedia.Vb2

open Lib Function List

/-- What `vb2_mmap` reads of a `vm_area_struct`. -/
structure Vma where
  pgoff : Nat
  shared : Bool
  read : Bool
  write : Bool

/-- `__find_plane_by_offset`. -/
def findPlaneByOffset (q : Vb2Queue) (off : Nat) : Option (Nat × Nat) :=
  q.bufs.findSome? fun p => ((range (q.vb p).numPlanes).find? fun plane =>
    ((q.vb p).planes plane).v4l2.m = off).map (p, ·)

/-- `vb2_mmap`: the buffer and the plane that it maps. `mmap` is what the allocator answers. -/
def vb2Mmap (q : Vb2Queue) (vma : Vma) (mmap : Int) : Except Int (Nat × Nat) :=
  if q.memory ≠ .mmap then .error einval
  else if vma.shared = false then .error einval
  else if (if q.type.isOutput then vma.write else vma.read) = false then .error einval
  else
    match findPlaneByOffset q (vma.pgoff * 4096 % 2 ^ 64) with
    | none => .error einval
    | some hit => if mmap ≠ 0 then .error mmap else .ok hit

/-- A queue with the count in each buffer, and beside it the planes that were mapped so far. -/
structure Mapped where
  q : Vb2Queue
  numPlanesMapped : Nat → Nat
  maps : Nat → List Nat

/-- `vb2_querybuf`. The rest of a description, which `vb2_qbuf` and the driver write, is `info`. -/
def vb2Querybuf {ρ : Type} (s : Mapped) (info : Nat → BufferInfo ρ) (b : UserBuffer ρ) :
    Int × UserBuffer ρ :=
  if b.type ≠ s.q.type then (einval, b)
  else
    match s.q.bufs[b.index]? with
    | none => (einval, b)
    | some p => fillV4l2Buffer s.q p { info p with numPlanesMapped := s.numPlanesMapped p } b

inductive MapCall
  | mmap (vma : Vma) (answer : Int)
  | qbuf (b : V4l2Buffer) (answers : QbufAnswers)
  | dqbuf (type : BufType) (nonblocking : Bool) (bufFinish : Int)

def Mapped.mark (s : Mapped) (p plane : Nat) : Mapped :=
  { s with
    numPlanesMapped := update s.numPlanesMapped p (s.numPlanesMapped p + 1)
    maps := update s.maps p (plane :: s.maps p) }

def Mapped.step (s : Mapped) : MapCall → Option Mapped
  | .mmap vma answer =>
    match vb2Mmap s.q vma answer with
    | .ok (p, plane) => some (s.mark p plane)
    | .error _ => some s
  | .qbuf b answers => some { s with q := (vb2Qbuf s.q b answers).2 }
  | .dqbuf type nonblocking bufFinish =>
    (vb2Dqbuf s.q type nonblocking bufFinish).map fun out => { s with q := out.2 }

abbrev Mapped.full (s : Mapped) (p : Nat) : Prop :=
  ∀ plane < (s.q.vb p).numPlanes, plane ∈ s.maps p

def FlagTruthful (s : Mapped) : Prop :=
  ∀ p ∈ s.q.bufs, s.numPlanesMapped p = (s.q.vb p).numPlanes ↔ s.full p

/-- No more maps than planes, and of as many no two of the same plane. -/
def Spread (maps : List Nat) (numPlanes : Nat) : Prop :=
  maps.length ≤ numPlanes ∧ (maps.length = numPlanes → maps.Nodup)

def MapsSpread (s : Mapped) : MapCall → Prop
  | .mmap vma answer => ∀ p plane, vb2Mmap s.q vma answer = .ok (p, plane) →
    Spread (plane :: s.maps p) (s.q.vb p).numPlanes
  | _ => True

structure MapInv (s : Mapped) : Prop where
  memory : s.q.memory = .mmap
  count : ∀ p, s.numPlanesMapped p = (s.maps p).length
  below : ∀ p, ∀ plane ∈ s.maps p, plane < (s.q.vb p).numPlanes
  spread : ∀ p, Spread (s.maps p) (s.q.vb p).numPlanes

section

variable {l : List Nat} {n p plane : Nat} {s s' : Mapped} {q r : Vb2Queue}

theorem le_length_of_full (hfull : ∀ i < n, i ∈ l) : range n <+~ l :=
  nodup_range.subperm fun i hi => hfull i (mem_range.mp hi)

theorem nodup_iff_full (hbelow : ∀ i ∈ l, i < n) (hlen : l.length = n) :
    l.Nodup ↔ ∀ i < n, i ∈ l := by
  constructor
  · intro hnodup i hi
    have hsub : l <+~ range n := hnodup.subperm fun i hi => mem_range.mpr (hbelow i hi)
    exact (hsub.perm_of_length_le (by simp [hlen])).mem_iff.mpr (mem_range.mpr hi)
  · intro hfull
    exact ((le_length_of_full hfull).perm_of_length_le (by simp [hlen])).nodup_iff.mp nodup_range

theorem Spread.full_iff (hspread : Spread l n) (hbelow : ∀ i ∈ l, i < n) :
    l.length = n ↔ ∀ i < n, i ∈ l := by
  constructor
  · intro hlen
    exact (nodup_iff_full hbelow hlen).mp (hspread.2 hlen)
  intro hfull
  have hle := (le_length_of_full hfull).length_le
  rw [length_range] at hle
  exact Nat.le_antisymm hspread.1 hle

theorem spread_of_full_iff (hspread : Spread l n) (hbelow : ∀ i ∈ plane :: l, i < n)
    (htruthful : (plane :: l).length = n ↔ ∀ i < n, i ∈ plane :: l) : Spread (plane :: l) n := by
  refine ⟨?_, fun hlen => (nodup_iff_full hbelow hlen).mpr (htruthful.mp hlen)⟩
  by_contra hmore
  have hle := hspread.1
  rw [length_cons] at hmore htruthful
  have hfull := (hspread.full_iff fun i hi => hbelow i (mem_cons_of_mem _ hi)).mp (by omega)
  have hlen := htruthful.mpr fun i hi => mem_cons_of_mem _ (hfull i hi)
  omega

theorem querybuf_mapped {ρ : Type} {info : Nat → BufferInfo ρ} {b b' : UserBuffer ρ}
    (hbuf : s.q.bufs[b.index]? = some p) (hok : vb2Querybuf s info b = (0, b')) :
    b'.flags.mapped = true ↔ s.numPlanesMapped p = (s.q.vb p).numPlanes := by
  simp only [vb2Querybuf, hbuf, fillV4l2Buffer, verifyPlanesArray] at hok
  cases hplane : b.planes
  all_goals
    rw [hplane] at hok
    split_ifs at hok
  all_goals cases hok <;> simp [stateFlags]

theorem mmap_ok {vma : Vma} {answer : Int} (hok : vb2Mmap q vma answer = .ok (p, plane)) :
    p ∈ q.bufs ∧ plane < (q.vb p).numPlanes := by
  rcases hfind : findPlaneByOffset q (vma.pgoff * 4096 % 2 ^ 64) with _ | hit
  · simp only [vb2Mmap, hfind] at hok
    split_ifs at hok
  obtain ⟨p', hp, hplane⟩ := exists_of_findSome?_eq_some hfind
  obtain ⟨plane', hfound, rfl⟩ := Option.map_eq_some_iff.mp hplane
  simp only [vb2Mmap, hfind] at hok
  split_ifs at hok
  all_goals
    cases hok
    exact ⟨hp, mem_range.mp (mem_of_find?_eq_some hfound)⟩

theorem MapInv.other (hinv : MapInv s) (hsame : SameMemory s.q r) : MapInv { s with q := r } := by
  refine ⟨hsame.memory.trans hinv.memory, hinv.count, fun p => ?_, fun p => ?_⟩
  · rw [hsame.numPlanes]
    exact hinv.below p
  · rw [hsame.numPlanes]
    exact hinv.spread p

theorem qbuf_memory (hmmap : q.memory = .mmap) (b : V4l2Buffer) (answers : QbufAnswers) :
    SameMemory q (vb2Qbuf q b answers).2 := by
  rcases qbuf_cases q b answers with heq | ⟨p, -, -, -, -, ⟨-, heq⟩ | ⟨huser, -⟩⟩
  · rw [heq]
    exact .refl q
  · rw [heq]
    exact prepareAndQueue_memory q p _
  · exact absurd (hmmap.symm.trans huser) nofun

theorem dqbuf_memory {type : BufType} {nonblocking : Bool} {bufFinish ret : Int}
    (hdqbuf : vb2Dqbuf q type nonblocking bufFinish = some (ret, r)) : SameMemory q r := by
  rcases dqbuf_cases hdqbuf with ⟨-, -, rfl⟩ | ⟨p, rest, -, -, -, -, ⟨-, -, rfl⟩ | ⟨-, -, -, rfl⟩⟩
  · exact .refl _
  · exact ⟨rfl, rfl, rfl, rfl, fun _ => rfl, fun _ => rfl⟩
  · exact .setState q p ..

theorem MapInv.flagTruthful (hinv : MapInv s) : FlagTruthful s := by
  intro p _
  rw [hinv.count]
  exact (hinv.spread p).full_iff (hinv.below p)

theorem MapInv.mark (hinv : MapInv s) (hplane : plane < (s.q.vb p).numPlanes)
    (hspread : Spread (plane :: s.maps p) (s.q.vb p).numPlanes) : MapInv (s.mark p plane) := by
  refine ⟨hinv.memory, fun p' => ?_, fun p' => ?_, fun p' => ?_⟩
  all_goals rcases eq_or_ne p' p with rfl | hne
  · simp [Mapped.mark, hinv.count]
  · simp [Mapped.mark, hne, hinv.count]
  · simpa [Mapped.mark, hplane] using hinv.below p'
  · simpa [Mapped.mark, hne] using hinv.below p'
  · simpa [Mapped.mark] using hspread
  · simpa [Mapped.mark, hne] using hinv.spread p'

theorem MapInv.step (hinv : MapInv s) {call : MapCall} (hstep : s.step call = some s')
    (hcond : MapsSpread s call) : MapInv s' := by
  cases call with
  | mmap vma answer =>
    cases hmmap : vb2Mmap s.q vma answer with
    | error ret =>
      simp only [Mapped.step, hmmap] at hstep
      cases hstep
      exact hinv
    | ok hit =>
      simp only [Mapped.step, hmmap] at hstep
      cases hstep
      exact hinv.mark (mmap_ok hmmap).2 (hcond _ _ hmmap)
  | qbuf b answers =>
    cases hstep
    exact hinv.other (qbuf_memory hinv.memory b answers)
  | dqbuf type nonblocking bufFinish =>
    obtain ⟨out, hdqbuf, rfl⟩ := Option.map_eq_some_iff.mp hstep
    exact hinv.other (dqbuf_memory hdqbuf)

theorem MapInv.not_truthful (hinv : MapInv s) {call : MapCall} (hstep : s.step call = some s')
    (hcond : ¬ MapsSpread s call) : ¬ FlagTruthful s' := by
  cases call with
  | mmap vma answer =>
    simp only [MapsSpread, not_forall] at hcond
    obtain ⟨p, plane, hmmap, hcond⟩ := hcond
    obtain ⟨hp, hplane⟩ := mmap_ok hmmap
    simp only [Mapped.step, hmmap] at hstep
    cases hstep
    intro htruthful
    refine hcond (spread_of_full_iff (hinv.spread p) (by simpa [hplane] using hinv.below p) ?_)
    simpa [Mapped.mark, Mapped.full, hinv.count] using htruthful p hp
  | _ => exact absurd trivial hcond

end

/-- A query that succeeds reports whether the count is the number of planes, and this is right in
every state of a run exactly if every map of a plane keeps the maps of its buffer spread. -/
theorem mapped_flag_iff (ρ : Type) (s : Mapped) (hmmap : s.q.memory = .mmap)
    (hfresh : ∀ p, s.numPlanesMapped p = 0 ∧ s.maps p = []) (calls : List MapCall) :
    (∀ (t : Mapped) (info : Nat → BufferInfo ρ) (b b' : UserBuffer ρ) p,
      t.q.bufs[b.index]? = some p → vb2Querybuf t info b = (0, b') →
        (b'.flags.mapped = true ↔ t.numPlanesMapped p = (t.q.vb p).numPlanes)) ∧
    (Always Mapped.step FlagTruthful s calls ↔ Along Mapped.step MapsSpread s calls) := by
  refine ⟨fun t info b b' p hbuf hok => querybuf_mapped hbuf hok, ?_⟩
  refine always_iff_along _ _ _ MapInv (fun _ hinv => hinv.flagTruthful)
    (fun _ _ _ hinv hstep hcond => hinv.step hstep hcond)
    (fun _ _ _ hinv hstep hcond => hinv.not_truthful hstep hcond) s ?_ calls
  exact ⟨hmmap, fun p => by simp [hfresh], fun p => by simp [hfresh],
    fun p => by simp [hfresh, Spread]⟩

/-- One buffer of one plane, just allocated. -/
def oneUnmapped : Mapped :=
  let q := vb2QueueInit .videoCapture true true
  ⟨(callStep q (grantedRequest 1)).getD q, fun _ => 0, fun _ => []⟩

def mapFirst : MapCall := .mmap ⟨0, true, true, true⟩ 0

theorem mapped_flag_iff_once : Always Mapped.step FlagTruthful oneUnmapped
    [mapFirst, .qbuf ⟨0, .videoCapture, .mmap, 0, 0, none⟩
      ⟨fun _ => ⟨0, 0⟩, fun _ => ⟨0, false⟩, 0, 0⟩] := by
  refine (mapped_flag_iff Unit oneUnmapped rfl (fun _ => ⟨rfl, rfl⟩) _).2.mpr ?_
  refine fun _ _ => ⟨fun p plane hok => ?_, fun _ _ => ⟨trivial, trivial⟩⟩
  cases (show vb2Mmap oneUnmapped.q ⟨0, true, true, true⟩ 0 = .ok (0, 0) from rfl).symm.trans hok
  exact ⟨by decide, fun _ => nodup_singleton 0⟩

/-- When its only plane is mapped once more, the buffer is not MAPPED any longer. -/
theorem second_map_clears_flag :
    ∃ last, [mapFirst, mapFirst].foldlM Mapped.step oneUnmapped = some last ∧
      last.q.bufs = [0] ∧ last.full 0 ∧
      (vb2Querybuf last filledInfo { blankBuffer with index := 0 }).1 = 0 ∧
      (vb2Querybuf last filledInfo { blankBuffer with index := 0 }).2.flags.mapped = false :=
  exists_of_run _ (by decide +kernel) fun _ hlast => hlast

end TbsMedia.Vb2
