import Mathlib.Tactic

/-!
Frames that arrive in fragments. Fragments of consecutive frames have opposite toggle bits,
and the last fragment of a frame may be marked. An assembler collects the data of a frame in
a buffer of some capacity, if one is supplied when the frame begins; without one it skips the
frame.
-/

namespace TbsMedia.Lib

open List

variable {α : Type*}

structure Fragment (α : Type*) where
  toggle : Bool
  last : Bool
  data : List α

def dataOf (frame : List (Fragment α)) : List α := frame.flatMap Fragment.data

/-- The buffer in use and the buffers done are kept with their capacity; `served` tells for
each fragment whether there was a buffer for it. -/
structure Assembler (α : Type*) where
  toggle : Option Bool
  current : Option (Nat × List α)
  done : List (Nat × List α)
  served : List Bool

open Assembler

namespace Assembler

def start : Assembler α := ⟨none, none, [], []⟩

def finish (s : Assembler α) : Assembler α :=
  { s with current := none, done := s.done ++ s.current.toList }

def sync (s : Assembler α) (a : Fragment α) : Assembler α :=
  match s.current with
  | none => s
  | some (_, []) => s
  | some (_, _ :: _) => if s.toggle = some a.toggle then s else s.finish

def accept (s : Assembler α) (a : Fragment α) (supply : Option Nat) : Assembler α :=
  { s with
    toggle := some a.toggle
    current := s.current.or (if s.toggle = some a.toggle then none else supply.map (·, []))
    served := s.served ++ [s.current.isSome || supply.isSome] }

/-- The data of the fragment as far as there is room. Too much of it, or the mark, end the
frame. -/
def add (s : Assembler α) (a : Fragment α) : Assembler α :=
  match s.current with
  | none => s
  | some (capacity, data) =>
    let data := data ++ a.data
    let s := { s with current := some (capacity, data.take capacity) }
    if capacity < data.length ∨ (a.last = true ∧ data.take capacity ≠ []) then s.finish else s

def step (s : Assembler α) (input : Fragment α × Option Nat) : Assembler α :=
  ((s.sync input.1).accept input.1 input.2).add input.1

end Assembler

/-- All fragments of a frame have one toggle bit, and only the last may be marked. -/
structure Whole (frame : List (Fragment α)) : Prop where
  nonempty : frame ≠ []
  toggle : ∀ a ∈ frame, ∀ b ∈ frame, a.toggle = b.toggle
  last : ∀ a ∈ frame.dropLast, a.last = false

structure Alternate (frames : List (List (Fragment α))) : Prop where
  whole : ∀ frame ∈ frames, Whole frame
  opposite : ∀ k frame next, frames[k]? = some frame → frames[k + 1]? = some next →
    ∀ a ∈ frame, ∀ b ∈ next, a.toggle ≠ b.toggle

def Assembler.held (s : Assembler α) : List (Nat × List α) :=
  s.done ++ s.current.toList.filter (!·.2.isEmpty)

def cut (buffer : Option Nat) (data : List α) : List (Nat × List α) :=
  if data.isEmpty then [] else buffer.toList.map fun capacity => (capacity, data.take capacity)

/-- How far a frame is. It has no buffer, or its data so far are in the buffer in use, or its
buffer is done, which was full or had the mark. -/
inductive Taking (before : List (Nat × List α)) (data : List α) (marked : Bool)
    (s : Assembler α) : Option Nat → Prop where
  | skipped (hcurrent : s.current = none) (hdone : s.done = before) :
      Taking before data marked s none
  | filling (capacity : Nat) (hcurrent : s.current = some (capacity, data))
      (hdone : s.done = before) (hfits : data.length ≤ capacity) :
      Taking before data marked s (some capacity)
  | closed (capacity : Nat) (hcurrent : s.current = none)
      (hdone : s.done = before ++ [(capacity, data.take capacity)]) (hdata : data ≠ [])
      (hends : capacity < data.length ∨ marked = true) :
      Taking before data marked s (some capacity)

variable {a : Fragment α} {s : Assembler α} {before : List (Nat × List α)} {data : List α}
  {marked : Bool} {buffer : Option Nat}

theorem Assembler.add_kept (s : Assembler α) (a : Fragment α) :
    (s.add a).toggle = s.toggle ∧ (s.add a).served = s.served := by
  rw [add]
  split
  · exact ⟨rfl, rfl⟩
  dsimp only
  split_ifs
  all_goals exact ⟨rfl, rfl⟩

theorem Taking.add (h : Taking before data false s buffer) (a : Fragment α) :
    Taking before (data ++ a.data) a.last (s.add a) buffer := by
  cases h with
  | skipped hcur hdone =>
    rw [add, hcur]
    exact .skipped hcur hdone
  | filling capacity hcur hdone hfits =>
    rw [add, hcur]
    dsimp only
    split_ifs with hends
    · refine .closed capacity rfl (by rw [← hdone]; rfl) ?_ (hends.imp_right And.left)
      rintro hnone
      simp [hnone] at hends
    · have hroom := Nat.not_lt.mp fun hlong => hends (.inl hlong)
      exact .filling capacity (by rw [take_of_length_le hroom]) hdone hroom
  | closed capacity hcur hdone hdata hends =>
    have hlong := hends.resolve_right Bool.false_ne_true
    rw [add, hcur]
    refine .closed capacity hcur ?_ (by simp [hdata]) (.inl ?_)
    · rw [take_append_of_le_length (Nat.le_of_lt hlong)]
      exact hdone
    · rw [length_append]
      omega

theorem Taking.more (h : Taking before data false s buffer) (htog : s.toggle = some a.toggle)
    (supply : Option Nat) :
    Taking before (data ++ a.data) a.last (s.step (a, supply)) buffer ∧
      (s.step (a, supply)).toggle = s.toggle ∧
      ∃ served, (s.step (a, supply)).served = s.served ++ [served] := by
  have hsync : s.sync a = s := by
    rw [sync]
    split
    · rfl
    · rfl
    · exact if_pos htog
  have hcur : (s.accept a supply).current = s.current := by simp [accept, htog]
  have haccept : Taking before data false (s.accept a supply) buffer := by
    cases h with
    | skipped hnone hdone => exact .skipped (hcur.trans hnone) hdone
    | filling capacity hsome hdone hfits =>
      exact .filling capacity (hcur.trans hsome) hdone hfits
    | closed capacity hnone hdone hdata hends =>
      exact .closed capacity (hcur.trans hnone) hdone hdata hends
  obtain ⟨htog', hserv⟩ := (s.accept a supply).add_kept a
  rw [step, hsync]
  exact ⟨haccept.add a, htog'.trans htog.symm, _, hserv⟩

/-- The first fragment of a frame. What is in the buffer in use is of the frame before. -/
theorem Taking.first (htog : s.toggle ≠ some a.toggle) (supply : Option Nat) :
    ∃ buffer, Taking s.held a.data a.last (s.step (a, supply)) buffer ∧
      (s.step (a, supply)).toggle = some a.toggle ∧
      (s.step (a, supply)).served = s.served ++ [buffer.isSome] := by
  have hsync : (s.sync a).toggle = s.toggle ∧ (s.sync a).served = s.served ∧
      (s.sync a).done = s.held ∧ ∀ b, (s.sync a).current = some b → b.2 = [] := by
    rw [sync]
    split
    · next hnone => simp [held, hnone]
    · next capacity hcur => simp [held, hcur]
    · next capacity first rest hcur => simp [held, finish, htog, hcur]
  obtain ⟨hsame, hserv, hdone, hempty⟩ := hsync
  have haccept : ∃ buffer, Taking s.held [] false ((s.sync a).accept a supply) buffer ∧
      ((s.sync a).accept a supply).served = s.served ++ [buffer.isSome] := by
    cases hcur : (s.sync a).current with
    | some b =>
      obtain ⟨capacity, data⟩ := b
      obtain rfl : data = [] := hempty _ hcur
      refine ⟨some capacity, .filling capacity ?_ hdone (Nat.zero_le _), ?_⟩
      · simp [accept, hcur]
      · simp [accept, hcur, hserv]
    | none =>
      cases supply with
      | none =>
        refine ⟨none, .skipped ?_ hdone, ?_⟩
        · simp [accept, hcur]
        · simp [accept, hcur, hserv]
      | some capacity =>
        refine ⟨some capacity, .filling capacity ?_ hdone (Nat.zero_le _), ?_⟩
        · simp [accept, hcur, hsame, htog]
        · simp [accept, hserv]
  obtain ⟨buffer, htaking, hserv'⟩ := haccept
  obtain ⟨htog', hserv''⟩ := ((s.sync a).accept a supply).add_kept a
  exact ⟨buffer, htaking.add a, htog', hserv''.trans hserv'⟩

theorem unmarked_cons {frame : List (Fragment α)} (h : ∀ b ∈ (a :: frame).dropLast, b.last = false)
    : (frame ≠ [] → a.last = false) ∧ ∀ b ∈ frame.dropLast, b.last = false := by
  cases frame with
  | nil => exact ⟨fun hne => absurd rfl hne, nofun⟩
  | cons b frame => exact ⟨fun _ => h a mem_cons_self, fun c hc => h c (mem_cons_of_mem _ hc)⟩

theorem Taking.rest (inputs : List (Fragment α × Option Nat))
    (h : Taking before data marked s buffer) (hmark : inputs.map Prod.fst ≠ [] → marked = false)
    (htog : ∀ b ∈ inputs.map Prod.fst, s.toggle = some b.toggle)
    (hlast : ∀ b ∈ (inputs.map Prod.fst).dropLast, b.last = false) :
    ∃ marked', Taking before (data ++ dataOf (inputs.map Prod.fst)) marked'
        (inputs.foldl Assembler.step s) buffer ∧
      (inputs.foldl Assembler.step s).toggle = s.toggle ∧
      ∃ served, (inputs.foldl Assembler.step s).served = s.served ++ served ∧
        served.length = inputs.length := by
  induction inputs generalizing s data marked with
  | nil => exact ⟨marked, by simpa [dataOf] using h, rfl, [], by simp, rfl⟩
  | cons input inputs ih =>
    obtain ⟨a, supply⟩ := input
    obtain rfl := hmark (cons_ne_nil _ _)
    obtain ⟨hmore, hsame, served, hserv⟩ := h.more (htog a mem_cons_self) supply
    obtain ⟨hnext, hlast'⟩ := unmarked_cons hlast
    obtain ⟨marked', htaking, htog', served', hserv', hlen⟩ := ih hmore hnext
      (fun b hb => hsame.trans (htog b (mem_cons_of_mem _ hb))) hlast'
    refine ⟨marked', ?_, htog'.trans hsame, served :: served', ?_, ?_⟩
    · simpa [dataOf] using htaking
    · rw [foldl_cons, hserv', hserv, append_assoc]
      rfl
    · rw [length_cons, hlen, length_cons]

theorem Taking.whole {inputs : List (Fragment α × Option Nat)}
    (hwhole : Whole (inputs.map Prod.fst))
    (hnew : ∀ b ∈ inputs.map Prod.fst, s.toggle ≠ some b.toggle) :
    ∃ buffer marked served, Taking s.held (dataOf (inputs.map Prod.fst)) marked
        (inputs.foldl Assembler.step s) buffer ∧
      (∀ b ∈ inputs.map Prod.fst, (inputs.foldl Assembler.step s).toggle = some b.toggle) ∧
      (inputs.foldl Assembler.step s).served = s.served ++ buffer.isSome :: served ∧
      (buffer.isSome :: served).length = inputs.length := by
  rcases inputs with _ | ⟨input, inputs⟩
  · exact absurd rfl hwhole.nonempty
  obtain ⟨a, supply⟩ := input
  have hone := hwhole.toggle a mem_cons_self
  obtain ⟨buffer, hfirst, htog, hserv⟩ := Taking.first (hnew a mem_cons_self) supply
  obtain ⟨hmark, hlast⟩ := unmarked_cons hwhole.last
  obtain ⟨marked, htaking, hsame, served, hserv', hlen⟩ := hfirst.rest inputs hmark
    (fun b hb => by rw [htog, hone b (mem_cons_of_mem _ hb)]) hlast
  refine ⟨buffer, marked, served, htaking, ?_, ?_, ?_⟩
  · intro b hb
    rw [← hone b hb, ← htog]
    exact hsame
  · rw [foldl_cons, hserv', hserv, append_assoc]
    rfl
  · rw [length_cons, hlen, length_cons]

theorem Taking.held (h : Taking before data marked s buffer) :
    s.held = before ++ cut buffer data := by
  cases h with
  | skipped hcur hdone => simp [held, cut, hcur, hdone]
  | filling capacity hcur hdone hfits =>
    cases data with
    | nil => simp [held, cut, hcur, hdone]
    | cons first rest => simp [held, cut, hcur, hdone, take_of_length_le hfits]
  | closed capacity hcur hdone hdata hends => simp [held, cut, hcur, hdone, hdata]

theorem Taking.done (h : Taking before data marked s buffer) :
    s.done = before ∨ s.done = before ++ cut buffer data := by
  cases h with
  | skipped hcur hdone => exact .inl hdone
  | filling capacity hcur hdone hfits => exact .inl hdone
  | closed capacity hcur hdone hdata hends =>
    right
    simp [cut, hdone, hdata]

/-- `out` tells which frame each buffer holds. Of the first `n` frames, one with data is
missing only if there was no buffer for its first fragment. -/
structure Delivers (n : Nat) (done : List (Nat × List α)) (served : List Bool)
    (frames : List (List (Fragment α))) (out : List (Nat × Nat × List α)) : Prop where
  done : out.map Prod.snd = done
  sorted : (out.map Prod.fst).Pairwise (· < ·)
  delivered : ∀ e ∈ out, ∃ frame, frames[e.1]? = some frame ∧ e.2.2 = (dataOf frame).take e.2.1
  missing : ∀ k frame, k < n → frames[k]? = some frame → dataOf frame ≠ [] →
    k ∈ out.map Prod.fst ∨ served[(frames.take k).flatten.length]? = some false

variable {n : Nat} {done : List (Nat × List α)} {served : List Bool}
  {frames : List (List (Fragment α))} {out : List (Nat × Nat × List α)}

theorem Delivers.lt_length (h : Delivers n done served frames out) {e : Nat × Nat × List α}
    (he : e ∈ out) : e.1 < frames.length := by
  obtain ⟨frame, hframe, -⟩ := h.delivered e he
  exact (List.getElem?_eq_some_iff.mp hframe).1

theorem Delivers.extend (h : Delivers frames.length done served frames out)
    (frame : List (Fragment α)) (more : List Bool) :
    Delivers frames.length done (served ++ more) (frames ++ [frame]) out := by
  refine ⟨h.done, h.sorted, ?_, ?_⟩
  · intro e he
    obtain ⟨frame', hframe, hdata⟩ := h.delivered e he
    exact ⟨frame', by rw [List.getElem?_append_left (h.lt_length he)]; exact hframe, hdata⟩
  intro k frame' hk hframe hdata
  rw [List.getElem?_append_left hk] at hframe
  rw [take_append_of_le_length (Nat.le_of_lt hk)]
  refine (h.missing k frame' hk hframe hdata).imp_right ?_
  intro hunserved
  rw [List.getElem?_append_left (List.getElem?_eq_some_iff.mp hunserved).1]
  exact hunserved

theorem Delivers.concat (h : Delivers frames.length done served frames out)
    (hserv : served.length = frames.flatten.length) (frame : List (Fragment α))
    (buffer : Option Nat) (more : List Bool) :
    ∃ out', Delivers (frames.length + 1) (done ++ cut buffer (dataOf frame))
      (served ++ buffer.isSome :: more) (frames ++ [frame]) out' := by
  have hextend := h.extend frame (buffer.isSome :: more)
  have hlast : (frames ++ [frame])[frames.length]? = some frame := List.getElem?_concat_length
  have hcases : (cut buffer (dataOf frame) = [] ∧ (dataOf frame = [] ∨ buffer = none)) ∨
      ∃ capacity, cut buffer (dataOf frame) = [(capacity, (dataOf frame).take capacity)] := by
    by_cases hdata : dataOf frame = []
    · exact .inl ⟨by simp [cut, hdata], .inl hdata⟩
    cases buffer with
    | none => exact .inl ⟨by simp [cut], .inr rfl⟩
    | some capacity => exact .inr ⟨capacity, by simp [cut, hdata]⟩
  rcases hcases with ⟨hnone, hwhy⟩ | ⟨capacity, hcut⟩
  · rw [hnone, append_nil]
    refine ⟨out, hextend.done, hextend.sorted, hextend.delivered, ?_⟩
    intro k frame' hk hframe hdata
    rcases Nat.lt_succ_iff_lt_or_eq.mp hk with hlt | rfl
    · exact hextend.missing k frame' hlt hframe hdata
    obtain rfl := Option.mem_unique hlast hframe
    obtain rfl := hwhy.resolve_left hdata
    right
    rw [take_left, ← hserv, List.getElem?_append_right (Nat.le_refl _), Nat.sub_self]
    rfl
  · rw [hcut]
    refine ⟨out ++ [(frames.length, capacity, (dataOf frame).take capacity)], ?_, ?_, ?_, ?_⟩
    · rw [map_append, h.done]
      rfl
    · rw [map_append, pairwise_append]
      refine ⟨h.sorted, pairwise_singleton _ _, ?_⟩
      intro i hi j hj
      obtain ⟨e, he, rfl⟩ := List.mem_map.mp hi
      obtain rfl := mem_singleton.mp hj
      exact h.lt_length he
    · intro e he
      rcases mem_append.mp he with he | he
      · exact hextend.delivered e he
      · obtain rfl := mem_singleton.mp he
        exact ⟨frame, hlast, rfl⟩
    · intro k frame' hk hframe hdata
      rw [map_append]
      rcases Nat.lt_succ_iff_lt_or_eq.mp hk with hlt | rfl
      · exact (hextend.missing k frame' hlt hframe hdata).imp_left (mem_append_left _)
      · exact .inl (mem_append_right _ mem_cons_self)

variable {frame : List (Fragment α)} {inputs : List (Fragment α × Option Nat)}

theorem Alternate.dropLast (h : Alternate (frames ++ [frame])) : Alternate frames := by
  refine ⟨fun f hf => h.whole f (mem_append_left _ hf), ?_⟩
  intro k f next hf hnext
  have hk := (List.getElem?_eq_some_iff.mp hf).1
  have hk' := (List.getElem?_eq_some_iff.mp hnext).1
  apply h.opposite k f next
  · rw [List.getElem?_append_left hk]
    exact hf
  · rw [List.getElem?_append_left hk']
    exact hnext

structure Taken (s : Assembler α) (frames : List (List (Fragment α))) : Prop where
  delivers : ∃ out, Delivers frames.length s.held s.served frames out
  served : s.served.length = frames.flatten.length
  toggle : ∀ k frame, frames[k]? = some frame → k + 1 = frames.length →
    ∀ b ∈ frame, s.toggle = some b.toggle
  fresh : frames = [] → s.toggle = none

/-- The next frame after them has the other toggle bit. -/
theorem Taken.toggle_ne (h : Taken s frames) (halt : Alternate (frames ++ [frame])) :
    ∀ b ∈ frame, s.toggle ≠ some b.toggle := by
  intro b hb htog
  rcases eq_nil_or_concat' frames with rfl | ⟨past, previous, rfl⟩
  · rw [h.fresh rfl] at htog
    cases htog
  have hprevious := (halt.whole previous (by simp)).nonempty
  obtain ⟨c, hc⟩ := exists_mem_of_ne_nil previous hprevious
  have hsame := h.toggle past.length previous List.getElem?_concat_length (by simp) c hc
  exact halt.opposite past.length previous frame (by simp) (by simp) c hc b hb
    (Option.mem_unique hsame htog)

theorem split_last (hins : inputs.map Prod.fst = (frames ++ [frame]).flatten) :
    ∃ before last, inputs = before ++ last ∧ before.map Prod.fst = frames.flatten ∧
      last.map Prod.fst = frame := by
  rw [flatten_append, flatten_singleton] at hins
  exact map_eq_append_iff.mp hins

theorem taken_run (frames : List (List (Fragment α))) (halt : Alternate frames)
    (inputs : List (Fragment α × Option Nat)) (hins : inputs.map Prod.fst = frames.flatten) :
    Taken (inputs.foldl Assembler.step .start) frames := by
  induction frames using List.reverseRecOn generalizing inputs with
  | nil =>
    obtain rfl := map_eq_nil_iff.mp hins
    exact ⟨⟨[], rfl, List.Pairwise.nil, nofun, nofun⟩, rfl, nofun, fun _ => rfl⟩
  | append_singleton frames frame ih =>
    obtain ⟨before, last, rfl, hpre, rfl⟩ := split_last hins
    have htaken := ih halt.dropLast before hpre
    obtain ⟨buffer, marked, more, htaking, htog, hserv, hlen⟩ :=
      Taking.whole (halt.whole _ (by simp)) (htaken.toggle_ne halt)
    obtain ⟨out, hdelivers⟩ := htaken.delivers
    rw [foldl_append]
    refine ⟨?_, ?_, ?_, by simp⟩
    · rw [htaking.held, hserv, length_append]
      exact hdelivers.concat htaken.served _ buffer more
    · rw [hserv, length_append, hlen, htaken.served]
      simp
    intro k frame' hframe hk
    obtain rfl : k = frames.length := by simpa using hk
    rw [List.getElem?_concat_length] at hframe
    obtain rfl := Option.some.inj hframe
    exact htog

/-- However buffers are supplied, the buffers done hold the frames. -/
theorem delivers_run {frames : List (List (Fragment α))} (halt : Alternate frames)
    (hins : inputs.map Prod.fst = frames.flatten) :
    ∃ out, Delivers (frames.length - 1) (inputs.foldl Assembler.step .start).done
      (inputs.foldl Assembler.step .start).served frames out := by
  rcases eq_nil_or_concat' frames with rfl | ⟨past, frame, rfl⟩
  · obtain rfl := map_eq_nil_iff.mp hins
    exact ⟨[], rfl, List.Pairwise.nil, nofun, nofun⟩
  obtain ⟨before, last, rfl, hpre, rfl⟩ := split_last hins
  have htaken := taken_run past halt.dropLast before hpre
  obtain ⟨buffer, marked, more, htaking, -, hserv, -⟩ :=
    Taking.whole (halt.whole _ (by simp)) (htaken.toggle_ne halt)
  obtain ⟨out, hdelivers⟩ := htaken.delivers
  rw [foldl_append, hserv, length_append, length_singleton]
  rcases htaking.done with hdone | hdone
  · rw [hdone]
    exact ⟨out, hdelivers.extend _ _⟩
  rw [hdone]
  obtain ⟨out', hconcat⟩ := hdelivers.concat htaken.served _ buffer more
  exact ⟨out', hconcat.done, hconcat.sorted, hconcat.delivered,
    fun k frame hk => hconcat.missing k frame (Nat.lt_succ_of_lt hk)⟩

end TbsMedia.Lib
