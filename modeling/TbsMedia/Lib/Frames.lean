import Mathlib.Tactic

/-!
Streams of frames of one fixed size, cut at arbitrary places. A frame is known
by its first element; what follows the last whole frame is the front of another
one.
-/

namespace TbsMedia.Lib

open List

variable {α : Type*}

/-- Frames of `n` elements with a first element that satisfies `start`, and a
tail that is too short to be one. -/
structure Framed (n : Nat) (start : α → Prop) (frames : List (List α))
    (tail : List α) : Prop where
  length : ∀ frame ∈ frames, frame.length = n
  first : ∀ frame ∈ frames, ∀ b ∈ frame.head?, start b
  tailLength : tail.length < n
  tailFirst : ∀ b ∈ tail.head?, start b

namespace Framed

variable {n : Nat} {start : α → Prop} {frames : List (List α)} {tail : List α}

theorem cons {frame : List α} (hlen : frame.length = n) (hfirst : ∀ b ∈ frame.head?, start b)
    (hrest : Framed n start frames tail) : Framed n start (frame :: frames) tail := by
  refine ⟨?_, ?_, hrest.tailLength, hrest.tailFirst⟩
  · intro f hf
    rcases mem_cons.mp hf with rfl | hf
    · exact hlen
    · exact hrest.length f hf
  · intro f hf
    rcases mem_cons.mp hf with rfl | hf
    · exact hfirst
    · exact hrest.first f hf

theorem uncons {frame : List α} (hframed : Framed n start (frame :: frames) tail) :
    frame.length = n ∧ (∀ b ∈ frame.head?, start b) ∧ Framed n start frames tail :=
  ⟨hframed.length frame (by simp), hframed.first frame (by simp),
    fun f hf => hframed.length f (by simp [hf]),
    fun f hf => hframed.first f (by simp [hf]), hframed.tailLength, hframed.tailFirst⟩

theorem right {now later : List (List α)} (hframed : Framed n start (now ++ later) tail) :
    Framed n start later tail :=
  ⟨fun f hf => hframed.length f (mem_append_right _ hf),
    fun f hf => hframed.first f (mem_append_right _ hf),
    hframed.tailLength, hframed.tailFirst⟩

theorem nil (hn : 0 < n) : Framed n start [] [] := ⟨by simp, by simp, hn, by simp⟩

variable (hframed : Framed n start frames tail)
include hframed

theorem eq_nil (hshort : (frames.flatten ++ tail).length < n) : frames = [] := by
  rcases frames with _ | ⟨frame, frames⟩
  · rfl
  have hframe := hframed.uncons.1
  simp only [flatten_cons, length_append] at hshort
  omega

theorem head (hn : 0 < n) : ∀ b ∈ (frames.flatten ++ tail).head?, start b := by
  rcases frames with _ | ⟨frame, rest⟩
  · simpa using hframed.tailFirst
  obtain ⟨hlen, hfirst, -⟩ := hframed.uncons
  cases frame with
  | nil => simp at hlen; omega
  | cons b frame => simpa using hfirst

/-- Wherever the stream is cut, the part in front of the cut is again a
sequence of frames with a tail, and that tail is completed by what follows. -/
theorem split (xs rest : List α) (hcut : xs ++ rest = frames.flatten ++ tail) :
    ∃ now later tail', frames = now ++ later ∧ xs = now.flatten ++ tail' ∧
      tail' ++ rest = later.flatten ++ tail ∧ Framed n start now tail' := by
  induction frames generalizing xs with
  | nil =>
    refine ⟨[], [], xs, rfl, rfl, hcut, by simp, by simp, ?_, ?_⟩
    · have hsizes := congrArg List.length hcut
      have htail := hframed.tailLength
      simp only [length_append, flatten_nil, length_nil] at hsizes
      omega
    intro b hb
    apply hframed.tailFirst b
    rcases xs with _ | ⟨x, xs⟩
    · simp at hb
    simp only [flatten_nil, nil_append] at hcut
    rw [← hcut]
    exact hb
  | cons frame frames ih =>
    obtain ⟨hlen, hfirst, htail⟩ := hframed.uncons
    rw [flatten_cons, append_assoc] at hcut
    by_cases hshort : xs.length < n
    · refine ⟨[], frame :: frames, xs, rfl, rfl, ?_, by simp, by simp, hshort, ?_⟩
      · rw [flatten_cons, append_assoc, hcut]
      intro b hb
      apply hfirst b
      obtain ⟨more, hmore⟩ : xs <+: frame := prefix_of_prefix_length_le
        (prefix_append xs rest) ⟨_, hcut.symm⟩ (by omega)
      rw [← hmore, List.head?_append_of_ne_nil _ (by rintro rfl; simp at hb)]
      exact hb
    · obtain ⟨xs', hxs⟩ : frame <+: xs := prefix_of_prefix_length_le
        ⟨_, hcut.symm⟩ (prefix_append xs rest) (by omega)
      subst hxs
      rw [append_assoc, append_cancel_left_eq] at hcut
      obtain ⟨now, later, tail', hframes, hxs', hrest, hnow⟩ := ih htail xs' hcut
      refine ⟨frame :: now, later, tail', by rw [hframes]; rfl, ?_, hrest, hnow.cons hlen hfirst⟩
      rw [hxs', flatten_cons, append_assoc]

end Framed

end TbsMedia.Lib
