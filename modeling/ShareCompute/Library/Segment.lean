import ShareCompute.Library.Runs
import Mathlib.Data.List.Infix

namespace ShareCompute.Library

/-!
# The last segment of a sequence

What has happened since something was last started over: the longest end of a sequence in which
every element is related to the one before.

* `segment_snoc_of_rel`, `segment_snoc_of_not` — the segment, one element later.
* `isChain_segment`, `segment_suffix`, `suffix_segment` — it is the longest such end.
-/

section

variable {α : Type} (R : α → α → Prop) [DecidableRel R]

/-- The longest end in which neighbours are related. -/
def segment : List α → List α
  | [] => []
  | a :: l => if (a :: l).IsChain R then a :: l else segment l

/-- In the segment every element is related to the next one. -/
theorem isChain_segment (l : List α) : (segment R l).IsChain R := by
  induction l with
  | nil => exact .nil
  | cons a l ih =>
    rw [segment]
    split
    case isTrue h => exact h
    case isFalse => exact ih

/-- The segment is the end of the list. -/
theorem segment_suffix (l : List α) : segment R l <:+ l := by
  induction l with
  | nil => exact List.suffix_rfl
  | cons a l ih =>
    rw [segment]
    split
    case isTrue => exact List.suffix_rfl
    case isFalse => exact ih.trans (List.suffix_cons a l)

/-- No end that is longer has only related neighbours. -/
theorem suffix_segment {s l : List α} (hs : s.IsChain R) (hsuffix : s <:+ l) :
    s <:+ segment R l := by
  induction l with
  | nil => exact hsuffix
  | cons a l ih =>
    rw [segment]
    split
    case isTrue => exact hsuffix
    case isFalse hbreak =>
      rcases List.suffix_cons_iff.mp hsuffix with rfl | hsuffix
      · exact absurd hs hbreak
      · exact ih hsuffix

/-- A list in which all neighbours are related is its own segment. -/
theorem segment_eq_self {l : List α} (h : l.IsChain R) : segment R l = l :=
  (segment_suffix R l).eq_of_length_le ((suffix_segment R h List.suffix_rfl).length_le)

/-- The segment ends as the list does. -/
theorem getLast?_segment (l : List α) : (segment R l).getLast? = l.getLast? := by
  induction l with
  | nil => rfl
  | cons a l ih =>
    rw [segment]
    split
    case isTrue => rfl
    case isFalse hbreak =>
      cases l with
      | nil => exact absurd (.singleton a) hbreak
      | cons b l => rw [ih, List.getLast?_cons_cons]

/-- An element that is related to the last one belongs to its segment. -/
theorem segment_snoc_of_rel {l : List α} {a : α} (h : ∀ b ∈ l.getLast?, R b a) :
    segment R (l ++ [a]) = segment R l ++ [a] := by
  have hlonger : segment R l ++ [a] <:+ segment R (l ++ [a]) := by
    refine suffix_segment R (isChain_snoc.mpr ⟨isChain_segment R l, ?_⟩)
      (List.suffix_append_self_iff.mpr (segment_suffix R l))
    rwa [getLast?_segment]
  refine (hlonger.eq_of_length_le ?_).symm
  rcases List.suffix_concat_iff.mp (segment_suffix R (l ++ [a])) with hnil | ⟨s, hs, hsuffix⟩
  · rw [hnil]
    exact Nat.zero_le _
  · have hchain := isChain_segment R (l ++ [a])
    rw [hs] at hchain ⊢
    have hle := (suffix_segment R (isChain_snoc.mp hchain).1 hsuffix).length_le
    simpa using hle

/-- An element that is not related to the last one begins a segment of its own. -/
theorem segment_snoc_of_not {l : List α} {a b : α} (hb : b ∈ l.getLast?) (h : ¬ R b a) :
    segment R (l ++ [a]) = [a] := by
  have hlonger : [a] <:+ segment R (l ++ [a]) :=
    suffix_segment R (.singleton a) (List.suffix_append l [a])
  refine (hlonger.eq_of_length_le ?_).symm
  rcases List.suffix_concat_iff.mp (segment_suffix R (l ++ [a])) with hnil | ⟨s, hs, hsuffix⟩
  · rw [hnil]
    exact Nat.zero_le _
  · have hchain := isChain_segment R (l ++ [a])
    rw [hs] at hchain ⊢
    -- an end of `l` that is not empty ends with `b`, which is not related to `a`
    cases s using List.reverseRecOn with
    | nil => exact Nat.le_refl _
    | append_singleton s c =>
      have hc : l.getLast? = some c := by
        obtain ⟨t, rfl⟩ := hsuffix
        simp
      obtain rfl : b = c := Option.some.inj (hb.symm.trans hc)
      exact absurd ((isChain_snoc.mp hchain).2 b (by simp)) h

end

end ShareCompute.Library
