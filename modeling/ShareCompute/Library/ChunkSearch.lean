import Mathlib.Data.List.DropRight
import Mathlib.Data.List.Infix

namespace ShareCompute.Library

/-!
# Searching a text piece by piece

To find a word in a text that comes in pieces it is enough to keep, of what came before, one
letter less than the word has: an occurrence that starts earlier ends earlier as well.

* `infix_append_iff` — the occurrences in two pieces.
-/

variable {α : Type}

theorem length_rtake_le (l : List α) (n : ℕ) : (l.rtake n).length ≤ n := by
  rw [List.rtake, List.length_drop]
  omega

theorem rtake_suffix (l : List α) (n : ℕ) : l.rtake n <:+ l := List.drop_suffix _ _

/-- An end that is short enough is part of the end that is kept. -/
theorem suffix_rtake {s l : List α} {n : ℕ} (h : s <:+ l) (hlength : s.length ≤ n) :
    s <:+ l.rtake n := by
  obtain ⟨front, rfl⟩ := h
  rw [List.rtake, List.length_append, List.drop_append_of_le_length (by omega)]
  exact List.suffix_append _ _

/-- What is kept of two pieces is kept of the second one, if that is long enough. -/
theorem rtake_append {l l' : List α} {n : ℕ} (h : n ≤ l'.length) :
    (l ++ l').rtake n = l'.rtake n := by
  rw [List.rtake, List.rtake, List.length_append, List.drop_append,
    List.drop_eq_nil_of_le (by omega), List.nil_append]
  congr 1
  omega

/-- A word is too long for what is kept. -/
theorem not_infix_of_length_lt {word l : List α} (h : l.length < word.length) : ¬ word <:+: l :=
  fun hinfix => absurd hinfix.length_le (Nat.not_le.mpr h)

/-- **Two pieces.**  A word occurs in them if it occurs in the first one, or in the second one
    with the last letters of the first one in front of it. -/
theorem infix_append_iff {word : List α} (hword : word ≠ []) (l l' : List α) :
    word <:+: l ++ l' ↔ word <:+: l ∨ word <:+: l.rtake (word.length - 1) ++ l' := by
  constructor
  · rintro ⟨front, back, h⟩
    rcases List.append_eq_append_iff.mp h with ⟨c, rfl, -⟩ | ⟨c, hl, rfl⟩
    · -- the occurrence ends in the first piece
      exact .inl ⟨front, c, rfl⟩
    · rcases List.append_eq_append_iff.mp hl with ⟨d, rfl, rfl⟩ | ⟨d, rfl, rfl⟩
      · by_cases hc : c = []
        · subst hc
          exact .inl ⟨front, [], by simp⟩
        · -- it starts in the first piece and is longer than its part there
          have hlength : d.length ≤ (d ++ c).length - 1 := by
            have hpos := List.length_pos_of_ne_nil hc
            rw [List.length_append]
            omega
          obtain ⟨e, he⟩ := suffix_rtake (List.suffix_append front d) hlength
          refine .inr ⟨e, back, ?_⟩
          rw [← he]
          simp only [List.append_assoc]
      · exact .inr ⟨l.rtake (word.length - 1) ++ d, back, by simp only [List.append_assoc]⟩
  · rintro (h | h)
    · exact List.infix_append_of_infix_left h
    · obtain ⟨front, hfront⟩ := rtake_suffix l (word.length - 1)
      refine h.trans ⟨front, [], ?_⟩
      rw [List.append_nil, ← List.append_assoc, hfront]

end ShareCompute.Library
