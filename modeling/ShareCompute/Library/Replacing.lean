import Mathlib.Data.List.Infix

namespace ShareCompute.Library

/-!
# Replacing what is found

One pass over a text from the left: where something is found it is replaced, and the pass goes on
behind it.

* `replaceAll` — the pass; `find` says how much is found at the front of a text.
* `Marked` — the replacement begins and ends outside of a class of letters, but for a beginning
  that what is replaced has in common with it.
* `infix_of_replaceAll` — a word of that class that is in the result was in the text.
* `not_infix_replaceAll` — a word of that class that is found wherever it stands is in no result.
-/

namespace Replacing

variable {α : Type} (find : List α → ℕ) (replacement : List α)

/-- The pass, with `skip` more letters of what has just been found in front of it. -/
def replaceFrom : ℕ → List α → List α
  | _, [] => []
  | skip + 1, _ :: text => replaceFrom skip text
  | 0, a :: text =>
      match find (a :: text) with
      | 0 => a :: replaceFrom 0 text
      | length + 1 => replacement ++ replaceFrom length text

/-- All that is found, from the left, is replaced. -/
def replaceAll (text : List α) : List α := replaceFrom find replacement 0 text

/-- There is nothing to replace in an empty text. -/
@[simp] theorem replaceAll_nil : replaceAll find replacement [] = [] := rfl

/-- While a match is being skipped, what is left is the text behind it. -/
theorem replaceFrom_eq_drop (skip : ℕ) (text : List α) :
    replaceFrom find replacement skip text = replaceAll find replacement (text.drop skip) := by
  induction text generalizing skip with
  | nil =>
    rw [List.drop_nil]
    cases skip <;> rfl
  | cons a text ih =>
    cases skip with
    | zero => rfl
    | succ skip => exact ih skip

variable {find replacement} {a : α} {text word : List α}

/-- Where nothing is found the element is kept, and the search goes on behind it. -/
theorem replaceAll_cons_of_zero (h : find (a :: text) = 0) :
    replaceAll find replacement (a :: text) = a :: replaceAll find replacement text := by
  rw [replaceAll, replaceFrom, h]
  rfl

/-- Where something is found the replacement stands for it, and the search goes on behind the
    match. -/
theorem replaceAll_cons_of_succ {length : ℕ} (h : find (a :: text) = length + 1) :
    replaceAll find replacement (a :: text)
      = replacement ++ replaceAll find replacement (text.drop length) := by
  rw [replaceAll, replaceFrom, h]
  exact congrArg (replacement ++ ·) (replaceFrom_eq_drop ..)

/-- **Pass induction**: the pass takes a letter, or what it finds. -/
theorem pass_induction (find : List α → ℕ) {P : List α → Prop} (nil : P [])
    (keep : ∀ a text, find (a :: text) = 0 → P text → P (a :: text))
    (found : ∀ a text length, find (a :: text) = length + 1 → P (text.drop length) →
      P (a :: text)) (text : List α) : P text := by
  have key : ∀ (n : ℕ) (text : List α), text.length ≤ n → P text := by
    intro n
    induction n with
    | zero =>
      intro text hlength
      obtain rfl := List.eq_nil_of_length_eq_zero (Nat.le_zero.mp hlength)
      exact nil
    | succ n ih =>
      intro text hlength
      cases text with
      | nil => exact nil
      | cons a text =>
        rw [List.length_cons] at hlength
        cases hfind : find (a :: text) with
        | zero => exact keep a text hfind (ih text (by omega))
        | succ length =>
          refine found a text length hfind (ih _ ?_)
          rw [List.length_drop]
          omega
  exact key text.length text le_rfl

/-- Where nothing is found nothing changes, by induction over the text. -/
theorem replaceAll_eq_self (h : ∀ rest, rest <:+ text → rest ≠ [] → find rest = 0) :
    replaceAll find replacement text = text := by
  induction text with
  | nil => rfl
  | cons a text ih =>
    rw [replaceAll_cons_of_zero (h _ List.suffix_rfl (List.cons_ne_nil a text)),
      ih fun rest hrest => h rest (hrest.trans (List.suffix_cons ..))]

/-! ### Words in the result -/

/-- A word without `z` does not reach across it. -/
theorem infix_of_notMem {z : α} {front back : List α} (h : word <:+: front ++ z :: back)
    (hz : z ∉ word) : word <:+: front ∨ word <:+: back := by
  obtain ⟨before, after, heq⟩ := h
  rw [List.append_assoc] at heq
  rcases List.append_eq_append_iff.mp heq with ⟨c, rfl, hrest⟩ | ⟨c, rfl, hrest⟩
  · -- it begins in the front
    rcases List.append_eq_append_iff.mp hrest with ⟨d, rfl, -⟩ | ⟨d, rfl, hback⟩
    · exact .inl ⟨before, d, by rw [List.append_assoc]⟩
    · cases d with
      | nil => exact .inl ⟨before, [], by simp⟩
      | cons y d =>
        obtain rfl : y = z := (List.cons.inj hback).1.symm
        exact absurd (List.mem_append_right _ List.mem_cons_self) hz
  · cases c with
    | nil =>
      cases word with
      | nil => exact .inl (List.nil_infix)
      | cons y word =>
        obtain rfl : z = y := (List.cons.inj hrest).1
        exact absurd List.mem_cons_self hz
    | cons y c =>
      refine .inr ⟨c, after, ?_⟩
      rw [List.append_assoc]
      exact (List.cons.inj hrest).2.symm

/-- A word without `z` that is a prefix ends before it. -/
theorem prefix_of_notMem {z : α} {front back : List α} (h : word <+: front ++ z :: back)
    (hz : z ∉ word) : word <+: front := by
  have hfront := List.prefix_append front (z :: back)
  rcases List.prefix_or_prefix_of_prefix h hfront with h' | ⟨c, rfl⟩
  · exact h'
  · rw [List.prefix_append_right_inj] at h
    cases c with
    | nil => rw [List.append_nil]
    | cons y c =>
      obtain rfl : y = z := (List.cons_prefix_cons.mp h).1
      exact absurd (List.mem_append_right _ List.mem_cons_self) hz

/-- **What marks a replacement** for words of letters in `T`. -/
structure Marked (find : List α → ℕ) (replacement : List α) (T : α → Prop) : Prop where
  opened : ∃ front z back, replacement = front ++ z :: back ∧ ¬ T z ∧
    ∀ text, find text ≠ 0 → front <+: text
  closed : ∃ front z, replacement = front ++ [z] ∧ ¬ T z

variable {T : α → Prop}

/-- A word at the front of the result was at the front of the text. -/
theorem prefix_of_replaceAll (hmarked : Marked find replacement T) (hword : ∀ c ∈ word, T c)
    (h : word <+: replaceAll find replacement text) : word <+: text := by
  obtain ⟨front, z, back, hreplacement, hz, hfront⟩ := hmarked.opened
  induction text using pass_induction find generalizing word with
  | nil => exact h
  | keep a text hfind ih =>
    rw [replaceAll_cons_of_zero hfind] at h
    cases word with
    | nil => exact List.nil_prefix
    | cons b word =>
      obtain ⟨rfl, hrest⟩ := List.cons_prefix_cons.mp h
      refine List.cons_prefix_cons.mpr ⟨rfl, ih (fun c hc => ?_) hrest⟩
      exact hword c (List.mem_cons_of_mem _ hc)
  | found a text length hfind ih =>
    rw [replaceAll_cons_of_succ hfind, hreplacement, List.append_assoc, List.cons_append] at h
    exact (prefix_of_notMem h fun hmem => hz (hword z hmem)).trans (hfront _ (by omega))

/-- **A word in the result was in the text**, if it is not in the replacement. -/
theorem infix_of_replaceAll (hmarked : Marked find replacement T) (hword : ∀ c ∈ word, T c)
    (hnot : ¬ word <:+: replacement) (h : word <:+: replaceAll find replacement text) :
    word <:+: text := by
  obtain ⟨front, z, hclosed, hz⟩ := hmarked.closed
  induction text using pass_induction find with
  | nil => exact h
  | keep a text hfind ih =>
    rw [replaceAll_cons_of_zero hfind] at h
    rcases List.infix_cons_iff.mp h with hprefix | hrest
    · rw [← replaceAll_cons_of_zero hfind] at hprefix
      exact (prefix_of_replaceAll hmarked hword hprefix).isInfix
    · exact (ih hrest).trans (List.suffix_cons a text).isInfix
  | found a text length hfind ih =>
    have hsplit : replaceAll find replacement (a :: text)
        = front ++ z :: replaceAll find replacement (text.drop length) := by
      rw [replaceAll_cons_of_succ hfind]
      conv_lhs => rw [hclosed, List.append_assoc, List.singleton_append, ← hclosed]
    rw [hsplit] at h
    rcases infix_of_notMem h fun hmem => hz (hword z hmem) with hfront | hrest
    · refine absurd (hfront.trans ?_) hnot
      rw [hclosed]
      exact (List.prefix_append ..).isInfix
    · exact (ih hrest).trans
        ((List.drop_suffix length text).trans (List.suffix_cons a text)).isInfix

/-- **A word that is always found is gone.** -/
theorem not_infix_replaceAll (hmarked : Marked find replacement T) (hword : ∀ c ∈ word, T c)
    (hnot : ¬ word <:+: replacement) (hfound : ∀ text, word <+: text → find text ≠ 0) :
    ¬ word <:+: replaceAll find replacement text := by
  obtain ⟨front, z, hclosed, hz⟩ := hmarked.closed
  induction text using pass_induction find with
  | nil =>
    intro h
    obtain rfl := List.infix_nil.mp h
    exact hnot (List.nil_infix)
  | keep a text hfind ih =>
    intro h
    rw [replaceAll_cons_of_zero hfind] at h
    rcases List.infix_cons_iff.mp h with hprefix | hrest
    · rw [← replaceAll_cons_of_zero hfind] at hprefix
      exact hfound _ (prefix_of_replaceAll hmarked hword hprefix) hfind
    · exact ih hrest
  | found a text length hfind ih =>
    intro h
    have hsplit : replaceAll find replacement (a :: text)
        = front ++ z :: replaceAll find replacement (text.drop length) := by
      rw [replaceAll_cons_of_succ hfind]
      conv_lhs => rw [hclosed, List.append_assoc, List.singleton_append, ← hclosed]
    rw [hsplit] at h
    rcases infix_of_notMem h fun hmem => hz (hword z hmem) with hfront | hrest
    · refine hnot (hfront.trans ?_)
      rw [hclosed]
      exact (List.prefix_append ..).isInfix
    · exact ih hrest

end Replacing

end ShareCompute.Library
