import Mathlib.Data.List.TakeWhile

namespace ShareCompute.Library

/-!
# Finding every match of a pattern

A pattern says what it reads at the start of a text: a result, and the text behind the match.
`findAll` looks for matches from left to right and goes on behind each one, so a match that
starts inside the one before is passed over.

* `mem_findAll` — where no match starts inside another one (`Apart`), every match is found.
* `occurs_append` — what is found behind a text in which none starts.
* `takeWhile_eq_iff` — what a greedy repetition reads.
-/

variable {α β : Type}

/-! ### Greedy repetitions -/

/-- The text does not go on with a letter of the class. -/
def Stops (p : α → Bool) (text : List α) : Prop := ∀ a ∈ text.head?, p a = false

/-- A run stops before an element exactly if that does not belong to it. -/
theorem stops_cons {p : α → Bool} {a : α} {text : List α} : Stops p (a :: text) ↔ p a = false := by
  simp [Stops]

/-- What is left when a run was dropped stops the run. -/
theorem stops_dropWhile (p : α → Bool) (text : List α) : Stops p (text.dropWhile p) := by
  induction text with
  | nil => simp [Stops]
  | cons a text ih =>
    rw [List.dropWhile_cons]
    split
    · exact ih
    · rename_i ha
      exact stops_cons.mpr (Bool.not_eq_true _ ▸ ha)

/-- A run is taken up to what stops it. -/
theorem takeWhile_append_stops {p : α → Bool} {front rest : List α}
    (hall : ∀ a ∈ front, p a = true) (hstops : Stops p rest) :
    (front ++ rest).takeWhile p = front := by
  rw [List.takeWhile_append_of_pos hall]
  cases rest with
  | nil => simp
  | cons a rest => simp [stops_cons.mp hstops]

/-- A run is dropped up to what stops it. -/
theorem dropWhile_append_stops {p : α → Bool} {front rest : List α}
    (hall : ∀ a ∈ front, p a = true) (hstops : Stops p rest) :
    (front ++ rest).dropWhile p = rest := by
  rw [List.dropWhile_append_of_pos hall]
  cases rest with
  | nil => simp
  | cons a rest => simp [stops_cons.mp hstops]

/-- The longest run of letters of a class is one that stops. -/
theorem takeWhile_eq_iff {p : α → Bool} {text front : List α} :
    text.takeWhile p = front
      ↔ (∀ a ∈ front, p a = true) ∧ ∃ rest, text = front ++ rest ∧ Stops p rest := by
  constructor
  · rintro rfl
    exact ⟨fun a ha => List.mem_takeWhile_imp ha, text.dropWhile p, by simp, stops_dropWhile p text⟩
  · rintro ⟨hall, rest, rfl, hstops⟩
    exact takeWhile_append_stops hall hstops

/-! ### All matches -/

/-- The results of the matches, from left to right.  The text gets shorter with every round. -/
def findAll (pattern : List α → Option (β × List α)) : ℕ → List α → List β
  | 0, _ | _ + 1, [] => []
  | rounds + 1, a :: text =>
      match pattern (a :: text) with
      | some (b, rest) => b :: findAll pattern rounds rest
      | none => findAll pattern rounds text

/-- Somewhere in the text the pattern reads `b`. -/
def Occurs (pattern : List α → Option (β × List α)) (text : List α) (b : β) : Prop :=
  ∃ before found rest, text = before ++ found ∧ pattern found = some (b, rest)

/-- No match starts inside `inner`, whatever it goes on into `rest`. -/
def Clear (pattern : List α → Option (β × List α)) (inner rest : List α) : Prop :=
  ∀ front back, inner = front ++ back → back ≠ [] → pattern (back ++ rest) = none

/-- A match takes up some of the text, and no other one starts inside it. -/
def Apart (pattern : List α → Option (β × List α)) : Prop :=
  ∀ text b rest, pattern text = some (b, rest) →
    ∃ a inner, text = a :: (inner ++ rest) ∧ Clear pattern inner rest

variable {pattern : List α → Option (β × List α)}

/-- Where no match starts, none is found. -/
theorem occurs_append {inner rest : List α} (h : Clear pattern inner rest) (b : β) :
    Occurs pattern (inner ++ rest) b ↔ Occurs pattern rest b := by
  constructor
  · rintro ⟨before, found, rest', htext, hfound⟩
    rcases List.append_eq_append_iff.mp htext with ⟨back, rfl, hrest⟩ | ⟨back, rfl, hfront⟩
    · exact ⟨back, found, rest', hrest, hfound⟩
    · by_cases hback : back = []
      · subst hback
        exact ⟨[], found, rest', by simpa using hfront.symm, hfound⟩
      · have hnone := h before back rfl hback
        rw [← hfront, hfound] at hnone
        cases hnone
  · rintro ⟨before, found, rest', rfl, hfound⟩
    exact ⟨inner ++ before, found, rest', (List.append_assoc ..).symm, hfound⟩

/-- A match starts with the text or behind its first letter. -/
theorem occurs_cons (a : α) (text : List α) (b : β) :
    Occurs pattern (a :: text) b
      ↔ (∃ rest, pattern (a :: text) = some (b, rest)) ∨ Occurs pattern text b := by
  constructor
  · rintro ⟨before, found, rest, htext, hfound⟩
    cases before with
    | nil => exact .inl ⟨rest, by rw [htext]; exact hfound⟩
    | cons c before => exact .inr ⟨before, found, rest, (List.cons.inj htext).2, hfound⟩
  · rintro (⟨rest, h⟩ | ⟨before, found, rest, rfl, hfound⟩)
    · exact ⟨[], a :: text, rest, rfl, h⟩
    · exact ⟨a :: before, found, rest, rfl, hfound⟩

/-- **Every match is found**, where none starts inside another one. -/
theorem mem_findAll (h : Apart pattern) {rounds : ℕ} {text : List α}
    (hrounds : text.length ≤ rounds) (b : β) :
    b ∈ findAll pattern rounds text ↔ Occurs pattern text b := by
  have hnil : ¬ Occurs pattern [] b := by
    rintro ⟨before, found, rest, htext, hfound⟩
    obtain ⟨-, rfl⟩ := List.append_eq_nil_iff.mp htext.symm
    obtain ⟨a, inner, heq, -⟩ := h _ _ _ hfound
    cases heq
  -- each round drops a character or a match, so the text is used up in time
  induction rounds generalizing text with
  | zero =>
    obtain rfl := List.length_eq_zero_iff.mp (Nat.le_zero.mp hrounds)
    exact iff_of_false List.not_mem_nil hnil
  | succ rounds ih =>
    cases text with
    | nil => exact iff_of_false List.not_mem_nil hnil
    | cons a text =>
      rw [List.length_cons] at hrounds
      rw [findAll, occurs_cons]
      cases hmatch : pattern (a :: text) with
      | none =>
        have hshort : text.length ≤ rounds := by omega
        simp [ih hshort]
      | some result =>
        obtain ⟨b', rest⟩ := result
        -- no other occurrence begins within the match
        obtain ⟨a', inner, heq, hclear⟩ := h _ _ _ hmatch
        obtain ⟨rfl, rfl⟩ := List.cons.inj heq
        have hshort : rest.length ≤ rounds := by
          rw [List.length_append] at hrounds
          omega
        have hrest : b ∈ findAll pattern rounds rest ↔ Occurs pattern rest b := ih hshort
        show b ∈ b' :: findAll pattern rounds rest ↔ _
        rw [List.mem_cons, hrest, occurs_append hclear]
        simp [eq_comm]

end ShareCompute.Library
