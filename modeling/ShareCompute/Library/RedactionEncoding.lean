import ShareCompute.Library.RedactionExchange

namespace ShareCompute.Library

/-!
# Redacting an encoded text

A scanner may work on the units of an encoding instead of the characters.  When a code character
is one unit, and no other character has units that look like it, the scanner returns the encoding
of what it would have returned for the characters.
-/

/-- `enc` keeps the shapes of the texts of `R` for `R'`: a code character is one unit, and the
    units of a marker come from the marker only. -/
structure Encodes {α β : Type} (enc : α → List β) (R : Rules α) (R' : Rules β) : Prop where
  nonempty : ∀ a, enc a ≠ []
  isCode : ∀ a, ∀ b ∈ enc a, R'.isCode b = R.isCode a
  isRun : ∀ a, ∀ b ∈ enc a, R'.isRun b = R.isRun a
  single : ∀ a, R.isCode a = true → ∃ b, enc a = [b]
  marker : List.Forall₂ (fun m m' => enc m = [m'] ∧ ∀ a, m' ∈ enc a → a = m) R.marker R'.marker
  minCode : R'.minCode = R.minCode
  minRun : R'.minRun = R.minRun
  codeText : R'.codeText = R.codeText.flatMap enc
  runText : R'.runText = R.runText.flatMap enc

namespace Encodes

variable {α β : Type} {enc : α → List β} {R : Rules α} {R' : Rules β}

/-- A run of an encoded text is the encoding of the run, if each element is encoded in the run or
    outside of it. -/
theorem span_flatMap (hne : ∀ a, enc a ≠ []) {p : α → Bool} {p' : β → Bool}
    (hp : ∀ a, ∀ b ∈ enc a, p' b = p a) (text : List α) :
    (text.flatMap enc).takeWhile p' = (text.takeWhile p).flatMap enc ∧
      (text.flatMap enc).dropWhile p' = (text.dropWhile p).flatMap enc := by
  induction text with
  | nil => exact ⟨rfl, rfl⟩
  | cons a text ih =>
    rw [List.flatMap_cons]
    cases ha : p a with
    | true =>
      have hall : ∀ b ∈ enc a, p' b = true := fun b hb => (hp a b hb).trans ha
      rw [List.takeWhile_append_of_pos hall, List.dropWhile_append_of_pos hall, ih.1, ih.2,
        List.takeWhile_cons_of_pos ha, List.dropWhile_cons_of_pos ha, List.flatMap_cons]
      exact ⟨rfl, rfl⟩
    | false =>
      have ha' : ¬ p a = true := by simp [ha]
      rw [List.takeWhile_cons_of_neg ha', List.dropWhile_cons_of_neg ha', List.flatMap_cons]
      cases henc : enc a with
      | nil => exact absurd henc (hne a)
      | cons b units =>
        have hb : ¬ p' b = true := by
          rw [hp a b (henc ▸ List.mem_cons_self), ha]
          exact Bool.false_ne_true
        rw [List.cons_append, List.takeWhile_cons_of_neg hb, List.dropWhile_cons_of_neg hb]
        exact ⟨rfl, rfl⟩

/-- A text of code characters is as long as its encoding. -/
theorem length_flatMap (h : Encodes enc R R') {text : List α}
    (htext : ∀ a ∈ text, R.isCode a = true) : (text.flatMap enc).length = text.length := by
  induction text with
  | nil => rfl
  | cons a text ih =>
    obtain ⟨b, hb⟩ := h.single a (htext a List.mem_cons_self)
    rw [List.flatMap_cons, List.length_append, hb, List.length_singleton, List.length_cons,
      ih fun c hc => htext c (List.mem_cons_of_mem a hc), Nat.add_comm]

variable [DecidableEq α] [DecidableEq β]

/-- The marker is found in an encoded text exactly where it is in the text. -/
theorem isPrefixOf?_flatMap {marker : List α} {marker' : List β} (hne : ∀ a, enc a ≠ [])
    (hmarker : List.Forall₂ (fun m m' => enc m = [m'] ∧ ∀ a, m' ∈ enc a → a = m) marker marker')
    (text : List α) :
    marker'.isPrefixOf? (text.flatMap enc)
      = (marker.isPrefixOf? text).map (List.flatMap enc) := by
  induction hmarker generalizing text with
  | nil =>
    cases text with
    | nil => rfl
    | cons a text => rfl
  | @cons m m' marker marker' hm _ ih =>
    cases text with
    | nil => rfl
    | cons a text =>
      by_cases ha : a = m
      · subst ha
        rw [List.flatMap_cons, hm.1, List.singleton_append]
        simp only [List.isPrefixOf?, beq_self_eq_true, if_true]
        exact ih text
      · cases henc : enc a with
        | nil => exact absurd henc (hne a)
        | cons b units =>
          have hb : m' ≠ b := by
            rintro rfl
            exact ha (hm.2 a (henc ▸ List.mem_cons_self))
          rw [List.flatMap_cons, henc, List.cons_append]
          simp only [List.isPrefixOf?, beq_eq_false_iff_ne.mpr hb,
            beq_eq_false_iff_ne.mpr (Ne.symm ha)]
          rfl

/-- A code is found in an encoded text exactly where it is in the text, and what is behind it is
    encoded. -/
theorem codeAt_flatMap (h : Encodes enc R R') (text : List α) :
    R'.codeAt (text.flatMap enc) = (R.codeAt text).map (List.flatMap enc) := by
  rw [Rules.codeAt, Rules.codeAt, isPrefixOf?_flatMap h.nonempty h.marker]
  cases R.marker.isPrefixOf? text with
  | none => rfl
  | some body =>
    obtain ⟨htake, hdrop⟩ := span_flatMap h.nonempty h.isCode body
    have hlength := h.length_flatMap
      (fun a ha => List.mem_takeWhile_imp (l := body) (p := R.isCode) ha)
    simp only [Option.map_some, htake, hdrop, hlength, h.minCode]
    split <;> rfl

omit [DecidableEq α] in
/-- Units of a character that is neither a code character nor in the marker are kept. -/
theorem scan_units (h : Encodes enc R R') {units : List β} {a : α} (hunits : units ⊆ enc a)
    (hrun : R.isRun a = false) (hhead : a ≠ R.head) (text : List β) :
    R'.scan (units ++ text) = units ++ R'.scan text := by
  induction units with
  | nil => rfl
  | cons b units ih =>
    have hb : b ∈ enc a := hunits List.mem_cons_self
    have hbhead : b ≠ R'.head := by
      rintro rfl
      have hmarker := h.marker
      rw [Rules.marker, Rules.stem, Rules.marker, Rules.stem] at hmarker
      cases hmarker with
      | cons hm _ => exact hhead (hm.2 a hb)
    have hbrun : R'.isRun b = false := (h.isRun a b hb).trans hrun
    rw [List.cons_append, Rules.scan_kept hbrun hbhead,
      ih fun c hc => hunits (List.mem_cons_of_mem b hc)]
    rfl

/-- **Scanning commutes with the encoding**, by induction over the rounds of the scanner. -/
theorem scan_flatMap (h : Encodes enc R R') (hR : R.Lawful) (text : List α) :
    R'.scan (text.flatMap enc) = (R.scan text).flatMap enc := by
  induction text using Rules.scan_induction (R := R) with
  | nil => rfl
  | code a text rest hcode ih =>
    have hcode' := h.codeAt_flatMap (a :: text)
    rw [hcode, Option.map_some] at hcode'
    rw [Rules.scan_code hcode, List.flatMap_append, ← ih, ← h.codeText]
    cases htext : (a :: text).flatMap enc with
    | nil => simp [List.flatMap_cons, h.nonempty] at htext
    | cons b units => exact Rules.scan_code (htext ▸ hcode')
  | run a text hcode hrun ih =>
    have hcode' := h.codeAt_flatMap (a :: text)
    rw [hcode, Option.map_none] at hcode'
    obtain ⟨htake, hdrop⟩ := span_flatMap h.nonempty h.isRun (a :: text)
    have hlength := h.length_flatMap
      (fun c hc => hR.code_of_run c (List.mem_takeWhile_imp (l := a :: text) hc))
    rw [Rules.scan_run hcode hrun, List.flatMap_append, ← ih, ← hdrop]
    obtain ⟨b, hb⟩ := h.single a (hR.code_of_run a hrun)
    have hbrun : R'.isRun b = true := (h.isRun a b (by simp [hb])).trans hrun
    have htext : (a :: text).flatMap enc = b :: text.flatMap enc := by
      rw [List.flatMap_cons, hb, List.singleton_append]
    rw [htext] at htake hcode' ⊢
    rw [Rules.scan_run hcode' hbrun, htake, hlength, h.minRun, h.runText]
    split <;> rfl
  | other a text hcode hrun ih =>
    have hcode' := h.codeAt_flatMap (a :: text)
    rw [hcode, Option.map_none] at hcode'
    rw [Rules.scan_other hcode hrun, List.flatMap_cons, List.flatMap_cons, ← ih]
    by_cases hhead : a = R.head
    · -- the marker's head is one unit, and no code begins there
      obtain ⟨b, hb⟩ := h.single a (hhead ▸ hR.stem_code R.head List.mem_cons_self)
      have hbrun : R'.isRun b = false := (h.isRun a b (by simp [hb])).trans hrun
      rw [List.flatMap_cons, hb] at hcode'
      rw [hb]
      exact Rules.scan_other hcode' hbrun
    · exact h.scan_units (List.Subset.refl _) hrun hhead _

end Encodes

end ShareCompute.Library
