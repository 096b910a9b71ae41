import Mathlib.Data.List.Basic
import Mathlib.Data.List.Infix
import Mathlib.Data.List.TakeWhile

namespace ShareCompute.Library

/-!
# Redacting tokens from a text

A scanner goes through a text once and replaces two shapes: a *code*, which is a marker followed
by at least `minCode` code characters, and a *run* of at least `minRun` run characters.  Run
characters are code characters, and the marker itself is made of them up to its last character.

* `Rules.scan` — the scanner; `Rules.scan_induction` is induction along its rounds.
* `Rules.scan_clean`, `Rules.scan_of_clean` — what it returns has neither shape, and a text with
  neither shape is returned as it is.
-/

/-- What the scanner looks for and what it puts in its place. -/
structure Rules (α : Type) where
  head : α
  mid : List α
  stop : α
  isCode : α → Bool
  isRun : α → Bool
  minCode : ℕ
  minRun : ℕ
  codeText : List α
  runText : List α

namespace Rules

variable {α : Type} [DecidableEq α]

/-- The marker up to its last character. -/
def stem (R : Rules α) : List α := R.head :: R.mid

/-- What a code begins with, the stem and the sign behind it. -/
def marker (R : Rules α) : List α := R.stem ++ [R.stop]

variable (R : Rules α)

/-- What follows the code that the text starts with. -/
def codeAt (text : List α) : Option (List α) :=
  match R.marker.isPrefixOf? text with
  | none => none
  | some body =>
      if R.minCode ≤ (body.takeWhile R.isCode).length then some (body.dropWhile R.isCode) else none

/-- The scanner.  Every round takes at least one character, so `fuel` is the length. -/
def scanLoop : ℕ → List α → List α
  | 0, _ => []
  | _ + 1, [] => []
  | fuel + 1, a :: text =>
      match R.codeAt (a :: text) with
      | some rest => R.codeText ++ scanLoop fuel rest
      | none =>
          if R.isRun a then
            let run := (a :: text).takeWhile R.isRun
            let rest := (a :: text).dropWhile R.isRun
            (if R.minRun ≤ run.length then R.runText else run) ++ scanLoop fuel rest
          else a :: scanLoop fuel text

/-- The scanner, with as many rounds as the text is long. -/
def scan (text : List α) : List α := R.scanLoop text.length text

/-! ### Round by round -/

variable {R}

/-- There is a code at the front of a text exactly if the marker is, with enough code characters
    behind it. -/
theorem codeAt_eq_some {text rest : List α} :
    R.codeAt text = some rest ↔ ∃ body, text = R.marker ++ body ∧
      R.minCode ≤ (body.takeWhile R.isCode).length ∧ rest = body.dropWhile R.isCode := by
  rw [codeAt]
  cases h : R.marker.isPrefixOf? text with
  | none =>
    simp only [reduceCtorEq, false_iff, not_exists, not_and]
    rintro body rfl
    rw [List.isPrefixOf?_eq_some_iff_append_eq.mpr rfl] at h
    cases h
  | some body =>
    have htext := List.isPrefixOf?_eq_some_iff_append_eq.mp h
    constructor
    · intro hsome
      dsimp only at hsome
      split at hsome
      case isTrue hlong => exact ⟨body, htext.symm, hlong, (Option.some.inj hsome).symm⟩
      case isFalse => cases hsome
    · rintro ⟨body', htext', hlong, rfl⟩
      obtain rfl := List.append_cancel_left (htext.trans htext')
      exact if_pos hlong

/-- Behind a code the text is shorter. -/
theorem codeAt_length {text rest : List α} (h : R.codeAt text = some rest) :
    rest.length < text.length := by
  obtain ⟨body, rfl, -, rfl⟩ := codeAt_eq_some.mp h
  have hdrop := (List.dropWhile_sublist (p := R.isCode) (l := body)).length_le
  simp only [marker, stem, List.length_append, List.length_cons, List.length_nil]
  omega

omit [DecidableEq α] in
/-- A run that has begun is not empty. -/
theorem length_dropWhile_isRun {a : α} (ha : R.isRun a = true) (text : List α) :
    ((a :: text).dropWhile R.isRun).length < (a :: text).length := by
  rw [List.dropWhile_cons_of_pos ha]
  exact Nat.lt_succ_of_le (List.dropWhile_sublist _).length_le

/-- More fuel than characters changes nothing, since every round takes one character at least. -/
theorem scanLoop_congr {fuel fuel' : ℕ} {text : List α} (h : text.length ≤ fuel)
    (h' : text.length ≤ fuel') : R.scanLoop fuel text = R.scanLoop fuel' text := by
  induction fuel generalizing fuel' text with
  | zero =>
    obtain rfl := List.length_eq_zero_iff.mp (Nat.le_zero.mp h)
    cases fuel' <;> rfl
  | succ fuel ih =>
    cases text with
    | nil => cases fuel' <;> rfl
    | cons a text =>
      cases fuel' with
      | zero => simp at h'
      | succ fuel' =>
        rw [List.length_cons] at h h'
        rw [scanLoop, scanLoop]
        cases hcode : R.codeAt (a :: text) with
        | some rest =>
          have hrest := codeAt_length hcode
          rw [List.length_cons] at hrest
          exact congrArg _ (ih (by omega) (by omega))
        | none =>
          cases hrun : R.isRun a with
          | true =>
            have hrest := length_dropWhile_isRun hrun text
            rw [List.length_cons] at hrest
            exact congrArg _ (ih (by omega) (by omega))
          | false => exact congrArg _ (ih (by omega) (by omega))

/-- More rounds than the text is long make no difference. -/
theorem scanLoop_eq_scan {fuel : ℕ} {text : List α} (h : text.length ≤ fuel) :
    R.scanLoop fuel text = R.scan text := scanLoop_congr h le_rfl

/-- There is nothing to redact in an empty text. -/
@[simp] theorem scan_nil : R.scan [] = [] := rfl

/-- A code is replaced, and the scanner goes on behind it. -/
theorem scan_code {a : α} {text rest : List α} (h : R.codeAt (a :: text) = some rest) :
    R.scan (a :: text) = R.codeText ++ R.scan rest := by
  have hrest := codeAt_length h
  rw [List.length_cons] at hrest
  rw [scan, List.length_cons, scanLoop, h]
  exact congrArg _ (scanLoop_eq_scan (by omega))

/-- Run characters are taken together: a long run is replaced, and a short one is kept. -/
theorem scan_run {a : α} {text : List α} (hcode : R.codeAt (a :: text) = none)
    (hrun : R.isRun a = true) :
    R.scan (a :: text)
      = (if R.minRun ≤ ((a :: text).takeWhile R.isRun).length then R.runText
          else (a :: text).takeWhile R.isRun) ++ R.scan ((a :: text).dropWhile R.isRun) := by
  have hrest := length_dropWhile_isRun hrun text
  rw [List.length_cons] at hrest
  rw [scan, List.length_cons, scanLoop, hcode]
  simp only [hrun, if_true, scanLoop_eq_scan (Nat.le_of_lt_succ hrest)]

/-- Any other character is kept, and the scanner goes on behind it. -/
theorem scan_other {a : α} {text : List α} (hcode : R.codeAt (a :: text) = none)
    (hrun : R.isRun a = false) : R.scan (a :: text) = a :: R.scan text := by
  rw [scan, List.length_cons, scanLoop, hcode]
  simp only [hrun]
  rfl

/-- Induction along the rounds of the scanner. -/
theorem scan_induction {P : List α → Prop} (nil : P [])
    (code : ∀ a text rest, R.codeAt (a :: text) = some rest → P rest → P (a :: text))
    (run : ∀ a text, R.codeAt (a :: text) = none → R.isRun a = true →
      P ((a :: text).dropWhile R.isRun) → P (a :: text))
    (other : ∀ a text, R.codeAt (a :: text) = none → R.isRun a = false → P text → P (a :: text))
    (text : List α) : P text := by
  induction hn : text.length using Nat.strong_induction_on generalizing text with
  | _ n ih =>
    subst hn
    cases text with
    | nil => exact nil
    | cons a text =>
      cases hcode : R.codeAt (a :: text) with
      | some rest => exact code a text rest hcode (ih _ (codeAt_length hcode) rest rfl)
      | none =>
        cases hrun : R.isRun a with
        | true => exact run a text hcode hrun (ih _ (length_dropWhile_isRun hrun text) _ rfl)
        | false => exact other a text hcode hrun (ih _ (Nat.lt_succ_self _) text rfl)

/-! ### The two shapes -/

variable (R) in
/-- A code somewhere in the text: the marker, and a body that is long enough. -/
def HasCode (text : List α) : Prop :=
  ∃ body, R.marker ++ body <:+: text ∧ (∀ a ∈ body, R.isCode a = true) ∧ R.minCode ≤ body.length

omit [DecidableEq α] in
variable (R) in
/-- A run somewhere in the text that is long enough to be replaced. -/
def HasRun (text : List α) : Prop :=
  ∃ run, run <:+: text ∧ (∀ a ∈ run, R.isRun a = true) ∧ R.minRun ≤ run.length

variable (R) in
/-- A text with neither shape, as a redacted text should be. -/
structure Clean (text : List α) : Prop where
  code : ¬ R.HasCode text
  run : ¬ R.HasRun text

variable (R) in
/-- A text to put in place of a token: it neither begins nor ends in a way that could make a
    shape with what stands next to it. -/
structure Fenced (text : List α) : Prop where
  head : R.head ∉ text
  short : text.length ≤ R.minRun
  opens : ∃ a rest, text = a :: rest ∧ R.isCode a = false ∧ a ≠ R.stop
  closes : ∃ rest a, text = rest ++ [a] ∧ R.isRun a = false

variable (R) in
/-- What the two shapes have to do with each other, for the scanner to hide both. -/
structure Lawful : Prop where
  code_of_run : ∀ a, R.isRun a = true → R.isCode a = true
  stem_code : ∀ a ∈ R.stem, R.isCode a = true
  stop_code : R.isCode R.stop = false
  head_run : R.isRun R.head = false
  marker_le : R.marker.length ≤ R.minRun
  code_le : R.minCode ≤ R.minRun
  codeText : R.Fenced R.codeText
  runText : R.Fenced R.runText

/-- Where the marker stands with enough code characters behind it, the scanner finds a code. -/
theorem codeAt_of_prefix {body text : List α} (h : R.marker ++ body <+: text)
    (hbody : ∀ a ∈ body, R.isCode a = true) (hlong : R.minCode ≤ body.length) :
    R.codeAt text ≠ none := by
  obtain ⟨rest, rfl⟩ := h
  have hsome : R.codeAt (R.marker ++ body ++ rest) = some (rest.dropWhile R.isCode) := by
    refine codeAt_eq_some.mpr ⟨body ++ rest, List.append_assoc _ _ _, ?_, ?_⟩
    · rw [List.takeWhile_append_of_pos hbody, List.length_append]
      omega
    · rw [List.dropWhile_append_of_pos hbody]
  rw [hsome]
  exact Option.some_ne_none _

omit [DecidableEq α] in
/-- A code at the end of a text is a code of the text. -/
theorem HasCode.of_suffix {text text' : List α} (h : R.HasCode text) (hsuffix : text <:+ text') :
    R.HasCode text' := by
  obtain ⟨body, hpiece, hbody⟩ := h
  exact ⟨body, hpiece.trans hsuffix.isInfix, hbody⟩

omit [DecidableEq α] in
/-- A run at the end of a text is a run of the text. -/
theorem HasRun.of_suffix {text text' : List α} (h : R.HasRun text) (hsuffix : text <:+ text') :
    R.HasRun text' := by
  obtain ⟨run, hpiece, hrun⟩ := h
  exact ⟨run, hpiece.trans hsuffix.isInfix, hrun⟩

omit [DecidableEq α] in
/-- The end of a clean text is clean. -/
theorem Clean.of_suffix {text text' : List α} (h : R.Clean text') (hsuffix : text <:+ text') :
    R.Clean text :=
  ⟨fun hcode => h.code (hcode.of_suffix hsuffix), fun hrun => h.run (hrun.of_suffix hsuffix)⟩

/-- **A text with neither shape is returned as it is.** -/
theorem scan_of_clean {text : List α} (h : R.Clean text) : R.scan text = text := by
  induction text using scan_induction with
  | nil => rfl
  | code a text rest hcode _ =>
    -- a code at the front is a code in the text
    obtain ⟨body, htext, hlong, -⟩ := codeAt_eq_some.mp hcode
    refine absurd ⟨body.takeWhile R.isCode, ?_, fun b hb => List.mem_takeWhile_imp hb, hlong⟩ h.code
    rw [htext]
    exact ((List.prefix_append_right_inj _).mpr (List.takeWhile_prefix _)).isInfix
  | run a text hcode hrun ih =>
    have hshort : ¬ R.minRun ≤ ((a :: text).takeWhile R.isRun).length := fun hlong =>
      h.run ⟨_, (List.takeWhile_prefix _).isInfix, fun b hb => List.mem_takeWhile_imp hb, hlong⟩
    rw [scan_run hcode hrun, if_neg hshort, ih (h.of_suffix (List.dropWhile_suffix _)),
      List.takeWhile_append_dropWhile]
  | other a text hcode hrun ih =>
    rw [scan_other hcode hrun, ih (h.of_suffix (List.suffix_cons a text))]

omit [DecidableEq α] in
/-- A prefix of two texts ends in the first one, or takes all of it and a prefix of the second. -/
theorem prefix_append_cases {w xs ys : List α} (h : w <+: xs ++ ys) :
    w <+: xs ∨ ∃ w', w = xs ++ w' ∧ w' <+: ys := by
  rcases List.prefix_or_prefix_of_prefix h (List.prefix_append xs ys) with hw | ⟨w', rfl⟩
  · exact .inl hw
  · exact .inr ⟨w', rfl, (List.prefix_append_right_inj xs).mp h⟩

omit [DecidableEq α] in
/-- Nothing but a fence begins where a fence stands. -/
theorem Fenced.eq_nil_of_prefix {text w after : List α} (h : R.Fenced text)
    (hw : ∀ a ∈ w, R.isCode a = true ∨ a = R.stop) (hfront : w <+: text ++ after) : w = [] := by
  obtain ⟨a, rest, rfl, hcode, hstop⟩ := h.opens
  cases w with
  | nil => rfl
  | cons b w =>
    obtain ⟨rfl, -⟩ := List.cons_prefix_cons.mp hfront
    rcases hw b List.mem_cons_self with hb | hb
    · simp [hcode] at hb
    · exact absurd hb hstop

/-- **What the scanner returns is found in the text**, as long as it has no fence in it. -/
theorem prefix_of_prefix_scan (hR : R.Lawful) {w text : List α}
    (hw : ∀ a ∈ w, R.isCode a = true ∨ a = R.stop) (h : w <+: R.scan text) : w <+: text := by
  induction text using scan_induction generalizing w with
  | nil => exact h
  | code a text rest hcode _ =>
    rw [scan_code hcode] at h
    obtain rfl := hR.codeText.eq_nil_of_prefix hw h
    exact List.nil_prefix
  | run a text hcode hrun ih =>
    rw [scan_run hcode hrun] at h
    split at h
    case isTrue =>
      obtain rfl := hR.runText.eq_nil_of_prefix hw h
      exact List.nil_prefix
    case isFalse =>
      rw [← List.takeWhile_append_dropWhile (p := R.isRun) (l := a :: text)]
      rcases prefix_append_cases h with hrun' | ⟨w', rfl, hrest⟩
      · exact hrun'.trans (List.prefix_append _ _)
      · exact (List.prefix_append_right_inj _).mpr
          (ih (fun c hc => hw c (List.mem_append_right _ hc)) hrest)
  | other a text hcode hrun ih =>
    rw [scan_other hcode hrun] at h
    cases w with
    | nil => exact List.nil_prefix
    | cons b w =>
      obtain ⟨rfl, hrest⟩ := List.cons_prefix_cons.mp h
      exact List.cons_prefix_cons.mpr ⟨rfl, ih (fun c hc => hw c (List.mem_cons_of_mem _ hc)) hrest⟩

/-! ### What is returned is clean -/

omit [DecidableEq α] in
/-- What is found in `xs ++ ys` is found in `ys` or begins in `xs`. -/
theorem infix_append_cases {w xs ys : List α} (h : w <:+: xs ++ ys) :
    w <:+: ys ∨ ∃ t, t <:+ xs ∧ t ≠ [] ∧ w <+: t ++ ys := by
  obtain ⟨after, hfront, hsuffix⟩ := List.infix_iff_prefix_suffix.mp h
  rcases List.suffix_or_suffix_of_suffix hsuffix (List.suffix_append xs ys) with hys | ⟨t, rfl⟩
  · exact .inl (hfront.isInfix.trans hys.isInfix)
  · by_cases ht : t = []
    · subst ht
      exact .inl hfront.isInfix
    · exact .inr ⟨t, List.suffix_append_self_iff.mp hsuffix, ht, hfront⟩

omit [DecidableEq α] in
/-- A code does not begin in a list without the marker's head. -/
theorem HasCode.of_append {xs ys : List α} (hxs : R.head ∉ xs) (h : R.HasCode (xs ++ ys)) :
    R.HasCode ys := by
  obtain ⟨body, hpiece, hbody⟩ := h
  rcases infix_append_cases hpiece with hys | ⟨t, ht, hne, hfront⟩
  · exact ⟨body, hys, hbody⟩
  · cases t with
    | nil => exact absurd rfl hne
    | cons b t =>
      obtain ⟨rfl, -⟩ := List.cons_prefix_cons.mp hfront
      exact absurd (ht.mem List.mem_cons_self) hxs

omit [DecidableEq α] in
/-- A run does not begin in a fence. -/
theorem HasRun.of_fenced {xs ys : List α} (hxs : R.Fenced xs) (h : R.HasRun (xs ++ ys)) :
    R.HasRun ys := by
  obtain ⟨run, hpiece, hrun, hlong⟩ := h
  rcases infix_append_cases hpiece with hys | ⟨t, ht, hne, hfront⟩
  · exact ⟨run, hys, hrun, hlong⟩
  · obtain ⟨rest, c, rfl, hc⟩ := hxs.closes
    have hct : c ∈ t := by
      obtain ⟨hlast, rfl⟩ | ⟨t', rfl, -⟩ := List.suffix_concat_iff.mp ht
      · exact absurd rfl hne
      · simp
    have hcrun : c ∈ run := by
      rcases prefix_append_cases hfront with hin | ⟨w, rfl, -⟩
      · have hlength := ht.length_le.trans (hxs.short.trans hlong)
        rwa [hin.eq_of_length_le hlength]
      · exact List.mem_append_left w hct
    simp [hrun c hcrun] at hc

omit [DecidableEq α] in
/-- A short run that has ended does not grow. -/
theorem HasRun.of_short {xs ys : List α} (hshort : xs.length < R.minRun)
    (hended : ∀ b, [b] <+: ys → R.isRun b = false) (h : R.HasRun (xs ++ ys)) : R.HasRun ys := by
  obtain ⟨run, hpiece, hrun, hlong⟩ := h
  rcases infix_append_cases hpiece with hys | ⟨t, ht, -, hfront⟩
  · exact ⟨run, hys, hrun, hlong⟩
  · have hlength := ht.length_le
    rcases prefix_append_cases hfront with hin | ⟨w, rfl, hw⟩
    · have := hin.length_le
      omega
    · rw [List.length_append] at hlong
      cases w with
      | nil =>
        rw [List.length_nil] at hlong
        omega
      | cons b w =>
        have hb := hended b (List.cons_prefix_cons.mpr
          ⟨rfl, List.nil_prefix⟩ |>.trans hw)
        simp [hrun b (by simp)] at hb

omit [DecidableEq α] in
/-- A character of the marker is a code character or its last one. -/
theorem Lawful.code_or_stop (hR : R.Lawful) {a : α} (ha : a ∈ R.marker) :
    R.isCode a = true ∨ a = R.stop := by
  rcases List.mem_append.mp ha with ha | ha
  · exact .inl (hR.stem_code a ha)
  · exact .inr (List.mem_singleton.mp ha)

/-- What the scanner returns has no code, whatever the text was. -/
theorem scan_no_code (hR : R.Lawful) (text : List α) : ¬ R.HasCode (R.scan text) := by
  induction text using scan_induction with
  | nil =>
    rintro ⟨body, hpiece, -⟩
    simp [marker, stem] at hpiece
  | code a text rest hcode ih =>
    rw [scan_code hcode]
    exact fun h => ih (h.of_append hR.codeText.head)
  | run a text hcode hrun ih =>
    rw [scan_run hcode hrun]
    refine fun h => ih (h.of_append ?_)
    split
    case isTrue => exact hR.runText.head
    case isFalse =>
      intro hmem
      have hhead := List.mem_takeWhile_imp hmem
      simp [hR.head_run] at hhead
  | other a text hcode hrun ih =>
    rw [scan_other hcode hrun]
    rintro ⟨body, hpiece, hbody, hlong⟩
    rcases List.infix_cons_iff.mp hpiece with hfront | hpiece
    · -- the marker's tail and the body were already in the text
      obtain ⟨rfl, hrest⟩ := List.cons_prefix_cons.mp hfront
      have hecho := prefix_of_prefix_scan hR ?_ hrest
      · exact codeAt_of_prefix (List.cons_prefix_cons.mpr ⟨rfl, hecho⟩) hbody hlong hcode
      · intro b hb
        rcases List.mem_append.mp hb with hb | hb
        · exact hR.code_or_stop (List.mem_cons_of_mem _ hb)
        · exact .inl (hbody b hb)
    · exact ih ⟨body, hpiece, hbody, hlong⟩

/-- What the scanner returns has no long run, whatever the text was. -/
theorem scan_no_run (hR : R.Lawful) (text : List α) : ¬ R.HasRun (R.scan text) := by
  induction text using scan_induction with
  | nil =>
    rintro ⟨run, hpiece, -, hlong⟩
    have hlength := hpiece.length_le
    have hmarker := hR.marker_le
    simp only [scan_nil, List.length_nil, marker, List.length_append, List.length_cons]
      at hlength hmarker
    omega
  | code a text rest hcode ih =>
    rw [scan_code hcode]
    exact fun h => ih (h.of_fenced hR.codeText)
  | run a text hcode hrun ih =>
    rw [scan_run hcode hrun]
    split
    case isTrue => exact fun h => ih (h.of_fenced hR.runText)
    case isFalse hshort =>
      refine fun h => ih (h.of_short (not_le.mp hshort) fun b hb => ?_)
      -- what comes after a run is not a run character
      cases hbrun : R.isRun b with
      | false => rfl
      | true =>
        have hecho := prefix_of_prefix_scan hR
          (fun c hc => .inl (List.mem_singleton.mp hc ▸ hR.code_of_run b hbrun)) hb
        obtain ⟨rest, hrest⟩ := hecho
        have hstop := List.dropWhile_get_zero_not R.isRun (a :: text) (by simp [← hrest])
        simp [← hrest, hbrun] at hstop
  | other a text hcode hrun ih =>
    rw [scan_other hcode hrun]
    rintro ⟨run, hpiece, hall, hlong⟩
    rcases List.infix_cons_iff.mp hpiece with hfront | hpiece
    · cases run with
      | nil =>
        have hmarker := hR.marker_le
        simp [marker, stem] at hlong hmarker
        omega
      | cons b run =>
        obtain ⟨rfl, -⟩ := List.cons_prefix_cons.mp hfront
        simp [hall b List.mem_cons_self] at hrun
    · exact ih ⟨run, hpiece, hall, hlong⟩

/-- **What the scanner returns has neither shape.** -/
theorem scan_clean (hR : R.Lawful) (text : List α) : R.Clean (R.scan text) :=
  ⟨scan_no_code hR text, scan_no_run hR text⟩

end Rules

end ShareCompute.Library
