import ShareCompute.Library.Redaction

namespace ShareCompute.Library.Rules

/-!
# Exchanging a redacted token

What a scanner returns should not depend on the tokens it replaces.  A long run may be exchanged
for another wherever it stands.  A code may too, unless one before it has taken the marker of the
next for its own last characters: the scanner then reads the body of the next as plain text.

* `scan_border` — how the scanner gets past what stands before a token.
* `scan_run_congr`, `scan_code_congr` — the exchanges that do not show.
* `exists_scan_ne_of_glued` — one that does.
-/

variable {α : Type} [DecidableEq α] {R : Rules α}

/-! ### What stands before -/

/-- Where something that is no code character stands behind a marker, a code there ends before it,
    whatever follows. -/
theorem codeAt_append_of_not_all {before text : List α}
    (h : ¬ ∀ a ∈ before, R.isCode a = true) :
    R.codeAt (R.marker ++ (before ++ text))
      = if R.minCode ≤ (before.takeWhile R.isCode).length then
          some (before.dropWhile R.isCode ++ text) else none := by
  have hne : (before.dropWhile R.isCode).isEmpty = false := by
    rw [List.isEmpty_eq_false_iff]
    exact fun hnil => h (List.dropWhile_eq_nil_iff.mp hnil)
  have htake : (before ++ text).takeWhile R.isCode = before.takeWhile R.isCode := by
    rw [List.takeWhile_append, if_neg]
    intro hlength
    exact h (List.takeWhile_eq_self_iff.mp ((List.takeWhile_prefix _).eq_of_length hlength))
  rw [codeAt, List.isPrefixOf?_eq_some_iff_append_eq.mpr rfl]
  simp only [htake, List.dropWhile_append, hne]
  rfl

omit [DecidableEq α] in
/-- A text is split where its first part ends, if all of that part is taken and what follows begins
    with something that is not. -/
theorem span_append {p : α → Bool} {xs ys : List α} (hxs : ∀ a ∈ xs, p a = true)
    (hys : ∀ c ∈ ys.head?, p c = false) :
    (xs ++ ys).takeWhile p = xs ∧ (xs ++ ys).dropWhile p = ys := by
  rw [List.takeWhile_append_of_pos hxs, List.dropWhile_append_of_pos hxs]
  cases ys with
  | nil => simp
  | cons c ys =>
    have hc : ¬ p c = true := by simp [hys c rfl]
    rw [List.takeWhile_cons_of_neg hc, List.dropWhile_cons_of_neg hc, List.append_nil]
    exact ⟨rfl, rfl⟩

omit [DecidableEq α] in
/-- Where something that is no run character stands in a text, a run at its front ends before it,
    whatever follows. -/
theorem run_append_of_not_all {before text : List α} (h : ¬ ∀ a ∈ before, R.isRun a = true) :
    (before ++ text).takeWhile R.isRun = before.takeWhile R.isRun ∧
      (before ++ text).dropWhile R.isRun = before.dropWhile R.isRun ++ text := by
  constructor
  · rw [List.takeWhile_append, if_neg]
    intro hlength
    exact h (List.takeWhile_eq_self_iff.mp ((List.takeWhile_prefix _).eq_of_length hlength))
  · rw [List.dropWhile_append, if_neg]
    rw [List.isEmpty_iff]
    exact fun hnil => h (List.dropWhile_eq_nil_iff.mp hnil)

/-- Texts that the scanner treats alike as long as it is before them: no marker and no run
    reaches into them from `before`, and a code that does takes all of them or none. -/
structure Border (R : Rules α) (Tail : List α → Prop) (before : List α) : Prop where
  marker : ∀ text, Tail text → ∀ pre, pre ≠ [] → pre.length < R.marker.length →
    ¬ R.marker <+: pre ++ text
  run : ∀ text, Tail text → ∀ b ∈ text.head?, R.isRun b = true →
    ∀ c ∈ before.getLast?, R.isRun c = false
  code : ∀ pre body, before = pre ++ R.marker ++ body → (∀ a ∈ body, R.isCode a = true) →
    (∀ text, Tail text → R.minCode ≤ ((body ++ text).takeWhile R.isCode).length) ∨
    (∀ text, Tail text → ((body ++ text).takeWhile R.isCode).length < R.minCode)

omit [DecidableEq α] in
/-- The end of a text that borders on a tail borders on it too. -/
theorem Border.of_suffix {Tail : List α → Prop} {before before' : List α}
    (h : Border R Tail before) (hsuffix : before' <:+ before) : Border R Tail before' := by
  obtain ⟨pre, rfl⟩ := hsuffix
  refine ⟨h.marker, fun text htext b hb hrun c hc => ?_, fun pre' body heq hbody => ?_⟩
  · refine h.run text htext b hb hrun c ?_
    rw [List.getLast?_append, Option.mem_def.mp hc]
    rfl
  · exact h.code (pre ++ pre') body (by rw [heq]; simp) hbody

omit [DecidableEq α] in
/-- A run that fills what stands before ends at the border. -/
theorem Border.run_ends {Tail : List α → Prop} {before text : List α} {a : α}
    (h : Border R Tail (a :: before)) (htext : Tail text)
    (hall : ∀ b ∈ a :: before, R.isRun b = true) :
    text.takeWhile R.isRun = [] ∧ text.dropWhile R.isRun = text := by
  cases text with
  | nil => exact ⟨rfl, rfl⟩
  | cons b text =>
    have hb : R.isRun b = false := by
      by_contra hrun
      have hlast := h.run _ htext b rfl (by simpa using hrun)
        ((a :: before).getLast (List.cons_ne_nil a before)) (List.getLast?_eq_some_getLast _)
      simp [hall _ (List.getLast_mem _)] at hlast
    exact ⟨List.takeWhile_cons_of_neg (by simp [hb]), List.dropWhile_cons_of_neg (by simp [hb])⟩

variable (R) in
/-- How the scanner gets past a border: with what does not depend on the text behind it, and then
    on with that text or, in the middle of a code, with what is left of it after the code. -/
def Passes (Tail : List α → Prop) (before : List α) : Prop :=
  (∃ out, ∀ text, Tail text → R.scan (before ++ text) = out ++ R.scan text) ∨
    (∃ out, ∀ text, Tail text →
      R.scan (before ++ text) = out ++ R.scan (text.dropWhile R.isCode)) ∧
    ∃ pre body, before = pre ++ R.marker ++ body ∧ (∀ a ∈ body, R.isCode a = true) ∧
      ∀ text, Tail text → R.minCode ≤ ((body ++ text).takeWhile R.isCode).length

/-- The scanner gets past a border once it does from a later round on. -/
theorem Passes.of_chunk {Tail : List α → Prop} {before rest : List α} (chunk : List α)
    (h : R.Passes Tail rest) (hsuffix : rest <:+ before)
    (hscan : ∀ text, Tail text → R.scan (before ++ text) = chunk ++ R.scan (rest ++ text)) :
    R.Passes Tail before := by
  rcases h with ⟨out, hout⟩ | ⟨⟨out, hout⟩, pre, body, rfl, hbody⟩
  · refine .inl ⟨chunk ++ out, fun text htext => ?_⟩
    rw [hscan text htext, hout text htext, List.append_assoc]
  · obtain ⟨pre', rfl⟩ := hsuffix
    refine .inr ⟨⟨chunk ++ out, fun text htext => ?_⟩, pre' ++ pre, body, by simp, hbody⟩
    rw [hscan text htext, hout text htext, List.append_assoc]

/-- **The scanner gets past every border**, by induction over the text in front of it. -/
theorem scan_border {Tail : List α → Prop} {before : List α} (h : Border R Tail before) :
    R.Passes Tail before := by
  induction hn : before.length using Nat.strong_induction_on generalizing before with
  | _ n ih =>
  subst hn
  have hchunk : ∀ (chunk rest : List α), rest <:+ before → rest.length < before.length →
      (∀ text, Tail text → R.scan (before ++ text) = chunk ++ R.scan (rest ++ text)) →
      R.Passes Tail before := by
    intro chunk rest hsuffix hlength hscan
    exact (ih _ hlength (h.of_suffix hsuffix) rfl).of_chunk chunk hsuffix hscan
  cases before with
  | nil => exact .inl ⟨[], fun text _ => rfl⟩
  | cons a before =>
    -- no code here, for whatever text: the rounds of a run and of any other character
    have hplain : (∀ text, Tail text → R.codeAt (a :: before ++ text) = none) →
        R.Passes Tail (a :: before) := by
      intro hnone
      cases hrun : R.isRun a with
      | false =>
        exact hchunk [a] before (List.suffix_cons a before) (Nat.lt_succ_self _)
          fun text htext => scan_other (hnone text htext) hrun
      | true =>
        by_cases hall : ∀ b ∈ a :: before, R.isRun b = true
        · -- the run ends at the border
          refine .inl ⟨if R.minRun ≤ (a :: before).length then R.runText else a :: before,
            fun text htext => ?_⟩
          obtain ⟨htake, hdrop⟩ := h.run_ends htext hall
          have htake' : (a :: before ++ text).takeWhile R.isRun = a :: before := by
            rw [List.takeWhile_append_of_pos hall, htake, List.append_nil]
          have hdrop' : (a :: before ++ text).dropWhile R.isRun = text := by
            rw [List.dropWhile_append_of_pos hall, hdrop]
          refine (scan_run (hnone text htext) hrun).trans ?_
          show (if R.minRun ≤ ((a :: before ++ text).takeWhile R.isRun).length then R.runText
              else (a :: before ++ text).takeWhile R.isRun)
            ++ R.scan ((a :: before ++ text).dropWhile R.isRun) = _
          rw [htake', hdrop']
        · have hrest := length_dropWhile_isRun hrun before
          refine hchunk (if R.minRun ≤ ((a :: before).takeWhile R.isRun).length then R.runText
            else (a :: before).takeWhile R.isRun) _ (List.dropWhile_suffix _) hrest
            fun text htext => ?_
          obtain ⟨htake, hdrop⟩ := @run_append_of_not_all _ R _ text hall
          rw [← htake, ← hdrop]
          exact scan_run (hnone text htext) hrun
    by_cases hmarker : R.marker <+: a :: before
    · obtain ⟨body, hbody⟩ := hmarker
      by_cases hall : ∀ b ∈ body, R.isCode b = true
      · have hcodeAt : ∀ text, R.codeAt (a :: before ++ text)
            = if R.minCode ≤ ((body ++ text).takeWhile R.isCode).length then
                some (text.dropWhile R.isCode) else none := by
          intro text
          rw [← hbody, List.append_assoc, codeAt, List.isPrefixOf?_eq_some_iff_append_eq.mpr rfl]
          simp only [List.dropWhile_append_of_pos hall]
        rcases h.code [] body (by simpa using hbody.symm) hall with hlong | hshort
        · refine .inr ⟨⟨R.codeText, fun text htext => ?_⟩, [], body, hbody.symm, hall, hlong⟩
          exact scan_code ((hcodeAt text).trans (if_pos (hlong text htext)))
        · refine hplain fun text htext => ?_
          rw [hcodeAt, if_neg (not_le.mpr (hshort text htext))]
      · have hcodeAt : ∀ text, R.codeAt (a :: before ++ text)
            = if R.minCode ≤ (body.takeWhile R.isCode).length then
                some (body.dropWhile R.isCode ++ text) else none := by
          intro text
          rw [← hbody, List.append_assoc, codeAt_append_of_not_all hall]
        by_cases hlong : R.minCode ≤ (body.takeWhile R.isCode).length
        · have hsuffix : body.dropWhile R.isCode <:+ a :: before :=
            (List.dropWhile_suffix _).trans ⟨R.marker, hbody⟩
          have hlength : (body.dropWhile R.isCode).length < (a :: before).length := by
            have hdrop := (List.dropWhile_suffix (l := body) R.isCode).length_le
            rw [← hbody, marker, stem]
            simp only [List.length_append, List.length_cons]
            omega
          refine hchunk R.codeText _ hsuffix hlength fun text _ => ?_
          exact scan_code ((hcodeAt text).trans (if_pos hlong))
        · exact hplain fun text _ => by rw [hcodeAt, if_neg hlong]
    · refine hplain fun text htext => ?_
      by_contra hsome
      obtain ⟨rest, hrest⟩ := Option.ne_none_iff_exists'.mp hsome
      obtain ⟨body, hbody, -⟩ := codeAt_eq_some.mp hrest
      have hfront : R.marker <+: a :: before ++ text := ⟨body, hbody.symm⟩
      rcases prefix_append_cases hfront with hin | ⟨w, hw, -⟩
      · exact hmarker hin
      · cases w with
        | nil => exact hmarker (by rw [hw, List.append_nil])
        | cons b w =>
          exact h.marker text htext (a :: before) (List.cons_ne_nil _ _)
            (by rw [hw]; simp) hfront

/-! ### Exchanging a token -/

variable (R) in
/-- A run long enough to be replaced. -/
def LongRun (run : List α) : Prop := (∀ a ∈ run, R.isRun a = true) ∧ R.minRun ≤ run.length

variable (R) in
/-- The body of a code long enough to be replaced. -/
def LongCode (body : List α) : Prop := (∀ a ∈ body, R.isCode a = true) ∧ R.minCode ≤ body.length

omit [DecidableEq α] in
/-- The marker's last character is in every last part of it. -/
theorem stop_mem_of_marker_eq {pre w : List α} (h : R.marker = pre ++ w) (hw : w ≠ []) :
    R.stop ∈ w := by
  have hlast := congrArg List.getLast? h
  rw [List.getLast?_append_of_ne_nil _ hw, marker, List.getLast?_concat] at hlast
  exact List.mem_of_getLast? hlast.symm

/-- No code begins with something else than the head of the marker. -/
theorem codeAt_of_head_ne {a : α} {text : List α} (ha : a ≠ R.head) :
    R.codeAt (a :: text) = none := by
  by_contra hsome
  obtain ⟨rest, hrest⟩ := Option.ne_none_iff_exists'.mp hsome
  obtain ⟨body, hbody, -⟩ := codeAt_eq_some.mp hrest
  exact ha (List.cons.inj hbody).1

/-- The scanner at a long run replaces it, up to its last character. -/
theorem scan_longRun (hR : R.Lawful) {run after : List α} (hrun : R.LongRun run)
    (hafter : ∀ c ∈ after.head?, R.isRun c = false) :
    R.scan (run ++ after) = R.runText ++ R.scan after := by
  cases run with
  | nil =>
    have hmarker := hR.marker_le
    have hlong := hrun.2
    simp only [marker, stem, List.length_append, List.length_cons, List.length_nil]
      at hmarker hlong
    omega
  | cons a run =>
    have ha := hrun.1 a List.mem_cons_self
    have hnone : R.codeAt (a :: (run ++ after)) = none := by
      refine codeAt_of_head_ne fun heq => ?_
      rw [heq, hR.head_run] at ha
      cases ha
    obtain ⟨htake, hdrop⟩ := span_append hrun.1 hafter
    have hround := scan_run hnone ha
    rw [← List.cons_append, htake, hdrop, if_pos hrun.2] at hround
    exact hround

/-- **A long run may be exchanged for another**, wherever it stands. -/
theorem scan_run_congr (hR : R.Lawful) {before run run' after : List α} (hrun : R.LongRun run)
    (hrun' : R.LongRun run') (hbefore : ∀ c ∈ before.getLast?, R.isRun c = false)
    (hafter : ∀ c ∈ after.head?, R.isRun c = false) :
    R.scan (before ++ (run ++ after)) = R.scan (before ++ (run' ++ after)) := by
  let Tail : List α → Prop := fun text => ∃ run, R.LongRun run ∧ text = run ++ after
  have hborder : Border R Tail before := by
    refine ⟨?_, fun text _ b _ _ => hbefore, fun pre body heq hbody => .inl ?_⟩
    · -- the last character of the marker would be one of the run
      rintro _ ⟨run, hrun, rfl⟩ pre hpre hshort hfront
      rcases prefix_append_cases hfront with hin | ⟨w, hw, hin⟩
      · exact absurd hin.length_le (not_le.mpr hshort)
      · have hwne : w ≠ [] := by
          rintro rfl
          rw [hw, List.append_nil] at hshort
          exact lt_irrefl _ hshort
        have hwrun : w <+: run := by
          refine (List.isPrefix_append_of_length ?_).mp hin
          have hmarker := hR.marker_le
          have hlong := hrun.2
          rw [hw, List.length_append] at hmarker
          omega
        have hstop := hR.code_of_run _ (hrun.1 _ (hwrun.mem (stop_mem_of_marker_eq hw hwne)))
        rw [hR.stop_code] at hstop
        cases hstop
    · rintro _ ⟨run, hrun, rfl⟩
      have hall : ∀ a ∈ body ++ run, R.isCode a = true := by
        intro a ha
        rcases List.mem_append.mp ha with ha | ha
        · exact hbody a ha
        · exact hR.code_of_run a (hrun.1 a ha)
      rw [← List.append_assoc, List.takeWhile_append_of_pos hall]
      have hlong := hrun.2
      have hle := hR.code_le
      simp only [List.length_append]
      omega
  -- the run is scanned by itself, or it belongs to a code that goes on through it
  rcases scan_border hborder with ⟨out, hout⟩ | ⟨⟨out, hout⟩, -⟩
  · rw [hout _ ⟨run, hrun, rfl⟩, hout _ ⟨run', hrun', rfl⟩, scan_longRun hR hrun hafter,
      scan_longRun hR hrun' hafter]
  · have hcode : ∀ r : List α, R.LongRun r → ∀ a ∈ r, R.isCode a = true :=
      fun r hr a ha => hR.code_of_run a (hr.1 a ha)
    rw [hout _ ⟨run, hrun, rfl⟩, hout _ ⟨run', hrun', rfl⟩,
      List.dropWhile_append_of_pos (hcode run hrun),
      List.dropWhile_append_of_pos (hcode run' hrun')]

variable (R) in
/-- No code that has begun in `before` takes in a marker that follows. -/
def Free (before : List α) : Prop :=
  ∀ pre body, before = pre ++ R.marker ++ body → (∀ a ∈ body, R.isCode a = true) →
    body.length + R.stem.length < R.minCode

omit [DecidableEq α] in
/-- The code characters up to the next marker, and those of the marker. -/
theorem span_marker (hR : R.Lawful) {body : List α} (hbody : ∀ a ∈ body, R.isCode a = true)
    (text : List α) :
    (body ++ (R.marker ++ text)).takeWhile R.isCode = body ++ R.stem ∧
      (body ++ (R.marker ++ text)).dropWhile R.isCode = R.stop :: text := by
  have hall : ∀ a ∈ body ++ R.stem, R.isCode a = true := by
    intro a ha
    rcases List.mem_append.mp ha with ha | ha
    · exact hbody a ha
    · exact hR.stem_code a ha
  have hstop : ∀ c ∈ (R.stop :: text).head?, R.isCode c = false := by simpa using hR.stop_code
  have hspan := span_append hall hstop
  simpa [marker, List.append_assoc] using hspan

/-- **A free marker is found**: what is returned before it does not depend on what follows. -/
theorem scan_free (hR : R.Lawful) {before : List α} (hfree : R.Free before) :
    ∃ out, ∀ text, R.scan (before ++ (R.marker ++ text)) = out ++ R.scan (R.marker ++ text) := by
  let Tail : List α → Prop := fun text => ∃ rest, text = R.marker ++ rest
  have hcode : ∀ pre body, before = pre ++ R.marker ++ body → (∀ a ∈ body, R.isCode a = true) →
      ∀ text, Tail text → ((body ++ text).takeWhile R.isCode).length < R.minCode := by
    rintro pre body heq hbody _ ⟨rest, rfl⟩
    rw [(span_marker hR hbody rest).1, List.length_append]
    exact hfree pre body heq hbody
  have hborder : Border R Tail before := by
    refine ⟨?_, ?_, fun pre body heq hbody => .inr (hcode pre body heq hbody)⟩
    · -- the last character of a marker is not one of the others
      rintro _ ⟨rest, rfl⟩ pre hpre hshort hfront
      rcases prefix_append_cases hfront with hin | ⟨w, hw, hin⟩
      · exact absurd hin.length_le (not_le.mpr hshort)
      · have hwne : w ≠ [] := by
          rintro rfl
          rw [hw, List.append_nil] at hshort
          exact lt_irrefl _ hshort
        have hlength := congrArg List.length hw
        have hpos := List.length_pos_iff.mpr hpre
        rw [marker, List.append_assoc] at hin
        rw [marker, List.length_append, List.length_append, List.length_singleton] at hlength
        have hstem : w <+: R.stem := (List.isPrefix_append_of_length (by omega)).mp hin
        have hstop := hR.stem_code _ (hstem.mem (stop_mem_of_marker_eq hw hwne))
        rw [hR.stop_code] at hstop
        cases hstop
    · rintro _ ⟨rest, rfl⟩ b hb hrun
      obtain rfl : R.head = b := by simpa [marker, stem] using hb
      rw [hR.head_run] at hrun
      cases hrun
  rcases scan_border hborder with ⟨out, hout⟩ | ⟨-, pre, body, heq, hbody, hlong⟩
  · exact ⟨out, fun text => hout _ ⟨text, rfl⟩⟩
  · have hshort := hcode pre body heq hbody R.marker ⟨[], by simp⟩
    exact absurd (hlong R.marker ⟨[], by simp⟩) (not_le.mpr hshort)

/-- The scanner at a code replaces it, up to the last character of its body. -/
theorem scan_longCode {body after : List α} (hbody : R.LongCode body)
    (hafter : ∀ c ∈ after.head?, R.isCode c = false) :
    R.scan (R.marker ++ (body ++ after)) = R.codeText ++ R.scan after := by
  obtain ⟨htake, hdrop⟩ := span_append hbody.1 hafter
  have hcodeAt := codeAt_eq_some.mpr
    ⟨body ++ after, rfl, by rw [htake]; exact hbody.2, hdrop.symm⟩
  exact scan_code hcodeAt

variable (R) in
/-- A code that takes the marker of another for its own last characters. -/
def Glued (text : List α) : Prop :=
  ∃ before body body' after,
    text = before ++ (R.marker ++ (body ++ (R.marker ++ (body' ++ after)))) ∧
    (∀ a ∈ body, R.isCode a = true) ∧ R.minCode ≤ body.length + R.stem.length ∧ R.LongCode body'

/-- **A code may be exchanged for another** in a text without glued codes. -/
theorem scan_code_congr (hR : R.Lawful) {before body body' after : List α}
    (hglued : ¬ R.Glued (before ++ (R.marker ++ (body ++ after)))) (hbody : R.LongCode body)
    (hbody' : R.LongCode body') (hafter : ∀ c ∈ after.head?, R.isCode c = false) :
    R.scan (before ++ (R.marker ++ (body ++ after)))
      = R.scan (before ++ (R.marker ++ (body' ++ after))) := by
  have hfree : R.Free before := by
    rintro pre u rfl hu
    by_contra hlong
    exact hglued ⟨pre, u, body, after, by simp, hu, not_lt.mp hlong, hbody⟩
  obtain ⟨out, hout⟩ := scan_free hR hfree
  rw [hout, hout, scan_longCode hbody hafter, scan_longCode hbody' hafter]

omit [DecidableEq α] in
/-- The first pair of glued codes is free. -/
theorem Glued.exists_free {text : List α} (h : R.Glued text) (hR : R.Lawful) :
    ∃ before body body' after,
      text = before ++ (R.marker ++ (body ++ (R.marker ++ (body' ++ after)))) ∧
      (∀ a ∈ body, R.isCode a = true) ∧ R.minCode ≤ body.length + R.stem.length ∧
      R.LongCode body' ∧ R.Free before := by
  obtain ⟨before, body, body', after, htext, hbody, hlong, hbody'⟩ := h
  induction hn : before.length using Nat.strong_induction_on
    generalizing before body body' after with
  | _ n ih =>
    subst hn
    by_cases hfree : R.Free before
    · exact ⟨before, body, body', after, htext, hbody, hlong, hbody', hfree⟩
    · simp only [Free, not_forall, not_lt] at hfree
      obtain ⟨pre, u, rfl, hu, hulong⟩ := hfree
      have hstem : R.LongCode (body ++ R.stem) := by
        refine ⟨fun a ha => ?_, by rw [List.length_append]; exact hlong⟩
        rcases List.mem_append.mp ha with ha | ha
        · exact hbody a ha
        · exact hR.stem_code a ha
      refine ih pre.length ?_ pre u (body ++ R.stem) (R.stop :: (body' ++ after)) ?_ hu hulong hstem
        rfl
      · simp only [List.length_append, marker, List.length_singleton]
        omega
      · rw [htext]
        simp [marker]

/-- A character that is neither in a run nor the marker's head is kept. -/
theorem scan_kept {a : α} (hrun : R.isRun a = false) (hhead : a ≠ R.head) (text : List α) :
    R.scan (a :: text) = a :: R.scan text := scan_other (codeAt_of_head_ne hhead) hrun

/-- Characters that belong to neither shape come through one by one. -/
theorem scan_replicate {a : α} (hrun : R.isRun a = false) (hhead : a ≠ R.head) (n : ℕ)
    (text : List α) : R.scan (List.replicate n a ++ text) = List.replicate n a ++ R.scan text := by
  induction n with
  | zero => rfl
  | succ n ih =>
    rw [List.replicate_succ, List.cons_append, scan_kept hrun hhead, ih]
    rfl

/-- Of two glued codes the second is read as plain text. -/
theorem scan_glued (hR : R.Lawful) {body : List α} (hbody : ∀ a ∈ body, R.isCode a = true)
    (hlong : R.minCode ≤ body.length + R.stem.length) (text : List α) :
    R.scan (R.marker ++ (body ++ (R.marker ++ text))) = R.codeText ++ (R.stop :: R.scan text) := by
  obtain ⟨htake, hdrop⟩ := span_marker hR hbody text
  have hcode : R.codeAt (R.marker ++ (body ++ (R.marker ++ text))) = some (R.stop :: text) :=
    codeAt_eq_some.mpr ⟨_, rfl, by rw [htake, List.length_append]; exact hlong, hdrop.symm⟩
  have hrun : R.isRun R.stop = false := by
    by_contra hrun
    have hstop := hR.code_of_run R.stop (by simpa using hrun)
    rw [hR.stop_code] at hstop
    cases hstop
  have hhead : R.stop ≠ R.head := by
    intro heq
    have hcode := hR.stem_code R.head List.mem_cons_self
    rw [← heq, hR.stop_code] at hcode
    cases hcode
  rw [← scan_kept hrun hhead]
  exact scan_code hcode

/-- **Glued codes show**: exchanging the second of the first pair is seen, as soon as there is a
    code character `g` that the scanner keeps. -/
theorem exists_scan_ne_of_glued (hR : R.Lawful) {g : α} (hg : R.isCode g = true)
    (hrun : R.isRun g = false) (hhead : g ≠ R.head) {text : List α} (h : R.Glued text) :
    ∃ before body after body', text = before ++ (R.marker ++ (body ++ after)) ∧
      R.LongCode body ∧ R.LongCode body' ∧ (∀ c ∈ after.head?, R.isCode c = false) ∧
      R.scan text ≠ R.scan (before ++ (R.marker ++ (body' ++ after))) := by
  obtain ⟨before, u, v, rest, rfl, hu, hlong, hv, hfree⟩ := h.exists_free hR
  obtain ⟨out, hout⟩ := scan_free hR hfree
  let body := (v ++ rest).takeWhile R.isCode
  let after := (v ++ rest).dropWhile R.isCode
  have htext : body ++ after = v ++ rest := List.takeWhile_append_dropWhile
  have hbody : R.LongCode body := by
    refine ⟨fun a ha => List.mem_takeWhile_imp ha, ?_⟩
    show R.minCode ≤ ((v ++ rest).takeWhile R.isCode).length
    rw [List.takeWhile_append_of_pos hv.1, List.length_append]
    exact le_trans hv.2 (Nat.le_add_right _ _)
  have hafter : ∀ c ∈ after.head?, R.isCode c = false := by
    intro c hc
    have hnot := List.head?_dropWhile_not R.isCode (v ++ rest)
    rw [Option.mem_def.mp hc] at hnot
    exact hnot
  have hreplicate : ∀ n, R.minCode ≤ n → R.LongCode (List.replicate n g) := by
    intro n hn
    refine ⟨fun a ha => ?_, by rwa [List.length_replicate]⟩
    rw [List.eq_of_mem_replicate ha, hg]
  -- with `n` times `g` for the body, the scanner returns all of them
  have hscan : ∀ n, R.scan (before ++ R.marker ++ u ++ (R.marker ++ (List.replicate n g ++ after)))
      = out ++ (R.codeText ++ (R.stop :: (List.replicate n g ++ R.scan after))) := by
    intro n
    simp only [List.append_assoc]
    rw [hout, scan_glued hR hu hlong, scan_replicate hrun hhead]
  have hshows : ∀ m n, m ≠ n →
      R.scan (before ++ R.marker ++ u ++ (R.marker ++ (List.replicate m g ++ after)))
        ≠ R.scan (before ++ R.marker ++ u ++ (R.marker ++ (List.replicate n g ++ after))) := by
    intro m n hne heq
    have hlength := congrArg List.length heq
    rw [hscan, hscan] at hlength
    simp only [List.length_append, List.length_cons, List.length_replicate] at hlength
    omega
  rw [← htext]
  by_cases hsame : R.scan (before ++ (R.marker ++ (u ++ (R.marker ++ (body ++ after)))))
      = R.scan (before ++ R.marker ++ u ++ (R.marker ++ (List.replicate R.minCode g ++ after)))
  · refine ⟨before ++ R.marker ++ u, body, after, List.replicate (R.minCode + 1) g, by simp, hbody,
      hreplicate _ (Nat.le_succ _), hafter, fun heq => ?_⟩
    exact hshows _ _ (Nat.ne_of_lt (Nat.lt_succ_self R.minCode)) (hsame.symm.trans heq)
  · exact ⟨before ++ R.marker ++ u, body, after, List.replicate R.minCode g, by simp, hbody,
      hreplicate _ le_rfl, hafter, hsame⟩

end ShareCompute.Library.Rules
