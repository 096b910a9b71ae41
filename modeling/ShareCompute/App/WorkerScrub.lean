import ShareCompute.App.EventLogScrub
import ShareCompute.Library.Replacing

namespace ShareCompute.App.WorkerScrub

open ShareCompute.Library Replacing

/-!
# Scrubbing the Android log

`EventLog.scrub` of the Android worker: the registered secrets are replaced one after the other,
then long runs of hex digits, then pairing codes, and what is left is cut.  A Java string is its
UTF-16 units.

* `scrub` — the passes, each a `replaceAll`.
* `Plain` — words that do not contain what the replacements begin and end with.
* `scrub_hides` — no plain secret, no run and no code is in what comes out, for every set of
  secrets in every order; a text without any of them comes out as it is.
-/

/-- A Java string is the list of its UTF-16 units. -/
abbrev Units := List UInt16

/-- The units of a text of the basic plane. -/
def units (text : String) : Units := text.toList.map (fun c => UInt16.ofNat c.toNat)

/-- The class `[0-9a-fA-F]` of the pattern for long hexadecimal words. -/
def isHex (u : UInt16) : Bool := EventLog.isHex u.toNat

/-- The class `[A-Za-z0-9_=-]` of the pattern for pairing codes. -/
def isCode (u : UInt16) : Bool := EventLog.isCode u.toNat

/-- What `protect` registers: anything shorter is ignored. -/
abbrev Secret := {secret : Units // 8 ≤ secret.length}

/-- `protect(secret)`: a secret that is not null and not empty is registered, unless it is
    already. -/
def protect (secrets : List Secret) (secret : Option Units) : List Secret :=
  match secret with
  | none => secrets
  | some secret =>
      if h : 8 ≤ secret.length then
        if ⟨secret, h⟩ ∈ secrets then secrets else secrets ++ [⟨secret, h⟩]
      else secrets

/-- What stands for a secret and for a long run of hex digits. -/
def redacted : Units := units "<redacted>"

/-- What a pairing code begins with, in units of UTF-16. -/
def codeMark : Units := units "sc1."

/-- What stands for a pairing code; its marker stays. -/
def codeRedacted : Units := units "sc1.<redacted>"

/-- `FIELD`, the number of units after which a field is cut. -/
def fieldLimit : ℕ := 200

/-- The unit that ends a text that was cut. -/
def ellipsis : UInt16 := 8230

/-- `s.replace(secret, …)`: how much of the text in front is the secret. -/
def findSecret (secret : Units) (text : Units) : ℕ :=
  if secret.isPrefixOf text then secret.length else 0

/-- The pattern `[0-9a-fA-F]{64,}`: how much of the text in front matches it. -/
def findHex (text : Units) : ℕ :=
  let length := (text.takeWhile isHex).length
  if 64 ≤ length then length else 0

/-- The pattern `sc1\.[A-Za-z0-9_=-]{8,}`: how much of the text in front matches it. -/
def findCode (text : Units) : ℕ :=
  if codeMark.isPrefixOf text then
    let length := ((text.drop codeMark.length).takeWhile isCode).length
    if 8 ≤ length then codeMark.length + length else 0
  else 0

/-- The first pass: every registered secret is replaced, one after the other. -/
def hideSecrets (secrets : List Secret) (s : Units) : Units :=
  secrets.foldl (fun s secret => replaceAll (findSecret secret.1) redacted s) s

/-- The last pass: a text that is longer than a field may be ends in an ellipsis. -/
def cut (s : Units) : Units :=
  if fieldLimit < s.length then s.take fieldLimit ++ [ellipsis] else s

/-- `secrets` in the order in which the set is iterated. -/
def scrub (secrets : List Secret) (s : Units) : Units :=
  let s := hideSecrets secrets s
  let s := replaceAll findHex redacted s
  let s := replaceAll findCode codeRedacted s
  cut s

/-! ### The replacements -/

/-- What a replacement begins and ends with, and what a cut ends with. -/
def fences : Units := [60, 62, ellipsis]

/-- A word without any of these, which cannot run into what a replacement or a cut has put in. -/
def Plain (word : Units) : Prop := ∀ c ∈ word, c ∉ fences

variable {word text : Units} {secrets : List Secret}

/-- The placeholder stands between angle brackets, which no plain word has. -/
theorem redacted_eq : redacted = [] ++ 60 :: (units "redacted" ++ [62]) := by decide

/-- The placeholder of a code is the marker and the other placeholder. -/
theorem codeRedacted_eq : codeRedacted = codeMark ++ 60 :: (units "redacted" ++ [62]) := by decide

/-- A replacement marks every class without the fences. -/
theorem marked_redacted (find : Units → ℕ) {T : UInt16 → Prop} (hT : ∀ c ∈ fences, ¬ T c) :
    Marked find redacted T where
  opened := ⟨[], 60, _, redacted_eq, hT 60 (by decide), fun _ _ => List.nil_prefix⟩
  closed := ⟨units "<redacted", 62, by decide, hT 62 (by decide)⟩

/-- The pass that hides codes leaves a marker behind, and nothing that it would take for a code
    again. -/
theorem marked_codeRedacted {T : UInt16 → Prop} (hT : ∀ c ∈ fences, ¬ T c) :
    Marked findCode codeRedacted T where
  opened := by
    refine ⟨codeMark, 60, _, codeRedacted_eq, hT 60 (by decide), fun text hfind => ?_⟩
    unfold findCode at hfind
    split at hfind
    · next hmark => exact List.isPrefixOf_iff_prefix.mp hmark
    · exact absurd rfl hfind
  closed := ⟨units "sc1.<redacted", 62, by decide, hT 62 (by decide)⟩

/-- What is plain in a replacement is in its text. -/
theorem infix_of_redacted (hword : Plain word) (h : word <:+: redacted) :
    word <:+: units "redacted" := by
  have hopen : (60 : UInt16) ∉ word := fun hmem => hword 60 hmem (by decide)
  have hclose : (62 : UInt16) ∉ word := fun hmem => hword 62 hmem (by decide)
  rw [redacted_eq] at h
  rcases infix_of_notMem h hopen with h | h
  · rw [List.infix_nil.mp h]
    exact List.nil_infix
  · rcases infix_of_notMem h hclose with h | h
    · exact h
    · rw [List.infix_nil.mp h]
      exact List.nil_infix

/-- A plain word in the placeholder of a code lies in its marker or between the brackets. -/
theorem infix_of_codeRedacted (hword : Plain word) (h : word <:+: codeRedacted) :
    word <:+: codeMark ∨ word <:+: units "redacted" := by
  have hopen : (60 : UInt16) ∉ word := fun hmem => hword 60 hmem (by decide)
  rw [codeRedacted_eq] at h
  rcases infix_of_notMem h hopen with h | h
  · exact .inl h
  · refine .inr (infix_of_redacted hword ?_)
    rw [redacted_eq]
    exact h.trans (List.suffix_cons 60 _).isInfix

/-! ### What each pass leaves -/

/-- Hex digits are plain: none of them is a bracket. -/
theorem plain_of_isHex (h : ∀ c ∈ word, isHex c = true) : Plain word := by
  intro c hc hfence
  have hhex := h c hc
  simp only [fences, List.mem_cons, List.not_mem_nil, or_false] at hfence
  rcases hfence with rfl | rfl | rfl <;> simp [isHex, EventLog.isHex, ellipsis] at hhex

/-- What a code is made of is plain. -/
theorem plain_of_isCode (h : ∀ c ∈ word, isCode c = true ∨ c ∈ codeMark) : Plain word := by
  intro c hc hfence
  have hcode := h c hc
  simp only [fences, List.mem_cons, List.not_mem_nil, or_false] at hfence
  revert hcode
  rcases hfence with rfl | rfl | rfl <;> decide

/-- A pass over the text brings no plain word in, unless its replacement has it. -/
theorem infix_of_redacted_pass (find : Units → ℕ) (hword : Plain word)
    (hnot : ¬ word <:+: redacted) (h : word <:+: replaceAll find redacted text) :
    word <:+: text :=
  infix_of_replaceAll (marked_redacted find (T := fun c => c ∉ fences) fun _ hc hnot => hnot hc)
    hword hnot h

/-- A plain word that shows behind the pass over codes was in the text before it, unless it lies in
    the placeholder. -/
theorem infix_of_code_pass (hword : Plain word) (hnot : ¬ word <:+: codeRedacted)
    (h : word <:+: replaceAll findCode codeRedacted text) : word <:+: text :=
  infix_of_replaceAll (marked_codeRedacted (T := fun c => c ∉ fences) fun _ hc hnot => hnot hc)
    hword hnot h

/-- What the cut leaves was there: a plain word in the cut text is a word of the text. -/
theorem infix_of_cut (hword : Plain word) (h : word <:+: cut text) : word <:+: text := by
  unfold cut at h
  split at h
  · have hmark : ellipsis ∉ word := fun hmem => hword ellipsis hmem (by decide)
    rcases infix_of_notMem h hmark with h | h
    · exact h.trans (List.take_prefix ..).isInfix
    · rw [List.infix_nil.mp h]
      exact List.nil_infix
  · exact h

/-- A plain word that shows behind the pass over secrets was in the text before it, unless it lies
    in the placeholder. -/
theorem infix_of_hideSecrets (hword : Plain word) (hnot : ¬ word <:+: redacted)
    (h : word <:+: hideSecrets secrets text) : word <:+: text := by
  induction secrets generalizing text with
  | nil => exact h
  | cons secret secrets ih => exact infix_of_redacted_pass _ hword hnot (ih h)

/-- **A registered secret is replaced**, and no later pass for another one brings it back. -/
theorem not_infix_hideSecrets {secret : Secret} (hmem : secret ∈ secrets)
    (hword : Plain secret.1) (hnot : ¬ secret.1 <:+: redacted) (text : Units) :
    ¬ secret.1 <:+: hideSecrets secrets text := by
  induction secrets generalizing text with
  | nil => cases hmem
  | cons first secrets ih =>
    rcases List.mem_cons.mp hmem with rfl | hmem
    · intro h
      refine not_infix_replaceAll
        (marked_redacted (findSecret secret.1) (T := fun c => c ∉ fences) fun _ hc hnot => hnot hc)
        hword hnot ?_ (infix_of_hideSecrets hword hnot h)
      intro text hprefix
      rw [findSecret, if_pos (List.isPrefixOf_iff_prefix.mpr hprefix)]
      have hlong := secret.2
      omega
    · exact ih hmem _

/-- What begins with letters of a class has them in its run of the class. -/
theorem prefix_takeWhile {p : UInt16 → Bool} (hword : ∀ c ∈ word, p c = true)
    (h : word <+: text) : word <+: text.takeWhile p := by
  obtain ⟨rest, rfl⟩ := h
  rw [List.takeWhile_append_of_pos hword]
  exact List.prefix_append ..

/-- Behind the pass over runs there are no 64 hex digits in a row. -/
theorem not_infix_hex_pass (hword : ∀ c ∈ word, isHex c = true) (hlength : word.length = 64)
    (text : Units) : ¬ word <:+: replaceAll findHex redacted text := by
  have hnot : ¬ word <:+: redacted := fun h => by
    have hle := h.length_le
    rw [hlength] at hle
    exact absurd hle (by decide)
  refine not_infix_replaceAll
    (marked_redacted findHex (T := fun c => c ∉ fences) fun _ hc hnot => hnot hc)
    (plain_of_isHex hword) hnot fun text hprefix => ?_
  have hrun := (prefix_takeWhile hword hprefix).length_le
  rw [findHex, if_pos (by omega)]
  omega

/-- Behind the pass over codes there is no marker with eight code characters behind it. -/
theorem not_infix_code_pass {body : Units} (hbody : ∀ c ∈ body, isCode c = true)
    (hlength : body.length = 8) (text : Units) :
    ¬ codeMark ++ body <:+: replaceAll findCode codeRedacted text := by
  have hplain : Plain (codeMark ++ body) := plain_of_isCode fun c hc =>
    (List.mem_append.mp hc).elim .inr fun hmem => .inl (hbody c hmem)
  have htotal : (codeMark ++ body).length = 12 := by
    rw [List.length_append, hlength]
    rfl
  have hnot : ¬ codeMark ++ body <:+: codeRedacted := fun h => by
    rcases infix_of_codeRedacted hplain h with h | h
    · exact absurd (htotal ▸ h.length_le) (by decide)
    · exact absurd (htotal ▸ h.length_le) (by decide)
  refine not_infix_replaceAll
    (marked_codeRedacted (T := fun c => c ∉ fences) fun _ hc hnot => hnot hc)
    hplain hnot fun text hprefix => ?_
  obtain ⟨rest, rfl⟩ := hprefix
  have hmark : codeMark.isPrefixOf (codeMark ++ body ++ rest) = true := by
    rw [List.append_assoc]
    exact List.isPrefixOf_iff_prefix.mpr (List.prefix_append ..)
  have hdrop : (codeMark ++ body ++ rest).drop codeMark.length = body ++ rest := by
    rw [List.append_assoc, List.drop_left]
  have hrun := (prefix_takeWhile hbody (List.prefix_append body rest)).length_le
  rw [findCode, if_pos hmark, hdrop, if_pos (by omega)]
  omega

/-! ### The whole scrub -/

/-- A text in which the passes find nothing. -/
structure Clean (secrets : List Secret) (text : Units) : Prop where
  secrets : ∀ secret ∈ secrets, ¬ secret.1 <:+: text
  hex : ∀ run : Units, (∀ c ∈ run, isHex c = true) → run.length = 64 → ¬ run <:+: text
  code : ∀ body : Units, (∀ c ∈ body, isCode c = true) → body.length = 8 →
    ¬ codeMark ++ body <:+: text

/-- A text in which no secret occurs comes through the first pass as it is. -/
theorem hideSecrets_of_clean (h : ∀ secret ∈ secrets, ¬ secret.1 <:+: text) :
    hideSecrets secrets text = text := by
  induction secrets with
  | nil => rfl
  | cons secret secrets ih =>
    obtain ⟨hfirst, hrest⟩ := List.forall_mem_cons.mp h
    have hsame : replaceAll (findSecret secret.1) redacted text = text := by
      refine replaceAll_eq_self fun rest hsuffix _ => ?_
      rw [findSecret, if_neg]
      intro hprefix
      exact hfirst ((List.isPrefixOf_iff_prefix.mp hprefix).isInfix.trans hsuffix.isInfix)
    rw [hideSecrets, List.foldl_cons, hsame]
    exact ih hrest

/-- Letters of a class in front of a text: any number of them, up to the whole run. -/
theorem take_takeWhile_spec {p : UInt16 → Bool} {n : ℕ} (h : n ≤ (text.takeWhile p).length) :
    (∀ c ∈ (text.takeWhile p).take n, p c = true) ∧ ((text.takeWhile p).take n).length = n ∧
      (text.takeWhile p).take n <+: text := by
  refine ⟨fun c hc => List.mem_takeWhile_imp (List.mem_of_mem_take hc), ?_, ?_⟩
  · rw [List.length_take]
    omega
  · exact (List.take_prefix ..).trans (List.takeWhile_prefix p)

/-- A text with nothing to hide that is not too long is logged as it is. -/
theorem scrub_of_clean (h : Clean secrets text) (hlength : text.length ≤ fieldLimit) :
    scrub secrets text = text := by
  have hhex : replaceAll findHex redacted text = text := by
    refine replaceAll_eq_self fun rest hsuffix _ => ?_
    rw [findHex, if_neg]
    intro hrun
    obtain ⟨hletters, hcount, hstart⟩ := take_takeWhile_spec hrun
    exact h.hex _ hletters hcount (hstart.isInfix.trans hsuffix.isInfix)
  have hcode : replaceAll findCode codeRedacted text = text := by
    refine replaceAll_eq_self fun rest hsuffix _ => ?_
    unfold findCode
    split
    · next hmark =>
      rw [if_neg]
      intro hrun
      obtain ⟨hletters, hcount, hprefix⟩ := take_takeWhile_spec hrun
      obtain ⟨back, rfl⟩ := List.isPrefixOf_iff_prefix.mp hmark
      rw [List.drop_left] at hletters hcount hprefix
      refine h.code _ hletters hcount ?_
      exact ((List.prefix_append_right_inj codeMark).mpr hprefix).isInfix.trans hsuffix.isInfix
    · rfl
  unfold scrub
  dsimp only
  rw [hideSecrets_of_clean h.secrets, hhex, hcode, cut, if_neg (by omega)]

/-- A cut text has at most one unit more than a field may have. -/
theorem length_cut_le (text : Units) : (cut text).length ≤ fieldLimit + 1 := by
  unfold cut
  split
  · rw [List.length_append, List.length_take, List.length_singleton]
    omega
  · omega

/-- **What the Android log never shows.**  For every set of registered secrets, in every order,
    and every text: no plain secret but the word of the replacement itself, no run of 64 hex
    digits and no pairing code is in what is written, which is at most one unit longer than a
    field; and a text without any of them is written as it is. -/
theorem scrub_hides (secrets : List Secret) (text : Units) :
    (∀ secret ∈ secrets, Plain secret.1 → secret.1 ≠ units "redacted" →
      ¬ secret.1 <:+: scrub secrets text) ∧
    (∀ run : Units, (∀ c ∈ run, isHex c = true) → run.length = 64 →
      ¬ run <:+: scrub secrets text) ∧
    (∀ body : Units, (∀ c ∈ body, isCode c = true) → body.length = 8 →
      ¬ codeMark ++ body <:+: scrub secrets text) ∧
    (scrub secrets text).length ≤ fieldLimit + 1 ∧
    (Clean secrets text → text.length ≤ fieldLimit → scrub secrets text = text) := by
  refine ⟨fun secret hmem hplain hne h => ?_, fun run hrun hlength h => ?_,
    fun body hbody hlength h => ?_, length_cut_le _, scrub_of_clean⟩
  · -- a protected secret
    have hlong := secret.2
    have hword : ¬ secret.1 <:+: units "redacted" := fun hinside =>
      hne (hinside.eq_of_length (le_antisymm hinside.length_le hlong))
    have hredacted : ¬ secret.1 <:+: redacted := fun hinside =>
      hword (infix_of_redacted hplain hinside)
    have hcode : ¬ secret.1 <:+: codeRedacted := fun hinside => by
      rcases infix_of_codeRedacted hplain hinside with hmark | hinside
      · exact absurd (hlong.trans hmark.length_le) (by decide)
      · exact hword hinside
    exact not_infix_hideSecrets hmem hplain hredacted text
      (infix_of_redacted_pass _ hplain hredacted
        (infix_of_code_pass hplain hcode (infix_of_cut hplain h)))
  · -- a run of hexadecimal digits
    have hplain := plain_of_isHex hrun
    have hcode : ¬ run <:+: codeRedacted := fun hinside =>
      absurd (hlength ▸ hinside.length_le) (by decide)
    exact not_infix_hex_pass hrun hlength _
      (infix_of_code_pass hplain hcode (infix_of_cut hplain h))
  · -- a pairing code
    have hplain : Plain (codeMark ++ body) := plain_of_isCode fun c hc =>
      (List.mem_append.mp hc).elim .inr fun hmem => .inl (hbody c hmem)
    exact not_infix_code_pass hbody hlength _ (infix_of_cut hplain h)

/-- A commit hash is shorter than the runs that are hidden. -/
example : scrub [] (units "0123456789abcdef0123456789abcdef01234567")
    = units "0123456789abcdef0123456789abcdef01234567" := by decide +kernel

end ShareCompute.App.WorkerScrub
