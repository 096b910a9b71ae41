import ShareCompute.Cluster.ValidateProof
import Mathlib.Data.Set.Disjoint
import Mathlib.Data.List.Dedup

namespace ShareCompute.Cluster

open ShareCompute.Library

/-!
# The layers in the log

`validate_proof` looks in the log of the probe for the layers that were put on each device.  Here
it is said without the matching what the log says, and shown that all of it is found: a line
begins with an `l` and has no other, so no match hides one that starts inside it.

* `Assigns` — the log assigns a layer to a device, by its whole name.
* `mem_findLayers` — the matches are exactly these assignments.
* `assignedLayers_eq_ok`, `exists_assignedLayers` — what becomes of them as numbers: all are
  there, unless one of them is too long for `int`.
-/

/-- What Python says about the character classes: letters are neither white space nor digits,
    letters and digits are part of a word, and digits are not white space. -/
structure CharClasses.Lawful (classes : CharClasses) : Prop where
  isSpace_of_isAlpha : ∀ c : Char, c.isAlpha = true → classes.isSpace c = false
  isDigit_of_isAlpha : ∀ c : Char, c.isAlpha = true → classes.isDigit c = false
  isWord_of_isAlphanum : ∀ c : Char, c.isAlphanum = true → classes.isWord c = true
  isSpace_of_isDigit : ∀ c : Char, classes.isDigit c = true → classes.isSpace c = false

/-- A literal is dropped exactly if the text begins with it. -/
theorem dropLiteral_eq_some {literal text rest : List Char} :
    dropLiteral literal text = some rest ↔ text = literal ++ rest := by
  induction literal generalizing text with
  | nil => exact ⟨fun h => Option.some.inj h, fun h => congrArg some h⟩
  | cons c literal ih =>
    cases text with
    | nil => simp [dropLiteral]
    | cons d text =>
      rw [dropLiteral, List.cons_append, List.cons.injEq]
      split
      case isTrue heq =>
        rw [ih]
        exact (and_iff_right heq.symm).symm
      case isFalse hne => exact iff_of_false (by simp) (fun h => hne h.1.symm)

section

variable {classes : CharClasses}

/-- Blanks are dropped exactly if there is one, and as many as there are. -/
theorem dropSpaces_eq_some {text rest : List Char} :
    dropSpaces classes text = some rest ↔ ∃ gap, gap ≠ [] ∧ (∀ c ∈ gap, classes.isSpace c = true) ∧
      text = gap ++ rest ∧ Stops classes.isSpace rest := by
  constructor
  · intro h
    unfold dropSpaces at h
    split at h
    · cases h
    rename_i c text
    split at h
    case isFalse => cases h
    case isTrue hc =>
      obtain rfl := Option.some.inj h
      refine ⟨c :: text.takeWhile classes.isSpace, by simp, ?_, by simp, stops_dropWhile _ _⟩
      rw [List.forall_mem_cons]
      exact ⟨hc, fun c hc => List.mem_takeWhile_imp hc⟩
  · rintro ⟨gap, hgap, hspaces, rfl, hstops⟩
    obtain ⟨c, gap, rfl⟩ := List.exists_cons_of_ne_nil hgap
    rw [List.forall_mem_cons] at hspaces
    rw [List.cons_append, dropSpaces, if_pos hspaces.1, dropWhile_append_stops hspaces.2 hstops]

/-- A text that begins with `layer`, a number and `assigned to device`. -/
inductive LayerLine (classes : CharClasses) : (digits text rest : List Char) → Prop
  | intro {gap digits gap' rest : List Char} (hgap : gap ≠ [])
      (hspaces : ∀ c ∈ gap, classes.isSpace c = true) (hdigits : digits ≠ [])
      (hall : ∀ c ∈ digits, classes.isDigit c = true) (hgap' : gap' ≠ [])
      (hspaces' : ∀ c ∈ gap', classes.isSpace c = true) :
      LayerLine classes digits ("layer".toList ++ (gap ++ (digits ++ (gap' ++
        ("assigned to device ".toList ++ rest))))) rest

/-- The log says somewhere that the layer with these digits is assigned to the device, and the
    name of the device ends there. -/
def Assigns (classes : CharClasses) (log : List Char) (device : String) (digits : List Char) :
    Prop :=
  ∃ before found after, log = before ++ found ∧ LayerLine classes digits found after ∧
    after.takeWhile classes.isWord = device.toList

/-- What is matched behind the digits is the phrase and then the name of the device. -/
theorem deviceText (index : ℕ) : ("assigned to device RPC" ++ toString index).toList
    = "assigned to device ".toList ++ ("RPC" ++ toString index).toList := by
  rw [String.toList_append, String.toList_append]
  rfl

/-- The word boundary is there exactly if no word character follows. -/
theorem stops_isWord_iff {text : List Char} :
    (text.head?.map classes.isWord).getD false = false ↔ Stops classes.isWord text := by
  cases text <;> simp [Stops]

/-! What follows a part of a line never fits that part. -/

/-- The blanks before the digits stop at them. -/
theorem stops_digits (hclasses : classes.Lawful) {digits : List Char} (hdigits : digits ≠ [])
    (hall : ∀ c ∈ digits, classes.isDigit c = true) (rest : List Char) :
    Stops classes.isSpace (digits ++ rest) := by
  obtain ⟨d, digits, rfl⟩ := List.exists_cons_of_ne_nil hdigits
  exact stops_cons.mpr (hclasses.isSpace_of_isDigit d (hall d List.mem_cons_self))

/-- The digits stop at the blanks behind them. -/
theorem stops_gap (hclasses : classes.Lawful) {gap : List Char} (hgap : gap ≠ [])
    (hspaces : ∀ c ∈ gap, classes.isSpace c = true) (rest : List Char) :
    Stops classes.isDigit (gap ++ rest) := by
  obtain ⟨c, gap, rfl⟩ := List.exists_cons_of_ne_nil hgap
  rw [List.cons_append, stops_cons, ← Bool.not_eq_true]
  intro hdigit
  simpa [hspaces c List.mem_cons_self] using hclasses.isSpace_of_isDigit c hdigit

/-- The blanks behind the digits stop at the phrase. -/
theorem stops_assigned (hclasses : classes.Lawful) (rest : List Char) :
    Stops classes.isSpace ("assigned to device ".toList ++ rest) :=
  stops_cons.mpr (hclasses.isSpace_of_isAlpha 'a' rfl)

/-- What a match reads: a line, the name of the device, and that it ends. -/
theorem matchLayer_eq_some (hclasses : classes.Lawful) {index : ℕ} {text digits rest : List Char} :
    matchLayer classes index text = some (digits, rest) ↔
      LayerLine classes digits text (("RPC" ++ toString index).toList ++ rest) ∧
        Stops classes.isWord rest := by
  simp only [matchLayer, Option.bind_eq_bind, Option.bind_eq_some_iff, Option.guard_eq_some',
    dropLiteral_eq_some, dropSpaces_eq_some, deviceText, stops_isWord_iff]
  constructor
  · rintro ⟨_, rfl, text, ⟨gap, hgap, hspaces, rfl, -⟩, _, hdigits, _,
      ⟨gap', hgap', hspaces', hdevice, -⟩, rest', rfl, _, hstops, hsome⟩
    obtain ⟨rfl, rfl⟩ := Prod.mk.inj (Option.some.inj hsome)
    have hline : LayerLine classes _ _ (("RPC" ++ toString index).toList ++ rest') :=
      .intro hgap hspaces hdigits (fun c hc => List.mem_takeWhile_imp hc) hgap' hspaces'
    rw [List.append_assoc] at hdevice
    rw [← hdevice, List.takeWhile_append_dropWhile] at hline
    exact ⟨hline, hstops⟩
  · rintro ⟨⟨hgap, hspaces, hdigits, hall, hgap', hspaces'⟩, hstops⟩
    rename_i gap gap'
    have hnext := stops_gap hclasses hgap' hspaces'
      ("assigned to device ".toList ++ (("RPC" ++ toString index).toList ++ rest))
    refine ⟨_, rfl, _, ⟨gap, hgap, hspaces, rfl, stops_digits hclasses hdigits hall _⟩, ?_⟩
    rw [takeWhile_append_stops hall hnext, dropWhile_append_stops hall hnext]
    refine ⟨(), hdigits, _, ⟨gap', hgap', hspaces', rfl, stops_assigned hclasses _⟩, rest, ?_, (),
      hstops, rfl⟩
    rw [List.append_assoc]

/-- There is one way to read a line. -/
theorem LayerLine.read (hclasses : classes.Lawful) {digits text rest : List Char}
    (h : LayerLine classes digits text rest) :
    let line := (text.drop 5).dropWhile classes.isSpace
    digits = line.takeWhile classes.isDigit ∧
      rest = ((line.dropWhile classes.isDigit).dropWhile classes.isSpace).drop 19 := by
  obtain ⟨hgap, hspaces, hdigits, hall, hgap', hspaces'⟩ := h
  rename_i gap gap'
  have hline := dropWhile_append_stops hspaces (stops_digits hclasses hdigits hall
    (gap' ++ ("assigned to device ".toList ++ rest)))
  have hnext := stops_gap hclasses hgap' hspaces' ("assigned to device ".toList ++ rest)
  rw [List.drop_left' (show "layer".toList.length = 5 from rfl), hline]
  dsimp only
  rw [takeWhile_append_stops hall hnext, dropWhile_append_stops hall hnext,
    dropWhile_append_stops hspaces' (stops_assigned hclasses rest),
    List.drop_left' (show "assigned to device ".toList.length = 19 from rfl)]
  exact ⟨rfl, rfl⟩

/-- The digits of an index are digits. -/
theorem isDigit_of_mem_toString {index : ℕ} {c : Char} (hc : c ∈ (toString index).toList) :
    c.isDigit = true := by
  apply Nat.isDigit_of_mem_toDigits (b := 10) (n := index) (by decide) (by decide)
  simpa using hc

/-- The letters of a device name are neither outside of a word nor the first one of `layer`. -/
theorem device_letters {index : ℕ} :
    ∀ c ∈ ("RPC" ++ toString index).toList, c.isAlphanum = true ∧ c ≠ 'l' := by
  intro c hc
  rw [String.toList_append, List.mem_append] at hc
  rcases hc with hc | hc
  · have hall : "RPC".toList.all (fun c => c.isAlphanum && c != 'l') = true := by decide
    simpa using List.all_eq_true.mp hall c hc
  · have hdigit := isDigit_of_mem_toString hc
    refine ⟨by rw [Char.isAlphanum, hdigit, Bool.or_true], ?_⟩
    rintro rfl
    exact absurd hdigit (by decide)

/-- The name of a device consists of word characters. -/
theorem isWord_device (hclasses : classes.Lawful) {index : ℕ} :
    ∀ c ∈ ("RPC" ++ toString index).toList, classes.isWord c = true :=
  fun c hc => hclasses.isWord_of_isAlphanum c (device_letters c hc).1

/-- A line begins with an `l`, and with no other. -/
theorem LayerLine.starts (hclasses : classes.Lawful) {digits text rest : List Char}
    (h : LayerLine classes digits text rest) :
    ∃ inner, text = 'l' :: (inner ++ rest) ∧ 'l' ∉ inner := by
  obtain ⟨hgap, hspaces, hdigits, hall, hgap', hspaces'⟩ := h
  rename_i gap gap'
  refine ⟨"ayer".toList ++ (gap ++ (digits ++ (gap' ++ "assigned to device ".toList))), ?_, ?_⟩
  · simp only [List.append_assoc]
    rfl
  · have hspace := hclasses.isSpace_of_isAlpha 'l' rfl
    have hdigit := hclasses.isDigit_of_isAlpha 'l' rfl
    simp only [List.mem_append, not_or]
    refine ⟨by decide, fun hl => ?_, fun hl => ?_, fun hl => ?_, by decide⟩
    · simp [hspaces _ hl] at hspace
    · simp [hall _ hl] at hdigit
    · simp [hspaces' _ hl] at hspace

/-- No match starts where there is no `l`. -/
theorem clear_matchLayer (hclasses : classes.Lawful) {index : ℕ} {inner : List Char}
    (h : 'l' ∉ inner) (rest : List Char) : Clear (matchLayer classes index) inner rest := by
  intro front back hsplit hback
  obtain ⟨c, back, rfl⟩ := List.exists_cons_of_ne_nil hback
  rw [← Option.not_isSome_iff_eq_none]
  intro hsome
  obtain ⟨⟨digits, rest'⟩, hmatch⟩ := Option.isSome_iff_exists.mp hsome
  obtain ⟨inner', heq, -⟩ := ((matchLayer_eq_some hclasses).mp hmatch).1.starts hclasses
  obtain rfl : c = 'l' := (List.cons.inj heq).1
  rw [hsplit] at h
  exact h (List.mem_append_right _ List.mem_cons_self)

/-- No match starts inside another one, so the search misses none by going on behind a match. -/
theorem apart_matchLayer (hclasses : classes.Lawful) (index : ℕ) :
    Apart (matchLayer classes index) := by
  intro text digits rest hmatch
  obtain ⟨hline, hstops⟩ := (matchLayer_eq_some hclasses).mp hmatch
  obtain ⟨inner, rfl, hinner⟩ := hline.starts hclasses
  refine ⟨'l', inner ++ ("RPC" ++ toString index).toList, by simp,
    clear_matchLayer hclasses ?_ rest⟩
  rw [List.mem_append, not_or]
  exact ⟨hinner, fun hl => (device_letters _ hl).2 rfl⟩

/-- **The log is read completely.**  What is found are the layers assigned to the device with the
    index, and to no device whose name only begins like that. -/
theorem mem_findLayers (hclasses : classes.Lawful) {index : ℕ} {log digits : List Char} :
    digits ∈ findLayers classes index log
      ↔ Assigns classes log ("RPC" ++ toString index) digits := by
  have hword : ∀ c ∈ ("RPC" ++ toString index).toList, classes.isWord c = true :=
    isWord_device hclasses
  rw [findLayers, mem_findAll (apart_matchLayer hclasses index) le_rfl]
  simp only [Occurs, Assigns, matchLayer_eq_some hclasses, takeWhile_eq_iff]
  constructor
  · rintro ⟨before, found, rest, heq, hline, hstops⟩
    exact ⟨before, found, _, heq, hline, hword, rest, rfl, hstops⟩
  · rintro ⟨before, found, _, heq, hline, -, rest, rfl, hstops⟩
    exact ⟨before, found, rest, heq, hline, hstops⟩

/-! ### The layers of a device -/

/-- The layers that the log assigns to a device. -/
def layersOf (classes : CharClasses) (log device : String) : Set ℕ :=
  {layer | ∃ digits, Assigns classes log.toList device digits ∧ classes.value digits = layer}

/-- The numbers of these layers are not too long to be read. -/
def Readable (classes : CharClasses) (log device : String) : Prop :=
  ∀ digits, Assigns classes log.toList device digits → digits.length ≤ maxStrDigits

/-- `int` reads digits exactly if they are not too many, and then gives their value. -/
theorem int_eq_ok {digits : List Char} {layer : ℕ} :
    int classes digits = .ok layer ↔
      digits.length ≤ maxStrDigits ∧ classes.value digits = layer := by
  unfold int
  split
  case isTrue h => exact iff_of_false (by simp) (fun hand => absurd hand.1 (Nat.not_le.mpr h))
  case isFalse h => rw [Except.ok.injEq, and_iff_right (Nat.not_lt.mp h)]

/-- All matches are read exactly if none of them is too long. -/
theorem mapM_int {found : List (List Char)} {layers : List ℕ} :
    found.mapM (int classes) = .ok layers ↔
      (∀ digits ∈ found, digits.length ≤ maxStrDigits) ∧ found.map classes.value = layers := by
  induction found generalizing layers with
  | nil => simp [pure, Except.pure]
  | cons digits found ih =>
    rw [List.mapM_cons, List.forall_mem_cons, List.map_cons]
    constructor
    · intro h
      cases hint : int classes digits with
      | error text =>
        rw [hint] at h
        cases h
      | ok layer =>
        cases hfound : found.mapM (int classes) with
        | error text =>
          rw [hint, hfound] at h
          cases h
        | ok layers' =>
          rw [hint, hfound] at h
          obtain rfl := Except.ok.inj h
          obtain ⟨hshort, rfl⟩ := int_eq_ok.mp hint
          obtain ⟨hall, rfl⟩ := ih.mp hfound
          exact ⟨⟨hshort, hall⟩, rfl⟩
    · rintro ⟨⟨hshort, hall⟩, rfl⟩
      rw [int_eq_ok.mpr ⟨hshort, rfl⟩, ih.mpr ⟨hall, rfl⟩]
      rfl

/-- The layers that `validate_proof` reads from the log, where it can read them. -/
theorem assignedLayers_eq_ok (hclasses : classes.Lawful) {log : String} {index : ℕ}
    {layers : List ℕ} (h : assignedLayers classes log index = .ok layers) :
    Readable classes log ("RPC" ++ toString index) ∧
      ∀ layer, layer ∈ layers ↔ layer ∈ layersOf classes log ("RPC" ++ toString index) := by
  unfold assignedLayers at h
  cases hmap : (findLayers classes index log.toList).mapM (int classes) with
  | error text =>
    rw [hmap] at h
    cases h
  | ok numbers =>
    rw [hmap] at h
    obtain rfl := Except.ok.inj h
    obtain ⟨hshort, rfl⟩ := mapM_int.mp hmap
    simp only [mem_findLayers hclasses] at hshort
    refine ⟨hshort, fun layer => ?_⟩
    rw [List.mem_insertionSort, List.mem_dedup, List.mem_map]
    simp only [mem_findLayers hclasses]
    rfl

/-- When all numbers of the log are short enough, the layers of a device are found. -/
theorem exists_assignedLayers (hclasses : classes.Lawful) {log : String} {index : ℕ}
    (h : Readable classes log ("RPC" ++ toString index)) :
    ∃ layers, assignedLayers classes log index = .ok layers := by
  have hshort : ∀ digits ∈ findLayers classes index log.toList, digits.length ≤ maxStrDigits :=
    fun digits hdigits => h digits ((mem_findLayers hclasses).mp hdigits)
  unfold assignedLayers
  rw [mapM_int.mpr ⟨hshort, rfl⟩]
  exact ⟨_, rfl⟩

/-! ### Logs line by line -/

/-- A line in front of a text adds what it assigns. -/
theorem assigns_line (hclasses : classes.Lawful) {digits line text : List Char} {index : ℕ}
    (hline : LayerLine classes digits line (("RPC" ++ toString index).toList ++ '\n' :: text))
    (hword : classes.isWord '\n' = false) {index' : ℕ} {digits' : List Char} :
    Assigns classes line ("RPC" ++ toString index') digits' →
      (toString index' = toString index ∧ digits' = digits) ∨
        Assigns classes text ("RPC" ++ toString index') digits' := by
  intro h
  rw [← mem_findLayers hclasses, findLayers, mem_findAll (apart_matchLayer hclasses index') le_rfl]
    at h ⊢
  obtain ⟨inner, rfl, hinner⟩ := hline.starts hclasses
  rcases (occurs_cons ..).mp h with ⟨rest, hmatch⟩ | h
  · left
    obtain ⟨hline', hstops⟩ := (matchLayer_eq_some hclasses).mp hmatch
    have hrest := (hline'.read hclasses).2.trans (hline.read hclasses).2.symm
    have hname := congrArg (List.takeWhile classes.isWord) hrest
    rw [takeWhile_append_stops (isWord_device hclasses) hstops,
      takeWhile_append_stops (isWord_device hclasses) (stops_cons.mpr hword),
      String.toList_append, String.toList_append] at hname
    exact ⟨String.toList_inj.mp (List.append_cancel_left hname),
      (hline'.read hclasses).1.trans (hline.read hclasses).1.symm⟩
  · right
    have hsplit : inner ++ (("RPC" ++ toString index).toList ++ '\n' :: text)
        = (inner ++ (("RPC" ++ toString index).toList ++ ['\n'])) ++ text := by
      simp only [List.append_assoc, List.cons_append, List.nil_append]
    have hclear : 'l' ∉ inner ++ (("RPC" ++ toString index).toList ++ ['\n']) := by
      simp only [List.mem_append, not_or]
      exact ⟨hinner, fun hl => (device_letters _ hl).2 rfl, by decide⟩
    rw [hsplit] at h
    exact (occurs_append (clear_matchLayer hclasses hclear text) _).mp h

end

end ShareCompute.Cluster
