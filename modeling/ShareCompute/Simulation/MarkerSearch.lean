import ShareCompute.Library.ChunkSearch

namespace ShareCompute.Simulation

open ShareCompute.Library

/-!
# The marker in a binary

`portable_dual_topology_rpc.py`, `_file_contains_marker`: whether the bytes of a marker occur in a
file, which is read block by block.

A block is as long as was asked for, but at the end of the file.  `OSError` may come from opening
the file or from any read.
-/

/-- A file that can be opened, with its bytes and when reading them fails. -/
structure File where
  content : List UInt8
  /-- reading fails when so many bytes are left -/
  fails : ℕ → Bool

/-- The loop of `_file_contains_marker`; `rest` is what the handle has not read yet. -/
def markerInBlocks (needle : List UInt8) (chunkSize : ℕ) (fails : ℕ → Bool) :
    ℕ → List UInt8 → List UInt8 → Bool
  | 0, _, _ => false
  | rounds + 1, prev, rest =>
      if fails rest.length then false
      else
        let block := rest.take chunkSize
        if block = [] then false
        else if needle <:+: prev ++ block then true
        else
          let keep := needle.length - 1
          let prev := if keep > 0 then block.rtake keep else []
          markerInBlocks needle chunkSize fails rounds prev (rest.drop chunkSize)

/-- `_file_contains_marker`.  The blocks that are not empty get fewer with every round. -/
def fileContainsMarker (file : Option File) (needle : List UInt8) (chunkSize : ℕ) : Bool :=
  match file with
  | none => false
  | some file =>
      markerInBlocks needle chunkSize file.fails (file.content.length + 1) [] file.content

/-- What is kept of a block, whether or not the marker has one letter. -/
theorem kept_eq (needle block : List UInt8) :
    (if needle.length - 1 > 0 then block.rtake (needle.length - 1) else [])
      = block.rtake (needle.length - 1) := by
  split
  case isTrue => rfl
  case isFalse h =>
    obtain h := Nat.eq_zero_of_not_pos h
    rw [h, List.rtake_zero]

/-- What is found is in what was kept and what is left. -/
theorem infix_of_markerInBlocks {needle : List UInt8} {chunkSize : ℕ} {fails : ℕ → Bool}
    {rounds : ℕ} {prev rest : List UInt8}
    (h : markerInBlocks needle chunkSize fails rounds prev rest = true) :
    needle <:+: prev ++ rest := by
  induction rounds generalizing prev rest with
  | zero => cases h
  | succ rounds ih =>
    have hrest : prev ++ rest = (prev ++ rest.take chunkSize) ++ rest.drop chunkSize := by
      rw [List.append_assoc, List.take_append_drop]
    rw [markerInBlocks] at h
    dsimp only at h
    rw [kept_eq] at h
    split at h
    · cases h
    split at h
    · cases h
    split at h
    case isTrue hfound =>
      rw [hrest]
      exact List.infix_append_of_infix_left hfound
    case isFalse =>
      -- what was kept ends the block, so nothing is left out between it and the rest
      obtain ⟨front, hfront⟩ := rtake_suffix (rest.take chunkSize) (needle.length - 1)
      refine (ih h).trans ⟨prev ++ front, [], ?_⟩
      rw [hrest, List.append_nil, List.append_assoc prev, ← List.append_assoc front, hfront,
        List.append_assoc]

/-- Nothing is missed, if a block is at least as long as what is kept of it. -/
theorem markerInBlocks_iff {needle : List UInt8} (hneedle : needle ≠ []) {chunkSize : ℕ}
    (hpositive : 1 ≤ chunkSize) (hoverlap : needle.length - 1 ≤ chunkSize) {rounds : ℕ}
    {prev rest : List UInt8} (hrounds : rest.length < rounds) (hprev : ¬ needle <:+: prev) :
    markerInBlocks needle chunkSize (fun _ => false) rounds prev rest = true
      ↔ needle <:+: prev ++ rest := by
  refine ⟨infix_of_markerInBlocks, fun hinfix => ?_⟩
  induction rounds generalizing prev rest with
  | zero => omega
  | succ rounds ih =>
    have hrest : rest ≠ [] := by
      rintro rfl
      rw [List.append_nil] at hinfix
      exact hprev hinfix
    have hlength := List.length_pos_of_ne_nil hrest
    have hblock : rest.take chunkSize ≠ [] := by
      rw [← List.length_pos_iff, List.length_take]
      omega
    rw [markerInBlocks]
    dsimp only
    rw [kept_eq, if_neg (by decide), if_neg hblock]
    split
    case isTrue => rfl
    case isFalse hnot =>
      have hlast : needle.length ≠ 0 := fun h => hneedle (List.length_eq_zero_iff.mp h)
      have hkept := length_rtake_le (rest.take chunkSize) (needle.length - 1)
      rw [← List.take_append_drop chunkSize rest, ← List.append_assoc, infix_append_iff hneedle]
        at hinfix
      replace hinfix := hinfix.resolve_left hnot
      have hmore : rest.drop chunkSize ≠ [] := by
        intro hnil
        rw [hnil, List.append_nil] at hinfix
        have hshort := length_rtake_le (prev ++ rest.take chunkSize) (needle.length - 1)
        exact not_infix_of_length_lt (by omega) hinfix
      -- more is left, so the block is a whole one
      have hfull : (rest.take chunkSize).length = chunkSize := by
        have hpos := List.length_pos_of_ne_nil hmore
        rw [List.length_drop] at hpos
        rw [List.length_take]
        omega
      rw [rtake_append (by omega)] at hinfix
      refine ih ?_ (not_infix_of_length_lt (by omega)) hinfix
      rw [List.length_drop]
      omega

/-- **Block by block is the whole file.**  The marker is found exactly if it occurs in the file, and
    when reading fails nothing is found that is not there. -/
theorem marker_search {needle : List UInt8} (hneedle : needle ≠ []) {chunkSize : ℕ}
    (hpositive : 1 ≤ chunkSize) (hoverlap : needle.length - 1 ≤ chunkSize) (content : List UInt8) :
    (fileContainsMarker (some ⟨content, fun _ => false⟩) needle chunkSize = true
      ↔ needle <:+: content) ∧
    ∀ fails, fileContainsMarker (some ⟨content, fails⟩) needle chunkSize = true →
      needle <:+: content := by
  have hempty : ¬ needle <:+: [] := fun h => hneedle (List.infix_nil.mp h)
  constructor
  · exact markerInBlocks_iff hneedle hpositive hoverlap (Nat.lt_succ_self _) hempty
  · exact fun fails h => infix_of_markerInBlocks h

/-- A marker that straddles two blocks of two bytes. -/
theorem marker_search_straddling :
    fileContainsMarker (some ⟨[7, 1, 2, 3, 9], fun _ => false⟩) [1, 2, 3] 2 = true :=
  (marker_search (by decide) (by decide) (by decide) [7, 1, 2, 3, 9]).1.mpr ⟨[7], [9], rfl⟩

end ShareCompute.Simulation
