import ShareCompute.Cluster.Protocol
import ShareCompute.Library.OrderedDict
import Mathlib.Data.List.Sort

namespace ShareCompute.Cluster

open ShareCompute.Library

/-!
# Build stamps

`build_stamp.py`, `compare`: the components of a run are sorted by the commit each says it was
built from.  A component that names none is listed apart and contradicts nobody.

* `mismatch_compare` — the builds do not match exactly if two components name different commits.
-/

/-- `UNKNOWN`, the commit of a build that does not know its own. -/
def unknownCommit : String := "unknown"

/-- A commit that says which build it was. -/
def IsKnown (commit : String) : Prop := commit ≠ unknownCommit ∧ commit ≠ ""

instance (commit : String) : Decidable (IsKnown commit) := inferInstanceAs (Decidable (_ ∧ _))

/-- The commit that a stamp names, if it is a text and known. -/
def knownCommit (stamp : Dict) : Option String :=
  match stamp.get "commit" with
  | .str commit => if IsKnown commit then some commit else none
  | _ => none

/-- What `compare` returns of the stamps of a run. -/
structure BuildSummary where
  /-- the components of each commit -/
  commits : List (String × List String)
  unknown : List String
  mismatch : Bool
  complete : Bool

/-- The round of the loop for one component: it is filed under its commit, or is unknown. -/
def sortStamp (sorted : List (String × List String) × List String) (stamp : String × Dict) :
    List (String × List String) × List String :=
  match knownCommit stamp.2 with
  | some commit => (OrderedDict.push commit stamp.1 sorted.1, sorted.2)
  | none => (sorted.1, sorted.2 ++ [stamp.1])

/-- `compare`: which commits the components name, and which of them name none. -/
def compare (stamps : List (String × Dict)) : BuildSummary :=
  let (known, unknown) := stamps.foldl sortStamp ([], [])
  { commits := known.map (fun (commit, names) => (commit, names.insertionSort (· ≤ ·)))
    unknown := unknown.insertionSort (· ≤ ·)
    mismatch := decide (1 < known.length)
    complete := unknown.isEmpty && decide (known.length = 1) }

/-! ### When the builds do not match -/

theorem knownCommit_eq_some {stamp : Dict} {commit : String} :
    knownCommit stamp = some commit ↔ stamp.get "commit" = .str commit ∧ IsKnown commit := by
  unfold knownCommit
  constructor
  · intro h
    split at h
    case h_2 => cases h
    case h_1 commit' hstr =>
      split at h
      case isFalse => cases h
      case isTrue hknown =>
        obtain rfl := Option.some.inj h
        exact ⟨hstr, hknown⟩
  · rintro ⟨hstr, hknown⟩
    rw [hstr]
    exact if_pos hknown

/-- The commits found are those that some component names. -/
theorem mem_keys_sortStamp (stamps : List (String × Dict))
    (sorted : List (String × List String) × List String) (commit : String) :
    commit ∈ (stamps.foldl sortStamp sorted).1.map Prod.fst
      ↔ commit ∈ sorted.1.map Prod.fst ∨ ∃ stamp ∈ stamps, knownCommit stamp.2 = some commit := by
  induction stamps generalizing sorted with
  | nil => simp
  | cons stamp stamps ih =>
    rw [List.foldl_cons, ih, List.exists_mem_cons_iff, ← or_assoc]
    apply or_congr_left
    unfold sortStamp
    cases knownCommit stamp.2 with
    | none => simp
    | some commit' =>
      rw [OrderedDict.mem_keys_push, Option.some_inj]
      exact or_congr_right eq_comm

theorem nodup_keys_sortStamp (stamps : List (String × Dict))
    {sorted : List (String × List String) × List String} (h : (sorted.1.map Prod.fst).Nodup) :
    ((stamps.foldl sortStamp sorted).1.map Prod.fst).Nodup := by
  induction stamps generalizing sorted with
  | nil => exact h
  | cons stamp stamps ih =>
    rw [List.foldl_cons]
    apply ih
    unfold sortStamp
    cases knownCommit stamp.2 with
    | none => exact h
    | some commit => exact OrderedDict.nodup_assign h _ _

/-- A list without repetitions has more than one element if it has two different ones. -/
theorem one_lt_length_iff {α : Type} {as : List α} (h : as.Nodup) :
    1 < as.length ↔ ∃ a ∈ as, ∃ b ∈ as, a ≠ b := by
  match as with
  | [] => simp
  | [a] => simp
  | a :: b :: as =>
    have hne : a ≠ b := fun heq => (List.nodup_cons.mp h).1 (by simp [heq])
    have hlong : 1 < (a :: b :: as).length := by simp
    exact iff_of_true hlong ⟨a, by simp, b, by simp, hne⟩

/-- **The builds do not match** exactly if two components name different commits. -/
theorem mismatch_compare (stamps : List (String × Dict)) :
    (compare stamps).mismatch = true ↔ ∃ commit commit',
      (∃ stamp ∈ stamps, knownCommit stamp.2 = some commit) ∧
      (∃ stamp ∈ stamps, knownCommit stamp.2 = some commit') ∧ commit ≠ commit' := by
  have hmem := mem_keys_sortStamp stamps ([], [])
  have hnodup : ((stamps.foldl sortStamp ([], [])).1.map Prod.fst).Nodup :=
    nodup_keys_sortStamp stamps List.nodup_nil
  have hlength := one_lt_length_iff hnodup
  rw [List.length_map] at hlength
  simp only [compare, decide_eq_true_eq]
  rw [hlength]
  simp only [hmem, List.map_nil, List.not_mem_nil, false_or]
  constructor
  · rintro ⟨commit, hcommit, commit', hcommit', hne⟩
    exact ⟨commit, commit', hcommit, hcommit', hne⟩
  · rintro ⟨commit, commit', hcommit, hcommit', hne⟩
    exact ⟨commit, hcommit, commit', hcommit', hne⟩

end ShareCompute.Cluster
