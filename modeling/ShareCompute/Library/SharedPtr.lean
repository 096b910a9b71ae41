import Mathlib.Data.List.Basic
import Mathlib.Data.List.Count
import Mathlib.Data.List.Perm.Basic

namespace ShareCompute.Library

/-!
# Reference counting

Shared pointers as their control blocks: for each object `i : ι` a use count, moved by every
copy and every destruction of a pointer, and the log of the objects whose last pointer went.
Who holds pointers is not part of the blocks; `Balanced b owners` says that the list `owners`
(one entry for each pointer, wherever it lives) explains the counts.

* `Balanced.make`, `Balanced.retain`, `Balanced.release` — one lemma for each thing that can
  happen to a pointer.
* `Balanced.releaseAll`, `mem_destroyed_releaseAll` — a container of pointers is cleared: an
  object is destroyed exactly when nobody else holds it.
-/

/-- The control blocks of shared objects; `destroyed` is the log of destructor runs. -/
structure ControlBlocks (ι : Type) where
  useCount : ι → ℕ
  destroyed : List ι

namespace ControlBlocks

variable {ι : Type} [DecidableEq ι]

/-- No object was made yet, and none was destroyed. -/
def empty : ControlBlocks ι := ⟨fun _ => 0, []⟩

/-- A new object with its first pointer. -/
def make (b : ControlBlocks ι) (i : ι) : ControlBlocks ι :=
  { b with useCount := fun j => if j = i then 1 else b.useCount j }

/-- A pointer is copied, so its object has one more owner. -/
def retain (b : ControlBlocks ι) (i : ι) : ControlBlocks ι :=
  { b with useCount := fun j => if j = i then b.useCount j + 1 else b.useCount j }

/-- A pointer is destroyed, and the object with it if it was the last. -/
def release (b : ControlBlocks ι) (i : ι) : ControlBlocks ι where
  useCount := fun j => if j = i then b.useCount j - 1 else b.useCount j
  destroyed := if b.useCount i = 1 then i :: b.destroyed else b.destroyed

/-- The pointers of a container are destroyed one after the other. -/
def releaseAll (b : ControlBlocks ι) (is : List ι) : ControlBlocks ι := is.foldl release b

/-- The counts are those of the pointers in `owners`, and nothing was destroyed twice or while
    somebody held it. -/
structure Balanced (b : ControlBlocks ι) (owners : List ι) : Prop where
  count : ∀ i, b.useCount i = owners.count i
  nodup : b.destroyed.Nodup
  dead : ∀ i ∈ b.destroyed, i ∉ owners

/-- Without objects and owners all counts are right. -/
theorem Balanced.empty : Balanced (empty : ControlBlocks ι) [] :=
  ⟨fun _ => rfl, List.nodup_nil, fun _ hi => absurd hi List.not_mem_nil⟩

variable {b : ControlBlocks ι} {owners owners' : List ι} {i : ι}

/-- Where the pointers are does not matter. -/
theorem Balanced.perm (h : Balanced b owners) (hperm : owners.Perm owners') :
    Balanced b owners' where
  count j := (h.count j).trans (hperm.count_eq j)
  nodup := h.nodup
  dead j hj hmem := h.dead j hj (hperm.mem_iff.mpr hmem)

/-- A new object has one owner, who is whoever made it. -/
theorem Balanced.make (h : Balanced b owners) (hheld : i ∉ owners) (hdead : i ∉ b.destroyed) :
    Balanced (b.make i) (i :: owners) where
  count j := by
    have hnone : owners.count i = 0 := List.count_eq_zero.mpr hheld
    by_cases hj : j = i
    · subst hj
      simp [ControlBlocks.make, hnone]
    · simp [ControlBlocks.make, hj, h.count, Ne.symm hj]
  nodup := h.nodup
  dead j hj hmem := by
    rcases List.mem_cons.mp hmem with rfl | hmem
    · exact hdead hj
    · exact h.dead j hj hmem

/-- A copy of a pointer is one owner more, and one more is counted. -/
theorem Balanced.retain (h : Balanced b owners) (hheld : i ∈ owners) :
    Balanced (b.retain i) (i :: owners) where
  count j := by
    by_cases hj : j = i
    · subst hj
      simp [ControlBlocks.retain, h.count]
    · simp [ControlBlocks.retain, hj, h.count, Ne.symm hj]
  nodup := h.nodup
  dead j hj hmem := by
    rcases List.mem_cons.mp hmem with rfl | hmem
    · exact h.dead j hj hheld
    · exact h.dead j hj hmem

/-- What is destroyed stays so, whichever pointer is released afterwards. -/
theorem mem_destroyed_release_of_mem {j : ι} (h : j ∈ b.destroyed) :
    j ∈ (b.release i).destroyed := by
  unfold release
  dsimp only
  split
  · exact List.mem_cons_of_mem _ h
  · exact h

/-- An object goes with its last pointer. -/
theorem Balanced.mem_destroyed_release (h : Balanced b (i :: owners)) (j : ι) :
    j ∈ (b.release i).destroyed ↔ j ∈ b.destroyed ∨ (j = i ∧ i ∉ owners) := by
  have hlast : b.useCount i = 1 ↔ i ∉ owners := by
    have hcount := h.count i
    rw [List.count_cons_self] at hcount
    rw [hcount, ← List.count_eq_zero]
    omega
  by_cases hheld : i ∈ owners
  · have hne : b.useCount i ≠ 1 := fun heq => hlast.mp heq hheld
    simp [release, hne, hheld]
  · simp [release, hlast.mpr hheld, hheld, or_comm]

/-- A pointer that goes is one owner less; with the last one the object is destroyed. -/
theorem Balanced.release (h : Balanced b (i :: owners)) : Balanced (b.release i) owners where
  count j := by
    have hcount := h.count j
    by_cases hj : j = i
    · subst hj
      rw [List.count_cons_self] at hcount
      simp [ControlBlocks.release, hcount]
    · rw [List.count_cons_of_ne (Ne.symm hj)] at hcount
      simp [ControlBlocks.release, hj, hcount]
  nodup := by
    have hnew : i ∉ b.destroyed := fun hi => h.dead i hi (List.mem_cons_self ..)
    unfold ControlBlocks.release
    dsimp only
    split
    · exact List.nodup_cons.mpr ⟨hnew, h.nodup⟩
    · exact h.nodup
  dead j hj := by
    rcases (h.mem_destroyed_release j).mp hj with hj | ⟨rfl, hgone⟩
    · exact fun hmem => h.dead j hj (List.mem_cons_of_mem _ hmem)
    · exact hgone

/-- Several pointers that go are that many owners less, in whatever order they go. -/
theorem Balanced.releaseAll {is : List ι} (h : Balanced b (is ++ owners)) :
    Balanced (b.releaseAll is) owners := by
  induction is generalizing b with
  | nil => exact h
  | cons i is ih => exact ih h.release

/-- **Clearing a container** destroys what nobody else holds. -/
theorem Balanced.mem_destroyed_releaseAll {is : List ι} (h : Balanced b (is ++ owners)) (j : ι) :
    j ∈ (b.releaseAll is).destroyed ↔ j ∈ b.destroyed ∨ (j ∈ is ∧ j ∉ owners) := by
  induction is generalizing b with
  | nil => simp [ControlBlocks.releaseAll]
  | cons i is ih =>
    have hfirst : Balanced b (i :: (is ++ owners)) := h
    have hrest := ih hfirst.release
    show j ∈ ((b.release i).releaseAll is).destroyed ↔ _
    rw [hrest, hfirst.mem_destroyed_release]
    simp only [List.mem_append, not_or, List.mem_cons]
    constructor
    · rintro ((hj | ⟨rfl, -, hgone⟩) | ⟨hj, hgone⟩)
      · exact .inl hj
      · exact .inr ⟨.inl rfl, hgone⟩
      · exact .inr ⟨.inr hj, hgone⟩
    · rintro (hj | ⟨rfl | hj, hgone⟩)
      · exact .inl (.inl hj)
      · by_cases hlater : j ∈ is
        · exact .inr ⟨hlater, hgone⟩
        · exact .inl (.inr ⟨rfl, hlater, hgone⟩)
      · exact .inr ⟨hj, hgone⟩

end ControlBlocks

end ShareCompute.Library
