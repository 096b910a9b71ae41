import Mathlib.Algebra.BigOperators.Group.List.Basic
import Mathlib.Data.Int.Basic
import Mathlib.Tactic.Ring

namespace ShareCompute.Library

/-!
# Tilings of an integer interval

Half-open ranges laid end to end.  `Spans start stop ranges` says that the ranges, in order,
begin at `start`, meet without gap or overlap and end at `stop`; `Tiles start stop ranges`, that
moreover none of them is empty.

* `Tiles.sum_lengths` — their lengths add up to the length of the interval.
* `Spans.existsUnique` — every point of the interval lies in exactly one position's range.
-/

/-- The half-open ranges, some of which may be empty, cover `[start, stop)` end to end. -/
def Spans (start stop : ℤ) : List (ℤ × ℤ) → Prop
  | [] => start = stop
  | range :: ranges => range.1 = start ∧ range.1 ≤ range.2 ∧ Spans range.2 stop ranges

namespace Spans

variable {start stop : ℤ} {ranges : List (ℤ × ℤ)}

theorem le (h : Spans start stop ranges) : start ≤ stop := by
  induction ranges generalizing start with
  | nil => exact le_of_eq h
  | cons range ranges ih =>
    obtain ⟨rfl, hle, hrest⟩ := h
    exact hle.trans (ih hrest)

/-- A range stays inside the interval that the ranges span. -/
theorem bounds_of_mem (h : Spans start stop ranges) {range : ℤ × ℤ} (hmem : range ∈ ranges) :
    start ≤ range.1 ∧ range.1 ≤ range.2 ∧ range.2 ≤ stop := by
  induction ranges generalizing start with
  | nil => simp at hmem
  | cons first ranges ih =>
    obtain ⟨rfl, hle, hrest⟩ := h
    rcases List.mem_cons.mp hmem with rfl | hmem
    · exact ⟨le_refl _, hle, hrest.le⟩
    · obtain ⟨hstart, hrange, hstop⟩ := ih hrest hmem
      exact ⟨hle.trans hstart, hrange, hstop⟩

/-- Each range begins where the one before it ends. -/
theorem isChain (h : Spans start stop ranges) : ranges.IsChain (fun a b => a.2 = b.1) := by
  induction ranges generalizing start with
  | nil => exact .nil
  | cons range ranges ih =>
    obtain ⟨rfl, -, hrest⟩ := h
    cases ranges with
    | nil => exact .singleton _
    | cons second ranges => exact List.isChain_cons_cons.mpr ⟨hrest.1.symm, ih hrest⟩

/-- Every point of the interval lies in the range of exactly one position. -/
theorem existsUnique (h : Spans start stop ranges) {x : ℤ} (hx : start ≤ x ∧ x < stop) :
    ∃! i : ℕ, ∃ range : ℤ × ℤ, ranges[i]? = some range ∧ range.1 ≤ x ∧ x < range.2 := by
  induction ranges generalizing start with
  | nil =>
    have hempty : start = stop := h
    omega
  | cons range ranges ih =>
    obtain ⟨rfl, hle, hrest⟩ := h
    by_cases hfirst : x < range.2
    · refine ⟨0, ⟨range, rfl, hx.1, hfirst⟩, ?_⟩
      rintro (_ | i) ⟨range', hi, hin, -⟩
      · rfl
      · -- the later ranges begin where the first one ends
        have hlater := (hrest.bounds_of_mem (List.mem_of_getElem? hi)).1
        omega
    · obtain ⟨i, ⟨range', hi, hin⟩, hunique⟩ := ih hrest ⟨not_lt.mp hfirst, hx.2⟩
      refine ⟨i + 1, ⟨range', hi, hin⟩, ?_⟩
      rintro (_ | j) ⟨range'', hj, hin'⟩
      · cases Option.some.inj hj
        exact absurd hin'.2 hfirst
      · rw [hunique j ⟨range'', hj, hin'⟩]

end Spans

/-- The half-open ranges, in order, cover `[start, stop)` end to end. -/
def Tiles (start stop : ℤ) : List (ℤ × ℤ) → Prop
  | [] => start = stop
  | range :: ranges => range.1 = start ∧ range.1 < range.2 ∧ Tiles range.2 stop ranges

namespace Tiles

variable {start stop : ℤ} {ranges : List (ℤ × ℤ)}

/-- Ranges that are not empty may be empty. -/
theorem spans (h : Tiles start stop ranges) : Spans start stop ranges := by
  induction ranges generalizing start with
  | nil => exact h
  | cons range ranges ih => exact ⟨h.1, h.2.1.le, ih h.2.2⟩

theorem le (h : Tiles start stop ranges) : start ≤ stop := h.spans.le

theorem sum_lengths (h : Tiles start stop ranges) :
    (ranges.map (fun range => range.2 - range.1)).sum = stop - start := by
  induction ranges generalizing start with
  | nil => rw [show start = stop from h]; simp
  | cons range ranges ih =>
    obtain ⟨rfl, -, hrest⟩ := h
    rw [List.map_cons, List.sum_cons, ih hrest]
    ring

/-- A tiling grows at its end by a range that is not empty. -/
theorem snoc (h : Tiles start stop ranges) {stop' : ℤ} (hlt : stop < stop') :
    Tiles start stop' (ranges ++ [(stop, stop')]) := by
  induction ranges generalizing start with
  | nil => exact ⟨h.symm, hlt, rfl⟩
  | cons range ranges ih =>
    obtain ⟨rfl, hrange, hrest⟩ := h
    exact ⟨rfl, hrange, ih hrest⟩

/-- A range of a tiling stays inside the interval. -/
theorem bounds_of_mem (h : Tiles start stop ranges) {range : ℤ × ℤ} (hmem : range ∈ ranges) :
    start ≤ range.1 ∧ range.2 ≤ stop :=
  ⟨(h.spans.bounds_of_mem hmem).1, (h.spans.bounds_of_mem hmem).2.2⟩

/-- Every point of the interval lies in the range of exactly one position. -/
theorem existsUnique (h : Tiles start stop ranges) {x : ℤ} (hx : start ≤ x ∧ x < stop) :
    ∃! i : ℕ, ∃ range : ℤ × ℤ, ranges[i]? = some range ∧ range.1 ≤ x ∧ x < range.2 :=
  h.spans.existsUnique hx

end Tiles

end ShareCompute.Library
