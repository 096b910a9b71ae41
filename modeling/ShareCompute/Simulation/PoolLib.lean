import ShareCompute.Core.QuotaLaw

namespace ShareCompute.Simulation.PoolLib

open ShareCompute.Library ShareCompute.Core

/-!
# The planner's Python twin

`four_platform_pool_lib.py` apportions layers for the peers of the pool demo with its own copy
of `StagePlanner.apportion`.  The copy returns early when nobody has capacity, truncates
instead of rounding down, sorts by a key instead of a comparison and leaves its loop by other
tests.  `apportions_agree` says that none of this shows: on the inputs both accept, the two
return the same list.

As in the model of the planner, the quotients are exact rationals.
-/

/-! ### `apportion` -/

/-- What Python raises instead of returning a plan. -/
inductive Failure
  | assertionError | indexError | valueError
deriving DecidableEq

/-- The integer `int(exact)`, which is rounded towards zero. -/
def int (exact : ℚ) : ℤ := if 0 ≤ exact then ⌊exact⌋ else ⌈exact⌉

/-- The key by which the fractions are sorted: `(-item[1], item[0])`. -/
def key (item : ℕ × ℚ) : ℚ ×ₗ ℕ := toLex (-item.2, item.1)

/-- `[total // count] * count`, the first `total % count` entries one more. -/
def even (total : ℤ) (count : ℕ) : List ℤ :=
  bump (List.range (total.fmod count).toNat) (List.replicate count (total.fdiv count))

/-- `max(range(count), key=lambda i: result[i])`: the first of the largest. -/
def largest (count : ℕ) (result : List ℤ) : Except Failure ℕ :=
  match List.range count with
  | [] => .error .valueError
  | i :: is => .ok (firstMax (fun i => result.getD i 0) i is)

/-- The `while True` loop, run for at most `fuel` rounds; `none` when it is still running. -/
def feed (count : ℕ) : ℕ → List ℤ → Option (Except Failure (List ℤ))
  | 0, _ => none
  | fuel + 1, result =>
      match result.findIdx? (· = 0) with
      -- `StopIteration`
      | none => some (.ok result)
      | some starved =>
          match largest count result with
          | .error failure => some (.error failure)
          | .ok largest =>
              if result.getD largest 0 ≤ 1 then some (.ok result)
              else feed count fuel (transfer largest starved result)

/-- Largest-remainder (Hamilton) apportionment, with a bound on the rounds of its loop. -/
def apportion (fuel : ℕ) (total : ℤ) (weights : List ℤ) : Option (Except Failure (List ℤ)) :=
  let count := weights.length
  if ¬ (0 < count ∧ (count : ℤ) ≤ total) then some (.error .assertionError)
  else
    let totalWeight := weights.sum
    if totalWeight ≤ 0 then some (.ok (even total count))
    else
      let exact := weights.map (fun weight : ℤ => (total * weight / totalWeight : ℚ))
      let wholes := exact.map int
      let fractions := exact.zipIdx.map (fun p => (p.2, p.1 - (int p.1 : ℚ)))
      let leftover := total - wholes.sum
      let ordered := fractions.insertionSort (fun a b => key a ≤ key b)
      -- `range` of a negative number is empty
      if leftover.toNat ≤ ordered.length then
        feed count fuel (bump ((ordered.take leftover.toNat).map Prod.fst) wholes)
      else some (.error .indexError)

/-! ### Step by step the same -/

theorem int_of_nonneg {exact : ℚ} (h : 0 ≤ exact) : int exact = ⌊exact⌋ := if_pos h

theorem even_eq {total : ℤ} (htotal : 0 ≤ total) (count : ℕ) :
    even total count = spreadEvenly total count := by
  rw [even, spreadEvenly, Int.fmod_eq_tmod_of_nonneg htotal (Int.natCast_nonneg count),
    Int.fdiv_eq_tdiv_of_nonneg htotal (Int.natCast_nonneg count)]

/-- An even spread of as many layers as nodes starves nobody. -/
theorem spreadEvenly_pos {total : ℤ} {count : ℕ} (hcount : 0 < count)
    (htotal : (count : ℤ) ≤ total) : ∀ y ∈ spreadEvenly total count, y ≠ 0 := by
  intro y hy
  obtain ⟨x, hx, hxy⟩ := mem_of_bump hy
  have hone : 1 ≤ total.tdiv count := by
    rw [Int.tdiv_eq_ediv_of_nonneg (by omega)]
    exact (Int.le_ediv_iff_mul_le (by exact_mod_cast hcount)).mpr (by omega)
  have := List.eq_of_mem_replicate hx
  omega

/-- The key sorts as the planner's comparison does, ties included. -/
theorem insertionSort_key (fractions : List (ℕ × ℚ)) :
    fractions.insertionSort (fun a b => key a ≤ key b)
      = fractions.insertionSort (fun a b => !precedes b a) := by
  have hsame : (fun a b : ℕ × ℚ => key a ≤ key b) = (fun a b => (!precedes b a) = true) := by
    funext a b
    exact propext (precedes_lex a b).symm
  congr!

/-- Both pick the first of the largest entries. -/
theorem largest_eq {result : List ℤ} {i : ℕ} (h : largestIndex result = some i) :
    largest result.length result = .ok i := by
  unfold largestIndex at h
  unfold largest
  cases hrange : List.range result.length with
  | nil => simp [hrange] at h
  | cons j js =>
    rw [hrange] at h
    exact congrArg Except.ok (Option.some.inj h)

/-- **The loops agree** round by round: the twin's two tests are the planner's condition and
    its `break`. -/
theorem feed_eq (fuel : ℕ) (result : List ℤ) :
    feed result.length fuel result = (repairLoop fuel result).map (fun p => .ok p.2) := by
  induction fuel generalizing result with
  | zero => rfl
  | succ fuel ih =>
    rw [feed, repairLoop]
    cases hstarved : result.findIdx? (· = 0) with
    | none => rfl
    | some starved =>
      obtain ⟨hlt, -, -⟩ := List.findIdx?_eq_some_iff_getElem.mp hstarved
      obtain ⟨i, hi⟩ := largestIndex_isSome (List.ne_nil_of_length_pos (Nat.zero_lt_of_lt hlt))
      simp only [largest_eq hi, hi]
      by_cases hbig : 1 < result.getD i 0
      · have hround := ih (transfer i starved result)
        rw [length_transfer] at hround
        rw [if_neg (not_le.mpr hbig), if_pos hbig, hround]
      · rw [if_pos (not_lt.mp hbig), if_neg hbig]
        rfl

/-! ### The two results -/

/-- With some capacity the twin enters its loop with the entries the planner enters it with. -/
theorem apportion_eq_feed {total : ℤ} {weights start : List ℤ} (hcount : 0 < weights.length)
    (htotal : (weights.length : ℤ) ≤ total) (hnonneg : ∀ w ∈ weights, 0 ≤ w)
    (hweights : 0 < weights.sum)
    (hstart : largestRemainder total weights weights.sum = .ok start) (fuel : ℕ) :
    apportion fuel total weights = feed weights.length fuel start := by
  have hexact : ∀ share ∈ weights.map (exactShare total weights.sum), 0 ≤ share := by
    intro share hshare
    obtain ⟨w, hw, rfl⟩ := List.mem_map.mp hshare
    have hw' : (0 : ℚ) ≤ w := by exact_mod_cast hnonneg w hw
    have htotal' : (0 : ℚ) ≤ total := by exact_mod_cast (show 0 ≤ total by omega)
    have hsum' : (0 : ℚ) ≤ weights.sum := by exact_mod_cast hweights.le
    exact div_nonneg (mul_nonneg htotal' hw') hsum'
  rw [apportion, if_neg (not_not.mpr ⟨hcount, htotal⟩), if_neg (not_le.mpr hweights)]
  simp only [largestRemainder] at hstart
  have hsame : weights.map (fun weight : ℤ => (total * weight / weights.sum : ℚ))
      = weights.map (exactShare total weights.sum) := rfl
  simp only [hsame]
  generalize weights.map (exactShare total weights.sum) = exact at hexact hstart
  -- no share is negative, so truncating is rounding down
  have hwholes : exact.map int = exact.map Int.floor :=
    List.map_congr_left fun share hshare => int_of_nonneg (hexact share hshare)
  have hfractions : exact.zipIdx.map (fun p => (p.2, p.1 - (int p.1 : ℚ)))
      = exact.zipIdx.map (fun p => (p.2, p.1 - (⌊p.1⌋ : ℚ))) := by
    refine List.map_congr_left fun p hp => ?_
    rw [int_of_nonneg (hexact p.1 (List.fst_mem_of_mem_zipIdx hp))]
  simp only [hwholes, hfractions, insertionSort_key]
  split at hstart
  · next hleft =>
    split at hstart
    · next hlen =>
      obtain rfl := Except.ok.inj hstart
      exact if_pos hlen
    · cases hstart
  · next hleft =>
    obtain rfl := Except.ok.inj hstart
    have hnone : (total - (exact.map Int.floor).sum).toNat = 0 := by omega
    rw [hnone, if_pos (Nat.zero_le _)]
    rfl

/-- **The apportionments agree.**  For as many layers as weights, none of them negative, the
    planner and its twin return the same list; the twin's loop needs no more rounds than there
    are weights and one. -/
theorem apportions_agree {total : ℤ} {weights : List ℤ} (hcount : 0 < weights.length)
    (htotal : (weights.length : ℤ) ≤ total) (hnonneg : ∀ w ∈ weights, 0 ≤ w) :
    ∃ result, Core.apportion total weights = .ok result ∧
      ∀ fuel, weights.length < fuel → apportion fuel total weights = some (.ok result) := by
  by_cases hweights : weights.sum ≤ 0
  · -- the planner falls through to its loop, which finds nobody starved
    refine ⟨spreadEvenly total weights.length, ?_, fun fuel _ => ?_⟩
    · rw [apportion_eq hcount htotal, beforeRepair, if_pos hweights, Except.map,
        feedStarved_of_nobody (spreadEvenly_pos hcount htotal)]
    · rw [apportion, if_neg (not_not.mpr ⟨hcount, htotal⟩)]
      simp only [hweights, if_true, even_eq (show 0 ≤ total by omega)]
  · have hpos := not_le.mp hweights
    have htotal0 : 0 ≤ total := by omega
    obtain ⟨start, hstart, hspread⟩ := largestRemainder_spread htotal0 hnonneg hpos
    have hcount0 : start.count 0 ≤ weights.length := hspread.length ▸ List.count_le_length
    refine ⟨feedStarved weights.length start, ?_, fun fuel hfuel => ?_⟩
    · rw [apportion_eq hcount htotal, beforeRepair, if_neg hweights, hstart]
      rfl
    · have hfeed := feed_eq fuel start
      rw [hspread.length, repairLoop_fed htotal hspread (by omega) hcount0] at hfeed
      rw [apportion_eq_feed hcount htotal hnonneg hpos hstart, hfeed]
      rfl

/-- Five layers over equal weights: the ties go to the first two, and nobody starves. -/
theorem apportions_agree_ties :
    ∃ result, Core.apportion 5 [7, 7, 7] = .ok result ∧
      ∀ fuel, 3 < fuel → apportion fuel 5 [7, 7, 7] = some (.ok result) :=
  apportions_agree (by decide) (by decide) (by decide)

example : apportion 4 5 [7, 7, 7] = some (.ok [2, 2, 1]) := by decide +kernel

end ShareCompute.Simulation.PoolLib
