import ShareCompute.Core.PlanSoundness
import Mathlib.Data.Prod.Lex

namespace ShareCompute.Core

open ShareCompute.Library

/-!
# The quota law of apportionment

`StagePlanner.apportion` rounds every entitlement down or up and then feeds whoever is left
with nothing.  `QuotaLaw` states what each of the two steps owes its caller:

* `largestRemainder_quota` — the first step gives every node the floor or the ceiling of its
  entitlement.  The layers left over by rounding down are fewer than the entitlements that were
  rounded at all, so nobody with a whole entitlement is handed one (`pos_of_lt_sum`).
* `repairLoop_fed` — the `while` loop ends on its condition, within one round for each node.
* `feedStarved_le` — the loop raises nobody above one layer.
-/

/-! ### The loop with its two exits -/

/-- How the `while` loop of `apportion` is left. -/
inductive LoopExit
  /-- its condition fails: no entry is `0` -/
  | nobodyStarved
  /-- the `break` of its `guard`: no entry is above `1` -/
  | brokeOff
deriving DecidableEq

/-- The `while` loop of `apportion`, run for at most `fuel` tests of its condition: the exit
    it takes and the entries it leaves, or `none` when it has not ended by then. -/
def repairLoop : ℕ → List ℤ → Option (LoopExit × List ℤ)
  | 0, _ => none
  | fuel + 1, result =>
      match result.findIdx? (· = 0) with
      | none => some (.nobodyStarved, result)
      | some starved =>
          match largestIndex result with
          | none => some (.brokeOff, result)
          | some largest =>
              if 1 < result.getD largest 0 then repairLoop fuel (transfer largest starved result)
              else some (.brokeOff, result)

/-- **The loop is never left through its `break`**, and `feedStarved` computes what it leaves:
    every round feeds one starved entry, so their number bounds the rounds. -/
theorem repairLoop_fed {total : ℤ} {count : ℕ} (htotal : (count : ℤ) ≤ total) {fuel bound : ℕ}
    {result : List ℤ} (h : Spread total count result) (hfuel : result.count 0 < fuel)
    (hbound : result.count 0 ≤ bound) :
    repairLoop fuel result = some (.nobodyStarved, feedStarved bound result) := by
  induction fuel generalizing result bound with
  | zero => omega
  | succ fuel ih =>
    rw [repairLoop]
    cases hstarved : result.findIdx? (· = 0) with
    | none =>
      cases bound with
      | zero => rfl
      | succ bound => simp only [feedStarved, hstarved]
    | some starved =>
      obtain ⟨hlt, hzero, -⟩ := List.findIdx?_eq_some_iff_getElem.mp hstarved
      have hzero' : result[starved] = 0 := by simpa using hzero
      have hne : result ≠ [] := List.ne_nil_of_length_pos (by omega)
      obtain ⟨largest, hlargest⟩ := largestIndex_isSome hne
      obtain ⟨hbig, hspread, hcount⟩ := h.round htotal hstarved hlargest
      have hpos : 0 < result.count 0 := List.count_pos_iff.mpr (hzero' ▸ List.getElem_mem hlt)
      obtain ⟨bound, rfl⟩ : ∃ b, bound = b + 1 := ⟨bound - 1, by omega⟩
      simp only [hlargest, hbig, if_true, feedStarved, hstarved]
      exact ih hspread (by omega) (by omega)

/-- With nobody starved the loop does nothing. -/
theorem feedStarved_of_nobody {result : List ℤ} (h : ∀ y ∈ result, y ≠ 0) (fuel : ℕ) :
    feedStarved fuel result = result := by
  have hnone : result.findIdx? (· = 0) = none :=
    List.findIdx?_eq_none_iff.mpr fun y hy => by simpa using h y hy
  cases fuel with
  | zero => rfl
  | succ fuel => rw [feedStarved, hnone]

/-- The loop raises an entry to `1` or lets it lose layers. -/
theorem feedStarved_le {total : ℤ} {count : ℕ} (htotal : (count : ℤ) ≤ total) (fuel : ℕ)
    {result : List ℤ} (h : Spread total count result) {i : ℕ} {x : ℤ}
    (hx : (feedStarved fuel result)[i]? = some x) :
    ∃ y, result[i]? = some y ∧ x ≤ max 1 y := by
  induction fuel generalizing result with
  | zero => exact ⟨x, hx, le_max_right _ _⟩
  | succ fuel ih =>
    rw [feedStarved] at hx
    cases hstarved : result.findIdx? (· = 0) with
    | none =>
      simp only [hstarved] at hx
      exact ⟨x, hx, le_max_right _ _⟩
    | some starved =>
      obtain ⟨hlt, hzero, -⟩ := List.findIdx?_eq_some_iff_getElem.mp hstarved
      have hzero' : result[starved] = 0 := by simpa using hzero
      obtain ⟨largest, hlargest⟩ :=
        largestIndex_isSome (List.ne_nil_of_length_pos (Nat.zero_lt_of_lt hlt))
      obtain ⟨hbig, hspread, -⟩ := h.round htotal hstarved hlargest
      simp only [hstarved, hlargest, hbig, if_true] at hx
      obtain ⟨y, hy, hxy⟩ := ih hspread hx
      have hne : largest ≠ starved := by
        rintro rfl
        simp [hlt, hzero'] at hbig
      rw [getElem?_transfer hne, Option.map_eq_some_iff] at hy
      obtain ⟨z, hz, rfl⟩ := hy
      refine ⟨z, hz, hxy.trans ?_⟩
      split
      · omega
      · split
        · next hk =>
          -- the starved entry had nothing, so it now has one
          subst hk
          have : result[i] = z := by simpa [hlt] using hz
          omega
        · exact le_refl _

/-! ### Who gets a layer that rounding left over -/

/-- The order of `precedes` is the lexicographic one of descending fractions and indices. -/
theorem precedes_lex (a b : ℕ × ℚ) :
    (!precedes b a) = true ↔ toLex (-a.2, a.1) ≤ toLex (-b.2, b.1) := by
  rw [Prod.Lex.toLex_le_toLex, precedes]
  by_cases heq : b.2 = a.2
  · simp [heq]
  · simp only [heq, if_false, gt_iff_lt, Bool.not_eq_true', decide_eq_false_iff_not, not_lt,
      neg_lt_neg_iff, neg_inj, Ne.symm heq, false_and, or_false]
    exact ⟨fun h => lt_of_le_of_ne h heq, le_of_lt⟩

/-- The sort of the fractions puts larger ones first. -/
theorem pairwise_ordered (fractions : List (ℕ × ℚ)) :
    ((fractions.insertionSort (fun a b => !precedes b a)).map Prod.snd).Pairwise (· ≥ ·) := by
  have : Std.Total (fun a b : ℕ × ℚ => (!precedes b a) = true) := ⟨fun a b => by
    rw [precedes_lex, precedes_lex]
    exact le_total _ _⟩
  have : IsTrans (ℕ × ℚ) (fun a b => (!precedes b a) = true) := ⟨fun a b c => by
    rw [precedes_lex, precedes_lex, precedes_lex]
    exact le_trans⟩
  rw [List.pairwise_map]
  refine (List.pairwise_insertionSort _ fractions).imp fun {a b} hab => ?_
  rw [precedes_lex, Prod.Lex.toLex_le_toLex] at hab
  rcases hab with hlt | ⟨heq, -⟩
  · exact (neg_lt_neg_iff.mp hlt).le
  · exact (neg_inj.mp heq).ge

/-- The leftover layers go to different nodes, each with a fractional entitlement. -/
theorem handedOut {exact : List ℚ} {leftover : ℕ}
    (hsum : (exact.map (fun share => share - (⌊share⌋ : ℚ))).sum = leftover)
    {ordered : List (ℕ × ℚ)}
    (hordered : ordered = (exact.zipIdx.map (fun p => (p.2, p.1 - (⌊p.1⌋ : ℚ)))).insertionSort
      (fun a b => !precedes b a)) :
    ((ordered.take leftover).map Prod.fst).Nodup ∧
      ∀ i ∈ (ordered.take leftover).map Prod.fst, ∀ share, exact[i]? = some share →
        (⌊share⌋ : ℚ) < share := by
  have hperm : ordered.Perm (exact.zipIdx.map (fun p => (p.2, p.1 - (⌊p.1⌋ : ℚ)))) :=
    hordered ▸ List.perm_insertionSort _ _
  have hindices : (ordered.map Prod.fst).Perm (List.range exact.length) := by
    have := hperm.map Prod.fst
    rwa [List.map_map, show Prod.fst ∘ (fun p : ℚ × ℕ => (p.2, p.1 - (⌊p.1⌋ : ℚ))) = Prod.snd
      from rfl, List.zipIdx_map_snd, ← List.range_eq_range'] at this
  have hfractions : (ordered.map Prod.snd).Perm
      (exact.map (fun share => share - (⌊share⌋ : ℚ))) := by
    have := hperm.map Prod.snd
    rwa [List.map_map, show Prod.snd ∘ (fun p : ℚ × ℕ => (p.2, p.1 - (⌊p.1⌋ : ℚ)))
      = (fun share => share - (⌊share⌋ : ℚ)) ∘ Prod.fst from rfl, ← List.map_map,
      List.zipIdx_map_fst] at this
  refine ⟨?_, ?_⟩
  · exact (hindices.nodup_iff.mpr List.nodup_range).sublist ((List.take_sublist _ _).map _)
  · intro i hi share hshare
    obtain ⟨q, hq, rfl⟩ := List.mem_map.mp hi
    obtain ⟨p, hp, rfl⟩ := List.mem_iff_getElem.mp hq
    rw [List.length_take, lt_min_iff] at hp
    rw [List.getElem_take] at hshare
    -- the fraction at a position before `leftover` is positive …
    have hlen : p < (ordered.map Prod.snd).length := by simpa using hp.2
    have hpos : 0 < (ordered.map Prod.snd)[p] := by
      refine pos_of_lt_sum (hordered ▸ pairwise_ordered _) (fun f hf => ?_)
        (hfractions.sum_eq.trans hsum) hp.1 hlen
      obtain ⟨s, -, rfl⟩ := List.mem_map.mp (hfractions.mem_iff.mp hf)
      exact (Int.fract_lt_one s).le
    -- … and it is the fraction of the share at its index
    obtain ⟨⟨s, index⟩, hmem, heq⟩ := List.mem_map.mp
      (hperm.mem_iff.mp (List.getElem_mem hp.2))
    rw [List.getElem_map, ← heq] at hpos
    rw [← heq, List.mem_zipIdx_iff_getElem?.mp hmem] at hshare
    obtain rfl := Option.some.inj hshare
    exact sub_pos.mp hpos

/-- **The largest-remainder step keeps to the quota**: everyone gets the floor or the ceiling of
    their entitlement. -/
theorem largestRemainder_quota {total : ℤ} {weights : List ℤ} (hweights : 0 < weights.sum)
    {result : List ℤ} (h : largestRemainder total weights weights.sum = .ok result) {i : ℕ}
    {x w : ℤ} (hx : result[i]? = some x) (hw : weights[i]? = some w) :
    x = ⌊exactShare total weights.sum w⌋ ∨ x = ⌈exactShare total weights.sum w⌉ := by
  have hshares := sum_exactShare total hweights
  simp only [largestRemainder] at h
  have hshare : (weights.map (exactShare total weights.sum))[i]?
      = some (exactShare total weights.sum w) := by
    rw [List.getElem?_map, hw, Option.map_some]
  generalize exactShare total weights.sum w = share at hshare ⊢
  generalize weights.map (exactShare total weights.sum) = exact at h hshare hshares
  have hwhole : (exact.map Int.floor)[i]? = some ⌊share⌋ := by
    rw [List.getElem?_map, hshare, Option.map_some]
  split at h
  · next hleft =>
    split at h
    · obtain rfl := Except.ok.inj h
      rw [getElem?_bump, hwhole, Option.map_some] at hx
      obtain rfl := Option.some.inj hx
      -- what is handed out is what the fractions come to
      have hsum : (exact.map (fun share => share - (⌊share⌋ : ℚ))).sum
          = ((total - (exact.map Int.floor).sum).toNat : ℕ) := by
        have hcast : ((total - (exact.map Int.floor).sum).toNat : ℤ)
            = total - (exact.map Int.floor).sum := Int.toNat_of_nonneg hleft.le
        rw [sum_sub_floor, hshares, ← Int.cast_natCast, hcast]
        push_cast
        rfl
      obtain ⟨hnodup, hfraction⟩ := handedOut hsum rfl
      -- a share is bumped at most once: it stays at its floor or comes to its ceiling
      rcases Nat.le_one_iff_eq_zero_or_eq_one.mp (List.nodup_iff_count_le_one.mp hnodup i) with
        h0 | h1
      · left
        exact (congrArg (fun n : ℕ => ⌊share⌋ + (n : ℤ)) h0).trans (add_zero _)
      · right
        have hi := List.count_pos_iff.mp (h1 ▸ Nat.one_pos)
        refine (congrArg (fun n : ℕ => ⌊share⌋ + (n : ℤ)) h1).trans ?_
        refine (Int.ceil_eq_iff.mpr ⟨?_, ?_⟩).symm
        · push_cast
          linarith [hfraction i hi share hshare]
        · push_cast
          exact (Int.lt_floor_add_one share).le
    · cases h
  · obtain rfl := Except.ok.inj h
    rw [hwhole] at hx
    exact .inl (Option.some.inj hx).symm

/-! ### The law -/

/-- The entries with which `apportion` enters its loop. -/
def beforeRepair (total : ℤ) (weights : List ℤ) : Except Trap (List ℤ) :=
  if weights.sum ≤ 0 then .ok (spreadEvenly total weights.length)
  else largestRemainder total weights weights.sum

theorem apportion_eq {total : ℤ} {weights : List ℤ} (hcount : 0 < weights.length)
    (htotal : (weights.length : ℤ) ≤ total) :
    apportion total weights = (beforeRepair total weights).map (feedStarved weights.length) := by
  simp only [apportion, hcount, htotal, not_true_eq_false, if_false, beforeRepair]
  split <;> rfl

theorem beforeRepair_spread {total : ℤ} {weights : List ℤ} (hcount : 0 < weights.length)
    (htotal : (weights.length : ℤ) ≤ total) (hnonneg : ∀ w ∈ weights, 0 ≤ w) :
    ∃ start, beforeRepair total weights = .ok start ∧ Spread total weights.length start := by
  unfold beforeRepair
  split
  · exact ⟨_, rfl, spreadEvenly_spread hcount htotal⟩
  · next hweights =>
    exact largestRemainder_spread (by omega) hnonneg (not_le.mp hweights)

/-- What `apportion` owes for `total` and `weights` when it enters its loop with `start` and
    returns `result`. -/
structure QuotaLaw (total : ℤ) (weights start result : List ℤ) : Prop where
  length : result.length = weights.length
  sum : result.sum = total
  fed : ∀ x ∈ result, 1 ≤ x
  /-- given more tests of its condition than there are nodes, the loop has ended, and not
      through its `break` -/
  ends : ∀ fuel, weights.length < fuel →
    repairLoop fuel start = some (.nobodyStarved, result)
  /-- nobody is loaded a whole layer beyond their entitlement, except up to one layer -/
  ceiling : 0 < weights.sum → ∀ (i : ℕ) (x w : ℤ), result[i]? = some x → weights[i]? = some w →
    x ≤ max 1 ⌈exactShare total weights.sum w⌉
  /-- if rounding starves nobody, everyone gets the floor or the ceiling of their entitlement -/
  quota : 0 < weights.sum → (∀ y ∈ start, y ≠ 0) → ∀ (i : ℕ) (x w : ℤ),
    result[i]? = some x → weights[i]? = some w →
      x = ⌊exactShare total weights.sum w⌋ ∨ x = ⌈exactShare total weights.sum w⌉

/-- **Apportionment quota law.**  For as many layers as weights, none of them negative,
    `apportion` returns, and its result keeps the quota law. -/
theorem apportion_quota {total : ℤ} {weights : List ℤ} (hcount : 0 < weights.length)
    (htotal : (weights.length : ℤ) ≤ total) (hnonneg : ∀ w ∈ weights, 0 ≤ w) :
    ∃ start result, beforeRepair total weights = .ok start ∧
      apportion total weights = .ok result ∧ QuotaLaw total weights start result := by
  obtain ⟨start, hstart, hspread⟩ := beforeRepair_spread hcount htotal hnonneg
  have hcount0 : start.count 0 ≤ weights.length := hspread.length ▸ List.count_le_length
  obtain ⟨hresult, hfed⟩ := feedStarved_spread htotal weights.length hspread hcount0
  refine ⟨start, feedStarved weights.length start, hstart, ?_, ?_⟩
  · rw [apportion_eq hcount htotal, hstart]
    rfl
  have hquota : 0 < weights.sum → ∀ (i : ℕ) (x w : ℤ), start[i]? = some x → weights[i]? = some w →
      x = ⌊exactShare total weights.sum w⌋ ∨ x = ⌈exactShare total weights.sum w⌉ := by
    intro hweights i x w hx hw
    rw [beforeRepair, if_neg (not_le.mpr hweights)] at hstart
    exact largestRemainder_quota hweights hstart hx hw
  refine ⟨hresult.length, hresult.sum, hfed, ?_, ?_, ?_⟩
  · intro fuel hfuel
    exact repairLoop_fed htotal hspread (by omega) hcount0
  · intro hweights i x w hx hw
    obtain ⟨y, hy, hxy⟩ := feedStarved_le htotal _ hspread hx
    have hfloor := Int.floor_le_ceil (exactShare total weights.sum w)
    have := hquota hweights i y w hy hw
    omega
  · intro hweights hnobody i x w hx hw
    rw [feedStarved_of_nobody hnobody] at hx
    exact hquota hweights i x w hx hw

/-- 48 layers over 32, 6 and 6 GB: 34.9 and twice 6.5 layers become 35, 7 and 6. -/
theorem apportion_quota_three_nodes :
    ∃ start result, beforeRepair 48 [32, 6, 6] = .ok start ∧
      apportion 48 [32, 6, 6] = .ok result ∧ QuotaLaw 48 [32, 6, 6] start result :=
  apportion_quota (by decide) (by decide) (by decide)

example : apportion 48 [32, 6, 6] = .ok [35, 7, 6] := by decide +kernel

/-- A node without capacity takes a layer from the largest one. -/
example : apportion 4 [5, 0, 5] = .ok [1, 1, 2] := by decide +kernel

end ShareCompute.Core
