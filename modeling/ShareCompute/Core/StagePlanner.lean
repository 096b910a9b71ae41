import ShareCompute.Core.MembershipService
import ShareCompute.Library.Apportionment
import Mathlib.Data.List.Sort

namespace ShareCompute.Core

open ShareCompute.Library

/-!
# The stage planner

`StagePlanner.swift`: which members may hold a required stage, and how a model's layers are
cut into contiguous ranges proportional to usable memory.

A Swift `precondition` and an out-of-range subscript end the process; the model returns a
`Trap` there, kept apart from the `PlanningError`s that `plan` throws.  The quotients of
`apportion` are `Double`s in Swift and exact rationals here.
-/

/-! ### Inputs -/

/-- What a model costs to host, independent of how it is split. -/
structure ModelPlacementSpec where
  modelID : String
  layerCount : ℤ
  totalWeightBytes : ℤ
  perNodeOverheadBytes : ℤ
deriving DecidableEq

namespace ModelPlacementSpec

/-- Rounded up: under-estimating per-layer cost is the dangerous direction. -/
def bytesPerLayer (model : ModelPlacementSpec) : ℤ :=
  if 0 < model.layerCount then
    (model.totalWeightBytes + model.layerCount - 1).tdiv model.layerCount
  else 0

/-- What the layers take together: their weights and the overhead that every node has once. -/
def bytesFor (model : ModelPlacementSpec) (layers : ℤ) : ℤ :=
  layers * model.bytesPerLayer + model.perNodeOverheadBytes

end ModelPlacementSpec

/-- Bytes available for model layers after fixed overhead. -/
def PlannedMember.capacityForLayers (member : PlannedMember) (overhead : ℤ) : ℤ :=
  max 0 (member.profile.memory.usableBytes - overhead)

/-- The rules by which the planner decides who may hold a required stage, with the source's
    defaults. -/
structure EligibilityPolicy where
  minimumTrustForRequiredStage : TrustLevel := .trustedCore
  requireLeaseHeadroom : Bool := true
  excludeNodesUnderPowerDuress : Bool := true

/-! ### Outputs -/

/-- The range of layers that a node gets, with the memory that it is estimated to take. -/
structure ShardAssignment where
  nodeID : NodeID
  rank : ℕ
  startLayer : ℤ
  endLayer : ℤ
  estimatedBytes : ℤ
deriving DecidableEq

/-- How many layers an assignment has, from its first one up to its end. -/
def ShardAssignment.layerCount (a : ShardAssignment) : ℤ := a.endLayer - a.startLayer

/-- A plan that was made for an epoch: one assignment for each node that takes part. -/
structure ShardPlan where
  epoch : Epoch
  modelID : String
  layerCount : ℤ
  assignments : List ShardAssignment
deriving DecidableEq

/-- The errors that `plan` throws, with the numbers that they report. -/
inductive PlanningError
  | noEligibleNodes
  | moreNodesThanLayers (layers nodes : ℤ)
  | insufficientAggregateMemory (requiredBytes availableBytes : ℤ)
  | nodeCannotFitShard (node : NodeID) (requiredBytes usableBytes : ℤ)
deriving DecidableEq

/-- What ends the process instead of returning or throwing. -/
inductive Trap
  /-- `precondition(count > 0)` -/
  | noWeights
  /-- `precondition(total >= count)` -/
  | moreNodesThanLayers
  /-- a subscript outside its array -/
  | indexOutOfRange
  /-- `precondition(cursor == model.layerCount)` -/
  | layersNotCovered
deriving DecidableEq

/-- How `plan` can end without a plan. -/
inductive Failure
  | thrown (error : PlanningError)
  | trapped (trap : Trap)
deriving DecidableEq

/-! ### Apportionment -/

/-- Nobody has spare capacity: spread evenly, the first ranks taking the remainder. -/
def spreadEvenly (total : ℤ) (count : ℕ) : List ℤ :=
  bump (List.range (total.tmod count).toNat) (List.replicate count (total.tdiv count))

/-- A node's exact proportional entitlement, before any rounding. -/
def exactShare (total totalWeight weight : ℤ) : ℚ := total * weight / totalWeight

/-- The order in which leftover layers are handed out: larger fraction first, ties on index. -/
def precedes (a b : ℕ × ℚ) : Bool :=
  if a.2 = b.2 then decide (a.1 < b.1) else decide (a.2 > b.2)

/-- Largest-remainder shares: everyone gets the floor of the entitlement, and the leftover
    layers go to the largest fractions. -/
def largestRemainder (total : ℤ) (weights : List ℤ) (totalWeight : ℤ) : Except Trap (List ℤ) :=
  let exact := weights.map (exactShare total totalWeight)
  let wholes := exact.map Int.floor
  let fractions := exact.zipIdx.map (fun (share, index) => (index, share - (⌊share⌋ : ℚ)))
  let leftover := total - wholes.sum
  if 0 < leftover then
    -- `insertionSort` takes the weak order of which `precedes` is the strict part
    let ordered := fractions.insertionSort (fun a b => !precedes b a)
    if leftover.toNat ≤ ordered.length then
      .ok (bump ((ordered.take leftover.toNat).map Prod.fst) wholes)
    else .error .indexOutOfRange
  else .ok wholes

/-- `result.indices.max(by:)`: the first of the largest entries. -/
def largestIndex (result : List ℤ) : Option ℕ :=
  match List.range result.length with
  | [] => none
  | i :: is => some (firstMax (fun i => result.getD i 0) i is)

/-- The `while` loop that feeds starved nodes: as long as an entry is `0` and another is above
    `1`, the first starved entry takes a layer from the largest.  Every round feeds one entry,
    so `fuel` is the number of entries. -/
def feedStarved : ℕ → List ℤ → List ℤ
  | 0, result => result
  | fuel + 1, result =>
      match result.findIdx? (· = 0), largestIndex result with
      | some starved, some largest =>
          if 1 < result.getD largest 0 then feedStarved fuel (transfer largest starved result)
          else result
      | _, _ => result

/-- Largest-remainder (Hamilton) apportionment, then one layer for every starved node. -/
def apportion (total : ℤ) (weights : List ℤ) : Except Trap (List ℤ) :=
  let count := weights.length
  if ¬ 0 < count then .error .noWeights
  else if ¬ (count : ℤ) ≤ total then .error .moreNodesThanLayers
  else
    let totalWeight := weights.sum
    -- degenerate but representable: nobody has spare capacity
    if totalWeight ≤ 0 then .ok (feedStarved count (spreadEvenly total count))
    else (largestRemainder total weights totalWeight).map (feedStarved count)

/-! ### The planner -/

/-- The planner is its policy; it keeps nothing between two plans. -/
structure StagePlanner where
  policy : EligibilityPolicy := {}

namespace StagePlanner

/-- Whether a member may hold a required stage right now. -/
def isEligible (planner : StagePlanner) (member : PlannedMember) (now : Date)
    (estimatedStageDuration : TimeInterval) : Bool :=
  if !member.state.canHostRequiredStage then false
  else if !member.profile.declaresCanHostRequiredStage then false
  else if member.profile.trust.rawValue < planner.policy.minimumTrustForRequiredStage.rawValue then
    false
  else if planner.policy.excludeNodesUnderPowerDuress && member.profile.power.isUnderDuress then
    false
  else if planner.policy.requireLeaseHeadroom then
    match member.lease with
    | none => false
    | some lease => lease.canHost .decodeAuthoritative estimatedStageDuration now
  else true

/-- Nodes that may hold a required stage right now, in node order. -/
def eligibleMembers (planner : StagePlanner) (members : List PlannedMember) (now : Date)
    (estimatedStageDuration : TimeInterval) : List PlannedMember :=
  (members.filter (planner.isEligible · now estimatedStageDuration)).insertionSort
    (fun a b => a.nodeID ≤ b.nodeID)

/-- The loop of `plan`: walk the eligible members with a rank and a layer cursor, checking
    each against its own assignment. -/
def assignLayers (model : ModelPlacementSpec) (layerCounts : List ℤ) :
    ℕ → ℤ → List PlannedMember → Except Failure (List ShardAssignment × ℤ)
  | _, cursor, [] => .ok ([], cursor)
  | rank, cursor, member :: members =>
      match layerCounts[rank]? with
      | none => .error (.trapped .indexOutOfRange)
      | some layers =>
          let bytes := model.bytesFor layers
          -- the member's own memory, not just the aggregate
          if ¬ bytes ≤ member.profile.memory.usableBytes then
            .error (.thrown (.nodeCannotFitShard member.nodeID bytes
              member.profile.memory.usableBytes))
          else
            match assignLayers model layerCounts (rank + 1) (cursor + layers) members with
            | .error failure => .error failure
            | .ok (assignments, last) =>
                .ok ({ nodeID := member.nodeID, rank := rank, startLayer := cursor,
                       endLayer := cursor + layers, estimatedBytes := bytes } :: assignments, last)

/-- `plan`: the eligible members share the layers by their usable memory, unless there are too few
    of them or too little of it. -/
def plan (planner : StagePlanner) (model : ModelPlacementSpec) (members : List PlannedMember)
    (epoch : Epoch) (now : Date) (estimatedStageDuration : TimeInterval) :
    Except Failure ShardPlan :=
  let eligible := planner.eligibleMembers members now estimatedStageDuration
  if eligible.isEmpty then .error (.thrown .noEligibleNodes)
  else if ¬ (eligible.length : ℤ) ≤ model.layerCount then
    .error (.thrown (.moreNodesThanLayers model.layerCount eligible.length))
  else
    let capacities := eligible.map (·.capacityForLayers model.perNodeOverheadBytes)
    let available := capacities.sum
    if ¬ model.totalWeightBytes ≤ available then
      .error (.thrown (.insufficientAggregateMemory model.totalWeightBytes available))
    else
      match apportion model.layerCount capacities with
      | .error trap => .error (.trapped trap)
      | .ok layerCounts =>
          match assignLayers model layerCounts 0 0 eligible with
          | .error failure => .error failure
          | .ok (assignments, cursor) =>
              if cursor ≠ model.layerCount then .error (.trapped .layersNotCovered)
              else
                .ok { epoch := epoch, modelID := model.modelID, layerCount := model.layerCount,
                      assignments := assignments }

end StagePlanner

/-! ### What apportionment returns -/

/-- The two ways to start the `while` loop both spread `total` over entries that are not
    negative. -/
structure Spread (total : ℤ) (count : ℕ) (result : List ℤ) : Prop where
  length : result.length = count
  sum : result.sum = total
  nonneg : ∀ x ∈ result, 0 ≤ x

/-- Handing out units makes no share smaller, so every share afterwards stands above one from
    before. -/
theorem mem_of_bump {is : List ℕ} {r : List ℤ} {y : ℤ} (hy : y ∈ bump is r) :
    ∃ x ∈ r, x ≤ y := by
  obtain ⟨i, hi⟩ := List.mem_iff_getElem?.mp hy
  rw [getElem?_bump, Option.map_eq_some_iff] at hi
  obtain ⟨x, hx, rfl⟩ := hi
  exact ⟨x, List.mem_of_getElem? hx, by omega⟩

/-- An even spread gives every place the floor or the ceiling of the mean, and the total
    together. -/
theorem spreadEvenly_spread {total : ℤ} {count : ℕ} (hcount : 0 < count)
    (htotal : (count : ℤ) ≤ total) : Spread total count (spreadEvenly total count) := by
  have hpos : (0 : ℤ) < count := by exact_mod_cast hcount
  have hdiv := Int.mul_tdiv_add_tmod total count
  have hmod : 0 ≤ total.tmod count := Int.tmod_nonneg _ (by omega)
  have hlt : total.tmod count < count := Int.tmod_lt_of_pos _ hpos
  refine ⟨by simp [spreadEvenly], ?_, ?_⟩
  · rw [spreadEvenly, sum_bump]
    · simp only [List.sum_replicate, nsmul_eq_mul, List.length_range]
      omega
    · intro i hi
      rw [List.mem_range] at hi
      rw [List.length_replicate]
      omega
  · intro y hy
    obtain ⟨x, hx, hxy⟩ := mem_of_bump hy
    rw [List.eq_of_mem_replicate hx] at hxy
    exact le_trans (Int.tdiv_nonneg (by omega) hpos.le) hxy

/-- Exact shares of a positive total weight add up to the total. -/
theorem sum_exactShare (total : ℤ) {weights : List ℤ} (hweights : 0 < weights.sum) :
    (weights.map (exactShare total weights.sum)).sum = total := by
  have hne : (weights.sum : ℚ) ≠ 0 := by exact_mod_cast hweights.ne'
  have hlinear : ∀ ws : List ℤ, (ws.map (exactShare total weights.sum)).sum
      = (total : ℚ) * (ws.sum : ℤ) / weights.sum := by
    intro ws
    induction ws with
    | nil => simp
    | cons w ws ih =>
      rw [List.map_cons, List.sum_cons, ih, List.sum_cons, exactShare]
      push_cast
      ring
  rw [hlinear, mul_div_assoc, div_self hne, mul_one]

/-- **The largest-remainder step never runs out of fractions**, and spreads the total. -/
theorem largestRemainder_spread {total : ℤ} {weights : List ℤ} (htotal : 0 ≤ total)
    (hnonneg : ∀ w ∈ weights, 0 ≤ w) (hweights : 0 < weights.sum) :
    ∃ result, largestRemainder total weights weights.sum = .ok result ∧
      Spread total weights.length result := by
  have hne : weights.map (exactShare total weights.sum) ≠ [] := by
    rintro h
    rw [List.map_eq_nil_iff] at h
    simp [h] at hweights
  have hshares := sum_exactShare total hweights
  -- what the floors leave is less than one for each share
  have hle := sum_floor_le (weights.map (exactShare total weights.sum))
  have hlt := lt_sum_floor_add_length hne
  have hfloor : ∀ x ∈ (weights.map (exactShare total weights.sum)).map Int.floor, 0 ≤ x := by
    intro x hx
    simp only [List.mem_map, exists_exists_and_eq_and] at hx
    obtain ⟨w, hw, rfl⟩ := hx
    have hw' : (0 : ℚ) ≤ w := by exact_mod_cast hnonneg w hw
    have htotal' : (0 : ℚ) ≤ total := by exact_mod_cast htotal
    have hsum' : (0 : ℚ) ≤ weights.sum := by exact_mod_cast hweights.le
    exact Int.floor_nonneg.mpr (div_nonneg (mul_nonneg htotal' hw') hsum')
  rw [hshares] at hle hlt
  simp only [largestRemainder]
  generalize hexact : weights.map (exactShare total weights.sum) = exact at *
  have hlen : exact.length = weights.length := by rw [← hexact, List.length_map]
  have hle' : (exact.map Int.floor).sum ≤ total := by exact_mod_cast hle
  have hlt' : total < (exact.map Int.floor).sum + exact.length := by exact_mod_cast hlt
  split
  · next hleft =>
    have hperm := List.perm_insertionSort (fun a b => !precedes b a)
      (exact.zipIdx.map (fun x : ℚ × ℕ => (x.2, x.1 - (⌊x.1⌋ : ℚ))))
    have hordered : ((exact.zipIdx.map (fun x : ℚ × ℕ => (x.2, x.1 - (⌊x.1⌋ : ℚ)))).insertionSort
        (fun a b => !precedes b a)).length = exact.length := by
      rw [hperm.length_eq]; simp
    -- so the guard on the ordered fractions is passed
    rw [if_pos (by rw [hordered]; omega)]
    refine ⟨_, rfl, by simp [hlen], ?_, ?_⟩
    · rw [sum_bump]
      · rw [List.length_map, List.length_take, hordered]
        omega
      · -- the fractions carry the positions of the shares
        intro i hi
        obtain ⟨p, hp, rfl⟩ := List.mem_map.mp hi
        have hp' := hperm.mem_iff.mp (List.mem_of_mem_take hp)
        obtain ⟨⟨share, index⟩, hmem, rfl⟩ := List.mem_map.mp hp'
        have := (List.mem_zipIdx hmem).2.1
        simpa using this
    · intro y hy
      obtain ⟨x, hx, hxy⟩ := mem_of_bump hy
      exact le_trans (hfloor x hx) hxy
  · refine ⟨_, rfl, by simp [hlen], by omega, hfloor⟩

end ShareCompute.Core
