import ShareCompute.Core.StagePlanner
import ShareCompute.Library.Tiling
import Mathlib.Algebra.BigOperators.Ring.List

namespace ShareCompute.Core

open ShareCompute.Library

/-!
# Soundness of the stage planner

A plan that `StagePlanner.plan` returns covers every layer once, on eligible members only,
each within its own memory; and `plan` never trips one of its own preconditions.

* `feedStarved_spread` — the loop that feeds starved nodes keeps the total and ends with
  nobody starved, because the number of starved entries falls by one each round.
* `assignLayers_cases` — the cursor loop, by induction on the members it walks.
* `plan_sound` — the two assembled.
-/

/-! ### Feeding starved nodes -/

theorem largestIndex_spec {result : List ℤ} {largest : ℕ} (h : largestIndex result = some largest) :
    largest < result.length ∧ ∀ x ∈ result, x ≤ result.getD largest 0 := by
  unfold largestIndex at h
  split at h
  · cases h
  · next i is hrange =>
    obtain rfl := Option.some.inj h
    obtain ⟨hmem, hmax⟩ := firstMax_spec (fun i => result.getD i 0) i is
    rw [← hrange] at hmem hmax
    refine ⟨List.mem_range.mp hmem, fun x hx => ?_⟩
    obtain ⟨j, hj, rfl⟩ := List.getElem_of_mem hx
    simpa [hj] using hmax j (List.mem_range.mpr hj)

theorem largestIndex_isSome {result : List ℤ} (h : result ≠ []) :
    ∃ largest, largestIndex result = some largest := by
  unfold largestIndex
  split
  · next hrange => exact absurd (List.length_eq_zero_iff.mp (List.range_eq_nil.mp hrange)) h
  · exact ⟨_, rfl⟩

/-- **One round of the loop.**  While an entry is starved, the largest is above `1`, and the
    round feeds one entry without changing the total. -/
theorem Spread.round {total : ℤ} {count : ℕ} {result : List ℤ} (h : Spread total count result)
    (htotal : (count : ℤ) ≤ total) {starved largest : ℕ}
    (hstarved : result.findIdx? (· = 0) = some starved)
    (hlargest : largestIndex result = some largest) :
    1 < result.getD largest 0 ∧ Spread total count (transfer largest starved result) ∧
      (transfer largest starved result).count 0 + 1 = result.count 0 := by
  obtain ⟨hlt, hzero, -⟩ := List.findIdx?_eq_some_iff_getElem.mp hstarved
  have hzero' : result[starved] = 0 := by simpa using hzero
  obtain ⟨hlarge, hmax⟩ := largestIndex_spec hlargest
  have hsum : (result.length : ℤ) ≤ result.sum := by rw [h.length, h.sum]; exact htotal
  obtain ⟨x, hx, h2⟩ := exists_two_le_of_zero h.nonneg hsum (hzero' ▸ List.getElem_mem hlt)
  have hbig : 1 < result.getD largest 0 := by have := hmax x hx; omega
  have hbig' : 1 < result[largest] := by simpa [hlarge] using hbig
  have hne : largest ≠ starved := by
    rintro rfl
    omega
  refine ⟨hbig, ⟨by rw [length_transfer, h.length], by rw [sum_transfer hlarge hlt, h.sum], ?_⟩,
    count_zero_transfer hlarge hlt hbig' hzero'⟩
  intro y hy
  obtain ⟨k, hk⟩ := List.mem_iff_getElem?.mp hy
  rw [getElem?_transfer hne, Option.map_eq_some_iff] at hk
  obtain ⟨x, hx, rfl⟩ := hk
  have hx0 := h.nonneg x (List.mem_of_getElem? hx)
  split
  · next hkl =>
    subst hkl
    have : result[k] = x := by simpa [hlarge] using hx
    omega
  · split <;> omega

/-- **The loop ends with nobody starved** and the total intact. -/
theorem feedStarved_spread {total : ℤ} {count : ℕ} (htotal : (count : ℤ) ≤ total) (fuel : ℕ)
    {result : List ℤ} (h : Spread total count result) (hfuel : result.count 0 ≤ fuel) :
    Spread total count (feedStarved fuel result) ∧ ∀ x ∈ feedStarved fuel result, 1 ≤ x := by
  have hfed : ∀ {r : List ℤ}, Spread total count r → r.count 0 = 0 → ∀ x ∈ r, 1 ≤ x := by
    intro r hr hcount x hx
    have hne : x ≠ 0 := by
      rintro rfl
      exact List.count_eq_zero.mp hcount hx
    have := hr.nonneg x hx
    omega
  induction fuel generalizing result with
  | zero => exact ⟨h, hfed h (Nat.le_zero.mp hfuel)⟩
  | succ fuel ih =>
    rw [feedStarved]
    cases hstarved : result.findIdx? (· = 0) with
    | none =>
      refine ⟨h, hfed h (List.count_eq_zero.mpr fun hmem => ?_)⟩
      exact absurd (List.findIdx?_eq_none_iff.mp hstarved 0 hmem) (by simp)
    | some starved =>
      have hne : result ≠ [] := by
        rintro rfl
        simp at hstarved
      obtain ⟨largest, hlargest⟩ := largestIndex_isSome hne
      obtain ⟨hbig, hspread, hcount⟩ := h.round htotal hstarved hlargest
      simp only [hlargest, hbig, if_true]
      exact ih hspread (by omega)

/-- **Apportionment never trips a precondition of its own**: given as many layers as weights,
    it spreads all of them and leaves no weight without a layer. -/
theorem apportion_ok {total : ℤ} {weights : List ℤ} (hne : weights ≠ [])
    (htotal : (weights.length : ℤ) ≤ total) (hnonneg : ∀ w ∈ weights, 0 ≤ w) :
    ∃ result, apportion total weights = .ok result ∧ Spread total weights.length result ∧
      ∀ x ∈ result, 1 ≤ x := by
  have hpos : 0 < weights.length := List.length_pos_iff.mpr hne
  have hfeed : ∀ {r : List ℤ}, Spread total weights.length r →
      Spread total weights.length (feedStarved weights.length r) ∧
        ∀ x ∈ feedStarved weights.length r, 1 ≤ x := by
    intro r hr
    exact feedStarved_spread htotal _ hr (hr.length ▸ List.count_le_length)
  simp only [apportion, hpos, htotal, not_true_eq_false, if_false]
  by_cases hweight : weights.sum ≤ 0
  · rw [if_pos hweight]
    exact ⟨_, rfl, hfeed (spreadEvenly_spread hpos htotal)⟩
  · have hnonneg_total : 0 ≤ total := by omega
    rw [if_neg hweight]
    obtain ⟨result, hresult, hspread⟩ :=
      largestRemainder_spread hnonneg_total hnonneg (not_le.mp hweight)
    rw [hresult]
    exact ⟨_, rfl, hfeed hspread⟩

/-! ### The cursor loop -/

namespace StagePlanner

/-- The assignment of one member, from the rank and the layer counts. -/
structure Assigned (model : ModelPlacementSpec) (a : ShardAssignment) (member : PlannedMember) :
    Prop where
  node : a.nodeID = member.nodeID
  bytes : a.estimatedBytes = model.bytesFor a.layerCount
  fits : a.estimatedBytes ≤ member.profile.memory.usableBytes

/-- What the cursor loop returns when no member is too small for its share. -/
structure Walk (model : ModelPlacementSpec) (rank : ℕ) (cursor last : ℤ)
    (assignments : List ShardAssignment) (members : List PlannedMember) : Prop where
  assigned : List.Forall₂ (Assigned model) assignments members
  ranks : assignments.map ShardAssignment.rank = List.range' rank members.length
  tiles : Tiles cursor last (assignments.map (fun a => (a.startLayer, a.endLayer)))

/-- **The cursor loop** throws for the first member that is too small, or assigns every member
    a non-empty range that starts where the last one ended; `counts` are the layer counts from
    this rank on. -/
theorem assignLayers_cases (model : ModelPlacementSpec) (layerCounts : List ℤ) :
    ∀ (members : List PlannedMember) (rank : ℕ) (cursor : ℤ) (counts : List ℤ),
      layerCounts.drop rank = counts → counts.length = members.length →
      (∀ x ∈ counts, 1 ≤ x) →
      (∃ error, assignLayers model layerCounts rank cursor members = .error (.thrown error)) ∨
      ∃ assignments,
        assignLayers model layerCounts rank cursor members
          = .ok (assignments, cursor + counts.sum) ∧
        Walk model rank cursor (cursor + counts.sum) assignments members := by
  intro members
  -- on the members: the cursor stands where the ranges so far end
  induction members with
  | nil =>
    intro rank cursor counts hdrop hlength _
    rw [List.length_eq_zero_iff.mp hlength]
    refine .inr ⟨[], by simp [assignLayers], .nil, rfl, ?_⟩
    simp [Tiles]
  | cons member members ih =>
    intro rank cursor counts hdrop hlength hpos
    cases counts with
    | nil => simp at hlength
    | cons layers counts =>
      have hlayers : layerCounts[rank]? = some layers := by
        rw [← Nat.add_zero rank, ← List.getElem?_drop, hdrop]; rfl
      have hdrop' : layerCounts.drop (rank + 1) = counts := by
        rw [← List.drop_drop, hdrop]; rfl
      have hlength' : counts.length = members.length := by simpa using hlength
      simp only [assignLayers, hlayers]
      by_cases hfits : model.bytesFor layers ≤ member.profile.memory.usableBytes
      · -- the rest of the walk goes on behind this member's range
        simp only [hfits, not_true_eq_false, if_false]
        have hpos' : ∀ x ∈ counts, 1 ≤ x := fun x hx => hpos x (List.mem_cons_of_mem _ hx)
        rcases ih (rank + 1) (cursor + layers) counts hdrop' hlength' hpos' with
          ⟨error, herror⟩ | ⟨rest, hrest, hwalk⟩
        · exact .inl ⟨error, by rw [herror]⟩
        · rw [List.sum_cons, ← add_assoc]
          refine .inr ⟨_, by rw [hrest], .cons ⟨rfl, ?_, hfits⟩ hwalk.assigned, ?_,
            rfl, ?_, hwalk.tiles⟩
          · simp [ShardAssignment.layerCount]
          · simp [hwalk.ranks, List.range'_succ]
          · have := hpos layers (List.mem_cons_self ..)
            show cursor < cursor + layers
            omega
      · simp only [hfits, not_false_eq_true, if_true]
        exact .inl ⟨_, rfl⟩

/-! ### Plans -/

variable {planner : StagePlanner} {model : ModelPlacementSpec} {members : List PlannedMember}
  {epoch : Epoch} {now : Date} {estimatedStageDuration : TimeInterval}

/-- **`plan` throws, or walks all eligible members from layer `0` to the last layer.** -/
theorem plan_cases (planner : StagePlanner) (model : ModelPlacementSpec)
    (members : List PlannedMember) (epoch : Epoch) (now : Date)
    (estimatedStageDuration : TimeInterval) :
    (∃ error, planner.plan model members epoch now estimatedStageDuration
      = .error (.thrown error)) ∨
    ∃ assignments,
      planner.plan model members epoch now estimatedStageDuration
        = .ok { epoch := epoch, modelID := model.modelID, layerCount := model.layerCount,
                assignments := assignments } ∧
      0 < model.layerCount ∧
      Walk model 0 0 model.layerCount assignments
        (planner.eligibleMembers members now estimatedStageDuration) := by
  unfold plan
  generalize planner.eligibleMembers members now estimatedStageDuration = eligible
  cases eligible with
  | nil => exact .inl ⟨_, rfl⟩
  | cons member eligible =>
    simp only [List.isEmpty_cons, Bool.false_eq_true, if_false]
    by_cases hlayers : ((member :: eligible).length : ℤ) ≤ model.layerCount
    · rw [if_neg (not_not.mpr hlayers)]
      generalize hcapacities : (member :: eligible).map
        (·.capacityForLayers model.perNodeOverheadBytes) = capacities
      by_cases haggregate : model.totalWeightBytes ≤ capacities.sum
      · rw [if_neg (not_not.mpr haggregate)]
        -- the guards of `plan` are what `apportion` asks of its caller
        have hlength : capacities.length = (member :: eligible).length := by
          rw [← hcapacities, List.length_map]
        have hlayers' : (capacities.length : ℤ) ≤ model.layerCount := hlength ▸ hlayers
        have hnonneg : ∀ w ∈ capacities, 0 ≤ w := by
          rw [← hcapacities]
          intro w hw
          obtain ⟨m, -, rfl⟩ := List.mem_map.mp hw
          exact le_max_left _ _
        have hne : capacities ≠ [] := List.ne_nil_of_length_pos (by simp [hlength])
        obtain ⟨counts, hcounts, hspread, hpos⟩ := apportion_ok hne hlayers' hnonneg
        rw [hcounts]
        rcases assignLayers_cases model counts (member :: eligible) 0 0 counts rfl
          (hspread.length.trans hlength) hpos with ⟨error, herror⟩ | ⟨assignments, hok, hwalk⟩
        · exact .inl ⟨error, by simp only [herror]⟩
        · rw [hspread.sum, zero_add] at hok hwalk
          refine .inr ⟨assignments, ?_, ?_, hwalk⟩
          · simp only [hok, ne_eq, not_true_eq_false, if_false]
          · have : 0 < (member :: eligible).length := Nat.succ_pos _
            omega
      · rw [if_pos haggregate]
        exact .inl ⟨_, rfl⟩
    · rw [if_pos hlayers]
      exact .inl ⟨_, rfl⟩

/-- Eligible members come in strictly increasing node order when no node is offered twice. -/
theorem eligibleMembers_sorted (planner : StagePlanner) {members : List PlannedMember}
    (hdistinct : (members.map PlannedMember.nodeID).Nodup) (now : Date)
    (estimatedStageDuration : TimeInterval) :
    ((planner.eligibleMembers members now estimatedStageDuration).map
      PlannedMember.nodeID).Pairwise (· < ·) := by
  refine Dictionary.pairwise_lt_map_insertionSort PlannedMember.nodeID ?_
  exact hdistinct.sublist (List.filter_sublist.map _)

/-- Rounding the cost of a layer up never under-estimates the model. -/
theorem totalWeightBytes_le (model : ModelPlacementSpec) (hlayers : 0 < model.layerCount) :
    model.totalWeightBytes ≤ model.layerCount * model.bytesPerLayer := by
  have hmod := Int.tmod_lt_of_pos (model.totalWeightBytes + model.layerCount - 1) hlayers
  have hdiv := Int.mul_tdiv_add_tmod (model.totalWeightBytes + model.layerCount - 1)
    model.layerCount
  rw [ModelPlacementSpec.bytesPerLayer, if_pos hlayers]
  omega

/-- What a returned plan guarantees, for the members that it was made of. -/
structure Sound (planner : StagePlanner) (model : ModelPlacementSpec)
    (members : List PlannedMember) (now : Date) (estimatedStageDuration : TimeInterval)
    (plan : ShardPlan) : Prop where
  /-- one assignment for each eligible member, in the same order, costed for its own layers
      and within its own memory -/
  assigned : List.Forall₂ (Assigned model) plan.assignments
    (planner.eligibleMembers members now estimatedStageDuration)
  increasing : (plan.assignments.map ShardAssignment.nodeID).Pairwise (· < ·)
  ranks : plan.assignments.map ShardAssignment.rank = List.range plan.assignments.length
  /-- non-empty ranges, end to end from layer `0` to the last -/
  layers : Tiles 0 model.layerCount
    (plan.assignments.map (fun a => (a.startLayer, a.endLayer)))
  weights : model.totalWeightBytes
    ≤ (plan.assignments.map (fun a => a.layerCount * model.bytesPerLayer)).sum

/-- **The planner is sound.**  No call ends in a trap, whatever the input; and a plan for
    distinct nodes is `Sound`. -/
theorem plan_sound (planner : StagePlanner) (model : ModelPlacementSpec)
    (members : List PlannedMember) (epoch : Epoch) (now : Date)
    (estimatedStageDuration : TimeInterval) :
    (∀ trap, planner.plan model members epoch now estimatedStageDuration
      ≠ .error (.trapped trap)) ∧
    ((members.map PlannedMember.nodeID).Nodup →
      ∀ plan, planner.plan model members epoch now estimatedStageDuration = .ok plan →
        Sound planner model members now estimatedStageDuration plan) := by
  rcases plan_cases planner model members epoch now estimatedStageDuration with
    ⟨error, herror⟩ | ⟨assignments, hok, hlayers, hwalk⟩
  · exact ⟨by simp [herror], by simp [herror]⟩
  refine ⟨by simp [hok], fun hdistinct plan hplan => ?_⟩
  rw [hok] at hplan
  obtain rfl := Except.ok.inj hplan
  have hnodes : assignments.map ShardAssignment.nodeID
      = (planner.eligibleMembers members now estimatedStageDuration).map PlannedMember.nodeID := by
    rw [← List.forall₂_eq_eq_eq, List.forall₂_map_left_iff, List.forall₂_map_right_iff]
    exact hwalk.assigned.imp fun _ _ h => h.node
  refine ⟨hwalk.assigned, ?_, ?_, hwalk.tiles, ?_⟩
  · exact hnodes ▸ planner.eligibleMembers_sorted hdistinct now estimatedStageDuration
  · rw [hwalk.ranks, List.range_eq_range', hwalk.assigned.length_eq]
  · have hsum := hwalk.tiles.sum_lengths
    rw [List.map_map, sub_zero] at hsum
    calc model.totalWeightBytes ≤ model.layerCount * model.bytesPerLayer :=
          totalWeightBytes_le model hlayers
      _ = (assignments.map (fun a => a.layerCount * model.bytesPerLayer)).sum := by
          rw [← hsum, ← List.sum_map_mul_right]
          rfl

/-- A wall-powered desktop in the core, leased until second `60`. -/
def desktop (name : String) (usableBytes : ℤ) : PlannedMember where
  profile :=
    { nodeID := ⟨name⟩, connectivity := .coreDesktop, backgroundLink := .desktopUnrestricted
      memory := { totalBytes := usableBytes, usableBytes, reclaimModel := .linuxCgroupOOM }
      runtimeBackends := [.llamaCppCPU], power := { isWallPowered := true }
      trust := .trustedCore, declaresCanHostRequiredStage := true }
  state := .activeCore
  lease := some
    { nodeID := ⟨name⟩, epoch := .initial, issuedAt := 0, expiresAt := 60
      allowedStageTypes := StageType.allCases, stabilityScore := 1 }

/-- Ten layers over three desktops, the second of which has little memory. -/
def threeDesktopPlan : ShardPlan where
  epoch := .initial
  modelID := "m"
  layerCount := 10
  assignments := [⟨⟨"a"⟩, 0, 0, 6, 605⟩, ⟨⟨"b"⟩, 1, 6, 7, 105⟩, ⟨⟨"c"⟩, 2, 7, 10, 305⟩]

/-- The smallest desktop, starved by rounding, is fed one layer. -/
theorem plan_sound_three_desktops :
    Sound {} ⟨"m", 10, 1000, 5⟩ [desktop "c" 2000, desktop "a" 6000, desktop "b" 110] 0 1
      threeDesktopPlan :=
  (plan_sound {} ⟨"m", 10, 1000, 5⟩ [desktop "c" 2000, desktop "a" 6000, desktop "b" 110]
    .initial 0 1).2 (by decide +kernel) threeDesktopPlan (by decide +kernel)

/-- **Every layer is held by exactly one position of the ring.** -/
theorem Sound.host_unique {plan : ShardPlan}
    (h : Sound planner model members now estimatedStageDuration plan) {layer : ℤ}
    (hlayer : 0 ≤ layer ∧ layer < model.layerCount) :
    ∃! i : ℕ, ∃ a : ShardAssignment, plan.assignments[i]? = some a ∧
      a.startLayer ≤ layer ∧ layer < a.endLayer := by
  obtain ⟨i, ⟨range, hi, hin⟩, hunique⟩ := h.layers.existsUnique hlayer
  rw [List.getElem?_map, Option.map_eq_some_iff] at hi
  obtain ⟨a, ha, rfl⟩ := hi
  refine ⟨i, ⟨a, ha, hin⟩, ?_⟩
  rintro j ⟨b, hb, hin'⟩
  exact hunique j ⟨(b.startLayer, b.endLayer), by rw [List.getElem?_map, hb]; rfl, hin'⟩

/-! ### The order of discovery -/

/-- Sorting by node identifier forgets the order in which the members were found. -/
theorem eligibleMembers_perm (planner : StagePlanner) {members members' : List PlannedMember}
    (hperm : members.Perm members') (hdistinct : (members.map PlannedMember.nodeID).Nodup)
    (now : Date) (estimatedStageDuration : TimeInterval) :
    planner.eligibleMembers members now estimatedStageDuration
      = planner.eligibleMembers members' now estimatedStageDuration :=
  Dictionary.insertionSort_eq_of_perm PlannedMember.nodeID (hperm.filter _)
    (hdistinct.sublist (List.filter_sublist.map _))

/-- Nothing else of `plan` sees the members. -/
theorem plan_congr (planner : StagePlanner) (model : ModelPlacementSpec)
    {members members' : List PlannedMember} (epoch : Epoch) {now : Date}
    {estimatedStageDuration : TimeInterval}
    (h : planner.eligibleMembers members now estimatedStageDuration
      = planner.eligibleMembers members' now estimatedStageDuration) :
    planner.plan model members epoch now estimatedStageDuration
      = planner.plan model members' epoch now estimatedStageDuration := by
  simp only [plan, h]

/-- **Discovery order does not show.**  Two devices that know the same members, each once,
    derive the same plan or throw the same error. -/
theorem plan_order_independent (planner : StagePlanner) (model : ModelPlacementSpec)
    (members members' : List PlannedMember) (epoch : Epoch) (now : Date)
    (estimatedStageDuration : TimeInterval) (hperm : members.Perm members')
    (hdistinct : (members.map PlannedMember.nodeID).Nodup) :
    (∃ plan, planner.plan model members epoch now estimatedStageDuration = .ok plan ∧
      planner.plan model members' epoch now estimatedStageDuration = .ok plan) ∨
    (∃ error, planner.plan model members epoch now estimatedStageDuration
        = .error (.thrown error) ∧
      planner.plan model members' epoch now estimatedStageDuration
        = .error (.thrown error)) := by
  have hsame := plan_congr planner model epoch
    (eligibleMembers_perm planner hperm hdistinct now estimatedStageDuration)
  rcases plan_cases planner model members epoch now estimatedStageDuration with
    ⟨error, herror⟩ | ⟨assignments, hok, -⟩
  · exact .inr ⟨error, herror, hsame ▸ herror⟩
  · exact .inl ⟨_, hok, hsame ▸ hok⟩

/-- The three desktops, found in another order. -/
theorem plan_order_independent_three_desktops :
    let found := [desktop "c" 2000, desktop "a" 6000, desktop "b" 110]
    let found' := [desktop "a" 6000, desktop "c" 2000, desktop "b" 110]
    (∃ plan, StagePlanner.plan {} ⟨"m", 10, 1000, 5⟩ found .initial 0 1 = .ok plan ∧
      StagePlanner.plan {} ⟨"m", 10, 1000, 5⟩ found' .initial 0 1 = .ok plan) ∨
    (∃ error, StagePlanner.plan {} ⟨"m", 10, 1000, 5⟩ found .initial 0 1
        = .error (.thrown error) ∧
      StagePlanner.plan {} ⟨"m", 10, 1000, 5⟩ found' .initial 0 1 = .error (.thrown error)) :=
  plan_order_independent {} ⟨"m", 10, 1000, 5⟩ _ _ .initial 0 1
    (List.Perm.swap (desktop "a" 6000) (desktop "c" 2000) [desktop "b" 110]) (by decide +kernel)

end StagePlanner

end ShareCompute.Core
