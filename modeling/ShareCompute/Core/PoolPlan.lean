import ShareCompute.Core.EpochLaw
import ShareCompute.Core.PlanSoundness
import ShareCompute.Core.LeaseEpoch
import ShareCompute.Core.PoolSeats

namespace ShareCompute.Core

open ShareCompute.Library

/-!
# Soundness of the RAM plan

`planRAMPool` returns a plan only when its final checks pass, and `planRAMPool_sound` says
that they are enough, in every state a run can reach: also in those where the two seat
dictionaries disagree.  Two weaker facts hold of them in every run.

* `Backed` — whoever names a platform holds its seat, so no two nodes name the same one.
* `PlanningSeated` — every planning member holds some seat, whether it names it or not.

So when the assigned nodes name all four platforms, they hold all four seats, and a planning
member that holds a seat is one of them.

The pool works on its membership service through the service's own operations
(`membership_exec`), so the generation law of epochs applies to what `planRAMPool` plans for.
-/

namespace CrossPlatformPool

/-! ### The pool as a user of the membership service -/

/-- What a call of the pool calls on the membership service. -/
def calls (self : CrossPlatformPool) : Operation → List MembershipService.Operation
  | .connect drained now platform profile =>
      (match self.nodeID platform with
        | some existing =>
            if existing ≠ profile.nodeID then [.nodeAnnouncedDrain drained existing] else []
        | none => []) ++ [.nodeAppeared now profile]
  | .heartbeatSucceeded now nodeID => [.heartbeatSucceeded now nodeID]
  | .heartbeatFailed nodeID => [.heartbeatFailed nodeID]
  | .announceDrain now nodeID => [.nodeAnnouncedDrain now nodeID]
  | .tick now => [.tick now]
  | .planRAMPool _ instant _ => if self.hasAllRequiredPlatforms then [.tick instant] else []

/-- An operation of the pool is, for its membership, a few calls of the membership, made one after
    the other. -/
theorem membership_perform (self : CrossPlatformPool) (op : Operation) :
    (self.perform op).1.membership
      = MembershipService.machine.exec self.membership (self.calls op) := by
  cases op with
  | connect drained now platform profile =>
    rw [perform, membership_connect, membership_replaceOccupant, calls]
    cases self.nodeID platform with
    | none => rfl
    | some existing =>
      by_cases h : existing = profile.nodeID
      · simp only [if_neg (not_not.mpr h)]
        rfl
      · simp only [if_pos h]
        rfl
  | tick now => exact self.membership_tick now
  | planRAMPool model instant estimatedStageDuration =>
    rw [perform, planRAMPool_fst, calls]
    cases self.hasAllRequiredPlatforms with
    | false => rfl
    | true => exact self.membership_tick instant
  | _ => rfl

/-- All calls a run makes of the membership service. -/
def membershipCalls (start : CrossPlatformPool) (ops : List Operation) :
    List MembershipService.Operation :=
  machine.innerCalls calls start ops

/-- **Refinement.**  The membership service of a pool has a run of its own. -/
theorem membership_exec (start : CrossPlatformPool) (ops : List Operation) :
    (machine.exec start ops).membership
      = MembershipService.machine.exec start.membership (membershipCalls start ops) :=
  machine.inner_exec MembershipService.machine membership membership_perform start ops

/-! ### What holds of the seats in every run -/

/-- Whoever names a platform holds its seat. -/
def Backed (self : CrossPlatformPool) : Prop :=
  ∀ n P, self.platform n = some P → self.nodeID P = some n

/-- Every planning member holds a seat, on whichever platform. -/
def PlanningSeated (self : CrossPlatformPool) : Prop :=
  ∀ n ∈ self.membership.planningSet, ∃ P, self.nodeID P = some n

/-- After `connect` every seat belongs to a node that the membership has a record of. -/
theorem Backed.connect {self : CrossPlatformPool} (h : self.Backed) (drained now : Date)
    (platform : PlatformKind) (profile : CapabilityProfile) :
    (self.connect drained now platform profile).1.Backed := by
  intro n P hplatform
  rw [platform_connect] at hplatform
  rw [nodeID_connect]
  split at hplatform
  · next hseat =>
    have hnode := h n P hplatform
    split
    · next hP =>
      rw [hP, hseat] at hnode
      exact hnode
    · exact hnode
  split at hplatform
  · next hn =>
    rw [if_pos (Option.some.inj hplatform).symm, hn]
  split at hplatform
  · cases hplatform
  · next hold =>
    have hnode := h n P hplatform
    have hP : P ≠ platform := by
      -- the new seat was not this node's
      rintro rfl
      exact hold hnode
    rw [if_neg hP, hnode]

/-- A tick takes the seat of every node that it evicts, so the seats are still backed by records. -/
theorem Backed.tick {self : CrossPlatformPool} (h : self.Backed) (now : Date) :
    (self.tick now).1.Backed := by
  intro n P hplatform
  rw [platform_tick] at hplatform
  rw [nodeID_tick]
  exact ⟨h n P hplatform.1, fun hevicted => hplatform.2 hevicted.1⟩

/-- After `connect` every node that takes part in planning has a seat. -/
theorem PlanningSeated.connect {self : CrossPlatformPool} (h : self.PlanningSeated)
    (drained now : Date) (platform : PlatformKind) (profile : CapabilityProfile) :
    (self.connect drained now platform profile).1.PlanningSeated := by
  intro n hn
  by_cases hnode : n = profile.nodeID
  · exact ⟨platform, by rw [nodeID_connect, if_pos rfl, hnode]⟩
  rw [MembershipService.mem_planningSet_iff_stateOf, membership_connect,
    MembershipService.stateOf_nodeAppeared, if_neg hnode, membership_replaceOccupant] at hn
  -- the replaced occupant is draining, so another node is meant, which keeps its seat
  have hkept : n ∈ self.membership.planningSet ∧ self.nodeID platform ≠ some n := by
    rw [MembershipService.mem_planningSet_iff_stateOf]
    split at hn
    · next existing hexisting =>
      rw [hexisting]
      split at hn
      · by_cases heq : n = existing
        · rw [MembershipService.stateOf_nodeAnnouncedDrain, if_pos heq] at hn
          cases hstate : self.membership.stateOf n with
          | none => simp [hstate] at hn
          | some state => cases state <;> simp [hstate, NodeState.participatesInPlanning] at hn
        · rw [MembershipService.stateOf_nodeAnnouncedDrain, if_neg heq] at hn
          exact ⟨hn, fun hsame => heq (Option.some.inj hsame).symm⟩
      · next hsame =>
        refine ⟨hn, fun heq => hnode ?_⟩
        rw [← Option.some.inj heq]
        exact not_not.mp hsame
    · next hnone => exact ⟨hn, by simp [hnone]⟩
  obtain ⟨P, hP⟩ := h n hkept.1
  have hne : P ≠ platform := by
    rintro rfl
    exact hkept.2 hP
  exact ⟨P, by rw [nodeID_connect, if_neg hne, hP]⟩

/-- A tick leaves the seats of the nodes that stay, so everybody who takes part in planning has
    one. -/
theorem PlanningSeated.tick {self : CrossPlatformPool} (h : self.PlanningSeated) (now : Date) :
    (self.tick now).1.PlanningSeated := by
  intro n hn
  rw [MembershipService.mem_planningSet_iff_stateOf, membership_tick,
    MembershipService.stateOf_tick] at hn
  cases hleaves : self.membership.leaving now n with
  | some reason => simp [hleaves] at hn
  | none =>
    rw [hleaves] at hn
    obtain ⟨P, hP⟩ := h n (MembershipService.mem_planningSet_iff_stateOf.mpr hn)
    refine ⟨P, (self.nodeID_tick now P n).mpr ⟨hP, fun hevicted => ?_⟩⟩
    exact evicts_tick.mp hevicted.1 hleaves

/-- A call that keeps the seats and adds no planning member. -/
theorem PlanningSeated.of_subset {self self' : CrossPlatformPool} (h : self.PlanningSeated)
    (hseats : self'.nodeByPlatform = self.nodeByPlatform)
    (hset : self'.membership.planningSet ⊆ self.membership.planningSet) :
    self'.PlanningSeated := by
  intro n hn
  obtain ⟨P, hP⟩ := h n (hset hn)
  exact ⟨P, by rw [nodeID, hseats]; exact hP⟩

/-- Both facts together, as every call keeps them. -/
structure Seated (pool : CrossPlatformPool) : Prop where
  backed : pool.Backed
  planning : pool.PlanningSeated

/-- A tick keeps both halves of the invariant about the seats. -/
theorem Seated.tick {self : CrossPlatformPool} (h : self.Seated) (now : Date) :
    (self.tick now).1.Seated := ⟨h.backed.tick now, h.planning.tick now⟩

/-- **Step lemma.**  Every call keeps both facts. -/
theorem Seated.perform {self : CrossPlatformPool} (h : self.Seated) (op : Operation) :
    (self.perform op).1.Seated := by
  cases op with
  | connect drained now platform profile =>
    exact ⟨h.backed.connect drained now platform profile,
      h.planning.connect drained now platform profile⟩
  | tick now => exact h.tick now
  | planRAMPool model instant estimatedStageDuration =>
    rw [CrossPlatformPool.perform, planRAMPool_fst]
    split
    · exact h.tick instant
    · exact h
  | heartbeatSucceeded now nodeID =>
    refine ⟨h.backed, h.planning.of_subset rfl fun n hn => ?_⟩
    rw [MembershipService.mem_planningSet_iff_stateOf] at hn ⊢
    exact (self.membership.stateOf_heartbeatSucceeded now nodeID n) ▸ hn
  | heartbeatFailed nodeID =>
    refine ⟨h.backed, h.planning.of_subset rfl fun n hn => ?_⟩
    rw [MembershipService.mem_planningSet_iff_stateOf] at hn ⊢
    exact (self.membership.stateOf_heartbeatFailed nodeID n) ▸ hn
  | announceDrain now nodeID =>
    refine ⟨h.backed, h.planning.of_subset rfl fun n hn => ?_⟩
    have hstate := self.membership.stateOf_nodeAnnouncedDrain now nodeID n
    rw [MembershipService.mem_planningSet_iff_stateOf] at hn ⊢
    rw [show (self.perform (.announceDrain now nodeID)).1.membership.stateOf n = _
      from hstate] at hn
    split at hn
    · cases hold : self.membership.stateOf n with
      | none => simp [hold] at hn
      | some state => cases state <;> simp [hold, NodeState.participatesInPlanning] at hn ⊢
    · exact hn

/-- **Run lemma.**  Both facts hold after every sequence of calls. -/
theorem seated_exec (start : Date) (localNodeID : NodeID) (config : MembershipConfig)
    (planner : StagePlanner) (ops : List Operation) :
    (machine.exec (init start localNodeID config planner) ops).Seated := by
  refine machine.invariant ⟨?_, ?_⟩ (fun pool op h => h.perform op) ops
  · intro n P hplatform
    simp [CrossPlatformPool.init, platform] at hplatform
  · intro n hn
    rw [show (init start localNodeID config planner).membership.planningSet = ∅ from
      MembershipService.planningSet_init localNodeID start config .initial] at hn
    simp at hn

/-! ### What a non-nil result went through -/

/-- A deferral of the membership tick is seen by the pool. -/
theorem epochChangeDeferred_mem_observeAll {self : CrossPlatformPool} {es : List MembershipEvent}
    {d : TimeInterval} (h : .epochChangeDeferred d ∈ es) :
    .epochChangeDeferred d ∈ (self.observeAll es).2 := by
  induction es generalizing self with
  | nil => simp at h
  | cons e es ih =>
    rcases List.mem_cons.mp h with rfl | h
    · exact List.mem_append_left _ (List.mem_singleton_self _)
    · exact List.mem_append_right _ (ih h)

/-- **The way to a plan.**  A result that is not nil was assembled by `poolResult` from a plan
    for the planning members after an inner tick that deferred nothing. -/
theorem planRAMPool_some {self : CrossPlatformPool} {model : ModelPlacementSpec} {instant : Date}
    {estimatedStageDuration : TimeInterval} {result : PoolPlanResult}
    (h : (self.planRAMPool model instant estimatedStageDuration).2 = .ok (some result)) :
    (self.planRAMPool model instant estimatedStageDuration).1 = (self.tick instant).1 ∧
      self.hasAllRequiredPlatforms = true ∧
      (∀ d, .epochChangeDeferred d ∉ (self.membership.tick instant).2) ∧
      ∃ plan,
        (self.tick instant).1.planner.plan model
            (self.tick instant).1.membership.planningMembers
            (self.tick instant).1.membership.currentEpoch instant estimatedStageDuration
          = .ok plan ∧
        (self.tick instant).1.poolResult (self.tick instant).1.membership.planningMembers plan
          = some result := by
  have hall : self.hasAllRequiredPlatforms = true := by
    by_contra hmissing
    rw [Bool.not_eq_true] at hmissing
    simp [planRAMPool, hmissing] at h
  refine ⟨by rw [planRAMPool_fst, if_pos hall], hall, ?_⟩
  simp only [planRAMPool, hall, Bool.not_true, Bool.false_eq_true, if_false] at h
  split at h
  · cases h
  next hsettles =>
  -- no change of the epoch was put off
  refine ⟨fun d hd => hsettles ?_, ?_⟩
  · exact List.any_eq_true.mpr ⟨_, epochChangeDeferred_mem_observeAll hd, rfl⟩
  split at h
  · cases h
  split at h
  · cases h
  split at h
  · cases h
  · next plan hplan =>
    simp only [Except.ok.injEq] at h
    exact ⟨plan, hplan, h⟩

/-- Assembling a result keeps the plan and checks that all platforms are named. -/
theorem poolResult_some {self : CrossPlatformPool} {members : List PlannedMember}
    {plan : ShardPlan} {result : PoolPlanResult} (h : self.poolResult members plan = some result) :
    let assigned := members.filter
      (fun member => member.nodeID ∈ (plan.assignments.map ShardAssignment.nodeID).toFinset)
    result.plan = plan ∧
      result.platforms
        = (assigned.filterMap (fun member => self.platform member.nodeID)).insertionSort (· ≤ ·) ∧
      result.platforms.toFinset = PlatformKind.allRequired ∧
      result.totalUsableBytes
        = (assigned.map (fun member => member.profile.memory.usableBytes)).sum := by
  simp only [poolResult] at h
  split at h
  · next hplatforms =>
    obtain rfl := Option.some.inj h
    exact ⟨rfl, rfl, hplatforms, rfl⟩
  · cases h

/-! ### Soundness -/

/-- The memory a node offers, by its record. -/
def usableBytes (self : CrossPlatformPool) (n : NodeID) : ℤ :=
  ((self.membership.storage.get? n).map (fun record => record.profile.memory.usableBytes)).getD 0

/-- What a result promises about the pool it leaves behind; `log` are the epoch changes
    announced so far. -/
structure SoundResult (log : List MembershipService.Announcement) (pool : CrossPlatformPool)
    (result : PoolPlanResult) : Prop where
  /-- the four platforms, sorted and without repetition -/
  platforms : result.platforms = [.android, .ios, .macos, .windows]
  /-- the assigned nodes name each platform exactly once -/
  assignments : (result.plan.assignments.map (fun a => pool.platform a.nodeID)).Perm
    [some .android, some .ios, some .macos, some .windows]
  total : result.totalUsableBytes
    = (result.plan.assignments.map (fun a => pool.usableBytes a.nodeID)).sum
  epoch : result.plan.epoch = pool.membership.currentEpoch
  /-- the last announcement is that of the plan's epoch, and all assigned nodes are in it -/
  announced : ∃ a, log.getLast? = some a ∧ a.epoch = result.plan.epoch ∧
    ∀ x ∈ result.plan.assignments, x.nodeID ∈ a.members
  /-- no epoch change is pending -/
  settled : pool.membership.planningSet = pool.membership.lastEpochMembers

/-- When the assigned members name all four platforms, every planning member is assigned and
    names a platform: it holds a seat, whose platform is named by an assigned member, and only
    the holder of a seat can name it. -/
theorem Seated.named {self : CrossPlatformPool} (h : self.Seated) {assigned : NodeID → Prop}
    (hall : ∀ P, ∃ n, assigned n ∧ self.platform n = some P) {n : NodeID}
    (hn : n ∈ self.membership.planningSet) : assigned n ∧ ∃ P, self.platform n = some P := by
  obtain ⟨P, hseat⟩ := h.planning n hn
  obtain ⟨m, hassigned, hplatform⟩ := hall P
  obtain rfl : m = n := Option.some.inj ((h.backed m P hplatform).symm.trans hseat)
  exact ⟨hassigned, P, hplatform⟩

/-- Distinct nodes that name all four platforms, and nothing but platforms, name each of them
    once. -/
theorem Seated.perm_platforms {self : CrossPlatformPool} (h : self.Seated) {ns : List NodeID}
    (hns : ns.Nodup) (hnames : ∀ n ∈ ns, ∃ P, self.platform n = some P)
    (hall : ∀ P, ∃ n ∈ ns, self.platform n = some P) :
    (ns.map self.platform).Perm [some .android, some .ios, some .macos, some .windows] := by
  refine (List.perm_ext_iff_of_nodup (hns.map_on ?_) (by decide)).mpr fun p => ?_
  · intro m hm n hn heq
    obtain ⟨P, hP⟩ := hnames m hm
    -- both hold the seat they name
    exact Option.some.inj ((h.backed m P hP).symm.trans (h.backed n P (heq ▸ hP)))
  · rw [List.mem_map]
    constructor
    · rintro ⟨n, hn, rfl⟩
      obtain ⟨P, hP⟩ := hnames n hn
      rw [hP]
      cases P <;> simp
    · intro hp
      have hsome : ∃ P, p = some P := by
        simp only [List.mem_cons, List.not_mem_nil, or_false] at hp
        rcases hp with rfl | rfl | rfl | rfl <;> exact ⟨_, rfl⟩
      obtain ⟨P, rfl⟩ := hsome
      obtain ⟨n, hn, hP⟩ := hall P
      exact ⟨n, hn, hP⟩

section Result

variable {self : CrossPlatformPool} {model : ModelPlacementSpec} {instant : Date}
  {estimatedStageDuration : TimeInterval} {plan : ShardPlan} {result : PoolPlanResult}

/-- The planning members that a plan assigns, by name. -/
def assignedNames (self : CrossPlatformPool) (plan : ShardPlan) : List NodeID :=
  (self.membership.planningMembers.filter (fun member =>
    member.nodeID ∈ (plan.assignments.map ShardAssignment.nodeID).toFinset)).map
      PlannedMember.nodeID

/-- No node is named twice among those that a plan assigns layers to. -/
theorem nodup_assignedNames (self : CrossPlatformPool) (plan : ShardPlan) :
    (self.assignedNames plan).Nodup :=
  self.membership.planningMembers_sorted.nodup.sublist (List.filter_sublist.map _)

/-- The named nodes are the planning members that have an assignment in the plan. -/
theorem mem_assignedNames {n : NodeID} :
    n ∈ self.assignedNames plan ↔
      n ∈ self.membership.planningSet ∧ n ∈ plan.assignments.map ShardAssignment.nodeID := by
  simp only [assignedNames, List.mem_map, List.mem_filter, decide_eq_true_eq, List.mem_toFinset,
    MembershipService.planningSet]
  constructor
  · rintro ⟨member, ⟨hmember, hassigned⟩, rfl⟩
    exact ⟨⟨member, hmember, rfl⟩, hassigned⟩
  · rintro ⟨⟨member, hmember, rfl⟩, hassigned⟩
    exact ⟨member, ⟨hmember, hassigned⟩, rfl⟩

/-- The planner assigns each of some planning members once. -/
theorem perm_assignedNames
    (hplan : self.planner.plan model self.membership.planningMembers self.membership.currentEpoch
      instant estimatedStageDuration = .ok plan) :
    (self.assignedNames plan).Perm (plan.assignments.map ShardAssignment.nodeID) := by
  have hsound := (StagePlanner.plan_sound self.planner model self.membership.planningMembers
    self.membership.currentEpoch instant estimatedStageDuration).2
    self.membership.planningMembers_sorted.nodup plan hplan
  refine (List.perm_ext_iff_of_nodup (self.nodup_assignedNames plan)
    hsound.increasing.nodup).mpr fun n => ?_
  rw [mem_assignedNames, and_iff_right_iff_imp]
  intro hn
  obtain ⟨a, ha, rfl⟩ := List.mem_map.mp hn
  obtain ⟨-, member, hmember, hnode, -⟩ := StagePlanner.exists_member_of_assigned hplan ha
  rw [hnode]
  exact List.mem_toFinset.mpr (List.mem_map_of_mem hmember)

/-- The sum over the assigned members is the sum over the records of their names. -/
theorem sum_usableBytes (self : CrossPlatformPool) (plan : ShardPlan) :
    ((self.membership.planningMembers.filter (fun member =>
        member.nodeID ∈ (plan.assignments.map ShardAssignment.nodeID).toFinset)).map
      (fun member => member.profile.memory.usableBytes)).sum
      = ((self.assignedNames plan).map self.usableBytes).sum := by
  rw [assignedNames, List.map_map]
  refine congrArg List.sum (List.map_congr_left fun member hmember => ?_)
  obtain ⟨record, hrecord, -, heq⟩ :=
    MembershipService.mem_planningMembers.mp (List.mem_filter.mp hmember).1
  rw [Function.comp_apply, usableBytes, hrecord, heq]
  rfl

/-- What the final checks of `planRAMPool` establish in a state where the planning members are
    seated and announced. -/
theorem soundResult_of_plan {start : MembershipService}
    {log : List MembershipService.Announcement} (hseated : self.Seated)
    (hepochs : MembershipService.EpochInvariant start log self.membership)
    (hset : self.membership.planningSet = self.membership.lastEpochMembers)
    (hplan : self.planner.plan model self.membership.planningMembers self.membership.currentEpoch
      instant estimatedStageDuration = .ok plan)
    (hresult : self.poolResult self.membership.planningMembers plan = some result) :
    SoundResult log self result := by
  obtain ⟨rfl, hplatforms, hrequired, htotal⟩ := poolResult_some hresult
  have hperm := perm_assignedNames hplan
  -- the platforms of the result are those the assigned nodes name
  have hnames : (self.membership.planningMembers.filter (fun member => member.nodeID ∈
      (result.plan.assignments.map ShardAssignment.nodeID).toFinset)).filterMap
        (fun member => self.platform member.nodeID)
      = (self.assignedNames result.plan).filterMap self.platform := by
    rw [assignedNames, List.filterMap_map]
    rfl
  rw [hnames] at hplatforms
  have hall : ∀ P, ∃ n, n ∈ self.assignedNames result.plan ∧ self.platform n = some P := by
    intro P
    have hP : P ∈ result.platforms.toFinset := hrequired ▸ PlatformKind.mem_allRequired P
    rw [hplatforms, List.mem_toFinset, (List.perm_insertionSort _ _).mem_iff,
      List.mem_filterMap] at hP
    exact hP
  have hnamed : ∀ n ∈ self.assignedNames result.plan, ∃ P, self.platform n = some P :=
    fun n hn => (hseated.named hall (mem_assignedNames.mp hn).1).2
  have hfour := hseated.perm_platforms (self.nodup_assignedNames result.plan) hnamed hall
  have hassigned : ∀ x ∈ result.plan.assignments, x.nodeID ∈ self.membership.planningSet :=
    fun x hx => (mem_assignedNames.mp (hperm.mem_iff.mpr (List.mem_map_of_mem hx))).1
  obtain ⟨n, hn, -⟩ := hall .windows
  obtain ⟨a, ha, -⟩ := List.mem_map.mp (mem_assignedNames.mp hn).2
  refine ⟨?_, ?_, ?_, ?_, ?_, hset⟩
  · -- no two assigned nodes name one platform, so the sorted list has no repetition
    have hnodup : result.platforms.Nodup := by
      rw [hplatforms, (List.perm_insertionSort _ _).nodup_iff]
      refine (self.nodup_assignedNames result.plan).filterMap fun m n P hm hn => ?_
      exact Option.some.inj ((hseated.backed m P hm).symm.trans (hseated.backed n P hn))
    have hsorted : result.platforms.Pairwise (· ≤ ·) := by
      rw [hplatforms]
      exact List.pairwise_insertionSort _ _
    rw [← (List.toFinset_sort (· ≤ ·) hnodup).mpr hsorted, hrequired]
    exact PlatformKind.sort_allRequired
  · have hmap := hperm.symm.map self.platform
    rw [List.map_map] at hmap
    exact hmap.trans hfour
  · have hmap := hperm.map self.usableBytes
    rw [List.map_map] at hmap
    rw [htotal, sum_usableBytes]
    exact hmap.sum_eq
  · exact (StagePlanner.exists_member_of_assigned hplan ha).1
  · have hlast : self.membership.lastEpochMembers = MembershipService.lastAnnounced log :=
      hepochs.member_last
    have hin : ∀ x ∈ result.plan.assignments,
        x.nodeID ∈ MembershipService.lastAnnounced log :=
      fun x hx => hlast ▸ hset ▸ hassigned x hx
    cases hlog : log.getLast? with
    | none => simpa [MembershipService.lastAnnounced, hlog] using hin a ha
    | some announcement =>
      have hepoch := hepochs.epoch_last
      rw [List.getLast?_cons, List.getLast?_map, hlog] at hepoch
      refine ⟨announcement, rfl, ?_, fun x hx => ?_⟩
      · rw [(StagePlanner.exists_member_of_assigned hplan ha).1]
        exact Option.some.inj hepoch
      · simpa [MembershipService.lastAnnounced, hlog] using hin x hx

end Result

/-- **The RAM plan is sound.**  In every run of a new pool, whatever the calls and their times,
    a result of `planRAMPool` that is not nil names the four platforms, assigns each of them one
    shard, adds up the memory of the assigned nodes, and is a plan for the membership's epoch,
    whose announcement named all assigned nodes; no epoch change is pending. -/
theorem planRAMPool_sound (start : Date) (localNodeID : NodeID) (config : MembershipConfig)
    (planner : StagePlanner) (ops : List Operation) (model : ModelPlacementSpec) (instant : Date)
    (estimatedStageDuration : TimeInterval) (result : PoolPlanResult)
    (h : ((machine.exec (init start localNodeID config planner) ops).planRAMPool model instant
      estimatedStageDuration).2 = .ok (some result)) :
    SoundResult
      (MembershipService.announcements (MembershipService.machine.history
        (init start localNodeID config planner).membership
        (membershipCalls (init start localNodeID config planner)
          (ops ++ [.planRAMPool model instant estimatedStageDuration]))))
      (machine.exec (init start localNodeID config planner)
        (ops ++ [.planRAMPool model instant estimatedStageDuration])) result := by
  obtain ⟨hstate, -, hsettles, plan, hplan, hresult⟩ := planRAMPool_some h
  have hafter : machine.exec (init start localNodeID config planner)
      (ops ++ [.planRAMPool model instant estimatedStageDuration])
      = ((machine.exec (init start localNodeID config planner) ops).tick instant).1 := by
    rw [machine.exec_snoc]
    exact hstate
  -- the generation law holds of the service inside
  have hepochs := MembershipService.epochInvariant_exec _
    (MembershipService.EpochInvariant.init localNodeID start config .initial)
    (membershipCalls (init start localNodeID config planner)
      (ops ++ [.planRAMPool model instant estimatedStageDuration]))
  have hinner := membership_exec (init start localNodeID config planner)
    (ops ++ [.planRAMPool model instant estimatedStageDuration])
  refine soundResult_of_plan (seated_exec start localNodeID config planner _)
    (hinner ▸ hepochs) ?_ (hafter ▸ hplan) (hafter ▸ hresult)
  rw [hafter, membership_tick]
  exact MembershipService.tick_settles _ instant hsettles

/-- Eight layers over the four simulated peers, planned in the epoch their joins begin. -/
def fourPeerResult : PoolPlanResult where
  platforms := [.android, .ios, .macos, .windows]
  plan :=
    { epoch := ⟨1⟩
      modelID := "m"
      layerCount := 8
      assignments := [⟨⟨"sim-android"⟩, 0, 0, 1, 144⟩, ⟨⟨"sim-ios"⟩, 1, 1, 2, 144⟩,
        ⟨⟨"sim-macos"⟩, 2, 2, 6, 528⟩, ⟨⟨"sim-windows"⟩, 3, 6, 8, 272⟩] }
  totalUsableBytes := 62 * 1024 * 1024 * 1024

/-- For the pool with all four platforms connected, what is planned in the end is sound. -/
theorem planRAMPool_sound_four_peers :
    SoundResult
      (MembershipService.announcements (MembershipService.machine.history (init 0).membership
        (membershipCalls (init 0)
          (connectAllSimulatedPlatforms 0 ++ [.planRAMPool ⟨"m", 8, 1024, 16⟩ 5 10]))))
      (machine.exec (init 0)
        (connectAllSimulatedPlatforms 0 ++ [.planRAMPool ⟨"m", 8, 1024, 16⟩ 5 10]))
      fourPeerResult :=
  planRAMPool_sound 0 ⟨"pool-hub"⟩ {} {} (connectAllSimulatedPlatforms 0) ⟨"m", 8, 1024, 16⟩ 5 10
    fourPeerResult (by decide +kernel)

end CrossPlatformPool

end ShareCompute.Core
