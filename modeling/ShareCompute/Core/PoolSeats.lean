import ShareCompute.Core.CrossPlatformPool

namespace ShareCompute.Core

open ShareCompute.Library

/-!
# Who sits where

What each operation of the pool does to the two seat dictionaries and to the membership
service (`platform_connect`, `nodeID_connect`, …), and the two laws about `connect`.

* `seats_inverse_iff` — the dictionaries stay inverse to each other along a run exactly when
  nobody connects on a platform while seated on another one (`ConnectsUnseated`).  `connect`
  clears the seat of the occupant it replaces, but not an older seat of the node it seats.
* `peerConnected_planning_iff` — a node reported as connected is a planning member exactly
  when it was not draining before the call (`ConnectsUndrained`): a draining node that
  appears again is refreshed and keeps draining.
-/

namespace CrossPlatformPool

/-! ### The membership service inside -/

/-- To replace the occupant of a platform is, for the membership, that the occupant announces its
    drain. -/
theorem membership_replaceOccupant (self : CrossPlatformPool) (now : Date)
    (platform : PlatformKind) (nodeID : NodeID) :
    (self.replaceOccupant now platform nodeID).membership =
      match self.nodeID platform with
      | some existing =>
          if existing ≠ nodeID then (self.membership.nodeAnnouncedDrain now existing).1
          else self.membership
      | none => self.membership := by
  unfold replaceOccupant
  cases self.nodeID platform with
  | none => rfl
  | some existing => by_cases h : existing = nodeID <;> simp [h]

/-- To connect is, for the membership, that the node appears, after a drain of the occupant it
    replaces. -/
theorem membership_connect (self : CrossPlatformPool) (drained now : Date)
    (platform : PlatformKind) (profile : CapabilityProfile) :
    (self.connect drained now platform profile).1.membership =
      ((self.replaceOccupant drained platform profile.nodeID).membership.nodeAppeared now
        profile).1 := by
  simp only [connect, takeSeat]
  split <;> rfl

/-- Looking at an event of the membership does not change the membership. -/
@[simp] theorem membership_observe (self : CrossPlatformPool) (e : MembershipEvent) :
    (self.observe e).1.membership = self.membership := by
  cases e with
  | nodeEvicted nodeID reason =>
    simp only [observe]
    split <;> rfl
  | _ => rfl

/-- Looking at all events of a tick does not change the membership. -/
@[simp] theorem membership_observeAll (self : CrossPlatformPool) (es : List MembershipEvent) :
    (self.observeAll es).1.membership = self.membership := by
  induction es generalizing self with
  | nil => rfl
  | cons e es ih => rw [observeAll, ih, membership_observe]

/-- A tick of the pool is a tick of its membership. -/
@[simp] theorem membership_tick (self : CrossPlatformPool) (now : Date) :
    (self.tick now).1.membership = (self.membership.tick now).1 :=
  membership_observeAll _ _

/-! ### The seats after `connect` -/

/-- Replacing the occupant takes the seat from the old occupant, unless that is the node that
    connects. -/
theorem platform_replaceOccupant (self : CrossPlatformPool) (now : Date)
    (platform : PlatformKind) (nodeID k : NodeID) :
    (self.replaceOccupant now platform nodeID).platform k =
      if self.nodeID platform = some k ∧ k ≠ nodeID then none else self.platform k := by
  unfold replaceOccupant
  cases hseat : self.nodeID platform with
  | none => simp
  | some existing =>
    by_cases hexisting : existing = nodeID
    · subst hexisting
      by_cases hk : existing = k <;> simp [hk]
    · simp only [ne_eq, hexisting, not_false_eq_true, if_true, CrossPlatformPool.platform]
      by_cases hk : k = existing
      · subst hk
        simp [hexisting]
      · simp [AList.lookup_erase_ne hk, Ne.symm hk]

/-- Replacing the occupant leaves the nodes under their platforms; `connect` overwrites the one of
    its own. -/
@[simp] theorem nodeID_replaceOccupant (self : CrossPlatformPool) (now : Date)
    (platform : PlatformKind) (nodeID : NodeID) (P : PlatformKind) :
    (self.replaceOccupant now platform nodeID).nodeID P = self.nodeID P := by
  unfold replaceOccupant
  split
  · rfl
  · split <;> rfl

/-- `connect` seats the node and leaves the other seats alone. -/
theorem nodeID_connect (self : CrossPlatformPool) (drained now : Date) (platform : PlatformKind)
    (profile : CapabilityProfile) (P : PlatformKind) :
    (self.connect drained now platform profile).1.nodeID P =
      if P = platform then some profile.nodeID else self.nodeID P := by
  simp only [connect, takeSeat, nodeID_replaceOccupant]
  by_cases hseat : self.nodeID platform = some profile.nodeID
  · rw [if_pos hseat]
    show (self.replaceOccupant drained platform profile.nodeID).nodeID P = _
    by_cases hP : P = platform
    · rw [nodeID_replaceOccupant, if_pos hP, hP, hseat]
    · rw [nodeID_replaceOccupant, if_neg hP]
  · rw [if_neg hseat]
    show AList.lookup P
      ((self.replaceOccupant drained platform profile.nodeID).nodeByPlatform.insert
        platform profile.nodeID) = _
    by_cases hP : P = platform
    · rw [if_pos hP, hP, AList.lookup_insert]
    · rw [if_neg hP, AList.lookup_insert_ne hP]
      exact nodeID_replaceOccupant self drained platform profile.nodeID P

/-- `connect` names the platform of the node it seats, unless the node has the seat already,
    and forgets that of the occupant it replaces. -/
theorem platform_connect (self : CrossPlatformPool) (drained now : Date) (platform : PlatformKind)
    (profile : CapabilityProfile) (k : NodeID) :
    (self.connect drained now platform profile).1.platform k =
      if self.nodeID platform = some profile.nodeID then self.platform k
      else if k = profile.nodeID then some platform
      else if self.nodeID platform = some k then none
      else self.platform k := by
  simp only [connect, takeSeat, nodeID_replaceOccupant]
  by_cases hseat : self.nodeID platform = some profile.nodeID
  · rw [if_pos hseat, if_pos hseat]
    show (self.replaceOccupant drained platform profile.nodeID).platform k = _
    rw [platform_replaceOccupant, if_neg]
    rintro ⟨hk, hne⟩
    exact hne (Option.some.inj (hk.symm.trans hseat))
  · rw [if_neg hseat, if_neg hseat]
    show AList.lookup k
      ((self.replaceOccupant drained platform profile.nodeID).platformByNode.insert
        profile.nodeID platform) = _
    by_cases hk : k = profile.nodeID
    · rw [if_pos hk, hk, AList.lookup_insert]
    · rw [if_neg hk, AList.lookup_insert_ne hk]
      refine (platform_replaceOccupant self drained platform profile.nodeID k).trans ?_
      simp [hk]

/-! ### The seats after a tick -/

/-- The events evict the node `k`, for whatever reason. -/
def Evicts (es : List MembershipEvent) (k : NodeID) : Prop := ∃ reason, .nodeEvicted k reason ∈ es

/-- No event evicts nobody, where the induction over events begins. -/
@[simp] theorem evicts_nil (k : NodeID) : ¬ Evicts [] k := by simp [Evicts]

/-- An eviction at the head concerns the node it names. -/
@[simp] theorem evicts_nodeEvicted_cons (n : NodeID) (reason : EvictionReason)
    (es : List MembershipEvent) (k : NodeID) :
    Evicts (.nodeEvicted n reason :: es) k ↔ n = k ∨ Evicts es k := by
  simp only [Evicts, List.mem_cons, MembershipEvent.nodeEvicted.injEq, exists_or]
  constructor
  · rintro (⟨_, rfl, rfl⟩ | h)
    · exact .inl rfl
    · exact .inr h
  · rintro (rfl | h)
    · exact .inl ⟨reason, rfl, rfl⟩
    · exact .inr h

/-- The other events evict nobody and leave the seats alone. -/
theorem observe_other (self : CrossPlatformPool) {e : MembershipEvent} (es : List MembershipEvent)
    (he : ∀ n reason, e ≠ .nodeEvicted n reason) :
    (self.observe e).1 = self ∧ ∀ k, Evicts (e :: es) k ↔ Evicts es k := by
  constructor
  · cases e with
    | nodeEvicted n reason => exact absurd rfl (he n reason)
    | _ => rfl
  · intro k
    simp only [Evicts, List.mem_cons]
    constructor
    · rintro ⟨reason, heq | h⟩
      · exact absurd heq.symm (he k reason)
      · exact ⟨reason, h⟩
    · rintro ⟨reason, h⟩
      exact ⟨reason, .inr h⟩

/-- After an eviction the evicted node has no platform, and the others keep theirs. -/
theorem platform_observe_nodeEvicted (self : CrossPlatformPool) (n : NodeID)
    (reason : EvictionReason) (k : NodeID) :
    (self.observe (.nodeEvicted n reason)).1.platform k
      = if n = k then none else self.platform k := by
  simp only [observe]
  cases hplatform : self.platform n with
  | none =>
    by_cases hk : n = k
    · rw [if_pos hk, ← hk, hplatform]
    · rw [if_neg hk]
  | some platform =>
    show AList.lookup k (self.platformByNode.erase n) = _
    by_cases hk : n = k
    · rw [if_pos hk, hk, AList.lookup_erase]
    · rw [if_neg hk, AList.lookup_erase_ne (Ne.symm hk)]
      rfl

/-- After an eviction the seat is empty if the evicted node was in it. -/
theorem nodeID_observe_nodeEvicted (self : CrossPlatformPool) (n : NodeID)
    (reason : EvictionReason) (P : PlatformKind) :
    (self.observe (.nodeEvicted n reason)).1.nodeID P
      = if self.platform n = some P ∧ self.nodeID P = some n then none else self.nodeID P := by
  simp only [observe]
  cases hplatform : self.platform n with
  | none => simp
  | some platform =>
    show AList.lookup P (if self.nodeID platform = some n then
      self.nodeByPlatform.erase platform else self.nodeByPlatform) = _
    by_cases hP : platform = P
    · subst hP
      by_cases hseat : self.nodeID platform = some n
      · rw [if_pos hseat, if_pos ⟨rfl, hseat⟩, AList.lookup_erase]
      · rw [if_neg hseat, if_neg (fun h => hseat h.2)]
        rfl
    · have hother : ¬ (some platform = some P ∧ self.nodeID P = some n) :=
        fun h => hP (Option.some.inj h.1)
      rw [if_neg hother]
      split
      · exact AList.lookup_erase_ne (Ne.symm hP)
      · rfl

/-- An evicted node forgets its platform, and no other node does. -/
theorem platform_observeAll (self : CrossPlatformPool) (es : List MembershipEvent) (k : NodeID)
    (P : PlatformKind) :
    (self.observeAll es).1.platform k = some P ↔ self.platform k = some P ∧ ¬ Evicts es k := by
  induction es generalizing self with
  | nil => simp [observeAll]
  | cons e es ih =>
    rw [observeAll, ih]
    by_cases he : ∃ n reason, e = .nodeEvicted n reason
    · obtain ⟨n, reason, rfl⟩ := he
      rw [platform_observe_nodeEvicted, evicts_nodeEvicted_cons]
      by_cases hk : n = k <;> simp [hk]
    · obtain ⟨hself, hevicts⟩ := self.observe_other es fun n reason h => he ⟨n, reason, h⟩
      rw [hself, hevicts]

/-- A seat is given up when its occupant is evicted and names the seat as its platform. -/
theorem nodeID_observeAll (self : CrossPlatformPool) (es : List MembershipEvent)
    (P : PlatformKind) (k : NodeID) :
    (self.observeAll es).1.nodeID P = some k ↔
      self.nodeID P = some k ∧ ¬ (Evicts es k ∧ self.platform k = some P) := by
  induction es generalizing self with
  | nil => simp [observeAll]
  | cons e es ih =>
    rw [observeAll, ih]
    by_cases he : ∃ n reason, e = .nodeEvicted n reason
    · obtain ⟨n, reason, rfl⟩ := he
      rw [platform_observe_nodeEvicted, nodeID_observe_nodeEvicted, evicts_nodeEvicted_cons]
      by_cases hk : n = k
      · subst hk
        by_cases hplatform : self.platform n = some P
        · simp +contextual [hplatform]
        · simp [hplatform]
      · by_cases hgiven : self.platform n = some P ∧ self.nodeID P = some n
        · -- the seat is given up by `n`, so it was not `k`'s
          simp [hgiven, hk]
        · simp [hgiven, hk]
    · obtain ⟨hself, hevicts⟩ := self.observe_other es fun n reason h => he ⟨n, reason, h⟩
      rw [hself, hevicts]

/-- Over a tick a node keeps its platform exactly if the tick does not evict it. -/
theorem platform_tick (self : CrossPlatformPool) (now : Date) (k : NodeID) (P : PlatformKind) :
    (self.tick now).1.platform k = some P ↔
      self.platform k = some P ∧ ¬ Evicts (self.membership.tick now).2 k :=
  platform_observeAll _ _ k P

/-- Over a tick a seat keeps its node exactly if the tick does not evict it from there. -/
theorem nodeID_tick (self : CrossPlatformPool) (now : Date) (P : PlatformKind) (k : NodeID) :
    (self.tick now).1.nodeID P = some k ↔ self.nodeID P = some k ∧
      ¬ (Evicts (self.membership.tick now).2 k ∧ self.platform k = some P) :=
  nodeID_observeAll _ _ P k

/-- Whatever becomes of the plan, `planRAMPool` leaves the state its inner tick left. -/
theorem planRAMPool_fst (self : CrossPlatformPool) (model : ModelPlacementSpec) (instant : Date)
    (estimatedStageDuration : TimeInterval) :
    (self.planRAMPool model instant estimatedStageDuration).1 =
      if self.hasAllRequiredPlatforms then (self.tick instant).1 else self := by
  unfold planRAMPool
  cases self.hasAllRequiredPlatforms with
  | false => rfl
  | true =>
    simp only [Bool.not_true, Bool.false_eq_true, if_false, if_true]
    split
    · rfl
    split
    · rfl
    split
    · rfl
    split <;> rfl

/-- The connected platforms are those in whose seat a node is. -/
theorem mem_connectedPlatforms {self : CrossPlatformPool} {P : PlatformKind} :
    P ∈ self.connectedPlatforms ↔ ∃ n, self.nodeID P = some n := by
  rw [connectedPlatforms, List.mem_toFinset, ← AList.mem_keys, ← AList.lookup_isSome,
    Option.isSome_iff_exists]
  rfl

/-- All required platforms are there when every seat is taken. -/
theorem hasAllRequiredPlatforms_iff {self : CrossPlatformPool} :
    self.hasAllRequiredPlatforms = true ↔ ∀ P, ∃ n, self.nodeID P = some n := by
  rw [hasAllRequiredPlatforms, decide_eq_true_iff, missingPlatforms,
    Finset.sdiff_eq_empty_iff_subset]
  simp only [Finset.subset_iff, PlatformKind.mem_allRequired, forall_true_left,
    mem_connectedPlatforms]

/-! ### The dictionaries as inverses -/

/-- `nodeID(for:)` and `platform(for:)` are inverse to each other. -/
def SeatsInverse (self : CrossPlatformPool) : Prop :=
  ∀ P n, self.nodeID P = some n ↔ self.platform n = some P

/-- If the call is a `connect`, its node is not seated on another platform. -/
def ConnectsUnseated (self : CrossPlatformPool) : Operation → Prop
  | .connect _ _ platform profile => ∀ P ∈ self.platform profile.nodeID, P = platform
  | _ => True

/-- In a new pool both dictionaries are empty, so they are inverse to each other. -/
theorem seatsInverse_init (now : Date) (localNodeID : NodeID) (config : MembershipConfig)
    (planner : StagePlanner) : (init now localNodeID config planner).SeatsInverse := by
  intro P n
  simp [CrossPlatformPool.init, nodeID, platform]

/-- A tick takes an evicted node out of both dictionaries, so they stay inverse. -/
theorem SeatsInverse.tick {self : CrossPlatformPool} (h : self.SeatsInverse) (now : Date) :
    (self.tick now).1.SeatsInverse := by
  intro P n
  rw [nodeID_tick, platform_tick, h P n]
  -- an evicted occupant named the seat it leaves
  constructor
  · rintro ⟨hplatform, hstays⟩
    exact ⟨hplatform, fun hevicted => hstays ⟨hevicted, hplatform⟩⟩
  · rintro ⟨hplatform, hstays⟩
    exact ⟨hplatform, fun hevicted => hstays hevicted.1⟩

/-- `connect` keeps the dictionaries inverse exactly when its node has no other seat. -/
theorem SeatsInverse.connect_iff {self : CrossPlatformPool} (h : self.SeatsInverse)
    (drained now : Date) (platform : PlatformKind) (profile : CapabilityProfile) :
    (self.connect drained now platform profile).1.SeatsInverse ↔
      self.ConnectsUnseated (.connect drained now platform profile) := by
  have hnode := self.nodeID_connect drained now platform profile
  have hplatform := self.platform_connect drained now platform profile
  constructor
  · intro hafter Q hQ
    by_contra hne
    -- the node keeps its seat on `Q` and is named by `platform` now
    have hseatQ : self.nodeID Q = some profile.nodeID := (h Q _).mpr hQ
    have hfree : self.nodeID platform ≠ some profile.nodeID := fun hseat =>
      hne (Option.some.inj (hQ.symm.trans ((h platform _).mp hseat)))
    have hkept := (hafter Q profile.nodeID).mp (by rw [hnode, if_neg hne, hseatQ])
    rw [hplatform, if_neg hfree, if_pos rfl] at hkept
    exact hne (Option.some.inj hkept).symm
  · intro hfree P n
    rw [hnode, hplatform]
    by_cases hseat : self.nodeID platform = some profile.nodeID
    · rw [if_pos hseat, ← h P n]
      by_cases hP : P = platform
      · rw [if_pos hP, hP, hseat]
      · rw [if_neg hP]
    · rw [if_neg hseat]
      by_cases hn : n = profile.nodeID
      · subst hn
        rw [if_pos rfl]
        by_cases hP : P = platform
        · simp [hP]
        · rw [if_neg hP]
          -- the node sat nowhere else
          refine iff_of_false (fun hold => hP (hfree P ((h P _).mp hold))) ?_
          exact fun heq => hP (Option.some.inj heq).symm
      · rw [if_neg hn]
        by_cases hP : P = platform
        · subst hP
          rw [if_pos rfl]
          refine iff_of_false (fun heq => hn (Option.some.inj heq).symm) ?_
          by_cases hold : self.nodeID P = some n
          · simp [hold]
          · rw [if_neg hold, ← h P n]
            exact hold
        · rw [if_neg hP]
          by_cases hold : self.nodeID platform = some n
          · rw [if_pos hold]
            refine iff_of_false (fun hP' => hP ?_) (by simp)
            exact Option.some.inj (((h P n).mp hP').symm.trans ((h platform n).mp hold))
          · rw [if_neg hold]
            exact h P n

/-- **Step lemma.**  From inverse dictionaries, a call leaves inverse dictionaries exactly when
    it seats nobody twice. -/
theorem SeatsInverse.perform_iff {self : CrossPlatformPool} (h : self.SeatsInverse)
    (op : Operation) : (self.perform op).1.SeatsInverse ↔ self.ConnectsUnseated op := by
  cases op with
  | connect drained now platform profile => exact h.connect_iff drained now platform profile
  | tick now => exact iff_of_true (h.tick now) trivial
  | planRAMPool model instant estimatedStageDuration =>
    refine iff_of_true ?_ trivial
    rw [perform, planRAMPool_fst]
    split
    · exact h.tick instant
    · exact h
  | heartbeatSucceeded now nodeID => exact iff_of_true h trivial
  | heartbeatFailed nodeID => exact iff_of_true h trivial
  | announceDrain now nodeID => exact iff_of_true h trivial

/-! ### Who occupies a seat -/

end CrossPlatformPool

/-- The service knows the node, and it has not been evicted since it last joined. -/
def MembershipService.Present (self : MembershipService) (k : NodeID) : Prop :=
  ∃ state, self.stateOf k = some state ∧ state ≠ .suspended

namespace MembershipService.Present

variable {self : MembershipService} {k : NodeID}

/-- A node that has appeared is present. -/
theorem of_nodeAppeared (self : MembershipService) (now : Date) (profile : CapabilityProfile) :
    (self.nodeAppeared now profile).1.Present profile.nodeID := by
  have hinitial := NodeStateMachine.initialState_participates profile
  refine ⟨_, by rw [stateOf_nodeAppeared, if_pos rfl], ?_⟩
  have hne : NodeStateMachine.initialState profile ≠ .suspended :=
    fun heq => by simp [heq] at hinitial
  cases hstate : self.stateOf profile.nodeID with
  | none => exact hne
  | some state =>
    cases state with
    | suspended => exact hne
    | _ => exact NodeState.noConfusion

/-- A present node stays present when a node appears, be it itself or another one. -/
theorem nodeAppeared (h : self.Present k) (now : Date) (profile : CapabilityProfile) :
    (self.nodeAppeared now profile).1.Present k := by
  by_cases hk : k = profile.nodeID
  · exact hk ▸ of_nodeAppeared self now profile
  · obtain ⟨state, hstate, hne⟩ := h
    exact ⟨state, by rw [stateOf_nodeAppeared, if_neg hk, hstate], hne⟩

/-- A node that drains is still present; it only takes no more work. -/
theorem nodeAnnouncedDrain (h : self.Present k) (now : Date) (nodeID : NodeID) :
    (self.nodeAnnouncedDrain now nodeID).1.Present k := by
  obtain ⟨state, hstate, hne⟩ := h
  by_cases hk : k = nodeID
  · refine ⟨_, by rw [stateOf_nodeAnnouncedDrain, if_pos hk, hstate, Option.map_some], ?_⟩
    split
    · exact NodeState.noConfusion
    · exact hne
  · exact ⟨state, by rw [stateOf_nodeAnnouncedDrain, if_neg hk, hstate], hne⟩

/-- A present node stays present over a tick that has no reason to evict it. -/
theorem tick (h : self.Present k) {now : Date} (hstays : self.leaving now k = none) :
    (self.tick now).1.Present k := by
  obtain ⟨state, hstate, hne⟩ := h
  exact ⟨state, by rw [stateOf_tick, hstays]; exact hstate, hne⟩

end MembershipService.Present

namespace CrossPlatformPool

/-- A tick evicts exactly the nodes that are leaving at its time. -/
theorem evicts_tick {self : MembershipService} {now : Date} {k : NodeID} :
    Evicts (self.tick now).2 k ↔ self.leaving now k ≠ none := by
  simp only [Evicts, MembershipService.nodeEvicted_mem_tick, ne_eq, ← Option.isSome_iff_exists,
    Option.isSome_iff_ne_none]

/-- No seat is held by a node that was evicted and has not come back. -/
def Occupied (self : CrossPlatformPool) : Prop :=
  ∀ P n, self.nodeID P = some n → self.membership.Present n

/-- After `connect` every seat is still taken by a node that the membership knows. -/
theorem Occupied.connect {self : CrossPlatformPool} (h : self.Occupied) (drained now : Date)
    (platform : PlatformKind) (profile : CapabilityProfile) :
    (self.connect drained now platform profile).1.Occupied := by
  intro P n hseat
  rw [nodeID_connect] at hseat
  rw [membership_connect]
  split at hseat
  · obtain rfl := Option.some.inj hseat
    exact .of_nodeAppeared _ now profile
  · have hpresent := h P n hseat
    refine MembershipService.Present.nodeAppeared ?_ now profile
    rw [membership_replaceOccupant]
    split
    · split
      · exact hpresent.nodeAnnouncedDrain drained _
      · exact hpresent
    · exact hpresent

/-- A tick that evicts a node empties its seat too, so the seats stay occupied by known nodes. -/
theorem Occupied.tick {self : CrossPlatformPool} (h : self.Occupied) (hinverse : self.SeatsInverse)
    (now : Date) : (self.tick now).1.Occupied := by
  intro P n hseat
  rw [nodeID_tick] at hseat
  rw [membership_tick]
  refine (h P n hseat.1).tick ?_
  by_contra hleaves
  exact hseat.2 ⟨evicts_tick.mpr hleaves, (hinverse P n).mp hseat.1⟩

/-- Every operation of the pool keeps the seats occupied by known nodes. -/
theorem Occupied.perform {self : CrossPlatformPool} (h : self.Occupied)
    (hinverse : self.SeatsInverse) (op : Operation) : (self.perform op).1.Occupied := by
  cases op with
  | connect drained now platform profile => exact h.connect drained now platform profile
  | tick now => exact h.tick hinverse now
  | planRAMPool model instant estimatedStageDuration =>
    rw [CrossPlatformPool.perform, planRAMPool_fst]
    split
    · exact h.tick hinverse instant
    · exact h
  | heartbeatSucceeded now nodeID =>
    intro P n hseat
    obtain ⟨state, hstate, hne⟩ := h P n hseat
    exact ⟨state, (MembershipService.stateOf_heartbeatSucceeded _ now nodeID n).trans hstate, hne⟩
  | heartbeatFailed nodeID =>
    intro P n hseat
    obtain ⟨state, hstate, hne⟩ := h P n hseat
    exact ⟨state, (MembershipService.stateOf_heartbeatFailed _ nodeID n).trans hstate, hne⟩
  | announceDrain now nodeID =>
    intro P n hseat
    exact (h P n hseat).nodeAnnouncedDrain now nodeID

/-! ### The seat law -/

/-- What the two dictionaries promise together, between any two calls. -/
structure SeatLaw (pool : CrossPlatformPool) : Prop where
  inverse : ∀ P n, pool.nodeID P = some n ↔ pool.platform n = some P
  /-- a complete roster is four nodes, one for each platform -/
  distinct : pool.hasAllRequiredPlatforms = true →
    ∃ node : PlatformKind → NodeID, node.Injective ∧ ∀ P, pool.nodeID P = some (node P)
  /-- no tick leaves a seat to a node it evicts … -/
  evicted : ∀ now n, Evicts (pool.membership.tick now).2 n →
    ∀ P, (pool.tick now).1.nodeID P ≠ some n
  /-- … and nobody sits in a seat between an eviction and the next time it joins -/
  occupied : pool.Occupied

/-- From the two invariants the law of the seats follows. -/
theorem SeatLaw.of_inverse {self : CrossPlatformPool} (h : self.SeatsInverse)
    (hoccupied : self.Occupied) : self.SeatLaw where
  inverse := h
  distinct := by
    intro hall
    choose node hnode using hasAllRequiredPlatforms_iff.mp hall
    refine ⟨node, fun P Q heq => ?_, hnode⟩
    have hP := (h P _).mp (hnode P)
    rw [heq, (h Q _).mp (hnode Q)] at hP
    exact (Option.some.inj hP).symm
  evicted := by
    intro now n hevicted P hseat
    rw [nodeID_tick] at hseat
    exact hseat.2 ⟨hevicted, (h P n).mp hseat.1⟩
  occupied := hoccupied

/-- **Seats.**  Along every run of a new pool, the seat law holds after every operation exactly
    when every `connect` finds its node without a seat on another platform. -/
theorem seats_inverse_iff (start : Date) (localNodeID : NodeID) (config : MembershipConfig)
    (planner : StagePlanner) (ops : List Operation) :
    (∀ pre post, ops = pre ++ post →
      (machine.exec (init start localNodeID config planner) pre).SeatLaw) ↔
    ∀ e ∈ machine.history (init start localNodeID config planner) ops,
      e.before.ConnectsUnseated e.call := by
  have hinit := seatsInverse_init start localNodeID config planner
  have hempty : (init start localNodeID config planner).Occupied := by
    intro P n hseat
    simp [CrossPlatformPool.init, nodeID] at hseat
  generalize init start localNodeID config planner = pool at hinit hempty ⊢
  constructor
  · intro h e he
    obtain ⟨pre, op, post, rfl, rfl⟩ := machine.mem_history.mp he
    have hbefore := (h pre (op :: post) rfl).inverse
    have hafter := (h (pre ++ [op]) post (by simp)).inverse
    rw [machine.exec_snoc] at hafter
    exact (SeatsInverse.perform_iff hbefore op).mp hafter
  · rintro h pre post rfl
    have hrun := machine.run_induction
      (P := fun e => e.before.ConnectsUnseated e.call)
      (I := fun _ pool => pool.SeatsInverse ∧ pool.Occupied) ⟨hinit, hempty⟩
      (fun _ pool op ih hfree => ⟨(ih.1.perform_iff op).mpr hfree, ih.2.perform ih.1 op⟩) pre
      (fun e he => h e (by rw [machine.history_append]; exact List.mem_append_left _ he))
    exact .of_inverse hrun.1 hrun.2

/-- One laptop connects on every platform in turn. -/
def wanderingLaptop : List Operation :=
  [.connect 0 0 .windows (SimulatedPlatformPeer.profile .windows (some "laptop")),
   .connect 1 1 .macos (SimulatedPlatformPeer.profile .macos (some "laptop")),
   .connect 2 2 .ios (SimulatedPlatformPeer.profile .ios (some "laptop")),
   .connect 3 3 .android (SimulatedPlatformPeer.profile .android (some "laptop"))]

/-- The laptop keeps the seats it has left: one node makes the roster complete, and the
    dictionaries disagree. -/
theorem ghost_seats :
    ¬ ∀ (start : Date) (localNodeID : NodeID) (config : MembershipConfig)
      (planner : StagePlanner) (ops : List Operation),
      (machine.exec (init start localNodeID config planner) ops).SeatLaw := by
  intro h
  obtain ⟨node, hinjective, hnode⟩ := (h 0 ⟨"pool-hub"⟩ {} {} wanderingLaptop).distinct
    (by decide +kernel)
  have hseat : ∀ P, (machine.exec (init 0) wanderingLaptop).nodeID P = some ⟨"laptop"⟩ := by
    intro P
    cases P <;> decide +kernel
  have hsame : node .windows = node .macos :=
    Option.some.inj (((hnode _).symm.trans (hseat .windows)).trans
      ((hseat .macos).symm.trans (hnode _)))
  exact absurd (hinjective hsame) (by decide)

/-- The seats left behind survive the eviction of the laptop. -/
example : (machine.exec (init 0) (wanderingLaptop ++ [.tick 1000])).nodeID .windows
    = some ⟨"laptop"⟩ := by decide +kernel

/-! ### Who is reported as connected -/

/-- If the call is a `connect`, its node holds the seat already or is not draining. -/
def ConnectsUndrained (self : CrossPlatformPool) : Operation → Prop
  | .connect _ _ platform profile =>
      self.nodeID platform = some profile.nodeID ∨
        self.membership.stateOf profile.nodeID ≠ some .draining
  | _ => True

/-- Whoever a call reports as connected is a planning member afterwards and holds the seat in
    both directions. -/
def ConnectedPlans (e : Entry CrossPlatformPool Operation (List PoolConnectionEvent)) : Prop :=
  ∀ P n, .peerConnected P n ∈ e.returned →
    n ∈ e.after.membership.planningMembers.map PlannedMember.nodeID ∧
      e.after.nodeID P = some n ∧ e.after.platform n = some P

/-- `connect` reports the node as present or as connected: after `nodeAppeared` there always is
    a record, so the report never fails to come. -/
theorem connect_events (self : CrossPlatformPool) (drained now : Date) (platform : PlatformKind)
    (profile : CapabilityProfile) :
    (self.connect drained now platform profile).2 =
      (if self.nodeID platform = some profile.nodeID then
        [.peerAlreadyPresent platform profile.nodeID]
      else [.peerConnected platform profile.nodeID]) ++
      if (self.connect drained now platform profile).1.hasAllRequiredPlatforms then
        [.allRequiredPlatformsConnected
          (self.connect drained now platform profile).1.connectedPlatforms]
      else [] := by
  simp only [connect, takeSeat, nodeID_replaceOccupant]
  split
  · rfl
  · have hrecord : (((self.replaceOccupant drained platform profile.nodeID).membership.nodeAppeared
        now profile).1.storage.get? profile.nodeID).isSome := by
      rw [MembershipService.get?_nodeAppeared, if_pos rfl]
      rfl
    simp only [hrecord, Bool.or_true, if_true]

/-- A tick reports evictions and what became of the epoch. -/
theorem observeAll_events {self : CrossPlatformPool} {es : List MembershipEvent}
    {e : PoolConnectionEvent} (h : e ∈ (self.observeAll es).2) :
    (∃ P n reason, e = .peerEvicted P n reason) ∨ (∃ epoch members, e = .epochChanged epoch members)
      ∨ ∃ d, e = .epochChangeDeferred d := by
  induction es generalizing self with
  | nil => simp [observeAll] at h
  | cons m es ih =>
    rcases List.mem_append.mp h with h | h
    · cases m with
      | nodeEvicted n reason =>
        simp only [observe] at h
        split at h
        · exact .inl ⟨_, n, reason, List.mem_singleton.mp h⟩
        · simp at h
      | epochChanged epoch members => exact .inr (.inl ⟨epoch, members, List.mem_singleton.mp h⟩)
      | epochChangeDeferred d => exact .inr (.inr ⟨d, List.mem_singleton.mp h⟩)
      | _ => simp [observe] at h
    · exact ih h

/-- Only `connect` reports anybody as connected, and it does when the seat was not the node's
    already. -/
theorem peerConnected_cases {self : CrossPlatformPool} {op : Operation} {P : PlatformKind}
    {n : NodeID} (h : .peerConnected P n ∈ (self.perform op).2) :
    ∃ drained now profile, op = .connect drained now P profile ∧ n = profile.nodeID ∧
      self.nodeID P ≠ some profile.nodeID := by
  cases op with
  | connect drained now platform profile =>
    rw [perform, connect_events] at h
    rcases List.mem_append.mp h with h | h
    · split at h
      · simp at h
      · next hseat =>
        simp only [List.mem_singleton, PoolConnectionEvent.peerConnected.injEq] at h
        obtain ⟨rfl, rfl⟩ := h
        exact ⟨drained, now, profile, rfl, rfl, hseat⟩
    · split at h <;> simp at h
  | announceDrain now nodeID =>
    simp only [perform, announceDrain] at h
    split at h
    · split at h <;> simp at h
    · simp at h
  | tick now =>
    rcases observeAll_events h with ⟨_, _, _, heq⟩ | ⟨_, _, heq⟩ | ⟨_, heq⟩ <;> cases heq
  | _ => simp [perform] at h

/-- The node is a planning member after `connect` exactly when it was not draining before:
    a new or suspended node joins, any other is refreshed. -/
theorem connected_planning_iff (self : CrossPlatformPool) (drained now : Date)
    (platform : PlatformKind) (profile : CapabilityProfile) :
    profile.nodeID ∈ (self.connect drained now platform profile).1.membership.planningSet ↔
      self.membership.stateOf profile.nodeID ≠ some .draining := by
  -- the drain of the old occupant is the drain of another node
  have hstate : (self.replaceOccupant drained platform profile.nodeID).membership.stateOf
      profile.nodeID = self.membership.stateOf profile.nodeID := by
    rw [membership_replaceOccupant]
    split
    · split
      · next hne =>
        rw [MembershipService.stateOf_nodeAnnouncedDrain, if_neg (Ne.symm hne)]
      · rfl
    · rfl
  rw [MembershipService.mem_planningSet_iff_stateOf, membership_connect,
    MembershipService.stateOf_nodeAppeared, if_pos rfl, hstate, Option.any_some]
  cases self.membership.stateOf profile.nodeID with
  | none => simp
  | some state =>
    cases state with
    | suspended => simp
    | _ => simp [NodeState.participatesInPlanning]

/-- **Connected peers.**  In every run of a new pool, a call keeps the promise of
    `peerConnected` exactly when it does not seat a draining node. -/
theorem peerConnected_planning_iff (start : Date) (localNodeID : NodeID)
    (config : MembershipConfig) (planner : StagePlanner) (ops : List Operation)
    (e : Entry CrossPlatformPool Operation (List PoolConnectionEvent))
    (he : e ∈ machine.history (init start localNodeID config planner) ops) :
    ConnectedPlans e ↔ e.before.ConnectsUndrained e.call := by
  obtain ⟨pre, op, post, rfl, rfl⟩ := machine.mem_history.mp he
  generalize machine.exec (init start localNodeID config planner) pre = pool
  have hmembers : ∀ (service : MembershipService) (n : NodeID),
      n ∈ service.planningMembers.map PlannedMember.nodeID ↔ n ∈ service.planningSet :=
    fun service n => List.mem_toFinset.symm
  constructor
  · intro hplans
    cases op with
    | connect drained now platform profile =>
      by_cases hseat : pool.nodeID platform = some profile.nodeID
      · exact .inl hseat
      · refine .inr ((pool.connected_planning_iff drained now platform profile).mp ?_)
        refine (hmembers _ _).mp (hplans platform profile.nodeID ?_).1
        show _ ∈ (pool.connect drained now platform profile).2
        rw [connect_events, if_neg hseat]
        exact List.mem_append_left _ (List.mem_singleton_self _)
    | _ => trivial
  · intro hundrained P n hconnected
    obtain ⟨drained, now, profile, rfl, rfl, hseat⟩ := peerConnected_cases hconnected
    refine ⟨(hmembers _ _).mpr ?_, ?_, ?_⟩
    · exact (pool.connected_planning_iff drained now P profile).mpr
        (hundrained.resolve_left hseat)
    · exact (pool.nodeID_connect drained now P profile P).trans (if_pos rfl)
    · refine (pool.platform_connect drained now P profile profile.nodeID).trans ?_
      rw [if_neg hseat, if_pos rfl]

/-- A laptop loses its seat to a desktop and connects again while it is still draining. -/
def hastyReturn : List Operation :=
  [.connect 0 0 .windows (SimulatedPlatformPeer.profile .windows (some "laptop")),
   .connect 1 1 .windows (SimulatedPlatformPeer.profile .windows (some "desktop"))]

/-- The call that brings the laptop back. -/
def hastyReturnCall : Operation :=
  .connect 2 2 .windows (SimulatedPlatformPeer.profile .windows (some "laptop"))

/-- The desktop that takes the seat keeps the promise. -/
theorem peerConnected_planning_iff_desktop :
    ConnectedPlans (machine.entry (machine.exec (init 0) (hastyReturn.take 1))
      (.connect 1 1 .windows (SimulatedPlatformPeer.profile .windows (some "desktop")))) :=
  (peerConnected_planning_iff 0 ⟨"pool-hub"⟩ {} {} hastyReturn _
    (machine.mem_history.mpr ⟨hastyReturn.take 1, _, [], rfl, rfl⟩)).mpr
    (.inr (by decide +kernel))

/-- The returning laptop is reported as connected and is no planning member. -/
theorem draining_peer_connected :
    ¬ ∀ (start : Date) (localNodeID : NodeID) (config : MembershipConfig)
      (planner : StagePlanner) (ops : List Operation),
      ∀ e ∈ machine.history (init start localNodeID config planner) ops, ConnectedPlans e := by
  intro h
  have hreturn := h 0 ⟨"pool-hub"⟩ {} {} (hastyReturn ++ [hastyReturnCall])
    (machine.entry (machine.exec (init 0) hastyReturn) hastyReturnCall)
    (machine.mem_history.mpr ⟨hastyReturn, _, [], rfl, rfl⟩) .windows ⟨"laptop"⟩
    (by decide +kernel)
  exact absurd hreturn.1 (by decide +kernel)

end CrossPlatformPool

end ShareCompute.Core
