import ShareCompute.Core.MembershipService
import ShareCompute.Library.Runs

namespace ShareCompute.Core

open ShareCompute.Library

/-!
# The membership service, operation by operation

What each operation of `MembershipService` does to the record of each node
(`get?_nodeAppeared`, …, `get?_reissueLeases`) and to the other fields (`perform_frame`).
Later proofs use these and never unfold an operation.

* `mem_planningSet` reads the planning set off the records.
* `settleEpoch_cases` is the three ways a tick can end: no change, a new epoch, a deferral.
* `Operation`, `perform` and `machine` turn the service into an object whose runs are lists
  of calls.
-/

namespace MembershipService

/-! ### The planning set -/

/-- The planning members are the records whose node takes part in planning, each with its profile,
    state and lease. -/
theorem mem_planningMembers {self : MembershipService} {member : PlannedMember} :
    member ∈ self.planningMembers ↔ ∃ record,
      self.storage.get? member.nodeID = some record ∧ record.state.participatesInPlanning = true ∧
        member = { profile := record.profile, state := record.state, lease := record.lease } := by
  rw [planningMembers, (List.perm_insertionSort _ _).mem_iff]
  simp only [List.mem_map, List.mem_filter, Storage.mem_values]
  constructor
  · rintro ⟨record, ⟨⟨id, hid⟩, hstate⟩, rfl⟩
    have hkey : record.profile.nodeID = id := self.storage.keyed id record hid
    exact ⟨record, by simpa [PlannedMember.nodeID, hkey] using hid, hstate, rfl⟩
  · rintro ⟨record, hrecord, hstate, rfl⟩
    exact ⟨record, ⟨⟨_, hrecord⟩, hstate⟩, rfl⟩

/-- The planning set, read off the records. -/
@[simp] theorem mem_planningSet {self : MembershipService} {id : NodeID} :
    id ∈ self.planningSet ↔ ∃ record,
      self.storage.get? id = some record ∧ record.state.participatesInPlanning = true := by
  simp only [planningSet, List.mem_toFinset, List.mem_map]
  constructor
  · rintro ⟨member, hmember, rfl⟩
    obtain ⟨record, hrecord, hstate, -⟩ := mem_planningMembers.mp hmember
    exact ⟨record, hrecord, hstate⟩
  · rintro ⟨record, hrecord, hstate⟩
    have hkey : record.profile.nodeID = id := self.storage.keyed id record hrecord
    subst hkey
    refine ⟨{ profile := record.profile, state := record.state, lease := record.lease }, ?_, rfl⟩
    exact mem_planningMembers.mpr ⟨record, hrecord, hstate, rfl⟩

/-- The planning members come in strictly increasing node order. -/
theorem planningMembers_sorted (self : MembershipService) :
    (self.planningMembers.map PlannedMember.nodeID).Pairwise (· < ·) := by
  refine Dictionary.pairwise_lt_map_insertionSort PlannedMember.nodeID ?_
  rw [List.map_map]
  exact self.storage.nodup_nodeIDs.sublist (List.filter_sublist.map _)

/-- Sorting the planning set gives back the planning members' identities. -/
theorem sort_planningSet (self : MembershipService) :
    self.planningSet.sort (· ≤ ·) = self.planningMembers.map PlannedMember.nodeID :=
  (List.toFinset_sort (· ≤ ·) self.planningMembers_sorted.nodup).mpr
    (self.planningMembers_sorted.imp le_of_lt)

/-! ### What each operation does to the records -/

/-- When a node appears, its record is refreshed or made anew, and every other record is what it
    was. -/
theorem get?_nodeAppeared (self : MembershipService) (now : Date) (profile : CapabilityProfile)
    (k : NodeID) :
    (self.nodeAppeared now profile).1.storage.get? k =
      if k = profile.nodeID then
        some (match self.storage.get? profile.nodeID with
          | some existing =>
              if existing.state = .suspended then self.rejoined now profile existing
              else refreshed now profile existing
          | none => self.joined now profile)
      else self.storage.get? k := by
  unfold nodeAppeared
  cases self.storage.get? profile.nodeID with
  | none => simp [Storage.get?_set]
  | some existing =>
    by_cases h : existing.state = .suspended
    · simp [h, Storage.get?_set]
    · simp [h, Storage.get?_set]

/-- A heartbeat that was answered renews the record of its node, and touches no other. -/
theorem get?_heartbeatSucceeded (self : MembershipService) (now : Date) (nodeID k : NodeID) :
    (self.heartbeatSucceeded now nodeID).storage.get? k =
      if k = nodeID then (self.storage.get? k).map (self.renewed now) else self.storage.get? k := by
  unfold heartbeatSucceeded
  split
  · next h => by_cases hk : k = nodeID <;> simp [hk, h]
  · next record h => by_cases hk : k = nodeID <;> simp [hk, h, Storage.get?_set]

/-- A heartbeat that was missed counts for the record of its node, and for no other. -/
theorem get?_heartbeatFailed (self : MembershipService) (nodeID k : NodeID) :
    (self.heartbeatFailed nodeID).storage.get? k =
      if k = nodeID then (self.storage.get? k).map missed else self.storage.get? k := by
  unfold heartbeatFailed
  split
  · next h => by_cases hk : k = nodeID <;> simp [hk, h]
  · next record h => by_cases hk : k = nodeID <;> simp [hk, h, Storage.get?_set]

/-- An announced drain moves the node to draining if its state allows that, and touches no other
    record. -/
theorem get?_nodeAnnouncedDrain (self : MembershipService) (now : Date) (nodeID k : NodeID) :
    (self.nodeAnnouncedDrain now nodeID).1.storage.get? k =
      if k = nodeID then
        (self.storage.get? k).map (fun record =>
          if (NodeStateMachine.apply .enteredBackground record.state).1 then
            { record with
              state := (NodeStateMachine.apply .enteredBackground record.state).2
              lastHeardFrom := now }
          else record)
      else self.storage.get? k := by
  unfold nodeAnnouncedDrain
  split
  · next h => by_cases hk : k = nodeID <;> simp [hk, h]
  · next record h =>
    split
    · next hstate => by_cases hk : k = nodeID <;> simp [hk, h, hstate]
    · next hstate => by_cases hk : k = nodeID <;> simp [hk, h, hstate, Storage.get?_set]

/-- A node joins when it is new or was suspended. -/
theorem nodeAppeared_events (self : MembershipService) (now : Date)
    (profile : CapabilityProfile) :
    (self.nodeAppeared now profile).2 =
      if (self.storage.get? profile.nodeID).all (fun existing => existing.state = .suspended) then
        [.nodeJoined profile.nodeID]
      else [] := by
  unfold nodeAppeared
  cases self.storage.get? profile.nodeID with
  | none => rfl
  | some existing => by_cases h : existing.state = .suspended <;> simp [h]

/-- A drain is announced for a planning member only. -/
theorem nodeAnnouncedDrain_events (self : MembershipService) (now : Date) (nodeID : NodeID) :
    (self.nodeAnnouncedDrain now nodeID).2 =
      if (self.storage.get? nodeID).any (fun record => record.state.participatesInPlanning) then
        [.nodeDraining nodeID]
      else [] := by
  unfold nodeAnnouncedDrain
  split
  · next h => simp [h]
  · next record h =>
    simp only [NodeStateMachine.apply_enteredBackground, h, Option.any_some]
    cases hstate : record.state.participatesInPlanning <;> rfl

/-- An event of the state machine changes the state in the record of its node, and nothing else. -/
theorem get?_apply (self : MembershipService) (event : NodeEvent) (nodeID k : NodeID) :
    (self.apply event nodeID).1.storage.get? k =
      if k = nodeID then
        (self.storage.get? k).map (fun record =>
          { record with state := (NodeStateMachine.apply event record.state).2 })
      else self.storage.get? k := by
  unfold apply
  split
  · next h => by_cases hk : k = nodeID <;> simp [hk, h]
  · next record h =>
    split
    · next state hstate =>
      -- an illegal transition leaves the state, hence the record, untouched
      have hsame : (NodeStateMachine.apply event record.state).2 = record.state := by
        unfold NodeStateMachine.apply at hstate ⊢
        split at hstate <;> simp_all
      by_cases hk : k = nodeID <;> simp [hk, h, hsame]
    · next state hstate => by_cases hk : k = nodeID <;> simp [hk, h, hstate, Storage.get?_set]

/-! ### What each operation does to the lifecycle states -/

/-- The lifecycle state of a node, if the service has a record of it. -/
def stateOf (self : MembershipService) (k : NodeID) : Option NodeState :=
  (self.storage.get? k).map MemberRecord.state

/-- Membership of the planning set is a matter of the state. -/
theorem mem_planningSet_iff_stateOf {self : MembershipService} {k : NodeID} :
    k ∈ self.planningSet ↔ (self.stateOf k).any NodeState.participatesInPlanning := by
  rw [mem_planningSet, stateOf]
  cases self.storage.get? k <;> simp

/-- A node that rejoins enters the state it would enter if it were new. -/
theorem rejoined_state (self : MembershipService) (now : Date) (profile : CapabilityProfile)
    {existing : MemberRecord} (h : existing.state = .suspended) :
    (self.rejoined now profile existing).state = NodeStateMachine.initialState profile := by
  show (NodeStateMachine.apply (joinEvent profile) existing.state).2 = _
  have hinitial := NodeStateMachine.initialState_participates profile
  rw [h, joinEvent]
  cases hstate : NodeStateMachine.initialState profile with
  | draining => simp [hstate] at hinitial
  | suspended => simp [hstate] at hinitial
  | _ => rfl

/-- New and suspended nodes enter their initial state, the others keep theirs. -/
theorem stateOf_nodeAppeared (self : MembershipService) (now : Date)
    (profile : CapabilityProfile) (k : NodeID) :
    (self.nodeAppeared now profile).1.stateOf k =
      if k = profile.nodeID then
        some (match self.stateOf profile.nodeID with
          | none | some .suspended => NodeStateMachine.initialState profile
          | some state => state)
      else self.stateOf k := by
  rw [stateOf, get?_nodeAppeared]
  by_cases hk : k = profile.nodeID
  · rw [if_pos hk, if_pos hk, Option.map_some, stateOf]
    cases self.storage.get? profile.nodeID with
    | none => rfl
    | some existing =>
      by_cases hsuspended : existing.state = .suspended
      · simp only [hsuspended, if_true, Option.map_some, self.rejoined_state now profile hsuspended]
      · simp only [hsuspended, if_false, Option.map_some]
        cases hstate : existing.state with
        | suspended => exact absurd hstate hsuspended
        | _ => exact congrArg some hstate
  · rw [if_neg hk, if_neg hk]
    rfl

/-- An answered heartbeat does not change in which state a node is. -/
@[simp] theorem stateOf_heartbeatSucceeded (self : MembershipService) (now : Date)
    (nodeID k : NodeID) : (self.heartbeatSucceeded now nodeID).stateOf k = self.stateOf k := by
  rw [stateOf, get?_heartbeatSucceeded]
  split
  · rw [Option.map_map]
    rfl
  · rfl

/-- A missed heartbeat does not change in which state a node is; the next tick draws the
    consequence. -/
@[simp] theorem stateOf_heartbeatFailed (self : MembershipService) (nodeID k : NodeID) :
    (self.heartbeatFailed nodeID).stateOf k = self.stateOf k := by
  rw [stateOf, get?_heartbeatFailed]
  split
  · rw [Option.map_map]
    rfl
  · rfl

/-- A planning member that announces its drain is draining. -/
theorem stateOf_nodeAnnouncedDrain (self : MembershipService) (now : Date) (nodeID k : NodeID) :
    (self.nodeAnnouncedDrain now nodeID).1.stateOf k =
      if k = nodeID then
        (self.stateOf k).map (fun state =>
          if state.participatesInPlanning then .draining else state)
      else self.stateOf k := by
  rw [stateOf, get?_nodeAnnouncedDrain]
  split
  · rw [Option.map_map, stateOf, Option.map_map]
    refine Option.map_congr fun record _ => ?_
    simp only [Function.comp_apply, NodeStateMachine.apply_enteredBackground]
    split <;> rfl
  · rfl

/-! ### What a tick does to the records -/

/-- The record after the first loop of a tick. -/
def evictedRecord (config : MembershipConfig) (now : Date) (record : MemberRecord) : MemberRecord :=
  if (departure config now record).isSome then { record with state := .suspended } else record

/-- The first half of a tick goes through all records once, and each is kept, or replaced by that of
    a node that has left. -/
theorem get?_evict (self : MembershipService) (now : Date) (k : NodeID) :
    (self.evict now).1.storage.get? k
      = (self.storage.get? k).map (evictedRecord self.config now) := by
  refine Storage.get?_sweep_of self.storage _ departed_profile fun record => ?_
  rw [Dictionary.replaced, departed_eq, evictedRecord]
  cases departure self.config now record <;> rfl

/-- The record after its lease was re-issued. -/
def reissuedRecord (self : MembershipService) (now : Date) (record : MemberRecord) : MemberRecord :=
  if record.state.participatesInPlanning then
    { record with
      lease := some (self.issueLease record.profile record.state now record.stabilityScore) }
  else record

/-- The second half of a tick goes through all records once, and each lease is issued anew or
    kept. -/
theorem get?_reissueLeases (self : MembershipService) (now : Date) (k : NodeID) :
    (self.reissueLeases now).storage.get? k
      = (self.storage.get? k).map (self.reissuedRecord now) := by
  refine Storage.get?_sweep_of self.storage _ reissued_profile fun record => ?_
  rw [Dictionary.replaced, reissued, reissuedRecord]
  split <;> rfl

/-- Evictions are the reports of the first loop. -/
theorem mem_evict_events {self : MembershipService} {now : Date} {e : MembershipEvent} :
    e ∈ (self.evict now).2 ↔ ∃ k record event reason, self.storage.get? k = some record ∧
      departure self.config now record = some (event, reason) ∧ e = .nodeEvicted k reason := by
  refine Dictionary.mem_sweep_reports.trans ?_
  constructor
  · rintro ⟨k, record, record', hrecord, hdeparted⟩
    rw [departed_eq, Option.map_eq_some_iff] at hdeparted
    obtain ⟨⟨event, reason⟩, hdeparture, he⟩ := hdeparted
    exact ⟨k, record, event, reason, hrecord, hdeparture, (Prod.mk.inj he).2.symm⟩
  · rintro ⟨k, record, event, reason, hrecord, hdeparture, rfl⟩
    refine ⟨k, record, { record with state := .suspended }, hrecord, ?_⟩
    rw [departed_eq, hdeparture]
    rfl

/-- Issuing leases anew does not change in which state a node is. -/
@[simp] theorem stateOf_reissueLeases (self : MembershipService) (now : Date) (k : NodeID) :
    (self.reissueLeases now).stateOf k = self.stateOf k := by
  rw [stateOf, get?_reissueLeases, Option.map_map]
  refine Option.map_congr fun record _ => ?_
  simp only [Function.comp_apply, reissuedRecord]
  split <;> rfl

/-- Re-issuing leases changes no state, so it keeps the planning set. -/
@[simp] theorem planningSet_reissueLeases (self : MembershipService) (now : Date) :
    (self.reissueLeases now).planningSet = self.planningSet := by
  ext id
  rw [mem_planningSet_iff_stateOf, mem_planningSet_iff_stateOf, stateOf_reissueLeases]

/-- A tick evicts and then settles the epoch. -/
theorem tick_eq (self : MembershipService) (now : Date) :
    self.tick now = (((self.evict now).1.settleEpoch now).1,
      (self.evict now).2 ++ ((self.evict now).1.settleEpoch now).2) := rfl

/-- **The three ways a tick can settle the epoch.** -/
theorem settleEpoch_cases (self : MembershipService) (now : Date) :
    (self.planningSet = self.lastEpochMembers ∧ self.settleEpoch now = (self, [])) ∨
    (self.planningSet ≠ self.lastEpochMembers ∧
      self.config.minimumEpochDwellTime ≤ now - self.lastEpochChangedAt ∧
      self.settleEpoch now = ((self.nextEpoch now).reissueLeases now,
        [.epochChanged self.currentEpoch.next
          (self.planningMembers.map PlannedMember.nodeID)])) ∨
    (self.planningSet ≠ self.lastEpochMembers ∧
      now - self.lastEpochChangedAt < self.config.minimumEpochDwellTime ∧
      self.settleEpoch now = (self, [.epochChangeDeferred
        (self.config.minimumEpochDwellTime - (now - self.lastEpochChangedAt))])) := by
  unfold settleEpoch
  by_cases hset : self.planningSet = self.lastEpochMembers
  · exact .inl ⟨hset, if_neg (not_not.mpr hset)⟩
  rw [if_pos hset]
  by_cases hdwell : self.config.minimumEpochDwellTime ≤ now - self.lastEpochChangedAt
  · rw [if_pos hdwell, ← sort_planningSet]
    exact .inr (.inl ⟨hset, hdwell, rfl⟩)
  · rw [if_neg hdwell]
    exact .inr (.inr ⟨hset, not_le.mp hdwell, rfl⟩)

/-! ### The service as an object -/

/-- A call of a public operation, with its arguments and the reading of the clock. -/
inductive Operation
  | nodeAppeared (now : Date) (profile : CapabilityProfile)
  | heartbeatSucceeded (now : Date) (nodeID : NodeID)
  | heartbeatFailed (nodeID : NodeID)
  | nodeAnnouncedDrain (now : Date) (nodeID : NodeID)
  | apply (event : NodeEvent) (nodeID : NodeID)
  | tick (now : Date)

/-- The state a call leaves behind and the events it returns. -/
def perform (self : MembershipService) :
    Operation → MembershipService × List MembershipEvent
  | .nodeAppeared now profile => self.nodeAppeared now profile
  | .heartbeatSucceeded now nodeID => (self.heartbeatSucceeded now nodeID, [])
  | .heartbeatFailed nodeID => (self.heartbeatFailed nodeID, [])
  | .nodeAnnouncedDrain now nodeID => self.nodeAnnouncedDrain now nodeID
  | .apply event nodeID => ((self.apply event nodeID).1, [])
  | .tick now => self.tick now

/-- The service as an object whose methods are called one after the other. -/
def machine : Machine MembershipService Operation (List MembershipEvent) := ⟨perform⟩

/-- Everything but the records is as before. -/
structure SameEpoch (service service' : MembershipService) : Prop where
  config : service'.config = service.config
  currentEpoch : service'.currentEpoch = service.currentEpoch
  lastEpochChangedAt : service'.lastEpochChangedAt = service.lastEpochChangedAt
  lastEpochMembers : service'.lastEpochMembers = service.lastEpochMembers

/-- **Frame.**  Only a tick touches anything but the records. -/
theorem perform_frame (self : MembershipService) (op : Operation) (hop : ∀ now, op ≠ .tick now) :
    SameEpoch self (self.perform op).1 := by
  cases op with
  | nodeAppeared now profile =>
    simp only [perform, nodeAppeared]
    split
    · split <;> exact ⟨rfl, rfl, rfl, rfl⟩
    · exact ⟨rfl, rfl, rfl, rfl⟩
  | heartbeatSucceeded now nodeID =>
    simp only [perform, heartbeatSucceeded]
    split <;> exact ⟨rfl, rfl, rfl, rfl⟩
  | heartbeatFailed nodeID =>
    simp only [perform, heartbeatFailed]
    split <;> exact ⟨rfl, rfl, rfl, rfl⟩
  | nodeAnnouncedDrain now nodeID =>
    simp only [perform, nodeAnnouncedDrain]
    split
    · exact ⟨rfl, rfl, rfl, rfl⟩
    · split <;> exact ⟨rfl, rfl, rfl, rfl⟩
  | apply event nodeID =>
    simp only [perform, apply]
    split
    · exact ⟨rfl, rfl, rfl, rfl⟩
    · split <;> exact ⟨rfl, rfl, rfl, rfl⟩
  | tick now => exact absurd rfl (hop now)

/-- **Leases between ticks.**  A call that is not a tick keeps every record, and keeps its
    lease or replaces it by one of the current epoch. -/
theorem perform_lease (self : MembershipService) (op : Operation) (hop : ∀ now, op ≠ .tick now)
    {k : NodeID} {record : MemberRecord} (hrecord : self.storage.get? k = some record) :
    ∃ record', (self.perform op).1.storage.get? k = some record' ∧
      (record'.lease = record.lease ∨
        ∃ lease, record'.lease = some lease ∧ lease.epoch = self.currentEpoch) := by
  cases op with
  | nodeAppeared now profile =>
    simp only [perform, get?_nodeAppeared]
    by_cases hk : k = profile.nodeID
    · subst hk
      rw [if_pos rfl, hrecord]
      refine ⟨_, rfl, ?_⟩
      -- only a node that was suspended gets a new lease here
      by_cases hstate : record.state = .suspended
      · simp only [hstate, if_true]
        exact .inr ⟨_, rfl, rfl⟩
      · simp only [hstate, if_false]
        exact .inl rfl
    · exact ⟨record, by rw [if_neg hk, hrecord], .inl rfl⟩
  | heartbeatSucceeded now nodeID =>
    simp only [perform, get?_heartbeatSucceeded, hrecord]
    by_cases hk : k = nodeID
    · refine ⟨_, by rw [if_pos hk, Option.map_some], ?_⟩
      -- a heartbeat renews the lease of a node that takes part in planning
      by_cases hstate : record.state.participatesInPlanning = true
      · exact .inr ⟨_, by simp only [renewed, hstate, if_true]; rfl, rfl⟩
      · exact .inl (by simp only [renewed, hstate]; rfl)
    · exact ⟨record, by rw [if_neg hk], .inl rfl⟩
  | heartbeatFailed nodeID =>
    simp only [perform, get?_heartbeatFailed, hrecord]
    by_cases hk : k = nodeID
    · exact ⟨missed record, by rw [if_pos hk, Option.map_some], .inl rfl⟩
    · exact ⟨record, by rw [if_neg hk], .inl rfl⟩
  | nodeAnnouncedDrain now nodeID =>
    simp only [perform, get?_nodeAnnouncedDrain, hrecord]
    by_cases hk : k = nodeID
    · refine ⟨_, by rw [if_pos hk, Option.map_some], .inl ?_⟩
      split <;> rfl
    · exact ⟨record, by rw [if_neg hk], .inl rfl⟩
  | apply event nodeID =>
    simp only [perform, get?_apply, hrecord]
    by_cases hk : k = nodeID
    · refine ⟨_, by rw [if_pos hk, Option.map_some], .inl ?_⟩
      rfl
    · exact ⟨record, by rw [if_neg hk], .inl rfl⟩
  | tick now => exact absurd rfl (hop now)

end MembershipService

end ShareCompute.Core
