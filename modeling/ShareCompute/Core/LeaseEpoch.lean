import ShareCompute.Core.MembershipSpec
import ShareCompute.Core.PlanSoundness

namespace ShareCompute.Core

open ShareCompute.Library

/-!
# Whose lease a plan rests on

A lease names the epoch it was issued in, and the planner reads a member's lease without
looking at that name.  What keeps stale leases out of plans is therefore the membership
service alone: `HostsCurrent` says that whoever may host a required stage holds a lease of
the current epoch.

Every operation keeps `HostsCurrent` except one call: `apply` can move a suspended node
straight back into a hosting state, and unlike `nodeAppeared` it issues no lease.
`Reenters` names that call, `plan_leases_current` proves that plans rest on current leases
as long as such a call finds a current lease, and `stale_lease_planned` is a run where it
does not.
-/

namespace MembershipService

/-- Every member that may host a required stage holds no lease but one of the current epoch. -/
def HostsCurrent (self : MembershipService) : Prop :=
  ∀ id record lease, self.storage.get? id = some record →
    record.state.canHostRequiredStage = true → record.lease = some lease →
      lease.epoch = self.currentEpoch

/-- `apply event id` moves the suspended `record` into a state that may host required stages. -/
def Reenters (event : NodeEvent) (record : MemberRecord) : Prop :=
  record.state = .suspended ∧
    (NodeStateMachine.apply event record.state).2.canHostRequiredStage = true

/-- Whether an event brings the node of a record back to hosting can be computed. -/
instance (event : NodeEvent) (record : MemberRecord) : Decidable (Reenters event record) :=
  inferInstanceAs (Decidable (_ ∧ _))

/-- If the call is an `apply` that lets a node back in, the node's lease is of the current
    epoch. -/
def ReentersCurrent (self : MembershipService) : Operation → Prop
  | .apply event id => ∀ record ∈ self.storage.get? id, Reenters event record →
      ∀ lease ∈ record.lease, lease.epoch = self.currentEpoch
  | _ => True

/-- Whether an operation brings back only nodes with current leases can be computed. -/
instance (self : MembershipService) : DecidablePred self.ReentersCurrent
  | .apply event id => inferInstanceAs (Decidable (∀ record ∈ self.storage.get? id,
      Reenters event record → ∀ lease ∈ record.lease, lease.epoch = self.currentEpoch))
  | .nodeAppeared .. | .heartbeatSucceeded .. | .heartbeatFailed .. | .nodeAnnouncedDrain ..
  | .tick .. => isTrue trivial

/-! ### One call -/

/-- A new service has no records, so nobody hosts on an old lease. -/
theorem HostsCurrent.init (localNodeID : NodeID) (now : Date) (config : MembershipConfig)
    (epoch : Epoch) : (init localNodeID now config epoch).HostsCurrent := by
  intro id record lease hrecord
  simp [MembershipService.init] at hrecord

/-- Calls that are not ticks leave the epoch alone, so only the records matter. -/
theorem HostsCurrent.of_records {self : MembershipService} (op : Operation)
    (hop : ∀ now, op ≠ .tick now)
    (h : ∀ id record lease, (self.perform op).1.storage.get? id = some record →
      record.state.canHostRequiredStage = true → record.lease = some lease →
        lease.epoch = self.currentEpoch) : (self.perform op).1.HostsCurrent := by
  intro id record lease hrecord hhost hlease
  rw [h id record lease hrecord hhost hlease]
  exact (perform_frame self op hop).currentEpoch.symm

/-- A state change that is no re-entry cannot turn a node into a host. -/
theorem canHost_of_apply {event : NodeEvent} {record : MemberRecord}
    (hreenter : ¬ Reenters event record)
    (hhost : (NodeStateMachine.apply event record.state).2.canHostRequiredStage = true) :
    record.state.canHostRequiredStage = true := by
  cases hnext : NodeStateMachine.next record.state event with
  | none => simpa [NodeStateMachine.apply, hnext] using hhost
  | some state =>
    have hstate : (NodeStateMachine.apply event record.state).2 = state := by
      simp [NodeStateMachine.apply, hnext]
    have hsuspended := NodeStateMachine.suspended_of_next_canHost hnext (hstate ▸ hhost)
    exact absurd ⟨hsuspended, hhost⟩ hreenter

/-- The first half of a tick lets nobody host who did not before. -/
theorem HostsCurrent.evict {self : MembershipService} (h : self.HostsCurrent) (now : Date) :
    (self.evict now).1.HostsCurrent := by
  intro id record lease hrecord hhost hlease
  rw [get?_evict, Option.map_eq_some_iff] at hrecord
  obtain ⟨old, hold, rfl⟩ := hrecord
  unfold evictedRecord at hhost hlease
  split at hhost
  · exact absurd hhost Bool.false_ne_true
  · next hstays =>
    rw [if_neg hstays] at hlease
    exact h id old lease hold hhost hlease

/-- A new epoch leases every host anew, whatever leases they held. -/
theorem HostsCurrent.nextEpoch (self : MembershipService) (now : Date) :
    ((self.nextEpoch now).reissueLeases now).HostsCurrent := by
  intro id record lease hrecord hhost hlease
  rw [get?_reissueLeases, Option.map_eq_some_iff] at hrecord
  obtain ⟨old, hold, rfl⟩ := hrecord
  unfold reissuedRecord at hhost hlease
  split at hlease
  · obtain rfl := Option.some.inj hlease
    rfl
  · next hnot =>
    rw [if_neg hnot] at hhost
    exact absurd (NodeState.participates_of_canHost hhost) hnot

/-- A tick keeps it: when the epoch changes, all leases are issued anew. -/
theorem HostsCurrent.tick {self : MembershipService} (h : self.HostsCurrent) (now : Date) :
    (self.tick now).1.HostsCurrent := by
  rw [tick_eq]
  rcases settleEpoch_cases (self.evict now).1 now with ⟨-, heq⟩ | ⟨-, -, heq⟩ | ⟨-, -, heq⟩
  · rw [heq]
    exact h.evict now
  · rw [heq]
    exact .nextEpoch _ now
  · rw [heq]
    exact h.evict now

/-- A node that appears gets a lease of the current epoch. -/
theorem HostsCurrent.nodeAppeared {self : MembershipService} (h : self.HostsCurrent) (now : Date)
    (profile : CapabilityProfile) : (self.nodeAppeared now profile).1.HostsCurrent := by
  refine of_records (.nodeAppeared now profile) (by simp) ?_
  intro id record lease hrecord hhost hlease
  rw [perform, get?_nodeAppeared] at hrecord
  split at hrecord
  · obtain rfl := Option.some.inj hrecord
    cases hold : self.storage.get? profile.nodeID with
    | none =>
      simp only [hold] at hlease
      obtain rfl := Option.some.inj hlease
      rfl
    | some existing =>
      simp only [hold] at hhost hlease
      split at hlease
      · obtain rfl := Option.some.inj hlease
        rfl
      · next hstate =>
        rw [if_neg hstate] at hhost
        exact h _ existing lease hold hhost hlease
  · exact h id record lease hrecord hhost hlease

/-- A renewed lease stays one of the epoch in which it was issued. -/
theorem HostsCurrent.heartbeatSucceeded {self : MembershipService} (h : self.HostsCurrent)
    (now : Date) (nodeID : NodeID) : (self.heartbeatSucceeded now nodeID).HostsCurrent := by
  refine of_records (.heartbeatSucceeded now nodeID) (by simp) ?_
  intro id record lease hrecord hhost hlease
  rw [perform, get?_heartbeatSucceeded] at hrecord
  split at hrecord
  · obtain ⟨old, hold, rfl⟩ := Option.map_eq_some_iff.mp hrecord
    have hparticipates : old.state.participatesInPlanning = true :=
      NodeState.participates_of_canHost hhost
    simp only [renewed, hparticipates, if_true, Option.some.injEq] at hlease
    exact hlease ▸ rfl
  · exact h id record lease hrecord hhost hlease

/-- A missed heartbeat changes neither the state nor the lease of a node. -/
theorem HostsCurrent.heartbeatFailed {self : MembershipService} (h : self.HostsCurrent)
    (nodeID : NodeID) : (self.heartbeatFailed nodeID).HostsCurrent := by
  refine of_records (.heartbeatFailed nodeID) (by simp) ?_
  intro id record lease hrecord hhost hlease
  rw [perform, get?_heartbeatFailed] at hrecord
  split at hrecord
  · obtain ⟨old, hold, rfl⟩ := Option.map_eq_some_iff.mp hrecord
    exact h id old lease hold hhost hlease
  · exact h id record lease hrecord hhost hlease

/-- An event keeps it, provided that a node it brings back holds a lease of the current epoch. -/
theorem HostsCurrent.apply {self : MembershipService} (h : self.HostsCurrent) (event : NodeEvent)
    (nodeID : NodeID)
    (hcurrent : self.ReentersCurrent (.apply event nodeID)) :
    (self.apply event nodeID).1.HostsCurrent := by
  refine of_records (.apply event nodeID) (by simp) ?_
  intro id record lease hrecord hhost hlease
  rw [perform, get?_apply] at hrecord
  split at hrecord
  · next hid =>
    subst hid
    obtain ⟨old, hold, rfl⟩ := Option.map_eq_some_iff.mp hrecord
    by_cases hreenter : Reenters event old
    · exact hcurrent old hold hreenter lease hlease
    · exact h id old lease hold (canHost_of_apply hreenter hhost) hlease
  · exact h id record lease hrecord hhost hlease

/-- Announcing a drain is the event `enteredBackground`, which lets nobody in. -/
theorem HostsCurrent.nodeAnnouncedDrain {self : MembershipService} (h : self.HostsCurrent)
    (now : Date) (nodeID : NodeID) : (self.nodeAnnouncedDrain now nodeID).1.HostsCurrent := by
  refine of_records (.nodeAnnouncedDrain now nodeID) (by simp) ?_
  intro id record lease hrecord hhost hlease
  rw [perform, get?_nodeAnnouncedDrain] at hrecord
  split at hrecord
  · obtain ⟨old, hold, rfl⟩ := Option.map_eq_some_iff.mp hrecord
    split at hhost
    · next hmoved =>
      rw [if_pos hmoved] at hlease
      refine h id old lease hold (canHost_of_apply ?_ hhost) hlease
      rintro ⟨hstate, hhost'⟩
      rw [hstate] at hhost'
      exact absurd hhost' (by decide)
    · next hstays =>
      rw [if_neg hstays] at hlease
      exact h id old lease hold hhost hlease
  · exact h id record lease hrecord hhost hlease

/-- **Step lemma.**  Every call keeps `HostsCurrent`, unless it lets a node back in on an old
    lease. -/
theorem HostsCurrent.perform {self : MembershipService} (h : self.HostsCurrent) (op : Operation)
    (hcurrent : self.ReentersCurrent op) : (self.perform op).1.HostsCurrent := by
  cases op with
  | nodeAppeared now profile => exact h.nodeAppeared now profile
  | heartbeatSucceeded now nodeID => exact h.heartbeatSucceeded now nodeID
  | heartbeatFailed nodeID => exact h.heartbeatFailed nodeID
  | nodeAnnouncedDrain now nodeID => exact h.nodeAnnouncedDrain now nodeID
  | apply event nodeID => exact h.apply event nodeID hcurrent
  | tick now => exact h.tick now

/-- **Run lemma.**  If no call lets a node in again on an old lease, hosts are on current leases. -/
theorem hostsCurrent_exec {start : MembershipService} (h : start.HostsCurrent)
    (ops : List Operation)
    (hcurrent : ∀ e ∈ machine.history start ops, e.before.ReentersCurrent e.call) :
    (machine.exec start ops).HostsCurrent :=
  machine.run_induction (P := fun e => e.before.ReentersCurrent e.call)
    (I := fun _ self => self.HostsCurrent) h
    (fun _ _ op ih hop => ih.perform op hop) ops hcurrent

end MembershipService

/-! ### Plans -/

/-- Who is eligible under the default policy may host a required stage and holds a lease. -/
theorem StagePlanner.leased_of_isEligible {member : PlannedMember} {now : Date}
    {estimatedStageDuration : TimeInterval}
    (h : ({} : StagePlanner).isEligible member now estimatedStageDuration = true) :
    member.state.canHostRequiredStage = true ∧ ∃ lease, member.lease = some lease := by
  unfold StagePlanner.isEligible at h
  split at h
  · simp at h
  · next hhost =>
    refine ⟨by simpa using hhost, ?_⟩
    cases hlease : member.lease with
    | none => simp [hlease] at h
    | some lease => exact ⟨lease, rfl⟩

/-- Every assignment of a plan goes to one of the members it was made for. -/
theorem StagePlanner.exists_member_of_assigned {planner : StagePlanner}
    {model : ModelPlacementSpec} {members : List PlannedMember} {epoch : Epoch} {now : Date}
    {estimatedStageDuration : TimeInterval} {plan : ShardPlan}
    (hplan : planner.plan model members epoch now estimatedStageDuration = .ok plan)
    {a : ShardAssignment} (ha : a ∈ plan.assignments) :
    plan.epoch = epoch ∧ ∃ member ∈ members, a.nodeID = member.nodeID ∧
      planner.isEligible member now estimatedStageDuration = true := by
  rcases planner.plan_cases model members epoch now estimatedStageDuration with
    ⟨error, herror⟩ | ⟨assignments, hok, -, hwalk⟩
  · simp [herror] at hplan
  rw [hok] at hplan
  obtain rfl := Except.ok.inj hplan
  obtain ⟨i, hi, rfl⟩ := List.getElem_of_mem ha
  have hi' := hwalk.assigned.length_eq ▸ hi
  have hassigned := (List.forall₂_iff_get.mp hwalk.assigned).2 i hi hi'
  have hmember := List.getElem_mem hi'
  have heligible := List.mem_filter.mp ((List.perm_insertionSort _ _).mem_iff.mp hmember)
  exact ⟨rfl, _, heligible.1, hassigned.node, heligible.2⟩

namespace MembershipService

/-- **Plans rest on current leases.**  Along every run in which `apply` lets no node back in
    on an old lease, whatever the planner returns for the service's members assigns work only
    to nodes whose lease is of the plan's epoch. -/
theorem plan_leases_current (localNodeID : NodeID) (start : Date) (config : MembershipConfig)
    (epoch : Epoch) (ops : List Operation)
    (hcurrent : ∀ e ∈ machine.history (init localNodeID start config epoch) ops,
      e.before.ReentersCurrent e.call)
    (model : ModelPlacementSpec) (now : Date) (estimatedStageDuration : TimeInterval)
    (plan : ShardPlan) :
    let service := machine.exec (init localNodeID start config epoch) ops
    ({} : StagePlanner).plan model service.planningMembers service.currentEpoch now
        estimatedStageDuration = .ok plan →
      ∀ a ∈ plan.assignments, ∃ record lease,
        service.storage.get? a.nodeID = some record ∧ record.lease = some lease ∧
          lease.epoch = plan.epoch := by
  intro service hplan a ha
  have hhosts : service.HostsCurrent :=
    hostsCurrent_exec (HostsCurrent.init localNodeID start config epoch) ops hcurrent
  obtain ⟨hepoch, member, hmember, hnode, heligible⟩ :=
    StagePlanner.exists_member_of_assigned hplan ha
  obtain ⟨hhost, lease, hlease⟩ := StagePlanner.leased_of_isEligible heligible
  obtain ⟨record, hrecord, -, rfl⟩ := mem_planningMembers.mp hmember
  exact ⟨record, lease, hnode ▸ hrecord, hlease,
    hepoch ▸ hhosts _ record lease hrecord hhost hlease⟩

/-! ### The call that lets a stale lease in -/

/-- Two desktops form a ring; `b` drains and, once the ring has moved on to the next epoch,
    is put back by `apply`. -/
def readmission : List Operation :=
  [.nodeAppeared 0 (StagePlanner.desktop "a" 1000).profile,
   .nodeAppeared 0 (StagePlanner.desktop "b" 1000).profile,
   .tick 5,
   .apply .drainRequested ⟨"b"⟩,
   .tick 10,
   .apply .joinedAsCore ⟨"b"⟩]

/-- The plan made for that ring in epoch `2`. -/
def readmissionPlan : ShardPlan where
  epoch := ⟨2⟩
  modelID := "m"
  layerCount := 2
  assignments := [⟨⟨"a"⟩, 0, 0, 1, 50⟩, ⟨⟨"b"⟩, 1, 1, 2, 50⟩]

/-- The re-admitted node is planned in epoch `2` on a lease of epoch `1`. -/
theorem stale_lease_planned :
    ¬ ∀ (localNodeID : NodeID) (start : Date) (config : MembershipConfig) (epoch : Epoch)
      (ops : List Operation) (model : ModelPlacementSpec) (now : Date)
      (estimatedStageDuration : TimeInterval) (plan : ShardPlan),
      let service := machine.exec (init localNodeID start config epoch) ops
      ({} : StagePlanner).plan model service.planningMembers service.currentEpoch now
          estimatedStageDuration = .ok plan →
        ∀ a ∈ plan.assignments, ∃ record lease,
          service.storage.get? a.nodeID = some record ∧ record.lease = some lease ∧
            lease.epoch = plan.epoch := by
  intro h
  obtain ⟨record, lease, hrecord, hlease, hepoch⟩ :=
    h ⟨"a"⟩ 0 {} .initial readmission ⟨"m", 2, 100, 0⟩ 11 1 readmissionPlan (by decide +kernel)
      ⟨⟨"b"⟩, 1, 1, 2, 50⟩ (by decide)
  have hstale : (((machine.exec (init ⟨"a"⟩ 0) readmission).storage.get? ⟨"b"⟩).bind
      MemberRecord.lease).map Lease.epoch = some ⟨1⟩ := by decide +kernel
  have hheld : (((machine.exec (init ⟨"a"⟩ 0) readmission).storage.get? ⟨"b"⟩).bind
      MemberRecord.lease).map Lease.epoch = some lease.epoch := by
    rw [hrecord, Option.bind_some, hlease, Option.map_some]
  rw [hheld, hepoch] at hstale
  exact absurd hstale (by decide)

/-- The same ring with `b` put back before the epoch changes. -/
def earlyReadmission : List Operation :=
  readmission.take 4 ++ [.tick 9, .apply .joinedAsCore ⟨"b"⟩]

/-- The plan made for that ring in epoch `1` rests on leases of epoch `1`. -/
theorem plan_leases_current_early_readmission :
    (machine.exec (init ⟨"a"⟩ 0) earlyReadmission).currentEpoch = ⟨1⟩ ∧
      ∀ a ∈ ({ readmissionPlan with epoch := ⟨1⟩ } : ShardPlan).assignments, ∃ record lease,
        (machine.exec (init ⟨"a"⟩ 0) earlyReadmission).storage.get? a.nodeID = some record ∧
          record.lease = some lease ∧ lease.epoch = ⟨1⟩ :=
  ⟨by decide +kernel,
    plan_leases_current ⟨"a"⟩ 0 {} .initial earlyReadmission (by decide +kernel) ⟨"m", 2, 100, 0⟩
      11 1 { readmissionPlan with epoch := ⟨1⟩ } (by decide +kernel)⟩

end MembershipService

end ShareCompute.Core
