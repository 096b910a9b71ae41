import ShareCompute.Core.MembershipSpec

namespace ShareCompute.Core

/-!
# What a call does to one record

`RecordStep` lists, once for all, how a call of the membership service can produce the record
of a node from the record it had: the node joins, rejoins, refreshes its profile, renews its
lease, misses a heartbeat, drains, changes state, is evicted, or has its lease re-issued by a
new epoch.  `recordStep_perform` says that there is no other way, so that an invariant of the
records needs one case for each.
-/

namespace MembershipService

variable {self : MembershipService}

/-! ### When a tick starts a new epoch -/

/-- The tick finds its planning set changed, and the current epoch old enough to replace. -/
def StartsEpoch (self : MembershipService) (now : Date) : Prop :=
  (self.evict now).1.planningSet ≠ self.lastEpochMembers ∧
    self.config.minimumEpochDwellTime ≤ now - self.lastEpochChangedAt

instance (self : MembershipService) (now : Date) : Decidable (self.StartsEpoch now) :=
  inferInstanceAs (Decidable (_ ∧ _))

/-- The same service in its next epoch, as far as issuing leases is concerned. -/
def inNextEpoch (self : MembershipService) : MembershipService :=
  { self with currentEpoch := self.currentEpoch.next }

/-- A tick that starts no epoch leaves everything as its evictions left it. -/
theorem tick_of_not_startsEpoch {now : Date} (h : ¬ self.StartsEpoch now) :
    (self.tick now).1 = (self.evict now).1 := by
  rw [tick_eq]
  rcases settleEpoch_cases (self.evict now).1 now with ⟨-, heq⟩ | ⟨hset, hdwell, -⟩ | ⟨-, -, heq⟩
  · rw [heq]
  · exact absurd ⟨hset, hdwell⟩ h
  · rw [heq]

theorem tick_of_startsEpoch {now : Date} (h : self.StartsEpoch now) :
    (self.tick now).1 = ((self.evict now).1.nextEpoch now).reissueLeases now := by
  rw [tick_eq]
  rcases settleEpoch_cases (self.evict now).1 now with
    ⟨hset, -⟩ | ⟨-, -, heq⟩ | ⟨-, hdwell, -⟩
  · exact absurd hset h.1
  · rw [heq]
  · exact absurd h.2 (not_le.mpr hdwell)

/-- Starting an epoch is announced, and nothing else is. -/
theorem startsEpoch_iff_announced {now : Date} :
    self.StartsEpoch now ↔ ∃ epoch members, .epochChanged epoch members ∈ (self.tick now).2 := by
  rw [tick_eq]
  constructor
  · rintro ⟨hset, hdwell⟩
    rcases settleEpoch_cases (self.evict now).1 now with ⟨hsame, -⟩ | ⟨-, -, heq⟩ | ⟨-, hyoung, -⟩
    · exact absurd hsame hset
    · exact ⟨_, _, List.mem_append_right _ (by rw [heq]; exact List.mem_singleton_self _)⟩
    · exact absurd hdwell (not_le.mpr hyoung)
  · rintro ⟨epoch, members, hmem⟩
    rcases List.mem_append.mp hmem with hmem | hmem
    · obtain ⟨_, _, _, _, -, -, heq⟩ := mem_evict_events.mp hmem
      cases heq
    · rcases settleEpoch_cases (self.evict now).1 now with
        ⟨-, heq⟩ | ⟨hset, hdwell, -⟩ | ⟨-, -, heq⟩
      · simp [heq] at hmem
      · exact ⟨hset, hdwell⟩
      · simp [heq] at hmem

/-! ### The steps of a record -/

/-- The node a call is about; a tick is about all of them. -/
def Operation.concerns (k : NodeID) : Operation → Prop
  | .nodeAppeared _ profile => profile.nodeID = k
  | .heartbeatSucceeded _ nodeID | .heartbeatFailed nodeID | .nodeAnnouncedDrain _ nodeID
  | .apply _ nodeID => nodeID = k
  | .tick _ => True

/-- `RecordStep self op k old new`: the call `op` on `self` makes `new` the record of `k`, which
    was `old`. -/
inductive RecordStep (self : MembershipService) :
    Operation → NodeID → Option MemberRecord → MemberRecord → Prop
  | kept {op : Operation} {k : NodeID} {record : MemberRecord} (hother : ¬ op.concerns k) :
      RecordStep self op k (some record) record
  | joined {now : Date} {profile : CapabilityProfile} :
      RecordStep self (.nodeAppeared now profile) profile.nodeID none (self.joined now profile)
  | rejoined {now : Date} {profile : CapabilityProfile} {record : MemberRecord}
      (hstate : record.state = .suspended) :
      RecordStep self (.nodeAppeared now profile) profile.nodeID (some record)
        (self.rejoined now profile record)
  | refreshed {now : Date} {profile : CapabilityProfile} {record : MemberRecord}
      (hstate : record.state ≠ .suspended) :
      RecordStep self (.nodeAppeared now profile) profile.nodeID (some record)
        (refreshed now profile record)
  | renewed {now : Date} {k : NodeID} {record : MemberRecord} :
      RecordStep self (.heartbeatSucceeded now k) k (some record) (self.renewed now record)
  | missed {k : NodeID} {record : MemberRecord} :
      RecordStep self (.heartbeatFailed k) k (some record) (missed record)
  | drains {now : Date} {k : NodeID} {record : MemberRecord}
      (hstate : record.state.participatesInPlanning = true) :
      RecordStep self (.nodeAnnouncedDrain now k) k (some record)
        { record with state := .draining, lastHeardFrom := now }
  | drainIgnored {now : Date} {k : NodeID} {record : MemberRecord}
      (hstate : record.state.participatesInPlanning = false) :
      RecordStep self (.nodeAnnouncedDrain now k) k (some record) record
  | moved {event : NodeEvent} {k : NodeID} {record : MemberRecord} :
      RecordStep self (.apply event k) k (some record)
        { record with state := (NodeStateMachine.apply event record.state).2 }
  | evicted {now : Date} {k : NodeID} {record : MemberRecord} {d : NodeEvent × EvictionReason}
      (hleaves : departure self.config now record = some d) :
      RecordStep self (.tick now) k (some record) { record with state := .suspended }
  | stays {now : Date} {k : NodeID} {record : MemberRecord}
      (hstays : departure self.config now record = none)
      (hlease : ¬ (self.StartsEpoch now ∧ record.state.participatesInPlanning = true)) :
      RecordStep self (.tick now) k (some record) record
  | reissued {now : Date} {k : NodeID} {record : MemberRecord}
      (hstays : departure self.config now record = none) (hepoch : self.StartsEpoch now)
      (hstate : record.state.participatesInPlanning = true) :
      RecordStep self (.tick now) k (some record)
        { record with
          lease := some (self.inNextEpoch.issueLease record.profile record.state now
            record.stabilityScore) }

/-- The records after a tick, by what the tick does. -/
theorem get?_tick (self : MembershipService) (now : Date) (k : NodeID) :
    (self.tick now).1.storage.get? k =
      ((self.storage.get? k).map (evictedRecord self.config now)).map (fun record =>
        if self.StartsEpoch now then
          ((self.evict now).1.nextEpoch now).reissuedRecord now record
        else record) := by
  by_cases hstarts : self.StartsEpoch now
  · rw [tick_of_startsEpoch hstarts, get?_reissueLeases]
    simp only [hstarts, if_true]
    exact congrArg (Option.map _) (self.get?_evict now k)
  · rw [tick_of_not_startsEpoch hstarts, get?_evict]
    simp only [hstarts, if_false, Option.map_id']

/-- The step of a record in a tick. -/
theorem recordStep_tick {now : Date} {k : NodeID} {new : MemberRecord}
    (h : (self.tick now).1.storage.get? k = some new) :
    RecordStep self (.tick now) k (self.storage.get? k) new := by
  rw [get?_tick, Option.map_map, Option.map_eq_some_iff] at h
  obtain ⟨record, hrecord, rfl⟩ := h
  rw [hrecord, Function.comp_apply, evictedRecord]
  cases hleaves : departure self.config now record with
  | some d =>
    -- who has just left is not re-leased
    have hnot : ((self.evict now).1.nextEpoch now).reissuedRecord now
        { record with state := .suspended } = { record with state := .suspended } := rfl
    simp only [Option.isSome_some, if_true, hnot, ite_self]
    exact .evicted hleaves
  | none =>
    simp only [Option.isSome_none, Bool.false_eq_true, if_false, reissuedRecord]
    by_cases hstarts : self.StartsEpoch now
    · by_cases hstate : record.state.participatesInPlanning = true
      · simp only [hstarts, hstate, if_true]
        exact .reissued hleaves hstarts hstate
      · simp only [hstarts, hstate, if_true]
        exact .stays hleaves fun hboth => hstate hboth.2
    · simp only [hstarts, if_false]
      exact .stays hleaves fun hboth => hstarts hboth.1

/-- **Every call is one of the steps**, for every record it leaves. -/
theorem recordStep_perform {op : Operation} {k : NodeID} {new : MemberRecord}
    (h : (self.perform op).1.storage.get? k = some new) :
    RecordStep self op k (self.storage.get? k) new := by
  by_cases hother : op.concerns k
  · cases op with
    | nodeAppeared now profile =>
      obtain rfl : profile.nodeID = k := hother
      rw [perform, get?_nodeAppeared, if_pos rfl, Option.some.injEq] at h
      subst h
      -- the node is new, comes back after a suspension, or shows itself once more
      cases hold : self.storage.get? profile.nodeID with
      | none => exact .joined
      | some record =>
        by_cases hstate : record.state = .suspended
        · simp only [hstate, if_true]
          exact .rejoined hstate
        · simp only [hstate, if_false]
          exact .refreshed hstate
    | heartbeatSucceeded now nodeID =>
      obtain rfl : nodeID = k := hother
      rw [perform, get?_heartbeatSucceeded, if_pos rfl] at h
      obtain ⟨record, hold, rfl⟩ := Option.map_eq_some_iff.mp h
      exact hold ▸ .renewed
    | heartbeatFailed nodeID =>
      obtain rfl : nodeID = k := hother
      rw [perform, get?_heartbeatFailed, if_pos rfl] at h
      obtain ⟨record, hold, rfl⟩ := Option.map_eq_some_iff.mp h
      exact hold ▸ .missed
    | nodeAnnouncedDrain now nodeID =>
      obtain rfl : nodeID = k := hother
      rw [perform, get?_nodeAnnouncedDrain, if_pos rfl] at h
      obtain ⟨record, hold, rfl⟩ := Option.map_eq_some_iff.mp h
      rw [hold]
      simp only [NodeStateMachine.apply_enteredBackground]
      -- a drain moves only a node that takes part in planning
      cases hstate : record.state.participatesInPlanning with
      | true => exact .drains hstate
      | false => exact .drainIgnored hstate
    | apply event nodeID =>
      obtain rfl : nodeID = k := hother
      rw [perform, get?_apply, if_pos rfl] at h
      obtain ⟨record, hold, rfl⟩ := Option.map_eq_some_iff.mp h
      exact hold ▸ .moved
    | tick now => exact recordStep_tick h
  · -- a call about another node leaves this record alone
    have hsame : (self.perform op).1.storage.get? k = self.storage.get? k := by
      cases op with
      | nodeAppeared now profile =>
        rw [perform, get?_nodeAppeared, if_neg (fun heq => hother heq.symm)]
      | heartbeatSucceeded now nodeID =>
        rw [perform, get?_heartbeatSucceeded, if_neg (fun heq => hother heq.symm)]
      | heartbeatFailed nodeID =>
        rw [perform, get?_heartbeatFailed, if_neg (fun heq => hother heq.symm)]
      | nodeAnnouncedDrain now nodeID =>
        rw [perform, get?_nodeAnnouncedDrain, if_neg (fun heq => hother heq.symm)]
      | apply event nodeID => rw [perform, get?_apply, if_neg (fun heq => hother heq.symm)]
      | tick now => exact absurd trivial hother
    rw [← hsame, h]
    exact .kept hother

end MembershipService

end ShareCompute.Core
