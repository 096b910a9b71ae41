import ShareCompute.Core.MembershipReplay
import ShareCompute.Core.RecordStep

namespace ShareCompute.Core

open ShareCompute.Library

/-!
# Who a tick evicts, and why

The eviction law is about the calls an adapter has made: `missedSince k ops` counts the
heartbeats of `k` reported as failed since it last answered or appeared.  `Counted` ties that
count to the counter in the record, over every way a record can change; the rest of the law
reads the three tests of the tick's loop (`leaving`) in these terms.

A node that has been evicted is suspended and stays so until a call lets it back in
(`Enters`), which is why a segment of a run without such a call evicts it at most once.
-/

namespace MembershipService

/-! ### Counting missed heartbeats over a run -/

/-- The call reports a sign of life of the node. -/
def Operation.hears (k : NodeID) : Operation → Bool
  | .nodeAppeared _ profile => profile.nodeID = k
  | .heartbeatSucceeded _ nodeID => nodeID = k
  | _ => false

/-- The call reports a heartbeat the node did not answer. -/
def Operation.misses (k : NodeID) : Operation → Bool
  | .heartbeatFailed nodeID => nodeID = k
  | _ => false

/-- The failed heartbeats of `k` since it last answered or appeared. -/
def missedSince (k : NodeID) (ops : List Operation) : ℕ :=
  (ops.reverse.takeWhile (fun op => !op.hears k)).countP (·.misses k)

/-- One operation more starts the count of a node again, adds one to it, or leaves it. -/
theorem missedSince_snoc (k : NodeID) (ops : List Operation) (op : Operation) :
    missedSince k (ops ++ [op]) =
      if op.hears k then 0 else missedSince k ops + (if op.misses k then 1 else 0) := by
  rw [missedSince, List.reverse_append, List.reverse_singleton, List.singleton_append,
    List.takeWhile_cons]
  cases hhears : op.hears k with
  | true => rfl
  | false =>
    simp only [Bool.not_false, if_true, List.countP_cons, Bool.false_eq_true, if_false]
    rfl

/-- What the calls made so far say about a record: its counter is their count, and it holds a
    lease. -/
structure Counted (ops : List Operation) (k : NodeID) (record : MemberRecord) : Prop where
  missed : record.consecutiveMissedHeartbeats = missedSince k ops
  leased : ∃ lease, record.lease = some lease

/-- A call that neither hears nor misses the node leaves its count alone. -/
theorem Counted.snoc {ops : List Operation} {k : NodeID} {record record' : MemberRecord}
    (h : Counted ops k record) {op : Operation} (hhears : op.hears k = false)
    (hmisses : op.misses k = false)
    (hmissed : record'.consecutiveMissedHeartbeats = record.consecutiveMissedHeartbeats)
    (hlease : record'.lease = record.lease ∨ ∃ lease, record'.lease = some lease) :
    Counted (ops ++ [op]) k record' where
  missed := by
    rw [hmissed, h.missed, missedSince_snoc, hhears, hmisses]
    simp
  leased := by
    rcases hlease with hsame | hnew
    · exact hsame ▸ h.leased
    · exact hnew

/-- **Step lemma.**  If a record counts the calls before, its successor counts them with the new
    one. -/
theorem Counted.step {self : MembershipService} {ops : List Operation} {op : Operation}
    {k : NodeID} {old : Option MemberRecord} {new : MemberRecord}
    (hstep : RecordStep self op k old new) (h : ∀ record ∈ old, Counted ops k record) :
    Counted (ops ++ [op]) k new := by
  cases hstep with
  | kept hother =>
    refine (h _ rfl).snoc ?_ ?_ rfl (.inl rfl)
    · cases op <;> simp_all [Operation.concerns, Operation.hears]
    · cases op <;> simp_all [Operation.concerns, Operation.misses]
  | joined => exact ⟨by simp [missedSince_snoc, Operation.hears, joined], _, rfl⟩
  | rejoined hstate => exact ⟨by simp [missedSince_snoc, Operation.hears, rejoined], _, rfl⟩
  | refreshed hstate =>
    exact ⟨by simp [missedSince_snoc, Operation.hears, refreshed], (h _ rfl).leased⟩
  | renewed =>
    -- a heartbeat starts the count again
    refine ⟨by simp [missedSince_snoc, Operation.hears, renewed], ?_⟩
    simp only [renewed]
    split
    · exact ⟨_, rfl⟩
    · exact (h _ rfl).leased
  | @missed _ record =>
    -- a miss is counted on both sides
    have hcount := (h record rfl).missed
    refine ⟨?_, (h record rfl).leased⟩
    simp only [missedSince_snoc, Operation.hears, Operation.misses, decide_true, if_true,
      Bool.false_eq_true, if_false, MembershipService.missed, hcount]
    push_cast
    rfl
  | drains hstate => exact (h _ rfl).snoc rfl rfl rfl (.inl rfl)
  | drainIgnored hstate => exact (h _ rfl).snoc rfl rfl rfl (.inl rfl)
  | moved => exact (h _ rfl).snoc rfl rfl rfl (.inl rfl)
  | evicted hleaves => exact (h _ rfl).snoc rfl rfl rfl (.inl rfl)
  | stays hstays hlease => exact (h _ rfl).snoc rfl rfl rfl (.inl rfl)
  | reissued hstays hepoch hstate => exact (h _ rfl).snoc rfl rfl rfl (.inr ⟨_, rfl⟩)

/-- **Run lemma.**  In every state reached the counters are the counts over the calls made. -/
theorem counted_exec {start : MembershipService} (hstart : start.storage = .empty)
    (ops : List Operation) {k : NodeID} {record : MemberRecord}
    (h : (machine.exec start ops).storage.get? k = some record) : Counted ops k record := by
  induction ops using List.reverseRecOn generalizing record with
  | nil => simp [hstart] at h
  | append_singleton ops op ih =>
    rw [machine.exec_snoc] at h
    exact Counted.step (recordStep_perform h) fun record hrecord => ih hrecord

/-! ### The three tests of the loop -/

/-- The loop's tests, in order: a drain, too many missed heartbeats, an invalid lease. -/
theorem leaving_eq {self : MembershipService} {now : Date} {k : NodeID} {record : MemberRecord}
    (h : self.storage.get? k = some record) :
    self.leaving now k =
      if record.state = .draining then some .drained
      else if record.state.participatesInPlanning = false then none
      else if self.config.missedHeartbeatsBeforeEviction ≤ record.consecutiveMissedHeartbeats then
        some .heartbeatLost
      else if ∃ lease ∈ record.lease, lease.isValid now = false then some .leaseExpired
      else none := by
  rw [leaving, h, Option.bind_some, departure]
  by_cases hdraining : record.state = .draining
  · simp [hdraining]
  cases hstate : record.state.participatesInPlanning with
  | false => simp [hdraining]
  | true =>
    by_cases hmissed : self.config.missedHeartbeatsBeforeEviction
        ≤ record.consecutiveMissedHeartbeats
    · simp [hdraining, hmissed]
    · cases hlease : record.lease with
      | none => simp [hdraining, hmissed]
      | some lease => cases hvalid : lease.isValid now <;> simp [hdraining, hmissed, hvalid]

/-- Who is not there does not leave. -/
theorem leaving_of_none {self : MembershipService} {now : Date} {k : NodeID}
    (h : self.storage.get? k = none) : self.leaving now k = none := by
  rw [leaving, h]
  rfl

/-- The eviction law of a tick at `now` on the service that the calls `ops` led to. -/
structure ExactEvictions (self : MembershipService) (ops : List Operation) (now : Date) : Prop where
  /-- too many heartbeats missed since the last sign of life, whatever the lease -/
  heartbeatLost : ∀ k, .nodeEvicted k .heartbeatLost ∈ (self.tick now).2 ↔
    k ∈ self.planningMembers.map PlannedMember.nodeID ∧
      self.config.missedHeartbeatsBeforeEviction ≤ missedSince k ops
  /-- an invalid lease, below the threshold -/
  leaseExpired : ∀ k, .nodeEvicted k .leaseExpired ∈ (self.tick now).2 ↔
    (∃ member ∈ self.planningMembers, member.nodeID = k ∧
      ∃ lease, member.lease = some lease ∧ lease.isValid now = false) ∧
      missedSince k ops < self.config.missedHeartbeatsBeforeEviction
  drained : ∀ k, .nodeEvicted k .drained ∈ (self.tick now).2 ↔ self.stateOf k = some .draining
  /-- who is not evicted keeps the record, but for a lease of the epoch the tick starts -/
  others : ∀ k record, self.storage.get? k = some record →
    (∀ reason, .nodeEvicted k reason ∉ (self.tick now).2) →
      (self.tick now).1.storage.get? k = some record ∨
      ∃ epoch members lease, .epochChanged epoch members ∈ (self.tick now).2 ∧
        lease.epoch = epoch ∧
        (self.tick now).1.storage.get? k = some { record with lease := some lease }

/-- The names of the planning members are the planning set. -/
theorem mem_map_planningMembers {self : MembershipService} {k : NodeID} :
    k ∈ self.planningMembers.map PlannedMember.nodeID ↔ k ∈ self.planningSet := by
  rw [planningSet, List.mem_toFinset]

/-- A planning member has its record's lease. -/
theorem exists_member_iff {self : MembershipService} {k : NodeID} {record : MemberRecord}
    (h : self.storage.get? k = some record) (P : Option Lease → Prop) :
    (∃ member ∈ self.planningMembers, member.nodeID = k ∧ P member.lease) ↔
      record.state.participatesInPlanning = true ∧ P record.lease := by
  constructor
  · rintro ⟨member, hmember, rfl, hP⟩
    obtain ⟨record', hrecord', hstate, heq⟩ := mem_planningMembers.mp hmember
    obtain rfl := Option.some.inj (h.symm.trans hrecord')
    have hlease : member.lease = record.lease := by rw [heq]
    exact ⟨hstate, hlease ▸ hP⟩
  · rintro ⟨hstate, hP⟩
    have hkey : record.profile.nodeID = k := self.storage.keyed k record h
    refine ⟨{ profile := record.profile, state := record.state, lease := record.lease }, ?_,
      hkey, hP⟩
    have hfiled : self.storage.get? record.profile.nodeID = some record := by rw [hkey, h]
    exact mem_planningMembers.mpr ⟨record, hfiled, hstate, rfl⟩

/-- The epoch a tick announces is the next one. -/
theorem epochChanged_of_startsEpoch {self : MembershipService} {now : Date}
    (h : self.StartsEpoch now) :
    ∃ members, .epochChanged self.currentEpoch.next members ∈ (self.tick now).2 := by
  rw [tick_eq]
  rcases settleEpoch_cases (self.evict now).1 now with ⟨hsame, -⟩ | ⟨-, -, heq⟩ | ⟨-, hyoung, -⟩
  · exact absurd hsame h.1
  · exact ⟨_, List.mem_append_right _ (by rw [heq]; exact List.mem_singleton_self _)⟩
  · exact absurd h.2 (not_le.mpr hyoung)

section leaving

variable {self : MembershipService} {now : Date} {k : NodeID} {record : MemberRecord}

/-- A node leaves for its heartbeats exactly if it takes part in planning and has missed as many as
    are allowed. -/
theorem leaving_heartbeatLost_iff (h : self.storage.get? k = some record) :
    self.leaving now k = some .heartbeatLost ↔
      record.state.participatesInPlanning = true ∧
        self.config.missedHeartbeatsBeforeEviction ≤ record.consecutiveMissedHeartbeats := by
  rw [leaving_eq h]
  cases hstate : record.state with
  | draining => simp [NodeState.participatesInPlanning]
  | suspended => simp [NodeState.participatesInPlanning]
  | activeCore | activeElastic | opportunistic =>
    simp only [NodeState.participatesInPlanning, reduceCtorEq, if_false, true_and,
      Bool.true_eq_false]
    split
    · simp_all
    · split <;> simp_all

/-- A node leaves for its lease exactly if the lease has run out and the heartbeats are no
    reason. -/
theorem leaving_leaseExpired_iff (h : self.storage.get? k = some record) :
    self.leaving now k = some .leaseExpired ↔
      (record.state.participatesInPlanning = true ∧
        ∃ lease, record.lease = some lease ∧ lease.isValid now = false) ∧
        record.consecutiveMissedHeartbeats < self.config.missedHeartbeatsBeforeEviction := by
  rw [leaving_eq h]
  cases hstate : record.state with
  | draining => simp [NodeState.participatesInPlanning]
  | suspended => simp [NodeState.participatesInPlanning]
  | activeCore | activeElastic | opportunistic =>
    simp only [NodeState.participatesInPlanning, reduceCtorEq, if_false, true_and,
      Bool.true_eq_false, Option.mem_def]
    split
    · simp_all
    · split <;> simp_all

/-- A node leaves as drained exactly if it is draining. -/
theorem leaving_drained_iff (h : self.storage.get? k = some record) :
    self.leaving now k = some .drained ↔ record.state = .draining := by
  rw [leaving_eq h]
  by_cases hdraining : record.state = .draining
  · simp [hdraining]
  · simp only [hdraining, if_false, iff_false]
    split
    · simp
    · split
      · simp
      · split <;> simp

/-- Who is not evicted keeps the record, but for a lease of the epoch the tick starts. -/
theorem kept_of_not_evicted (h : self.storage.get? k = some record)
    (hstays : ∀ reason, .nodeEvicted k reason ∉ (self.tick now).2) :
    (self.tick now).1.storage.get? k = some record ∨
      ∃ epoch members lease, .epochChanged epoch members ∈ (self.tick now).2 ∧
        lease.epoch = epoch ∧
        (self.tick now).1.storage.get? k = some { record with lease := some lease } := by
  have hnone : departure self.config now record = none := by
    have hleaving : self.leaving now k = none := by
      refine Option.eq_none_iff_forall_ne_some.mpr fun reason hreason => ?_
      exact hstays reason (nodeEvicted_mem_tick.mpr hreason)
    simpa [leaving, h] using hleaving
  obtain ⟨new, hnew⟩ : ∃ new, (self.tick now).1.storage.get? k = some new := by
    rw [get?_tick, h]
    exact ⟨_, rfl⟩
  have hstep := recordStep_tick hnew
  rw [h] at hstep
  cases hstep with
  | kept hother => exact absurd trivial hother
  | evicted hleaves => simp [hnone] at hleaves
  | stays _ _ => exact .inl hnew
  | reissued _ hepoch _ =>
    obtain ⟨members, hmembers⟩ := epochChanged_of_startsEpoch hepoch
    exact .inr ⟨_, members, _, hmembers, rfl, hnew⟩

end leaving

/-- **The law of one tick**, given what the counters count. -/
theorem exactEvictions_of_counted {self : MembershipService} {ops : List Operation}
    (hcounted : ∀ k record, self.storage.get? k = some record → Counted ops k record)
    (now : Date) : ExactEvictions self ops now where
  heartbeatLost k := by
    rw [nodeEvicted_mem_tick, mem_map_planningMembers, mem_planningSet]
    cases hrecord : self.storage.get? k with
    | none => simp [leaving_of_none hrecord]
    | some record =>
      rw [leaving_heartbeatLost_iff hrecord, (hcounted k record hrecord).missed]
      simp
  leaseExpired k := by
    rw [nodeEvicted_mem_tick]
    cases hrecord : self.storage.get? k with
    | none =>
      rw [leaving_of_none hrecord]
      refine iff_of_false (by simp) ?_
      rintro ⟨⟨member, hmember, rfl, -⟩, -⟩
      obtain ⟨record, hsome, -⟩ := mem_planningMembers.mp hmember
      simp [hrecord] at hsome
    | some record =>
      rw [exists_member_iff hrecord
        (fun held => ∃ lease, held = some lease ∧ lease.isValid now = false),
        leaving_leaseExpired_iff hrecord, (hcounted k record hrecord).missed]
  drained k := by
    rw [nodeEvicted_mem_tick, stateOf]
    cases hrecord : self.storage.get? k with
    | none => simp [leaving_of_none hrecord]
    | some record =>
      rw [leaving_drained_iff hrecord, Option.map_some, Option.some.injEq]
  others _ _ hrecord hstays := kept_of_not_evicted hrecord hstays

/-! ### At most one eviction between two entries -/

/-- The node is known and not suspended. -/
def Active (k : NodeID) (self : MembershipService) : Prop :=
  ∃ state, self.stateOf k = some state ∧ state ≠ .suspended

/-- The call lets the node into a state other than `suspended`. -/
def Enters (k : NodeID) (e : Entry MembershipService Operation (List MembershipEvent)) : Prop :=
  ¬ Active k e.before ∧ Active k e.after

/-- The event is an eviction of the node. -/
def evicts (k : NodeID) : MembershipEvent → Bool
  | .nodeEvicted node _ => node = k
  | _ => false

/-- The evictions of `k` in the returned events of some calls. -/
def evictions (k : NodeID) (h : List (Entry MembershipService Operation (List MembershipEvent))) :
    ℕ := (Machine.events h).countP (evicts k)

/-- Only a tick evicts; the other calls do not look at the time. -/
theorem tick_of_evicts {self : MembershipService} {op : Operation} {k : NodeID}
    (h : 0 < (self.perform op).2.countP (evicts k)) : ∃ now, op = .tick now := by
  obtain ⟨event, hmem, hevicts⟩ := List.countP_pos_iff.mp h
  cases op with
  | tick now => exact ⟨now, rfl⟩
  | nodeAppeared now profile =>
    rw [perform, nodeAppeared_events] at hmem
    split at hmem
    · rw [List.mem_singleton.mp hmem] at hevicts
      simp [evicts] at hevicts
    · simp at hmem
  | nodeAnnouncedDrain now nodeID =>
    rw [perform, nodeAnnouncedDrain_events] at hmem
    split at hmem
    · rw [List.mem_singleton.mp hmem] at hevicts
      simp [evicts] at hevicts
    · simp at hmem
  | _ => simp [perform] at hmem

/-- A tick evicts a node at most once: its loop visits every node once. -/
theorem tick_evicts_le_one (self : MembershipService) (now : Date) (k : NodeID) :
    (self.tick now).2.countP (evicts k) ≤ 1 := by
  have hsettle : ((self.evict now).1.settleEpoch now).2.countP (evicts k) = 0 := by
    rcases settleEpoch_cases (self.evict now).1 now with ⟨-, heq⟩ | ⟨-, -, heq⟩ | ⟨-, -, heq⟩ <;>
      simp [heq, evicts]
  rw [tick_eq, List.countP_append, hsettle, add_zero, evict_events, List.countP_filterMap]
  calc (Dictionary.sortedKeys self.storage.records).countP
        (fun k' => (((self.leaving now k').map (MembershipEvent.nodeEvicted k')).map
          (evicts k)).getD false)
      ≤ (Dictionary.sortedKeys self.storage.records).countP (· == k) := by
        refine List.countP_mono_left fun k' _ hany => ?_
        cases hleaving : self.leaving now k' with
        | none => simp [hleaving] at hany
        | some reason => simpa [hleaving, evicts] using hany
    _ ≤ 1 := List.nodup_iff_count_le_one.mp (Dictionary.nodup_sortedKeys _) k

/-- Who is evicted was active and is suspended afterwards. -/
theorem active_of_evicts {self : MembershipService} {op : Operation} {k : NodeID}
    (h : 0 < (self.perform op).2.countP (evicts k)) :
    Active k self ∧ ¬ Active k (self.perform op).1 := by
  obtain ⟨now, rfl⟩ := tick_of_evicts h
  obtain ⟨event, hmem, hevicts⟩ := List.countP_pos_iff.mp h
  obtain ⟨reason, rfl⟩ : ∃ reason, event = .nodeEvicted k reason := by
    cases event with
    | nodeEvicted node reason =>
      obtain rfl : node = k := by simpa [evicts] using hevicts
      exact ⟨reason, rfl⟩
    | _ => simp [evicts] at hevicts
  have hleaving := nodeEvicted_mem_tick.mp hmem
  constructor
  · cases hrecord : self.storage.get? k with
    | none => simp [leaving_of_none hrecord] at hleaving
    | some record =>
      refine ⟨record.state, by rw [stateOf, hrecord, Option.map_some], fun hsuspended => ?_⟩
      simp [leaving_eq hrecord, hsuspended] at hleaving
  · rintro ⟨state, hstate, hactive⟩
    rw [perform, stateOf_tick, hleaving] at hstate
    exact hactive (Option.some.inj hstate).symm

/-- **At most once.**  Calls of which none lets a node in evict it at most once. -/
theorem evictions_le_one (self : MembershipService) (ops : List Operation) (k : NodeID)
    (hcalls : ∀ e ∈ machine.history self ops, ¬ Enters k e) :
    evictions k (machine.history self ops) ≤ 1 := by
  -- once evicted, the node stays out
  have hrun := machine.run_induction (P := fun e => ¬ Enters k e)
    (I := fun h s => evictions k h = 0 ∨ (evictions k h = 1 ∧ ¬ Active k s))
    (.inl rfl) ?_ ops hcalls
  · omega
  intro h s op ih hnot
  have hsplit : evictions k (h ++ [machine.entry s op])
      = evictions k h + (s.perform op).2.countP (evicts k) := by
    rw [evictions, Machine.events_snoc, List.countP_append]
    rfl
  rw [hsplit]
  by_cases hevicts : 0 < (s.perform op).2.countP (evicts k)
  · obtain ⟨hbefore, hafter⟩ := active_of_evicts hevicts
    obtain ⟨now, rfl⟩ := tick_of_evicts hevicts
    have hle : (s.perform (.tick now)).2.countP (evicts k) ≤ 1 := s.tick_evicts_le_one now k
    rcases ih with h0 | ⟨-, hout⟩
    · exact .inr ⟨by omega, hafter⟩
    · exact absurd hbefore hout
  · rcases ih with h0 | ⟨h1, hout⟩
    · exact .inl (by omega)
    · exact .inr ⟨by omega, fun hin => hnot ⟨hout, hin⟩⟩

/-! ### The law -/

/-- **Eviction is exact.**  In every run of a new service, over all its operations, every tick
    evicts exactly whom the three tests name in terms of the calls made so far and changes no
    other record but by a lease of an epoch it starts; and between two calls that let a node in
    the node is evicted at most once. -/
theorem eviction_exact (localNodeID : NodeID) (start : Date) (config : MembershipConfig)
    (epoch : Epoch) (ops : List Operation) :
    (∀ pre now post, ops = pre ++ .tick now :: post →
      ExactEvictions (machine.exec (init localNodeID start config epoch) pre) pre now) ∧
    ∀ pre segment post k, ops = pre ++ segment ++ post →
      (∀ e ∈ machine.history (machine.exec (init localNodeID start config epoch) pre) segment,
        ¬ Enters k e) →
      evictions k
        (machine.history (machine.exec (init localNodeID start config epoch) pre) segment) ≤ 1 := by
  refine ⟨fun pre now post _ => ?_, fun pre segment post k _ hcalls => ?_⟩
  · exact exactEvictions_of_counted (fun k record => counted_exec rfl pre) now
  · exact evictions_le_one _ segment k hcalls

end MembershipService

end ShareCompute.Core
