import ShareCompute.Core.MembershipReplay
import ShareCompute.Core.RecordStep

namespace ShareCompute.Core

open ShareCompute.Library

/-!
# What a lease grants

`issueLease` never grants more time than the node's OS can honour, and no required stage to a
node whose state may not host one.  `Covered` says that this is still so for the lease,
profile and state a record holds now.

Four operations issue a lease whenever they change what it rests on.  Two do not:
`nodeAppeared` adopts a new profile for a member without renewing its lease, and `apply` moves
a node to another state on the lease it has.  `KeepsGrant` is what these calls must find for
the grant to stay covered, and `grants_covered_iff` says that nothing else matters.
-/

namespace MembershipService

/-- The length of time a lease was granted for. -/
def granted (lease : Lease) : TimeInterval := lease.expiresAt - lease.issuedAt

/-- The longest lease that a node of this profile gets. -/
def leaseLength (config : MembershipConfig) (profile : CapabilityProfile) : TimeInterval :=
  min config.leaseDuration profile.maximumSupportableLeaseDuration

/-- A lease grants no more than `config`, `profile` and `state` allow. -/
structure Covered (config : MembershipConfig) (profile : CapabilityProfile) (state : NodeState)
    (lease : Lease) : Prop where
  configured : granted lease ≤ config.leaseDuration
  supported : granted lease ≤ profile.maximumSupportableLeaseDuration
  stages : ∀ stage ∈ lease.allowedStageTypes, stage.isRequired = true →
    state.canHostRequiredStage = true

/-- The leases of all planning members are covered by their current profiles and states. -/
def GrantsCovered (self : MembershipService) : Prop :=
  ∀ member ∈ self.planningMembers, ∀ lease, member.lease = some lease →
    Covered self.config member.profile member.state lease

/-- What a call that changes a profile or a state but issues no lease must find: a lease that
    the new profile supports, and that lists no required stage if the new state may host none. -/
def KeepsGrant (self : MembershipService) : Operation → Prop
  | .nodeAppeared _ profile => ∀ record ∈ self.storage.get? profile.nodeID,
      record.state.participatesInPlanning = true → ∀ lease ∈ record.lease,
        granted lease ≤ profile.maximumSupportableLeaseDuration
  | .apply event nodeID => ∀ record ∈ self.storage.get? nodeID,
      ∀ state ∈ NodeStateMachine.next record.state event, state.participatesInPlanning = true →
        ∀ lease ∈ record.lease, granted lease ≤ record.profile.maximumSupportableLeaseDuration ∧
          (state.canHostRequiredStage = false →
            ∀ stage ∈ lease.allowedStageTypes, stage.isRequired = false)
  | _ => True

instance (self : MembershipService) : DecidablePred self.KeepsGrant
  | .nodeAppeared .. => by
      dsimp only [KeepsGrant]
      infer_instance
  | .apply .. => by
      dsimp only [KeepsGrant]
      infer_instance
  | .heartbeatSucceeded .. | .heartbeatFailed .. | .nodeAnnouncedDrain .. | .tick .. =>
      isTrue trivial

/-! ### Issuing a lease -/

/-- A lease is covered by what it was issued for. -/
theorem covered_issueLease (self : MembershipService) (profile : CapabilityProfile)
    (state : NodeState) (now : Date) (stabilityScore : ℚ) :
    Covered self.config profile state (self.issueLease profile state now stabilityScore) := by
  have hlength : granted (self.issueLease profile state now stabilityScore)
      = min self.config.leaseDuration profile.maximumSupportableLeaseDuration := by
    rw [granted, issueLease]
    ring
  refine ⟨hlength ▸ min_le_left _ _, hlength ▸ min_le_right _ _, fun stage hstage hrequired => ?_⟩
  rw [issueLease] at hstage
  by_contra hhost
  simp only [hhost, if_false, Finset.mem_filter, hrequired, Bool.not_true] at hstage
  exact absurd hstage.2 Bool.false_ne_true

/-! ### One call -/

/-- What holds of every record: the lease is never longer than configured, and the lease of a
    planning member is covered. -/
structure Grant (config : MembershipConfig) (record : MemberRecord) : Prop where
  configured : ∀ lease, record.lease = some lease → granted lease ≤ config.leaseDuration
  covered : record.state.participatesInPlanning = true → ∀ lease, record.lease = some lease →
    Covered config record.profile record.state lease

/-- A record with a lease just issued for its profile and state. -/
theorem Grant.of_issued {self : MembershipService} {record : MemberRecord} {now : Date} {score : ℚ}
    (h : record.lease = some (self.issueLease record.profile record.state now score)) :
    Grant self.config record := by
  have hcovered := self.covered_issueLease record.profile record.state now score
  refine ⟨fun lease hlease => ?_, fun _ lease hlease => ?_⟩
  · obtain rfl := Option.some.inj (h.symm.trans hlease)
    exact hcovered.configured
  · obtain rfl := Option.some.inj (h.symm.trans hlease)
    exact hcovered

/-- Where nothing is planned, the profile and the state do not matter. -/
theorem Grant.of_absent {config : MembershipConfig} {record record' : MemberRecord}
    (h : Grant config record) (hlease : record'.lease = record.lease)
    (hstate : record'.state.participatesInPlanning = false) : Grant config record' :=
  ⟨fun lease h' => h.configured lease (hlease ▸ h'), fun hplans => by simp [hstate] at hplans⟩

/-- **Step lemma.**  A call that finds what `KeepsGrant` asks keeps the grant of every record. -/
theorem Grant.step {self : MembershipService} {op : Operation} {k : NodeID} {new : MemberRecord}
    (hkeeps : self.KeepsGrant op) (hnew : (self.perform op).1.storage.get? k = some new)
    (h : ∀ record, self.storage.get? k = some record → Grant self.config record) :
    Grant self.config new := by
  have hstep := recordStep_perform hnew
  generalize hold : self.storage.get? k = old at hstep h
  cases hstep with
  | kept hother => exact h _ rfl
  | joined => exact .of_issued rfl
  | rejoined hstate => exact .of_issued rfl
  | @refreshed now profile record hstate =>
    -- the lease stays, so the new profile must support it
    refine ⟨(h record rfl).configured, fun hplans lease hlease => ?_⟩
    have hbefore := (h record rfl).covered hplans lease hlease
    exact ⟨hbefore.configured, hkeeps record hold hplans lease hlease, hbefore.stages⟩
  | @renewed now _ record =>
    cases hplans : record.state.participatesInPlanning with
    | true =>
      have hlease : (self.renewed now record).lease = some (self.issueLease record.profile
          record.state now (smoothed record.stabilityScore 1)) := by
        simp only [renewed, hplans, if_true]
      exact .of_issued hlease
    | false =>
      refine (h record rfl).of_absent ?_ hplans
      simp only [renewed, hplans]
      rfl
  | missed => exact ⟨(h _ rfl).configured, (h _ rfl).covered⟩
  | drains hstate => exact (h _ rfl).of_absent rfl rfl
  | drainIgnored hstate => exact h _ rfl
  | @moved event _ record =>
    -- the lease stays, so the new state must be allowed what it lists
    refine ⟨(h record rfl).configured, fun hplans lease hlease => ?_⟩
    simp only [NodeStateMachine.apply] at hplans ⊢
    cases hnext : NodeStateMachine.next record.state event with
    | none =>
      simp only [hnext] at hplans ⊢
      exact (h record rfl).covered hplans lease hlease
    | some state =>
      simp only [hnext] at hplans ⊢
      obtain ⟨hsupported, hstages⟩ := hkeeps record hold state hnext hplans lease hlease
      refine ⟨(h record rfl).configured lease hlease, hsupported, fun stage hstage hrequired => ?_⟩
      by_contra hhost
      simp [hstages (Bool.not_eq_true _ ▸ hhost) stage hstage] at hrequired
  | evicted hleaves => exact (h _ rfl).of_absent rfl rfl
  | stays hstays hlease => exact h _ rfl
  | @reissued now _ record hstays hepoch hstate =>
    -- the lease is issued by the service of the next epoch, with the same configuration
    have hgrant : Grant self.inNextEpoch.config { record with
        lease := some (self.inNextEpoch.issueLease record.profile record.state now
          record.stabilityScore) } := .of_issued rfl
    exact hgrant

/-! ### Whole runs -/

/-- No call changes the configuration, so that of the start holds throughout. -/
theorem config_perform (self : MembershipService) (op : Operation) :
    (self.perform op).1.config = self.config := by
  cases op with
  | tick now =>
    rw [perform]
    by_cases hstarts : self.StartsEpoch now
    · rw [tick_of_startsEpoch hstarts]
      rfl
    · rw [tick_of_not_startsEpoch hstarts]
      rfl
  | _ => exact (perform_frame self _ (by simp)).config

/-- **Run lemma.**  If every call keeps what was granted, each lease grants what it should. -/
theorem grant_exec {start : MembershipService} (hstart : start.storage = .empty)
    (ops : List Operation)
    (hkeeps : ∀ e ∈ machine.history start ops, e.before.KeepsGrant e.call) :
    ∀ k record, (machine.exec start ops).storage.get? k = some record →
      Grant (machine.exec start ops).config record := by
  refine machine.run_induction (P := fun e => e.before.KeepsGrant e.call)
    (I := fun _ self => ∀ k record, self.storage.get? k = some record → Grant self.config record)
    ?_ ?_ ops hkeeps
  · intro k record hrecord
    simp [hstart] at hrecord
  · intro h self op ih hop k new hnew
    have hgrant : Grant self.config new := Grant.step hop hnew (ih k)
    exact self.config_perform op ▸ hgrant

/-- Covered grants are a matter of the records. -/
theorem grantsCovered_iff {self : MembershipService} :
    self.GrantsCovered ↔ ∀ k record, self.storage.get? k = some record →
      record.state.participatesInPlanning = true → ∀ lease, record.lease = some lease →
        Covered self.config record.profile record.state lease := by
  constructor
  · intro h k record hrecord hplans lease hlease
    have hkey : record.profile.nodeID = k := self.storage.keyed k record hrecord
    have hfiled : self.storage.get? record.profile.nodeID = some record := by rw [hkey, hrecord]
    exact h { profile := record.profile, state := record.state, lease := record.lease }
      (mem_planningMembers.mpr ⟨record, hfiled, hplans, rfl⟩) lease hlease
  · intro h member hmember lease hlease
    obtain ⟨record, hrecord, hplans, rfl⟩ := mem_planningMembers.mp hmember
    exact h _ record hrecord hplans lease hlease

/-- If the grants are covered after a call, the call found what `KeepsGrant` asks. -/
theorem keepsGrant_of_covered {self : MembershipService} {op : Operation}
    (h : (self.perform op).1.GrantsCovered) : self.KeepsGrant op := by
  rw [grantsCovered_iff] at h
  cases op with
  | nodeAppeared now profile =>
    intro record hrecord hplans lease hlease
    -- a planning member is refreshed, and keeps its lease
    have hactive : record.state ≠ .suspended := by
      rintro hsuspended
      simp [hsuspended] at hplans
    have hnew : (self.perform (.nodeAppeared now profile)).1.storage.get? profile.nodeID
        = some (refreshed now profile record) := by
      rw [perform, get?_nodeAppeared, if_pos rfl, Option.mem_def.mp hrecord]
      simp only [hactive, if_false]
    exact (h _ _ hnew hplans lease hlease).supported
  | apply event nodeID =>
    intro record hrecord state hnext hplans lease hlease
    have hmoved : (NodeStateMachine.apply event record.state).2 = state := by
      simp only [NodeStateMachine.apply, Option.mem_def.mp hnext]
    have hnew : (self.perform (.apply event nodeID)).1.storage.get? nodeID
        = some { record with state := state } := by
      rw [perform, get?_apply, if_pos rfl, Option.mem_def.mp hrecord, Option.map_some, hmoved]
    have hcovered := h _ _ hnew hplans lease hlease
    refine ⟨hcovered.supported, fun hhost stage hstage => ?_⟩
    by_contra hrequired
    simp [hcovered.stages stage hstage (Bool.not_eq_false _ ▸ hrequired)] at hhost
  | _ => trivial

/-- **Leases grant what the node may now be granted**, in every state a run of a new service
    reaches, exactly when every call of the run finds what `KeepsGrant` asks. -/
theorem grants_covered_iff (localNodeID : NodeID) (start : Date) (config : MembershipConfig)
    (epoch : Epoch) (ops : List Operation) :
    (∀ pre post, ops = pre ++ post →
      (machine.exec (init localNodeID start config epoch) pre).GrantsCovered) ↔
    ∀ e ∈ machine.history (init localNodeID start config epoch) ops,
      e.before.KeepsGrant e.call := by
  constructor
  · intro h e he
    obtain ⟨pre, op, post, rfl, rfl⟩ := machine.mem_history.mp he
    have hafter := h (pre ++ [op]) post (by simp)
    rw [machine.exec_snoc] at hafter
    exact keepsGrant_of_covered hafter
  · rintro h pre post rfl
    have hkeeps : ∀ e ∈ machine.history (init localNodeID start config epoch) pre,
        e.before.KeepsGrant e.call := fun e he => h e (by
      rw [machine.history_append]
      exact List.mem_append_left _ he)
    rw [grantsCovered_iff]
    intro k record hrecord
    exact (grant_exec rfl pre hkeeps k record hrecord).covered

/-! ### The calls that break it -/

/-- A phone joins as an elastic node and then reports that it is overheating. -/
def overheating : List Operation := [.nodeAppeared 0 (phone "a"), .apply .powerDuress ⟨"a"⟩]

/-- The phone is opportunistic now, and its lease still lists the required stages. -/
theorem overheated_lease :
    ¬ ∀ (localNodeID : NodeID) (start : Date) (config : MembershipConfig) (epoch : Epoch)
      (ops : List Operation),
      (machine.exec (init localNodeID start config epoch) ops).GrantsCovered := by
  intro h
  have hcovered := grantsCovered_iff.mp (h ⟨"a"⟩ 0 {} .initial overheating)
  have hholds : ∃ record,
      (machine.exec (init ⟨"a"⟩ 0) overheating).storage.get? ⟨"a"⟩ = some record ∧
      record.state = .opportunistic ∧
      ∃ lease ∈ record.lease, StageType.prefill ∈ lease.allowedStageTypes := by
    refine ⟨_, rfl, by decide +kernel, _, rfl, by decide +kernel⟩
  obtain ⟨record, hrecord, hstate, lease, hlease, hstage⟩ := hholds
  have hlawful := hcovered _ record hrecord (by rw [hstate]; rfl) lease hlease
  have hrequired := hlawful.stages _ hstage rfl
  simp [hstate, NodeState.canHostRequiredStage] at hrequired

end MembershipService

end ShareCompute.Core
