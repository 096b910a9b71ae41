import ShareCompute.Core.EvictionLaw
import ShareCompute.Core.LeaseGrant

namespace ShareCompute.Core

open ShareCompute.Library

/-!
# How long a silent node stays

A lease runs from the moment it is issued, and two things issue one: a sign of life of the node
itself, and a new epoch, which re-issues the leases of all planning members whether they have
been heard from or not.  So a tick does not bound the time since a member was last heard from alone:
`silent_member_bound` bounds the time since the later of that and the start of the epoch that the
tick finds, and `silent_member_kept` is a run in which the epoch is the later one.
-/

namespace MembershipService

/-- The clock's reading at a call, if the call reads it. -/
def Operation.time? : Operation → Option Date
  | .nodeAppeared now _ | .heartbeatSucceeded now _ | .nodeAnnouncedDrain now _ | .tick now =>
      some now
  | .heartbeatFailed _ | .apply _ _ => none

/-- The readings of the clock, from `start` on, never go back. -/
def Punctual (start : Date) (ops : List Operation) : Prop :=
  (start :: ops.filterMap Operation.time?).Pairwise (· ≤ ·)

/-- Whether the times of operations come in their order can be computed. -/
instance (start : Date) (ops : List Operation) : Decidable (Punctual start ops) :=
  inferInstanceAs (Decidable (List.Pairwise _ _))

/-- Every appearance of a node in the run brings the background link that `links` gives it. -/
def FixedLinks (links : NodeID → BackgroundLinkModel) (ops : List Operation) : Prop :=
  ∀ now profile, Operation.nodeAppeared now profile ∈ ops →
    profile.backgroundLink = links profile.nodeID

/-- The length of a lease depends on the background link alone. -/
theorem leaseLength_congr (config : MembershipConfig) {profile profile' : CapabilityProfile}
    (h : profile.backgroundLink = profile'.backgroundLink) :
    leaseLength config profile = leaseLength config profile' := by
  rw [leaseLength, leaseLength, CapabilityProfile.maximumSupportableLeaseDuration,
    CapabilityProfile.maximumSupportableLeaseDuration, h]

/-- The clock after a call: what it has read, or what was read before. -/
def Operation.reading (before : Date) (op : Operation) : Date := op.time?.getD before

/-! ### What renews a lease -/

/-- A lease expires within its length of the last sign of life or of the last epoch change;
    `clock` is the latest reading. -/
structure Renewal (service : MembershipService) (links : NodeID → BackgroundLinkModel)
    (clock : Date) (k : NodeID) (record : MemberRecord) : Prop where
  heard : record.lastHeardFrom ≤ clock
  link : record.profile.backgroundLink = links k
  expires : ∀ lease, record.lease = some lease →
    lease.expiresAt ≤ max record.lastHeardFrom service.lastEpochChangedAt
      + leaseLength service.config record.profile

variable {self self' : MembershipService} {links : NodeID → BackgroundLinkModel} {clock now : Date}
  {k : NodeID} {record record' : MemberRecord}

/-- A record keeps its renewal when its lease stays and nothing it rests on moves back. -/
theorem Renewal.mono (h : Renewal self links clock k record)
    (hconfig : self'.config = self.config)
    (hchanged : self.lastEpochChangedAt ≤ self'.lastEpochChangedAt)
    (hlink : record'.profile.backgroundLink = record.profile.backgroundLink)
    (hlease : record'.lease = record.lease)
    (hfrom : record.lastHeardFrom ≤ record'.lastHeardFrom) (hto : record'.lastHeardFrom ≤ now) :
    Renewal self' links now k record' where
  heard := hto
  link := hlink.trans h.link
  expires lease hlease' := by
    have hlength : leaseLength self'.config record'.profile
        = leaseLength self.config record.profile := by
      rw [hconfig]
      exact leaseLength_congr _ hlink
    rw [hlength]
    exact (h.expires lease (hlease.symm.trans hlease')).trans
      (add_le_add_left (max_le_max hfrom hchanged) _)

/-- A lease issued at a sign of life. -/
theorem Renewal.of_heard {issuer : MembershipService} {score : ℚ}
    (hlink : record.profile.backgroundLink = links k) (hheard : record.lastHeardFrom = now)
    (hconfig : self.config = issuer.config)
    (hlease : record.lease = some (issuer.issueLease record.profile record.state now score)) :
    Renewal self links now k record where
  heard := hheard.le
  link := hlink
  expires lease hlease' := by
    obtain rfl := Option.some.inj (hlease.symm.trans hlease')
    show now + min issuer.config.leaseDuration record.profile.maximumSupportableLeaseDuration ≤ _
    rw [hheard, hconfig, leaseLength]
    exact add_le_add_left (le_max_left _ _) _

/-- A lease re-issued by an epoch change. -/
theorem Renewal.of_epoch {issuer : MembershipService} {score : ℚ}
    (hlink : record.profile.backgroundLink = links k) (hheard : record.lastHeardFrom ≤ now)
    (hconfig : self.config = issuer.config) (hchanged : self.lastEpochChangedAt = now)
    (hlease : record.lease = some (issuer.issueLease record.profile record.state now score)) :
    Renewal self links now k record where
  heard := hheard
  link := hlink
  expires lease hlease' := by
    obtain rfl := Option.some.inj (hlease.symm.trans hlease')
    show now + min issuer.config.leaseDuration record.profile.maximumSupportableLeaseDuration ≤ _
    rw [hchanged, hconfig, leaseLength]
    exact add_le_add_left (le_max_right _ _) _

/-! ### One call -/

/-- The time of the last epoch change moves with the clock, if it moves at all. -/
theorem lastEpochChangedAt_tick (self : MembershipService) (now : Date) :
    (self.tick now).1.lastEpochChangedAt =
      if self.StartsEpoch now then now else self.lastEpochChangedAt := by
  by_cases hstarts : self.StartsEpoch now
  · rw [tick_of_startsEpoch hstarts, if_pos hstarts]
    rfl
  · rw [tick_of_not_startsEpoch hstarts, if_neg hstarts]
    rfl

/-- The last epoch change moves forward, and is never ahead of the clock. -/
theorem lastEpochChangedAt_perform {op : Operation} (hclock : clock ≤ op.reading clock)
    (hchanged : self.lastEpochChangedAt ≤ clock) :
    self.lastEpochChangedAt ≤ (self.perform op).1.lastEpochChangedAt ∧
      (self.perform op).1.lastEpochChangedAt ≤ op.reading clock := by
  by_cases htick : ∃ now, op = .tick now
  · obtain ⟨now, rfl⟩ := htick
    show self.lastEpochChangedAt ≤ (self.tick now).1.lastEpochChangedAt ∧
      (self.tick now).1.lastEpochChangedAt ≤ now
    rw [lastEpochChangedAt_tick]
    split
    · exact ⟨hchanged.trans hclock, le_refl _⟩
    · exact ⟨le_refl _, hchanged.trans hclock⟩
  · -- only a tick starts an epoch
    have hframe := perform_frame self op fun now heq => htick ⟨now, heq⟩
    rw [hframe.lastEpochChangedAt]
    exact ⟨le_refl _, hchanged.trans hclock⟩

/-- **Step lemma.**  One call keeps the account of when a node was heard and its lease renewed. -/
theorem Renewal.step {op : Operation} (hclock : clock ≤ op.reading clock)
    (hchanged : self.lastEpochChangedAt ≤ clock) (hlinks : FixedLinks links [op])
    (hnew : (self.perform op).1.storage.get? k = some record')
    (h : ∀ record, self.storage.get? k = some record → Renewal self links clock k record) :
    Renewal (self.perform op).1 links (op.reading clock) k record' := by
  have hconfig := self.config_perform op
  have hmoves := (lastEpochChangedAt_perform hclock hchanged).1
  have hstep := recordStep_perform hnew
  generalize self.storage.get? k = old at hstep h
  cases hstep with
  | kept hother =>
    exact (h _ rfl).mono hconfig hmoves rfl rfl (le_refl _) ((h _ rfl).heard.trans hclock)
  | @joined now profile =>
    exact .of_heard (hlinks now profile (List.mem_singleton_self _)) rfl hconfig rfl
  | @rejoined now profile record hstate =>
    exact .of_heard (hlinks now profile (List.mem_singleton_self _)) rfl hconfig rfl
  | @refreshed now profile record hstate =>
    have hlink := hlinks now profile (List.mem_singleton_self _)
    exact (h record rfl).mono hconfig hmoves (hlink.trans (h record rfl).link.symm) rfl
      ((h record rfl).heard.trans hclock) (le_refl _)
  | @renewed now _ record =>
    -- a heartbeat renews the lease only of a node that is planned with
    cases hplans : record.state.participatesInPlanning with
    | true =>
      have hlease : (self.renewed now record).lease = some (self.issueLease record.profile
          record.state now (smoothed record.stabilityScore 1)) := by
        simp only [renewed, hplans, if_true]
      exact .of_heard (h record rfl).link rfl hconfig hlease
    | false =>
      have hlease : (self.renewed now record).lease = record.lease := by
        simp only [renewed, hplans]
        rfl
      exact (h record rfl).mono hconfig hmoves rfl hlease
        ((h record rfl).heard.trans hclock) (le_refl _)
  | missed => exact (h _ rfl).mono hconfig hmoves rfl rfl (le_refl _) (h _ rfl).heard
  | drains hstate =>
    exact (h _ rfl).mono hconfig hmoves rfl rfl ((h _ rfl).heard.trans hclock) (le_refl _)
  | drainIgnored hstate =>
    exact (h _ rfl).mono hconfig hmoves rfl rfl (le_refl _) ((h _ rfl).heard.trans hclock)
  | moved => exact (h _ rfl).mono hconfig hmoves rfl rfl (le_refl _) (h _ rfl).heard
  | evicted hleaves =>
    exact (h _ rfl).mono hconfig hmoves rfl rfl (le_refl _) ((h _ rfl).heard.trans hclock)
  | stays hstays hlease =>
    exact (h _ rfl).mono hconfig hmoves rfl rfl (le_refl _) ((h _ rfl).heard.trans hclock)
  | @reissued now _ record hstays hepoch hstate =>
    -- the lease is issued in the epoch that begins now
    have hnow : (self.perform (.tick now)).1.lastEpochChangedAt = now := by
      rw [perform, lastEpochChangedAt_tick, if_pos hepoch]
    have hissuer : (self.perform (.tick now)).1.config = self.inNextEpoch.config := hconfig
    exact .of_epoch (h record rfl).link ((h record rfl).heard.trans hclock) hissuer hnow rfl

/-! ### Whole runs -/

/-- The latest reading of the clock in a run. -/
def lastReading (start : Date) (ops : List Operation) : Date := ops.foldl Operation.reading start

/-- The last reading of the clock is that of the last operation that has one. -/
theorem lastReading_snoc (start : Date) (ops : List Operation) (op : Operation) :
    lastReading start (ops ++ [op]) = op.reading (lastReading start ops) := by
  rw [lastReading, List.foldl_append]
  rfl

/-- The last reading is the start or the time of some operation. -/
theorem lastReading_mem (start : Date) (ops : List Operation) :
    lastReading start ops ∈ start :: ops.filterMap Operation.time? := by
  induction ops using List.reverseRecOn with
  | nil => exact List.mem_singleton_self _
  | append_singleton ops op ih =>
    rw [lastReading_snoc, Operation.reading, List.filterMap_append, ← List.cons_append]
    cases htime : op.time? with
    | none => exact List.mem_append_left _ ih
    | some now =>
      refine List.mem_append_right _ ?_
      simp [htime]

/-- A clock that never goes back has not done so in the run before its last call, nor at that
    call. -/
theorem Punctual.of_snoc {start : Date} {ops : List Operation} {op : Operation}
    (h : Punctual start (ops ++ [op])) :
    Punctual start ops ∧ lastReading start ops ≤ op.reading (lastReading start ops) := by
  rw [Punctual, List.filterMap_append, ← List.cons_append, List.pairwise_append] at h
  refine ⟨h.1, ?_⟩
  rw [Operation.reading]
  cases htime : op.time? with
  | none => exact le_refl _
  | some now => exact h.2.2 _ (lastReading_mem start ops) now (by simp [htime])

/-- **Run lemma.**  In every state reached, every lease expires within its length of the last
    sign of life or of the last epoch change. -/
theorem renewal_exec {start : Date} {service : MembershipService}
    (hstart : service.storage = .empty) (hchanged : service.lastEpochChangedAt = start)
    (ops : List Operation) (hclock : Punctual start ops) (hlinks : FixedLinks links ops) :
    (machine.exec service ops).lastEpochChangedAt ≤ lastReading start ops ∧
      ∀ k record, (machine.exec service ops).storage.get? k = some record →
        Renewal (machine.exec service ops) links (lastReading start ops) k record := by
  induction ops using List.reverseRecOn with
  | nil => exact ⟨hchanged.le, fun k record hrecord => by simp [hstart] at hrecord⟩
  | append_singleton ops op ih =>
    obtain ⟨hbefore, hreading⟩ := hclock.of_snoc
    obtain ⟨hlast, hrecords⟩ := ih hbefore fun now profile hmem =>
      hlinks now profile (List.mem_append_left _ hmem)
    rw [machine.exec_snoc, lastReading_snoc]
    refine ⟨(lastEpochChangedAt_perform hreading hlast).2, fun k record hrecord => ?_⟩
    refine Renewal.step hreading hlast ?_ hrecord (hrecords k)
    exact fun now profile hmem => hlinks now profile (List.mem_append_right _ hmem)

/-! ### The bound -/

/-- A planning member that a tick does not evict holds a valid lease. -/
theorem isValid_of_stays {config : MembershipConfig} {lease : Lease}
    (hstays : departure config now record = none)
    (hplans : record.state.participatesInPlanning = true) (hlease : record.lease = some lease) :
    lease.isValid now = true := by
  have hactive : record.state ≠ .draining := by
    rintro hdraining
    simp [hdraining] at hplans
  cases hvalid : lease.isValid now with
  | true => rfl
  | false =>
    simp only [departure, hactive, hplans, hlease, hvalid, if_false, Bool.not_true,
      Bool.false_eq_true, Bool.not_false, if_true] at hstays
    split at hstays <;> simp at hstays

/-- **How long a silent node stays.**  In every run of a new service whose clock never goes
    back and whose nodes keep their background links, a planning member that a tick leaves was
    heard from, or the epoch that the tick found had begun, less than its lease length ago: a tick
    that begins an epoch evicts first, and issues its leases only to those it leaves. -/
theorem silent_member_bound (localNodeID : NodeID) (start : Date) (config : MembershipConfig)
    (epoch : Epoch) (links : NodeID → BackgroundLinkModel) (ops : List Operation) (now : Date)
    (hclock : Punctual start (ops ++ [.tick now])) (hlinks : FixedLinks links ops) :
    let found := machine.exec (init localNodeID start config epoch) ops
    let service := machine.exec (init localNodeID start config epoch) (ops ++ [.tick now])
    ∀ member ∈ service.planningMembers, ∃ record,
      service.storage.get? member.nodeID = some record ∧
        now < max record.lastHeardFrom found.lastEpochChangedAt
          + leaseLength config member.profile := by
  intro found service member hmember
  obtain ⟨record, hrecord, hplans, rfl⟩ := mem_planningMembers.mp hmember
  refine ⟨record, hrecord, ?_⟩
  have hconfig : found.config = config :=
    machine.invariant (I := fun self => self.config = config) rfl
      (fun self op hself => (self.config_perform op).trans hself) _
  have hrenewal := (@renewal_exec links start (init localNodeID start config epoch) rfl rfl ops
    hclock.of_snoc.1 hlinks).2
  have hafter : service = (found.tick now).1 := machine.exec_snoc _ _ _
  have hstep := recordStep_tick (hafter ▸ hrecord)
  -- who is left with a valid lease was heard from, or had it issued by the epoch that was found
  have hbound : ∀ (k : NodeID) (old : MemberRecord), found.storage.get? k = some old →
      departure found.config now old = none → old.state.participatesInPlanning = true →
      now < max old.lastHeardFrom found.lastEpochChangedAt + leaseLength config old.profile := by
    intro k old hold hstays hparticipates
    obtain ⟨lease, hheld⟩ := (counted_exec rfl ops hold).leased
    have hvalid : now < lease.expiresAt :=
      of_decide_eq_true (isValid_of_stays hstays hparticipates hheld)
    exact hvalid.trans_le (hconfig ▸ (hrenewal k old hold).expires lease hheld)
  generalize hold : found.storage.get? _ = old at hstep
  cases hstep with
  | kept hother => exact absurd trivial hother
  | evicted hleaves => simp at hplans
  | stays hstays hlease => exact hbound _ _ hold hstays hplans
  | @reissued _ _ old hstays hepoch hstate => exact hbound _ old hold hstays hstate

/-! ### A silent node that an epoch change keeps -/

/-- A phone whose OS suspends it in the background. -/
def iPhone (name : String) : CapabilityProfile :=
  { phone name with backgroundLink := .iosSuspended }

/-- A profile of a desktop with this name, which stays on its link in the background. -/
def mac (name : String) : CapabilityProfile :=
  { phone name with connectivity := .coreDesktop, backgroundLink := .desktopUnrestricted }

/-- The ring of the test for lease expiry: both nodes join at `0`, the first epoch begins at
    `10`, and at `35` only the desktop has been heard from again. -/
def quietPhone : List Operation :=
  [.nodeAppeared 0 (mac "mac"), .nodeAppeared 0 (iPhone "phone"),
   .tick 10, .heartbeatSucceeded 35 ⟨"mac"⟩]

/-- The links of the run below: the phone's is one that the system cuts off in the background. -/
def quietPhoneLinks (node : NodeID) : BackgroundLinkModel :=
  if node = ⟨"mac"⟩ then .desktopUnrestricted else .iosSuspended

/-- In the run below nobody changes the kind of its link. -/
theorem fixedLinks_quietPhone : FixedLinks quietPhoneLinks quietPhone := by
  intro now profile hmem
  simp only [quietPhone, List.mem_cons, Operation.nodeAppeared.injEq, List.not_mem_nil, or_false,
    reduceCtorEq] at hmem
  rcases hmem with ⟨-, rfl⟩ | ⟨-, rfl⟩ <;> decide

/-- The tick at `35` keeps the phone, whose lease length is `30` and which was last heard from
    at `0`: the first epoch has re-issued its lease. -/
theorem silent_member_kept :
    ¬ ∀ (localNodeID : NodeID) (start : Date) (config : MembershipConfig) (epoch : Epoch)
      (links : NodeID → BackgroundLinkModel) (ops : List Operation) (now : Date),
      Punctual start (ops ++ [.tick now]) → FixedLinks links ops →
      (∀ event nodeID, Operation.apply event nodeID ∉ ops) →
      let service := machine.exec (init localNodeID start config epoch) (ops ++ [.tick now])
      ∀ member ∈ service.planningMembers, ∃ record,
        service.storage.get? member.nodeID = some record ∧
          now - record.lastHeardFrom ≤ leaseLength config member.profile := by
  intro h
  let service := machine.exec (init ⟨"mac"⟩ 0) (quietPhone ++ [.tick 35])
  have hkept : ∃ member ∈ service.planningMembers, member.nodeID = ⟨"phone"⟩ ∧
      leaseLength {} member.profile = 30 := by decide +kernel
  obtain ⟨member, hmember, hnode, hlength⟩ := hkept
  obtain ⟨record, hrecord, hle⟩ := h ⟨"mac"⟩ 0 {} .initial quietPhoneLinks quietPhone 35
    (by decide +kernel) fixedLinks_quietPhone (by simp [quietPhone]) member hmember
  have hheard : (service.storage.get? ⟨"phone"⟩).map MemberRecord.lastHeardFrom = some 0 := by
    decide +kernel
  rw [← hnode, show service.storage.get? member.nodeID = some record from hrecord] at hheard
  rw [hlength, Option.some.inj hheard] at hle
  exact absurd hle (by norm_num)

/-- In that run the bound counts from the epoch change at `10`. -/
theorem silent_member_bound_quietPhone :
    Punctual 0 (quietPhone ++ [.tick 35]) ∧
    let found := machine.exec (init ⟨"mac"⟩ 0) quietPhone
    let service := machine.exec (init ⟨"mac"⟩ 0) (quietPhone ++ [.tick 35])
    found.lastEpochChangedAt = 10 ∧
    ∀ member ∈ service.planningMembers, ∃ record,
      service.storage.get? member.nodeID = some record ∧
        35 < max record.lastHeardFrom found.lastEpochChangedAt
          + leaseLength {} member.profile :=
  ⟨by decide +kernel, by decide +kernel,
    silent_member_bound ⟨"mac"⟩ 0 {} .initial quietPhoneLinks quietPhone 35
      (by decide +kernel) fixedLinks_quietPhone⟩

end MembershipService

end ShareCompute.Core
