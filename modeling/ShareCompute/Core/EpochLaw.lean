import ShareCompute.Core.MembershipSpec

namespace ShareCompute.Core

open ShareCompute.Library

/-!
# The generation law of epochs

How the epochs announced by a `MembershipService` follow one another over a whole run.  The
run's `announcements` are the `epochChanged` events of its ticks with the times of the ticks;
`EpochInvariant` ties them to the service's own fields (current epoch, time of the last
change, last announced set) and to the leases, every operation keeps it, and
`epoch_generation_law` reads the law off it.
-/

namespace MembershipService

/-! ### What a run has announced -/

/-- An announced epoch change: when, to which epoch, and with which members. -/
structure Announcement where
  time : Date
  epoch : Epoch
  members : List NodeID
deriving DecidableEq

/-- The announcement an event makes at `time`, if it makes one. -/
def epochChange? (time : Date) : MembershipEvent → Option Announcement
  | .epochChanged epoch members => some ⟨time, epoch, members⟩
  | _ => none

/-- The announcements of one call; only a tick makes any. -/
def announced (e : Entry MembershipService Operation (List MembershipEvent)) :
    List Announcement :=
  match e.call with
  | .tick now => e.returned.filterMap (epochChange? now)
  | _ => []

/-- The announcements of a run, oldest first. -/
def announcements (h : List (Entry MembershipService Operation (List MembershipEvent))) :
    List Announcement := h.flatMap announced

/-- The last announced member set, empty before the first announcement. -/
def lastAnnounced (log : List Announcement) : Finset NodeID :=
  (log.getLast?.map (fun a => a.members.toFinset)).getD ∅

/-- The announcement that was made last is the one at the end of the log. -/
@[simp] theorem lastAnnounced_snoc (log : List Announcement) (a : Announcement) :
    lastAnnounced (log ++ [a]) = a.members.toFinset := by
  simp [lastAnnounced]

/-- One call more announces what it announces behind what was announced before. -/
theorem announcements_snoc (h : List (Entry MembershipService Operation (List MembershipEvent)))
    (e : Entry MembershipService Operation (List MembershipEvent)) :
    announcements (h ++ [e]) = announcements h ++ announced e := by
  simp [announcements]

/-- Evictions announce no epoch, so those of a tick come from settling. -/
theorem evict_announces_nothing (self : MembershipService) (now : Date) :
    (self.evict now).2.filterMap (epochChange? now) = [] := by
  refine List.filterMap_eq_nil_iff.mpr fun e he => ?_
  obtain ⟨k, record, event, reason, -, -, rfl⟩ := mem_evict_events.mp he
  rfl

/-- What a tick announces is what settling the epoch announces. -/
theorem announced_tick (self : MembershipService) (now : Date) :
    announced (machine.entry self (.tick now))
      = ((self.evict now).1.settleEpoch now).2.filterMap (epochChange? now) := by
  show (self.tick now).2.filterMap (epochChange? now) = _
  rw [tick_eq, List.filterMap_append, evict_announces_nothing, List.nil_append]

/-! ### The invariant -/

/-- The nodes of the last announced set hold leases of the current epoch.  A node keeps its
    record, and with it this lease, when it leaves the planning set and comes back. -/
def CurrentLeases (self : MembershipService) : Prop :=
  ∀ id ∈ self.lastEpochMembers, ∃ record lease,
    self.storage.get? id = some record ∧ record.lease = some lease ∧
      lease.epoch = self.currentEpoch

/-- The announcements made since `start` explain the fields of the service. -/
structure EpochInvariant (start : MembershipService) (log : List Announcement)
    (service : MembershipService) : Prop where
  config : service.config = start.config
  epochs : (start.currentEpoch :: log.map Announcement.epoch).IsChain (fun a b => b = a.next)
  epoch_last : (start.currentEpoch :: log.map Announcement.epoch).getLast?
    = some service.currentEpoch
  times : (start.lastEpochChangedAt :: log.map Announcement.time).IsChain
    (fun a b => start.config.minimumEpochDwellTime ≤ b - a)
  time_last : (start.lastEpochChangedAt :: log.map Announcement.time).getLast?
    = some service.lastEpochChangedAt
  members : log.IsChain (fun a b => a.members.toFinset ≠ b.members.toFinset)
  member_last : service.lastEpochMembers = lastAnnounced log
  current : service.CurrentLeases

/-- A new service has announced nothing, and nobody is in its ring. -/
theorem EpochInvariant.init (localNodeID : NodeID) (now : Date) (config : MembershipConfig)
    (epoch : Epoch) :
    EpochInvariant (init localNodeID now config epoch) [] (init localNodeID now config epoch) where
  config := rfl
  epochs := .singleton _
  epoch_last := rfl
  times := .singleton _
  time_last := rfl
  members := .nil
  member_last := rfl
  current := by intro id hid; simp [MembershipService.init] at hid

/-- A call that stays in the epoch announces nothing, so the invariant holds for the same log. -/
theorem EpochInvariant.of_sameEpoch {start self self' : MembershipService}
    {log : List Announcement} (h : EpochInvariant start log self) (hsame : SameEpoch self self')
    (hcurrent : self'.CurrentLeases) : EpochInvariant start log self' where
  config := hsame.config.trans h.config
  epochs := h.epochs
  epoch_last := hsame.currentEpoch ▸ h.epoch_last
  times := h.times
  time_last := hsame.lastEpochChangedAt ▸ h.time_last
  members := h.members
  member_last := hsame.lastEpochMembers ▸ h.member_last
  current := hcurrent

/-- No operation but a tick leaves a lease behind that is not of the current epoch. -/
theorem CurrentLeases.perform {self : MembershipService} (h : self.CurrentLeases)
    {op : Operation} (hop : ∀ now, op ≠ .tick now) : (self.perform op).1.CurrentLeases := by
  intro id hid
  -- the epoch and the announced set stay, so a lease is kept or replaced by a current one
  have hsame := perform_frame self op hop
  rw [hsame.lastEpochMembers] at hid
  obtain ⟨record, lease, hrecord, hlease, hepoch⟩ := h id hid
  obtain ⟨record', hrecord', hkept | ⟨lease', hlease', hepoch'⟩⟩ :=
    perform_lease self op hop hrecord
  · exact ⟨record', lease, hrecord', hkept.trans hlease, hepoch.trans hsame.currentEpoch.symm⟩
  · exact ⟨record', lease', hrecord', hlease', hepoch'.trans hsame.currentEpoch.symm⟩

/-- The first half of a tick stays in the epoch, so the leases are still current. -/
theorem CurrentLeases.evict {self : MembershipService} (h : self.CurrentLeases) (now : Date) :
    (self.evict now).1.CurrentLeases := by
  intro id hid
  obtain ⟨record, lease, hrecord, hlease, hepoch⟩ := h id hid
  refine ⟨evictedRecord self.config now record, lease, ?_, ?_, hepoch⟩
  · rw [get?_evict, hrecord, Option.map_some]
  · unfold evictedRecord
    split <;> exact hlease

/-- A new epoch leases every member of its own set. -/
theorem CurrentLeases.nextEpoch (self : MembershipService) (now : Date) :
    ((self.nextEpoch now).reissueLeases now).CurrentLeases := by
  intro id hid
  obtain ⟨record, hrecord, hstate⟩ := mem_planningSet.mp (show id ∈ self.planningSet from hid)
  let lease := (self.nextEpoch now).issueLease record.profile record.state now record.stabilityScore
  refine ⟨(self.nextEpoch now).reissuedRecord now record, lease, ?_, ?_, rfl⟩
  · rw [get?_reissueLeases, show (self.nextEpoch now).storage.get? id = some record from hrecord,
      Option.map_some]
  · rw [reissuedRecord, if_pos hstate]

/-- A new epoch extends the announcements and keeps the invariant. -/
theorem EpochInvariant.nextEpoch {start self : MembershipService} {log : List Announcement}
    (h : EpochInvariant start log self) {now : Date}
    (hset : self.planningSet ≠ self.lastEpochMembers)
    (hdwell : self.config.minimumEpochDwellTime ≤ now - self.lastEpochChangedAt) :
    EpochInvariant start
      (log ++ [⟨now, self.currentEpoch.next, self.planningMembers.map PlannedMember.nodeID⟩])
      ((self.nextEpoch now).reissueLeases now) where
  config := h.config
  epochs := by
    rw [List.map_append, ← List.cons_append]
    refine isChain_snoc.mpr ⟨h.epochs, fun a ha => ?_⟩
    rw [h.epoch_last, Option.mem_some_iff] at ha
    exact ha ▸ rfl
  epoch_last := by
    rw [List.map_append, ← List.cons_append]
    exact List.getLast?_concat
  times := by
    rw [List.map_append, ← List.cons_append]
    refine isChain_snoc.mpr ⟨h.times, fun a ha => ?_⟩
    rw [h.time_last, Option.mem_some_iff] at ha
    exact ha ▸ h.config ▸ hdwell
  time_last := by
    rw [List.map_append, ← List.cons_append]
    exact List.getLast?_concat
  members := by
    refine isChain_snoc.mpr ⟨h.members, fun a ha => ?_⟩
    -- the set announced now differs from the last one, which is what `lastEpochMembers` holds
    have hlast : self.lastEpochMembers = a.members.toFinset := by
      rw [h.member_last, lastAnnounced, Option.mem_def.mp ha]
      rfl
    exact fun heq => hset (hlast.trans heq).symm
  member_last := by
    rw [lastAnnounced_snoc]
    rfl
  current := CurrentLeases.nextEpoch self now

/-- **Step lemma.**  Every operation keeps the invariant. -/
theorem EpochInvariant.perform {start self : MembershipService} {log : List Announcement}
    (h : EpochInvariant start log self) (op : Operation) :
    EpochInvariant start (log ++ announced (machine.entry self op)) (self.perform op).1 := by
  by_cases hop : ∃ now, op = .tick now
  · obtain ⟨now, rfl⟩ := hop
    have hevict : EpochInvariant start log (self.evict now).1 :=
      h.of_sameEpoch ⟨rfl, rfl, rfl, rfl⟩ (h.current.evict now)
    rw [announced_tick]
    show EpochInvariant start _ ((self.evict now).1.settleEpoch now).1
    rcases settleEpoch_cases (self.evict now).1 now with
      ⟨-, heq⟩ | ⟨hset, hdwell, heq⟩ | ⟨-, -, heq⟩
    · rw [heq]
      simpa using hevict
    · rw [heq]
      exact hevict.nextEpoch hset hdwell
    · rw [heq, show List.filterMap (epochChange? now) [.epochChangeDeferred _] = [] from rfl,
        List.append_nil]
      exact hevict
  · have hop' : ∀ now, op ≠ .tick now := fun now heq => hop ⟨now, heq⟩
    have hnone : announced (machine.entry self op) = [] := by
      cases op with
      | tick now => exact absurd rfl (hop' now)
      | _ => rfl
    rw [hnone, List.append_nil]
    exact h.of_sameEpoch (perform_frame self op hop') (h.current.perform hop')

/-- **Run lemma.**  The invariant holds along every run. -/
theorem epochInvariant_exec (start : MembershipService) (h : EpochInvariant start [] start)
    (ops : List Operation) :
    EpochInvariant start (announcements (machine.history start ops)) (machine.exec start ops) := by
  refine machine.run_induction (P := fun _ => True)
    (I := fun h self => EpochInvariant start (announcements h) self) h ?_ ops (fun _ _ => trivial)
  intro h self op ih _
  rw [announcements_snoc]
  exact ih.perform op

/-! ### The law -/

/-- When the planning set is the last announced one, every planning member holds a lease of
    the current epoch. -/
theorem CurrentLeases.planningMembers {self : MembershipService} (h : self.CurrentLeases)
    (hset : self.planningSet = self.lastEpochMembers) :
    ∀ member ∈ self.planningMembers, ∃ lease,
      member.lease = some lease ∧ lease.epoch = self.currentEpoch := by
  intro member hmember
  obtain ⟨record, hrecord, hstate, hmemberEq⟩ := mem_planningMembers.mp hmember
  have hid : member.nodeID ∈ self.lastEpochMembers :=
    hset ▸ mem_planningSet.mpr ⟨record, hrecord, hstate⟩
  obtain ⟨record', lease, hrecord', hlease, hepoch⟩ := h _ hid
  rw [hrecord, Option.some.injEq] at hrecord'
  refine ⟨lease, ?_, hepoch⟩
  rw [hmemberEq, ← hlease, ← hrecord']

/-- Issuing leases anew leaves the planning members who they were. -/
theorem planningMembers_map_reissueLeases (self : MembershipService) (now : Date) :
    (self.reissueLeases now).planningMembers.map PlannedMember.nodeID
      = self.planningMembers.map PlannedMember.nodeID := by
  rw [← sort_planningSet, ← sort_planningSet, planningSet_reissueLeases]

/-- An epoch announced by a tick names exactly the planning members the tick leaves. -/
theorem tick_announces_planningMembers (self : MembershipService) (now : Date) {epoch : Epoch}
    {members : List NodeID} (h : .epochChanged epoch members ∈ (self.tick now).2) :
    members = (self.tick now).1.planningMembers.map PlannedMember.nodeID := by
  rw [tick_eq] at h ⊢
  rcases List.mem_append.mp h with h | h
  · obtain ⟨_, _, _, _, -, -, heq⟩ := mem_evict_events.mp h
    cases heq
  rcases settleEpoch_cases (self.evict now).1 now with
    ⟨-, heq⟩ | ⟨-, -, heq⟩ | ⟨-, -, heq⟩
  · simp [heq] at h
  · simp only [heq, List.mem_singleton, MembershipEvent.epochChanged.injEq] at h ⊢
    rw [h.2, planningMembers_map_reissueLeases]
    rfl
  · simp [heq] at h

/-- A tick that defers nothing leaves the planning set equal to the last announced one. -/
theorem tick_settles (self : MembershipService) (now : Date)
    (h : ∀ d, .epochChangeDeferred d ∉ (self.tick now).2) :
    (self.tick now).1.planningSet = (self.tick now).1.lastEpochMembers := by
  rw [tick_eq] at h ⊢
  rcases settleEpoch_cases (self.evict now).1 now with
    ⟨hset, heq⟩ | ⟨-, -, heq⟩ | ⟨-, -, heq⟩
  · simpa only [heq] using hset
  · simp only [heq, planningSet_reissueLeases]
    rfl
  · refine absurd ?_ (h (self.config.minimumEpochDwellTime - (now - self.lastEpochChangedAt)))
    exact List.mem_append_right _ (by rw [heq]; exact List.mem_singleton_self _)

/-- The generation law of a run from `start`. -/
structure EpochLaw (start : MembershipService) (ops : List Operation) : Prop where
  /-- only ticks change the epoch -/
  only_ticks : ∀ e ∈ machine.history start ops, ∀ epoch members,
    .epochChanged epoch members ∈ e.returned → ∃ now, e.call = .tick now
  /-- announced epochs go up by exactly one, from the initial one … -/
  epochs : (start.currentEpoch ::
      (announcements (machine.history start ops)).map Announcement.epoch).IsChain
    (fun a b => b = a.next)
  /-- … to the current one -/
  current : (start.currentEpoch ::
      (announcements (machine.history start ops)).map Announcement.epoch).getLast?
    = some (machine.exec start ops).currentEpoch
  /-- construction and consecutive changes are at least the dwell time apart -/
  dwell : (start.lastEpochChangedAt ::
      (announcements (machine.history start ops)).map Announcement.time).IsChain
    (fun a b => start.config.minimumEpochDwellTime ≤ b - a)
  /-- consecutive announced member sets differ -/
  differ : (announcements (machine.history start ops)).IsChain
    (fun a b => a.members.toFinset ≠ b.members.toFinset)
  /-- the announced members are the planning members at that moment, in order -/
  members : ∀ now epoch members,
    .epochChanged epoch members ∈ ((machine.exec start ops).tick now).2 →
      members = ((machine.exec start ops).tick now).1.planningMembers.map PlannedMember.nodeID ∧
        members.Pairwise (· < ·)
  /-- after a tick that defers nothing, the planning set is the last announced one and every
      planning member holds a lease of the current epoch -/
  settled : ∀ now, (∀ d, .epochChangeDeferred d ∉ ((machine.exec start ops).tick now).2) →
    ((machine.exec start ops).tick now).1.planningSet
        = lastAnnounced (announcements (machine.history start (ops ++ [.tick now]))) ∧
      ∀ member ∈ ((machine.exec start ops).tick now).1.planningMembers, ∃ lease,
        member.lease = some lease ∧
          lease.epoch = ((machine.exec start ops).tick now).1.currentEpoch

/-- Calls that are not ticks return no epoch change. -/
theorem tick_of_epochChanged {self : MembershipService} {op : Operation} {epoch : Epoch}
    {members : List NodeID} (h : .epochChanged epoch members ∈ (self.perform op).2) :
    ∃ now, op = .tick now := by
  cases op with
  | tick now => exact ⟨now, rfl⟩
  | nodeAppeared now profile =>
    simp only [perform, nodeAppeared] at h
    split at h
    · split at h <;> simp at h
    · simp at h
  | nodeAnnouncedDrain now nodeID =>
    simp only [perform, nodeAnnouncedDrain] at h
    split at h
    · simp at h
    · split at h <;> simp at h
  | _ => simp [perform] at h

/-- **Epoch generation law.**  Along every run of a new service, over all its operations and
    any tick times, epochs are announced by ticks only, one by one, at least the dwell time
    apart, each with the planning members of the moment and never the same set twice in a
    row; and a tick that defers nothing leaves every planning member announced and leased in
    the current epoch. -/
theorem epoch_generation_law (localNodeID : NodeID) (now : Date) (config : MembershipConfig)
    (epoch : Epoch) (ops : List Operation) :
    EpochLaw (init localNodeID now config epoch) ops := by
  have hinit := EpochInvariant.init localNodeID now config epoch
  generalize init localNodeID now config epoch = start at hinit ⊢
  have hrun := epochInvariant_exec start hinit ops
  refine ⟨?_, hrun.epochs, hrun.epoch_last, hrun.times, hrun.members, ?_, ?_⟩
  · intro e he epoch members hmem
    obtain ⟨pre, op, post, -, rfl⟩ := (machine.mem_history).mp he
    exact tick_of_epochChanged hmem
  · intro now epoch members hmem
    have heq := tick_announces_planningMembers _ now hmem
    exact ⟨heq, heq ▸ planningMembers_sorted _⟩
  · intro now hdefer
    have hset := tick_settles _ now hdefer
    have htick := epochInvariant_exec start hinit (ops ++ [.tick now])
    rw [machine.exec_snoc] at htick
    exact ⟨hset.trans htick.member_last, htick.current.planningMembers hset⟩

end MembershipService

end ShareCompute.Core
