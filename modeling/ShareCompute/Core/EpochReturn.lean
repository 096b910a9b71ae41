import ShareCompute.Core.EpochLaw
import ShareCompute.Core.EvictionLaw
import ShareCompute.Core.LeaseEpoch

namespace ShareCompute.Core

open ShareCompute.Library

/-!
# Does an evicted member come back in a new epoch?

A tick decides whether to start an epoch by comparing the planning set with the last announced
one.  A member that is evicted and rejoins between two settled ticks leaves no trace in that
comparison, so it is back in the epoch its eviction should have ended.

`ReturnsInNewEpoch` is the law one would expect along a run, `NoticesDepartures` is what every
tick of the run must find for it, and `returns_in_new_epoch_iff` says that they are the same.
The reason is `epoch_lt_of_announced_after`: epochs only grow, and the only way to be still in
the epoch of an announcement is that nothing has been announced since.
-/

namespace MembershipService

/-! ### Announcements and the epochs they name -/

/-- The call evicts the node, for whatever reason. -/
def EvictedBy (k : NodeID) (e : Entry MembershipService Operation (List MembershipEvent)) : Prop :=
  ∃ reason, .nodeEvicted k reason ∈ e.returned

/-- The node has been evicted since the last announcement. -/
def EvictedSince (k : NodeID)
    (h : List (Entry MembershipService Operation (List MembershipEvent))) : Prop :=
  ∃ pre e post, h = pre ++ e :: post ∧ EvictedBy k e ∧ announcements (e :: post) = []

theorem announcements_append
    (h h' : List (Entry MembershipService Operation (List MembershipEvent))) :
    announcements (h ++ h') = announcements h ++ announcements h' := List.flatMap_append

/-- Announced epochs go up along the run. -/
theorem pairwise_epochs {start : Epoch} {log : List Announcement}
    (h : (start :: log.map Announcement.epoch).IsChain (fun a b => b = a.next)) :
    log.Pairwise (fun a b => a.epoch.value < b.epoch.value) := by
  have hchain : (start :: log.map Announcement.epoch).IsChain (fun a b => a.value < b.value) :=
    h.imp fun a b hab => by
      rw [hab]
      exact Nat.lt_succ_self _
  have htrans : IsTrans Epoch (fun a b => a.value < b.value) := ⟨fun _ _ _ => lt_trans⟩
  have hpairs := (List.pairwise_cons.mp hchain.pairwise).2
  rwa [List.pairwise_map] at hpairs

variable {start self : MembershipService} {log later : List Announcement} {a : Announcement}

/-- The current epoch is the one announced last. -/
theorem EpochInvariant.current_of_snoc (h : EpochInvariant start (log ++ [a]) self) :
    self.currentEpoch = a.epoch ∧ self.lastEpochMembers = a.members.toFinset := by
  have hlast := h.epoch_last
  rw [List.map_append, ← List.cons_append, List.map_singleton, List.getLast?_concat,
    Option.some.injEq] at hlast
  exact ⟨hlast.symm, h.member_last.trans (lastAnnounced_snoc log a)⟩

/-- The last announced set is the one of an announcement of the current epoch. -/
theorem EpochInvariant.exists_announcement (h : EpochInvariant start log self) {k : NodeID}
    (hk : k ∈ self.lastEpochMembers) : ∃ a ∈ log, k ∈ a.members ∧ self.currentEpoch = a.epoch := by
  have hlog : log ≠ [] := by
    rintro rfl
    rw [h.member_last] at hk
    simp [lastAnnounced] at hk
  obtain ⟨init, a, rfl⟩ := (List.eq_nil_or_concat log).resolve_left hlog
  rw [List.concat_eq_append] at h ⊢
  obtain ⟨hepoch, hmembers⟩ := h.current_of_snoc
  rw [hmembers, List.mem_toFinset] at hk
  exact ⟨a, List.mem_append_right _ (List.mem_singleton_self a), hk, hepoch⟩

/-- An announced epoch is behind the current one if anything was announced after it. -/
theorem epoch_lt_of_announced_after (h : EpochInvariant start (log ++ later) self)
    (ha : a ∈ log) (hlater : later ≠ []) : a.epoch.value < self.currentEpoch.value := by
  obtain ⟨init, last, rfl⟩ := (List.eq_nil_or_concat later).resolve_left hlater
  rw [List.concat_eq_append, ← List.append_assoc] at h
  have hpairs := pairwise_epochs h.epochs
  rw [h.current_of_snoc.1]
  exact (List.pairwise_append.mp hpairs).2.2 a (List.mem_append_left _ ha) last
    (List.mem_singleton_self _)

/-- An announcement of the current epoch is the last one. -/
theorem members_of_epoch_eq (h : EpochInvariant start log self) (ha : a ∈ log)
    (hepoch : self.currentEpoch.value ≤ a.epoch.value) :
    self.lastEpochMembers = a.members.toFinset := by
  obtain ⟨init, last, rfl⟩ := (List.eq_nil_or_concat log).resolve_left (List.ne_nil_of_mem ha)
  rw [List.concat_eq_append] at h ha
  obtain ⟨hcurrent, hmembers⟩ := h.current_of_snoc
  rcases List.mem_append.mp ha with hold | hlast
  · have hlt := (List.pairwise_append.mp (pairwise_epochs h.epochs)).2.2 a hold last
      (List.mem_singleton_self _)
    rw [hcurrent] at hepoch
    omega
  · rw [List.mem_singleton.mp hlast, hmembers]

/-! ### The law and its condition -/

/-- Along the run, a member of an announced set that a tick evicts belongs to the planning
    members left by a later tick that defers nothing only in a later epoch, so no plan made
    there under the epoch of the announcement gives it work. -/
def ReturnsInNewEpoch (start : MembershipService) (ops : List Operation) : Prop :=
  ∀ pre evicting mid settling post,
    ops = pre ++ .tick evicting :: mid ++ .tick settling :: post →
    ∀ a ∈ announcements (machine.history start pre), ∀ k ∈ a.members,
      EvictedBy k (machine.entry (machine.exec start pre) (.tick evicting)) →
      let service := machine.exec start (pre ++ .tick evicting :: mid)
      (∀ d, .epochChangeDeferred d ∉ (service.tick settling).2) →
      k ∈ (service.tick settling).1.planningMembers.map PlannedMember.nodeID →
        a.epoch.value < (service.tick settling).1.currentEpoch.value ∧
        ∀ (planner : StagePlanner) (model : ModelPlacementSpec) (now : Date)
          (estimatedStageDuration : TimeInterval) (plan : ShardPlan),
          planner.plan model (service.tick settling).1.planningMembers
              (service.tick settling).1.currentEpoch now estimatedStageDuration = .ok plan →
            plan.epoch = a.epoch → ∀ assignment ∈ plan.assignments, assignment.nodeID ≠ k

/-- Every tick of the run that finds its planning set as it was last announced comes when no
    member of that set has been evicted since. -/
def NoticesDepartures (start : MembershipService) (ops : List Operation) : Prop :=
  ∀ pre now post, ops = pre ++ .tick now :: post →
    ((machine.exec start pre).evict now).1.planningSet = (machine.exec start pre).lastEpochMembers →
    ∀ k ∈ (machine.exec start pre).lastEpochMembers, ¬ EvictedSince k (machine.history start pre)

/-- A tick that finds its planning set as it was last announced announces nothing. -/
theorem settled_of_same {now : Date} (h : (self.evict now).1.planningSet = self.lastEpochMembers) :
    (self.tick now).1 = (self.evict now).1 ∧ (∀ d, .epochChangeDeferred d ∉ (self.tick now).2) := by
  have hnot : ¬ self.StartsEpoch now := fun hstarts => hstarts.1 h
  refine ⟨tick_of_not_startsEpoch hnot, fun d hd => ?_⟩
  rw [tick_eq] at hd
  rcases List.mem_append.mp hd with hd | hd
  · obtain ⟨_, _, _, _, -, -, heq⟩ := mem_evict_events.mp hd
    cases heq
  · rcases settleEpoch_cases (self.evict now).1 now with ⟨-, heq⟩ | ⟨hset, -⟩ | ⟨hset, -⟩
    · simp [heq] at hd
    · exact hset h
    · exact hset h

/-- A plan names the epoch it was made in. -/
theorem plan_epoch {planner : StagePlanner} {model : ModelPlacementSpec}
    {members : List PlannedMember} {epoch : Epoch} {now : Date}
    {estimatedStageDuration : TimeInterval} {plan : ShardPlan}
    (h : planner.plan model members epoch now estimatedStageDuration = .ok plan) :
    plan.epoch = epoch := by
  rcases planner.plan_cases model members epoch now estimatedStageDuration with
    ⟨error, herror⟩ | ⟨assignments, hok, -, -⟩
  · simp [herror] at h
  · rw [hok] at h
    exact Except.ok.inj h ▸ rfl

/-- A tick that is settled and announces nothing finds its planning set as last announced. -/
theorem same_of_settled {now : Date} (hsettled : ∀ d, .epochChangeDeferred d ∉ (self.tick now).2)
    (hnone : announced (machine.entry self (.tick now)) = []) :
    (self.evict now).1.planningSet = self.lastEpochMembers := by
  have hnot : ¬ self.StartsEpoch now := by
    rw [startsEpoch_iff_announced]
    rintro ⟨epoch, members, hmem⟩
    have hmem' : (⟨now, epoch, members⟩ : Announcement)
        ∈ (self.tick now).2.filterMap (epochChange? now) := List.mem_filterMap.mpr ⟨_, hmem, rfl⟩
    rw [show (self.tick now).2.filterMap (epochChange? now) = [] from hnone] at hmem'
    simp at hmem'
  have hset := tick_settles self now hsettled
  rw [tick_of_not_startsEpoch hnot] at hset
  exact hset

/-- **Noticed departures suffice** for every node that returns to find a new epoch. -/
theorem returnsInNewEpoch_of_notices (hinit : EpochInvariant start [] start)
    {ops : List Operation} (h : NoticesDepartures start ops) : ReturnsInNewEpoch start ops := by
  intro pre evicting mid settling post hops a ha k hk hevicted service hsettled hplans
  have hlt : a.epoch.value < (service.tick settling).1.currentEpoch.value := by
    by_contra hnot
    have hinvariant := epochInvariant_exec start hinit
      (pre ++ .tick evicting :: mid ++ [.tick settling])
    rw [machine.exec_snoc, machine.history_snoc, machine.history_append, List.append_assoc,
      announcements_append] at hinvariant
    change EpochInvariant start _ (service.tick settling).1 at hinvariant
    -- still in the epoch of `a`: nothing has been announced since …
    have hnone : announcements (machine.history (machine.exec start pre) (.tick evicting :: mid)
        ++ [machine.entry service (.tick settling)]) = [] := by
      by_contra hsome
      exact hnot (epoch_lt_of_announced_after hinvariant ha hsome)
    have hmembers : (service.tick settling).1.lastEpochMembers = a.members.toFinset :=
      members_of_epoch_eq hinvariant (List.mem_append_left _ ha) (not_lt.mp hnot)
    rw [announcements_append, List.append_eq_nil_iff] at hnone
    -- … so the tick finds the set of `a`, although its member `k` has been evicted since
    have hquiet : announced (machine.entry service (.tick settling)) = [] := by
      simpa [announcements] using hnone.2
    have hsame := same_of_settled hsettled hquiet
    have hkept : (service.tick settling).1.lastEpochMembers = service.lastEpochMembers := by
      rw [(settled_of_same hsame).1]
      rfl
    refine h (pre ++ .tick evicting :: mid) settling post hops hsame k ?_ ?_
    · show k ∈ service.lastEpochMembers
      rw [← hkept, hmembers, List.mem_toFinset]
      exact hk
    · rw [machine.history_append]
      exact ⟨_, _, _, rfl, hevicted, hnone.1⟩
  refine ⟨hlt, fun planner model now duration plan hplan hepoch => ?_⟩
  rw [plan_epoch hplan] at hepoch
  rw [hepoch] at hlt
  exact absurd hlt (lt_irrefl _)

/-- **Noticed departures are needed** for that: each return of the history shows one. -/
theorem notices_of_returnsInNewEpoch (hinit : EpochInvariant start [] start)
    {ops : List Operation} (h : ReturnsInNewEpoch start ops) : NoticesDepartures start ops := by
  rintro pre settling post rfl hsame k hk ⟨_, _, _, hsplit, ⟨reason, hevicted⟩, hnone⟩
  obtain ⟨before, op, mid, rfl, rfl, rfl, rfl⟩ := machine.history_split hsplit
  obtain ⟨evicting, rfl⟩ : ∃ now, op = .tick now :=
    tick_of_evicts (List.countP_pos_iff.mpr ⟨_, hevicted, decide_eq_true rfl⟩)
  -- the last announcement was made before the eviction
  have hinvariant := epochInvariant_exec start hinit (before ++ .tick evicting :: mid)
  rw [hsplit, announcements_append, hnone, List.append_nil] at hinvariant
  obtain ⟨a, ha, hka, hepoch⟩ := hinvariant.exists_announcement hk
  obtain ⟨htick, hsettled⟩ := settled_of_same hsame
  have hreturns := (h before evicting mid settling post (by simp) a ha k hka ⟨reason, hevicted⟩
    hsettled ?_).1
  · rw [htick] at hreturns
    exact absurd (hepoch ▸ hreturns) (lt_irrefl _)
  · rw [mem_map_planningMembers, htick, hsame]
    exact hk

/-- **Evicted members come back in a new epoch**, along a run of a new service over all its
    operations, exactly when every tick of the run notices the departures since the last
    announcement in the planning set it finds. -/
theorem returns_in_new_epoch_iff (localNodeID : NodeID) (now : Date) (config : MembershipConfig)
    (epoch : Epoch) (ops : List Operation) :
    ReturnsInNewEpoch (init localNodeID now config epoch) ops ↔
      NoticesDepartures (init localNodeID now config epoch) ops :=
  ⟨notices_of_returnsInNewEpoch (.init localNodeID now config epoch),
    returnsInNewEpoch_of_notices (.init localNodeID now config epoch)⟩

/-! ### A return within the dwell time -/

/-- Two phones form the ring of epoch `1` at `5`.  `b` stops answering, is evicted at `6`, when
    the epoch is too young to replace, and rejoins at `7`. -/
def flap : List Operation :=
  [.nodeAppeared 0 (phone "a"), .nodeAppeared 0 (phone "b"), .tick 5,
   .heartbeatFailed ⟨"b"⟩, .heartbeatFailed ⟨"b"⟩, .heartbeatFailed ⟨"b"⟩]

/-- The tick at `8` settles without an event: `b` is back in epoch `1`. -/
theorem flap_returns_in_epoch :
    ¬ ∀ (localNodeID : NodeID) (now : Date) (config : MembershipConfig) (epoch : Epoch)
      (ops : List Operation), (∀ event nodeID, Operation.apply event nodeID ∉ ops) →
        ReturnsInNewEpoch (init localNodeID now config epoch) ops := by
  intro h
  have hinvariant := epochInvariant_exec _ (.init ⟨"a"⟩ 0 {} .initial) flap
  obtain ⟨a, ha, hk, hepoch⟩ := hinvariant.exists_announcement
    (show (⟨"b"⟩ : NodeID) ∈ (machine.exec (init ⟨"a"⟩ 0) flap).lastEpochMembers by decide +kernel)
  have hrun := h ⟨"a"⟩ 0 {} .initial
    (flap ++ .tick 6 :: [.nodeAppeared 7 (phone "b")] ++ .tick 8 :: []) (by simp [flap])
    flap 6 [.nodeAppeared 7 (phone "b")] 8 [] rfl a ha ⟨"b"⟩ hk ⟨.heartbeatLost, by decide +kernel⟩
  have hquiet : ((machine.exec (init ⟨"a"⟩ 0) (flap ++ .tick 6 ::
      [.nodeAppeared 7 (phone "b")])).tick 8).2 = [] := by decide +kernel
  have hback : (⟨"b"⟩ : NodeID) ∈ ((machine.exec (init ⟨"a"⟩ 0) (flap ++ .tick 6 ::
      [.nodeAppeared 7 (phone "b")])).tick 8).1.planningMembers.map PlannedMember.nodeID := by
    decide +kernel
  have hlt := (hrun (by simp [hquiet]) hback).1
  have hsame : ((machine.exec (init ⟨"a"⟩ 0) (flap ++ .tick 6 ::
      [.nodeAppeared 7 (phone "b")])).tick 8).1.currentEpoch
        = (machine.exec (init ⟨"a"⟩ 0) flap).currentEpoch := by decide +kernel
  rw [hsame, hepoch] at hlt
  exact absurd hlt (lt_irrefl _)

end MembershipService

end ShareCompute.Core
