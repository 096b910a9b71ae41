import ShareCompute.App.RingCoordinator

namespace ShareCompute.App

open ShareCompute.Library ShareCompute.Core

/-!
# Re-forming the ring

The health monitor decides that a ring has lost a device, the coordinator builds the ring that
is to replace it.  `InferringApp` runs both: discovery, elections, probe rounds, announcements
and the one re-formation task come in any order.

* `Underway` — a re-formation has a reason, which the watchdog keeps reporting while it runs.
* `Gone` — what `reformRing` must find for the departed device to be left out.
* `reform_excludes_iff` — the device list handed over leaves it out exactly then; this device
  is in it at its own rank in any case.
-/

/-! ### The app -/

/-- The re-formation task: why it was started, and whether it has called `reform`. -/
structure Reformation where
  reason : RingLossReason
  called : Bool

/-- The parts of the app that decide about a re-formation, and the one that is under way. -/
structure InferringApp where
  coordinator : RingCoordinator
  monitor : RingHealthMonitor
  reformation : Option Reformation

namespace InferringApp

/-- What can happen next, at the coordinator, at the monitor, or in the task of a re-formation. -/
inductive Action (bonjourName : String)
  | discovered (client : BonjourClient bonjourName)
  | election (message : ElectionMessage)
  | sendAttempt (i : ℕ)
  | requestMissingProfiles (i : ℕ) (response : Option HardwareProfile)
  | startFormation
  | stopFormation
  | monitor (step : RingHealthMonitor.Step)
  | reformRing
  | reformationFinished (error : Option String) (now : Date)

/-- `mlxManager.reform` is called because of `reason`, with the ring that the coordinator has
    built. -/
structure Called where
  reason : RingLossReason
  reform : RingCoordinator.Reform

/-- The app at its start: the coordinator is alone, the monitor has no watchdog, and nothing is
    re-formed. -/
def init (bonjourName : String) (currentProfile : HardwareProfile) (canReform : Bool) (now : Date) :
    InferringApp where
  coordinator := .init bonjourName currentProfile
  monitor := .init bonjourName canReform now
  reformation := none

/-- A step of the monitor, which may have started the task. -/
def moveMonitor (self : InferringApp) (monitor : RingHealthMonitor) : InferringApp :=
  { self with
    monitor := monitor
    reformation :=
      if self.monitor.isReforming then self.reformation
      else
        match monitor.isReforming, monitor.health with
        | true, .reforming reason _ => some ⟨reason, false⟩
        | _, _ => none }

/-- One step, and the call of `reform` it makes; `none` if it cannot happen now. -/
def step {bonjourName : String} (self : InferringApp) :
    Action bonjourName → Option (InferringApp × Option Called)
  | .discovered client =>
      some ({ self with coordinator := self.coordinator.updatePeers client.nodes }, none)
  | .election message =>
      some ({ self with coordinator := self.coordinator.processElectionMessage message }, none)
  | .sendAttempt i =>
      (self.coordinator.sendAttempt i).map fun coordinator =>
        ({ self with coordinator := coordinator }, none)
  | .requestMissingProfiles i response =>
      (self.coordinator.requestMissingProfiles i response).map fun coordinator =>
        ({ self with coordinator := coordinator }, none)
  | .startFormation =>
      some ({ self with coordinator := self.coordinator.startFormation }, none)
  | .stopFormation =>
      some ({ self with coordinator := self.coordinator.stopFormation }, none)
  | .monitor (.probePeers round) =>
      -- the round probes the ring that the coordinator has now
      let devices := self.coordinator.ringDevices.map RingCoordinator.RingDevice.monitored
      some (self.moveMonitor
        (self.monitor.perform (.probePeers { round with devices := some devices })).1, none)
  | .monitor (.reformationFinished ..) => none
  | .monitor step => some (self.moveMonitor (self.monitor.perform step).1, none)
  | .reformRing =>
      match self.reformation with
      | some ⟨reason, false⟩ =>
          let (coordinator, reform) := self.coordinator.reformRing
          some ({ self with coordinator := coordinator, reformation := some ⟨reason, true⟩ },
            reform.map (fun reform => ⟨reason, reform⟩))
      | _ => none
  | .reformationFinished error now =>
      match self.reformation with
      | some ⟨_, true⟩ =>
          some ({ self with
            monitor := (self.monitor.perform (.reformationFinished error now)).1
            reformation := none }, none)
      | _ => none

/-- A step with what it makes visible. -/
abbrev Label (bonjourName : String) := Action bonjourName × Option Called

/-- A step of the app with what it makes visible, as a relation. -/
def Steps (bonjourName : String) (s : InferringApp) (l : Label bonjourName) (s' : InferringApp) :
    Prop := s.step l.1 = some (s', l.2)

end InferringApp

/-! ### The reason of a re-formation -/

section

variable {watchdog : RingWatchdog} {reason : RingLossReason}

/-- An evaluation keeps the reason of a loss that is recorded. -/
theorem lossReason_evaluate (h : watchdog.lossReason = some reason) (now : Date) :
    (watchdog.evaluate now).1.lossReason = some reason := by
  rcases watchdog.evaluate_cases now with ⟨_, _, hphase, heq⟩ | ⟨_, _, hphase, _, heq⟩ |
    ⟨_, _, hphase, _, heq⟩ | ⟨_, _, hphase, _, _, heq⟩ | ⟨hphase, _, _, _, heq⟩
  · rw [heq, h]
  · rw [heq, ← h]
    simp only [RingWatchdog.lossReason, hphase]
  · rw [heq, h]
  · simp [RingWatchdog.lossReason, hphase] at h
  · simp [RingWatchdog.lossReason, hphase] at h

/-- What is reported as re-forming is the reason. -/
theorem lossReason_of_reforming {now since : Date}
    (h : (watchdog.evaluate now).2 = .reforming reason since) :
    (watchdog.evaluate now).1.lossReason = some reason := by
  rcases watchdog.evaluate_cases now with ⟨_, _, _, heq⟩ | ⟨_, _, _, _, heq⟩ |
    ⟨_, _, hphase, _, heq⟩ | ⟨_, _, _, _, _, heq⟩ | ⟨_, _, health, hhealth, heq⟩
  · simp [heq] at h
  · simp [heq] at h
  · rw [heq] at h
    cases h
    simp only [heq, RingWatchdog.lossReason, hphase]
  · rw [heq] at h
    cases h
    simp only [heq, RingWatchdog.lossReason]
  · rw [heq] at h
    rcases hhealth with rfl | rfl <;> cases h

/-- The reason of a loss is read off the phase of the watchdog. -/
theorem lossReason_of_phase {watchdog' : RingWatchdog} (hphase : watchdog'.phase = watchdog.phase) :
    watchdog'.lossReason = watchdog.lossReason := by
  simp only [RingWatchdog.lossReason, hphase]

/-- Events of the membership do not change the reason of a re-formation that is under way. -/
theorem lossReason_consume (h : watchdog.lossReason = some reason) (events : List MembershipEvent)
    (now : Date) : (watchdog.consume events now).lossReason = some reason := by
  rw [RingWatchdog.consume_eq, ← h]
  exact lossReason_of_phase (watchdog.recordLosses_phase _ now)

/-- A generation that begins does not change the reason of a re-formation that is under way. -/
theorem lossReason_beginGeneration (h : watchdog.lossReason = some reason) (now : Date) :
    (watchdog.beginGeneration now).1.lossReason = some reason := by
  have hevaluated := lossReason_evaluate h now
  rcases watchdog.beginGeneration_cases now with ⟨-, heq⟩ | ⟨-, heq⟩
  · rw [heq, hevaluated]
  · rw [heq, ← hevaluated]
    rfl

end

namespace RingHealthMonitor

variable {self : RingHealthMonitor} {reason : RingLossReason}

/-- A re-formation is under way, for the reason the watchdog has. -/
structure Underway (reason : RingLossReason) (monitor : RingHealthMonitor) : Prop where
  isReforming : monitor.isReforming = true
  lossReason : monitor.watchdog.lossReason = some reason

/-- Refreshing the health keeps a re-formation under way, for the same reason. -/
theorem Underway.refreshHealth (h : self.Underway reason) (now : Date) :
    (self.refreshHealth now).Underway reason := by
  have hreason := lossReason_evaluate h.lossReason now
  unfold RingHealthMonitor.refreshHealth
  dsimp only
  split
  · rw [startReformationIfNeeded, if_pos h.isReforming]
    exact ⟨h.isReforming, hreason⟩
  · exact ⟨h.isReforming, hreason⟩

/-- Taking over the events of the membership keeps a re-formation under way. -/
theorem Underway.absorb (h : self.Underway reason) (membership : MembershipService)
    (events : List MembershipEvent) (now : Date) :
    ({ self with
      membership := membership
      watchdog := self.watchdog.consume events now } : RingHealthMonitor).Underway reason :=
  ⟨h.isReforming, lossReason_consume h.lossReason events now⟩

/-- No step but the last of the task ends a re-formation. -/
theorem Underway.perform (h : self.Underway reason) {step : Step}
    (hstep : ∀ error now, step ≠ .reformationFinished error now) :
    (self.perform step).1.Underway reason := by
  cases step with
  | start round => exact ⟨h.isReforming, h.lossReason⟩
  | probePeers round =>
    show (self.probePeers round).1.Underway reason
    unfold probePeers
    split
    · exact h
    · exact (h.absorb ..).refreshHealth _
  | beginGeneration now =>
    exact ⟨h.isReforming, lossReason_evaluate (lossReason_beginGeneration h.lossReason now) now⟩
  | recordProgress now =>
    refine ⟨h.isReforming, ?_⟩
    show (self.watchdog.recordProgress now).lossReason = some reason
    rw [← h.lossReason, RingWatchdog.recordProgress]
    split <;> rfl
  | refreshHealth now => exact h.refreshHealth now
  | peerAnnouncedDrain nodeName now =>
    exact (h.absorb ..).refreshHealth now
  | reformationFinished error now => exact absurd rfl (hstep error now)

/-- If there is a re-formation, its reason is reported. -/
def Reported (monitor : RingHealthMonitor) : Prop :=
  monitor.isReforming = true → ∃ reason since,
    monitor.health = .reforming reason since ∧ monitor.watchdog.lossReason = some reason

/-- When refreshing the health starts a re-formation, the watchdog reports its reason. -/
theorem reported_refreshHealth (h : self.isReforming = false) (now : Date) :
    (self.refreshHealth now).Reported := by
  intro hreforming
  unfold refreshHealth startReformationIfNeeded at hreforming ⊢
  dsimp only at hreforming ⊢
  cases hhealth : (self.watchdog.evaluate now).2 with
  | reforming reason since =>
    simp only [hhealth, h, Bool.false_eq_true, if_false] at hreforming ⊢
    split at hreforming
    · simp at hreforming
    · next hcan =>
      rw [if_neg hcan]
      exact ⟨reason, since, rfl, lossReason_of_reforming hhealth⟩
  | healthy | stalled | lost => simp [hhealth, h] at hreforming

/-- A re-formation that a step starts is reported with its reason. -/
theorem reported_perform (h : self.isReforming = false) (step : Step) :
    (self.perform step).1.Reported := by
  cases step with
  | start round | recordProgress now | beginGeneration now =>
    intro hreforming
    exact absurd (h.symm.trans hreforming) Bool.false_ne_true
  | probePeers round =>
    show (self.probePeers round).1.Reported
    unfold probePeers
    split
    · intro hreforming
      exact absurd (h.symm.trans hreforming) Bool.false_ne_true
    · next devices _ =>
      exact @reported_refreshHealth { self with
        membership := _
        watchdog := self.watchdog.consume _ round.now } h round.now
  | refreshHealth now => exact reported_refreshHealth h now
  | peerAnnouncedDrain nodeName now =>
    exact @reported_refreshHealth { self with
      membership := _
      watchdog := self.watchdog.consume _ now } h now
  | reformationFinished error now =>
    intro hreforming
    simp [perform, reformationFinished, h] at hreforming

end RingHealthMonitor

/-! ### The ring that is handed over -/

namespace RingCoordinator

variable {self : RingCoordinator} {departed : DeviceID}

/-- What `reform` should be called with when `departed` has left the device `localDeviceID`. -/
structure Reform.Excludes (localDeviceID departed : DeviceID) (reform : Reform) : Prop where
  departed : ∀ device ∈ reform.devices, device.id ≠ departed
  local_mem : ∃ device ∈ reform.devices, device.id = localDeviceID
  /-- the hosts are given by rank, and the rank is this device's place among them -/
  ranked : ∀ (i : ℕ) (device : RingDevice), reform.devices[i]? = some device →
    (device.id = localDeviceID ↔ i = reform.rank)

/-- What `reformRing` must find: if the coordinator is discovered, that `departed` is not, and
    else that `departed` is not in the ring there is. -/
structure Gone (departed : DeviceID) (coordinator : RingCoordinator) : Prop where
  discovered : coordinator.CoordinatorDiscovered → departed ∉ names coordinator.allDevices
  kept : ¬ coordinator.CoordinatorDiscovered →
    ∀ device ∈ coordinator.ringDevices, device.id ≠ departed

/-- The ring devices after `buildRing` leave `departed` out exactly if it is gone. -/
theorem gone_iff :
    self.Gone departed ↔ ∀ device ∈ self.buildRing.ringDevices, device.id ≠ departed := by
  by_cases hdiscovered : self.CoordinatorDiscovered
  · obtain ⟨ring, heq, hperm, -⟩ := buildRing_of_discovered hdiscovered
    have hids := perm_names_of_perm hperm
    have hbuilt : self.buildRing.ringDevices = ring.devices := by
      rw [heq]
      rfl
    rw [hbuilt]
    constructor
    · intro h device hdevice hid
      refine h.discovered hdiscovered (hids.mem_iff.mp ?_)
      exact List.mem_map.mpr ⟨device, hdevice, hid⟩
    · intro h
      refine ⟨fun _ hmem => ?_, fun hnot => absurd hdiscovered hnot⟩
      obtain ⟨device, hdevice, hid⟩ := List.mem_map.mp (hids.mem_iff.mpr hmem)
      exact h device hdevice hid
  · rw [buildRing_of_not_discovered hdiscovered]
    exact ⟨fun h => h.kept hdiscovered, fun h => ⟨fun hyes => absurd hyes hdiscovered, fun _ => h⟩⟩

/-- **What is handed over**: a ring of a well-formed coordinator is never empty, holds this
    device at its rank, and leaves `departed` out exactly if it is gone. -/
theorem WellFormed.reformRing {bonjourName : String} (h : self.WellFormed bonjourName) :
    ∃ reform, self.reformRing = (self.buildRing, some reform) ∧
      (reform.Excludes bonjourName departed ↔ self.Gone departed) := by
  have hbuilt := h.buildRing
  obtain ⟨found, hfound, hid⟩ := hbuilt.exists_local
  refine ⟨⟨self.buildRing.myRank, self.buildRing.ringDevices⟩, ?_, ?_⟩
  · have hne : Reform.hosts ⟨self.buildRing.myRank, self.buildRing.ringDevices⟩ ≠ [] := by
      intro hnil
      rw [Reform.hosts, List.map_eq_nil_iff] at hnil
      dsimp only at hnil
      simp [hnil] at hfound
    simp only [RingCoordinator.reformRing, hne, if_false]
  · rw [gone_iff]
    constructor
    · exact fun hexcludes => hexcludes.departed
    · intro hdeparted
      exact ⟨hdeparted, ⟨found, hfound, hid⟩, fun i device => hbuilt.getElem?_ringDevices⟩

end RingCoordinator

/-! ### Runs of the app -/

namespace InferringApp

variable {bonjourName : String} {start s s' : InferringApp} {ls : List (Label bonjourName)}

/-- What holds in every run: a re-formation goes on exactly as long as the monitor says so. -/
structure Books (bonjourName : String) (app : InferringApp) : Prop where
  wellFormed : app.coordinator.WellFormed bonjourName
  underway : ∀ reformation ∈ app.reformation, app.monitor.Underway reformation.reason
  idle : app.reformation = none → app.monitor.isReforming = false

/-- At the start the books hold: there is no ring and nothing is re-formed. -/
theorem Books.init (bonjourName : String) (currentProfile : HardwareProfile) (canReform : Bool)
    (now : Date) : (init bonjourName currentProfile canReform now).Books bonjourName :=
  ⟨.init bonjourName currentProfile, by rintro _ ⟨⟩, fun _ => rfl⟩

/-- The coordinator moves without the monitor, and remains well formed. -/
theorem Books.coordinate (h : s.Books bonjourName) {coordinator : RingCoordinator}
    (hwell : coordinator.WellFormed bonjourName) :
    ({ s with coordinator := coordinator } : InferringApp).Books bonjourName :=
  ⟨hwell, h.underway, h.idle⟩

/-- The monitor moves without the coordinator, by a step that does not end a re-formation. -/
theorem Books.moveMonitor (h : s.Books bonjourName) {step : RingHealthMonitor.Step}
    (hstep : ∀ error now, step ≠ .reformationFinished error now) :
    (s.moveMonitor (s.monitor.perform step).1).Books bonjourName := by
  refine ⟨h.wellFormed, ?_, ?_⟩
  · intro reformation hmem
    unfold InferringApp.moveMonitor at hmem ⊢
    dsimp only at hmem ⊢
    cases hreforming : s.monitor.isReforming with
    | true =>
      rw [hreforming, if_pos rfl] at hmem
      exact (h.underway reformation hmem).perform hstep
    | false =>
      simp only [hreforming, Bool.false_eq_true, if_false] at hmem
      split at hmem
      · next reason since hstarted hhealth =>
        -- the re-formation has just been started, for the reason that the watchdog reported
        obtain rfl := Option.some.inj hmem
        obtain ⟨reason', since', hhealth', hreason⟩ :=
          RingHealthMonitor.reported_perform hreforming step hstarted
        rw [hhealth] at hhealth'
        cases hhealth'
        exact ⟨hstarted, hreason⟩
      · cases hmem
  · intro hnone
    unfold InferringApp.moveMonitor at hnone ⊢
    dsimp only at hnone ⊢
    cases hreforming : s.monitor.isReforming with
    | true =>
      rw [hreforming, if_pos rfl] at hnone
      exact absurd (hreforming.symm.trans (h.idle hnone)) (by simp)
    | false =>
      simp only [hreforming, Bool.false_eq_true, if_false] at hnone
      by_contra hstarted
      rw [Bool.not_eq_false] at hstarted
      obtain ⟨reason, since, hhealth, -⟩ :=
        RingHealthMonitor.reported_perform hreforming step hstarted
      simp [hstarted, hhealth] at hnone

/-- **Step lemma.**  Whatever happens next, the books stay right. -/
theorem Books.step (h : s.Books bonjourName) {l : Label bonjourName}
    (hs : Steps bonjourName s l s') : s'.Books bonjourName := by
  obtain ⟨action, called⟩ := l
  cases action with
  | discovered client =>
    cases hs
    exact h.coordinate (h.wellFormed.updatePeers client)
  | election message =>
    cases hs
    exact h.coordinate (h.wellFormed.processElectionMessage message)
  | sendAttempt i =>
    obtain ⟨coordinator, hsome, heq⟩ := Option.map_eq_some_iff.mp hs
    cases heq
    exact h.coordinate (h.wellFormed.sendAttempt hsome)
  | requestMissingProfiles i response =>
    obtain ⟨coordinator, hsome, heq⟩ := Option.map_eq_some_iff.mp hs
    cases heq
    exact h.coordinate (h.wellFormed.requestMissingProfiles hsome)
  | startFormation =>
    cases hs
    exact h.coordinate h.wellFormed.initiateElection
  | stopFormation =>
    cases hs
    exact h.coordinate h.wellFormed.stopFormation
  | monitor step =>
    cases step with
    | reformationFinished error now => cases hs
    | _ =>
      cases hs
      exact h.moveMonitor (by simp)
  | reformRing =>
    unfold Steps InferringApp.step at hs
    dsimp only at hs
    split at hs
    · next reason hreformation =>
      cases hs
      -- the coordinator builds the ring anew; the reason stays the one the task began with
      refine ⟨?_, ?_, by rintro ⟨⟩⟩
      · obtain ⟨reform, heq, -⟩ := @RingCoordinator.WellFormed.reformRing _ "" _ h.wellFormed
        show (RingCoordinator.reformRing s.coordinator).1.WellFormed bonjourName
        rw [heq]
        exact h.wellFormed.buildRing
      · rintro _ ⟨⟩
        exact h.underway ⟨reason, false⟩ hreformation
    · cases hs
  | reformationFinished error now =>
    unfold Steps InferringApp.step at hs
    dsimp only at hs
    split at hs
    · next reason hreformation =>
      cases hs
      refine ⟨h.wellFormed, by rintro _ ⟨⟩, fun _ => ?_⟩
      have hunderway := h.underway ⟨reason, true⟩ hreformation
      simp only [RingHealthMonitor.perform, RingHealthMonitor.reformationFinished,
        hunderway.isReforming, if_true]
    · cases hs

/-- Every run keeps the books, by induction over its steps. -/
theorem books (htrace : Trace (Steps bonjourName) start ls s) (hstart : start.Books bonjourName) :
    s.Books bonjourName :=
  htrace.invariant (I := fun _ s => s.Books bonjourName) hstart
    fun _ _ _ _ _ hbooks hs => hbooks.step hs

/-- **A re-formation**, in every run of the app: the reason is the one the watchdog reports, and
    the list handed to `reform` leaves out the departed device, holding this one at its rank,
    exactly if the departed device is gone when `reformRing` runs. -/
theorem reform_excludes_iff (bonjourName : String) (currentProfile : HardwareProfile)
    (canReform : Bool) (now : Date) (ls : List (Label bonjourName)) (s s' : InferringApp)
    (called : Called)
    (htrace : Trace (Steps bonjourName) (init bonjourName currentProfile canReform now) ls s)
    (hs : Steps bonjourName s (.reformRing, some called) s') :
    s.monitor.watchdog.lossReason = some called.reason ∧
      (called.reform.Excludes bonjourName called.reason.departedNode.rawValue ↔
        s.coordinator.Gone called.reason.departedNode.rawValue) := by
  have hbooks := books htrace (.init bonjourName currentProfile canReform now)
  unfold Steps InferringApp.step at hs
  dsimp only at hs
  split at hs
  · next reason hreformation =>
    obtain ⟨reform, heq, hexcludes⟩ :=
      @RingCoordinator.WellFormed.reformRing _ reason.departedNode.rawValue _ hbooks.wellFormed
    rw [heq] at hs
    obtain ⟨-, hcalled⟩ := Prod.mk.inj (Option.some.inj hs)
    obtain rfl := Option.some.inj hcalled
    exact ⟨(hbooks.underway _ hreformation).lossReason, hexcludes⟩
  · cases hs

/-! ### A drained phone that is still discovered -/

/-- The stronger device of the runs below. -/
def mac : HardwareProfile := ⟨16, 16, .mac⟩
/-- The phone of the runs below, which leaves. -/
def phone : HardwareProfile := ⟨8, 8, .iPhone⟩

/-- The interface on which the two see each other. -/
def wifi : NWInterface := ⟨"en0", .wifi⟩

/-- The mac has found the phone and resolved its address. -/
def phoneFound : BonjourClient "InferRing-mac" :=
  (BonjourClient.init _).handleResolutionSuccess "InferRing-phone" "10.0.0.2" wifi
    (by decide +kernel)

/-- The mac finds the phone and wins the election; they form a ring and the phone answers the
    first round. -/
def formation : List (Action "InferRing-mac") :=
  [.discovered phoneFound, .election ⟨.election, "InferRing-phone", phone⟩,
   .election ⟨.election, "InferRing-mac", mac⟩, .election ⟨.coordinator, "InferRing-mac", mac⟩,
   .monitor (.probePeers { now := 0, localProfile := some mac, devices := none,
                           answers := fun _ => true })]

/-- The phone announces that it is going away, and three seconds later the ring is lost. -/
def drain : List (Action "InferRing-mac") :=
  [.monitor (.peerAnnouncedDrain "InferRing-phone" 1), .monitor (.refreshHealth 4)]

/-- After the actions, `reformRing` hands over a list with or without the departed device. -/
def handsOver (departed : Bool) (actions : List (Action "InferRing-mac")) : Bool :=
  (Trace.perform step (init "InferRing-mac" mac true 0) actions).any fun result =>
    (@step "InferRing-mac" result.2 .reformRing).any fun last => last.2.any fun called =>
      called.reform.devices.any (fun device => device.id = called.reason.departedNode.rawValue)
        == departed

/-- A run whose last step hands over a device list with, or without, the departed device. -/
theorem exists_of_handsOver {departed : Bool} {actions : List (Action "InferRing-mac")}
    (h : handsOver departed actions = true) : ∃ ls s s' called,
      Trace (Steps "InferRing-mac") (init "InferRing-mac" mac true 0) ls s ∧
      Steps "InferRing-mac" s (.reformRing, some called) s' ∧
      called.reform.devices.any (fun device => device.id = called.reason.departedNode.rawValue)
        = departed := by
  obtain ⟨⟨ls, s⟩, hrun, hlast⟩ := (Option.any_eq_true _ _).mp h
  obtain ⟨⟨s', effect⟩, hs, hcalled⟩ := (Option.any_eq_true _ _).mp hlast
  obtain ⟨called, heffect, hlist⟩ := (Option.any_eq_true _ _).mp hcalled
  refine ⟨ls, s, s', called, Trace.of_perform hrun, ?_, eq_of_beq hlist⟩
  rw [Steps, hs]
  exact congrArg (fun effect => some (s', effect)) heffect

/-- The phone has announced that it goes, but its name is still advertised. -/
theorem drained_phone_kept :
    ¬ ∀ (bonjourName : String) (currentProfile : HardwareProfile) (canReform : Bool) (now : Date)
      (ls : List (Label bonjourName)) (s s' : InferringApp) (called : Called),
      Trace (Steps bonjourName) (init bonjourName currentProfile canReform now) ls s →
      Steps bonjourName s (.reformRing, some called) s' →
      called.reform.Excludes bonjourName called.reason.departedNode.rawValue := by
  intro h
  have hkept : handsOver true (formation ++ drain) = true := by decide +kernel
  obtain ⟨ls, s, s', called, htrace, hs, hlist⟩ := exists_of_handsOver hkept
  obtain ⟨device, hdevice, hid⟩ := List.any_eq_true.mp hlist
  exact (h _ _ _ _ ls s s' called htrace hs).departed device hdevice (of_decide_eq_true hid)

/-- Once the phone is no longer discovered, the ring is re-formed without it. -/
theorem reform_excludes_undiscovered_phone : ∃ ls s s' called,
    Trace (Steps "InferRing-mac") (init "InferRing-mac" mac true 0) ls s ∧
    Steps "InferRing-mac" s (.reformRing, some called) s' ∧
    (s.monitor.watchdog.lossReason = some called.reason ∧
      (called.reform.Excludes "InferRing-mac" called.reason.departedNode.rawValue ↔
        s.coordinator.Gone called.reason.departedNode.rawValue)) := by
  have hleft : handsOver false (formation ++ drain ++ [.discovered (BonjourClient.init _)])
      = true := by
    decide +kernel
  obtain ⟨ls, s, s', called, htrace, hs, -⟩ := exists_of_handsOver hleft
  exact ⟨ls, s, s', called, htrace, hs,
    reform_excludes_iff "InferRing-mac" mac true 0 ls s s' called htrace hs⟩

end InferringApp

end ShareCompute.App
