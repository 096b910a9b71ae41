import ShareCompute.Core.MembershipSpec
import ShareCompute.Core.RingWatchdog

namespace ShareCompute.App

open ShareCompute.Library ShareCompute.Core

/-!
# The ring health monitor

`RingHealthMonitor.swift`: the app's driver of the membership service and the watchdog.  A
probe round publishes the local profile, pings every ring peer, ticks the membership and
hands the events to the watchdog; the generation hooks and inbound announcements call the
watchdog in between.

The clock, the hardware monitor, the coordinator's ring and the answers to the pings are
inputs of a `Round`, which happens at one time.  A rebuild runs in a task of its own, whose
outcome is a step of its own (`reformationFinished`).
-/

/-! ### Devices and profiles -/

/-- The kinds of device that the app runs on. -/
inductive DeviceIdiom
  | iPhone | iPad | mac
deriving DecidableEq

/-- What a device tells of itself to the others: its memory, and of which kind it is. -/
structure HardwareProfile where
  totalRAM : ℤ
  recommendedUsageRAM : ℤ
  idiom : DeviceIdiom

/-- A device of the ring; its name is its identity. -/
structure RingDevice where
  name : String
  hardwareProfile : Option HardwareProfile

/-- `CapabilityProfile.from`: bridges the app's hardware profile into the core's capability
    model.  The thermal state is this process's own, whichever device the profile describes. -/
def capabilityProfile (thermalState : ThermalState) (profile : HardwareProfile) (nodeID : NodeID) :
    CapabilityProfile :=
  let isDesktop := decide (profile.idiom = .mac)
  { nodeID := nodeID
    connectivity := if isDesktop then .coreDesktop else .elasticMobile
    backgroundLink := if isDesktop then .desktopUnrestricted else .iosSuspended
    memory :=
      { totalBytes := profile.totalRAM
        usableBytes := profile.recommendedUsageRAM
        reclaimModel := if isDesktop then .appleUnifiedMemoryPressure else .iosJetsam }
    runtimeBackends := [.mlxMetal]
    power := { isWallPowered := isDesktop, batteryFraction := none, thermalState := thermalState }
    trust := .trustedCore
    declaresCanHostRequiredStage := true }

/-- The capability profile that is made of a hardware profile names the node that it was made
    for. -/
@[simp] theorem capabilityProfile_nodeID (thermalState : ThermalState) (profile : HardwareProfile)
    (nodeID : NodeID) : (capabilityProfile thermalState profile nodeID).nodeID = nodeID := rfl

/-- What a probe round finds: the time, this device's own condition, and who answers its ping. -/
structure Round where
  now : Date
  thermalState : ThermalState := .nominal
  /-- `hardwareMonitor?.currentProfile` -/
  localProfile : Option HardwareProfile
  /-- the devices of the coordinator's ring, or `none` without a coordinator -/
  devices : Option (List RingDevice)
  /-- whether a device answers its ping -/
  answers : RingDevice → Bool

/-! ### The monitor -/

/-- The actor's stored properties: the membership of the ring, the watchdog, and what they have
    decided. -/
structure RingHealthMonitor where
  /-- `ServiceInfo.bonjourName` -/
  bonjourName : String
  /-- `MLXManager.canReform`, fixed when the app is compiled -/
  canReform : Bool
  membership : MembershipService
  watchdog : RingWatchdog
  health : RingHealth
  /-- whether a reformation task is under way -/
  isReforming : Bool

namespace RingHealthMonitor

/-- The configuration the monitor gives its membership service. -/
def membershipConfig : MembershipConfig where
  leaseDuration := 60
  heartbeatInterval := 2
  missedHeartbeatsBeforeEviction := 3
  minimumEpochDwellTime := 5

/-- A monitor without a ring: its membership is new and its watchdog has nothing to watch. -/
def init (bonjourName : String) (canReform : Bool) (now : Date) : RingHealthMonitor where
  bonjourName := bonjourName
  canReform := canReform
  membership := .init ⟨bonjourName⟩ now membershipConfig
  watchdog := .init {} now
  health := .healthy
  isReforming := false

/-! ### Re-formation -/

/-- `RingError.finalizeUnavailable.errorDescription`, the error of a build that cannot tear a ring
    down. -/
def finalizeUnavailable : String :=
  "Ring Error: this build cannot rebuild the ring. DistributedGroup.finalize() is " ++
  "supplied by Patches/mlx-swift/0001, which is not in the MLX this app was compiled " ++
  "against; build with MLX_HAS_FINALIZE against the patched fork to enable it."

/-- Drives one rebuild: reports at once when the build cannot, and else starts the task. -/
def startReformationIfNeeded (self : RingHealthMonitor) (now : Date) : RingHealthMonitor :=
  -- a second teardown would race the first against the same group
  if self.isReforming then self
  else if !self.canReform then
    let watchdog := self.watchdog.reformationUnavailable finalizeUnavailable now
    { self with
      watchdog := (watchdog.evaluate now).1
      health := (watchdog.evaluate now).2 }
  else { self with isReforming := true }

/-- The reformation task ends, with the error that stopped it or without one. -/
def reformationFinished (self : RingHealthMonitor) (error : Option String) (now : Date) :
    RingHealthMonitor :=
  if self.isReforming then
    let watchdog :=
      match error with
      | none => self.watchdog.reformationSucceeded now
      | some description => self.watchdog.reformationFailed description now
    { self with
      isReforming := false
      watchdog := (watchdog.evaluate now).1
      health := (watchdog.evaluate now).2 }
  else self

/-- The current verdict, refreshed; a ring that was lost begins to be formed anew. -/
def refreshHealth (self : RingHealthMonitor) (now : Date) : RingHealthMonitor :=
  let self :=
    { self with
      watchdog := (self.watchdog.evaluate now).1
      health := (self.watchdog.evaluate now).2 }
  match self.health with
  | .reforming .. => self.startReformationIfNeeded now
  | _ => self

/-! ### Generation hooks -/

/-- Returns false when the ring is already dead, so a request fails immediately. -/
def beginGeneration (self : RingHealthMonitor) (now : Date) : RingHealthMonitor × Bool :=
  let (watchdog, allowed) := self.watchdog.beginGeneration now
  ({ self with
      watchdog := (watchdog.evaluate now).1
      health := (watchdog.evaluate now).2 }, allowed)

/-- A token arrived, of which the watchdog takes the time. -/
def recordProgress (self : RingHealthMonitor) (now : Date) : RingHealthMonitor :=
  { self with watchdog := self.watchdog.recordProgress now }

/-! ### Probing -/

/-- The devices of the ring other than this one. -/
def ringPeers (self : RingHealthMonitor) (devices : List RingDevice) : List RingDevice :=
  devices.filter (fun device => device.name ≠ self.bonjourName)

/-- The local device is entered into the membership again, with the profile that it has now. -/
def publishLocalProfile (self : RingHealthMonitor) (round : Round) : MembershipService :=
  match round.localProfile with
  | none => self.membership
  | some profile =>
      (self.membership.nodeAppeared round.now
        (capabilityProfile round.thermalState profile ⟨self.bonjourName⟩)).1

/-- `start`, up to the loop it begins: of what a round finds, it looks at the local profile. -/
def start (self : RingHealthMonitor) (round : Round) : RingHealthMonitor :=
  { self with membership := self.publishLocalProfile round }

/-- One iteration of the loop over the peers. -/
def probe (round : Round) (membership : MembershipService) (peer : RingDevice) :
    MembershipService :=
  let nodeID : NodeID := ⟨peer.name⟩
  if round.answers peer then
    -- a known profile is published again before the heartbeat is counted
    let membership :=
      match peer.hardwareProfile with
      | none => membership
      | some profile =>
          (membership.nodeAppeared round.now
            (capabilityProfile round.thermalState profile nodeID)).1
    membership.heartbeatSucceeded round.now nodeID
  else membership.heartbeatFailed nodeID

/-- A probe round, with the membership events of its tick. -/
def probePeers (self : RingHealthMonitor) (round : Round) :
    RingHealthMonitor × List MembershipEvent :=
  match round.devices with
  | none => (self, [])
  | some devices =>
      let membership := (self.ringPeers devices).foldl (probe round)
        (self.publishLocalProfile round)
      let (membership, events) := membership.tick round.now
      let self :=
        { self with
          membership := membership
          watchdog := self.watchdog.consume events round.now }
      (self.refreshHealth round.now, events)

/-- A peer told us it is going away. -/
def peerAnnouncedDrain (self : RingHealthMonitor) (nodeName : String) (now : Date) :
    RingHealthMonitor :=
  let (membership, events) := self.membership.nodeAnnouncedDrain now ⟨nodeName⟩
  let self :=
    { self with
      membership := membership
      watchdog := self.watchdog.consume events now }
  self.refreshHealth now

/-! ### The monitor as an object -/

/-- Something that runs on the main actor. -/
inductive Step
  | start (round : Round)
  | probePeers (round : Round)
  | beginGeneration (now : Date)
  | recordProgress (now : Date)
  | refreshHealth (now : Date)
  | peerAnnouncedDrain (nodeName : String) (now : Date)
  | reformationFinished (error : Option String) (now : Date)

/-- What a step lets the outside see: the events of its tick, or whether a generation begins. -/
inductive Outcome
  | nothing
  | events (events : List MembershipEvent)
  | allowed (allowed : Bool)

/-- One call of the monitor, with what it returns. -/
def perform (self : RingHealthMonitor) : Step → RingHealthMonitor × Outcome
  | .start round => (self.start round, .nothing)
  | .probePeers round => ((self.probePeers round).1, .events (self.probePeers round).2)
  | .beginGeneration now =>
      ((self.beginGeneration now).1, .allowed (self.beginGeneration now).2)
  | .recordProgress now => (self.recordProgress now, .nothing)
  | .refreshHealth now => (self.refreshHealth now, .nothing)
  | .peerAnnouncedDrain nodeName now => (self.peerAnnouncedDrain nodeName now, .nothing)
  | .reformationFinished error now => (self.reformationFinished error now, .nothing)

/-- The monitor as an object whose steps run one after the other. -/
def machine : Machine RingHealthMonitor Step Outcome := ⟨perform⟩

end RingHealthMonitor

end ShareCompute.App
