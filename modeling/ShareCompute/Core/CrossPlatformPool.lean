import ShareCompute.Core.MembershipReplay
import ShareCompute.Core.StagePlanner

namespace ShareCompute.Core

open ShareCompute.Library

/-!
# The cross-platform pool

`CrossPlatformPool.swift` and `PlatformKind.swift`: a membership service and a planner with
one seat for each of the four platforms.  Who sits where is kept in two dictionaries that the
operations edit one by one, `platformByNode` and `nodeByPlatform`.

The clock's readings are arguments, one for each time an operation reads it.  What the pool
sends over an injected transport is left out: sending cannot fail the operation and nothing
is read back.
-/

/-! ### Platforms -/

/-- Host operating system family a pool peer claims to represent. -/
inductive PlatformKind
  | windows | macos | ios | android
deriving Repr

namespace PlatformKind

/-- The raw value of a platform, by which platforms are sorted. -/
def rawValue : PlatformKind → String
  | .windows => "windows"
  | .macos => "macos"
  | .ios => "ios"
  | .android => "android"

/-- Two platforms with the same raw value are the same. -/
theorem rawValue_injective : Function.Injective rawValue := by
  intro a b h
  cases a <;> cases b <;> first | rfl | exact absurd h (by decide)

/-- Platforms are ordered by their raw values, as Swift sorts them. -/
instance : LinearOrder PlatformKind := LinearOrder.lift' rawValue rawValue_injective

/-- The four platforms the pool must see. -/
def allRequired : Finset PlatformKind := {.windows, .macos, .ios, .android}

/-- Every platform is required: the list names them all. -/
@[simp] theorem mem_allRequired (platform : PlatformKind) : platform ∈ allRequired := by
  cases platform <;> simp [allRequired]

/-- The four platforms in their own order. -/
theorem sort_allRequired :
    allRequired.sort (· ≤ ·) = [.android, .ios, .macos, .windows] := by
  have hlist : allRequired = [PlatformKind.android, .ios, .macos, .windows].toFinset := by
    ext platform
    cases platform <;> simp
  rw [hlist, List.toFinset_sort (· ≤ ·) (by decide)]
  decide

end PlatformKind

/-! ### Events and results -/

/-- Outcome of a pool membership change that adapters can observe. -/
inductive PoolConnectionEvent
  | peerConnected (platform : PlatformKind) (nodeID : NodeID)
  | peerAlreadyPresent (platform : PlatformKind) (nodeID : NodeID)
  | peerDraining (platform : PlatformKind) (nodeID : NodeID)
  | peerEvicted (platform : PlatformKind) (nodeID : NodeID) (reason : EvictionReason)
  | allRequiredPlatformsConnected (platforms : Finset PlatformKind)
  | epochChanged (epoch : Epoch) (members : List NodeID)
  | epochChangeDeferred (untilDwellElapsed : TimeInterval)
deriving DecidableEq

/-- The event says that a change of epoch has to wait. -/
def PoolConnectionEvent.isEpochChangeDeferred : PoolConnectionEvent → Bool
  | .epochChangeDeferred _ => true
  | _ => false

/-- The event says that a node has joined. -/
def MembershipEvent.isNodeJoined : MembershipEvent → Bool
  | .nodeJoined _ => true
  | _ => false

/-- The event says that a node drains. -/
def MembershipEvent.isNodeDraining : MembershipEvent → Bool
  | .nodeDraining _ => true
  | _ => false

/-- Result of attempting a RAM-pooling plan once platforms are present. -/
structure PoolPlanResult where
  platforms : List PlatformKind
  plan : ShardPlan
  totalUsableBytes : ℤ
deriving DecidableEq

/-! ### The pool -/

/-- Coordinates membership across Windows / macOS / iOS / Android peers. -/
structure CrossPlatformPool where
  membership : MembershipService
  planner : StagePlanner
  platformByNode : Dictionary NodeID PlatformKind
  nodeByPlatform : Dictionary PlatformKind NodeID

namespace CrossPlatformPool

/-- A new pool has a new membership, and nobody sits anywhere. -/
def init (now : Date) (localNodeID : NodeID := ⟨"pool-hub"⟩) (config : MembershipConfig := {})
    (planner : StagePlanner := {}) : CrossPlatformPool where
  membership := .init localNodeID now config
  planner := planner
  platformByNode := ∅
  nodeByPlatform := ∅

/-! #### Observation -/

/-- The platforms in whose seats somebody is. -/
def connectedPlatforms (self : CrossPlatformPool) : Finset PlatformKind :=
  self.nodeByPlatform.keys.toFinset

/-- The platforms that are required and not connected. -/
def missingPlatforms (self : CrossPlatformPool) : Finset PlatformKind :=
  PlatformKind.allRequired \ self.connectedPlatforms

/-- No required platform is missing: each of them has a seat in the pool. -/
def hasAllRequiredPlatforms (self : CrossPlatformPool) : Bool :=
  decide (self.missingPlatforms = ∅)

/-- The platform on which a node sits. -/
def platform (self : CrossPlatformPool) (nodeID : NodeID) : Option PlatformKind :=
  self.platformByNode.lookup nodeID

/-- The node that sits on a platform. -/
def nodeID (self : CrossPlatformPool) (platform : PlatformKind) : Option NodeID :=
  self.nodeByPlatform.lookup platform

/-! #### Connect -/

/-- The first statement of `connect`: another occupant of the seat is drained and forgets its
    platform. -/
def replaceOccupant (self : CrossPlatformPool) (now : Date) (platform : PlatformKind)
    (nodeID : NodeID) : CrossPlatformPool :=
  match self.nodeID platform with
  | none => self
  | some existing =>
      if existing ≠ nodeID then
        { self with
          membership := (self.membership.nodeAnnouncedDrain now existing).1
          platformByNode := self.platformByNode.erase existing }
      else self

/-- The second statement of `connect`: the occupant is refreshed, anyone else appears and
    takes the seat. -/
def takeSeat (self : CrossPlatformPool) (now : Date) (platform : PlatformKind)
    (profile : CapabilityProfile) : CrossPlatformPool × List PoolConnectionEvent :=
  let appeared := self.membership.nodeAppeared now profile
  if self.nodeID platform = some profile.nodeID then
    ({ self with membership := appeared.1 }, [.peerAlreadyPresent platform profile.nodeID])
  else
    ({ self with
        membership := appeared.1
        platformByNode := self.platformByNode.insert profile.nodeID platform
        nodeByPlatform := self.nodeByPlatform.insert platform profile.nodeID },
      if appeared.2.any MembershipEvent.isNodeJoined ||
          (appeared.1.storage.get? profile.nodeID).isSome then
        [.peerConnected platform profile.nodeID]
      else [])

/-- Register a peer for `platform`.  The clock is read at `drained` for the drain of an old
    occupant and at `now` for the appearance of the new one. -/
def connect (self : CrossPlatformPool) (drained now : Date) (platform : PlatformKind)
    (profile : CapabilityProfile) : CrossPlatformPool × List PoolConnectionEvent :=
  let (self, events) :=
    (self.replaceOccupant drained platform profile.nodeID).takeSeat now platform profile
  (self, events ++
    if self.hasAllRequiredPlatforms then
      [.allRequiredPlatformsConnected self.connectedPlatforms]
    else [])

/-! #### Heartbeats and drains -/

/-- A heartbeat of a node was answered; the membership is told. -/
def heartbeatSucceeded (self : CrossPlatformPool) (now : Date) (nodeID : NodeID) :
    CrossPlatformPool :=
  { self with membership := self.membership.heartbeatSucceeded now nodeID }

/-- A heartbeat of a node was missed; the membership is told. -/
def heartbeatFailed (self : CrossPlatformPool) (nodeID : NodeID) : CrossPlatformPool :=
  { self with membership := self.membership.heartbeatFailed nodeID }

/-- A node announces that it drains, and the pool reports what the membership makes of it. -/
def announceDrain (self : CrossPlatformPool) (now : Date) (nodeID : NodeID) :
    CrossPlatformPool × List PoolConnectionEvent :=
  let drain := self.membership.nodeAnnouncedDrain now nodeID
  ({ self with membership := drain.1 },
    match self.platform nodeID with
    | some platform =>
        if drain.2.any MembershipEvent.isNodeDraining then [.peerDraining platform nodeID] else []
    | none => [])

/-! #### The tick -/

/-- One iteration of the loop of `tick`. -/
def observe (self : CrossPlatformPool) :
    MembershipEvent → CrossPlatformPool × List PoolConnectionEvent
  | .nodeEvicted nodeID reason =>
      match self.platform nodeID with
      | some platform =>
          ({ self with
              platformByNode := self.platformByNode.erase nodeID
              nodeByPlatform :=
                if self.nodeID platform = some nodeID then self.nodeByPlatform.erase platform
                else self.nodeByPlatform },
            [.peerEvicted platform nodeID reason])
      | none => (self, [])
  | .epochChanged epoch members => (self, [.epochChanged epoch members])
  | .epochChangeDeferred untilDwellElapsed => (self, [.epochChangeDeferred untilDwellElapsed])
  | .nodeJoined _ | .nodeDraining _ => (self, [])

/-- The loop of `tick` over the membership events. -/
def observeAll (self : CrossPlatformPool) :
    List MembershipEvent → CrossPlatformPool × List PoolConnectionEvent
  | [] => (self, [])
  | e :: es =>
      (((self.observe e).1.observeAll es).1,
        (self.observe e).2 ++ ((self.observe e).1.observeAll es).2)

/-- A tick of the membership, the events of which are looked at one by one. -/
def tick (self : CrossPlatformPool) (now : Date) : CrossPlatformPool × List PoolConnectionEvent :=
  let (membership, membershipEvents) := self.membership.tick now
  { self with membership := membership }.observeAll membershipEvents

/-! #### RAM pooling -/

/-- The end of `planRAMPool`: report only members that actually received shards, and reject
    sets of them that miss a platform. -/
def poolResult (self : CrossPlatformPool) (members : List PlannedMember) (plan : ShardPlan) :
    Option PoolPlanResult :=
  let assignedNodeIDs := (plan.assignments.map ShardAssignment.nodeID).toFinset
  let assignedMembers := members.filter (fun member => member.nodeID ∈ assignedNodeIDs)
  let platforms :=
    (assignedMembers.filterMap (fun member => self.platform member.nodeID)).insertionSort (· ≤ ·)
  if platforms.toFinset = PlatformKind.allRequired then
    some { platforms := platforms, plan := plan
           totalUsableBytes :=
             (assignedMembers.map (fun member => member.profile.memory.usableBytes)).sum }
  else none

/-- When all four platforms are connected and the membership epoch is ready, produce a shard
    plan that pools their usable RAM.  The events of the inner tick are not returned. -/
def planRAMPool (self : CrossPlatformPool) (model : ModelPlacementSpec) (instant : Date)
    (estimatedStageDuration : TimeInterval := 10) :
    CrossPlatformPool × Except Failure (Option PoolPlanResult) :=
  if !self.hasAllRequiredPlatforms then (self, .ok none)
  else
    -- the first epoch after the four joins can fire past anti-flap dwell here
    let (self, tickEvents) := self.tick instant
    -- never return a plan for new membership under the old epoch
    if tickEvents.any PoolConnectionEvent.isEpochChangeDeferred then (self, .ok none)
    -- the tick may have evicted a required seat
    else if !self.hasAllRequiredPlatforms then (self, .ok none)
    else
      let members := self.membership.planningMembers
      if members.isEmpty then (self, .ok none)
      else
        match self.planner.plan model members self.membership.currentEpoch instant
            estimatedStageDuration with
        | .error failure => (self, .error failure)
        | .ok plan => (self, .ok (self.poolResult members plan))

/-! #### The pool as an object -/

/-- A call of a public operation, with its arguments. -/
inductive Operation
  | connect (drained now : Date) (platform : PlatformKind) (profile : CapabilityProfile)
  | heartbeatSucceeded (now : Date) (nodeID : NodeID)
  | heartbeatFailed (nodeID : NodeID)
  | announceDrain (now : Date) (nodeID : NodeID)
  | tick (now : Date)
  | planRAMPool (model : ModelPlacementSpec) (instant : Date)
      (estimatedStageDuration : TimeInterval)

/-- The state a call leaves behind and the events it returns to the host; `planRAMPool`
    returns a plan and no events. -/
def perform (self : CrossPlatformPool) :
    Operation → CrossPlatformPool × List PoolConnectionEvent
  | .connect drained now platform profile => self.connect drained now platform profile
  | .heartbeatSucceeded now nodeID => (self.heartbeatSucceeded now nodeID, [])
  | .heartbeatFailed nodeID => (self.heartbeatFailed nodeID, [])
  | .announceDrain now nodeID => self.announceDrain now nodeID
  | .tick now => self.tick now
  | .planRAMPool model instant estimatedStageDuration =>
      ((self.planRAMPool model instant estimatedStageDuration).1, [])

/-- The pool as an object whose methods are called one after the other. -/
def machine : Machine CrossPlatformPool Operation (List PoolConnectionEvent) := ⟨perform⟩

end CrossPlatformPool

/-! ### Simulated peers -/

namespace SimulatedPlatformPeer

/-- Stock capability profiles for simulated Windows / macOS / iOS / Android peers. -/
def profile (platform : PlatformKind) (name : Option String := none)
    (usableGB : Option ℤ := none) : CapabilityProfile :=
  let gb : ℤ := 1024 * 1024 * 1024
  let nodeID : NodeID := ⟨name.getD ("sim-" ++ platform.rawValue)⟩
  let memory := fun (standard : ℤ) (reclaimModel : MemoryReclaimModel) =>
    ({ totalBytes := usableGB.getD standard * gb, usableBytes := usableGB.getD standard * gb
       reclaimModel := reclaimModel } : MemoryProfile)
  match platform with
  | .windows =>
      { nodeID := nodeID, connectivity := .coreDesktop, backgroundLink := .desktopUnrestricted
        memory := memory 16 .windowsWorkingSetTrim
        runtimeBackends := [.winmlDirectML, .onnxRuntime, .llamaCppCPU]
        power := { isWallPowered := true }
        trust := .trustedCore, declaresCanHostRequiredStage := true }
  | .macos =>
      { nodeID := nodeID, connectivity := .coreDesktop, backgroundLink := .desktopUnrestricted
        memory := memory 32 .appleUnifiedMemoryPressure
        runtimeBackends := [.mlxMetal, .llamaCppGPU]
        power := { isWallPowered := true }
        trust := .trustedCore, declaresCanHostRequiredStage := true }
  | .ios =>
      { nodeID := nodeID, connectivity := .elasticMobile, backgroundLink := .iosSuspended
        memory := memory 6 .iosJetsam
        runtimeBackends := [.mlxMetal, .coreMLANE]
        power := { isWallPowered := false, batteryFraction := some (8 / 10) }
        trust := .trustedCore, declaresCanHostRequiredStage := true }
  | .android =>
      { nodeID := nodeID, connectivity := .elasticMobile
        backgroundLink := .androidForegroundService
        memory := memory 8 .linuxCgroupOOM
        runtimeBackends := [.liteRT, .llamaCppCPU, .onnxRuntime]
        power := { isWallPowered := false, batteryFraction := some (7 / 10) }
        trust := .trustedCore, declaresCanHostRequiredStage := true }

end SimulatedPlatformPeer

/-- The calls `connectAllSimulatedPlatforms` makes at `now`, platform by platform. -/
def CrossPlatformPool.connectAllSimulatedPlatforms (now : Date) : List Operation :=
  [PlatformKind.android, .ios, .macos, .windows].map (fun platform =>
    .connect now now platform (SimulatedPlatformPeer.profile platform))

end ShareCompute.Core
