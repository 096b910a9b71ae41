import Mathlib.Data.Finset.Insert
import Mathlib.Data.Rat.Floor
import Mathlib.Data.String.Basic

namespace ShareCompute.Core

/-!
# What a device is: identity, capabilities, lifecycle state and lease

The plain data of `ShareComputeCore`: `CapabilityProfile.swift`, `NodeState.swift`,
`Epoch.swift` and `Lease.swift`.  A `Date` and a `TimeInterval` are Swift `Double`s read as
exact rationals, a Swift `Int` is an integer (arithmetic that leaves the machine range traps
in Swift, so a call that returns has computed the integer), and an `Epoch` counts up from
any start (`next()` traps at `UInt64.max`).

* `CapabilityProfile` — what a device publishes when it joins.
* `NodeStateMachine.next` — the lifecycle transitions.
* `Lease` — a time-bounded grant of work in one epoch.
-/

/-- A point in time, in seconds, read as an exact number. -/
abbrev Date := ℚ

/-- A length of time, in seconds, read as an exact number. -/
abbrev TimeInterval := ℚ

/-! ### Identity and epoch -/

/-- Stable identity for a participating device, ordered by its raw value. -/
structure NodeID where
  rawValue : String
deriving Repr

/-- Two nodes with the same raw value are the same node. -/
theorem NodeID.rawValue_injective : Function.Injective NodeID.rawValue := by
  rintro ⟨a⟩ ⟨b⟩ h
  exact congrArg NodeID.mk h

/-- Nodes are ordered by their raw values, as Swift sorts them. -/
instance : LinearOrder NodeID := LinearOrder.lift' NodeID.rawValue NodeID.rawValue_injective

/-- A generation number for ring membership, which grows with every change of the members. -/
structure Epoch where
  value : ℕ
deriving DecidableEq, Repr

/-- The epoch a node occupies before it has ever joined a ring. -/
def Epoch.initial : Epoch := ⟨0⟩

/-- The epoch after this one, with the next number. -/
def Epoch.next (e : Epoch) : Epoch := ⟨e.value + 1⟩

/-! ### Capabilities -/

/-- How reliably a node holds a long-lived, bidirectional connection. -/
inductive ConnectivityClass
  | coreDesktop | elasticMobile | opportunisticMobile
deriving DecidableEq, Repr

/-- What the host OS does to connections when the app stops being frontmost. -/
inductive BackgroundLinkModel
  | desktopUnrestricted | androidForegroundService | iosSuspended
deriving DecidableEq, Repr

/-- How the host OS reclaims memory under pressure. -/
inductive MemoryReclaimModel
  | linuxCgroupOOM | windowsWorkingSetTrim | appleUnifiedMemoryPressure | iosJetsam
deriving DecidableEq, Repr

/-- The runtimes that a node can compute with. -/
inductive RuntimeBackend
  | mlxMetal | coreMLANE | llamaCppCPU | llamaCppGPU | onnxRuntime | winmlDirectML | liteRT | webGPU
deriving DecidableEq, Repr

/-- How far a node is trusted; the levels are compared by their raw values. -/
inductive TrustLevel
  | untrusted | semiTrustedEdge | trustedCore
deriving DecidableEq, Repr

/-- The raw value of a level, by which levels are compared. -/
def TrustLevel.rawValue : TrustLevel → ℕ
  | .untrusted => 0
  | .semiTrustedEdge => 1
  | .trustedCore => 2

/-- A unit of pipeline work that can be placed on a node. -/
inductive StageType
  | prefill | decodeAuthoritative | decodeSpeculative | kvStore | edgeOffload
deriving DecidableEq, Repr

/-- All stages that a node can be asked to run. -/
def StageType.allCases : Finset StageType :=
  {.prefill, .decodeAuthoritative, .decodeSpeculative, .kvStore, .edgeOffload}

/-- Required stages hold authoritative state, which a node that vanishes would take along. -/
def StageType.isRequired : StageType → Bool
  | .prefill | .decodeAuthoritative | .kvStore => true
  | .decodeSpeculative | .edgeOffload => false

/-- The thermal state that the operating system reports. -/
inductive ThermalState
  | nominal | fair | serious | critical
deriving DecidableEq, Repr

/-- The raw value of a thermal state, by which states are compared. -/
def ThermalState.rawValue : ThermalState → ℕ
  | .nominal => 0
  | .fair => 1
  | .serious => 2
  | .critical => 3

/-- What a node says about its power. -/
structure PowerProfile where
  isWallPowered : Bool
  /-- `0...1`, or `none` on a device with no battery. -/
  batteryFraction : Option ℚ := none
  thermalState : ThermalState := .nominal
deriving DecidableEq, Repr

/-- True when the node should shed work rather than accept more. -/
def PowerProfile.isUnderDuress (power : PowerProfile) : Bool :=
  if ThermalState.serious.rawValue ≤ power.thermalState.rawValue then true
  else if !power.isWallPowered then
    match power.batteryFraction with
    | some batteryFraction => decide (batteryFraction < 1 / 5)
    | none => false
  else false

/-- What a node says about its memory, in bytes. -/
structure MemoryProfile where
  totalBytes : ℤ
  usableBytes : ℤ
  reclaimModel : MemoryReclaimModel
deriving DecidableEq, Repr

/-- What a device publishes at join time and refreshes on heartbeat. -/
structure CapabilityProfile where
  nodeID : NodeID
  connectivity : ConnectivityClass
  backgroundLink : BackgroundLinkModel
  memory : MemoryProfile
  runtimeBackends : List RuntimeBackend
  power : PowerProfile
  trust : TrustLevel
  dialectVersion : String := "0.1.0"
  declaresCanHostRequiredStage : Bool
deriving DecidableEq, Repr

/-- Lease length this node's OS can actually honour, before any policy is applied. -/
def CapabilityProfile.maximumSupportableLeaseDuration (profile : CapabilityProfile) :
    TimeInterval :=
  match profile.backgroundLink with
  | .desktopUnrestricted => 300
  | .androidForegroundService => 120
  | .iosSuspended => 30

/-- Every node can support a lease of some duration. -/
theorem CapabilityProfile.maximumSupportableLeaseDuration_pos (profile : CapabilityProfile) :
    0 < profile.maximumSupportableLeaseDuration := by
  unfold maximumSupportableLeaseDuration
  split <;> norm_num

/-! ### Lifecycle state -/

/-- Lifecycle state of a node with respect to the ring. -/
inductive NodeState
  | activeCore | activeElastic | opportunistic | draining | suspended
deriving DecidableEq, Repr

/-- Whether a node in this state may hold prefill / authoritative decode / KV store. -/
def NodeState.canHostRequiredStage : NodeState → Bool
  | .activeCore | .activeElastic => true
  | .opportunistic | .draining | .suspended => false

/-- Whether the node should be counted when planning the next epoch's shards. -/
def NodeState.participatesInPlanning : NodeState → Bool
  | .activeCore | .activeElastic | .opportunistic => true
  | .draining | .suspended => false

/-- A draining node takes no part in planning. -/
@[simp] theorem NodeState.participates_draining :
    NodeState.draining.participatesInPlanning = false := rfl

/-- A suspended node takes no part in planning. -/
@[simp] theorem NodeState.participates_suspended :
    NodeState.suspended.participatesInPlanning = false := rfl

/-- A node that can host a required stage takes part in planning. -/
theorem NodeState.participates_of_canHost {state : NodeState}
    (h : state.canHostRequiredStage = true) : state.participatesInPlanning = true := by
  cases state <;> first | rfl | exact absurd h (by decide)

/-- Something that happens to a node and may move it between states. -/
inductive NodeEvent
  | joinedAsCore | joinedAsElastic | joinedAsOpportunistic
  | enteredBackground | returnedToForeground
  | drainRequested | drainCompleted
  | leaseExpired | heartbeatLost
  | powerDuress
deriving DecidableEq, Repr

namespace NodeStateMachine

/-- The next state, or `none` if the event is not meaningful in that state. -/
def next (state : NodeState) (event : NodeEvent) : Option NodeState :=
  match state, event with
  | .suspended, .joinedAsCore => some .activeCore
  | .suspended, .joinedAsElastic => some .activeElastic
  | .suspended, .joinedAsOpportunistic => some .opportunistic
  | .suspended, .returnedToForeground => some .opportunistic
  | .activeCore, .enteredBackground
  | .activeElastic, .enteredBackground
  | .opportunistic, .enteredBackground => some .draining
  | .activeCore, .drainRequested
  | .activeElastic, .drainRequested
  | .opportunistic, .drainRequested => some .draining
  | .activeElastic, .powerDuress => some .opportunistic
  | .activeCore, .powerDuress => some .draining
  | .opportunistic, .powerDuress => some .draining
  | .draining, .drainCompleted
  | .draining, .leaseExpired
  | .draining, .heartbeatLost => some .suspended
  | .activeCore, .leaseExpired
  | .activeElastic, .leaseExpired
  | .opportunistic, .leaseExpired
  | .activeCore, .heartbeatLost
  | .activeElastic, .heartbeatLost
  | .opportunistic, .heartbeatLost => some .suspended
  | _, _ => none

/-- Applies an event, leaving the state untouched when the transition is not legal.
    Returns whether the state moved, and the state left behind. -/
def apply (event : NodeEvent) (state : NodeState) : Bool × NodeState :=
  match next state event with
  | none => (false, state)
  | some newState => (true, newState)

/-- The state a node should enter when it first joins, given what it declares. -/
def initialState (profile : CapabilityProfile) : NodeState :=
  if profile.declaresCanHostRequiredStage then
    match profile.connectivity with
    | .coreDesktop => .activeCore
    | .elasticMobile => .activeElastic
    | .opportunisticMobile => .opportunistic
  else .opportunistic

/-- A node that has just joined takes part in planning, whatever its profile. -/
@[simp] theorem initialState_participates (profile : CapabilityProfile) :
    (initialState profile).participatesInPlanning = true := by
  unfold initialState
  split
  · split <;> rfl
  · rfl

/-- The planning states are the ones that let a node enter the background. -/
theorem apply_enteredBackground (state : NodeState) :
    apply .enteredBackground state =
      (state.participatesInPlanning,
        if state.participatesInPlanning then .draining else state) := by
  cases state <;> rfl

/-- Only a suspended node can enter a state that may host required stages. -/
theorem suspended_of_next_canHost {state state' : NodeState} {event : NodeEvent}
    (hnext : next state event = some state') (hhost : state'.canHostRequiredStage = true) :
    state = .suspended := by
  cases state <;> cases event <;> simp only [next, reduceCtorEq, Option.some.injEq] at hnext <;>
    subst hnext <;> first | rfl | exact absurd hhost (by decide)

/-- A departure of a planning or draining node ends in `suspended`. -/
theorem apply_departure {state : NodeState} {event : NodeEvent}
    (hevent : event = .heartbeatLost ∨ event = .leaseExpired ∨
      (event = .drainCompleted ∧ state = .draining)) :
    (apply event state).2 = .suspended := by
  rcases hevent with rfl | rfl | ⟨rfl, rfl⟩
  · cases state <;> rfl
  · cases state <;> rfl
  · rfl

end NodeStateMachine

/-! ### Leases -/

/-- A time-bounded grant permitting a node to hold work in a particular epoch. -/
structure Lease where
  nodeID : NodeID
  epoch : Epoch
  issuedAt : Date
  expiresAt : Date
  allowedStageTypes : Finset StageType
  stabilityScore : ℚ
deriving DecidableEq

namespace Lease

/-- How long the lease is still valid; `0` once it is not. -/
def remainingTime (lease : Lease) (now : Date) : TimeInterval := max 0 (lease.expiresAt - now)

/-- The lease is valid before its end. -/
def isValid (lease : Lease) (now : Date) : Bool := decide (now < lease.expiresAt)

/-- Place a stage only when it is expected to finish inside the current lease. -/
def canHost (lease : Lease) (stage : StageType) (estimatedDuration : TimeInterval) (now : Date) :
    Bool :=
  if !lease.isValid now then false
  else if stage ∉ lease.allowedStageTypes then false
  else decide (estimatedDuration < lease.remainingTime now)

end Lease

end ShareCompute.Core
