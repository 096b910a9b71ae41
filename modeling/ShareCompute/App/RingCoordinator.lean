import ShareCompute.App.RingHealthMonitor
import Mathlib.Data.List.Rotate
import Mathlib.Data.List.Sort

namespace ShareCompute.App

open ShareCompute.Library ShareCompute.Core

/-!
# The ring coordinator

`BonjourClient.swift` and `RingCoordinator.swift`: how a device learns who is there, elects a
coordinator and puts the discovered devices into a ring.

* `BonjourClient` carries what discovery promises: no name twice, and never this device's own.
* `RingCoordinator` has one function for each method.  Its tasks (a message on its way to the
  successor, a round of profile requests) are part of the state, so that other methods can run
  between their awaits.
* `WellFormed` — this device is always discovered and always in its ring, at the rank the ring
  gives it; every method keeps that.
-/

/-! ### Discovery -/

/-- The kinds of network interface that the framework tells apart; a wired one is preferred to
    wireless ones when a peer is reachable over both. -/
inductive InterfaceType
  | wiredEthernet | wifi | other
deriving DecidableEq

/-- An interface as discovery sees it: its name, by which ties are broken, and its kind. -/
structure NWInterface where
  name : String
  type : InterfaceType
deriving DecidableEq

/-- `<` of interfaces: wired before wireless before the rest. -/
def NWInterface.lt (lhs rhs : NWInterface) : Bool :=
  if lhs.type = .wiredEthernet then true
  else if rhs.type = .wiredEthernet then false
  else if lhs.type = .wifi then true
  else false

/-- `<=` of two interfaces, which Swift derives from `<` and `==`. -/
def NWInterface.le (lhs rhs : NWInterface) : Bool := lhs.lt rhs || lhs = rhs

/-- What discovery reports of a peer: the name of the service, the host it resolved to, and the
    interface it was seen on. -/
structure Node where
  name : String
  host : String
  interface : NWInterface
deriving DecidableEq

/-- `ServiceInfo.servicePrefix`, with which the name of every service of the app begins. -/
def servicePrefix : String := "InferRing"

/-- The browser's results lead to this name being resolved. -/
def Resolvable (bonjourName name : String) : Prop :=
  name.startsWith servicePrefix = true ∧ name ≠ bonjourName

/-- Whether a name belongs to another device can be computed, so that runs of discovery can be
    evaluated. -/
instance (bonjourName name : String) : Decidable (Resolvable bonjourName name) :=
  inferInstanceAs (Decidable (_ ∧ _))

/-- The nodes found so far by the client of the device `bonjourName`. -/
structure BonjourClient (bonjourName : String) where
  nodes : List Node
  nodup : (nodes.map Node.name).Nodup
  others : ∀ node ∈ nodes, node.name ≠ bonjourName

namespace BonjourClient

variable {bonjourName : String}

/-- A client that has just begun to browse, with nothing discovered yet. -/
def init (bonjourName : String) : BonjourClient bonjourName := ⟨[], List.nodup_nil, by simp⟩

/-- What the browser sees now: the nodes of other names are dropped.  New names are resolved
    first, see `handleResolutionSuccess`. -/
def handleResults (self : BonjourClient bonjourName) (results : List String) :
    BonjourClient bonjourName :=
  let currentNames := results.filter (fun name => Resolvable bonjourName name)
  { nodes := self.nodes.filter (fun node => node.name ∈ currentNames)
    nodup := self.nodup.sublist (List.filter_sublist.map _)
    others := fun node hnode => self.others node (List.mem_of_mem_filter hnode) }

/-- An address for one of the resolved names. -/
def handleResolutionSuccess (self : BonjourClient bonjourName) (name ip : String)
    (interface : NWInterface) (hname : Resolvable bonjourName name) :
    BonjourClient bonjourName :=
  if hnew : name ∉ self.nodes.map Node.name then
    { nodes := self.nodes ++ [⟨name, ip, interface⟩]
      nodup := by
        rw [List.map_append, List.nodup_append]
        refine ⟨self.nodup, List.nodup_singleton _, ?_⟩
        rintro a ha b hb rfl
        rw [List.mem_singleton.mp hb] at ha
        exact hnew ha
      others := by
        intro node hnode
        rcases List.mem_append.mp hnode with hold | hlast
        · exact self.others node hold
        · rw [List.mem_singleton.mp hlast]
          exact hname.2 }
  else
    -- a known name moves to a better interface, and keeps its place
    let update := fun node : Node =>
      if node.name = name ∧ node.host ≠ ip ∧ interface.le node.interface then ⟨name, ip, interface⟩
      else node
    have hupdate : ∀ node, (update node).name = node.name := by
      intro node
      show Node.name (if _ then _ else _) = _
      split
      · next h => exact h.1.symm
      · rfl
    { nodes := self.nodes.map update
      nodup := by
        have heq : (self.nodes.map update).map Node.name = self.nodes.map Node.name := by
          rw [List.map_map]
          exact List.map_congr_left fun node _ => hupdate node
        exact heq ▸ self.nodup
      others := by
        intro node hnode
        obtain ⟨old, hold, rfl⟩ := List.mem_map.mp hnode
        exact hupdate old ▸ self.others old hold }

end BonjourClient

/-! ### Rings and elections -/

deriving instance DecidableEq for HardwareProfile

/-- `<` of profiles, which compares the memory that is recommended for use. -/
def HardwareProfile.lt (lhs rhs : HardwareProfile) : Bool :=
  lhs.recommendedUsageRAM < rhs.recommendedUsageRAM

/-- A device identifies itself by its name. -/
abbrev DeviceID := String

/-- A device that may become a member of the ring, with its profile once it is known. -/
structure DiscoveredDevice where
  name : String
  host : String
  hardwareProfile : Option HardwareProfile
deriving DecidableEq

/-- The part that a device plays in the election that is going on. -/
inductive CoordinatorState
  | inactive | candidate | coordinator | follower
deriving DecidableEq

/-- A message proposes a candidate, or announces the coordinator that was elected. -/
inductive ElectionMessageType
  | election | coordinator
deriving DecidableEq

/-- The body of a post to `/elect`: the candidate and the profile by which it is compared with
    others. -/
structure ElectionMessage where
  type : ElectionMessageType
  candidateID : DeviceID
  hardwareProfile : HardwareProfile
deriving DecidableEq

namespace RingCoordinator

/-- A device with its rank; the health monitor reads the name and the profile alone. -/
structure RingDevice where
  device : DiscoveredDevice
  rank : ℕ
deriving DecidableEq

/-- A member is identified by the name of its device. -/
def RingDevice.id (device : RingDevice) : DeviceID := device.device.name

/-- The same member as the health monitor sees it, with the address and the rank alone. -/
def RingDevice.monitored (device : RingDevice) : App.RingDevice :=
  ⟨device.device.name, device.device.hardwareProfile⟩

/-- The members in the order of their ranks, and the coordinator they elected. -/
structure Ring where
  devices : List RingDevice
  coordinator : DeviceID

/-- A task of `sendToSuccessor` that has not sent its message yet. -/
structure Sending where
  message : ElectionMessage
  attempts : ℕ

/-- Where a task of `requestMissingProfiles` stands: it visits the indices below `count`. -/
inductive ProfileRequests
  | starting
  | visiting (index count : ℕ) (updated : Bool)
  | awaiting (index count : ℕ) (updated : Bool)

end RingCoordinator

open RingCoordinator (Ring Sending ProfileRequests) in
/-- The actor's stored properties, and the tasks of it that have not ended. -/
structure RingCoordinator where
  peers : List DiscoveredDevice
  /-- discovered devices including this one, sorted by their names -/
  allDevices : List DiscoveredDevice
  myIndex : ℕ
  currentRing : Option Ring
  coordinatorID : Option DeviceID
  state : CoordinatorState
  localDevice : DiscoveredDevice
  /-- `hardwareMonitor.currentProfile` -/
  currentProfile : HardwareProfile
  sendings : List Sending
  profileRequests : List ProfileRequests

namespace RingCoordinator

/-- The coordinator of a device that has discovered nobody: it is alone in the list, inactive, and
    has no ring. -/
def init (bonjourName : String) (currentProfile : HardwareProfile) : RingCoordinator :=
  let localDevice := ⟨bonjourName, "0.0.0.0", some currentProfile⟩
  { peers := []
    allDevices := [localDevice]
    myIndex := 0
    currentRing := none
    coordinatorID := none
    state := .inactive
    localDevice := localDevice
    currentProfile := currentProfile
    sendings := []
    profileRequests := [] }

/-- A device is identified by the name under which it announces itself. -/
def localDeviceID (self : RingCoordinator) : DeviceID := self.localDevice.name

/-- The members of the current ring, or none while there is no ring. -/
def ringDevices (self : RingCoordinator) : List RingDevice :=
  match self.currentRing with
  | some ring => ring.devices
  | none => [⟨self.localDevice, 0⟩]

/-- The rank that the current ring gives this device; `0` while there is no ring or it is not a
    member. -/
def myRank (self : RingCoordinator) : ℕ :=
  match self.currentRing with
  | some ring =>
      match ring.devices.find? (fun device => device.id = self.localDeviceID) with
      | some device => device.rank
      | none => 0
  | none => 0

/-- The known memory of the ring; devices without a profile do not count. -/
def usableRAM (self : RingCoordinator) : ℤ :=
  (self.ringDevices.filterMap (fun device =>
    device.device.hardwareProfile.map HardwareProfile.recommendedUsageRAM)).sum

/-! ### Messages to the successor -/

/-- The next discovered device after this one, round the list; none for a device on its own. -/
def getSuccessor (self : RingCoordinator) : Option DiscoveredDevice :=
  match self.allDevices[(self.myIndex + 1) % self.allDevices.length]? with
  | none => none
  | some successor => if successor.name = self.localDeviceID then none else some successor

/-- Starts the task; its attempts are steps of their own. -/
def sendToSuccessor (self : RingCoordinator) (message : ElectionMessage) : RingCoordinator :=
  { self with sendings := self.sendings ++ [⟨message, 4⟩] }

/-- The task at `i` looks for a successor once, and waits, sends or gives up. -/
def sendAttempt (self : RingCoordinator) (i : ℕ) : Option RingCoordinator :=
  match self.sendings[i]? with
  | none => none
  | some sending =>
      match self.getSuccessor with
      | some _ => some { self with sendings := self.sendings.eraseIdx i }
      | none =>
          if 0 < sending.attempts then
            some { self with
              sendings := self.sendings.set i { sending with attempts := sending.attempts - 1 } }
          else
            some { self with sendings := self.sendings.eraseIdx i, state := .inactive }

/-! ### Formation -/

/-- The device proposes itself, unless it is alone or its part in an election is not over. -/
def initiateElection (self : RingCoordinator) : RingCoordinator :=
  { self with state := .candidate }.sendToSuccessor
    ⟨.election, self.localDeviceID, self.currentProfile⟩

/-- `sorted { $0.deviceID < $1.deviceID }`: the order in which a ring is built. -/
def sortedByID (devices : List DiscoveredDevice) : List DiscoveredDevice :=
  devices.insertionSort (fun a b => a.name ≤ b.name)

/-- Discovery has reported: the peers are replaced, and the list, this device's place in it and the
    ring follow. -/
def updatePeers (self : RingCoordinator) (nodes : List Node) : RingCoordinator :=
  let currentDiscovered := nodes.map (fun node => DiscoveredDevice.mk node.name node.host none)
  if self.peers = currentDiscovered then self
  else
    let allDevices := sortedByID (currentDiscovered ++ [self.localDevice])
    let self : RingCoordinator :=
      { self with
        peers := currentDiscovered
        allDevices := allDevices
        myIndex := (allDevices.findIdx? (fun device => device.name = self.localDeviceID)).getD 0 }
    if self.peers ≠ [] ∧ self.currentRing.isNone ∧ self.state = .inactive then
      self.initiateElection
    else self

/-- A formation begins with an election, for which this device is the first candidate. -/
def startFormation (self : RingCoordinator) : RingCoordinator := self.initiateElection

/-- The formation is given up: the ring, the coordinator and the part in the election are
    forgotten. -/
def stopFormation (self : RingCoordinator) : RingCoordinator :=
  { self with currentRing := none, state := .inactive }

/-- Nothing happens unless the coordinator is known and discovered. -/
def buildRing (self : RingCoordinator) : RingCoordinator :=
  match self.coordinatorID with
  | none => self
  | some coordinatorID =>
      match self.allDevices.findIdx? (fun device => device.name = coordinatorID) with
      | none => self
      | some coordIndex =>
          let orderedDevices := self.allDevices.drop coordIndex ++ self.allDevices.take coordIndex
          { self with
            currentRing := some
              { devices := orderedDevices.zipIdx.map (fun entry => ⟨entry.1, entry.2⟩)
                coordinator := coordinatorID } }

/-- This device has won the election: it builds the ring and announces itself to its successor. -/
def becomeCoordinator (self : RingCoordinator) : RingCoordinator :=
  { self with coordinatorID := some self.localDeviceID, state := .coordinator }.sendToSuccessor
    ⟨.coordinator, self.localDeviceID, self.currentProfile⟩

/-- The profile of the device at `index` becomes known. -/
def learnProfile (self : RingCoordinator) (index : ℕ) (profile : HardwareProfile) :
    RingCoordinator :=
  { self with
    allDevices := self.allDevices.modify index
      (fun device => { device with hardwareProfile := some profile }) }

/-- A candidate that is not this device brings its profile along. -/
def learnCandidate (self : RingCoordinator) (message : ElectionMessage) : RingCoordinator :=
  if message.candidateID ≠ self.localDeviceID then
    match self.allDevices.findIdx? (fun device => device.name = message.candidateID) with
    | none => self
    | some index =>
        match self.allDevices[index]? with
        | some device =>
            if device.hardwareProfile.isNone then self.learnProfile index message.hardwareProfile
            else self
        | none => self
  else self

/-- The candidate is the coordinator from now on. -/
def acknowledge (self : RingCoordinator) (candidateID : DeviceID) : RingCoordinator :=
  { self with
    coordinatorID := some candidateID
    state := if candidateID = self.localDeviceID then .coordinator else .follower }

/-- `mlxInitTask = Task { … }`, of which the profile requests matter here. -/
def startInitTask (self : RingCoordinator) : RingCoordinator :=
  { self with profileRequests := self.profileRequests ++ [.starting] }

/-- A message has arrived: a candidacy is passed on or replaced by this device's own, and an
    announcement is acknowledged. -/
def processElectionMessage (self : RingCoordinator) (message : ElectionMessage) :
    RingCoordinator :=
  let self := self.learnCandidate message
  match message.type with
  | .election =>
      if self.currentProfile.lt message.hardwareProfile then
        { self with state := .follower }.sendToSuccessor message
      else if message.candidateID ≠ self.localDeviceID then
        if self.state ≠ .candidate then self.initiateElection else self
      else self.becomeCoordinator
  | .coordinator =>
      let self := (self.acknowledge message.candidateID).buildRing
      if message.candidateID ≠ self.localDeviceID then
        (self.sendToSuccessor message).startInitTask
      else self.startInitTask

/-- The task of `requestMissingProfiles` at `i` runs to its next await or to its next index.
    `response` is what an awaited device answers.  An index that is out of range by then traps,
    and there is no state after it. -/
def requestMissingProfiles (self : RingCoordinator) (i : ℕ) (response : Option HardwareProfile) :
    Option RingCoordinator :=
  let moveTo := fun (self : RingCoordinator) (requests : ProfileRequests) =>
    { self with profileRequests := self.profileRequests.set i requests }
  match self.profileRequests[i]? with
  | none => none
  | some .starting => some (moveTo self (.visiting 0 self.allDevices.length false))
  | some (.visiting index count updated) =>
      if index < count then
        match self.allDevices[index]? with
        | none => none
        | some device =>
            if device.name ≠ self.localDeviceID ∧ device.hardwareProfile.isNone then
              some (moveTo self (.awaiting index count updated))
            else some (moveTo self (.visiting (index + 1) count updated))
      else
        let self := { self with profileRequests := self.profileRequests.eraseIdx i }
        some (if updated then self.buildRing else self)
  | some (.awaiting index count updated) =>
      match response with
      | none => some (moveTo self (.visiting (index + 1) count updated))
      | some profile =>
          if index < self.allDevices.length then
            some (moveTo (self.learnProfile index profile) (.visiting (index + 1) count true))
          else none

/-- What `mlxManager.reform` is called with, as ring devices and as the hosts it gets. -/
structure Reform where
  rank : ℕ
  devices : List RingDevice

/-- The hosts that a re-formation was started for, in the order of the ring's ranks. -/
def Reform.hosts (reform : Reform) : List String :=
  reform.devices.map (fun device => device.device.host)

/-- `reformRing`, up to the call of `mlxManager.reform`; without one if the ring is empty. -/
def reformRing (self : RingCoordinator) : RingCoordinator × Option Reform :=
  let self := self.buildRing
  let reform := { rank := self.myRank, devices := self.ringDevices }
  (self, if reform.hosts = [] then none else some reform)

/-! ### Building the ring -/

variable {self self' : RingCoordinator} {bonjourName : String}

/-- The identities of a list of devices. -/
def names (devices : List DiscoveredDevice) : List DeviceID := devices.map DiscoveredDevice.name

/-- `buildRing` finds the coordinator among the devices that it knows. -/
def CoordinatorDiscovered (self : RingCoordinator) : Prop :=
  ∃ coordinatorID ∈ self.coordinatorID, coordinatorID ∈ names self.allDevices

/-- A ring in which no device is twice, every rank is a place, and `localDeviceID` has one. -/
structure Ring.WellFormed (localDeviceID : DeviceID) (ring : Ring) : Prop where
  nodup : (ring.devices.map RingDevice.id).Nodup
  ranked : ring.devices.map RingDevice.rank = List.range ring.devices.length
  local_mem : localDeviceID ∈ ring.devices.map RingDevice.id

/-- The coordinator of the device `bonjourName`: the discovered devices have different names,
    this device's among them, and so has the ring. -/
structure WellFormed (bonjourName : DeviceID) (coordinator : RingCoordinator) : Prop where
  identity : coordinator.localDeviceID = bonjourName
  nodup : (names coordinator.allDevices).Nodup
  local_mem : bonjourName ∈ names coordinator.allDevices
  ring : ∀ ring ∈ coordinator.currentRing, ring.WellFormed bonjourName

/-- Without a coordinator among the discovered devices the ring is left as it is. -/
theorem buildRing_of_not_discovered (h : ¬ self.CoordinatorDiscovered) : self.buildRing = self := by
  unfold buildRing
  cases hcoordinator : self.coordinatorID with
  | none => rfl
  | some coordinatorID =>
    cases hindex : self.allDevices.findIdx? (fun device => device.name = coordinatorID) with
    | none => simp only [hindex]
    | some coordIndex =>
      obtain ⟨hlt, hname, -⟩ := List.findIdx?_eq_some_iff_getElem.mp hindex
      refine absurd ⟨coordinatorID, hcoordinator, ?_⟩ h
      exact List.mem_map.mpr ⟨_, List.getElem_mem hlt, of_decide_eq_true hname⟩

/-- **A new ring** has the discovered devices in some order, ranked by their places. -/
theorem buildRing_of_discovered (h : self.CoordinatorDiscovered) :
    ∃ ring : Ring, self.buildRing = { self with currentRing := some ring } ∧
      (ring.devices.map RingDevice.device).Perm self.allDevices ∧
      ring.devices.map RingDevice.rank = List.range ring.devices.length := by
  obtain ⟨coordinatorID, hcoordinator, hmem⟩ := h
  obtain ⟨device, hdevice, hname⟩ := List.mem_map.mp hmem
  unfold buildRing
  simp only [Option.mem_def.mp hcoordinator]
  cases hindex : self.allDevices.findIdx? (fun device => device.name = coordinatorID) with
  | none =>
    have habsent := List.findIdx?_eq_none_iff.mp hindex device hdevice
    simp [hname] at habsent
  | some coordIndex =>
    refine ⟨_, rfl, ?_, ?_⟩
    · have hdevices : ∀ devices : List DiscoveredDevice,
          (devices.zipIdx.map (fun entry => RingDevice.mk entry.1 entry.2)).map RingDevice.device
            = devices := by
        intro devices
        rw [List.map_map]
        exact List.zipIdx_map_fst 0 devices
      rw [hdevices]
      exact List.perm_append_comm.trans (List.take_append_drop _ _ ▸ .refl _)
    · rw [List.map_map, List.length_map, List.length_zipIdx, List.range_eq_range']
      exact List.zipIdx_map_snd 0 _

/-- A method that touches neither the names nor the ring nor the local device keeps the
    invariant. -/
theorem WellFormed.of_frame (h : self.WellFormed bonjourName)
    (hnames : names self'.allDevices = names self.allDevices)
    (hring : self'.currentRing = self.currentRing) (hlocal : self'.localDevice = self.localDevice) :
    self'.WellFormed bonjourName :=
  ⟨(congrArg DiscoveredDevice.name hlocal).trans h.identity, hnames ▸ h.nodup,
    hnames ▸ h.local_mem, fun ring hmem => h.ring ring (hring ▸ hmem)⟩

/-- Devices in another order have the same names in another order. -/
theorem perm_names_of_perm {ringDevices : List RingDevice} {devices : List DiscoveredDevice}
    (h : (ringDevices.map RingDevice.device).Perm devices) :
    (ringDevices.map RingDevice.id).Perm (names devices) := by
  have hmap := h.map DiscoveredDevice.name
  rwa [List.map_map] at hmap

/-- A ring that is built anew has this device at the rank the rotation gives it. -/
theorem WellFormed.buildRing (h : self.WellFormed bonjourName) :
    self.buildRing.WellFormed bonjourName := by
  by_cases hdiscovered : self.CoordinatorDiscovered
  · obtain ⟨ring, heq, hperm, hranked⟩ := buildRing_of_discovered hdiscovered
    have hids := perm_names_of_perm hperm
    rw [heq]
    refine ⟨h.identity, h.nodup, h.local_mem, ?_⟩
    rintro _ ⟨⟩
    exact ⟨hids.nodup_iff.mpr h.nodup, hranked, hids.mem_iff.mpr h.local_mem⟩
  · rwa [buildRing_of_not_discovered hdiscovered]

/-! ### Every method keeps the coordinator well formed -/

/-- A new coordinator is well formed: it has discovered itself, and has no ring. -/
theorem WellFormed.init (bonjourName : String) (currentProfile : HardwareProfile) :
    (init bonjourName currentProfile).WellFormed bonjourName :=
  ⟨rfl, List.nodup_singleton _, List.mem_singleton_self _, by rintro _ ⟨⟩⟩

/-- A report of discovery keeps the invariant, because the client never lists this device's own
    name. -/
theorem WellFormed.updatePeers (h : self.WellFormed bonjourName)
    (client : BonjourClient bonjourName) :
    (self.updatePeers client.nodes).WellFormed bonjourName := by
  unfold RingCoordinator.updatePeers
  dsimp only
  split
  · exact h
  generalize hdevices : sortedByID _ = allDevices
  have hperm : (names allDevices).Perm (client.nodes.map Node.name ++ [bonjourName]) := by
    have hsorted := (List.perm_insertionSort (fun a b : DiscoveredDevice => a.name ≤ b.name)
      (client.nodes.map (fun node => DiscoveredDevice.mk node.name node.host none)
        ++ [self.localDevice])).map DiscoveredDevice.name
    rw [← sortedByID, hdevices, List.map_append, List.map_map] at hsorted
    exact h.identity ▸ hsorted
  have hkept : ({ self with
      peers := client.nodes.map (fun node => DiscoveredDevice.mk node.name node.host none)
      allDevices := allDevices
      myIndex := (allDevices.findIdx? (fun device => device.name = self.localDeviceID)).getD 0 } :
      RingCoordinator).WellFormed bonjourName := by
    have hlast := List.mem_append_right (client.nodes.map Node.name)
      (List.mem_singleton_self bonjourName)
    refine ⟨h.identity, hperm.nodup_iff.mpr ?_, hperm.mem_iff.mpr hlast, h.ring⟩
    rw [List.nodup_append]
    refine ⟨client.nodup, List.nodup_singleton _, ?_⟩
    rintro name hname _ hlocal rfl
    obtain ⟨node, hnode, heq⟩ := List.mem_map.mp hname
    exact client.others node hnode (heq.trans (List.mem_singleton.mp hlocal))
  split
  · exact hkept.of_frame rfl rfl rfl
  · exact hkept

/-- Posting a message to the successor only adds a task, so the invariant is kept. -/
theorem WellFormed.sendToSuccessor (h : self.WellFormed bonjourName) (message : ElectionMessage) :
    (self.sendToSuccessor message).WellFormed bonjourName := h.of_frame rfl rfl rfl

/-- An attempt to send, or to send again, only touches the tasks. -/
theorem WellFormed.sendAttempt (h : self.WellFormed bonjourName) {i : ℕ}
    (hsome : self.sendAttempt i = some self') : self'.WellFormed bonjourName := by
  unfold RingCoordinator.sendAttempt at hsome
  split at hsome
  · cases hsome
  split at hsome
  · exact Option.some.inj hsome ▸ h.of_frame rfl rfl rfl
  split at hsome <;> exact Option.some.inj hsome ▸ h.of_frame rfl rfl rfl

/-- A candidacy changes the part in the election and posts a message; devices and ring stay. -/
theorem WellFormed.initiateElection (h : self.WellFormed bonjourName) :
    self.initiateElection.WellFormed bonjourName :=
  h.of_frame rfl rfl rfl

/-- Without a ring there is no rank that could be wrong. -/
theorem WellFormed.stopFormation (h : self.WellFormed bonjourName) :
    self.stopFormation.WellFormed bonjourName :=
  ⟨h.identity, h.nodup, h.local_mem, by rintro _ ⟨⟩⟩

/-- Learning a profile changes no name, so the order of the devices stays. -/
theorem names_learnProfile (self : RingCoordinator) (index : ℕ) (profile : HardwareProfile) :
    names (self.learnProfile index profile).allDevices = names self.allDevices := by
  unfold names learnProfile
  apply List.ext_getElem?
  intro i
  rw [List.getElem?_map, List.getElem?_map, List.getElem?_modify]
  cases self.allDevices[i]? with
  | none => rfl
  | some device =>
    simp only [Option.map_some, Functor.map, Option.some.injEq]
    split <;> rfl

/-- A profile that was learnt changes no name, so the devices of the ring are the same. -/
theorem WellFormed.learnProfile (h : self.WellFormed bonjourName) (index : ℕ)
    (profile : HardwareProfile) :
    (self.learnProfile index profile).WellFormed bonjourName :=
  h.of_frame (names_learnProfile self index profile) rfl rfl

/-- A candidate's profile is filed under its name, if that was discovered; the names stay. -/
theorem WellFormed.learnCandidate (h : self.WellFormed bonjourName) (message : ElectionMessage) :
    (self.learnCandidate message).WellFormed bonjourName := by
  unfold RingCoordinator.learnCandidate
  split
  · split
    · exact h
    · split
      · split
        · exact h.learnProfile ..
        · exact h
      · exact h
  · exact h

/-- To acknowledge a coordinator is to remember its name; the ring is built in another step. -/
theorem WellFormed.acknowledge (h : self.WellFormed bonjourName) (candidateID : String) :
    (self.acknowledge candidateID).WellFormed bonjourName := h.of_frame rfl rfl rfl

/-- The winner remembers itself and goes on to the announcement; the ring is built in another
    step. -/
theorem WellFormed.becomeCoordinator (h : self.WellFormed bonjourName) :
    self.becomeCoordinator.WellFormed bonjourName := h.of_frame rfl rfl rfl

/-- The task that initialises the group is started, and nothing else changes. -/
theorem WellFormed.startInitTask (h : self.WellFormed bonjourName) :
    self.startInitTask.WellFormed bonjourName := h.of_frame rfl rfl rfl

/-- Whatever message arrives and whatever it makes this device do, the invariant is kept. -/
theorem WellFormed.processElectionMessage (h : self.WellFormed bonjourName)
    (message : ElectionMessage) :
    (self.processElectionMessage message).WellFormed bonjourName := by
  have hlearned := h.learnCandidate message
  unfold RingCoordinator.processElectionMessage
  -- from here on it does not matter how the profile has been learned
  generalize self.learnCandidate message = learned at hlearned
  dsimp only
  cases message.type with
  | election =>
    dsimp only
    split
    · exact hlearned.of_frame rfl rfl rfl
    split
    · split
      · exact hlearned.initiateElection
      · exact hlearned
    · exact hlearned.becomeCoordinator
  | coordinator =>
    have hbuilt := (hlearned.acknowledge message.candidateID).buildRing
    dsimp only
    split
    · exact (hbuilt.sendToSuccessor message).startInitTask
    · exact hbuilt.startInitTask

/-- A round of profile requests ends, and what it learnt is filed under names that were known
    before. -/
theorem WellFormed.requestMissingProfiles (h : self.WellFormed bonjourName) {i : ℕ}
    {response : Option HardwareProfile}
    (hsome : self.requestMissingProfiles i response = some self') :
    self'.WellFormed bonjourName := by
  unfold RingCoordinator.requestMissingProfiles at hsome
  dsimp only at hsome
  split at hsome
  · cases hsome
  · exact Option.some.inj hsome ▸ h.of_frame rfl rfl rfl
  · split at hsome
    · split at hsome
      · cases hsome
      · split at hsome <;> exact Option.some.inj hsome ▸ h.of_frame rfl rfl rfl
    · next requests _ _ _ _ _ =>
      have hframe : ({ self with profileRequests := self.profileRequests.eraseIdx i } :
          RingCoordinator).WellFormed bonjourName := h.of_frame rfl rfl rfl
      split at hsome
      · exact Option.some.inj hsome ▸ hframe.buildRing
      · exact Option.some.inj hsome ▸ hframe
  · split at hsome
    · exact Option.some.inj hsome ▸ h.of_frame rfl rfl rfl
    · split at hsome
      · exact Option.some.inj hsome ▸ (h.learnProfile _ _).of_frame rfl rfl rfl
      · cases hsome

/-! ### The rank of this device -/

/-- A device of a ring stands at its rank. -/
theorem Ring.WellFormed.getElem?_rank {ring : Ring} {localDeviceID : DeviceID}
    (h : ring.WellFormed localDeviceID) {device : RingDevice} {i : ℕ}
    (hdevice : ring.devices[i]? = some device) : device.rank = i := by
  have hrank : (ring.devices.map RingDevice.rank)[i]? = some device.rank := by
    rw [List.getElem?_map, hdevice]
    rfl
  have hlt := (List.getElem?_eq_some_iff.mp hdevice).1
  rw [h.ranked, List.getElem?_range hlt] at hrank
  exact (Option.some.inj hrank).symm

/-- **`myRank` is the place of this device** among the ring devices, and of no other. -/
theorem WellFormed.getElem?_ringDevices (h : self.WellFormed bonjourName) {device : RingDevice}
    {i : ℕ}
    (hdevice : self.ringDevices[i]? = some device) :
    device.id = bonjourName ↔ i = self.myRank := by
  unfold ringDevices at hdevice
  unfold myRank
  rw [h.identity]
  cases hring : self.currentRing with
  | none =>
    simp only [hring] at hdevice ⊢
    obtain ⟨rfl, rfl⟩ : i = 0 ∧ device = ⟨self.localDevice, 0⟩ := by
      cases i with
      | zero => exact ⟨rfl, (Option.some.inj hdevice).symm⟩
      | succ i => simp at hdevice
    exact iff_of_true h.identity rfl
  | some ring =>
    simp only [hring] at hdevice ⊢
    have hwell := h.ring ring hring
    obtain ⟨found, hfound, hid⟩ := List.mem_map.mp hwell.local_mem
    cases hfind : ring.devices.find? (fun device => device.id = bonjourName) with
    | none => exact absurd (decide_eq_true hid) (List.find?_eq_none.mp hfind found hfound)
    | some first =>
      have hfirst : first.id = bonjourName := by
        have htrue := List.find?_some hfind
        exact of_decide_eq_true htrue
      obtain ⟨j, hj⟩ := List.getElem?_of_mem (List.mem_of_find?_eq_some hfind)
      have hrank := hwell.getElem?_rank hj
      dsimp only
      rw [hrank]
      constructor
      · intro hlocal
        -- both have this device's name, and the names are distinct
        have hsame : (ring.devices.map RingDevice.id)[i]?
            = (ring.devices.map RingDevice.id)[j]? := by
          rw [List.getElem?_map, List.getElem?_map, hdevice, hj, Option.map_some, Option.map_some,
            hlocal, hfirst]
        have hlt : i < (ring.devices.map RingDevice.id).length := by
          rw [List.length_map]
          exact (List.getElem?_eq_some_iff.mp hdevice).1
        exact (List.getElem?_inj hlt hwell.nodup).mp hsame
      · rintro rfl
        rw [hj] at hdevice
        rw [← Option.some.inj hdevice, hfirst]

/-- This device is among the ring devices. -/
theorem WellFormed.exists_local (h : self.WellFormed bonjourName) :
    ∃ device ∈ self.ringDevices, device.id = bonjourName := by
  unfold ringDevices
  cases hring : self.currentRing with
  | none => exact ⟨_, List.mem_singleton_self _, h.identity⟩
  | some ring =>
    obtain ⟨device, hmem, hid⟩ := List.mem_map.mp (h.ring ring hring).local_mem
    exact ⟨device, hmem, hid⟩

end RingCoordinator

end ShareCompute.App
