import ShareCompute.App.RingCoordinator
import ShareCompute.Library.RingElection
import ShareCompute.Library.Runs
import Mathlib.Data.String.Basic

namespace ShareCompute.App

open ShareCompute.Library RingElection List

/-!
# Elections over the network

The coordinators of all devices of a network, and the election messages between them
(`RingCoordinator.swift`, with `DataClient.elect` and the `/elect` route of `DataServer.swift`).
Each device discovers all others; when it does, and what happens in which order, is open.  A
message that has been posted may arrive at any time, several times, or never.

* `Network.step` — a device runs one of its methods, or one of the messages for it arrives.
* `Sound` — what is true of each device: its coordinator, if it has one, is stronger than every
  other member, its ring is the members rotated to that coordinator, and every candidacy that it
  is about to hand on has passed weaker members only.
* `Sound.processElectionMessage` — a message that is `Delivered` keeps that.
* `election_agrees` — no two devices ever have different coordinators, or different rings, or the
  same rank.
-/

/-- The devices of a network, in the order in which each of them sorts them. -/
structure Fleet where
  members : List DeviceID
  sorted : members.SortedLT
  /-- `hardwareMonitor.currentProfile` of each -/
  profile : DeviceID → HardwareProfile

namespace Fleet

/-- The members are sorted strictly, so no name occurs twice. -/
theorem nodup (fleet : Fleet) : fleet.members.Nodup := fleet.sorted.nodup

/-- `d` loses an election against `e`: the comparison of their profiles says so. -/
def Weaker (fleet : Fleet) (d e : DeviceID) : Prop :=
  (fleet.profile d).lt (fleet.profile e) = true

/-- No device is weaker than itself, since the comparison of profiles is strict. -/
theorem not_weaker_self (fleet : Fleet) (d : DeviceID) : ¬ fleet.Weaker d d := by
  simp [Weaker, HardwareProfile.lt]

/-- Two devices are never weaker than each other, so an election has a direction. -/
theorem weaker_asymm (fleet : Fleet) (d e : DeviceID) (h : fleet.Weaker d e) :
    ¬ fleet.Weaker e d := by
  simp only [Weaker, HardwareProfile.lt, decide_eq_true_eq] at h ⊢
  omega

end Fleet

/-- The coordinators of all devices, and the messages that have ever been posted; a message stays,
    so that it may arrive again. -/
structure Network where
  coordinators : DeviceID → RingCoordinator
  /-- what has been posted to `/elect`, with the device it is for -/
  posted : List (DeviceID × ElectionMessage)

/-- What can happen at one device: one of its methods runs to its next await, or a message
    arrives. -/
inductive NetworkEvent
  | updatePeers (nodes : List Node)
  | startFormation
  | stopFormation
  | sendAttempt (i : ℕ)
  | processElectionMessage (message : ElectionMessage)
  | requestMissingProfiles (i : ℕ) (response : Option HardwareProfile)
  | reformRing

namespace RingCoordinator

/-- The names of a ring's members in the order in which they sit. -/
def Ring.ids (ring : Ring) : List DeviceID := ring.devices.map RingDevice.id

/-- The ranks that a ring gives its members, in the same order. -/
def Ring.ranks (ring : Ring) : List ℕ := ring.devices.map RingDevice.rank

/-- What the attempt of the task at `i` posts. -/
def posting (self : RingCoordinator) (i : ℕ) : Option (DeviceID × ElectionMessage) :=
  match self.sendings[i]?, self.getSuccessor with
  | some sending, some successor => some (successor.name, sending.message)
  | _, _ => none

end RingCoordinator

namespace Network

/-- The network before discovery: each coordinator is new and nothing has been posted. -/
def init (fleet : Fleet) : Network :=
  { coordinators := fun d => RingCoordinator.init d (fleet.profile d)
    posted := [] }

/-- The coordinator of `d` moves on, and those of the other devices stay. -/
def put (net : Network) (d : DeviceID) (self : RingCoordinator) : Network :=
  { net with coordinators := Function.update net.coordinators d self }

/-- Messages are posted, each with the device that it is addressed to. -/
def post (net : Network) (packets : List (DeviceID × ElectionMessage)) : Network :=
  { net with posted := net.posted ++ packets }

/-- `d` does something.  Discovery reports all other devices, in any order and at any address. -/
def step (fleet : Fleet) (net : Network) (d : DeviceID) (event : NetworkEvent) : Option Network :=
  let self := net.coordinators d
  if d ∈ fleet.members then
    match event with
    | .updatePeers nodes =>
        if (nodes.map Node.name).Perm (fleet.members.erase d) then
          some (net.put d (self.updatePeers nodes))
        else none
    | .startFormation => some (net.put d self.startFormation)
    | .stopFormation => some (net.put d self.stopFormation)
    | .sendAttempt i =>
        (self.sendAttempt i).map (fun self' => (net.put d self').post (self.posting i).toList)
    | .processElectionMessage message =>
        if (d, message) ∈ net.posted then some (net.put d (self.processElectionMessage message))
        else none
    | .requestMissingProfiles i response =>
        (self.requestMissingProfiles i response).map (net.put d)
    | .reformRing => some (net.put d self.reformRing.1)
  else none

/-- The events of a run, with the devices they happen at. -/
abbrev Run (fleet : Fleet) (net : Network) (events : List (DeviceID × NetworkEvent))
    (net' : Network) : Prop :=
  Trace (fun net event net' => net.step fleet event.1 event.2 = some net') net events net'

/-- A device that was replaced is found as it was put. -/
@[simp] theorem put_self (net : Network) (d : DeviceID) (self : RingCoordinator) :
    (net.put d self).coordinators d = self := Function.update_self ..

/-- Replacing one device leaves the others as they were. -/
theorem put_of_ne (net : Network) {d e : DeviceID} (self : RingCoordinator) (h : e ≠ d) :
    (net.put d self).coordinators e = net.coordinators e := Function.update_of_ne h ..

/-- What was posted is not touched when a device is replaced. -/
@[simp] theorem put_posted (net : Network) (d : DeviceID) (self : RingCoordinator) :
    (net.put d self).posted = net.posted := rfl

/-- Posting does not touch the coordinators: a packet is received in a step of its own. -/
@[simp] theorem post_coordinators (net : Network) (packets : List (DeviceID × ElectionMessage)) :
    (net.post packets).coordinators = net.coordinators := rfl

end Network

/-! ### What is true of each device -/

open RingCoordinator (Ring Sending names)

section

variable (fleet : Fleet) (known : DeviceID → Prop)

/-- `c` is stronger than every other device, and knows them all. -/
structure Elected (c : DeviceID) : Prop where
  strongest : Strongest fleet.members fleet.Weaker c
  known : known c

/-- What `d` may hand on: a candidate that the election holds at `d`, or the name of the elected
    one. -/
def Carried (d : DeviceID) (message : ElectionMessage) : Prop :=
  match message.type with
  | .election =>
      message.hardwareProfile = fleet.profile message.candidateID ∧
      Held fleet.members fleet.Weaker message.candidateID d ∧
      (message.candidateID = d ∨ known message.candidateID)
  | .coordinator => Elected fleet known message.candidateID

/-- What may arrive at `d`: a candidate that has come as far as `d`, or the name of the elected
    one. -/
def Delivered (d : DeviceID) (message : ElectionMessage) : Prop :=
  match message.type with
  | .election =>
      message.hardwareProfile = fleet.profile message.candidateID ∧
      Arrived fleet.members fleet.Weaker message.candidateID d ∧ known message.candidateID
  | .coordinator => Elected fleet known message.candidateID

/-- The members from the coordinator on, ranked by their places. -/
structure RingOf (ring : Ring) : Prop where
  rotated : fleet.members ~r ring.ids
  first : ring.ids.head? = some ring.coordinator
  ranked : ring.ranks = List.range ring.devices.length

/-- The device `d` in its network: it knows itself alone, or all members in their order. -/
structure Placed (d : DeviceID) (node : RingCoordinator) : Prop where
  identity : node.localDeviceID = d
  profile : node.currentProfile = fleet.profile d
  peers : (names node.allDevices).Perm (names node.peers ++ [d])
  devices : names node.allDevices = [d] ∨ names node.allDevices = fleet.members
  index : (names node.allDevices)[node.myIndex]? = some d
  known_iff : known d ↔ names node.allDevices = fleet.members

/-- **The device `d` and its elections.**  Whom it takes for the coordinator is the strongest
    device, its ring is that of the members, and its messages may be handed on. -/
structure Sound (d : DeviceID) (node : RingCoordinator) : Prop extends
    Placed fleet known d node where
  coordinator : ∀ c ∈ node.coordinatorID, Elected fleet known c
  state : node.state = .coordinator → Elected fleet known d
  ring : ∀ ring ∈ node.currentRing, RingOf fleet ring ∧ Elected fleet known ring.coordinator
  sendings : ∀ sending ∈ node.sendings, Carried fleet known d sending.message

end

section

variable {fleet : Fleet} {known known' : DeviceID → Prop} {self self' : RingCoordinator}
  {c d : DeviceID} {message : ElectionMessage}

/-- An elected coordinator stays elected when more devices are known. -/
theorem Elected.mono (hle : ∀ c, known c → known' c) (h : Elected fleet known c) :
    Elected fleet known' c :=
  ⟨h.strongest, hle c h.known⟩

/-- A candidacy that passed only weaker members still did so when more devices are known. -/
theorem Carried.mono (hle : ∀ c, known c → known' c) (h : Carried fleet known d message) :
    Carried fleet known' d message := by
  unfold Carried at h ⊢
  split at h
  · obtain ⟨hprofile, hheld, hknown⟩ := h
    exact ⟨hprofile, hheld, hknown.imp_right (hle _)⟩
  · exact h.mono hle

/-- What may arrive at a device may still arrive when more devices are known. -/
theorem Delivered.mono (hle : ∀ c, known c → known' c) (h : Delivered fleet known d message) :
    Delivered fleet known' d message := by
  unfold Delivered at h ⊢
  split at h
  · obtain ⟨hprofile, harrived, hknown⟩ := h
    exact ⟨hprofile, harrived, hle _ hknown⟩
  · exact h.mono hle

/-- Other devices may get to know more. -/
theorem Sound.mono (hle : ∀ c, known c → known' c) (hd : known' d → known d)
    (h : Sound fleet known d self) : Sound fleet known' d self :=
  { h with
    known_iff := ⟨fun hknown => h.known_iff.mp (hd hknown),
      fun hall => hle d (h.known_iff.mpr hall)⟩
    coordinator := fun c hc => (h.coordinator c hc).mono hle
    state := fun hstate => (h.state hstate).mono hle
    ring := fun ring hring => ⟨(h.ring ring hring).1, (h.ring ring hring).2.mono hle⟩
    sendings := fun sending hsending => (h.sendings sending hsending).mono hle }

/-- The successor is the next member, and whoever has one knows all members. -/
theorem Placed.successor (h : Placed fleet known d self) {successor : DiscoveredDevice}
    (hsome : self.getSuccessor = some successor) :
    known d ∧ Follows fleet.members d successor.name := by
  unfold RingCoordinator.getSuccessor at hsome
  split at hsome
  · cases hsome
  next next hnext =>
    split at hsome
    · cases hsome
    next hne =>
      obtain rfl := Option.some.inj hsome
      rw [h.identity] at hne
      have hname : (names self.allDevices)[(self.myIndex + 1) % (names self.allDevices).length]?
          = some next.name := by
        rw [names, length_map, getElem?_map, hnext]
        rfl
      have hindex := h.index
      rcases h.devices with halone | hall
      · -- a ring of one
        rw [halone, length_singleton, Nat.mod_one] at hname
        exact absurd (Option.some.inj hname).symm hne
      · rw [hall] at hname hindex
        exact ⟨h.known_iff.mpr hall, .of_getElem? hindex hname⟩

/-- What `d` hands on may arrive at its successor. -/
theorem Sound.delivered (h : Sound fleet known d self) {i : ℕ}
    {packet : DeviceID × ElectionMessage} (hpacket : packet ∈ self.posting i) :
    Delivered fleet known packet.1 packet.2 := by
  unfold RingCoordinator.posting at hpacket
  split at hpacket
  next sending successor hsending hsuccessor =>
    obtain rfl := Option.some.inj hpacket
    obtain ⟨hknown, hfollows⟩ := h.successor hsuccessor
    have hcarried := h.sendings sending (List.mem_of_getElem? hsending)
    unfold Carried at hcarried
    unfold Delivered
    cases htype : sending.message.type with
    | election =>
      simp only [htype] at hcarried ⊢
      obtain ⟨hprofile, hheld, hcandidate⟩ := hcarried
      refine ⟨hprofile, hheld.follows fleet.nodup hfollows, ?_⟩
      exact hcandidate.elim (fun heq => heq ▸ hknown) id
    | coordinator =>
      simp only [htype] at hcarried ⊢
      exact hcarried
  · cases hpacket

/-! ### The ring -/

/-- A ring that is built is the sorted members rotated to the coordinator, with this device at its
    place. -/
theorem buildRing_rotated (hc : self.coordinatorID = some c)
    (hmem : c ∈ names self.allDevices) :
    ∃ ring : Ring, self.buildRing = { self with currentRing := some ring } ∧
      ring.coordinator = c ∧ names self.allDevices ~r ring.ids ∧
      ring.ids.head? = some c ∧
      ring.ranks = List.range ring.devices.length := by
  obtain ⟨device, hdevice, hname⟩ := List.mem_map.mp hmem
  unfold RingCoordinator.buildRing
  simp only [hc]
  cases hindex : self.allDevices.findIdx? (fun device => device.name = c) with
  | none =>
    -- the coordinator is one of the devices
    have habsent := List.findIdx?_eq_none_iff.mp hindex device hdevice
    simp [hname] at habsent
  | some k =>
    obtain ⟨hlt, hk, -⟩ := List.findIdx?_eq_some_iff_getElem.mp hindex
    refine ⟨_, rfl, rfl, ?_⟩
    have hids : ∀ devices : List DiscoveredDevice, ((devices.zipIdx.map
        (fun entry => RingCoordinator.RingDevice.mk entry.1 entry.2)).map
          RingCoordinator.RingDevice.device) = devices := by
      intro devices
      rw [List.map_map]
      exact List.zipIdx_map_fst 0 devices
    -- the ring is the list of devices, turned until the coordinator is in front
    have hrotate : self.allDevices.drop k ++ self.allDevices.take k = self.allDevices.rotate k :=
      (List.rotate_eq_drop_append_take (by omega)).symm
    have hnames : Ring.ids ⟨(self.allDevices.drop k ++ self.allDevices.take k).zipIdx.map
        (fun entry => ⟨entry.1, entry.2⟩), c⟩ = (names self.allDevices).rotate k := by
      rw [names, ← List.map_rotate, ← hrotate]
      conv_rhs => rw [← hids (_ ++ _), List.map_map]
      rfl
    refine ⟨hnames ▸ ⟨k, rfl⟩, ?_, ?_⟩
    · rw [hnames, names, ← List.map_rotate, List.head?_map, List.head?_rotate hlt,
        List.getElem?_eq_getElem hlt]
      exact congrArg some (of_decide_eq_true hk)
    · rw [Ring.ranks, List.map_map, List.length_map, List.length_zipIdx, List.range_eq_range']
      exact List.zipIdx_map_snd 0 _

/-- Building the ring anew keeps what is true of a device, whether or not the coordinator was
    discovered. -/
theorem Sound.buildRing (h : Sound fleet known d self) :
    Sound fleet known d self.buildRing := by
  by_cases hdiscovered : self.CoordinatorDiscovered
  · obtain ⟨c, hc, hmem⟩ := hdiscovered
    have helected := h.coordinator c hc
    obtain ⟨ring, heq, hcoordinator, hrotated, hfirst, hranked⟩ := buildRing_rotated hc hmem
    have hall : names self.allDevices = fleet.members := by
      rcases h.devices with halone | hall
      · rw [halone, List.mem_singleton] at hmem
        exact h.known_iff.mp (hmem ▸ helected.known)
      · exact hall
    rw [heq]
    refine { h with ring := ?_ }
    rintro _ ⟨⟩
    exact ⟨⟨hall ▸ hrotated, hcoordinator ▸ hfirst, hranked⟩, hcoordinator ▸ helected⟩
  · rwa [RingCoordinator.buildRing_of_not_discovered hdiscovered]

/-! ### Every method keeps a device sound -/

/-- What is true of every device is true of a new one: it knows no coordinator and hands nothing
    on. -/
theorem Sound.init (hknown : known d ↔ [d] = fleet.members) :
    Sound fleet known d (RingCoordinator.init d (fleet.profile d)) where
  identity := rfl
  profile := rfl
  peers := .refl _
  devices := .inl rfl
  index := rfl
  known_iff := hknown
  coordinator := by rintro _ ⟨⟩
  state := by rintro ⟨⟩
  ring := by rintro _ ⟨⟩
  sendings := by simp [RingCoordinator.init]

/-- To post a message that was carried correctly keeps what is true of the device. -/
theorem Sound.sendToSuccessor (h : Sound fleet known d self)
    (hcarried : Carried fleet known d message) :
    Sound fleet known d (self.sendToSuccessor message) :=
  { h with
    sendings := by
      intro sending hsending
      rcases List.mem_append.mp hsending with hold | hnew
      · exact h.sendings sending hold
      · rwa [List.mem_singleton.mp hnew] }

/-- A device that is not the coordinator. -/
theorem Sound.with_state (h : Sound fleet known d self) (state : CoordinatorState)
    (hstate : state ≠ .coordinator) : Sound fleet known d { self with state := state } :=
  { h with state := fun heq => absurd heq hstate }

/-- A device that proposes itself has passed nobody, so its candidacy is a correct one. -/
theorem Sound.initiateElection (h : Sound fleet known d self) (hd : d ∈ fleet.members) :
    Sound fleet known d self.initiateElection := by
  refine (h.with_state .candidate (by decide)).sendToSuccessor ?_
  show _ ∧ _ ∧ _
  rw [h.identity, h.profile]
  exact ⟨rfl, .start hd, .inl rfl⟩

/-- Giving up a formation forgets the coordinator and the ring together. -/
theorem Sound.stopFormation (h : Sound fleet known d self) :
    Sound fleet known d self.stopFormation :=
  { h.with_state .inactive (by decide) with ring := by rintro _ ⟨⟩ }

/-- An attempt to send hands on a message that the device had accepted before. -/
theorem Sound.sendAttempt (h : Sound fleet known d self) {i : ℕ}
    (hsome : self.sendAttempt i = some self') : Sound fleet known d self' := by
  have herase : ∀ sending ∈ self.sendings.eraseIdx i, Carried fleet known d sending.message :=
    fun sending hmem => h.sendings sending (List.mem_of_mem_eraseIdx hmem)
  unfold RingCoordinator.sendAttempt at hsome
  split at hsome
  · cases hsome
  next sending hsending =>
    split at hsome
    · obtain rfl := Option.some.inj hsome
      exact { h with sendings := herase }
    split at hsome
    · obtain rfl := Option.some.inj hsome
      refine { h with sendings := fun other hother => ?_ }
      -- the task still has its message
      rcases List.mem_or_eq_of_mem_set hother with hold | rfl
      · exact h.sendings other hold
      · exact h.sendings sending (List.mem_of_getElem? hsending)
    · obtain rfl := Option.some.inj hsome
      exact { h.with_state .inactive (by decide) with sendings := herase }

/-- Profiles that are learnt do not change the names, the coordinator or the tasks. -/
theorem Sound.learnProfile (h : Sound fleet known d self) (index : ℕ)
    (profile : HardwareProfile) :
    Sound fleet known d (self.learnProfile index profile) := by
  have hnames := RingCoordinator.names_learnProfile self index profile
  refine { h with peers := ?_, devices := ?_, index := ?_, known_iff := ?_ }
  · rw [hnames]
    exact h.peers
  · rw [hnames]
    exact h.devices
  · rw [hnames]
    exact h.index
  · rw [hnames]
    exact h.known_iff

/-- The candidate's profile is filed; what is about to be handed on stays. -/
theorem Sound.learnCandidate (h : Sound fleet known d self) (message : ElectionMessage) :
    Sound fleet known d (self.learnCandidate message) := by
  unfold RingCoordinator.learnCandidate
  split
  · split
    · exact h
    · split
      · split
        · exact h.learnProfile ..
        · exact h
      · exact h
  · exact h

/-- To acknowledge an elected coordinator is to agree with the other devices. -/
theorem Sound.acknowledge (h : Sound fleet known d self) (hc : Elected fleet known c) :
    Sound fleet known d (self.acknowledge c) := by
  refine { h with coordinator := ?_, state := ?_ }
  · rintro _ ⟨⟩
    exact hc
  · intro hstate
    by_cases hlocal : c = self.localDeviceID
    · rw [h.identity] at hlocal
      exact hlocal ▸ hc
    · simp [RingCoordinator.acknowledge, if_neg hlocal] at hstate

/-- A device whose own candidacy came round has passed all members, so it is the strongest. -/
theorem Sound.becomeCoordinator (h : Sound fleet known d self) (hd : Elected fleet known d) :
    Sound fleet known d self.becomeCoordinator := by
  have hlocal : Elected fleet known self.localDeviceID := h.identity ▸ hd
  have hself : Sound fleet known d { self with
      coordinatorID := some self.localDeviceID, state := .coordinator } := by
    refine { h with coordinator := ?_, state := fun _ => hd }
    rintro _ ⟨⟩
    exact hlocal
  exact hself.sendToSuccessor hlocal

/-- The initialisation of the group is outside the election. -/
theorem Sound.startInitTask (h : Sound fleet known d self) :
    Sound fleet known d self.startInitTask := { h with }

/-- A round of profile requests that ends keeps names, coordinator and candidacies. -/
theorem Sound.requestMissingProfiles (h : Sound fleet known d self) {i : ℕ}
    {response : Option HardwareProfile}
    (hsome : self.requestMissingProfiles i response = some self') :
    Sound fleet known d self' := by
  -- where the task stands matters to nobody else
  have hmoved : ∀ {node : RingCoordinator} (requests : List RingCoordinator.ProfileRequests),
      Sound fleet known d node → Sound fleet known d { node with profileRequests := requests } :=
    fun requests hnode => { hnode with }
  unfold RingCoordinator.requestMissingProfiles at hsome
  dsimp only at hsome
  split at hsome
  · cases hsome
  · exact Option.some.inj hsome ▸ hmoved _ h
  · split at hsome
    · split at hsome
      · cases hsome
      · split at hsome <;> exact Option.some.inj hsome ▸ hmoved _ h
    · split at hsome
      · exact Option.some.inj hsome ▸ (hmoved _ h).buildRing
      · exact Option.some.inj hsome ▸ hmoved _ h
  · split at hsome
    · exact Option.some.inj hsome ▸ hmoved _ h
    · split at hsome
      · exact Option.some.inj hsome ▸ hmoved _ (h.learnProfile _ _)
      · cases hsome

/-- **An election message.**  A candidacy is handed on by weaker devices only; one that comes home
    has been handed on by all others. -/
theorem Sound.processElectionMessage (h : Sound fleet known d self) (hd : d ∈ fleet.members)
    (hmessage : Delivered fleet known d message) :
    Sound fleet known d (self.processElectionMessage message) := by
  have hlearned := h.learnCandidate message
  unfold RingCoordinator.processElectionMessage
  generalize self.learnCandidate message = learned at hlearned
  unfold Delivered at hmessage
  dsimp only
  cases htype : message.type with
  | election =>
    simp only [htype] at hmessage ⊢
    obtain ⟨hprofile, harrived, hknown⟩ := hmessage
    split
    next hlt =>
      rw [hlearned.profile, hprofile] at hlt
      -- the candidate is stronger and goes on around the ring
      refine (hlearned.with_state .follower (by decide)).sendToSuccessor ?_
      unfold Carried
      simp only [htype]
      exact ⟨hprofile, harrived.hold (fleet.not_weaker_self _) hlt, .inr hknown⟩
    split
    · split
      · exact hlearned.initiateElection hd
      · exact hlearned
    next hlocal =>
      -- the own name has come back around
      rw [ne_eq, not_not, hlearned.identity] at hlocal
      rw [hlocal] at harrived hknown
      exact hlearned.becomeCoordinator ⟨harrived.strongest fleet.nodup, hknown⟩
  | coordinator =>
    simp only [htype] at hmessage ⊢
    have hbuilt := (hlearned.acknowledge hmessage).buildRing
    split
    · -- whoever is not the coordinator passes the announcement on
      refine (hbuilt.sendToSuccessor ?_).startInitTask
      unfold Carried
      simpa only [htype] using hmessage
    · exact hbuilt.startInitTask

/-! ### Discovery -/

/-- The names of all other members, with this one, are the members in their order. -/
theorem Fleet.sortedByID_names {devices : List DiscoveredDevice}
    (h : (names devices).Perm fleet.members) :
    names (RingCoordinator.sortedByID devices) = fleet.members := by
  have hsorted : (names (RingCoordinator.sortedByID devices)).Pairwise (· ≤ ·) := by
    rw [names, List.pairwise_map]
    have htotal : Std.Total (fun a b : DiscoveredDevice => a.name ≤ b.name) :=
      ⟨fun a b => le_total a.name b.name⟩
    have htrans : IsTrans DiscoveredDevice (fun a b => a.name ≤ b.name) :=
      ⟨fun _ _ _ => le_trans⟩
    exact List.pairwise_insertionSort _ devices
  have hperm : (names (RingCoordinator.sortedByID devices)).Perm fleet.members :=
    ((List.perm_insertionSort _ devices).map _).trans h
  exact hperm.eq_of_sortedLE hsorted.sortedLE fleet.sorted.sortedLE

/-- A report of all other members makes the device know all members. -/
theorem Sound.updatePeers (h : Sound fleet known d self) (known' : DeviceID → Prop)
    (hd : d ∈ fleet.members) {nodes : List Node}
    (hnodes : (nodes.map Node.name).Perm (fleet.members.erase d))
    (hle : ∀ c, known c → known' c) (hknown : known' d) :
    Sound fleet known' d (self.updatePeers nodes) ∧
      names (self.updatePeers nodes).allDevices = fleet.members := by
  have hreported : (nodes.map Node.name ++ [d]).Perm fleet.members := by
    refine (hnodes.append_right [d]).trans ?_
    exact (List.perm_append_singleton d _).trans (List.perm_cons_erase hd).symm
  unfold RingCoordinator.updatePeers
  dsimp only
  generalize hdiscovered : nodes.map (fun node => DiscoveredDevice.mk node.name node.host none)
    = currentDiscovered
  have hnames : names currentDiscovered = nodes.map Node.name := by
    rw [← hdiscovered, names, List.map_map]
    rfl
  split
  next heq =>
    -- nothing new: the device knows them already
    have hall : names self.allDevices = fleet.members := by
      have hperm := h.peers
      rw [heq, hnames] at hperm
      rcases h.devices with halone | hall
      · rw [halone] at hperm ⊢
        exact List.singleton_perm.mp (hperm.trans hreported) |>.symm ▸ rfl
      · exact hall
    exact ⟨h.mono hle fun _ => h.known_iff.mpr hall, hall⟩
  generalize hdevices : RingCoordinator.sortedByID _ = allDevices
  have hlocal : self.localDevice.name = d := h.identity
  have hperm : (names (currentDiscovered ++ [self.localDevice])).Perm fleet.members := by
    rw [names, List.map_append, ← names, hnames]
    show (nodes.map Node.name ++ [self.localDevice.name]).Perm _
    rwa [hlocal]
  have hall : names allDevices = fleet.members := hdevices ▸ fleet.sortedByID_names hperm
  have hindex : (names allDevices)[(allDevices.findIdx?
      (fun device => device.name = self.localDeviceID)).getD 0]? = some d := by
    rw [h.identity]
    cases hfind : allDevices.findIdx? (fun device => device.name = d) with
    | none =>
      obtain ⟨device, hdevice, hname⟩ := List.mem_map.mp (hall ▸ hd : d ∈ names allDevices)
      have habsent := List.findIdx?_eq_none_iff.mp hfind device hdevice
      simp [hname] at habsent
    | some k =>
      obtain ⟨hlt, hk, -⟩ := List.findIdx?_eq_some_iff_getElem.mp hfind
      rw [Option.getD_some, names, List.getElem?_map, List.getElem?_eq_getElem hlt]
      exact congrArg some (of_decide_eq_true hk)
  have hupdated : Sound fleet known' d { self with
      peers := currentDiscovered
      allDevices := allDevices
      myIndex := (allDevices.findIdx? (fun device => device.name = self.localDeviceID)).getD 0 } :=
    { identity := h.identity
      profile := h.profile
      peers := by
        show (names allDevices).Perm (names currentDiscovered ++ [d])
        rw [hall, hnames]
        exact hreported.symm
      devices := .inr hall
      index := hindex
      known_iff := ⟨fun _ => hall, fun _ => hknown⟩
      coordinator := fun c hc => (h.coordinator c hc).mono hle
      state := fun hstate => (h.state hstate).mono hle
      ring := fun ring hring => ⟨(h.ring ring hring).1, (h.ring ring hring).2.mono hle⟩
      sendings := fun sending hsending => (h.sendings sending hsending).mono hle }
  split
  · exact ⟨hupdated.initiateElection hd, hall⟩
  · exact ⟨hupdated, hall⟩

end

/-! ### The network -/

namespace Network

variable {fleet : Fleet} {net net' : Network} {events : List (DeviceID × NetworkEvent)}
  {d e : DeviceID} {self : RingCoordinator}

/-- `d` has discovered all members, so that its ring is that of the fleet. -/
def Knows (fleet : Fleet) (net : Network) (d : DeviceID) : Prop :=
  names (net.coordinators d).allDevices = fleet.members

/-- Every device is sound, and everything that was posted may be delivered where it is addressed
    to. -/
structure Sound (fleet : Fleet) (net : Network) : Prop where
  devices : ∀ d ∈ fleet.members, App.Sound fleet (net.Knows fleet) d (net.coordinators d)
  posted : ∀ packet ∈ net.posted, Delivered fleet (net.Knows fleet) packet.1 packet.2

/-- The network before discovery is sound: nothing is known and nothing was posted. -/
theorem Sound.init (fleet : Fleet) : (init fleet).Sound fleet where
  devices := fun _ _ => App.Sound.init Iff.rfl
  posted := by simp [Network.init]

/-- A device that stays sound, or gets to know the members, leaves the network sound. -/
theorem Sound.put (h : net.Sound fleet) (hle : net.Knows fleet d → (net.put d self).Knows fleet d)
    (hself : App.Sound fleet ((net.put d self).Knows fleet) d self) :
    (net.put d self).Sound fleet := by
  have hmono : ∀ c, net.Knows fleet c → (net.put d self).Knows fleet c := by
    intro c hc
    by_cases hcd : c = d
    · exact hcd ▸ hle (hcd ▸ hc)
    · rwa [Knows, put_of_ne _ _ hcd]
  refine ⟨?_, fun packet hpacket => (h.posted packet hpacket).mono hmono⟩
  intro e he
  by_cases hed : e = d
  · rw [hed, put_self]
    exact hself
  · rw [put_of_ne _ _ hed]
    refine (h.devices e he).mono hmono fun hknows => ?_
    rwa [Knows, put_of_ne _ _ hed] at hknows

/-- What is sound for what the network knows adds nothing to it. -/
theorem knows_put (hself : App.Sound fleet (net.Knows fleet) d self) (c : DeviceID) :
    (net.put d self).Knows fleet c ↔ net.Knows fleet c := by
  by_cases hcd : c = d
  · rw [hcd, hself.known_iff, Knows, put_self]
  · rw [Knows, Knows, put_of_ne _ _ hcd]

/-- A step of one device that tells nobody anything new keeps the others as they were. -/
theorem Sound.put_same (h : net.Sound fleet)
    (hself : App.Sound fleet (net.Knows fleet) d self) : (net.put d self).Sound fleet :=
  h.put (knows_put hself d).mpr
    (hself.mono (fun c => (knows_put hself c).mpr) (knows_put hself d).mp)

/-- **One event keeps the network sound**, at whichever device it happens. -/
theorem Sound.step {event : NetworkEvent} (h : net.Sound fleet)
    (hstep : net.step fleet d event = some net') : net'.Sound fleet := by
  unfold Network.step at hstep
  dsimp only at hstep
  split at hstep
  swap
  · cases hstep
  next hd =>
    have hself := h.devices d hd
    split at hstep
    next nodes =>
      split at hstep
      · next hnodes =>
        obtain rfl := Option.some.inj hstep
        -- a report names every other device, so `d` knows them all from here on
        have hall := (hself.updatePeers (fun _ => True) hd hnodes (fun _ _ => trivial) trivial).2
        have hknows : (net.put d ((net.coordinators d).updatePeers nodes)).Knows fleet d := by
          rwa [Knows, put_self]
        refine h.put (fun _ => hknows) (hself.updatePeers _ hd hnodes ?_ hknows).1
        intro c hc
        by_cases hcd : c = d
        · exact hcd ▸ hknows
        · rwa [Knows, put_of_ne _ _ hcd]
      · cases hstep
    · exact Option.some.inj hstep ▸ h.put_same (hself.initiateElection hd)
    · exact Option.some.inj hstep ▸ h.put_same hself.stopFormation
    · obtain ⟨self', hattempt, rfl⟩ := Option.map_eq_some_iff.mp hstep
      have hput := h.put_same (hself.sendAttempt hattempt)
      refine ⟨hput.devices, fun packet hpacket => ?_⟩
      rcases List.mem_append.mp hpacket with hold | hnew
      · exact hput.posted packet hold
      · -- what is posted now had been held by `d`
        have hdelivered := hself.delivered (Option.mem_toList.mp hnew)
        exact hdelivered.mono fun c => (knows_put (hself.sendAttempt hattempt) c).mpr
    next message =>
      split at hstep
      next hposted =>
        obtain rfl := Option.some.inj hstep
        exact h.put_same (hself.processElectionMessage hd (h.posted _ hposted))
      · cases hstep
    · obtain ⟨self', hrequest, rfl⟩ := Option.map_eq_some_iff.mp hstep
      exact h.put_same (hself.requestMissingProfiles hrequest)
    · exact Option.some.inj hstep ▸ h.put_same hself.buildRing

/-- Every state that a run reaches is sound, by induction over its events. -/
theorem Sound.of_run (h : Run fleet (Network.init fleet) events net) : net.Sound fleet :=
  h.invariant (I := fun _ net => net.Sound fleet) (.init fleet)
    fun _ _ _ _ _ hsound hstep => hsound.step hstep

end Network

/-! ### Agreement -/

section

variable {fleet : Fleet} {known known' : DeviceID → Prop} {self : RingCoordinator} {d : DeviceID}

/-- A sound device is well formed, so the results on a single coordinator apply to it. -/
theorem Sound.wellFormed (h : Sound fleet known d self) (hd : d ∈ fleet.members) :
    self.WellFormed d := by
  refine ⟨h.identity, ?_, ?_, fun ring hring => ?_⟩
  · rcases h.devices with halone | hall
    · exact halone ▸ List.nodup_singleton d
    · exact hall ▸ fleet.nodup
  · exact List.mem_of_getElem? h.index
  · have hring := (h.ring ring hring).1
    exact ⟨hring.rotated.nodup_iff.mp fleet.nodup, hring.ranked, hring.rotated.mem_iff.mp hd⟩

/-- A device of a ring has the rank of its place. -/
theorem Sound.getElem?_myRank (h : Sound fleet known d self) (hd : d ∈ fleet.members)
    {ring : Ring} (hring : ring ∈ self.currentRing) : ring.ids[self.myRank]? = some d := by
  have hwell := h.wellFormed hd
  have hdevices : self.ringDevices = ring.devices := by
    rw [RingCoordinator.ringDevices, Option.mem_def.mp hring]
  obtain ⟨device, hdevice, hid⟩ := hwell.exists_local
  obtain ⟨i, hi⟩ := List.getElem?_of_mem hdevice
  obtain rfl := (hwell.getElem?_ringDevices hi).mp hid
  rw [Ring.ids, List.getElem?_map, ← hdevices, hi, Option.map_some, hid]

/-- Two rings of one coordinator are the same. -/
theorem RingOf.unique {ring ring' : Ring} (h : RingOf fleet ring) (h' : RingOf fleet ring')
    (heq : ring.coordinator = ring'.coordinator) :
    ring.ids = ring'.ids ∧ ring.ranks = ring'.ranks := by
  have hids : ring.ids = ring'.ids := by
    refine eq_of_isRotated_of_head? ?_ (h.rotated.symm.trans h'.rotated) ?_
    · exact h.rotated.nodup_iff.mp fleet.nodup
    · rw [h.first, h'.first, heq]
  have hlength : ring.devices.length = ring'.devices.length := by
    have hcongr := congrArg List.length hids
    rwa [Ring.ids, Ring.ids, List.length_map, List.length_map] at hcongr
  exact ⟨hids, by rw [h.ranked, h'.ranked, hlength]⟩

/-- **Election agreement.**  Whatever happens in whichever order, a coordinator is stronger than
    all other members; no two devices have different ones; and all rings are the same, in which
    each device has a rank of its own. -/
theorem election_agrees {events : List (DeviceID × NetworkEvent)} {net : Network}
    (h : Network.Run fleet (Network.init fleet) events net) {e : DeviceID}
    (hd : d ∈ fleet.members) (he : e ∈ fleet.members) :
    (∀ c ∈ (net.coordinators d).coordinatorID, Strongest fleet.members fleet.Weaker c) ∧
    ((net.coordinators d).state = .coordinator → Strongest fleet.members fleet.Weaker d) ∧
    (∀ c ∈ (net.coordinators d).coordinatorID, ∀ c' ∈ (net.coordinators e).coordinatorID,
      c = c') ∧
    (∀ ring ∈ (net.coordinators d).currentRing, ∀ ring' ∈ (net.coordinators e).currentRing,
      ring.coordinator = ring'.coordinator ∧ ring.ids = ring'.ids ∧ ring.ranks = ring'.ranks ∧
      ((net.coordinators d).myRank = (net.coordinators e).myRank → d = e)) := by
  have hsound := Network.Sound.of_run h
  have hself := hsound.devices d hd
  have hother := hsound.devices e he
  refine ⟨fun c hc => (hself.coordinator c hc).strongest,
    fun hstate => (hself.state hstate).strongest, fun c hc c' hc' => ?_,
    fun ring hring ring' hring' => ?_⟩
  · exact (hself.coordinator c hc).strongest.unique fleet.weaker_asymm
      (hother.coordinator c' hc').strongest
  · obtain ⟨hof, helected⟩ := hself.ring ring hring
    obtain ⟨hof', helected'⟩ := hother.ring ring' hring'
    have heq := helected.strongest.unique fleet.weaker_asymm helected'.strongest
    obtain ⟨hids, hranks⟩ := hof.unique hof' heq
    refine ⟨heq, hids, hranks, fun hrank => ?_⟩
    have hplace := hself.getElem?_myRank hd hring
    have hplace' := hother.getElem?_myRank he hring'
    rw [hids, hrank, hplace'] at hplace
    exact (Option.some.inj hplace).symm

end

/-! A network of two, and an election in it. -/

/-- Two devices of which `b` is the stronger one. -/
def pairFleet : Fleet :=
  { members := ["a", "b"]
    sorted := by decide
    profile := fun d => if d = "a" then ⟨8, 5, .mac⟩ else ⟨16, 11, .mac⟩ }

/-- The two discover each other, `b` proposes itself, its candidacy comes round by `a`, and it
    announces itself. -/
def pairEvents : List (DeviceID × NetworkEvent) :=
  let candidacy : ElectionMessage := ⟨.election, "b", ⟨16, 11, .mac⟩⟩
  let announcement : ElectionMessage := ⟨.coordinator, "b", ⟨16, 11, .mac⟩⟩
  [("a", .updatePeers [⟨"b", "10.0.0.2", ⟨"en0", .wifi⟩⟩]),
    ("b", .updatePeers [⟨"a", "10.0.0.1", ⟨"en0", .wifi⟩⟩]),
    ("b", .sendAttempt 0), ("a", .processElectionMessage candidacy), ("a", .sendAttempt 1),
    ("b", .processElectionMessage candidacy), ("b", .sendAttempt 0),
    ("a", .processElectionMessage announcement), ("a", .sendAttempt 1),
    ("b", .processElectionMessage announcement)]

/-- Where the election of the pair leads, when its events are taken one after the other. -/
def pairElected : Option Network :=
  pairEvents.foldlM (fun net event => net.step pairFleet event.1 event.2) (Network.init pairFleet)

/-- On this run both devices agree on `b`, and `a` has the rank behind it. -/
theorem election_agrees_pair : ∃ net, pairElected = some net ∧
    (net.coordinators "a").coordinatorID = some "b" ∧ (net.coordinators "a").myRank = 1 ∧
    (net.coordinators "b").myRank = 0 ∧
    Strongest pairFleet.members pairFleet.Weaker "b" := by
  obtain ⟨net, hnet⟩ := Option.isSome_iff_exists.mp (by decide : pairElected.isSome = true)
  have hvalues : pairElected.map (fun net => ((net.coordinators "a").coordinatorID,
      (net.coordinators "a").myRank, (net.coordinators "b").myRank)) = some (some "b", 1, 0) := by
    decide
  rw [hnet] at hvalues
  obtain ⟨hcoordinator, hranks⟩ := Prod.mk.inj (Option.some.inj hvalues)
  obtain ⟨hrank, hrank'⟩ := Prod.mk.inj hranks
  refine ⟨net, hnet, hcoordinator, hrank, hrank', ?_⟩
  have hrun : Network.Run pairFleet (Network.init pairFleet) pairEvents net :=
    Trace.of_foldlM hnet
  exact (election_agrees (d := "a") (e := "b") hrun (by decide) (by decide)).1 "b" hcoordinator

end ShareCompute.App
