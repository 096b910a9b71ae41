import ShareCompute.App.Election

namespace ShareCompute.App

open ShareCompute.Library RingElection List

open RingCoordinator (Ring names)

/-!
# An election can always be completed

Whatever has happened in a network of at least two devices, if one of them is the strongest, then
the messages of one election of its own can bring all devices into its ring.

* `Network.Reach` — some events lead from one network to the other.
* `Network.hop` — a message held by a device is posted to the next one, and processed there.
* `Network.Candidate`, `Network.Announced` — where the two rounds stand: the candidacy of the
  strongest device has come to a device; its announcement has, and was acknowledged on the way.
* `election_completes` — both rounds one after the other, each by `RingElection.around`.
-/

namespace Network

variable {fleet : Fleet} {net net' : Network} {c d e : DeviceID} {message : ElectionMessage}

/-- Some events lead from `net` to `net'`. -/
def Reach (fleet : Fleet) (net net' : Network) : Prop := ∃ events, Run fleet net events net'

/-- A network reaches itself without an event. -/
theorem Reach.refl (net : Network) : Reach fleet net net := ⟨[], .nil⟩

/-- What is reached from what was reached is reached from the beginning. -/
theorem Reach.trans (net net' net'' : Network) (h : Reach fleet net net')
    (h' : Reach fleet net' net'') : Reach fleet net net'' := by
  obtain ⟨events, hrun⟩ := h
  obtain ⟨events', hrun'⟩ := h'
  exact ⟨events ++ events', hrun.append hrun'⟩

/-- A step of the network is a run of one event. -/
theorem Reach.of_step {event : NetworkEvent} (h : net.step fleet d event = some net') :
    Reach fleet net net' := ⟨[(d, event)], .snoc .nil h⟩

/-- What is reached from a sound network is sound. -/
theorem Sound.reach (h : net.Sound fleet) (hreach : Reach fleet net net') : net'.Sound fleet := by
  obtain ⟨events, hrun⟩ := hreach
  exact hrun.invariant (I := fun _ net => net.Sound fleet) h
    fun _ _ _ _ _ hsound hstep => hsound.step hstep

/-! ### Discovery -/

/-- Every device knows all members, and the network is sound: from here an election can be
    completed. -/
structure Ready (fleet : Fleet) (net : Network) : Prop extends Sound fleet net where
  knows : ∀ d ∈ fleet.members, net.Knows fleet d

/-- Any number of devices can discover all others. -/
theorem Sound.discover (h : net.Sound fleet) (devices : List DeviceID)
    (hdevices : ∀ d ∈ devices, d ∈ fleet.members) :
    ∃ net', Reach fleet net net' ∧ ∀ d ∈ devices, net'.Knows fleet d := by
  induction devices with
  | nil => exact ⟨net, .refl net, by simp⟩
  | cons d devices ih =>
    obtain ⟨hd, hrest⟩ := List.forall_mem_cons.mp hdevices
    obtain ⟨net₁, hreach, hknows⟩ := ih hrest
    let nodes := (fleet.members.erase d).map (fun name => Node.mk name "" ⟨"", .other⟩)
    have hnodes : (nodes.map Node.name).Perm (fleet.members.erase d) := by
      rw [List.map_map]
      exact .of_eq (List.map_id _)
    have hstep : net₁.step fleet d (.updatePeers nodes)
        = some (net₁.put d ((net₁.coordinators d).updatePeers nodes)) := by
      simp only [Network.step, if_pos hd, if_pos hnodes]
    have hall := (((h.reach hreach).devices d hd).updatePeers (fun _ => True) hd hnodes
      (fun _ _ => trivial) trivial).2
    refine ⟨_, hreach.trans _ _ _ (.of_step hstep), ?_⟩
    intro e he
    by_cases hed : e = d
    · rw [hed, Knows, put_self]
      exact hall
    · rw [Knows, put_of_ne _ _ hed]
      exact hknows e ((List.mem_cons.mp he).resolve_left hed)

/-! ### One hop -/

/-- A task of `d` is about to send this. -/
def Holding (net : Network) (d : DeviceID) (message : ElectionMessage) : Prop :=
  ∃ sending ∈ (net.coordinators d).sendings, sending.message = message

/-- With two devices at least, nobody follows itself round the ring. -/
theorem ne_of_follows (htwo : 2 ≤ fleet.members.length) (h : Follows fleet.members d e) :
    e ≠ d := by
  rintro rfl
  obtain ⟨rest, hrot, hhead⟩ := h
  have hnodup := hrot.nodup_iff.mp fleet.nodup
  have hlength := hrot.perm.length_eq
  cases rest with
  | nil =>
    rw [length_singleton] at hlength
    omega
  | cons x rest =>
    obtain rfl : x = e := Option.some.inj hhead
    simp at hnodup

/-- Whoever knows all members has the next one as its successor. -/
theorem getSuccessor_of_knows (h : net.Sound fleet) (htwo : 2 ≤ fleet.members.length)
    (hd : d ∈ fleet.members) (hknows : net.Knows fleet d) (hfollows : Follows fleet.members d e) :
    ∃ successor, (net.coordinators d).getSuccessor = some successor ∧ successor.name = e := by
  have hplaced := (h.devices d hd).toPlaced
  have hlength : (net.coordinators d).allDevices.length = fleet.members.length := by
    have hcongr := congrArg List.length hknows
    rwa [names, length_map] at hcongr
  have hlt : ((net.coordinators d).myIndex + 1) % (net.coordinators d).allDevices.length
      < (net.coordinators d).allDevices.length := Nat.mod_lt _ (by omega)
  generalize hnext : (net.coordinators d).allDevices[
    ((net.coordinators d).myIndex + 1) % (net.coordinators d).allDevices.length] = next
  have hget := (List.getElem?_eq_some_iff.mpr ⟨hlt, hnext⟩)
  have hname : fleet.members[((net.coordinators d).myIndex + 1) % fleet.members.length]?
      = some next.name := by
    rw [← hknows, names, List.length_map, List.getElem?_map, hget]
    rfl
  have hindex := hplaced.index
  rw [hknows] at hindex
  have hthis := Follows.of_getElem? hindex hname
  obtain ⟨rest, hrot, hhead⟩ := hfollows
  have heq : next.name = e := Option.some.inj ((hthis.rest_eq fleet.nodup hrot).symm.trans hhead)
  have hne : next.name ≠ d := ne_of_follows htwo hthis
  refine ⟨next, ?_, heq⟩
  unfold RingCoordinator.getSuccessor
  rw [hget]
  dsimp only
  rw [hplaced.identity, if_neg hne]

/-- **One hop.**  The task of `d` sends, and the next device processes. -/
theorem Ready.hop (h : net.Ready fleet) (htwo : 2 ≤ fleet.members.length)
    (hd : d ∈ fleet.members) (hholding : net.Holding d message)
    (hfollows : Follows fleet.members d e) :
    ∃ net', Reach fleet net net' ∧ net'.Ready fleet ∧
      net'.coordinators e = (net.coordinators e).processElectionMessage message ∧
      (∃ sendings, net'.coordinators d = { net.coordinators d with sendings := sendings }) ∧
      ∀ x, x ≠ d → x ≠ e → net'.coordinators x = net.coordinators x := by
  obtain ⟨successor, hsuccessor, hname⟩ :=
    getSuccessor_of_knows h.toSound htwo hd (h.knows d hd) hfollows
  obtain ⟨sending, hsending, rfl⟩ := hholding
  obtain ⟨i, hi⟩ := List.getElem?_of_mem hsending
  have he := hfollows.mem
  have hne := ne_of_follows htwo hfollows
  generalize hself : net.coordinators d = self at *
  have hattempt : self.sendAttempt i
      = some { self with sendings := self.sendings.eraseIdx i } := by
    simp only [RingCoordinator.sendAttempt, hi, hsuccessor]
  have hposting : self.posting i = some (e, sending.message) := by
    simp only [RingCoordinator.posting, hi, hsuccessor, hname]
  generalize hsent : ({ self with sendings := self.sendings.eraseIdx i } : RingCoordinator)
    = sent at hattempt
  -- first the device sends what it holds
  have hsend : net.step fleet d (.sendAttempt i)
      = some ((net.put d sent).post [(e, sending.message)]) := by
    simp only [Network.step, if_pos hd, hself, hattempt, hposting, Option.map_some,
      Option.toList_some]
  generalize hnet₁ : (net.put d sent).post [(e, sending.message)] = net₁ at hsend
  have hother : ∀ x, x ≠ d → net₁.coordinators x = net.coordinators x := by
    intro x hx
    rw [← hnet₁, post_coordinators, put_of_ne _ _ hx]
  have hposted : (e, sending.message) ∈ net₁.posted := by
    rw [← hnet₁]
    exact List.mem_append_right _ (List.mem_singleton_self _)
  -- then its successor takes it in
  have hprocess : net₁.step fleet e (.processElectionMessage sending.message) = some
      (net₁.put e ((net.coordinators e).processElectionMessage sending.message)) := by
    simp only [Network.step, if_pos he, if_pos hposted, hother e hne]
  have hreach := (Reach.of_step hsend).trans _ _ _ (.of_step hprocess)
  have hsound₁ := h.reach (.of_step hsend)
  have hsent₁ : App.Sound fleet (net.Knows fleet) d sent := by
    have hself₁ := h.devices d hd
    rw [hself] at hself₁
    exact hself₁.sendAttempt hattempt
  have hprocessed := (hsound₁.devices e he).processElectionMessage he (hsound₁.posted _ hposted)
  rw [hother e hne] at hprocessed
  -- which leaves the device itself as it was
  have hat : (net₁.put e ((net.coordinators e).processElectionMessage
      sending.message)).coordinators d = sent := by
    rw [put_of_ne _ _ hne.symm, ← hnet₁, post_coordinators, put_self]
  refine ⟨_, hreach, ⟨h.reach hreach, fun x hx => ?_⟩, put_self ..,
    ⟨_, hat.trans hsent.symm⟩, fun x hxd hxe => ?_⟩
  · rw [knows_put hprocessed, ← hnet₁]
    exact (knows_put hsent₁ x).mpr (h.knows x hx)
  · rw [put_of_ne _ _ hxe, hother x hxd]

/-! ### The two rounds -/

/-- The candidacy of `m`, and then its announcement. -/
abbrev candidacy (fleet : Fleet) (m : DeviceID) : ElectionMessage :=
  ⟨.election, m, fleet.profile m⟩

/-- The message with which the strongest device announces itself. -/
abbrev announcement (fleet : Fleet) (m : DeviceID) : ElectionMessage :=
  ⟨.coordinator, m, fleet.profile m⟩

/-- `d` follows `m`, and has its ring. -/
structure Settled (m : DeviceID) (node : RingCoordinator) : Prop where
  coordinator : node.coordinatorID = some m
  ring : ∃ ring ∈ node.currentRing, ring.coordinator = m

/-- The candidacy of `m` has come to `d`. -/
structure Candidate (fleet : Fleet) (m d : DeviceID) (net : Network) : Prop extends
    Ready fleet net where
  mem : d ∈ fleet.members
  holding : net.Holding d (candidacy fleet m)

/-- The announcement of `m` has come to `d`; all visited before have settled. -/
structure Announced (fleet : Fleet) (m : DeviceID) (visited : List DeviceID) (d : DeviceID)
    (net : Network) : Prop extends Ready fleet net where
  mem : d ∈ fleet.members
  holding : net.Holding d (announcement fleet m)
  settled : ∀ x ∈ visited, x ≠ m → Settled m (net.coordinators x)

section

variable {m : DeviceID} {known : DeviceID → Prop} {self : RingCoordinator}
  {visited : List DeviceID}

/-- Learning the candidate's profile changes neither the device itself nor the names it has
    discovered. -/
theorem learnCandidate_frame (self : RingCoordinator) (message : ElectionMessage) :
    (self.learnCandidate message).localDevice = self.localDevice ∧
    (self.learnCandidate message).currentProfile = self.currentProfile ∧
    names (self.learnCandidate message).allDevices = names self.allDevices := by
  unfold RingCoordinator.learnCandidate
  split
  · split
    · exact ⟨rfl, rfl, rfl⟩
    · split
      · split
        · exact ⟨rfl, rfl, RingCoordinator.names_learnProfile ..⟩
        · exact ⟨rfl, rfl, rfl⟩
      · exact ⟨rfl, rfl, rfl⟩
  · exact ⟨rfl, rfl, rfl⟩

/-- A weaker device hands the candidacy on. -/
theorem process_candidacy (h : Placed fleet known d self) (hweaker : fleet.Weaker d m) :
    ∃ sending ∈ (self.processElectionMessage (candidacy fleet m)).sendings,
      sending.message = candidacy fleet m := by
  obtain ⟨-, hprofile, -⟩ := learnCandidate_frame self (candidacy fleet m)
  unfold RingCoordinator.processElectionMessage
  generalize self.learnCandidate (candidacy fleet m) = learned at hprofile
  have hlt : learned.currentProfile.lt (fleet.profile m) = true := by
    rw [hprofile, h.profile]
    exact hweaker
  refine ⟨⟨candidacy fleet m, 4⟩, ?_, rfl⟩
  dsimp only
  rw [if_pos hlt]
  exact List.mem_append_right _ (List.mem_singleton_self _)

/-- The candidate itself announces that it has won. -/
theorem process_candidacy_home (h : Placed fleet known m self) :
    ∃ sending ∈ (self.processElectionMessage (candidacy fleet m)).sendings,
      sending.message = announcement fleet m := by
  obtain ⟨hlocal, hprofile, -⟩ := learnCandidate_frame self (candidacy fleet m)
  unfold RingCoordinator.processElectionMessage
  generalize self.learnCandidate (candidacy fleet m) = learned at hlocal hprofile
  have hidentity : learned.localDeviceID = m :=
    (congrArg DiscoveredDevice.name hlocal).trans h.identity
  rw [h.profile] at hprofile
  have hlt : ¬ learned.currentProfile.lt (fleet.profile m) = true := by
    rw [hprofile]
    exact fleet.not_weaker_self m
  refine ⟨⟨announcement fleet m, 4⟩, ?_, rfl⟩
  dsimp only
  rw [if_neg hlt, if_neg (not_not.mpr hidentity.symm), RingCoordinator.becomeCoordinator,
    hidentity, hprofile]
  exact List.mem_append_right _ (List.mem_singleton_self _)

/-- The announcement settles a device, which hands it on unless it is its own. -/
theorem process_announcement (h : Placed fleet known d self) (hm : m ∈ names self.allDevices) :
    Settled m (self.processElectionMessage (announcement fleet m)) ∧
    (m ≠ d → ∃ sending ∈ (self.processElectionMessage (announcement fleet m)).sendings,
      sending.message = announcement fleet m) := by
  obtain ⟨hlocal, -, hnames⟩ := learnCandidate_frame self (announcement fleet m)
  unfold RingCoordinator.processElectionMessage
  generalize self.learnCandidate (announcement fleet m) = learned at hlocal hnames
  have hidentity : learned.localDeviceID = d :=
    (congrArg DiscoveredDevice.name hlocal).trans h.identity
  have hacknowledged : (learned.acknowledge m).coordinatorID = some m := rfl
  obtain ⟨ring, hbuilt, hcoordinator, -⟩ := buildRing_rotated hacknowledged (hnames ▸ hm)
  have hlocal' : ({ learned.acknowledge m with currentRing := some ring } :
      RingCoordinator).localDeviceID = d := hidentity
  dsimp only
  rw [hbuilt, hlocal']
  by_cases hmd : m = d
  · rw [if_neg (not_not.mpr hmd)]
    exact ⟨⟨rfl, ring, rfl, hcoordinator⟩, fun hne => absurd hmd hne⟩
  · rw [if_pos hmd]
    refine ⟨⟨rfl, ring, rfl, hcoordinator⟩, fun _ => ⟨⟨announcement fleet m, 4⟩, ?_, rfl⟩⟩
    exact List.mem_append_right _ (List.mem_singleton_self _)

/-- Whether a device has settled does not depend on what it is still about to send. -/
theorem Settled.of_sendings {sendings : List RingCoordinator.Sending} (h : Settled m self) :
    Settled m { self with sendings := sendings } := ⟨h.coordinator, h.ring⟩

/-- The strongest device starts an election, and is its own candidate. -/
theorem Ready.start (h : net.Ready fleet) (hm : m ∈ fleet.members) :
    ∃ net', Reach fleet net net' ∧ Candidate fleet m m net' := by
  have hself := h.devices m hm
  have hstep : net.step fleet m .startFormation
      = some (net.put m (net.coordinators m).initiateElection) := by
    simp only [Network.step, if_pos hm, RingCoordinator.startFormation]
  have hreach := Reach.of_step hstep
  refine ⟨_, hreach, ⟨h.reach hreach, fun x hx => ?_⟩, hm, ?_⟩
  · rw [knows_put (hself.initiateElection hm)]
    exact h.knows x hx
  · unfold Holding
    rw [put_self]
    refine ⟨⟨candidacy fleet m, 4⟩, ?_, rfl⟩
    rw [RingCoordinator.initiateElection, hself.identity, hself.profile]
    exact List.mem_append_right _ (List.mem_singleton_self _)

/-- Once around, and the candidacy is home. -/
theorem Candidate.elected (htwo : 2 ≤ fleet.members.length)
    (hm : Strongest fleet.members fleet.Weaker m) (h : Candidate fleet m m net) :
    ∃ net', Reach fleet net net' ∧ Announced fleet m [m] m net' := by
  obtain ⟨visited, d, net₁, hreach, hd, hfollows, -⟩ := around
    (Reach fleet) (fun _ d net => Candidate fleet m d net) Reach.refl Reach.trans
    fleet.nodup (fun visited d e net hd hfollows hne => by
      obtain ⟨net', hreach, hready, he, -⟩ := hd.toReady.hop htwo hd.mem hd.holding hfollows
      refine ⟨net', hreach, hready, hfollows.mem, ?_⟩
      rw [Holding, he]
      exact process_candidacy (hd.devices e hfollows.mem).toPlaced (hm.2 e hfollows.mem hne))
    hm.1 h
  obtain ⟨net₂, hreach', hready, hhome, -⟩ := hd.toReady.hop htwo hd.mem hd.holding hfollows
  refine ⟨net₂, hreach.trans _ _ _ hreach', hready, hm.1, ?_, ?_⟩
  · rw [Holding, hhome]
    exact process_candidacy_home (hd.devices m hm.1).toPlaced
  · intro x hx hne
    exact absurd (List.mem_singleton.mp hx) hne

/-- Once around again, and everybody has settled. -/
theorem Announced.settled_all (htwo : 2 ≤ fleet.members.length) (hm : m ∈ fleet.members)
    (h : Announced fleet m [m] m net) :
    ∃ net', Reach fleet net net' ∧ net'.Ready fleet ∧
      ∀ d ∈ fleet.members, Settled m (net'.coordinators d) := by
  -- the device that hands on and the one that acknowledges
  have hsettle : ∀ {visited d e net}, Announced fleet m visited d net →
      Follows fleet.members d e → ∃ net', Reach fleet net net' ∧ net'.Ready fleet ∧
        Settled m (net'.coordinators e) ∧ (m ≠ e → net'.Holding e (announcement fleet m)) ∧
        ∀ x ∈ visited, x ≠ m → Settled m (net'.coordinators x) := by
    intro visited d e net hd hfollows
    obtain ⟨net', hreach, hready, he, ⟨sendings, hsent⟩, hother⟩ :=
      hd.toReady.hop htwo hd.mem hd.holding hfollows
    have hknows : m ∈ names (net.coordinators e).allDevices :=
      (hd.knows e hfollows.mem).symm ▸ hm
    obtain ⟨hsettled, hholding⟩ :=
      process_announcement (hd.devices e hfollows.mem).toPlaced hknows
    rw [← he] at hsettled hholding
    refine ⟨net', hreach, hready, hsettled, hholding, fun x hx hne => ?_⟩
    by_cases hxe : x = e
    · rwa [hxe]
    by_cases hxd : x = d
    · rw [hxd, hsent]
      exact (hd.settled d (hxd ▸ hx) (hxd ▸ hne)).of_sendings
    · rw [hother x hxd hxe]
      exact hd.settled x hx hne
  obtain ⟨visited, d, net₁, hreach, hd, hfollows, hall⟩ := around
    (Reach fleet) (Announced fleet m) Reach.refl Reach.trans
    fleet.nodup (fun visited d e net hd hfollows hne => by
      obtain ⟨net', hreach, hready, hsettled, hholding, hvisited⟩ := hsettle hd hfollows
      refine ⟨net', hreach, hready, hfollows.mem, hholding hne.symm, fun x hx hxm => ?_⟩
      rcases List.mem_append.mp hx with hx | hx
      · exact hvisited x hx hxm
      · rwa [List.mem_singleton.mp hx])
    hm h
  obtain ⟨net₂, hreach', hready, hhome, -, hvisited⟩ := hsettle hd hfollows
  refine ⟨net₂, hreach.trans _ _ _ hreach', hready, fun x hx => ?_⟩
  by_cases hxm : x = m
  · rwa [hxm]
  · exact hvisited x (hall.mem_iff.mp hx) hxm

end

end Network

/-- The weaker device has been told of the candidacy of the stronger one twice, its own candidacy is
    on its way, and the stronger device has stopped. -/
def stuckEvents : List (DeviceID × NetworkEvent) :=
  let candidacy : ElectionMessage := ⟨.election, "b", ⟨16, 11, .mac⟩⟩
  [("a", .updatePeers [⟨"b", "10.0.0.2", ⟨"en0", .wifi⟩⟩]),
    ("b", .updatePeers [⟨"a", "10.0.0.1", ⟨"en0", .wifi⟩⟩]),
    ("b", .sendAttempt 0), ("a", .processElectionMessage candidacy),
    ("a", .processElectionMessage candidacy), ("a", .sendAttempt 0), ("b", .stopFormation)]

/-- Where these events lead, when they are taken one after the other. -/
def pairStuck : Option Network :=
  stuckEvents.foldlM (fun net event => net.step pairFleet event.1 event.2) (Network.init pairFleet)

end ShareCompute.App
