import Mathlib.Data.List.Perm.Subperm
import ShareCompute.Cluster.RelayLaws
import ShareCompute.Cluster.Tunnels

namespace ShareCompute.Cluster

open ShareCompute.Library

/-!
# Two limits of four

The relay and one of its workers.  The relay counts the channels of a node by its pending
entries, and refuses a local connection when there are four; the worker counts the tunnels that
have not ended, and gives up the session when it is asked for a fifth.  A command is read some
time after it was written, and a tunnel ends some time before or after the relay has dropped
its entry, so the two counts are of different moments.

* `Session.step` — one step of the relay, of anybody who connects to it, or of the worker.
* `Session.Sound` — what holds in every run: the channels asked for are distinct.
* `channel_limit` — no command is refused while the relay opens a channel only when fewer than
  four of those it has asked for are unfinished, and otherwise one can be; `fifth_tunnel`: the
  relay's own count does not see to that.
-/

/-- What has become of the worker's side of the session. -/
inductive Status
  | running
  /-- a tunnel has failed -/
  | ended
  /-- a command was refused -/
  | refused
deriving DecidableEq

/-- The relay and one worker, with what is on its way between them. -/
structure Session where
  relay : Relay
  /-- the local connections to the port of the node that are not closed -/
  locals : List ℕ
  /-- what is written to the control connection and not read -/
  commands : List Command
  worker : HonestWorker
  status : Status

/-- What can happen: a step of the relay, a command that is read, or the end of a tunnel. -/
inductive SessionAction
  | relay (action : Action)
  /-- the worker reads a command -/
  | receive
  | tunnelEnds (channel : String) (ok : Bool)
deriving DecidableEq

namespace Session

/-- A session with a worker that has joined and a relay that nobody has connected to. -/
def start (platform : Platform) : Session := ⟨.init, [], [], .joined platform, .running⟩

/-- The channels that were asked for and have not ended, also those that the relay has
    dropped. -/
def outstanding (self : Session) : List String :=
  self.worker.unfinished ++ self.commands.map Command.channel

/-- What `forward` writes to the control connection of `node`. -/
def written (node : String) (relay : Relay) : Action → List Command
  | .connectLocal _ n channel =>
      if n = node ∧ relay.pendingCount node < 4 then [⟨"open", channel⟩] else []
  | _ => []

/-- The local connection that an action opens to this node. -/
def opened (node : String) : Action → List ℕ
  | .connectLocal f n _ => if n = node then [f] else []
  | _ => []

/-- The local connection of a `forward` is not closed. -/
def isOpen (relay : Relay) (f : ℕ) : Bool :=
  match relay.forwards f with
  | some frame => decide (frame.point ≠ .closed)
  | none => false

/-- Where an action names a channel, the name is one that `uuid.uuid4().hex` can return. -/
def named : Action → Bool
  | .connectLocal _ _ channel => isChannel channel
  | _ => true

section

variable (config : Config) (loads : List UInt8 → Option Json) (node : String)

/-- One step of the session, with the event of the relay that it makes visible. -/
def step (self : Session) : SessionAction → Option (Session × Option Effect)
  | .relay action =>
      if named action then
        (self.relay.step config loads action).map (fun (relay, effect) =>
          ({ self with
              relay := relay
              locals := (opened node action ++ self.locals).filter (isOpen relay)
              commands := self.commands ++ written node self.relay action }, effect))
      else none
  | .receive =>
      match self.status, self.commands with
      | .running, message :: commands =>
          match self.worker.receive message with
          | .ok worker => some ({ self with commands := commands, worker := worker }, none)
          | .error _ => some ({ self with commands := commands, status := .refused }, none)
      | _, _ => none
  | .tunnelEnds channel ok =>
      if self.status = .running ∧ channel ∈ self.worker.unfinished then
        some ({ self with
          worker := self.worker.finish channel
          status := if ok then .running else .ended }, none)
      else none

/-- The steps that meet `guard`, a condition on the state before them. -/
def guarded (guard : Session → SessionAction → Bool) (self : Session) (action : SessionAction) :
    Option (Session × Option Effect) :=
  if guard self action then self.step config loads node action else none

/-- The steps that a guard allows, as a labelled transition system. -/
def Steps (guard : Session → SessionAction → Bool) (s : Session)
    (l : SessionAction × Option Effect) (s' : Session) : Prop :=
  s.guarded config loads node guard l.1 = some (s', l.2)

end

/-- The guard that allows every step, so that its runs are all runs. -/
def anyStep : Session → SessionAction → Bool := fun _ _ => true

/-- A local connection is opened only when fewer than four are open. -/
def atMostFour (node : String) (s : Session) : SessionAction → Bool
  | .relay (.connectLocal _ n _) => n != node || s.locals.length < 4
  | _ => true

/-- The relay opens a channel only when fewer than four are outstanding. -/
def roomy (node : String) (s : Session) : SessionAction → Bool
  | .relay (.connectLocal _ n _) =>
      n != node || 4 ≤ s.relay.pendingCount node || s.outstanding.length < 4
  | _ => true

/-- The relay opens a channel of the node. -/
def opens (node : String) (s : Session) : SessionAction → Bool
  | .relay (.connectLocal _ n _) => n == node && s.relay.pendingCount node < 4
  | _ => false

/-- No command was refused, and the next one is received by a worker with fewer than four
    unfinished tunnels, which serves it. -/
structure Accepting (s : Session) : Prop where
  served : s.status ≠ .refused
  next : s.status = .running → ∀ message rest, s.commands = message :: rest →
    s.worker.unfinished.length < 4 ∧ ∃ worker, s.worker.receive message = .ok worker

/-! ### What a step can do -/

variable {config : Config} {loads : List UInt8 → Option Json} {node : String}
  {guard : Session → SessionAction → Bool} {s s' : Session}
  {ls : List (SessionAction × Option Effect)} {l : SessionAction × Option Effect}

/-- What one step can do to the commands and to the worker. -/
inductive Turn (config : Config) (loads : List UInt8 → Option Json) (node : String)
    (s : Session) : SessionAction → Session → Prop
  | relay {action : Action} {relay : Relay} {locals : List ℕ} {effect : Option Effect}
      (hnamed : named action = true)
      (hstep : s.relay.step config loads action = some (relay, effect)) :
      Turn config loads node s (.relay action)
        { s with
          relay := relay
          locals := locals
          commands := s.commands ++ written node s.relay action }
  | accept {message : Command} {rest : List Command} {worker : HonestWorker}
      (hstatus : s.status = .running) (hcommands : s.commands = message :: rest)
      (hreceive : s.worker.receive message = .ok worker) :
      Turn config loads node s .receive { s with commands := rest, worker := worker }
  | refuse {message : Command} {rest : List Command} {text : String}
      (hstatus : s.status = .running) (hcommands : s.commands = message :: rest)
      (hreceive : s.worker.receive message = .error text) :
      Turn config loads node s .receive { s with commands := rest, status := .refused }
  | tunnelEnds {channel : String} {ok : Bool} (hstatus : s.status = .running) :
      Turn config loads node s (.tunnelEnds channel ok)
        { s with
          worker := s.worker.finish channel
          status := if ok then .running else .ended }

/-- A step of a guarded run is one that the guard allows. -/
theorem guard_of_steps (h : Steps config loads node guard s l s') : guard s l.1 = true := by
  rw [Steps, guarded] at h
  split at h
  case isTrue hguard => exact hguard
  case isFalse => cases h

/-- A step of a guarded run is a step. -/
theorem step_of_steps (h : Steps config loads node guard s l s') :
    s.step config loads node l.1 = some (s', l.2) := by
  rwa [Steps, guarded, if_pos (guard_of_steps h)] at h

/-- A step of a guarded run is one of the turns. -/
theorem turn_of_steps (h : Steps config loads node guard s l s') :
    Turn config loads node s l.1 s' := by
  have hstep := step_of_steps h
  obtain ⟨action, effect⟩ := l
  cases action with
  | relay action =>
    rw [step] at hstep
    split at hstep
    case isFalse => cases hstep
    case isTrue hnamed =>
      obtain ⟨⟨relay, effect'⟩, hrelay, heq⟩ := Option.map_eq_some_iff.mp hstep
      obtain ⟨rfl, -⟩ := Prod.mk.inj heq
      exact .relay hnamed hrelay
  | receive =>
    rw [step] at hstep
    split at hstep
    case h_2 => cases hstep
    case h_1 message rest hstatus hcommands =>
      split at hstep
      case h_1 worker hreceive =>
        obtain ⟨rfl, -⟩ := Prod.mk.inj (Option.some.inj hstep)
        exact .accept hstatus hcommands hreceive
      case h_2 text hreceive =>
        obtain ⟨rfl, -⟩ := Prod.mk.inj (Option.some.inj hstep)
        exact .refuse hstatus hcommands hreceive
  | tunnelEnds channel ok =>
    rw [step] at hstep
    split at hstep
    case isFalse => cases hstep
    case isTrue hboth =>
      obtain ⟨rfl, -⟩ := Prod.mk.inj (Option.some.inj hstep)
      exact .tunnelEnds hboth.1

/-! ### The channels are distinct -/

/-- What the relay writes names a channel that was never named before. -/
theorem written_fresh {relay relay' : Relay} {action : Action} {effect : Option Effect}
    (hnamed : named action = true) (hstep : relay.step config loads action = some (relay', effect))
    {message : Command} (hmem : message ∈ written node relay action) :
    written node relay action = [message] ∧ message = ⟨"open", message.channel⟩ ∧
      isChannel message.channel = true ∧ message.channel ∉ relay.issued ∧
      message.channel ∈ relay'.issued := by
  cases action with
  | connectLocal f n channel =>
    rw [written] at hmem ⊢
    split at hmem
    case isFalse => exact absurd hmem List.not_mem_nil
    case isTrue hopens =>
      obtain rfl := List.mem_singleton.mp hmem
      rw [if_pos hopens]
      simp only [Relay.step] at hstep
      split at hstep
      case h_1 => cases hstep
      case h_2 =>
        split at hstep
        case isFalse => cases hstep
        case isTrue hfresh =>
          obtain ⟨rfl, -⟩ := Prod.mk.inj (Option.some.inj hstep)
          refine ⟨rfl, rfl, hnamed, hfresh.2, ?_⟩
          rw [Relay.openChannel]
          split <;> exact List.mem_cons_self ..
  | _ => exact absurd hmem List.not_mem_nil

/-- **Soundness of the session**, whatever the relay and the worker do. -/
structure Sound (s : Session) : Prop where
  distinct : s.outstanding.Nodup
  issued : ∀ channel ∈ s.outstanding, channel ∈ s.relay.issued
  commands : ∀ message ∈ s.commands,
    message = ⟨"open", message.channel⟩ ∧ isChannel message.channel = true
  unfinished : s.worker.unfinished.length ≤ 4

/-- At the start no channel was asked for, so all of them are distinct. -/
theorem Sound.start (platform : Platform) : Sound (start platform) where
  distinct := by simp [Session.start, outstanding]
  issued := by simp [Session.start, outstanding]
  commands := by simp [Session.start]
  unfinished := by simp [Session.start]

/-- Every step keeps the session sound, by the cases of what it can be. -/
theorem Sound.turn {a : SessionAction} (h : Sound s) (ht : Turn config loads node s a s') :
    Sound s' := by
  cases ht with
  | @relay action relay locals effect hnamed hstep =>
    have hissued : s.relay.issued ⊆ relay.issued := (Relay.move_of_step hstep).issued_subset
    have houtstanding : ∀ channel ∈ (written node s.relay action).map Command.channel,
        channel ∉ s.relay.issued ∧ channel ∈ relay.issued := by
      intro channel hmem
      obtain ⟨message, hmessage, rfl⟩ := List.mem_map.mp hmem
      exact (written_fresh hnamed hstep hmessage).2.2.2
    have hsplit : ∀ commands, s.worker.unfinished ++ (s.commands ++ commands).map Command.channel
        = s.outstanding ++ commands.map Command.channel := fun commands => by
      rw [outstanding, List.map_append, List.append_assoc]
    constructor
    · show (s.worker.unfinished ++ _).Nodup
      rw [hsplit]
      refine List.Nodup.append h.distinct ?_ (fun channel hold hnew =>
        (houtstanding channel hnew).1 (h.issued channel hold))
      -- at most one channel is opened at a time
      rcases hwritten : written node s.relay action with _ | ⟨message, rest⟩
      · exact List.nodup_nil
      · have hone := (written_fresh hnamed hstep (hwritten ▸ List.mem_cons_self ..)).1
        rw [hwritten] at hone
        rw [hone]
        exact List.nodup_singleton _
    · intro channel hmem
      change channel ∈ s.worker.unfinished ++ _ at hmem
      rw [hsplit] at hmem
      rcases List.mem_append.mp hmem with hold | hnew
      · exact hissued (h.issued channel hold)
      · exact (houtstanding channel hnew).2
    · intro message hmem
      rcases List.mem_append.mp hmem with hold | hnew
      · exact h.commands message hold
      · obtain ⟨-, hop, hchannel, -⟩ := written_fresh hnamed hstep hnew
        exact ⟨hop, hchannel⟩
    · exact h.unfinished
  | @accept message rest worker hstatus hcommands hreceive =>
    obtain ⟨hunfinished, hroom⟩ := HonestWorker.unfinished_of_receive hreceive
    -- the channel of the command is unfinished now, and none is new
    have hperm : (worker.unfinished ++ rest.map Command.channel).Perm s.outstanding := by
      rw [hunfinished, outstanding, hcommands, List.map_cons, List.cons_append]
      exact List.perm_middle.symm
    constructor
    · exact hperm.nodup_iff.mpr h.distinct
    · exact fun channel hmem => h.issued channel (hperm.subset hmem)
    · exact fun m hmem => h.commands m (hcommands ▸ List.mem_cons_of_mem _ hmem)
    · show worker.unfinished.length ≤ 4
      rw [hunfinished, List.length_cons]
      omega
  | @refuse message rest text hstatus hcommands hreceive =>
    have hsub : (s.worker.unfinished ++ rest.map Command.channel).Sublist s.outstanding := by
      rw [outstanding, hcommands, List.map_cons]
      exact (List.Sublist.refl _).append (List.sublist_cons_self ..)
    constructor
    · exact h.distinct.sublist hsub
    · exact fun channel hmem => h.issued channel (hsub.subset hmem)
    · exact fun m hmem => h.commands m (hcommands ▸ List.mem_cons_of_mem _ hmem)
    · exact h.unfinished
  | @tunnelEnds channel ok hstatus =>
    have hsub : ((s.worker.finish channel).unfinished ++ s.commands.map Command.channel).Sublist
        s.outstanding := by
      rw [HonestWorker.unfinished_finish]
      exact List.erase_sublist.append (List.Sublist.refl _)
    constructor
    · exact h.distinct.sublist hsub
    · exact fun channel hmem => h.issued channel (hsub.subset hmem)
    · exact h.commands
    · show (s.worker.finish channel).unfinished.length ≤ 4
      rw [HonestWorker.unfinished_finish]
      exact List.erase_sublist.length_le.trans h.unfinished

/-- Every run is sound, under whichever guard, by induction over its steps. -/
theorem Sound.run {platform : Platform} (h : Trace (Steps config loads node guard)
    (Session.start platform) ls s) : Sound s :=
  h.invariant (I := fun _ s => Sound s) (.start platform)
    (fun _ _ _ _ _ hsound hs => hsound.turn (turn_of_steps hs))

/-! ### When commands are served -/

/-- No command was refused, and no more than four channels are outstanding. -/
structure Capacity (s : Session) : Prop where
  sound : Sound s
  served : s.status ≠ .refused
  atMost : s.outstanding.length ≤ 4

/-- With four channels outstanding at most, the worker has room for the one it reads next. -/
theorem Capacity.next (h : Capacity s) {message : Command} {rest : List Command}
    (hcommands : s.commands = message :: rest) :
    s.worker.unfinished.length < 4 ∧ ∃ worker, s.worker.receive message = .ok worker := by
  have hatMost := h.atMost
  have hroom : s.worker.unfinished.length < 4 := by
    rw [outstanding, hcommands, List.length_append, List.map_cons, List.length_cons] at hatMost
    omega
  obtain ⟨hop, hchannel⟩ := h.sound.commands message (hcommands ▸ List.mem_cons_self ..)
  have hnew : message.channel ∉ s.worker.unfinished := fun hmem => by
    have hdistinct := h.sound.distinct
    rw [outstanding, hcommands, List.map_cons] at hdistinct
    exact (List.nodup_append.mp hdistinct).2.2 _ hmem _ (List.mem_cons_self ..) rfl
  obtain ⟨worker, hreceive, -⟩ := HonestWorker.receive_ok hchannel hnew hroom
  exact ⟨hroom, worker, hop ▸ hreceive⟩

/-- With this capacity the next command is accepted. -/
theorem Capacity.accepting (h : Capacity s) : Accepting s where
  served := h.served
  next _ _ _ hcommands := h.next hcommands

/-- Every step that opens a channel only when there is room keeps the capacity. -/
theorem Capacity.turn {a : SessionAction} (h : Capacity s) (hroomy : roomy node s a = true)
    (ht : Turn config loads node s a s') : Capacity s' := by
  have hsound := h.sound.turn ht
  have hatMost := h.atMost
  cases ht with
  | @relay action relay locals effect hnamed hstep =>
    refine ⟨hsound, h.served, ?_⟩
    have hlength : (s.worker.unfinished ++ (s.commands ++ written node s.relay action).map
        Command.channel).length = s.outstanding.length + (written node s.relay action).length := by
      simp [outstanding, Nat.add_assoc]
    show (s.worker.unfinished ++ _).length ≤ 4
    rw [hlength]
    rcases hwritten : written node s.relay action with _ | ⟨message, rest⟩
    · exact hatMost
    · -- the relay opens a channel, so there was room
      cases action with
      | connectLocal f n channel =>
        rw [written] at hwritten
        split at hwritten
        case isFalse => cases hwritten
        case isTrue hopens =>
          obtain ⟨-, rfl⟩ := List.cons.inj hwritten
          have hroom : s.outstanding.length < 4 := by
            simpa [roomy, hopens.1, Nat.not_le.mpr hopens.2] using hroomy
          exact hroom
      | _ => cases hwritten
  | @accept message rest worker hstatus hcommands hreceive =>
    refine ⟨hsound, h.served, ?_⟩
    show (worker.unfinished ++ rest.map Command.channel).length ≤ 4
    rw [outstanding, hcommands] at hatMost
    rw [(HonestWorker.unfinished_of_receive hreceive).1]
    simp only [List.length_append, List.length_map, List.length_cons] at hatMost ⊢
    omega
  | @refuse message rest text hstatus hcommands hreceive =>
    -- the worker has room for the next command, so it does not refuse it
    obtain ⟨-, worker, hok⟩ := h.next hcommands
    rw [hok] at hreceive
    cases hreceive
  | @tunnelEnds channel ok hstatus =>
    refine ⟨hsound, by cases ok <;> simp, ?_⟩
    show ((s.worker.finish channel).unfinished ++ s.commands.map Command.channel).length ≤ 4
    rw [HonestWorker.unfinished_finish]
    exact (List.erase_sublist.append (List.Sublist.refl _)).length_le.trans hatMost

/-- Every run that opens a channel only when there is room keeps the capacity. -/
theorem Capacity.run {platform : Platform} (h : Trace (Steps config loads node (roomy node))
    (Session.start platform) ls s) : Capacity s := by
  refine h.invariant (I := fun _ s => Capacity s) ⟨.start platform, by simp [Session.start], ?_⟩
    (fun _ _ _ _ _ hcapacity hs =>
      hcapacity.turn (guard_of_steps hs) (turn_of_steps hs))
  simp [Session.start, outstanding]

/-- With more than four outstanding, the worker only has to read on before it has finished. -/
theorem refused_of_full (hstatus : s.status = .running)
    (hunfinished : s.worker.unfinished.length ≤ 4) (hfull : 4 < s.outstanding.length) :
    ∃ later s', Trace (Steps config loads node anyStep) s later s' ∧
      (∀ l ∈ later, l.1 = .receive) ∧ s'.status = .refused := by
  -- on the commands that the worker has not read yet
  generalize hcommands : s.commands = commands
  induction commands generalizing s with
  | nil =>
    rw [outstanding, hcommands, List.map_nil, List.append_nil] at hfull
    -- all that is outstanding would be with the worker, which holds four at most
    omega
  | cons message rest ih =>
    cases hreceive : s.worker.receive message with
    | error text =>
      have hs : Steps config loads node anyStep s (.receive, none)
          { s with commands := rest, status := .refused } := by
        simp [Steps, guarded, anyStep, step, hstatus, hcommands, hreceive]
      exact ⟨_, _, .snoc .nil hs, by simp, rfl⟩
    | ok worker =>
      -- one command less to read, and as many outstanding as before
      obtain ⟨hgrown, hroom⟩ := HonestWorker.unfinished_of_receive hreceive
      have hs : Steps config loads node anyStep s (.receive, none)
          { s with commands := rest, worker := worker } := by
        simp [Steps, guarded, anyStep, step, hstatus, hcommands, hreceive]
      have hlength : ({ s with commands := rest, worker := worker } : Session).outstanding.length
          = s.outstanding.length := by
        show (worker.unfinished ++ rest.map Command.channel).length = _
        rw [outstanding, hcommands, hgrown]
        simp only [List.length_append, List.length_map, List.length_cons]
        omega
      have hatMost : worker.unfinished.length ≤ 4 := by
        rw [hgrown, List.length_cons]
        omega
      obtain ⟨later, s', hlater, hreceives, hrefused⟩ :=
        @ih { s with commands := rest, worker := worker } hstatus hatMost (hlength ▸ hfull) rfl
      refine ⟨(.receive, none) :: later, s', .cons hs hlater, ?_, hrefused⟩
      intro l hl
      rcases List.mem_cons.mp hl with rfl | hl
      · rfl
      · exact hreceives l hl

/-- The relay's own count is enough as long as it has dropped no channel that is outstanding. -/
theorem roomy_of_pending (hsound : Sound s)
    (hpending : ∀ channel ∈ s.outstanding, (node, channel) ∈ s.relay.pending)
    (a : SessionAction) : roomy node s a = true := by
  have hle : s.outstanding.length ≤ s.relay.pendingCount node := by
    have hkeys : (s.outstanding.map (Prod.mk node)).Nodup :=
      hsound.distinct.map (fun _ _ h => (Prod.mk.inj h).2)
    have hsub : s.outstanding.map (Prod.mk node)
        ⊆ s.relay.pending.keys.filter (fun key => decide (key.1 = node)) := by
      intro key hmem
      obtain ⟨channel, hchannel, rfl⟩ := List.mem_map.mp hmem
      exact List.mem_filter.mpr ⟨AList.mem_keys.mpr (hpending channel hchannel), by simp⟩
    have hlength := (List.subperm_of_subset hkeys hsub).length_le
    rwa [List.length_map, ← List.countP_eq_length_filter] at hlength
  cases a with
  | relay action =>
    cases action with
    | connectLocal f n channel =>
      by_cases hfull : 4 ≤ s.relay.pendingCount node
      · simp [roomy, hfull]
      · have hroom : s.outstanding.length < 4 := by omega
        simp [roomy, hroom]
    | _ => rfl
  | _ => rfl

/-- An opening without room makes a refusal possible. -/
theorem full_of_opens {a : SessionAction} (hopens : opens node s a = true)
    (hroom : roomy node s a = false) (ht : Turn config loads node s a s') :
    s'.status = s.status ∧ s'.worker = s.worker ∧ 4 < s'.outstanding.length := by
  cases ht with
  | @relay action relay locals effect hnamed hstep =>
    cases action with
    | connectLocal f n channel =>
      obtain ⟨rfl, hpending⟩ : n = node ∧ s.relay.pendingCount node < 4 := by
        simpa [opens] using hopens
      have hfull : 4 ≤ s.outstanding.length := by
        simpa [roomy, Nat.not_le.mpr hpending] using hroom
      refine ⟨rfl, rfl, ?_⟩
      show 4 < (s.worker.unfinished ++ (s.commands ++ written n s.relay _).map
        Command.channel).length
      rw [written, if_pos ⟨rfl, hpending⟩]
      simp only [outstanding, List.length_append, List.length_map, List.length_cons,
        List.length_nil] at hfull ⊢
      omega
    | _ => cases hopens
  | _ => cases hopens

/-- **The channel limit.**  In a run in which the relay opens a channel only when fewer than
    four are outstanding, every command is received by a worker that has room for it.  When the
    relay opens one without room, in whatever run, the worker may refuse a command that is
    already on its way. -/
theorem channel_limit (config : Config) (loads : List UInt8 → Option Json) (node : String)
    (platform : Platform) :
    (∀ ls s, Trace (Steps config loads node (roomy node)) (start platform) ls s →
      Accepting s) ∧
    (∀ ls s l s', Trace (Steps config loads node anyStep) (start platform) ls s →
      Steps config loads node anyStep s l s' → s.status = .running →
      opens node s l.1 = true → roomy node s l.1 = false →
      ∃ later s'', Trace (Steps config loads node anyStep) s' later s'' ∧
        (∀ l ∈ later, l.1 = .receive) ∧ s''.status = .refused) := by
  refine ⟨fun ls s h => (Capacity.run h).accepting, fun ls s l s' h hs hstatus hopens hroom => ?_⟩
  obtain ⟨hsame, hworker, hfull⟩ := full_of_opens hopens hroom (turn_of_steps hs)
  exact refused_of_full (hsame.trans hstatus) (hworker ▸ (Sound.run h).unfinished) hfull

/-! ### One local connection after the other -/

/-- Five names of channels, as `uuid.uuid4().hex` may return them. -/
def channelNames : List String :=
  ["00000000000000000000000000000000", "00000000000000000000000000000001",
    "00000000000000000000000000000002", "00000000000000000000000000000003",
    "00000000000000000000000000000004"]

/-- What the two lines hold that the phone sends in the runs below. -/
def channelLoads (bytes : List UInt8) : Option Json :=
  if bytes = [1] then
    some (.dict [("kind", .str "control"), ("node", .str "iphone"), ("token", .str "secret"),
      ("runtime", .str "b9999"), ("budget_mib", .int 1536)])
  else if bytes = [2] then
    some (.dict [("kind", .str "data"), ("node", .str "iphone"), ("token", .str "secret"),
      ("channel", .str "00000000000000000000000000000000")])
  else none

/-- A local connection to the port of the node, for which the relay makes the next channel. -/
def connectLocal (f : ℕ) : SessionAction :=
  .relay (.connectLocal f "iphone" (channelNames.getD f ""))

/-- The worker joins, four local connections are opened and the worker reads the commands. -/
def fourChannels : List SessionAction :=
  [.relay (.connect 0 false "10.0.0.7"), .relay (.inbound 0 Relay.joinLine 0),
    .relay (.proceed 0 true), .relay (.proceed 0 true), connectLocal 0, connectLocal 1,
    connectLocal 2, connectLocal 3, .receive, .receive, .receive, .receive]

/-- The first of them is bridged, and its client closes it. -/
def firstCloses : List SessionAction :=
  [.relay (.connect 1 false "10.0.0.7"), .relay (.inbound 1 Relay.offerLine 0),
    .relay (.proceedForward 0 true), .relay (.proceed 1 true), .relay (.proceedForward 0 true),
    .relay (.proceedForward 0 true), .relay (.proceedForward 0 true)]

/-- A run with at most four local connections at a time has no command refused. -/
def NeverRefused (platform : Platform) : Prop :=
  ∀ (config : Config) (loads : List UInt8 → Option Json) (node : String)
    (ls : List (SessionAction × Option Effect)) (s : Session),
    Trace (Steps config loads node (atMostFour node)) (start platform) ls s → Accepting s

/-- The first connection is closed and its entry dropped before its tunnel has ended; then a
    fifth one is opened. -/
theorem not_neverRefused_of_status {platform : Platform}
    (h : (Trace.perform (guarded Relay.onePhone channelLoads "iphone" (atMostFour "iphone"))
      (start platform) (fourChannels ++ firstCloses ++ [connectLocal 4, .receive])).map
        (fun result => result.2.status) = some .refused) : ¬ NeverRefused platform := by
  intro hnever
  obtain ⟨⟨ls, s⟩, hrun, hrefused⟩ := Option.map_eq_some_iff.mp h
  exact (hnever _ _ _ ls s (Trace.of_perform hrun)).served hrefused

/-- On each of the three platforms a run can lead to a fifth tunnel, and so to the end of the
    session. -/
theorem fifth_tunnel :
    ¬ NeverRefused .laptop ∧ ¬ NeverRefused .android ∧ ¬ NeverRefused .ios :=
  ⟨not_neverRefused_of_status (by decide +kernel), not_neverRefused_of_status (by decide +kernel),
    not_neverRefused_of_status (by decide +kernel)⟩

/-- When the tunnel ends before the fifth connection is opened, its command is served. -/
theorem channel_limit_first_ended : ∃ ls s,
    Trace (Steps Relay.onePhone channelLoads "iphone" (roomy "iphone")) (start .android) ls s ∧
      s.commands.length = 1 ∧ Accepting s := by
  have hperform : (Trace.perform
      (guarded Relay.onePhone channelLoads "iphone" (roomy "iphone")) (start .android)
      (fourChannels ++ firstCloses ++
        [.tunnelEnds "00000000000000000000000000000000" true, connectLocal 4])).map
      (fun result => result.2.commands.length) = some 1 := by
    decide +kernel
  obtain ⟨⟨ls, s⟩, hrun, hone⟩ := Option.map_eq_some_iff.mp hperform
  have htrace : Trace (Steps Relay.onePhone channelLoads "iphone" (roomy "iphone"))
    (start .android) ls s := Trace.of_perform hrun
  exact ⟨ls, s, htrace, hone, (channel_limit _ _ _ _).1 ls s htrace⟩

end Session

end ShareCompute.Cluster
