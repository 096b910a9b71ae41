import ShareCompute.Cluster.Relay

namespace ShareCompute.Cluster

open ShareCompute.Library

/-!
# Admission and channel binding

What holds of the relay for every interleaving of its handlers.

* `examine_control`, `examine_data` — what the checks on a first message amount to.
* `AcceptedBy`, `Solicited` — facts about the labels so far, which later steps cannot undo.
* `ChannelInvariant` — channels are never reused, so a pending entry, its future and a
  handler that is about to complete it always belong together.
* `relay_admission` — the law.
-/

/-- What the environment did and what became visible. -/
abbrev Label := Action × Option Effect

namespace Relay

variable (config : Config) (loads : List UInt8 → Option Json)

/-- The relay as a labelled transition system. -/
def Step (s : Relay) (l : Label) (s' : Relay) : Prop := s.step config loads l.1 = some (s', l.2)

/-- An interleaving: the labels of the steps so far and the relay they led to. -/
abbrev Run (ls : List Label) (s : Relay) : Prop := Trace (Step config loads) init ls s

/-! ### First messages -/

/-- A first message that lets a worker join. -/
structure ControlHello (node : String) (pair : Pair) (hello : Dict) : Prop extends
    Authentic config node pair hello where
  kind : hello.get "kind" = .str "control"
  runtime : hello.get "runtime" = .str config.rev
  budget : (hello.get "budget_mib").isInt pair.budgetMib = true

/-- A first message that offers a data connection for a channel. -/
structure DataHello (node : String) (pair : Pair) (channel : String) (hello : Dict) : Prop extends
    Authentic config node pair hello where
  kind : hello.get "kind" = .str "data"
  channel : hello.get "channel" = .str channel

variable {config loads} {s s' : Relay} {ls : List Label} {l : Label}

/-- A first message is admitted as a control connection only with the node's own token, for a node
    that is not known yet, and over TLS. -/
theorem examine_control {plain : Bool} {hello : Dict} {node : String}
    (h : s.examine config plain hello = .ok (.control node)) :
    plain = false ∧ node ∉ s.nodes ∧ ∃ pair, ControlHello config node pair hello := by
  unfold examine at h
  split at h
  · simp at h
  case h_2 node' pair hauthentic =>
    split at h
    case isTrue hkind =>
      split at h
      · simp at h
      split at h
      · simp at h
      split at h
      · simp at h
      rename_i hplain hnode hmatch
      obtain rfl := Admission.control.inj (Except.ok.inj h)
      simp only [Bool.or_eq_true, Bool.not_eq_true', not_or, Bool.not_eq_false,
        Json.isStr_iff] at hmatch hkind
      exact ⟨by simpa using hplain, hnode, pair,
        ⟨authentic_of_authenticate hauthentic, hkind, hmatch.1, hmatch.2⟩⟩
    case isFalse =>
      split at h
      · split at h
        · split at h
          · simp at h
          · split at h <;> simp at h
        · simp at h
      · simp at h

/-- A first message is admitted as a data connection only with the node's token and for a channel
    that is waited for. -/
theorem examine_data {plain : Bool} {hello : Dict} {node channel : String} {f : ℕ}
    (h : s.examine config plain hello = .ok (.data node channel f)) :
    (∃ pair, DataHello config node pair channel hello) ∧
      s.pending.lookup (node, channel) = some f ∧ s.done f = false := by
  unfold examine at h
  split at h
  · simp at h
  case h_2 node' pair hauthentic =>
    split at h
    case isTrue =>
      split at h
      · simp at h
      · split at h
        · simp at h
        · split at h <;> simp at h
    case isFalse =>
      split at h
      case isFalse => simp at h
      case isTrue hkind =>
        split at h
        case h_2 => simp at h
        case h_1 channel' hchannel =>
          split at h
          · simp at h
          case h_2 future hpending =>
            split at h
            · simp at h
            · rename_i hdone
              obtain ⟨rfl, rfl, rfl⟩ := Admission.data.inj (Except.ok.inj h)
              refine ⟨⟨pair, authentic_of_authenticate hauthentic, ?_, hchannel⟩, hpending, ?_⟩
              · exact Json.isStr_iff.mp hkind
              · simpa using hdone

/-! ### Connections -/

/-- A handler after one was set is the new one, or was there before. -/
theorem setHandler_cases {c c₀ : ℕ} {handler handler₀ : Handler}
    (h : (s.setHandler c₀ handler₀).handlers c = some handler) :
    (c = c₀ ∧ handler = handler₀) ∨ s.handlers c = some handler := by
  rw [setHandler_handlers] at h
  by_cases hc : c = c₀
  · subst hc
    rw [Function.update_self] at h
    exact .inl ⟨rfl, (Option.some.inj h).symm⟩
  · rw [Function.update_of_ne hc] at h
    exact .inr h

/-- The handler keeps what it knows of its connection, and acknowledges no data connection that
    it did not acknowledge before. -/
structure Continues (handler handler' : Handler) : Prop where
  plain : handler'.plain = handler.plain
  peer : handler'.peer = handler.peer
  acknowledging : ∀ node channel f, handler'.point = .acknowledging node channel f →
    handler.point = .acknowledging node channel f

/-- A handler that did not move continues itself. -/
theorem Continues.refl (handler : Handler) : Continues handler handler :=
  ⟨rfl, rfl, fun _ _ _ => id⟩

/-- `completed.set()` only wakes a handler, and changes nothing else of it. -/
theorem handlers_complete {remote c : ℕ} {handler' : Handler}
    (h : (s.complete remote).handlers c = some handler') :
    ∃ handler, s.handlers c = some handler ∧ Continues handler handler' := by
  unfold complete at h
  split at h
  case h_2 => exact ⟨handler', h, .refl _⟩
  case h_1 handler hhandler =>
    split at h
    case isFalse => exact ⟨handler', h, .refl _⟩
    case isTrue =>
      rcases setHandler_cases h with ⟨rfl, rfl⟩ | h
      · exact ⟨handler, hhandler, rfl, rfl, by simp⟩
      · exact ⟨handler', h, .refl _⟩

/-- When a forward ends, every handler continues from where it was. -/
theorem handlers_finish {f c : ℕ} {frame : Forward} {handler' : Handler}
    (h : (s.finish f frame).handlers c = some handler') :
    ∃ handler, s.handlers c = some handler ∧ Continues handler handler' := by
  unfold finish at h
  rw [setForward_handlers] at h
  split at h
  · have hcomplete := handlers_complete h
    exact hcomplete
  · exact ⟨handler', h, .refl _⟩

variable (config loads) in
/-- The step lets in a message on connection `c`, as a data connection for `channel`. -/
def Admits (s : Relay) (l : Label) (c : ℕ) (plain : Bool) (node channel : String) (f : ℕ) : Prop :=
  l.2 = none ∧ ∃ inbound now hello, l.1 = .inbound c inbound now ∧
    receive loads inbound = .ok hello ∧
    s.examine config plain hello = .ok (.data node channel f)

variable (config loads) in
/-- Where the handler of connection `c` comes from. -/
inductive HandlerChange (s : Relay) (l : Label) (c : ℕ) (handler' : Handler) : Prop
  | accepted (hlabel : l = (.connect c handler'.plain handler'.peer, none))
      (hpoint : handler'.point = .receiving)
  | continued {handler : Handler} (h : s.handlers c = some handler)
      (hcontinues : Continues handler handler')
  | admitted {handler : Handler} {node channel : String} {f : ℕ}
      (h : s.handlers c = some handler) (hplain : handler'.plain = handler.plain)
      (hpeer : handler'.peer = handler.peer)
      (hpoint : handler'.point = .acknowledging node channel f)
      (hadmits : Admits config loads s l c handler.plain node channel f)

/-- A move changes a handler in one of the listed ways, or the handler continues. -/
theorem Move.handler_change {a : Action} {e : Option Effect} {c : ℕ} {handler' : Handler}
    (hm : Move config loads s a s' e) (hc : s'.handlers c = some handler') :
    HandlerChange config loads s (a, e) c handler' := by
  -- the handlers of the other connections are as before
  have hsame : s.handlers c = some handler' → HandlerChange config loads s (a, e) c handler' :=
    fun h => .continued h (.refl _)
  cases hm with
  | @connect c₀ plain peer h =>
    rcases setHandler_cases hc with ⟨rfl, rfl⟩ | hc
    · exact .accepted rfl rfl
    · exact hsame hc
  | @advance _ c₀ handler handler₁ failure h hplain hpeer hquiet =>
    rcases setHandler_cases hc with ⟨rfl, rfl⟩ | hc
    · exact .continued h ⟨hplain, hpeer, fun _ _ _ hpoint => absurd hpoint (hquiet _ _ _)⟩
    · exact hsame hc
  | @join c₀ handler node hello inbound now h hpoint hreceive hexamine =>
    rcases setHandler_cases hc with ⟨rfl, rfl⟩ | hc
    · exact .continued h ⟨rfl, rfl, by simp⟩
    · exact hsame hc
  | @solicit c₀ f handler node channel hello inbound now h hpoint hreceive hexamine =>
    rcases setHandler_cases hc with ⟨rfl, rfl⟩ | hc
    · exact .admitted h rfl rfl rfl ⟨rfl, inbound, now, hello, rfl, hreceive, hexamine⟩
    · exact hsame hc
  | @bind c₀ f handler node channel frame h hpoint hframe hpending =>
    rcases setHandler_cases hc with ⟨rfl, rfl⟩ | hc
    · exact .continued h ⟨rfl, rfl, by simp⟩
    · exact hsame hc
  | finish failure h =>
    obtain ⟨handler, hhandler, hcontinues⟩ := handlers_finish hc
    exact .continued hhandler hcontinues
  | report | copied =>
    rw [modifyRecord_handlers] at hc
    exact hsame hc
  | refuse | openChannel | advanceForward | bridge | stop => exact hsame hc

/-- Every handler belongs to a connection that was accepted, by the listener it says. -/
theorem accepted (h : Run config loads ls s) :
    ∀ c handler, s.handlers c = some handler →
      (Action.connect c handler.plain handler.peer, none) ∈ ls := by
  refine Trace.invariant (I := fun ls s => ∀ c handler, s.handlers c = some handler →
    (Action.connect c handler.plain handler.peer, none) ∈ ls) (by simp [init]) ?_ h
  intro ls s l s' _ ih hs c handler' hc
  rw [List.mem_append, List.mem_singleton]
  cases (move_of_step hs).handler_change hc with
  | accepted hlabel => exact .inr hlabel.symm
  | continued hold hcontinues =>
    rw [hcontinues.plain, hcontinues.peer]
    exact .inl (ih c _ hold)
  | admitted hold hplain hpeer =>
    rw [hplain, hpeer]
    exact .inl (ih c _ hold)

/-! ### Local connections -/

/-- `forward` has got as far as its bridge, or has given up before. -/
def Past (point : ForwardPoint) : Prop := point ≠ .opening ∧ point ≠ .waiting

/-- What can become of the `forward` named `f`. -/
inductive ForwardChange (s s' : Relay) (l : Label) (f : ℕ) : Prop
  | same (h : s'.forwards f = s.forwards f)
  | opened {frame' : Forward} (h : s.forwards f = none) (h' : s'.forwards f = some frame')
      (hlabel : l.1 = .connectLocal f frame'.node frame'.channel)
      (hfresh : frame'.channel ∉ s.issued) (hissued : frame'.channel ∈ s'.issued)
      (hresult : ∀ c, frame'.future ≠ .result c) (hbridging : ∀ c, frame'.point ≠ .bridging c)
  | bound {frame : Forward} {c : ℕ} {handler : Handler} {node channel : String}
      (h : s.forwards f = some frame) (h' : s'.forwards f = some { frame with future := .result c })
      (hpending : frame.future = .pending)
      (hhandler : s.handlers c = some handler)
      (hpoint : handler.point = .acknowledging node channel f)
      (hlabel : l.2 = some (.bound node channel c))
  | advanced {frame frame' : Forward} (h : s.forwards f = some frame)
      (h' : s'.forwards f = some frame') (hnode : frame'.node = frame.node)
      (hchannel : frame'.channel = frame.channel)
      (hresult : ∀ c, frame'.future = .result c ↔ frame.future = .result c)
      (hpast : Past frame.point → Past frame'.point)
      (hbridging : ∀ c, frame'.point = .bridging c → frame.future = .result c)

/-- An interruption does not touch a future that already has a result. -/
theorem interrupted_result (frame : Forward) (c : ℕ) :
    (interrupted frame).future = .result c ↔ frame.future = .result c := by
  unfold interrupted
  split
  case isTrue h => simp [h.2]
  case isFalse => exact Iff.rfl

/-- A move changes a forward in one of the listed ways. -/
theorem Move.forward_change {a : Action} {e : Option Effect}
    (hm : Move config loads s a s' e) (f : ℕ) : ForwardChange s s' (a, e) f := by
  -- a step moves one `forward` at most; the others are as before
  cases hm with
  | connect | advance | join | solicit | stop => exact .same rfl
  | report => exact .same (by rw [modifyRecord_forwards])
  | copied => exact .same (by rw [modifyRecord_forwards])
  | @bind c f₀ handler node channel frame h hpoint hframe hpending =>
    by_cases hne : f = f₀
    · subst hne
      exact .bound hframe (Function.update_self ..) hpending h hpoint rfl
    · exact .same (Function.update_of_ne hne ..)
  | @refuse f₀ node channel h hnode hfresh =>
    by_cases hne : f = f₀
    · subst hne
      exact .opened h (Function.update_self ..) rfl hfresh (List.mem_cons_self ..)
        (by simp) (by simp)
    · exact .same (Function.update_of_ne hne ..)
  | @openChannel f₀ node channel h hnode hfresh hroom =>
    by_cases hne : f = f₀
    · subst hne
      exact .opened h (Function.update_self ..) rfl hfresh (List.mem_cons_self ..)
        (by simp) (by simp)
    · exact .same (Function.update_of_ne hne ..)
  | @advanceForward _ f₀ frame point h hpoint =>
    by_cases hne : f = f₀
    · subst hne
      refine .advanced h (Function.update_self ..) rfl rfl (fun _ => Iff.rfl) ?_ ?_
      all_goals rcases hpoint with ⟨hfrom, rfl⟩ | ⟨hfrom, rfl⟩ <;> simp [Past, hfrom]
    · exact .same (Function.update_of_ne hne ..)
  | @bridge f₀ remote frame h hpoint hresult =>
    by_cases hne : f = f₀
    · subst hne
      refine .advanced h (Function.update_self ..) rfl rfl (fun _ => Iff.rfl) ?_ ?_
      · simp [Past]
      · intro c hc
        rw [hresult, ForwardPoint.bridging.inj hc]
    · exact .same (Function.update_of_ne hne ..)
  | @finish _ f₀ frame failure h =>
    by_cases hne : f = f₀
    · subst hne
      have h' : ({ s with failure := failure }.finish f (interrupted frame)).forwards f =
          some { interrupted frame with point := .closing } := by
        rw [finish_forwards, Function.update_self]
      refine .advanced h h'
        (interrupted_node frame) (interrupted_channel frame) (interrupted_result frame) ?_ ?_
      all_goals simp [Past]
    · exact .same (by rw [finish_forwards]; exact Function.update_of_ne hne ..)

/-- The `forward` keeps its node, its channel and its result, and does not go back to before its
    bridge. -/
structure Persists (frame frame' : Forward) : Prop where
  node : frame'.node = frame.node
  channel : frame'.channel = frame.channel
  result : ∀ c, frame.future = .result c → frame'.future = .result c
  past : Past frame.point → Past frame'.point

/-- A `forward` that is there stays, and so do its node and its channel. -/
theorem ForwardChange.persists {l : Label} {f : ℕ} {frame : Forward}
    (h : ForwardChange s s' l f) (hf : s.forwards f = some frame) :
    ∃ frame', s'.forwards f = some frame' ∧ Persists frame frame' := by
  cases h with
  | same h => exact ⟨frame, h.trans hf, rfl, rfl, fun _ => id, id⟩
  | opened h => simp [h] at hf
  | bound h h' hpending =>
    obtain rfl := Option.some.inj (h.symm.trans hf)
    exact ⟨_, h', rfl, rfl, by simp [hpending], id⟩
  | advanced h h' hnode hchannel hresult hpast =>
    obtain rfl := Option.some.inj (h.symm.trans hf)
    exact ⟨_, h', hnode, hchannel, fun c => (hresult c).mpr, hpast⟩

/-- A `forward` was there before, or its channel is new. -/
theorem ForwardChange.origin {l : Label} {f : ℕ} {frame' : Forward}
    (h : ForwardChange s s' l f) (hf : s'.forwards f = some frame') :
    (∃ frame, s.forwards f = some frame ∧ frame'.node = frame.node ∧
      frame'.channel = frame.channel) ∨
    (l.1 = .connectLocal f frame'.node frame'.channel ∧ frame'.channel ∉ s.issued ∧
      frame'.channel ∈ s'.issued) := by
  cases h with
  | same h => exact .inl ⟨frame', h.symm.trans hf, rfl, rfl⟩
  | opened h h' hlabel hfresh hissued =>
    obtain rfl := Option.some.inj (h'.symm.trans hf)
    exact .inr ⟨hlabel, hfresh, hissued⟩
  | bound h h' =>
    obtain rfl := Option.some.inj (h'.symm.trans hf)
    exact .inl ⟨_, h, rfl, rfl⟩
  | advanced h h' hnode hchannel =>
    obtain rfl := Option.some.inj (h'.symm.trans hf)
    exact .inl ⟨_, h, hnode, hchannel⟩

/-- A name that was issued is never forgotten. -/
theorem Move.issued_subset {a : Action} {e : Option Effect} (hm : Move config loads s a s' e) :
    s.issued ⊆ s'.issued := by
  cases hm with
  | refuse | openChannel => exact List.subset_cons_self _ _
  | report | copied => rw [modifyRecord_issued]; exact List.Subset.refl _
  | finish => rw [finish_issued]; exact List.Subset.refl _
  | _ => exact List.Subset.refl _

/-- A pending entry was there before, or is that of a `forward` that has just begun. -/
theorem Move.pending_origin {a : Action} {e : Option Effect} {key : String × String} {f : ℕ}
    (hm : Move config loads s a s' e) (h : s'.pending.lookup key = some f) :
    s.pending.lookup key = some f ∨
      s'.forwards f = some ⟨key.1, key.2, .pending, .opening⟩ := by
  cases hm with
  | @openChannel f₀ node channel =>
    by_cases hkey : key = (node, channel)
    · subst hkey
      rw [setForward_pending, AList.lookup_insert] at h
      obtain rfl := Option.some.inj h
      exact .inr (Function.update_self ..)
    · rw [setForward_pending, AList.lookup_insert_ne hkey] at h
      exact .inl h
  | @finish _ f₀ frame =>
    rw [finish_pending] at h
    by_cases hkey : key = (frame.node, frame.channel)
    · subst hkey
      simp [AList.lookup_erase] at h
    · rw [interrupted_node, interrupted_channel, AList.lookup_erase_ne hkey] at h
      exact .inl h
  | report | copied =>
    rw [modifyRecord_pending] at h
    exact .inl h
  | _ => exact .inl h

/-! ### Channels -/

variable (config loads) in
/-- Among the steps so far is one at which connection `c`, with the token of `node`, offered
    itself for `channel` while that was pending. -/
def Solicited (ls : List Label) (node channel : String) (c : ℕ) : Prop :=
  ∃ pre post s₁ inbound now hello pair f,
    ls = pre ++ (Action.inbound c inbound now, none) :: post ∧ Run config loads pre s₁ ∧
    receive loads inbound = .ok hello ∧ DataHello config node pair channel hello ∧
    s₁.pending.lookup (node, channel) = some f ∧ s₁.done f = false

/-- What was solicited stays so along the rest of the run. -/
theorem Solicited.append {node channel : String} {c : ℕ}
    (h : Solicited config loads ls node channel c) (ls' : List Label) :
    Solicited config loads (ls ++ ls') node channel c := by
  obtain ⟨pre, post, s₁, inbound, now, hello, pair, f, rfl, h⟩ := h
  exact ⟨pre, post ++ ls', s₁, inbound, now, hello, pair, f, by simp, h⟩

/-- The labels that show a new record, a completed future and a bridge. -/
def creates (node : String) (l : Label) : Bool :=
  match l.2 with
  | some (.recordCreated node' _) => decide (node' = node)
  | _ => false

/-- The label says that this channel of this node was bound to a data connection. -/
def binds (node channel : String) (l : Label) : Bool :=
  match l.2 with
  | some (.bound node' channel' _) => decide (node' = node ∧ channel' = channel)
  | _ => false

/-- The label says that this channel of this node was bridged. -/
def bridges (node channel : String) (l : Label) : Bool :=
  match l.2 with
  | some (.bridged node' channel' _) => decide (node' = node ∧ channel' = channel)
  | _ => false

/-- A label creates a record exactly if its effect is the creation of one for that node. -/
theorem creates_iff {node : String} {l : Label} :
    creates node l = true ↔ ∃ c, l.2 = some (.recordCreated node c) := by
  unfold creates
  split
  case h_1 node' c heq => simp [heq]
  case h_2 hnone => simpa using fun c heq => hnone node c heq

/-- A label binds a channel exactly if its effect is that binding. -/
theorem binds_iff {node channel : String} {l : Label} :
    binds node channel l = true ↔ ∃ c, l.2 = some (.bound node channel c) := by
  unfold binds
  split
  case h_1 node' channel' c heq => simp [heq]
  case h_2 hnone => simpa using fun c heq => hnone node channel c heq

/-- A label bridges a channel exactly if its effect is that bridging. -/
theorem bridges_iff {node channel : String} {l : Label} :
    bridges node channel l = true ↔ ∃ c, l.2 = some (.bridged node channel c) := by
  unfold bridges
  split
  case h_1 node' channel' c heq => simp [heq]
  case h_2 hnone => simpa using fun c heq => hnone node channel c heq

/-- How entries, futures, handlers and labels belong together. -/
structure ChannelInvariant (config : Config) (loads : List UInt8 → Option Json)
    (ls : List Label) (s : Relay) : Prop where
  issued : ∀ f frame, s.forwards f = some frame → frame.channel ∈ s.issued
  /-- no two `forward`s have the same channel -/
  unique : ∀ f f' frame frame', s.forwards f = some frame → s.forwards f' = some frame' →
    frame.channel = frame'.channel → f = f'
  owner : ∀ key f, s.pending.lookup key = some f →
    ∃ frame, s.forwards f = some frame ∧ frame.node = key.1 ∧ frame.channel = key.2
  acknowledging : ∀ c handler node channel f, s.handlers c = some handler →
    handler.point = .acknowledging node channel f → Solicited config loads ls node channel c ∧
      ∃ frame, s.forwards f = some frame ∧ frame.node = node ∧ frame.channel = channel
  resolved : ∀ f frame c, s.forwards f = some frame → frame.future = .result c →
    Solicited config loads ls frame.node frame.channel c ∧
      ∃ l ∈ ls, l.2 = some (.bound frame.node frame.channel c)
  bridging : ∀ f frame c, s.forwards f = some frame → frame.point = .bridging c →
    frame.future = .result c

/-- Before the first step no channel is pending, so the invariant holds. -/
theorem ChannelInvariant.init : ChannelInvariant config loads [] init where
  issued := by simp [Relay.init]
  unique := by simp [Relay.init]
  owner := by simp [Relay.init]
  acknowledging := by simp [Relay.init]
  resolved := by simp [Relay.init]
  bridging := by simp [Relay.init]

/-- The channel of a `forward` that has just begun differs from all others. -/
theorem ChannelInvariant.unique_step (I : ChannelInvariant config loads ls s) {a : Action}
    {e : Option Effect} (hm : Move config loads s a s' e) {f₁ f₂ : ℕ} {frame₁ frame₂ : Forward}
    (hf₁ : s'.forwards f₁ = some frame₁) (hf₂ : s'.forwards f₂ = some frame₂)
    (heq : frame₁.channel = frame₂.channel) : f₁ = f₂ := by
  rcases (hm.forward_change f₁).origin hf₁ with ⟨frame, hold, -, hchannel⟩ | ⟨hl, hnew, -⟩
  · rcases (hm.forward_change f₂).origin hf₂ with ⟨frame', hold', -, hchannel'⟩ | ⟨-, hnew', -⟩
    · exact I.unique _ _ _ _ hold hold' (by rw [← hchannel, ← hchannel', heq])
    · -- a channel that was issued is not issued again
      rw [← heq, hchannel] at hnew'
      exact absurd (I.issued f₁ frame hold) hnew'
  · rcases (hm.forward_change f₂).origin hf₂ with ⟨frame', hold', -, hchannel'⟩ | ⟨hl', -, -⟩
    · rw [heq, hchannel'] at hnew
      exact absurd (I.issued f₂ frame' hold') hnew
    · -- one step begins one `forward`
      exact (Action.connectLocal.inj (hl.symm.trans hl')).1

/-- A `forward` keeps its node and its channel. -/
theorem Move.forward_stays {a : Action} {e : Option Effect} (hm : Move config loads s a s' e)
    {f : ℕ} {node channel : String}
    (h : ∃ frame, s.forwards f = some frame ∧ frame.node = node ∧ frame.channel = channel) :
    ∃ frame, s'.forwards f = some frame ∧ frame.node = node ∧ frame.channel = channel := by
  obtain ⟨frame, hframe, rfl, rfl⟩ := h
  obtain ⟨frame', hframe', hpersists⟩ := (hm.forward_change f).persists hframe
  exact ⟨frame', hframe', hpersists.node, hpersists.channel⟩

/-- A data connection that is let in has offered itself for a channel that is pending. -/
theorem solicited_of_admits (htrace : Run config loads ls s) {c f : ℕ} {plain : Bool}
    {node channel : String} (h : Admits config loads s l c plain node channel f) :
    Solicited config loads (ls ++ [l]) node channel c ∧
      s.pending.lookup (node, channel) = some f := by
  obtain ⟨a, e⟩ := l
  obtain ⟨rfl, inbound, now, hello, rfl, hreceive, hexamine⟩ := h
  obtain ⟨⟨pair, hdata⟩, hpending, hdone⟩ := examine_data hexamine
  exact ⟨⟨ls, [], s, inbound, now, hello, pair, f, rfl, htrace, hreceive, hdata, hpending, hdone⟩,
    hpending⟩

/-- After a step, a handler that is about to complete a channel was solicited, and the forward still
    waits for it. -/
theorem ChannelInvariant.acknowledging_step (I : ChannelInvariant config loads ls s)
    (htrace : Run config loads ls s) {a : Action} {e : Option Effect}
    (hm : Move config loads s a s' e) {c f : ℕ} {handler' : Handler} {node channel : String}
    (hc : s'.handlers c = some handler') (hpoint : handler'.point = .acknowledging node channel f) :
    Solicited config loads (ls ++ [(a, e)]) node channel c ∧
      ∃ frame, s'.forwards f = some frame ∧ frame.node = node ∧ frame.channel = channel := by
  cases hm.handler_change hc with
  | accepted hlabel hreceiving => simp [hreceiving] at hpoint
  | continued hold hcontinues =>
    obtain ⟨hsolicited, hframe⟩ :=
      I.acknowledging c _ node channel f hold (hcontinues.acknowledging _ _ _ hpoint)
    exact ⟨hsolicited.append _, hm.forward_stays hframe⟩
  | admitted hold hplain hpeer hpoint' hadmits =>
    obtain ⟨rfl, rfl, rfl⟩ := AcceptPoint.acknowledging.inj (hpoint.symm.trans hpoint')
    obtain ⟨hsolicited, hpending⟩ := solicited_of_admits htrace hadmits
    exact ⟨hsolicited, hm.forward_stays (I.owner _ f hpending)⟩

/-- After a step, a future with a result was bound to the connection of that result. -/
theorem ChannelInvariant.resolved_step (I : ChannelInvariant config loads ls s) {a : Action}
    {e : Option Effect} (hm : Move config loads s a s' e) {c f : ℕ} {frame' : Forward}
    (hf : s'.forwards f = some frame') (hresult : frame'.future = .result c) :
    Solicited config loads (ls ++ [(a, e)]) frame'.node frame'.channel c ∧
      ∃ l ∈ ls ++ [(a, e)], l.2 = some (.bound frame'.node frame'.channel c) := by
  have hold : ∀ frame, s.forwards f = some frame → frame.future = .result c →
      Solicited config loads (ls ++ [(a, e)]) frame.node frame.channel c ∧
        ∃ l ∈ ls ++ [(a, e)], l.2 = some (.bound frame.node frame.channel c) := by
    intro frame hframe hfuture
    obtain ⟨hsolicited, l, hl, heffect⟩ := I.resolved f frame c hframe hfuture
    exact ⟨hsolicited.append _, l, List.mem_append_left _ hl, heffect⟩
  cases hm.forward_change f with
  | same h => exact hold frame' (h.symm.trans hf) hresult
  | opened h h' hlabel hfresh hissued hnone =>
    obtain rfl := Option.some.inj (h'.symm.trans hf)
    exact absurd hresult (hnone c)
  | @bound frame c' handler node channel h h' hpending hhandler hpoint hlabel =>
    -- the connection that completes the future is the one that was let in for it
    obtain rfl := Option.some.inj (h'.symm.trans hf)
    obtain rfl := Future.result.inj hresult
    obtain ⟨hsolicited, frame₁, hframe₁, rfl, rfl⟩ :=
      I.acknowledging c' handler node channel f hhandler hpoint
    obtain rfl := Option.some.inj (h.symm.trans hframe₁)
    exact ⟨hsolicited.append _, (a, e), by simp, hlabel⟩
  | advanced h h' hnode hchannel hiff =>
    obtain rfl := Option.some.inj (h'.symm.trans hf)
    rw [hnode, hchannel]
    exact hold _ h ((hiff c).mp hresult)

/-- After a step, a forward that bridges has the connection as the result of its future. -/
theorem ChannelInvariant.bridging_step (I : ChannelInvariant config loads ls s) {a : Action}
    {e : Option Effect} (hm : Move config loads s a s' e) {c f : ℕ} {frame' : Forward}
    (hf : s'.forwards f = some frame') (hpoint : frame'.point = .bridging c) :
    frame'.future = .result c := by
  cases hm.forward_change f with
  | same h => exact I.bridging f frame' c (h.symm.trans hf) hpoint
  | opened h h' hlabel hfresh hissued hnone hbridging =>
    obtain rfl := Option.some.inj (h'.symm.trans hf)
    exact absurd hpoint (hbridging c)
  | bound h h' hpending =>
    -- a `forward` that bridges has its result, so its future is not pending
    obtain rfl := Option.some.inj (h'.symm.trans hf)
    exact absurd (I.bridging f _ c h hpoint) (by simp [hpending])
  | advanced h h' hnode hchannel hiff hpast hbridging =>
    obtain rfl := Option.some.inj (h'.symm.trans hf)
    exact (hiff c).mpr (hbridging c hpoint)

/-- **One step** keeps it, by the cases of what the step does to handlers and forwards. -/
theorem ChannelInvariant.step (htrace : Run config loads ls s)
    (I : ChannelInvariant config loads ls s) (hs : Step config loads s l s') :
    ChannelInvariant config loads (ls ++ [l]) s' := by
  obtain ⟨a, e⟩ := l
  have hm : Move config loads s a s' e := move_of_step hs
  constructor
  case issued =>
    intro f frame' hf
    rcases (hm.forward_change f).origin hf with ⟨frame, hold, -, hchannel⟩ | ⟨-, -, hissued⟩
    · rw [hchannel]
      exact hm.issued_subset (I.issued f frame hold)
    · exact hissued
  case unique => exact fun _ _ _ _ hf₁ hf₂ heq => I.unique_step hm hf₁ hf₂ heq
  case owner =>
    intro key f hkey
    rcases hm.pending_origin hkey with hold | hnew
    · exact hm.forward_stays (I.owner key f hold)
    · exact ⟨_, hnew, rfl, rfl⟩
  case acknowledging =>
    exact fun _ _ _ _ _ hc hpoint => I.acknowledging_step htrace hm hc hpoint
  case resolved => exact fun _ _ _ hf hresult => I.resolved_step hm hf hresult
  case bridging => exact fun _ _ _ hf hpoint => I.bridging_step hm hf hpoint

/-- The invariant of the channels holds along every run, by induction over its steps. -/
theorem channelInvariant (h : Run config loads ls s) : ChannelInvariant config loads ls s :=
  Trace.invariant (I := ChannelInvariant config loads) .init
    (fun _ _ _ _ htrace ih hs => ih.step htrace hs) h

/-- A future is completed while it is pending, for the channel of its `forward`. -/
theorem bound_step {node channel : String} {c : ℕ} (h : Run config loads ls s)
    (hs : Step config loads s l s') (hl : l.2 = some (.bound node channel c)) :
    Solicited config loads ls node channel c ∧ ∃ f frame, s.forwards f = some frame ∧
      frame.node = node ∧ frame.channel = channel ∧ frame.future = .pending ∧
      s'.forwards f = some { frame with future := .result c } := by
  obtain ⟨a, e⟩ := l
  obtain rfl : e = _ := hl
  cases move_of_step hs with
  | bind hhandler hpoint hframe hpending =>
    obtain ⟨hsolicited, frame, hframe', hnode, hchannel⟩ :=
      (channelInvariant h).acknowledging _ _ _ _ _ hhandler hpoint
    obtain rfl := Option.some.inj (hframe.symm.trans hframe')
    exact ⟨hsolicited, _, _, hframe, hnode, hchannel, hpending, Function.update_self ..⟩

/-- A bridge is entered with the result of the future. -/
theorem bridged_step {node channel : String} {c : ℕ}
    (hs : Step config loads s l s') (hl : l.2 = some (.bridged node channel c)) :
    ∃ f frame, s.forwards f = some frame ∧ frame.node = node ∧ frame.channel = channel ∧
      frame.point = .waiting ∧ frame.future = .result c ∧
      s'.forwards f = some { frame with point := .bridging c } := by
  obtain ⟨a, e⟩ := l
  obtain rfl : e = _ := hl
  cases move_of_step hs with
  | bridge hframe hpoint hresult =>
    exact ⟨_, _, hframe, rfl, rfl, hpoint, hresult, Function.update_self ..⟩

/-- **Once for each channel.**  An event that turns its `forward` from not `Q` to `Q` occurs at
    most once for a channel, when a `forward` that is `Q` stays so: the channel belongs to one
    `forward` only. -/
theorem once_of_channel (node channel : String) {p : Label → Bool} {Q : Forward → Prop}
    (hturns : ∀ {ls s l s'}, Run config loads ls s → Step config loads s l s' → p l = true →
      ∃ f frame frame', s.forwards f = some frame ∧ s'.forwards f = some frame' ∧
        frame.node = node ∧ frame.channel = channel ∧ Persists frame frame' ∧
        ¬ Q frame ∧ Q frame')
    (hkeeps : ∀ {frame frame'}, Persists frame frame' → Q frame → Q frame')
    (h : Run config loads ls s) : ls.countP p ≤ 1 := by
  refine Trace.at_most_once (fun s => ∃ f frame, s.forwards f = some frame ∧
    frame.node = node ∧ frame.channel = channel ∧ Q frame) ?_ ?_ ?_ h
  · intro ls s l s' htrace hs hl
    obtain ⟨f, frame, frame', -, hframe', hnode, hchannel, hpersists, -, hQ⟩ := hturns htrace hs hl
    exact ⟨f, frame', hframe', hpersists.node.trans hnode, hpersists.channel.trans hchannel, hQ⟩
  · rintro ls s l s' - hs ⟨f, frame, hframe, hnode, hchannel, hQ⟩
    obtain ⟨frame', hframe', hpersists⟩ := ((move_of_step hs).forward_change f).persists hframe
    exact ⟨f, frame', hframe', hpersists.node.trans hnode, hpersists.channel.trans hchannel,
      hkeeps hpersists hQ⟩
  · -- the `forward` of a second event would be the one that is `Q` already
    rintro ls s l s' htrace hs hl ⟨f, frame, hframe, -, hchannel, hQ⟩
    obtain ⟨f', frame', _, hframe', -, -, hchannel', -, hnot, -⟩ := hturns htrace hs hl
    obtain rfl := (channelInvariant htrace).unique f f' frame frame' hframe hframe'
      (hchannel.trans hchannel'.symm)
    obtain rfl := Option.some.inj (hframe.symm.trans hframe')
    exact hnot hQ

/-- A channel is bound once at most in a run. -/
theorem binds_once (h : Run config loads ls s) (node channel : String) :
    ls.countP (binds node channel) ≤ 1 := by
  refine once_of_channel node channel (Q := fun frame => ∃ c, frame.future = .result c) ?_ ?_ h
  · intro ls s l s' htrace hs hl
    obtain ⟨c, hc⟩ := binds_iff.mp hl
    obtain ⟨-, f, frame, hframe, hnode, hchannel, hpending, hframe'⟩ := bound_step htrace hs hc
    have hpersists : Persists frame { frame with future := .result c } :=
      ⟨rfl, rfl, by simp [hpending], id⟩
    exact ⟨f, frame, _, hframe, hframe', hnode, hchannel, hpersists, by simp [hpending], c, rfl⟩
  · rintro frame frame' hpersists ⟨c, hc⟩
    exact ⟨c, hpersists.result c hc⟩

/-- A channel is bridged once at most in a run. -/
theorem bridges_once (h : Run config loads ls s) (node channel : String) :
    ls.countP (bridges node channel) ≤ 1 := by
  refine once_of_channel node channel (Q := fun frame => Past frame.point) ?_ Persists.past h
  intro ls s l s' htrace hs hl
  obtain ⟨c, hc⟩ := bridges_iff.mp hl
  obtain ⟨f, frame, hframe, hnode, hchannel, hwaiting, -, hframe'⟩ := bridged_step hs hc
  have hpersists : Persists frame { frame with point := .bridging c } :=
    ⟨rfl, rfl, fun _ => id, by simp [Past]⟩
  exact ⟨f, frame, _, hframe, hframe', hnode, hchannel, hpersists, by simp [Past, hwaiting],
    by simp [Past]⟩

/-! ### Pending entries -/

/-- A node never has more than four pending entries. -/
theorem pendingCount_le (h : Run config loads ls s) (node : String) : s.pendingCount node ≤ 4 := by
  refine Trace.invariant (I := fun _ s => s.pendingCount node ≤ 4) ?_ ?_ h
  · simp [pendingCount, init]
  rintro ls s ⟨a, e⟩ s' - hle hs
  have hkeep : s'.pending = s.pending → s'.pendingCount node ≤ 4 := by
    intro heq
    rwa [pendingCount, heq]
  cases move_of_step hs with
  | @openChannel f node' channel hf hnode hfresh hroom =>
    -- the entry is made in the step that has counted the entries
    have hinsert := Dictionary.countP_keys_insert_le (fun key => decide (key.1 = node)) s.pending
      (node', channel) f
    show (s.pending.insert (node', channel) f).keys.countP _ ≤ 4
    unfold pendingCount at hle hroom
    by_cases heq : node' = node
    · subst heq
      simp only [decide_true, if_true] at hinsert
      omega
    · simp only [heq, decide_false, Bool.false_eq_true, if_false] at hinsert
      omega
  | @finish _ f frame =>
    have herase := Dictionary.countP_keys_erase_le (fun key => decide (key.1 = node)) s.pending
      (frame.node, frame.channel)
    rw [pendingCount, finish_pending, interrupted_node, interrupted_channel]
    exact herase.trans hle
  | report | copied => exact hkeep (modifyRecord_pending ..)
  | _ => exact hkeep rfl

/-! ### Records -/

/-- A worker joins with the first message of a connection. -/
theorem joined_step {node : String} {c : ℕ} (hs : Step config loads s l s')
    (hl : l.2 = some (.recordCreated node c)) :
    ∃ handler inbound now hello, l.1 = .inbound c inbound now ∧ s.handlers c = some handler ∧
      receive loads inbound = .ok hello ∧
      s.examine config handler.plain hello = .ok (.control node) ∧ node ∈ s'.nodes := by
  obtain ⟨a, e⟩ := l
  obtain rfl : e = _ := hl
  cases move_of_step hs with
  | join hhandler hpoint hreceive hexamine =>
    exact ⟨_, _, _, _, rfl, hhandler, hreceive, hexamine, (AList.mem_insert _).mpr (.inl rfl)⟩

/-- To change a record adds no node and removes none. -/
theorem modifyRecord_mem {node node' : String} {f : Record → Record} :
    node' ∈ (s.modifyRecord node f).nodes ↔ node' ∈ s.nodes := by
  rw [← AList.lookup_isSome, ← AList.lookup_isSome, lookup_modifyRecord]
  split <;> simp

/-- A record stays from the time it is made. -/
theorem Move.nodes_subset {a : Action} {e : Option Effect} {node : String}
    (hm : Move config loads s a s' e) (h : node ∈ s.nodes) : node ∈ s'.nodes := by
  cases hm with
  | join => exact (AList.mem_insert _).mpr (.inr h)
  | report | copied => exact modifyRecord_mem.mpr h
  | finish => rwa [finish_nodes]
  | _ => exact h

/-- A record keeps its connection and the message it was made from. -/
theorem Move.record_origin {a : Action} {e : Option Effect} {node : String} {record' : Record}
    (hm : Move config loads s a s' e) (h : s'.nodes.lookup node = some record') :
    (∃ record, s.nodes.lookup node = some record ∧ record'.writer = record.writer ∧
      record'.hello = record.hello) ∨
    e = some (.recordCreated node record'.writer) ∧
      ∃ pair, ControlHello config node pair record'.hello := by
  have hmodify : ∀ {node' f}, (s.modifyRecord node' f).nodes.lookup node = some record' →
      (∀ record : Record, (f record).writer = record.writer ∧ (f record).hello = record.hello) →
      ∃ record, s.nodes.lookup node = some record ∧ record'.writer = record.writer ∧
        record'.hello = record.hello := by
    intro node' f h hf
    rw [lookup_modifyRecord] at h
    split at h
    · obtain ⟨record, hrecord, rfl⟩ := Option.map_eq_some_iff.mp h
      exact ⟨record, hrecord, hf record⟩
    · exact ⟨record', h, rfl, rfl⟩
  cases hm with
  | @join c handler node' hello inbound now hhandler hpoint hreceive hexamine =>
    by_cases hnode : node = node'
    · subst hnode
      rw [setHandler_nodes, AList.lookup_insert] at h
      obtain rfl := Option.some.inj h
      exact .inr ⟨rfl, (examine_control hexamine).2.2⟩
    · rw [setHandler_nodes, AList.lookup_insert_ne hnode] at h
      exact .inl ⟨record', h, rfl, rfl⟩
  | report => exact .inl (hmodify h fun _ => ⟨rfl, rfl⟩)
  | copied => exact .inl (hmodify h fun _ => ⟨rfl, rfl⟩)
  | finish =>
    rw [finish_nodes] at h
    exact .inl ⟨record', h, rfl, rfl⟩
  | _ => exact .inl ⟨record', h, rfl, rfl⟩

/-- Every record was created by a step of the run, for the connection that is its writer. -/
theorem record_created (h : Run config loads ls s) :
    ∀ node record, s.nodes.lookup node = some record →
      ∃ l ∈ ls, l.2 = some (.recordCreated node record.writer) := by
  refine Trace.invariant (I := fun ls s => ∀ node record, s.nodes.lookup node = some record →
    ∃ l ∈ ls, l.2 = some (.recordCreated node record.writer)) (by simp [init]) ?_ h
  intro ls s l s' _ ih hs node record' hrecord'
  rcases (move_of_step hs).record_origin hrecord' with ⟨record, hrecord, hwriter, -⟩ | ⟨he, -⟩
  · obtain ⟨l', hl', heffect⟩ := ih node record hrecord
    exact ⟨l', List.mem_append_left _ hl', hwriter ▸ heffect⟩
  · exact ⟨l, by simp, he⟩

/-- Every record holds the message of a worker that was let in. -/
theorem record_hello (h : Run config loads ls s) :
    ∀ node record, s.nodes.lookup node = some record →
      ∃ pair, ControlHello config node pair record.hello := by
  refine Trace.invariant (I := fun _ s => ∀ node record, s.nodes.lookup node = some record →
    ∃ pair, ControlHello config node pair record.hello) (by simp [init]) ?_ h
  intro ls s l s' _ ih hs node record' hrecord'
  rcases (move_of_step hs).record_origin hrecord' with ⟨record, hrecord, -, hhello⟩ | ⟨-, hhello⟩
  · rw [hhello]
    exact ih node record hrecord
  · exact hhello

/-- A node joins once at most in a run, since its record stays. -/
theorem creates_once (h : Run config loads ls s) (node : String) :
    ls.countP (creates node) ≤ 1 := by
  refine Trace.at_most_once (fun s => node ∈ s.nodes) ?_ ?_ ?_ h
  · intro ls s l s' _ hs hl
    obtain ⟨c, hc⟩ := creates_iff.mp hl
    obtain ⟨_, _, _, _, -, -, -, -, hmem⟩ := joined_step hs hc
    exact hmem
  · exact fun ls s l s' _ hs hmem => (move_of_step hs).nodes_subset hmem
  · -- `Duplicate worker`
    intro ls s l s' _ hs hl
    obtain ⟨c, hc⟩ := creates_iff.mp hl
    obtain ⟨_, _, _, _, -, -, -, hexamine, -⟩ := joined_step hs hc
    exact (examine_control hexamine).2.1

variable (config loads) in
/-- Among the steps so far is one at which connection `c`, accepted by the TLS listener, was
    let in as the control connection of `node`. -/
def Joined (ls : List Label) (node : String) (c : ℕ) : Prop :=
  ∃ pre post inbound now peer hello pair,
    ls = pre ++ (Action.inbound c inbound now, some (.recordCreated node c)) :: post ∧
    (Action.connect c false peer, none) ∈ pre ∧
    receive loads inbound = .ok hello ∧ ControlHello config node pair hello

/-- A record is created only for a connection whose hello was examined as that node's control
    connection. -/
theorem joined_of_label {node : String} {c : ℕ} (h : Run config loads ls s) (hl : l ∈ ls)
    (heffect : l.2 = some (.recordCreated node c)) : Joined config loads ls node c := by
  obtain ⟨pre, post, s₁, s₂, hls, hpre, hs⟩ := h.exists_step hl
  obtain ⟨handler, inbound, now, hello, ha, hhandler, hreceive, hexamine, -⟩ :=
    joined_step hs heffect
  obtain ⟨hplain, -, pair, hhello⟩ := examine_control hexamine
  have haccepted := accepted hpre c handler hhandler
  rw [hplain] at haccepted
  refine ⟨pre, post, inbound, now, handler.peer, hello, pair, ?_, haccepted, hreceive, hhello⟩
  rw [hls, ← ha, ← heffect]

/-! ### The law -/

/-- **Admission and channel binding.**  In every interleaving, a record is made only for a
    control message of a configured node on a TLS connection, and once for each node; a data
    connection is bound, and bridged, only after it offered itself with the node's token for a
    channel that was pending, and no channel is bound or bridged twice; and no node has more
    than four pending entries. -/
theorem relay_admission (config : Config) (loads : List UInt8 → Option Json) {ls : List Label}
    {s : Relay} (h : Run config loads ls s) :
    (∀ node record, s.nodes.lookup node = some record →
      ∃ l ∈ ls, l.2 = some (.recordCreated node record.writer)) ∧
    (∀ node c, (∃ l ∈ ls, l.2 = some (.recordCreated node c)) → Joined config loads ls node c) ∧
    (∀ node, ls.countP (creates node) ≤ 1) ∧
    (∀ node channel c, (∃ l ∈ ls, l.2 = some (.bound node channel c)) →
      Solicited config loads ls node channel c) ∧
    (∀ node channel c, (∃ l ∈ ls, l.2 = some (.bridged node channel c)) →
      ∃ l ∈ ls, l.2 = some (.bound node channel c)) ∧
    (∀ node channel, ls.countP (binds node channel) ≤ 1 ∧
      ls.countP (bridges node channel) ≤ 1) ∧
    ∀ node, s.pendingCount node ≤ 4 := by
  refine ⟨record_created h, ?_, creates_once h, ?_, ?_,
    fun node channel => ⟨binds_once h node channel, bridges_once h node channel⟩,
    pendingCount_le h⟩
  · rintro node c ⟨l, hl, heffect⟩
    exact joined_of_label h hl heffect
  · rintro node channel c ⟨l, hl, heffect⟩
    obtain ⟨pre, post, s₁, s₂, rfl, hpre, hs⟩ := h.exists_step hl
    exact (bound_step hpre hs heffect).1.append _
  · rintro node channel c ⟨l, hl, heffect⟩
    obtain ⟨pre, post, s₁, s₂, rfl, hpre, hs⟩ := h.exists_step hl
    obtain ⟨f, frame, hframe, rfl, rfl, -, hresult, -⟩ := bridged_step hs heffect
    obtain ⟨-, l', hl', heffect'⟩ := (channelInvariant hpre).resolved f frame c hframe hresult
    exact ⟨l', List.mem_append_left _ hl', heffect'⟩

/-- One node, and messages by which it joins and by which it offers a channel. -/
def onePhone : Config where
  nodes := fun node => if node = "iphone" then some ⟨"secret", 1536⟩ else none
  rev := "b9999"

/-- The first line of the phone's control connection in the run below. -/
def joinLine : Inbound := .line [1]

/-- The first line of the phone's data connection in the run below. -/
def offerLine : Inbound := .line [2]

/-- What the two lines hold, and nothing else is JSON. -/
def phoneLoads (bytes : List UInt8) : Option Json :=
  if bytes = [1] then
    some (.dict [("kind", .str "control"), ("node", .str "iphone"), ("token", .str "secret"),
      ("runtime", .str "b9999"), ("budget_mib", .int 1536)])
  else if bytes = [2] then
    some (.dict [("kind", .str "data"), ("node", .str "iphone"), ("token", .str "secret"),
      ("channel", .str "c")])
  else none

/-- Two data connections offer the same channel, and the second is the quicker one. -/
theorem relay_admission_two_offers : ∃ ls s, Run onePhone phoneLoads ls s ∧
    Joined onePhone phoneLoads ls "iphone" 0 ∧
    (∃ l ∈ ls, l.2 = some (.bridged "iphone" "c" 2)) ∧
    Solicited onePhone phoneLoads ls "iphone" "c" 2 ∧
    ls.countP (binds "iphone" "c") ≤ 1 := by
  have hperform : (Trace.perform (step onePhone phoneLoads) init
      [.connect 0 false "10.0.0.7", .inbound 0 joinLine 0, .proceed 0 true, .proceed 0 true,
        .connectLocal 0 "iphone" "c", .connect 1 false "10.0.0.7", .connect 2 true "127.0.0.1",
        .inbound 1 offerLine 0, .inbound 2 offerLine 0, .proceedForward 0 true,
        .proceed 2 true, .proceed 1 true, .proceedForward 0 true]).map
      (fun result => result.1.filterMap Prod.snd) =
      some [.recordCreated "iphone" 0, .bound "iphone" "c" 2, .bridged "iphone" "c" 2] := by
    decide +kernel
  obtain ⟨⟨ls, s⟩, hls, heffects⟩ := Option.map_eq_some_iff.mp hperform
  have hrun : Run onePhone phoneLoads ls s := Trace.of_perform hls
  have hlabel : ∀ effect ∈ ls.filterMap Prod.snd, ∃ l ∈ ls, l.2 = some effect := by
    intro effect heffect
    exact List.mem_filterMap.mp heffect
  rw [heffects] at hlabel
  obtain ⟨-, hjoined, -, hsolicited, hbound, honce, -⟩ := relay_admission onePhone phoneLoads hrun
  have hbridged := hlabel (.bridged "iphone" "c" 2) (by simp)
  exact ⟨ls, s, hrun, hjoined _ _ (hlabel _ (by simp)), hbridged,
    hsolicited _ _ _ (hbound _ _ _ hbridged), (honce _ _).1⟩

end Relay

end ShareCompute.Cluster
