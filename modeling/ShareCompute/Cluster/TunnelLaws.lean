import ShareCompute.Cluster.TunnelBytes

namespace ShareCompute.Cluster

open ShareCompute.Library ShareCompute.Simulation

/-!
# Tunnels are faithful

What holds of the network in every run.

* `Network.Kept` — what every step keeps.
* `Kept.relay_step`, `Kept.bridge_step`, `Kept.tunnel_step` — the relay, the bridge of a `forward`
  and a worker move.
* `tunnel_faithful` — the law.
-/

variable {config : Config} {floats : Floats}

/-! ### What is kept of a worker -/

/-- What is true of a worker's tunnel by the place where it is: before the answer has been read
    nothing was bridged. -/
structure Tunnel.Kept (tunnel : Tunnel) : Prop where
  bridge : Bridge.Kept false (fun _ => 0) tunnel.bridge
  fresh : tunnel.greeted = false → tunnel.bridge = idleBridge
  greeting : tunnel.point = .greeting → tunnel.greeted = false
  greeted : tunnel.point = .dialing ∨ tunnel.point = .bridging → tunnel.greeted = true

/-- A bridge that has not begun satisfies what every bridge does. -/
theorem idleBridge_kept : Bridge.Kept false (fun _ => 0) idleBridge := Bridge.start_kept _ _

/-- What is in flight on a connection that `accept` has not handed over. -/
def Greets (floats : Floats) (tunnel : Tunnel) (outward inward : Bytes) : AcceptPoint → Prop
  | .receiving => tunnel.greeted = false ∧ outward = [] ∧
      inward = sentLine floats (dataOffer tunnel.node tunnel.token tunnel.channel)
  | .acknowledging node channel _ => node = tunnel.node ∧ channel = tunnel.channel ∧
      Flow floats idleBridge tunnel outward inward
  | _ => True

/-- A connection that `accept` has handed over needs to carry no greeting any more. -/
theorem greets_of_not_pending {tunnel : Tunnel} {outward inward : Bytes} {point : AcceptPoint}
    (h : Relay.pendingPoint point = false) : Greets floats tunnel outward inward point := by
  cases point with
  | receiving => cases h
  | acknowledging => cases h
  | _ => trivial

namespace Network

/-- What every step keeps, of the relay, its bridges, the tunnels, and the bytes between them. -/
structure Kept (config : Config) (floats : Floats) (s : Network) : Prop where
  relay : ∃ ls, Relay.Run config (loadsLine floats) ls s.relay
  bridges : ∀ f, Bridge.Kept false (fun _ => 0) (s.bridges f)
  /-- a bridge moves once its `forward` has a connection -/
  idle : ∀ f, (∀ frame c, s.relay.forwards f = some frame → frame.future ≠ .result c) →
    s.bridges f = idleBridge
  tunnels : ∀ c tunnel, s.tunnels c = some tunnel → tunnel.Kept
  greets : ∀ c tunnel, s.tunnels c = some tunnel → ∃ handler, s.relay.handlers c = some handler ∧
    Greets floats tunnel (s.outward c) (s.inward c) handler.point
  bound : ∀ f frame c tunnel, s.relay.forwards f = some frame → frame.future = .result c →
    s.tunnels c = some tunnel → frame.node = tunnel.node ∧ frame.channel = tunnel.channel ∧
      Flow floats (s.bridges f) tunnel (s.outward c) (s.inward c)

/-- Before anybody has connected all of it holds, because there are no tunnels and no bridges. -/
theorem start_kept : Kept config floats start where
  relay := ⟨[], .nil⟩
  bridges _ := idleBridge_kept
  idle _ _ := rfl
  tunnels _ _ h := by cases h
  greets _ _ h := by cases h
  bound _ _ _ _ h := by cases h

variable {s s' : Network}

/-! ### The relay moves -/

/-- A connection that a `forward` has got is neither waiting for a first message nor for a
    heartbeat. -/
theorem Kept.handedOver (h : Kept config floats s) {f c : ℕ} {frame : Forward}
    (hf : s.relay.forwards f = some frame) (hresult : frame.future = .result c) :
    ∃ handler, s.relay.handlers c = some handler ∧ Relay.handedOver handler.point = true := by
  obtain ⟨ls, hrun⟩ := h.relay
  exact (Relay.bindingInvariant hrun).handedOver f frame c hf hresult

/-- A step of the relay keeps the bridges that have not moved. -/
theorem Kept.idle_step (h : Kept config floats s) {a : Action} {e : Option Effect} {relay' : Relay}
    (hs : s.relay.step config (loadsLine floats) a = some (relay', e)) {f : ℕ}
    (hnone : ∀ frame c, relay'.forwards f = some frame → frame.future ≠ .result c) :
    s.bridges f = idleBridge := by
  refine h.idle f fun frame c hf hresult => ?_
  obtain ⟨frame', hframe', hpersists⟩ := ((Relay.move_of_step hs).forward_change f).persists hf
  exact hnone frame' c hframe' (hpersists.result c hresult)

/-- The relay moves, and the bytes in flight change on a connection whose handler receives. -/
theorem Kept.relay_step (h : Kept config floats s) {a : Action} {e : Option Effect}
    {relay' : Relay} (hs : s.relay.step config (loadsLine floats) a = some (relay', e))
    {outward' inward' : ℕ → Bytes}
    (hgreets : ∀ c tunnel, s.tunnels c = some tunnel → ∃ handler',
      relay'.handlers c = some handler' ∧
        Greets floats tunnel (outward' c) (inward' c) handler'.point)
    (hwires : ∀ c handler, s.relay.handlers c = some handler →
      Relay.handedOver handler.point = true ∨ (∃ node channel f,
        handler.point = .acknowledging node channel f) →
      outward' c = s.outward c ∧ inward' c = s.inward c) :
    Kept config floats { s with relay := relay', outward := outward', inward := inward' } where
  relay := by
    obtain ⟨ls, hrun⟩ := h.relay
    exact ⟨ls ++ [(a, e)], .snoc hrun hs⟩
  bridges := h.bridges
  idle f hnone := h.idle_step hs hnone
  tunnels := h.tunnels
  greets := hgreets
  bound := by
    intro f frame' c tunnel hf hresult htunnel
    have hm := Relay.move_of_step hs
    rcases Relay.result_origin hm hf hresult with ⟨frame, hold, hresult, hnode, hchannel⟩ |
      ⟨frame, handler, -, node, channel, hold, hpending, hnode, hchannel, hhandler, hpoint, -⟩
    · -- the `forward` had the connection before
      obtain ⟨handler, hhandler, hover⟩ := h.handedOver hold hresult
      obtain ⟨houtward, hinward⟩ := hwires c handler hhandler (.inl hover)
      obtain ⟨hnode', hchannel', hflow⟩ := h.bound f frame c tunnel hold hresult htunnel
      refine ⟨hnode.trans hnode', hchannel.trans hchannel', ?_⟩
      show Flow floats (s.bridges f) tunnel (outward' c) (inward' c)
      rw [houtward, hinward]
      exact hflow
    · -- it gets it now, from the handler that has acknowledged the offer
      obtain ⟨ls, hrun⟩ := h.relay
      obtain ⟨-, frame₁, hframe₁, hnode₁, hchannel₁⟩ :=
        (Relay.channelInvariant hrun).acknowledging c handler node channel f hhandler hpoint
      obtain rfl := Option.some.inj (hold.symm.trans hframe₁)
      obtain ⟨handler₁, hhandler₁, hgreet⟩ := h.greets c tunnel htunnel
      obtain rfl := Option.some.inj (hhandler.symm.trans hhandler₁)
      rw [hpoint] at hgreet
      obtain ⟨hnode₂, hchannel₂, hflow⟩ := hgreet
      obtain ⟨houtward, hinward⟩ :=
        hwires c handler hhandler (.inr ⟨node, channel, f, hpoint⟩)
      have hidle : s.bridges f = idleBridge := by
        refine h.idle f fun frame' c' hframe' hresult' => ?_
        obtain rfl := Option.some.inj (hold.symm.trans hframe')
        rw [hpending] at hresult'
        cases hresult'
      refine ⟨(hnode.trans hnode₁).trans hnode₂, (hchannel.trans hchannel₁).trans hchannel₂, ?_⟩
      show Flow floats (s.bridges f) tunnel (outward' c) (inward' c)
      rw [houtward, hinward, hidle]
      exact hflow

/-- A step of the relay at which no tunnel's line is read. -/
theorem Kept.move (h : Kept config floats s) {a : Action}
    (hquiet : ∀ c inbound now, a = .inbound c inbound now → s.tunnels c = none)
    (hs : s.move config floats a = some s') : Kept config floats s' := by
  obtain ⟨⟨relay', e⟩, hstep, rfl⟩ := Option.map_eq_some_iff.mp hs
  refine h.relay_step hstep (fun c tunnel htunnel => ?_) fun _ _ _ _ => ⟨rfl, rfl⟩
  obtain ⟨handler, hhandler, hgreet⟩ := h.greets c tunnel htunnel
  obtain ⟨handler', hhandler', hpasses⟩ := Relay.step_handler hstep hhandler
  refine ⟨handler', hhandler', ?_⟩
  rcases hpasses.pending with hsame | hpending | ⟨-, inbound, now, ha⟩
  · rw [hsame]
    exact hgreet
  · exact greets_of_not_pending hpending
  · rw [hquiet c inbound now ha] at htunnel
    cases htunnel

/-- What `accept` does with a first message. -/
theorem greet_point {relay : Relay} {c : ℕ} {handler : Handler} {inbound : Inbound} :
    ∃ handler', (relay.greet config (loadsLine floats) c handler inbound).1.handlers c
        = some handler' ∧
      (Relay.pendingPoint handler'.point = false ∨ ∃ hello node channel f,
        receive (loadsLine floats) inbound = .ok hello ∧
        relay.examine config handler.plain hello = .ok (.data node channel f) ∧
        handler'.point = .acknowledging node channel f) := by
  have hleave : ∀ handler₀ : Handler, ∃ handler',
      (relay.leave c handler₀ false).handlers c = some handler' ∧
        Relay.pendingPoint handler'.point = false :=
    fun handler₀ => ⟨_, Function.update_self .., rfl⟩
  unfold Relay.greet
  split
  · obtain ⟨handler', hhandler', hpending⟩ := hleave handler
    exact ⟨handler', hhandler', .inl hpending⟩
  case h_2 hello hreceive =>
    dsimp only
    split
    · obtain ⟨handler', hhandler', hpending⟩ := hleave { handler with hello := some hello }
      exact ⟨handler', hhandler', .inl hpending⟩
    · exact ⟨_, Function.update_self .., .inl rfl⟩
    case h_3 node channel f hexamine =>
      exact ⟨_, Function.update_self .., .inr ⟨hello, node, channel, f, hreceive, hexamine, rfl⟩⟩

/-- A handler reads off the connection of a tunnel. -/
theorem Kept.inbound_step (h : Kept config floats s) {c : ℕ} {inbound : Inbound} {now : ℚ}
    {tunnel : Tunnel} {rest : Bytes} (htunnel : s.tunnels c = some tunnel)
    (hread : readBy (s.inward c) inbound = some rest)
    (hs : s.move config floats (.inbound c inbound now) = some s') :
    Kept config floats { s' with
      inward := Function.update s.inward c rest
      outward := Function.update s.outward c (s.outward c ++ answer floats s'.relay c) } := by
  obtain ⟨⟨relay', e⟩, hstep, rfl⟩ := Option.map_eq_some_iff.mp hs
  obtain ⟨handler, hhandler, hgreet⟩ := h.greets c tunnel htunnel
  refine h.relay_step hstep (fun c' tunnel' htunnel' => ?_) fun c' handler' hhandler' hpoint => ?_
  · by_cases hc : c' = c
    · subst hc
      obtain rfl := Option.some.inj (htunnel.symm.trans htunnel')
      simp only [Function.update_self]
      by_cases hreceiving : handler.point = .receiving
      · -- the first message, of which the offer is all there is
        rw [hreceiving] at hgreet
        obtain ⟨hgreeted, houtward, hinward⟩ := hgreet
        rw [hinward] at hread
        have hgreeting := @greet_point config floats s.relay c' handler inbound
        -- `greet` answers it
        have hrelay : (s.relay.greet config (loadsLine floats) c' handler inbound).1 = relay' := by
          rw [Relay.step] at hstep
          simp only [hhandler, hreceiving, Option.some.injEq] at hstep
          rw [hstep]
        rw [hrelay] at hgreeting
        obtain ⟨handler', hhandler', hpending | ⟨hello, node, channel, f, hreceive, hexamine,
          hpoint⟩⟩ := hgreeting
        · exact ⟨handler', hhandler', greets_of_not_pending hpending⟩
        · obtain ⟨rfl, rfl⟩ := readBy_offer hread hreceive
          obtain ⟨⟨pair, hdata⟩, -⟩ := Relay.examine_data hexamine
          have hanswer : answer floats relay' c' = sentLine floats okAnswer := by
            rw [answer]
            simp only [hhandler', hpoint]
          refine ⟨handler', hhandler', ?_⟩
          rw [hpoint, houtward, hanswer]
          exact ⟨(Json.str.inj hdata.named).symm, (Json.str.inj hdata.channel).symm,
            .answered hgreeted ((h.tunnels c' _ htunnel).fresh hgreeted)⟩
      · -- it listens already, and then nothing is owed to the tunnel
        obtain ⟨handler', hhandler', hpasses⟩ := Relay.step_handler hstep hhandler
        refine ⟨handler', hhandler', ?_⟩
        have hlistening : ∃ node, handler.point = .listening node := by
          rw [Relay.step] at hstep
          simp only [hhandler] at hstep
          split at hstep
          · rename_i hpoint
            exact absurd hpoint hreceiving
          · exact ⟨_, ‹_›⟩
          · cases hstep
        obtain ⟨node, hlistening⟩ := hlistening
        rcases hpasses.pending with hsame | hpending | ⟨hpoint, -⟩
        · rw [hsame, hlistening]
          trivial
        · exact greets_of_not_pending hpending
        · exact absurd hpoint hreceiving
    · -- the other connections are as before
      obtain ⟨handler', hhandler', hgreet'⟩ := h.greets c' tunnel' htunnel'
      obtain ⟨handler'', hhandler'', hpasses⟩ := Relay.step_handler hstep hhandler'
      refine ⟨handler'', hhandler'', ?_⟩
      simp only [Function.update_of_ne hc]
      rcases hpasses.pending with hsame | hpending | ⟨-, inbound', now', ha⟩
      · rw [hsame]
        exact hgreet'
      · exact greets_of_not_pending hpending
      · exact absurd (Action.inbound.inj ha).1.symm hc
  · -- a handler that has handed over, or acknowledges, does not read
    by_cases hc : c' = c
    · subst hc
      rw [Relay.step] at hstep
      simp only [hhandler'] at hstep
      split at hstep
      · rename_i hreceiving
        rw [hreceiving] at hpoint
        rcases hpoint with hover | ⟨_, _, _, hpoint⟩
        · cases hover
        · cases hpoint
      · rename_i hlistening
        rw [hlistening] at hpoint
        rcases hpoint with hover | ⟨_, _, _, hpoint⟩
        · cases hover
        · cases hpoint
      · cases hstep
    · exact ⟨Function.update_of_ne hc .., Function.update_of_ne hc ..⟩

/-- A step of the relay that is no bridge keeps what is in flight in step with where the tunnels
    are. -/
theorem Kept.relayStep (h : Kept config floats s) {action : Action}
    (hs : s.relayStep config floats action = some s') : Kept config floats s' := by
  cases action with
  | copied => cases hs
  | inbound c inbound now =>
    rw [Network.relayStep] at hs
    split at hs
    case h_1 hnone =>
      refine h.move (fun c' inbound' now' ha => ?_) hs
      rw [← (Action.inbound.inj ha).1]
      exact hnone
    case h_2 tunnel htunnel =>
      obtain ⟨rest, hread, hs⟩ := Option.bind_eq_some_iff.mp hs
      obtain ⟨s₁, hmove, rfl⟩ := Option.map_eq_some_iff.mp hs
      exact h.inbound_step htunnel hread hmove
  | proceedForward f ok =>
    rw [Network.relayStep] at hs
    split at hs
    case isTrue => exact h.move (fun _ _ _ ha => by cases ha) hs
    case isFalse => cases hs
  | connect => exact h.move (fun _ _ _ ha => by cases ha) hs
  | proceed => exact h.move (fun _ _ _ ha => by cases ha) hs
  | cancel => exact h.move (fun _ _ _ ha => by cases ha) hs
  | connectLocal => exact h.move (fun _ _ _ ha => by cases ha) hs
  | cancelForward => exact h.move (fun _ _ _ ha => by cases ha) hs
  | stop => exact h.move (fun _ _ _ ha => by cases ha) hs

/-! ### A bridge of the relay moves -/

/-- Counting a chunk changes the record of a worker, and nothing that the tunnels depend on. -/
theorem counted_frame (s : Network) (f : ℕ) (action : Bridge.Action) :
    (s.counted config floats f action).forwards = s.relay.forwards ∧
    (s.counted config floats f action).handlers = s.relay.handlers ∧
    ∀ ls, Relay.Run config (loadsLine floats) ls s.relay →
      ∃ ls', Relay.Run config (loadsLine floats) ls' (s.counted config floats f action) := by
  unfold counted
  split
  case h_2 => exact ⟨rfl, rfl, fun ls hrun => ⟨ls, hrun⟩⟩
  case h_1 direction =>
    split
    case h_2 => exact ⟨rfl, rfl, fun ls hrun => ⟨ls, hrun⟩⟩
    case h_1 size hpoint =>
      split
      case h_2 => exact ⟨rfl, rfl, fun ls hrun => ⟨ls, hrun⟩⟩
      case h_1 relay' e hstep =>
        have hrun : ∀ ls, Relay.Run config (loadsLine floats) ls s.relay →
            ∃ ls', Relay.Run config (loadsLine floats) ls' relay' :=
          fun ls hrun => ⟨ls ++ [(_, e)], .snoc hrun hstep⟩
        simp only [Relay.step] at hstep
        split at hstep
        · cases hstep
        · split at hstep
          · obtain ⟨rfl, -⟩ := Prod.mk.inj (Option.some.inj hstep)
            exact ⟨Relay.modifyRecord_forwards .., Relay.modifyRecord_handlers .., hrun⟩
          · cases hstep

/-- A bridge moves: its `forward` has got a connection, and no other has that one. -/
theorem Kept.bridgeStep (h : Kept config floats s) {f : ℕ} {action : Bridge.Action}
    (hs : s.bridgeStep config floats f action = some s') : Kept config floats s' := by
  rw [Network.bridgeStep] at hs
  split at hs
  case h_1 => cases hs
  case h_2 frame hf =>
    split at hs
    case h_2 => cases hs
    case h_1 remote hpoint =>
      obtain ⟨bridge, hbridge, hs⟩ := Option.bind_eq_some_iff.mp hs
      obtain ⟨hforwards, hhandlers, hruns⟩ :=
        @counted_frame config floats s f action
      obtain ⟨ls, hrun⟩ := h.relay
      have hresult : frame.future = .result remote :=
        (Relay.channelInvariant hrun).bridging f frame remote hf hpoint
      have hbridges : ∀ f', Bridge.Kept false (fun _ => 0)
          (Function.update s.bridges f bridge f') := by
        intro f'
        by_cases heq : f' = f
        · rw [heq, Function.update_self]
          exact Bridge.step_kept (h.bridges f) hbridge
        · rw [Function.update_of_ne heq]
          exact h.bridges f'
      have hidle : ∀ f', (∀ frame c, s.relay.forwards f' = some frame →
          frame.future ≠ .result c) → Function.update s.bridges f bridge f' = idleBridge := by
        intro f' hnone
        have hne : f' ≠ f := by
          rintro rfl
          exact hnone frame remote hf hresult
        rw [Function.update_of_ne hne]
        exact h.idle f' hnone
      -- what other `forward`s have is on other connections
      have hothers : ∀ f' frame' c tunnel, f' ≠ f → s.relay.forwards f' = some frame' →
          frame'.future = .result c → s.tunnels c = some tunnel → c ≠ remote ∧
          frame'.node = tunnel.node ∧ frame'.channel = tunnel.channel ∧
            Flow floats (Function.update s.bridges f bridge f') tunnel (s.outward c)
              (s.inward c) := by
        intro f' frame' c tunnel hne hf' hresult' htunnel
        rw [Function.update_of_ne hne]
        refine ⟨?_, h.bound f' frame' c tunnel hf' hresult' htunnel⟩
        rintro rfl
        exact hne ((Relay.bindingInvariant hrun).unique f' f frame' frame c hf' hf hresult'
          hresult)
      split at hs
      case h_1 hnone =>
        obtain rfl := Option.some.inj hs
        exact {
          relay := hruns ls hrun
          bridges := hbridges
          idle := by
            rw [hforwards]
            exact hidle
          tunnels := h.tunnels
          greets := by
            rw [hhandlers]
            exact h.greets
          bound := by
            rw [hforwards]
            intro f' frame' c tunnel hf' hresult' htunnel
            by_cases heq : f' = f
            · -- the connection is not that of a tunnel
              subst heq
              obtain rfl := Option.some.inj (hf.symm.trans hf')
              obtain rfl := Future.result.inj (hresult.symm.trans hresult')
              rw [hnone] at htunnel
              cases htunnel
            · exact (hothers f' frame' c tunnel heq hf' hresult' htunnel).2 }
      case h_2 tunnel htunnel =>
        obtain ⟨rest, hrest, rfl⟩ := Option.map_eq_some_iff.mp hs
        exact {
          relay := hruns ls hrun
          bridges := hbridges
          idle := by
            show ∀ f', (∀ frame c, (s.counted config floats f action).forwards f' = some frame →
              frame.future ≠ .result c) → _
            rw [hforwards]
            exact hidle
          tunnels := h.tunnels
          greets := by
            show ∀ c tunnel, s.tunnels c = some tunnel → ∃ handler,
              (s.counted config floats f action).handlers c = some handler ∧ _
            rw [hhandlers]
            intro c tunnel' htunnel'
            obtain ⟨handler, hhandler, hgreet⟩ := h.greets c tunnel' htunnel'
            refine ⟨handler, hhandler, ?_⟩
            by_cases hc : c = remote
            · -- its handler has handed it over
              subst hc
              obtain ⟨handler', hhandler', hover⟩ := h.handedOver hf hresult
              obtain rfl := Option.some.inj (hhandler.symm.trans hhandler')
              refine greets_of_not_pending ?_
              cases hpoint' : handler.point with
              | receiving => rw [hpoint'] at hover; cases hover
              | acknowledging => rw [hpoint'] at hover; cases hover
              | _ => rfl
            · simp only [Function.update_of_ne hc]
              exact hgreet
          bound := by
            show ∀ f' frame' c tunnel, (s.counted config floats f action).forwards f' =
              some frame' → _
            rw [hforwards]
            intro f' frame' c tunnel' hf' hresult' htunnel'
            by_cases heq : f' = f
            · subst heq
              obtain rfl := Option.some.inj (hf.symm.trans hf')
              obtain rfl := Future.result.inj (hresult.symm.trans hresult')
              obtain ⟨hnode, hchannel, hflow⟩ := h.bound f' frame remote tunnel' hf hresult htunnel'
              simp only [Function.update_self]
              exact ⟨hnode, hchannel, hflow.bridge_step hbridge hrest⟩
            · obtain ⟨hc, hnode, hchannel, hflow⟩ :=
                hothers f' frame' c tunnel' heq hf' hresult' htunnel'
              simp only [Function.update_of_ne hc]
              exact ⟨hnode, hchannel, hflow⟩ }

/-! ### A worker moves -/

/-- A worker connects: its connection is new. -/
theorem Kept.offerStep (h : Kept config floats s) {c : ℕ} {node token channel peer : String}
    {plain : Bool} (hs : s.offerStep config floats c node token channel plain peer = some s') :
    Kept config floats s' := by
  rw [Network.offerStep] at hs
  split at hs
  case h_1 => cases hs
  case h_2 hnone =>
    obtain ⟨s₁, hmove, rfl⟩ := Option.map_eq_some_iff.mp hs
    have h₁ : Kept config floats s₁ := h.move (fun _ _ _ ha => by cases ha) hmove
    obtain ⟨⟨relay', e⟩, hstep, rfl⟩ := Option.map_eq_some_iff.mp hmove
    have hhandler : ∃ handler, relay'.handlers c = some handler ∧ handler.point = .receiving := by
      simp only [Relay.step] at hstep
      split at hstep
      · cases hstep
      · obtain ⟨rfl, -⟩ := Prod.mk.inj (Option.some.inj hstep)
        exact ⟨_, Function.update_self .., rfl⟩
    obtain ⟨handler, hhandler, hreceiving⟩ := hhandler
    exact {
      relay := h₁.relay
      bridges := h₁.bridges
      idle := h₁.idle
      tunnels := by
        intro c' tunnel htunnel
        by_cases hc : c' = c
        · simp only [setTunnel, hc, Function.update_self, Option.some.injEq] at htunnel
          subst htunnel
          exact ⟨idleBridge_kept, fun _ => rfl, fun _ => rfl, by simp⟩
        · simp only [setTunnel, Function.update_of_ne hc] at htunnel
          exact h.tunnels c' tunnel htunnel
      greets := by
        intro c' tunnel htunnel
        by_cases hc : c' = c
        · subst hc
          simp only [setTunnel, Function.update_self, Option.some.injEq] at htunnel ⊢
          subst htunnel
          refine ⟨handler, hhandler, ?_⟩
          rw [hreceiving]
          exact ⟨rfl, rfl, rfl⟩
        · simp only [setTunnel, Function.update_of_ne hc] at htunnel ⊢
          exact h₁.greets c' tunnel htunnel
      bound := by
        intro f frame c' tunnel hf hresult htunnel
        have hc : c' ≠ c := by
          -- the handler of a new connection has not handed it over
          rintro rfl
          obtain ⟨handler', hhandler', hover⟩ := h₁.handedOver hf hresult
          obtain rfl := Option.some.inj (hhandler.symm.trans hhandler')
          rw [hreceiving] at hover
          cases hover
        simp only [setTunnel, Function.update_of_ne hc] at htunnel ⊢
        exact h₁.bound f frame c' tunnel hf hresult htunnel }

/-- A worker that has its connection moves. -/
theorem Kept.tunnelStep (h : Kept config floats s) {c : ℕ} {tunnel : Tunnel}
    (tunnel' : Tunnel) (outward' inward' : Bytes) (htunnel : s.tunnels c = some tunnel)
    (hnode : tunnel'.node = tunnel.node) (hchannel : tunnel'.channel = tunnel.channel)
    (hkept : tunnel'.Kept)
    (hreceiving : Greets floats tunnel (s.outward c) (s.inward c) .receiving →
      Greets floats tunnel' outward' inward' .receiving)
    (hflow : ∀ bridge, Flow floats bridge tunnel (s.outward c) (s.inward c) →
      Flow floats bridge tunnel' outward' inward') :
    Kept config floats { s.setTunnel c tunnel' with
      outward := Function.update s.outward c outward'
      inward := Function.update s.inward c inward' } where
  relay := h.relay
  bridges := h.bridges
  idle := h.idle
  tunnels := by
    intro c' tunnel₁ htunnel₁
    by_cases hc : c' = c
    · simp only [setTunnel, hc, Function.update_self, Option.some.injEq] at htunnel₁
      rw [← htunnel₁]
      exact hkept
    · simp only [setTunnel, Function.update_of_ne hc] at htunnel₁
      exact h.tunnels c' tunnel₁ htunnel₁
  greets := by
    intro c' tunnel₁ htunnel₁
    by_cases hc : c' = c
    · subst hc
      simp only [setTunnel, Function.update_self, Option.some.injEq] at htunnel₁ ⊢
      obtain ⟨handler, hhandler, hgreet⟩ := h.greets c' tunnel htunnel
      refine ⟨handler, hhandler, ?_⟩
      rw [← htunnel₁]
      -- two points of the handler say something about its tunnel
      cases hpoint : handler.point with
      | receiving =>
        rw [hpoint] at hgreet
        exact hreceiving hgreet
      | acknowledging node channel f =>
        rw [hpoint] at hgreet
        -- the name and the channel are those of the offer, whatever the tunnel does
        exact ⟨hgreet.1.trans hnode.symm, hgreet.2.1.trans hchannel.symm, hflow _ hgreet.2.2⟩
      | _ => trivial
    · simp only [setTunnel, Function.update_of_ne hc] at htunnel₁ ⊢
      exact h.greets c' tunnel₁ htunnel₁
  bound := by
    intro f frame c' tunnel₁ hf hresult htunnel₁
    by_cases hc : c' = c
    · subst hc
      simp only [setTunnel, Function.update_self, Option.some.injEq] at htunnel₁ ⊢
      obtain ⟨hnode', hchannel', hflow'⟩ := h.bound f frame c' tunnel hf hresult htunnel
      rw [← htunnel₁]
      exact ⟨hnode'.trans hnode.symm, hchannel'.trans hchannel.symm, hflow _ hflow'⟩
    · simp only [setTunnel, Function.update_of_ne hc] at htunnel₁ ⊢
      exact h.bound f frame c' tunnel₁ hf hresult htunnel₁

/-- A worker goes on to another place, and nothing is in flight that was not. -/
theorem Kept.pointStep (h : Kept config floats s) {c : ℕ} {tunnel : Tunnel} {point : TunnelPoint}
    (htunnel : s.tunnels c = some tunnel)
    (hkept : ({ tunnel with point := point } : Tunnel).Kept) :
    Kept config floats (s.setTunnel c { tunnel with point := point }) := by
  have hsame := h.tunnelStep { tunnel with point := point } (s.outward c) (s.inward c) htunnel
    rfl rfl hkept id fun _ hflow => hflow.point point
  rw [Function.update_eq_self, Function.update_eq_self] at hsame
  exact hsame

/-- A tunnel that reads its answer takes exactly the line that the relay has written for it. -/
theorem Kept.answeredStep (h : Kept config floats s) {c : ℕ} {tunnel : Tunnel}
    (htunnel : s.tunnels c = some tunnel) (hs : s.answeredStep floats c tunnel = some s') :
    Kept config floats s' := by
  rw [Network.answeredStep] at hs
  split at hs
  case isFalse => cases hs
  case isTrue hgreeting =>
    obtain ⟨⟨line, rest⟩, hline, rfl⟩ := Option.map_eq_some_iff.mp hs
    have hkept := h.tunnels c tunnel htunnel
    have hgreeted := hkept.greeting hgreeting
    have hmoved := h.tunnelStep
      { tunnel with greeted := true, point := afterAnswer floats line } rest (s.inward c) htunnel
      rfl rfl
      ⟨hkept.bridge, fun hfalse => (by cases hfalse), fun hpoint => ?_, fun _ => rfl⟩ ?_
      fun _ hflow => hflow.read_answer hgreeted (hkept.fresh hgreeted) hline _
    · rw [Function.update_eq_self] at hmoved
      exact hmoved
    · -- a worker that was answered does not wait for an answer again
      have hpoint : afterAnswer floats line = .greeting := hpoint
      unfold afterAnswer at hpoint
      split at hpoint
      · split at hpoint <;> cases hpoint
      · cases hpoint
    · -- before the first message was received there is no answer to read
      rintro ⟨-, houtward, -⟩
      rw [houtward] at hline
      cases hline

/-- A step of the worker's bridge moves bytes between the connection and the native listener, and
    nothing else. -/
theorem Kept.workerBridgeStep (h : Kept config floats s) {c : ℕ} {tunnel : Tunnel}
    {action : Bridge.Action} (htunnel : s.tunnels c = some tunnel)
    (hs : s.workerBridgeStep c tunnel action = some s') : Kept config floats s' := by
  rw [Network.workerBridgeStep] at hs
  split at hs
  case isFalse => cases hs
  case isTrue hpoint =>
    obtain ⟨bridge, hbridge, hs⟩ := Option.bind_eq_some_iff.mp hs
    obtain ⟨rest, hrest, rfl⟩ := Option.map_eq_some_iff.mp hs
    have hkept := h.tunnels c tunnel htunnel
    have hgreeted := hkept.greeted (.inr hpoint)
    refine h.tunnelStep { tunnel with bridge := bridge } _ _ htunnel rfl rfl
      ⟨Bridge.step_kept hkept.bridge hbridge, fun hfalse => ?_, hkept.greeting, hkept.greeted⟩ ?_
      fun _ hflow => hflow.worker_step hbridge hrest
    · have hfalse : tunnel.greeted = false := hfalse
      rw [hgreeted] at hfalse
      cases hfalse
    · rintro ⟨hfalse, -⟩
      rw [hgreeted] at hfalse
      cases hfalse

/-- **One step** keeps all of it, whoever takes it. -/
theorem Kept.step (h : Kept config floats s) {act : Act} (hs : Step config floats s act s') :
    Kept config floats s' := by
  rw [Step] at hs
  cases act with
  | relay action => exact h.relayStep hs
  | bridge f action => exact h.bridgeStep hs
  | offer c node token channel plain peer => exact h.offerStep hs
  | answered c =>
    obtain ⟨tunnel, htunnel, hs⟩ := Option.bind_eq_some_iff.mp hs
    exact h.answeredStep htunnel hs
  | workerBridge c action =>
    obtain ⟨tunnel, htunnel, hs⟩ := Option.bind_eq_some_iff.mp hs
    exact h.workerBridgeStep htunnel hs
  | connected c =>
    obtain ⟨tunnel, htunnel, hs⟩ := Option.bind_eq_some_iff.mp hs
    split at hs
    case isFalse => cases hs
    case isTrue hdialing =>
      obtain rfl := Option.some.inj hs
      have hkept := h.tunnels c tunnel htunnel
      exact h.pointStep htunnel ⟨hkept.bridge, hkept.fresh, fun hpoint => (by cases hpoint),
        fun _ => hkept.greeted (.inl hdialing)⟩
  | leave c =>
    obtain ⟨tunnel, htunnel, hs⟩ := Option.bind_eq_some_iff.mp hs
    split at hs
    case isTrue => cases hs
    case isFalse =>
      obtain rfl := Option.some.inj hs
      have hkept := h.tunnels c tunnel htunnel
      exact h.pointStep htunnel ⟨hkept.bridge, hkept.fresh, fun hpoint => (by cases hpoint),
        fun hpoint => (by rcases hpoint with hpoint | hpoint <;> cases hpoint)⟩

/-- All of it holds in every state that a run reaches, by induction over the steps. -/
theorem run_kept {acts : List Act} (h : Run config floats acts s) : Kept config floats s :=
  Trace.invariant (I := fun _ s => Kept config floats s) start_kept
    (fun _ _ _ _ _ ih hs => ih.step hs) h

end Network

/-! ### The law -/

/-- What the native listener was given came from the local connection, and what that was given
    came from the native listener. -/
theorem Flow.prefixes {bridge : Bridge.State} {tunnel : Tunnel} {outward inward : Bytes}
    (h : Flow floats bridge tunnel outward inward) (hbridge : Bridge.Kept false (fun _ => 0) bridge)
    (htunnel : tunnel.Kept) :
    (tunnel.bridge.copies .right).written <+: (bridge.copies .right).read ∧
      (bridge.copies .left).written <+: (tunnel.bridge.copies .left).read := by
  constructor
  · cases hgreeted : tunnel.greeted with
    | false =>
      rw [htunnel.fresh hgreeted]
      exact List.nil_prefix
    | true =>
      have houtward := h.outward
      rw [hgreeted, if_pos rfl] at houtward
      have hread : (tunnel.bridge.copies .right).read <+: (bridge.copies .right).written :=
        ⟨_, (List.append_cancel_left houtward).symm⟩
      exact ((htunnel.bridge.copies .right).order.trans hread).trans (hbridge.copies .right).order
  · have hread : (bridge.copies .left).read <+: (tunnel.bridge.copies .left).written :=
      ⟨_, h.inward.symm⟩
    exact ((hbridge.copies .left).order.trans hread).trans (htunnel.bridge.copies .left).order

/-- While the loops of a direction go on, what was read at one end is what was written at the
    other and what is in flight. -/
theorem Flow.complete {bridge : Bridge.State} {tunnel : Tunnel} {outward inward : Bytes}
    (h : Flow floats bridge tunnel outward inward) (hbridge : Bridge.Kept false (fun _ => 0) bridge)
    (htunnel : tunnel.Kept) :
    (tunnel.greeted = true → (bridge.copies .right).point.isEnded = false →
      (tunnel.bridge.copies .right).point.isEnded = false →
      (bridge.copies .right).read = (tunnel.bridge.copies .right).written ++ outward) ∧
    ((bridge.copies .left).point.isEnded = false →
      (tunnel.bridge.copies .left).point.isEnded = false →
      (tunnel.bridge.copies .left).read = (bridge.copies .left).written ++ inward) := by
  constructor
  · intro hgreeted hended hended'
    have houtward := h.outward
    rw [hgreeted, if_pos rfl] at houtward
    rw [← (hbridge.copies .right).same hended, (htunnel.bridge.copies .right).same hended']
    exact List.append_cancel_left houtward
  · intro hended hended'
    rw [(hbridge.copies .left).same hended, ← (htunnel.bridge.copies .left).same hended']
    exact h.inward

/-- **Tunnels are faithful.**  In every run of the relay, its workers and anybody else, no two local
    connections get the same connection, and one that gets the connection of a worker gets that of
    the worker and the channel that were asked for.  What the native listener of that worker was
    given is then a prefix of what came from the local connection, and what the local connection was
    given a prefix of what came from the listener; while the loops of a direction go on, what is
    missing is in flight. -/
theorem tunnel_faithful (config : Config) (floats : Floats) {acts : List Act} {s : Network}
    (h : Network.Run config floats acts s) :
    (∀ f f' frame frame' remote, s.relay.forwards f = some frame →
      s.relay.forwards f' = some frame' → frame.future = .result remote →
      frame'.future = .result remote → f = f') ∧
    ∀ f frame remote tunnel, s.relay.forwards f = some frame → frame.future = .result remote →
      s.tunnels remote = some tunnel →
      frame.node = tunnel.node ∧ frame.channel = tunnel.channel ∧
      (tunnel.bridge.copies .right).written <+: ((s.bridges f).copies .right).read ∧
      ((s.bridges f).copies .left).written <+: (tunnel.bridge.copies .left).read ∧
      (tunnel.greeted = true → ((s.bridges f).copies .right).point.isEnded = false →
        (tunnel.bridge.copies .right).point.isEnded = false →
        ((s.bridges f).copies .right).read
          = (tunnel.bridge.copies .right).written ++ s.outward remote) ∧
      (((s.bridges f).copies .left).point.isEnded = false →
        (tunnel.bridge.copies .left).point.isEnded = false →
        (tunnel.bridge.copies .left).read
          = ((s.bridges f).copies .left).written ++ s.inward remote) := by
  have hkept := Network.run_kept h
  refine ⟨fun f f' frame frame' remote hf hf' hresult hresult' => ?_,
    fun f frame remote tunnel hf hresult htunnel => ?_⟩
  · obtain ⟨ls, hrun⟩ := hkept.relay
    exact (Relay.bindingInvariant hrun).unique f f' frame frame' remote hf hf' hresult hresult'
  · obtain ⟨hnode, hchannel, hflow⟩ := hkept.bound f frame remote tunnel hf hresult htunnel
    obtain ⟨hright, hleft⟩ := hflow.prefixes (hkept.bridges f) (hkept.tunnels remote tunnel htunnel)
    obtain ⟨houtward, hinward⟩ :=
      hflow.complete (hkept.bridges f) (hkept.tunnels remote tunnel htunnel)
    exact ⟨hnode, hchannel, hright, hleft, houtward, hinward⟩

/-- A phone joins and serves a channel; two of three bytes have reached its listener. -/
def threeBytes : List Act :=
  let hello : Dict := [("kind", .str "control"), ("node", .str "iphone"), ("token", .str "secret"),
    ("runtime", .str "b9999"), ("budget_mib", .int 1536)]
  let offer := sentLine oneAndAHalf (dataOffer "iphone" "secret" "c")
  [.relay (.connect 0 false "10.0.0.7"), .relay (.inbound 0 (.line (sentLine oneAndAHalf hello)) 0),
    .relay (.proceed 0 true), .relay (.proceed 0 true), .relay (.connectLocal 0 "iphone" "c"),
    .relay (.proceedForward 0 true), .offer 1 "iphone" "secret" "c" false "10.0.0.7",
    .relay (.inbound 1 (.line offer) 0), .relay (.proceed 1 true), .relay (.proceedForward 0 true),
    .bridge 0 (.copy .right .started), .bridge 0 (.copy .right (.received [1, 2, 3])),
    .answered 1, .connected 1, .workerBridge 1 (.copy .right .started),
    .workerBridge 1 (.copy .right (.received [1, 2]))]

/-- In this run three bytes were read off the local connection; the worker has written two of them,
    and the third is in flight. -/
theorem tunnel_faithful_three_bytes : ∃ s,
    Network.Run Relay.onePhone oneAndAHalf threeBytes s ∧ ∃ frame tunnel,
      s.relay.forwards 0 = some frame ∧ s.tunnels 1 = some tunnel ∧
      frame.channel = tunnel.channel ∧ (tunnel.bridge.copies .right).written = [1, 2] ∧
      ((s.bridges 0).copies .right).read
        = (tunnel.bridge.copies .right).written ++ s.outward 1 := by
  have hfold : ((threeBytes.foldlM (Network.step Relay.onePhone oneAndAHalf) Network.start).map
      fun s => decide ((s.relay.forwards 0).map Forward.future = some (.result 1)) &&
        decide ((s.tunnels 1).map (fun tunnel => (tunnel.greeted,
          (tunnel.bridge.copies .right).written, (tunnel.bridge.copies .right).point.isEnded))
            = some (true, [1, 2], false)) &&
        !((s.bridges 0).copies .right).point.isEnded) = some true := by
    decide +kernel
  obtain ⟨s, hs, hvalues⟩ := Option.map_eq_some_iff.mp hfold
  rw [Bool.and_eq_true, Bool.and_eq_true, decide_eq_true_iff, decide_eq_true_iff,
    Bool.not_eq_true'] at hvalues
  obtain ⟨⟨hforward, htunnel⟩, hbridge⟩ := hvalues
  obtain ⟨frame, hframe, hresult⟩ := Option.map_eq_some_iff.mp hforward
  obtain ⟨tunnel, htunnel, hvalues⟩ := Option.map_eq_some_iff.mp htunnel
  obtain ⟨hgreeted, hvalues⟩ := Prod.mk.inj hvalues
  obtain ⟨hwritten, hended⟩ := Prod.mk.inj hvalues
  have hrun : Network.Run Relay.onePhone oneAndAHalf threeBytes s := Trace.of_foldlM hs
  obtain ⟨-, hlaw⟩ := tunnel_faithful Relay.onePhone oneAndAHalf hrun
  obtain ⟨-, hchannel, -, -, hcomplete, -⟩ := hlaw 0 frame 1 tunnel hframe hresult htunnel
  exact ⟨s, hrun, frame, tunnel, hframe, htunnel, hchannel, hwritten,
    hcomplete hgreeted hbridge hended⟩

end ShareCompute.Cluster
