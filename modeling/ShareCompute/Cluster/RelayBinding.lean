import ShareCompute.Cluster.RelayLaws

namespace ShareCompute.Cluster.Relay

open ShareCompute.Library

/-!
# One connection for each local connection

What becomes of a connection once its handler has completed a future.

* `step_handler` — the places to which one step can take a handler.
* `bindingInvariant` — the connection of a completed future is out of its handler's hands, and no
  other future was completed with it.
-/

/-- `accept` still waits for the first message, or has not yet handed the connection over. -/
def pendingPoint : AcceptPoint → Bool
  | .receiving => true
  | .acknowledging _ _ _ => true
  | _ => false

/-- `accept` has handed the connection over, or has given up. -/
def handedOver : AcceptPoint → Bool
  | .waiting _ => true
  | .closing => true
  | .closed => true
  | _ => false

variable {config : Config} {loads : List UInt8 → Option Json} {s s' : Relay} {ls : List Label}
  {l : Label}

/-- Where a step can take a handler that awaits at `point`. -/
structure Passes (a : Action) (c : ℕ) (point point' : AcceptPoint) : Prop where
  /-- it gets to a first message or an acknowledgement by receiving one only -/
  pending : point' = point ∨ pendingPoint point' = false ∨
    (point = .receiving ∧ ∃ inbound now, a = .inbound c inbound now)
  handedOver : Relay.handedOver point = true → Relay.handedOver point' = true

/-- A handler that did not move has passed to the place where it was. -/
theorem Passes.refl (a : Action) (c : ℕ) (point : AcceptPoint) : Passes a c point point :=
  ⟨.inl rfl, id⟩

/-- From every place a handler can pass to the end, where it closes its connection. -/
theorem Passes.closing (a : Action) (c : ℕ) (point : AcceptPoint) : Passes a c point .closing :=
  ⟨.inr (.inl rfl), fun _ => rfl⟩

/-- A step that sets the handler of one connection. -/
theorem passes_setHandler {a : Action} {c c₀ : ℕ} {handler handler₀ : Handler}
    (h : s.handlers c = some handler) (h₀ : c = c₀ → Passes a c handler.point handler₀.point) :
    ∃ handler', (s.setHandler c₀ handler₀).handlers c = some handler' ∧
      Passes a c handler.point handler'.point := by
  by_cases hc : c = c₀
  · subst hc
    exact ⟨handler₀, Function.update_self .., h₀ rfl⟩
  · exact ⟨handler, (Function.update_of_ne hc ..).trans h, .refl ..⟩

/-- When a handler leaves, the others are where they were, and it is about to close. -/
theorem passes_leave {a : Action} {c c₀ : ℕ} {handler handler₀ : Handler} {control : Bool}
    (h : s.handlers c = some handler) : ∃ handler',
      (s.leave c₀ handler₀ control).handlers c = some handler' ∧
        Passes a c handler.point handler'.point := by
  have hsame : (if control then s.fail else s).handlers c = some handler := by
    cases control <;> exact h
  exact passes_setHandler hsame fun _ => .closing ..

/-- When a data connection is completed, every handler is where it was, or wakes up from waiting for
    that. -/
theorem passes_complete {a : Action} {c remote : ℕ} {handler : Handler}
    (h : s.handlers c = some handler) : ∃ handler',
      (s.complete remote).handlers c = some handler' ∧
        Passes a c handler.point handler'.point := by
  unfold complete
  split
  case h_2 => exact ⟨handler, h, .refl ..⟩
  case h_1 =>
    split
    case isTrue => exact passes_setHandler h fun _ => ⟨.inr (.inl rfl), fun _ => rfl⟩
    case isFalse => exact ⟨handler, h, .refl ..⟩

/-- When a forward ends, every handler is where it was, or wakes up from waiting for that. -/
theorem passes_finish {a : Action} {c f : ℕ} {frame : Forward} {handler : Handler}
    (h : s.handlers c = some handler) : ∃ handler',
      (s.finish f frame).handlers c = some handler' ∧
        Passes a c handler.point handler'.point := by
  unfold finish
  dsimp only
  rw [setForward_handlers]
  split
  · exact passes_complete (s := { s with pending := _ }) h
  · exact ⟨handler, h, .refl ..⟩

/-- When a handler reads its first message, it passes to one of the listed places, and the others
    stay. -/
theorem passes_greet {c c₀ : ℕ} {handler handler₀ : Handler} {inbound : Inbound} {now : ℚ}
    (h : s.handlers c = some handler) (h₀ : s.handlers c₀ = some handler₀)
    (hpoint : handler₀.point = .receiving) : ∃ handler',
      (s.greet config loads c₀ handler₀ inbound).1.handlers c = some handler' ∧
        Passes (.inbound c₀ inbound now) c handler.point handler'.point := by
  -- the handler that moves has received
  have hmoved : ∀ point, c = c₀ → Passes (.inbound c₀ inbound now) c handler.point point := by
    rintro point rfl
    obtain rfl := Option.some.inj (h.symm.trans h₀)
    refine ⟨.inr (.inr ⟨hpoint, inbound, now, rfl⟩), fun hover => ?_⟩
    rw [hpoint] at hover
    cases hover
  unfold greet
  split
  · exact passes_leave h
  · dsimp only
    split
    · exact passes_leave h
    · exact passes_setHandler (s := { s with nodes := _ }) h (hmoved _)
    · exact passes_setHandler h (hmoved _)

/-- When what a handler awaited is over, it passes to one of the listed places, and the others
    stay. -/
theorem passes_proceed {c c₀ : ℕ} {handler handler₀ : Handler} {ok : Bool} {e : Option Effect}
    (h : s.handlers c = some handler) (h₀ : s.handlers c₀ = some handler₀)
    (hstep : s.proceed c₀ handler₀ ok = some (s', e)) : ∃ handler',
      s'.handlers c = some handler' ∧
        Passes (.proceed c₀ ok) c handler.point handler'.point := by
  have hsame : c = c₀ → handler.point = handler₀.point := by
    rintro rfl
    rw [Option.some.inj (h.symm.trans h₀)]
  unfold proceed at hstep
  split at hstep
  case h_5 node channel f hpoint =>
    split at hstep
    · cases hstep
    · split at hstep
      · obtain ⟨rfl, rfl⟩ := Prod.mk.inj (Option.some.inj hstep)
        exact passes_setHandler (s := s.setForward f _) h fun _ => ⟨.inr (.inl rfl), fun _ => rfl⟩
      · obtain ⟨rfl, rfl⟩ := Prod.mk.inj (Option.some.inj hstep)
        exact passes_leave h
  case h_9 => cases hstep
  -- a worker that is joining has not handed its connection over
  case h_1 hpoint =>
    obtain ⟨rfl, rfl⟩ := Prod.mk.inj (Option.some.inj hstep)
    refine passes_setHandler h fun hc => ⟨.inr (.inl rfl), fun hover => ?_⟩
    rw [hsame hc, hpoint] at hover
    cases hover
  case h_2 hpoint =>
    obtain ⟨rfl, rfl⟩ := Prod.mk.inj (Option.some.inj hstep)
    refine passes_setHandler h fun hc => ⟨.inr (.inl rfl), fun hover => ?_⟩
    rw [hsame hc, hpoint] at hover
    cases hover
  all_goals
    obtain ⟨rfl, rfl⟩ := Prod.mk.inj (Option.some.inj hstep)
    first
    | exact passes_leave h
    | exact passes_setHandler h fun _ => ⟨.inr (.inl rfl), fun _ => rfl⟩

/-- When what a forward awaited is over, every handler is where it was or wakes up. -/
theorem passes_proceedForward {c f : ℕ} {handler : Handler} {frame : Forward} {ok : Bool}
    {e : Option Effect} (h : s.handlers c = some handler)
    (hstep : s.proceedForward f frame ok = some (s', e)) : ∃ handler',
      s'.handlers c = some handler' ∧
        Passes (.proceedForward f ok) c handler.point handler'.point := by
  unfold proceedForward at hstep
  split at hstep
  case h_3 =>
    split at hstep
    · obtain ⟨rfl, rfl⟩ := Prod.mk.inj (Option.some.inj hstep)
      exact ⟨handler, h, .refl ..⟩
    · cases hstep
  case h_8 => cases hstep
  all_goals
    obtain ⟨rfl, rfl⟩ := Prod.mk.inj (Option.some.inj hstep)
    first
    | exact ⟨handler, h, .refl ..⟩
    | exact passes_finish h

/-- **What one step does to a handler.** -/
theorem step_handler {a : Action} {e : Option Effect} {c : ℕ} {handler : Handler}
    (hs : s.step config loads a = some (s', e)) (h : s.handlers c = some handler) :
    ∃ handler', s'.handlers c = some handler' ∧ Passes a c handler.point handler'.point := by
  cases a with
  | connect c₀ plain peer =>
    simp only [step] at hs
    split at hs
    · cases hs
    · rename_i hnone
      obtain ⟨rfl, rfl⟩ := Prod.mk.inj (Option.some.inj hs)
      -- the connection is a new one, so it is not `c`
      refine passes_setHandler h fun hc => ?_
      rw [← hc, h] at hnone
      cases hnone
  | inbound c₀ inbound now =>
    simp only [step] at hs
    split at hs
    · cases hs
    · rename_i handler₀ h₀
      split at hs
      · rename_i hpoint
        -- its first message
        have hpasses : ∃ handler', (s.greet config loads c₀ handler₀ inbound).1.handlers c
            = some handler' ∧ Passes (.inbound c₀ inbound now) c handler.point handler'.point :=
          passes_greet h h₀ hpoint
        rwa [Option.some.inj hs] at hpasses
      · -- a message of a node that has joined
        obtain ⟨rfl, rfl⟩ := Prod.mk.inj (Option.some.inj hs)
        unfold hear
        split
        · exact passes_leave h
        · exact ⟨handler, (congrFun (modifyRecord_handlers ..) c).trans h, .refl ..⟩
      · cases hs
  | proceed c₀ ok =>
    simp only [step] at hs
    split at hs
    · cases hs
    · exact passes_proceed h ‹_› hs
  | cancel c₀ =>
    simp only [step] at hs
    split at hs
    · cases hs
    · split at hs
      · cases hs
      · obtain ⟨rfl, rfl⟩ := Prod.mk.inj (Option.some.inj hs)
        exact passes_leave h
  | connectLocal f node channel =>
    simp only [step] at hs
    split at hs
    · cases hs
    · split at hs
      · obtain ⟨rfl, rfl⟩ := Prod.mk.inj (Option.some.inj hs)
        -- a channel that is opened, or refused, is no step of a handler
        unfold openChannel
        dsimp only
        split <;> exact ⟨handler, h, .refl ..⟩
      · cases hs
  | proceedForward f ok =>
    simp only [step] at hs
    split at hs
    · cases hs
    · exact passes_proceedForward h hs
  | cancelForward f =>
    simp only [step] at hs
    split at hs
    · cases hs
    · split at hs
      · cases hs
      · obtain ⟨rfl, rfl⟩ := Prod.mk.inj (Option.some.inj hs)
        exact passes_finish h
  | copied f toWorker size =>
    simp only [step] at hs
    split at hs
    · cases hs
    · split at hs
      · obtain ⟨rfl, rfl⟩ := Prod.mk.inj (Option.some.inj hs)
        exact ⟨handler, (congrFun (modifyRecord_handlers ..) c).trans h, .refl ..⟩
      · cases hs
  | stop =>
    obtain ⟨rfl, rfl⟩ := Prod.mk.inj (Option.some.inj hs)
    exact ⟨handler, h, .refl ..⟩

/-! ### Completed futures -/

/-- How completed futures and connections belong together. -/
structure BindingInvariant (s : Relay) : Prop where
  handedOver : ∀ f frame c, s.forwards f = some frame → frame.future = .result c →
    ∃ handler, s.handlers c = some handler ∧ handedOver handler.point = true
  unique : ∀ f f' frame frame' c, s.forwards f = some frame → s.forwards f' = some frame' →
    frame.future = .result c → frame'.future = .result c → f = f'

/-- A future was completed before, or by the handler that acknowledged for it. -/
theorem result_origin {a : Action} {e : Option Effect} {f c : ℕ} {frame' : Forward}
    (hm : Move config loads s a s' e) (hf : s'.forwards f = some frame')
    (hresult : frame'.future = .result c) :
    (∃ frame, s.forwards f = some frame ∧ frame.future = .result c ∧ frame'.node = frame.node ∧
      frame'.channel = frame.channel) ∨
    ∃ frame handler handler' node channel, s.forwards f = some frame ∧ frame.future = .pending ∧
      frame'.node = frame.node ∧ frame'.channel = frame.channel ∧ s.handlers c = some handler ∧
      handler.point = .acknowledging node channel f ∧ s'.handlers c = some handler' ∧
      handedOver handler'.point = true := by
  cases hm.forward_change f with
  | same h => exact .inl ⟨frame', h.symm.trans hf, hresult, rfl, rfl⟩
  | opened h h' hlabel hfresh hissued hnone =>
    obtain rfl := Option.some.inj (h'.symm.trans hf)
    exact absurd hresult (hnone c)
  | advanced h h' hnode hchannel hiff =>
    obtain rfl := Option.some.inj (h'.symm.trans hf)
    exact .inl ⟨_, h, (hiff c).mp hresult, hnode, hchannel⟩
  | @bound frame c' handler node channel h h' hpending hhandler hpoint hlabel =>
    obtain rfl := Option.some.inj (h'.symm.trans hf)
    obtain rfl := Future.result.inj hresult
    have hover : ∃ handler', s'.handlers c' = some handler' ∧
        handedOver handler'.point = true := by
      obtain rfl : e = _ := hlabel
      cases hm with
      | bind => exact ⟨_, Function.update_self .., rfl⟩
    obtain ⟨handler', hhandler', hover⟩ := hover
    exact .inr ⟨frame, handler, handler', node, channel, h, hpending, rfl, rfl, hhandler, hpoint,
      hhandler', hover⟩

/-- One step keeps the invariant: a connection completes one future at most, and is then out of its
    handler's hands. -/
theorem BindingInvariant.step (I : BindingInvariant s) (hs : Step config loads s l s') :
    BindingInvariant s' := by
  obtain ⟨a, e⟩ := l
  have hm : Move config loads s a s' e := move_of_step hs
  -- a future that was completed before had its connection handed over
  have hkeep : ∀ f frame c, s.forwards f = some frame → frame.future = .result c →
      ∃ handler, s'.handlers c = some handler ∧ Relay.handedOver handler.point = true := by
    intro f frame c hf hresult
    obtain ⟨handler, hhandler, hover⟩ := I.handedOver f frame c hf hresult
    obtain ⟨handler', hhandler', hpasses⟩ := step_handler hs hhandler
    exact ⟨handler', hhandler', hpasses.handedOver hover⟩
  -- a handler that acknowledges has not
  have hnew : ∀ f frame c handler node channel f', s.forwards f = some frame →
      frame.future = .result c → s.handlers c = some handler →
      handler.point ≠ .acknowledging node channel f' := by
    intro f frame c handler node channel f' hf hresult hhandler hpoint
    obtain ⟨handler', hhandler', hover⟩ := I.handedOver f frame c hf hresult
    obtain rfl := Option.some.inj (hhandler.symm.trans hhandler')
    rw [hpoint] at hover
    cases hover
  constructor
  case handedOver =>
    intro f frame' c hf hresult
    rcases result_origin hm hf hresult with ⟨frame, hold, hresult, -⟩ |
      ⟨-, -, handler', -, -, -, -, -, -, -, -, hhandler', hover⟩
    · exact hkeep f frame c hold hresult
    · exact ⟨handler', hhandler', hover⟩
  case unique =>
    intro f f' frame₁ frame₂ c hf hf' hresult hresult'
    rcases result_origin hm hf hresult with ⟨frame, hold, hresult, -⟩ |
      ⟨-, handler, -, node, channel, -, -, -, -, hhandler, hpoint, -⟩
    · rcases result_origin hm hf' hresult' with ⟨frame', hold', hresult', -⟩ |
        ⟨-, handler', -, node', channel', -, -, -, -, hhandler', hpoint', -⟩
      · exact I.unique f f' frame frame' c hold hold' hresult hresult'
      · exact absurd hpoint' (hnew f frame c _ _ _ _ hold hresult hhandler')
    · rcases result_origin hm hf' hresult' with ⟨frame', hold', hresult', -⟩ |
        ⟨-, handler', -, node', channel', -, -, -, -, hhandler', hpoint', -⟩
      · exact absurd hpoint (hnew f' frame' c _ _ _ _ hold' hresult' hhandler)
      · -- one handler acknowledges for one `forward`
        obtain rfl := Option.some.inj (hhandler.symm.trans hhandler')
        exact (AcceptPoint.acknowledging.inj (hpoint.symm.trans hpoint')).2.2

/-- The invariant holds along every run of the relay, by induction over its steps. -/
theorem bindingInvariant (h : Run config loads ls s) : BindingInvariant s := by
  refine Trace.invariant (I := fun _ s => BindingInvariant s) ?_ ?_ h
  · exact ⟨by simp [init], by simp [init]⟩
  · exact fun _ _ _ _ _ ih hs => ih.step hs

end ShareCompute.Cluster.Relay
