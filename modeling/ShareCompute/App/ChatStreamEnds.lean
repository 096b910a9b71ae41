import ShareCompute.App.ChatStreamLaws

namespace ShareCompute.App

open ShareCompute.Core ShareCompute.Library

/-!
# A chat request comes to its end

A generation on a ring that has lost a device may never end and never fail.  As long as it could,
the watch is there, and it finishes the stream when it hears that the ring is lost or re-formed.
From then on the request's task and the event loop need nobody else.

* `Watched` — nobody waits for a stream that is not watched.
* `pending` — how many steps of their own they have left once the stream is finished.
* `lost_ring_ends` — the response is complete after that many, whatever the pump does.
-/

namespace ChatStream

variable {coders : Coders} {request : OpenAPIChatCompletionRequest} {events : List Event}
  {s s' : ChatStream} {event : Event}

/-! ### The watch -/

/-- While a pump runs and the stream is not finished, the monitor of the ring is watched. -/
def Watched (s : ChatStream) : Prop :=
  s.pump ≠ .absent → s.stream.terminal = none → s.watching = true

/-- A step that leaves the watch, starts no pump and does not take a finish back. -/
theorem Watched.congr (h : Watched s) (hwatching : s'.watching = s.watching)
    (hpump : s.pump = .absent → s'.pump = .absent)
    (hterminal : s'.stream.terminal = none → s.stream.terminal = none) : Watched s' := by
  intro hne hnone
  rw [hwatching]
  exact h (fun habsent => hne (hpump habsent)) (hterminal hnone)

/-- To finish the stream finishes it, one way or the other, even if that had been done before. -/
theorem finishStream_terminal (s : ChatStream) (how : Option ModelManagerError) :
    (s.finishStream how).stream.terminal.isSome = true := by
  show (s.stream.finish how).terminal.isSome = true
  rw [AsyncStream.finish_terminal]
  rfl

/-- A stream that is finished is not waited for. -/
theorem Watched.of_finished (h : s.stream.terminal.isSome = true) : Watched s := by
  intro _ hnone
  rw [hnone] at h
  cases h

/-- What a chunk leads to has nothing to do with the watch. -/
theorem watching_handleChunk (uuid : String) (created : ℤ) (chunk : ModelResponseChunk) :
    (s.handleChunk coders request uuid created chunk).watching = s.watching := by
  unfold ChatStream.handleChunk
  split
  · cases chunk <;> (simp only; split <;> rfl)
  · cases chunk <;> rfl

/-- The response has nothing to do with the watch. -/
theorem watching_respond (uuid : String) (created : ℤ) (how : Option ModelManagerError) :
    (s.respond coders request uuid created how).watching = s.watching := by
  unfold ChatStream.respond
  split
  · cases how <;> rfl
  · rfl

/-- Every step keeps the watch, as long as it is not cancelled before the stream has finished. -/
theorem Watched.step (h : Watched s)
    (hcancelled : s.cancelled = true → s.pump = .absent ∨ s.stream.terminal.isSome = true)
    (hs : s.step coders request event = some s') : Watched s' := by
  -- the pump is there, so the watch goes on until the stream has ended
  have hgoes : ∀ {pump : Pump}, s.pump = pump → pump ≠ .absent → s.stream.terminal = none →
      s.watching = true := fun heq hne => h (fun habsent => hne (heq.symm.trans habsent))
  cases stepped hs with
  | receive => split <;> exact h.congr rfl id id
  | @unmanaged _ _ uuid created =>
    have hsame : SamePump s _ := samePump_respond coders request uuid created none
    exact h.congr (watching_respond uuid created none) hsame.pump.trans
      (fun hnone => hsame.stream ▸ hnone)
  | refused => exact .of_finished (finishStream_terminal s _)
  | started => exact fun _ _ => rfl
  | ready => exact h.congr rfl id id
  | @yielded generation chunk hreading =>
    -- a chunk neither ends the stream nor stops the watch
    have hterminal : (s.pumpChunk chunk).stream.terminal = s.stream.terminal := by
      cases chunk <;> exact AsyncStream.yield_terminal
    have hwatching : (s.pumpChunk chunk).watching = s.watching := by cases chunk <;> rfl
    intro _ hnone
    exact hwatching.trans (hgoes hreading (by simp) (hterminal.symm.trans hnone))
  | silent => exact h
  | generated hreading => exact fun _ hnone => hgoes hreading (by simp) hnone
  | cut hreading => exact fun _ hnone => hgoes hreading (by simp) hnone
  | throw => exact .of_finished (finishStream_terminal s _)
  | append hended => exact fun _ hnone => hgoes hended (by simp) hnone
  | finish => exact .of_finished (finishStream_terminal s none)
  | stopped hwatching hcut =>
    -- the watch was cancelled: there is no pump, or the stream has ended
    obtain habsent | hfinished := hcancelled hcut
    · exact fun hne => absurd habsent hne
    · exact .of_finished hfinished
  | failed => exact .of_finished (finishStream_terminal s _)
  | waited => exact h
  | @taken uuid created chunk stream hreading hnext =>
    have hhandled : SamePump { s with stream := stream } _ ∧ _ :=
      samePump_handleChunk coders request uuid created chunk
    refine h.congr (watching_handleChunk uuid created chunk) hhandled.1.pump.trans ?_
    rw [hhandled.1.stream]
    exact (AsyncStream.next_element hnext).2.symm.trans
  | @ended uuid created how _ _ hterminal =>
    have hsame : SamePump s _ := samePump_respond coders request uuid created how
    refine .of_finished ?_
    rw [hsame.stream, hterminal]
    rfl
  | release => exact h.congr rfl id id
  | run => exact h.congr rfl id id

/-- In every state that a run reaches the monitor of the ring is watched for as long as that is
    needed. -/
theorem Run.watched (h : Run coders request events s) : Watched s := by
  have hboth : Watched s ∧ Kept coders request events s := by
    refine Trace.invariant (I := fun events s => Watched s ∧ Kept coders request events s)
      ⟨fun hne => absurd rfl hne, [], [], .init, .init⟩ ?_ h
    rintro events s event s' - ⟨hwatched, hkept⟩ hs
    obtain ⟨taken, sent, hflow, -⟩ := id hkept
    exact ⟨hwatched.step hflow.cancelled hs, hkept.step hs⟩
  exact hboth.1

/-! ### What is left once the stream is finished -/

/-- A step of the request's task, once it has its stream, or of the event loop. -/
def own : Event → Bool
  | .ready | .take _ _ | .run => true
  | _ => false

/-- How many steps of the request's task and the event loop are left at most; each of them makes it
    smaller. -/
def pending (s : ChatStream) : ℕ :=
  (if s.handler = .preparing then 1 else 0) + (if s.handler = .responded then 0 else 2) +
    2 * s.stream.buffer.length + s.eventLoop.length

/-- How many steps a request has left depends on its handler, its stream and its event loop only. -/
theorem pending_congr (hhandler : s'.handler = s.handler) (hstream : s'.stream = s.stream)
    (hloop : s'.eventLoop = s.eventLoop) : pending s' = pending s := by
  rw [pending, pending, hhandler, hstream, hloop]

/-- A stream that is finished again is the same. -/
theorem pending_finishStream (hfinished : s.stream.terminal.isSome = true)
    (how : Option ModelManagerError) {pump : Pump} {watching : Bool} :
    pending { s.finishStream how with pump := pump, watching := watching } = pending s :=
  pending_congr rfl (AsyncStream.finish_of_finished hfinished) rfl

variable (coders request) in
/-- Handling a chunk executes a closure at most. -/
theorem handleChunk_loop (uuid : String) (created : ℤ) (chunk : ModelResponseChunk) :
    (s.handleChunk coders request uuid created chunk).handler = s.handler ∧
      (s.handleChunk coders request uuid created chunk).eventLoop.length ≤
        s.eventLoop.length + 1 := by
  unfold ChatStream.handleChunk
  split
  · cases chunk <;> (simp only; split <;> simp [execute])
  · cases chunk <;> exact ⟨rfl, Nat.le_succ _⟩

variable (coders request) in
/-- Responding gives one closure to the event loop, and the handler has responded. -/
theorem respond_loop (uuid : String) (created : ℤ) (how : Option ModelManagerError) :
    (s.respond coders request uuid created how).handler = .responded ∧
      (s.respond coders request uuid created how).eventLoop.length = s.eventLoop.length + 1 := by
  unfold ChatStream.respond
  split
  · cases how <;> simp [execute]
  · simp [execute]

/-- The others do not give them more to do. -/
theorem pending_step (hkept : Kept coders request events s)
    (hfinished : s.stream.terminal.isSome = true) (hs : s.step coders request event = some s') :
    s'.stream.terminal.isSome = true ∧
      pending s' + (if own event = true then 1 else 0) ≤ pending s := by
  obtain ⟨taken, sent, -, hanswered⟩ := hkept
  -- a stream that has ended was opened before
  have hopened : ¬ (s.handler = .received ∨ s.handler = .opening) := by
    intro hstart
    rw [(hanswered.starting hstart).2.1] at hfinished
    cases hfinished
  cases stepped hs with
  | receive hreceived => exact absurd (.inl hreceived) hopened
  | unmanaged hopening => exact absurd (.inr hopening) hopened
  | refused hopening => exact absurd (.inr hopening) hopened
  | started hopening => exact absurd (.inr hopening) hopened
  | ready hpreparing =>
    refine ⟨hfinished, ?_⟩
    have hbefore : pending s = 1 + 2 + 2 * s.stream.buffer.length + s.eventLoop.length := by
      simp [pending, hpreparing]
    have hafter : pending { s with armed := true, handler := .reading } =
        2 + 2 * s.stream.buffer.length + s.eventLoop.length := by
      simp [pending]
    rw [hbefore, hafter, own, if_pos rfl]
    omega
  | @yielded generation chunk hreading =>
    -- what is yielded behind the end is dropped
    have hsame : (s.pumpChunk chunk).stream = s.stream := by
      cases chunk <;> exact AsyncStream.yield_of_finished hfinished
    have hpending : pending (s.pumpChunk chunk) = pending s :=
      pending_congr (by cases chunk <;> rfl) hsame (by cases chunk <;> rfl)
    exact ⟨hsame ▸ hfinished, hpending.le⟩
  | silent => exact ⟨hfinished, le_refl _⟩
  | generated => exact ⟨hfinished, le_refl _⟩
  | cut => exact ⟨hfinished, le_refl _⟩
  | throw => exact ⟨finishStream_terminal s _, (pending_finishStream hfinished _).le⟩
  | append => exact ⟨hfinished, le_refl _⟩
  | finish => exact ⟨finishStream_terminal s none, (pending_finishStream hfinished none).le⟩
  | stopped => exact ⟨hfinished, le_refl _⟩
  | failed => exact ⟨finishStream_terminal s _, (pending_finishStream hfinished _).le⟩
  | waited => exact ⟨hfinished, le_refl _⟩
  | @taken uuid created chunk stream hreading hnext =>
    obtain ⟨hbuffer, hterminal⟩ := AsyncStream.next_element hnext
    have hhandled : SamePump { s with stream := stream } _ ∧ _ :=
      samePump_handleChunk coders request uuid created chunk
    -- a chunk less in the buffer, and one closure at most on the event loop
    have hloop : _ = s.handler ∧ _ ≤ s.eventLoop.length + 1 :=
      handleChunk_loop coders request (s := { s with stream := stream }) uuid created chunk
    refine ⟨?_, ?_⟩
    · rw [hhandled.1.stream]
      exact hterminal ▸ hfinished
    · rw [pending, pending, hhandled.1.stream, hloop.1, hbuffer, List.length_cons, own]
      simp only [if_true]
      omega
  | @ended uuid created how hreading hbuffer hterminal =>
    have hsame : SamePump s _ := samePump_respond coders request uuid created how
    obtain ⟨hhandler, hloop⟩ := respond_loop coders request (s := s) uuid created how
    refine ⟨hsame.stream ▸ hfinished, ?_⟩
    have hbefore : pending s = 2 + 2 * s.stream.buffer.length + s.eventLoop.length := by
      simp [pending, hreading]
    rw [hbefore, pending, hsame.stream, hhandler, hloop, own, if_pos rfl, if_pos rfl,
      if_neg (by decide)]
    omega
  | release => exact ⟨hfinished, le_refl _⟩
  | @run closure rest hqueue =>
    -- the event loop is shorter by the closure it has run
    have hone : s.eventLoop.length = rest.length + 1 := by
      rw [hqueue]
      rfl
    have hafter : pending { s with eventLoop := rest, written := s.written ++ closure } + 1 =
        pending s := by
      rw [pending, pending, hone]
      rfl
    exact ⟨hfinished, hafter.le⟩

/-- If they have nothing to do, everything is written. -/
theorem Kept.complete (h : Kept coders request events s)
    (hfinished : s.stream.terminal.isSome = true)
    (hstuck : ∀ event, own event = true → s.step coders request event = none) :
    ∃ taken sent how uuid created, taken <+: offered events ∧
      s.written = begun coders request sent ++ ending coders request taken uuid created how := by
  obtain ⟨taken, sent, hflow, hanswered⟩ := h
  have hloop : s.eventLoop = [] := by
    cases hqueue : s.eventLoop with
    | nil => rfl
    | cons closure rest =>
      have hrun := hstuck .run rfl
      simp [ChatStream.step, hqueue] at hrun
  have hresponded : s.handler = .responded := by
    cases hhandler : s.handler with
    | responded => rfl
    | received =>
      rw [(hanswered.starting (.inl hhandler)).2.1] at hfinished
      cases hfinished
    | opening =>
      rw [(hanswered.starting (.inr hhandler)).2.1] at hfinished
      cases hfinished
    | preparing =>
      have hready := hstuck .ready rfl
      simp [ChatStream.step, hhandler] at hready
    | reading =>
      -- a finished stream gives a chunk or its end
      have htake := hstuck (.take "" 0) rfl
      obtain ⟨⟨result, stream⟩, hnext⟩ :=
        Option.isSome_iff_exists.mp (AsyncStream.next_isSome hfinished)
      cases result <;> simp [ChatStream.step, hhandler, hnext] at htake
  obtain ⟨how, uuid, created, -, houtput⟩ := hanswered.responded hresponded
  refine ⟨taken, sent, how, uuid, created, hflow.carried.taken_prefix, ?_⟩
  rw [← houtput, output, hloop, List.flatten_nil, List.append_nil]

/-- **A lost ring ends the request.**  While the pump of a request has not finished, the watch is
    there, and a ring that is lost or re-formed finishes the stream, whatever the pump does or
    does not.  Then the response is complete as soon as the request's task and the event loop
    have nothing to do, which is after `pending` of their steps at most. -/
theorem lost_ring_ends (h : Run coders request events s) (hpump : s.pump ≠ .absent)
    {health : Option RingHealth} {error : ModelManagerError}
    (hfailure : ringFailure health = some error) :
    ∃ before s₁, (before = [] ∨ before = [.watch health]) ∧
      Run coders request (events ++ before) s₁ ∧ s₁.stream.terminal.isSome = true ∧
      ∀ more s', Trace (fun s event s' => s.step coders request event = some s') s₁ more s' →
        more.countP own ≤ pending s₁ ∧
        ((∀ event, own event = true → s'.step coders request event = none) →
          ∃ taken sent how uuid created, taken <+: offered (events ++ before ++ more) ∧
            s'.written =
              begun coders request sent ++ ending coders request taken uuid created how) := by
  -- the next look of the watch ends the stream, unless it has ended already
  have hfinished : ∃ before s₁, (before = [] ∨ before = [.watch health]) ∧
      Run coders request (events ++ before) s₁ ∧ s₁.stream.terminal.isSome = true := by
    cases hterminal : s.stream.terminal with
    | some how => exact ⟨[], s, .inl rfl, by rwa [List.append_nil], by rw [hterminal]; rfl⟩
    | none =>
      have hwatching := h.watched hpump hterminal
      obtain ⟨taken, sent, hflow, -⟩ := h.kept
      have hcancelled : ¬ s.cancelled = true := by
        intro htrue
        obtain habsent | hsome := hflow.cancelled htrue
        · exact hpump habsent
        · rw [hterminal] at hsome
          cases hsome
      have hwatch : s.step coders request (.watch health) =
          some { s.finishStream (some error) with watching := false } := by
        simp only [ChatStream.step, hwatching, if_true, hcancelled, if_false, hfailure,
          Bool.false_eq_true]
      exact ⟨[.watch health], _, .inr rfl, .snoc h hwatch, finishStream_terminal s (some error)⟩
  obtain ⟨before, s₁, hbefore, hrun, hterminal⟩ := hfinished
  refine ⟨before, s₁, hbefore, hrun, hterminal, fun more s' hmore => ?_⟩
  have hall := hrun.append hmore
  -- each step of its own lowers `pending` from there on, and no other raises it
  have hbound := hmore.countP_add_le (p := own)
    (I := fun s => s.stream.terminal.isSome = true ∧ ∃ events, Kept coders request events s)
    pending ⟨hterminal, _, hrun.kept⟩ ?_
  · refine ⟨by omega, fun hstuck => ?_⟩
    exact (Run.kept hall).complete hbound.1.1 hstuck
  · rintro s₂ event s₃ ⟨hfinished₂, events₂, hkept₂⟩ hs
    obtain ⟨hfinished₃, hle⟩ := pending_step hkept₂ hfinished₂ hs
    exact ⟨⟨hfinished₃, _, hkept₂.step hs⟩, hle⟩

/-- A generation that has stalled: one chunk came, and then neither another one nor the end. -/
def stalled : List Event :=
  [.receive, .opened true none true "" 0, .ready, .generate (.chunk "Hello")]

/-- A run that is stalled when the ring is lost finishes its stream. -/
theorem lost_ring_ends_stalled : ∃ before s₁,
    Run greetingCoders (greetingRequest true) (stalled ++ before) s₁ ∧
      s₁.stream.terminal.isSome = true := by
  have hresult : (stalled.foldlM
      (fun s event => step greetingCoders (greetingRequest true) s event) init).map (·.pump) =
        some .reading := rfl
  obtain ⟨s, hs, hpump⟩ := Option.map_eq_some_iff.mp hresult
  have hrun : Run greetingCoders (greetingRequest true) stalled s := Trace.of_foldlM hs
  have hfailure : ringFailure (some (.lost (.memberDeparted ⟨"b"⟩) none)) = some _ := rfl
  obtain ⟨before, s₁, -, hrun₁, hterminal, -⟩ :=
    lost_ring_ends hrun (by rw [hpump]; exact fun hne => by cases hne) hfailure
  exact ⟨before, s₁, hrun₁, hterminal⟩

end ChatStream

end ShareCompute.App
