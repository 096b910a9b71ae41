import ShareCompute.App.ChatPump

namespace ShareCompute.App

open ShareCompute.Core ShareCompute.Library

/-!
# What a chat client is told

Whatever the order in which the tasks of a request and the event loop take their steps.

* `Answered` — the side of the request's task: what was taken and what is written.
* `Kept` — both sides; `Kept.step` is that every step keeps it.
* `stream_law` — the stream is true to the generation, and `[DONE]` is only said of one that has
  come to its end, with the same message in the history.
* `response_law` — the same without streaming, where a failure is not told.
-/

namespace ChatStream

variable {coders : Coders} {request : OpenAPIChatCompletionRequest} {events : List Event}
  {taken : List ModelResponseChunk} {s s' : ChatStream} {event : Event}

/-! ### The side of the request's task -/

/-- What is written, and what will be once the event loop has run. -/
def output (s : ChatStream) : List Part := s.written ++ s.eventLoop.flatten

/-- What is written in a closure is put behind all that was written or still waits to be. -/
theorem output_execute (s : ChatStream) (closure : List Part) :
    (s.execute closure).output = s.output ++ closure := by
  simp [output, execute]

variable (coders request) in
/-- What is written before the stream has ended. -/
def begun (sent : List OpenAPIChatCompletionChunk) : List Part :=
  if request.stream = some true then startSSE ++ sent.flatMap (sendChunk coders) else []

variable (coders request) in
/-- What is written after the chunks of `taken`, by whether the request streams and how the stream
    has ended. -/
def ending (taken : List ModelResponseChunk) (uuid : String) (created : ℤ)
    (how : Option ModelManagerError) : List Part :=
  if request.stream = some true then
    match how with
    | none => closing coders request (calls taken).length uuid created
    | some _ => endSSE
  else
    sendData coders (completion request uuid created
      (fullChoice (texts taken) ((calls taken).map (·.openAPIToolCall)))) ok

variable (coders) in
/-- A stream that is not cut short ends in the closing parts, and one that failed in its end
    alone. -/
theorem ending_streaming (hstream : request.stream = some true) (taken : List ModelResponseChunk)
    (uuid : String) (created : ℤ) :
    ending coders request taken uuid created none =
        closing coders request (calls taken).length uuid created ∧
      ∀ error, ending coders request taken uuid created (some error) = endSSE :=
  ⟨if_pos hstream, fun _ => if_pos hstream⟩

/-- There was no model manager when the request asked it for a stream. -/
def Unmanaged (events : List Event) : Prop :=
  ∃ unusable session uuid created, Event.opened false unusable session uuid created ∈ events

/-- How it has ended for the request's task. -/
inductive Ended (events : List Event) (s : ChatStream) : Option ModelManagerError → Prop
  | stream {ending : Option ModelManagerError} (hterminal : s.stream.terminal = some ending)
      (hbuffer : s.stream.buffer = []) : Ended events s ending
  | unmanaged (hevents : Unmanaged events) (hpump : s.pump = .absent) : Ended events s none

variable (coders request) in
/-- What the task of the request has taken off the stream, and what it has written for that. -/
structure Answered (events : List Event) (taken : List ModelResponseChunk)
    (sent : List OpenAPIChatCompletionChunk) (s : ChatStream) : Prop where
  starting : s.handler = .received ∨ s.handler = .opening →
    s.pump = .absent ∧ s.stream = .makeStream ∧ s.cancelled = false ∧ s.watching = false ∧ sent = []
  numbered : request.stream = some true →
    sent.map (·.choices) = (choices 0 taken).map ([·]) ∧ s.toolCallCount = (calls taken).length
  collected : request.stream ≠ some true →
    s.fullText = texts taken ∧ s.openAPIToolCalls = (calls taken).map (·.openAPIToolCall)
  received : s.handler = .received → s.output = []
  between : s.handler ≠ .received → s.handler ≠ .responded → s.output = begun coders request sent
  responded : s.handler = .responded → ∃ how uuid created, Ended events s how ∧
    s.output = begun coders request sent ++ ending coders request taken uuid created how

variable {sent : List OpenAPIChatCompletionChunk}

/-- At the start the task has taken nothing and written nothing. -/
theorem Answered.init : Answered coders request [] [] [] init where
  starting _ := ⟨rfl, rfl, rfl, rfl, rfl⟩
  numbered _ := ⟨rfl, rfl⟩
  collected _ := ⟨rfl, rfl⟩
  received _ := rfl
  between h := absurd rfl h
  responded h := by cases h

/-- A request that has ended has done so for the rest of the run. -/
theorem Ended.snoc {how : Option ModelManagerError} (h : Ended events s how) :
    Ended (events ++ [event]) s how := by
  cases h with
  | stream hterminal hbuffer => exact .stream hterminal hbuffer
  | unmanaged hevents hpump =>
    obtain ⟨unusable, session, uuid, created, hmem⟩ := hevents
    exact .unmanaged ⟨unusable, session, uuid, created, List.mem_append_left _ hmem⟩ hpump

/-- Whether the request has ended depends only on its stream and on whether a pump was started. -/
theorem Ended.congr {how : Option ModelManagerError} (h : Ended events s how)
    (hstream : s'.stream = s.stream) (hpump : s.pump = .absent → s'.pump = .absent) :
    Ended events s' how := by
  cases h with
  | stream hterminal hbuffer => exact .stream (hstream ▸ hterminal) (hstream ▸ hbuffer)
  | unmanaged hevents habsent => exact .unmanaged hevents (hpump habsent)

/-- An event that concerns neither the stream nor the output leaves the answer as it is. -/
theorem Answered.snoc (h : Answered coders request events taken sent s) :
    Answered coders request (events ++ [event]) taken sent s := by
  refine ⟨h.starting, h.numbered, h.collected, h.received, h.between, fun hresponded => ?_⟩
  obtain ⟨how, uuid, created, hended, houtput⟩ := h.responded hresponded
  exact ⟨how, uuid, created, hended.snoc, houtput⟩

/-- The side of the request's task is the same. -/
structure SameHandler (s s' : ChatStream) : Prop where
  handler : s'.handler = s.handler
  toolCallCount : s'.toolCallCount = s.toolCallCount
  fullText : s'.fullText = s.fullText
  openAPIToolCalls : s'.openAPIToolCalls = s.openAPIToolCalls
  output : s'.output = s.output

/-- What the other tasks do leaves it. -/
theorem Answered.congr (h : Answered coders request events taken sent s) (hsame : SameHandler s s')
    (hstarting : s.handler = .received ∨ s.handler = .opening → s'.pump = s.pump ∧
      s'.stream = s.stream ∧ s'.cancelled = s.cancelled ∧ s'.watching = s.watching)
    (hended : ∀ how, Ended events s how → Ended events s' how) :
    Answered coders request events taken sent s' := by
  obtain ⟨hhandler, hcount, htext, hcalls, houtput⟩ := hsame
  refine ⟨fun hstart => ?_, ?_, ?_, ?_, ?_, ?_⟩
  · rw [hhandler] at hstart
    obtain ⟨hpump, hstream, hcancelled, hwatching⟩ := hstarting hstart
    rw [hpump, hstream, hcancelled, hwatching]
    exact h.starting hstart
  · rw [hcount]
    exact h.numbered
  · rw [htext, hcalls]
    exact h.collected
  · rw [hhandler, houtput]
    exact h.received
  · rw [hhandler, houtput]
    exact h.between
  · rw [hhandler, houtput]
    intro hresponded
    obtain ⟨how, uuid, created, hhow, heq⟩ := h.responded hresponded
    exact ⟨how, uuid, created, hended how hhow, heq⟩

/-- Only a request whose stream was opened has tasks. -/
theorem Answered.opened (h : Answered coders request events taken sent s)
    (hbusy : s.pump ≠ .absent ∨ s.watching = true) :
    ¬ (s.handler = .received ∨ s.handler = .opening) := by
  intro hstart
  obtain ⟨hpump, -, -, hwatching, -⟩ := h.starting hstart
  obtain hne | htrue := hbusy
  · exact hne hpump
  · rw [hwatching] at htrue
    cases htrue

/-- How it has ended is not changed by finishing the stream again. -/
theorem Ended.finishStream {how error : Option ModelManagerError} {pump : Pump}
    (h : Ended events s how) (hpump : s.pump = .absent → pump = .absent) :
    Ended events { s.finishStream error with pump := pump } how := by
  cases h with
  | stream hterminal hbuffer =>
    refine .stream ?_ ?_
    · show (s.stream.finish error).terminal = _
      rw [AsyncStream.finish_terminal, hterminal, Option.getD_some]
    · show (s.stream.finish error).buffer = _
      rw [AsyncStream.finish_buffer, hbuffer]
  | unmanaged hevents habsent => exact .unmanaged hevents (hpump habsent)

/-- What the pump makes of a chunk does not change how the stream ends. -/
theorem Ended.pumpChunk {how : Option ModelManagerError} {chunk : ModelResponseChunk}
    (h : Ended events s how) (hpump : s.pump ≠ .absent) :
    Ended events (s.pumpChunk chunk) how := by
  cases h with
  | stream hterminal hbuffer =>
    have hsame : (s.pumpChunk chunk).stream = s.stream := by
      have hfinished : s.stream.terminal.isSome = true := by
        rw [hterminal]
        rfl
      cases chunk <;> exact AsyncStream.yield_of_finished hfinished
    exact .stream (hsame ▸ hterminal) (hsame ▸ hbuffer)
  | unmanaged hevents habsent => exact absurd habsent hpump

/-- A chunk is taken, and what is sent for it. -/
theorem Answered.handleChunk (h : Answered coders request events taken sent s)
    (hreading : s.handler = .reading) (stream : AsyncStream ModelResponseChunk ModelManagerError)
    (uuid : String) (created : ℤ) (chunk : ModelResponseChunk) :
    Answered coders request events (taken ++ [chunk])
      (sent ++ [completionChunk request uuid created (choice s.toolCallCount chunk)])
      ({ s with stream := stream }.handleChunk coders request uuid created chunk) := by
  -- the output so far, with what the event loop still holds
  have houtput := h.between (by rw [hreading]; exact fun hne => by cases hne)
    (by rw [hreading]; exact fun hne => by cases hne)
  have hhandler : ({ s with stream := stream }.handleChunk coders request uuid created
      chunk).handler = .reading := by
    unfold ChatStream.handleChunk
    split
    · cases chunk <;> (simp only; split <;> exact hreading)
    · cases chunk <;> exact hreading
  refine ⟨?_, fun hstream => ?_, fun hstream => ?_, ?_, fun _ _ => ?_, ?_⟩
  · rw [hhandler]
    exact fun hne => by obtain hne | hne := hne <;> cases hne
  · -- the tool calls are numbered on from those that were sent
    obtain ⟨hnumbered, hcount⟩ := h.numbered hstream
    refine ⟨?_, ?_⟩
    · rw [List.map_append, hnumbered, choices_snoc, List.map_append, hcount, Nat.zero_add]
      rfl
    · unfold ChatStream.handleChunk
      rw [if_pos hstream, calls_snoc, List.length_append]
      cases chunk with
      | text text => simp only; split <;> exact hcount
      | toolCall toolCall =>
        show s.toolCallCount + 1 = _
        rw [hcount]
        rfl
  · -- without a stream the text and the calls are collected
    obtain ⟨htext, hcalls⟩ := h.collected hstream
    unfold ChatStream.handleChunk
    rw [if_neg hstream, texts_snoc, calls_snoc, List.map_append, ← htext, ← hcalls]
    cases chunk with
    | text text => exact ⟨rfl, (List.append_nil _).symm⟩
    | toolCall toolCall => exact ⟨(String.append_empty).symm, rfl⟩
  · rw [hhandler]
    exact fun hne => by cases hne
  · -- one more event is sent, or none if it cannot be encoded
    unfold ChatStream.handleChunk begun
    unfold begun at houtput
    by_cases hstream : request.stream = some true
    · rw [if_pos hstream] at houtput
      rw [if_pos hstream, if_pos hstream, List.flatMap_append, ← List.append_assoc, ← houtput]
      cases hencoded : coders.encode
          (completionChunk request uuid created (choice s.toolCallCount chunk)).encode with
      | none => cases chunk <;> simp [hencoded, sendChunk, output]
      | some json => cases chunk <;> simp [hencoded, output, execute]
    · rw [if_neg hstream] at houtput
      rw [if_neg hstream, if_neg hstream]
      cases chunk <;> exact houtput
  · rw [hhandler]
    exact fun hne => by cases hne

variable (coders request) in
/-- Responding is a step of the request's task, so it leaves the pump's side as it is. -/
theorem samePump_respond (uuid : String) (created : ℤ) (how : Option ModelManagerError) :
    SamePump s (s.respond coders request uuid created how) := by
  unfold ChatStream.respond
  split
  · cases how <;> exact ⟨rfl, rfl, rfl, rfl, rfl⟩
  · exact ⟨rfl, rfl, rfl, rfl, rfl⟩

/-- The response is given once: the handler that gives it was opening or reading before. -/
theorem Answered.respond (h : Answered coders request events taken sent s)
    (hbetween : s.handler = .opening ∨ s.handler = .reading) {how : Option ModelManagerError}
    (hended : Ended events s how) (uuid : String) (created : ℤ) :
    Answered coders request events taken sent (s.respond coders request uuid created how) := by
  have houtput := h.between (by obtain heq | heq := hbetween <;> rw [heq] <;> simp)
    (by obtain heq | heq := hbetween <;> rw [heq] <;> simp)
  have hhandler : (s.respond coders request uuid created how).handler = .responded := by
    unfold ChatStream.respond
    split
    · cases how <;> rfl
    · rfl
  refine ⟨?_, ?_, ?_, ?_, ?_, fun _ => ⟨how, uuid, created, ?_, ?_⟩⟩
  · rw [hhandler]
    exact fun hne => by obtain hne | hne := hne <;> cases hne
  · intro hstream
    obtain ⟨hnumbered, hcount⟩ := h.numbered hstream
    refine ⟨hnumbered, ?_⟩
    unfold ChatStream.respond
    rw [if_pos hstream]
    cases how <;> exact hcount
  · intro hstream
    unfold ChatStream.respond
    rw [if_neg hstream]
    exact h.collected hstream
  · rw [hhandler]
    exact fun hne => by cases hne
  · rw [hhandler]
    exact fun _ hne => absurd rfl hne
  · -- the answer does not touch the stream or the pump
    have hsame : SamePump s (s.respond coders request uuid created how) :=
      samePump_respond coders request uuid created how
    exact hended.congr hsame.stream hsame.pump.trans
  · -- it is put behind all that was sent
    unfold ChatStream.respond ending
    by_cases hstream : request.stream = some true
    · rw [if_pos hstream, if_pos hstream, ← houtput, ← (h.numbered hstream).2]
      cases how <;> exact output_execute _ _
    · obtain ⟨htext, hcalls⟩ := h.collected hstream
      rw [if_neg hstream, if_neg hstream, ← houtput, ← htext, ← hcalls]
      exact output_execute _ _

/-! ### Every step -/

variable (coders request) in
/-- Both sides of a request together, with what was taken and sent. -/
def Kept (events : List Event) (s : ChatStream) : Prop :=
  ∃ taken sent, Flow coders events taken s ∧ Answered coders request events taken sent s

/-- When the request is received the handler goes on to open the stream, and a streamed answer
    begins. -/
theorem Kept.receive (hflow : Flow coders (events ++ [event]) taken s)
    (hanswered : Answered coders request (events ++ [event]) taken sent s)
    (hreceived : s.handler = .received) :
    Kept coders request (events ++ [event])
      { (if request.stream = some true then s.execute startSSE else s) with
        handler := .opening } := by
  obtain ⟨hpump, hstream, hcancelled, hwatching, rfl⟩ := hanswered.starting (.inl hreceived)
  have houtput := hanswered.received hreceived
  by_cases hstreaming : request.stream = some true
  · rw [if_pos hstreaming]
    refine ⟨taken, [], hflow.congr ⟨rfl, rfl, rfl, rfl, rfl⟩ (fun _ => .inl hpump),
      fun _ => ⟨hpump, hstream, hcancelled, hwatching, rfl⟩, hanswered.numbered,
      hanswered.collected, (fun hne => by cases hne), fun _ _ => ?_, (fun hne => by cases hne)⟩
    show (s.execute startSSE).output = _
    rw [output_execute, houtput, begun, if_pos hstreaming]
    rfl
  · rw [if_neg hstreaming]
    refine ⟨taken, [], hflow.congr ⟨rfl, rfl, rfl, rfl, rfl⟩ (fun _ => .inl hpump),
      fun _ => ⟨hpump, hstream, hcancelled, hwatching, rfl⟩, hanswered.numbered,
      hanswered.collected, (fun hne => by cases hne), fun _ _ => ?_, (fun hne => by cases hne)⟩
    rw [begun, if_neg hstreaming]
    exact houtput

/-- The request's task has its stream, or soon will. -/
theorem Answered.open_stream (h : Answered coders request events taken sent s)
    (hwaiting : s.handler = .opening ∨ s.handler = .preparing)
    (hhandler : s'.handler = .preparing ∨ s'.handler = .reading)
    (hcount : s'.toolCallCount = s.toolCallCount) (htext : s'.fullText = s.fullText)
    (hcalls : s'.openAPIToolCalls = s.openAPIToolCalls) (hsame : s'.output = s.output) :
    Answered coders request events taken sent s' := by
  have houtput := h.between (by obtain heq | heq := hwaiting <;> rw [heq] <;> simp)
    (by obtain heq | heq := hwaiting <;> rw [heq] <;> simp)
  refine ⟨fun hstart => ?_, hcount ▸ h.numbered, htext ▸ hcalls ▸ h.collected,
    fun hne => ?_, fun _ _ => hsame.trans houtput, fun hne => ?_⟩
  · obtain heq | heq := hhandler <;> rw [heq] at hstart <;>
      obtain hne | hne := hstart <;> cases hne
  · obtain heq | heq := hhandler <;> rw [heq] at hne <;> cases hne
  · obtain heq | heq := hhandler <;> rw [heq] at hne <;> cases hne

/-- The pump goes on to another place. -/
theorem Kept.pump {pump : Pump} {replies : List ChatMessage} (hne : s.pump ≠ .absent)
    (hflow : Flow coders events taken { s with pump := pump, replies := replies })
    (hanswered : Answered coders request events taken sent s) :
    Kept coders request events { s with pump := pump, replies := replies } :=
  ⟨taken, sent, hflow, hanswered.congr ⟨rfl, rfl, rfl, rfl, rfl⟩
    (fun hstart => absurd hstart (hanswered.opened (.inl hne)))
    (fun _ hended => hended.congr rfl (fun habsent => absurd habsent hne))⟩

/-- The pump or the watch finishes the stream. -/
theorem Kept.finishStream {how : Option ModelManagerError} {pump : Pump} {watching : Bool}
    (hbusy : s.pump ≠ .absent ∨ s.watching = true) (hpump : s.pump = .absent → pump = .absent)
    (hflow : Flow coders events taken { s.finishStream how with pump := pump })
    (hanswered : Answered coders request events taken sent s) :
    Kept coders request events { s.finishStream how with pump := pump, watching := watching } :=
  ⟨taken, sent, hflow.congr ⟨rfl, rfl, rfl, rfl, rfl⟩ hflow.cancelled,
    hanswered.congr ⟨rfl, rfl, rfl, rfl, rfl⟩
      (fun hstart => absurd hstart (hanswered.opened hbusy))
      (fun _ hended => (hended.finishStream hpump).congr rfl id)⟩

variable (coders request) in
/-- Handling a chunk leaves the pump's side. -/
theorem samePump_handleChunk (uuid : String) (created : ℤ) (chunk : ModelResponseChunk) :
    SamePump s (s.handleChunk coders request uuid created chunk) ∧
      (s.handleChunk coders request uuid created chunk).cancelled = s.cancelled := by
  unfold ChatStream.handleChunk
  split
  · cases chunk <;> (simp only; split <;> exact ⟨⟨rfl, rfl, rfl, rfl, rfl⟩, rfl⟩)
  · cases chunk <;> exact ⟨⟨rfl, rfl, rfl, rfl, rfl⟩, rfl⟩

/-- Every step keeps both sides, by the cases of who takes it. -/
theorem Kept.step (h : Kept coders request events s)
    (hs : s.step coders request event = some s') : Kept coders request (events ++ [event]) s' := by
  obtain ⟨taken, sent, hflow, hanswered⟩ := h
  -- the pump is there wherever it is found at one of its points
  have hpresent : ∀ {pump : Pump}, s.pump = pump → pump ≠ .absent → s.pump ≠ .absent :=
    fun heq hne habsent => hne (heq.symm.trans habsent)
  -- an event that brings no chunk leaves the account of the chunks alone
  have hsnoc : event.chunk? = none → Flow coders (events ++ [event]) taken s := hflow.snoc
  have hmem : event ∈ events ++ [event] := List.mem_append_right _ (List.mem_singleton_self _)
  cases stepped hs with
  | receive hreceived => exact Kept.receive (hsnoc rfl) hanswered.snoc hreceived
  | unmanaged hopening =>
    -- without a manager the request is answered before there is a pump
    obtain ⟨hpump, -⟩ := hanswered.starting (.inr hopening)
    exact ⟨taken, sent,
      (hsnoc rfl).congr (samePump_respond coders request _ _ none) (fun _ => .inl hpump),
      hanswered.snoc.respond (.inl hopening) (.unmanaged ⟨_, _, _, _, hmem⟩ hpump) _ _⟩
  | @refused _ _ _ _ error hopening =>
    -- a session that cannot be used ends the stream before a chunk is in it
    have hfail := (hsnoc rfl).fail error (.inl rfl)
    exact ⟨taken, sent, hfail.congr ⟨rfl, rfl, rfl, rfl, rfl⟩ hfail.cancelled,
      hanswered.snoc.open_stream (.inl hopening) (.inr rfl) rfl rfl rfl rfl⟩
  | started hopening =>
    obtain ⟨hpump, hstream, hcancelled, -⟩ := hanswered.starting (.inr hopening)
    have hstart := (hsnoc rfl).start hpump hstream hcancelled
    exact ⟨taken, sent, hstart.congr ⟨rfl, rfl, rfl, rfl, rfl⟩ hstart.cancelled,
      hanswered.snoc.open_stream (.inl hopening) (.inl rfl) rfl rfl rfl rfl⟩
  | ready hpreparing =>
    exact ⟨taken, sent, (hsnoc rfl).congr ⟨rfl, rfl, rfl, rfl, rfl⟩ hflow.cancelled,
      hanswered.snoc.open_stream (.inr hpreparing) (.inr rfl) rfl rfl rfl rfl⟩
  | @yielded generation chunk hreading hchunk =>
    have hne := hpresent hreading (by simp)
    refine ⟨taken, sent, hflow.pumpChunk hchunk hreading, hanswered.snoc.congr ?_
      (fun hstart => absurd hstart (hanswered.opened (.inl hne)))
      (fun how hended => hended.pumpChunk hne)⟩
    cases chunk <;> exact ⟨rfl, rfl, rfl, rfl, rfl⟩
  | silent hchunk => exact ⟨taken, sent, hsnoc hchunk, hanswered.snoc⟩
  | generated hreading =>
    exact Kept.pump (hpresent hreading (by simp))
      ((hsnoc rfl).pumpEnds hreading (.inl hmem)) hanswered.snoc
  | cut hreading hcancelled =>
    exact Kept.pump (hpresent hreading (by simp))
      ((hsnoc rfl).pumpEnds hreading (.inr hcancelled)) hanswered.snoc
  | throw hreading =>
    have hne := hpresent hreading (by simp)
    exact Kept.finishStream (.inl hne) (fun habsent => absurd habsent hne)
      ((hsnoc rfl).fail _ (.inr ⟨hreading, rfl⟩)) hanswered.snoc
  | append hpump =>
    exact Kept.pump (hpresent hpump (by simp)) ((hsnoc rfl).append hpump) hanswered.snoc
  | finish hpump =>
    have hne := hpresent hpump (by simp)
    exact Kept.finishStream (.inl hne) (fun habsent => absurd habsent hne)
      ((hsnoc rfl).finish hpump) hanswered.snoc
  | stopped hwatching hcancelled =>
    exact ⟨taken, sent, (hsnoc rfl).congr ⟨rfl, rfl, rfl, rfl, rfl⟩ hflow.cancelled,
      hanswered.snoc.congr ⟨rfl, rfl, rfl, rfl, rfl⟩
        (fun hstart => absurd hstart (hanswered.opened (.inr hwatching)))
        (fun _ hended => hended.congr rfl id)⟩
  | failed hwatching =>
    exact Kept.finishStream (.inr hwatching) id ((hsnoc rfl).fail _ (.inl rfl)) hanswered.snoc
  | waited => exact ⟨taken, sent, hsnoc rfl, hanswered.snoc⟩
  | @taken uuid created chunk stream hreading hnext =>
    -- one chunk goes from the stream to the parts that were sent
    have htake := (hsnoc rfl).take hnext
    have hhandled : SamePump { s with stream := stream } _ ∧ _ :=
      samePump_handleChunk coders request uuid created chunk
    obtain ⟨hsame, hcancelled⟩ := hhandled
    exact ⟨taken ++ [chunk], _, htake.congr hsame (fun h => htake.cancelled (hcancelled ▸ h)),
      hanswered.snoc.handleChunk hreading stream uuid created chunk⟩
  | ended hreading hbuffer hterminal =>
    exact ⟨taken, sent, (hsnoc rfl).congr (samePump_respond coders request _ _ _)
      (fun _ => .inr (by rw [hterminal]; rfl)),
      hanswered.snoc.respond (.inr hreading) (.stream hterminal hbuffer) _ _⟩
  | release hresponded =>
    obtain ⟨how, -, -, hended, -⟩ := hanswered.responded hresponded
    refine ⟨taken, sent, (hsnoc rfl).congr ⟨rfl, rfl, rfl, rfl, rfl⟩ (fun _ => ?_),
      hanswered.snoc.congr ⟨rfl, rfl, rfl, rfl, rfl⟩ (fun hstart => ?_)
        (fun how hended => hended.congr rfl id)⟩
    · cases hended with
      | stream hterminal _ => exact .inr (by rw [hterminal]; rfl)
      | unmanaged _ hpump => exact .inl hpump
    · rw [hresponded] at hstart
      obtain hne | hne := hstart <;> cases hne
  | run hqueue =>
    -- the event loop writes the closure it has come to
    refine ⟨taken, sent, (hsnoc rfl).congr ⟨rfl, rfl, rfl, rfl, rfl⟩ hflow.cancelled,
      hanswered.snoc.congr ⟨rfl, rfl, rfl, rfl, ?_⟩ (fun _ => ⟨rfl, rfl, rfl, rfl⟩)
        (fun how hended => hended.congr rfl id)⟩
    rw [output, output, hqueue, List.flatten_cons, List.append_assoc]

variable (coders request) in
/-- A run of a request: its task, the pump, the event loop and the outside, in any order. -/
def Run (events : List Event) (s : ChatStream) : Prop :=
  Trace (fun s event s' => s.step coders request event = some s') init events s

/-- Both sides hold in every state that a run reaches. -/
theorem Run.kept (h : Run coders request events s) : Kept coders request events s :=
  Trace.invariant (I := Kept coders request) ⟨[], [], .init, .init⟩
    (fun _ _ _ _ _ hkept hs => hkept.step hs) h

/-! ### What a client is told -/

/-- What was written is what was put out, up to what still waits for the event loop. -/
theorem written_prefix (s : ChatStream) : s.written <+: s.output := List.prefix_append _ _

/-- What a request's task has sent when it has taken `taken` and has sent the chunks `sent`. -/
theorem Answered.output_cases (hanswered : Answered coders request events taken sent s) :
    s.output <+: begun coders request sent ∨ ∃ how uuid created, Ended events s how ∧
      s.output = begun coders request sent ++ ending coders request taken uuid created how := by
  by_cases hreceived : s.handler = .received
  · left
    rw [hanswered.received hreceived]
    exact List.nil_prefix
  · by_cases hresponded : s.handler = .responded
    · exact .inr (hanswered.responded hresponded)
    · left
      rw [hanswered.between hreceived hresponded]

/-- What has been generated if it has ended well. -/
theorem Flow.ended_well (h : Flow coders events taken s) (hended : Ended events s none) :
    Unmanaged events ∧ taken = [] ∨
      .generated ∈ events ∧ taken = offered events ∧ s.replies = [replyTo coders events] := by
  cases hended with
  | stream hterminal hbuffer =>
    obtain ⟨hgenerated, -, hreplies, hwhole⟩ := h.completed hterminal
    rw [hbuffer, List.append_nil] at hwhole
    exact .inr ⟨hgenerated, hwhole, hreplies⟩
  | unmanaged hevents hpump =>
    have htaken := h.carried.taken_prefix
    rw [h.absent hpump] at htaken
    exact .inl ⟨hevents, List.prefix_nil.mp htaken⟩

/-- **Streaming.**  The client is sent the chunks that were generated, from the first one on and
    each tool call with an index of its own.  `[DONE]` is only said when the generation has come to
    its end and all of it was sent; and then the history has one message for it, the one that the
    client puts together. -/
theorem stream_law (hstream : request.stream = some true) (h : Run coders request events s) :
    ∃ taken sent, taken <+: offered events ∧
      sent.map (·.choices) = (choices 0 taken).map ([·]) ∧
      (s.written <+: startSSE ++ sent.flatMap (sendChunk coders) ++ endSSE ∨
        ∃ uuid created, s.written <+: startSSE ++ sent.flatMap (sendChunk coders) ++
            closing coders request (calls taken).length uuid created ∧
          (Unmanaged events ∧ taken = [] ∨
            .generated ∈ events ∧ taken = offered events ∧
              s.replies = [(clientMessage sent).resolvedChatMessage coders])) := by
  obtain ⟨taken, sent, hflow, hanswered⟩ := h.kept
  have hnumbered := (hanswered.numbered hstream).1
  refine ⟨taken, sent, hflow.carried.taken_prefix, hnumbered, ?_⟩
  have hwritten := written_prefix s
  have hbegun : begun coders request sent = startSSE ++ sent.flatMap (sendChunk coders) :=
    if_pos hstream
  obtain hprefix | ⟨how, uuid, created, hended, heq⟩ := hanswered.output_cases
  · left
    rw [hbegun] at hprefix
    exact (hwritten.trans hprefix).trans (List.prefix_append _ _)
  · rw [heq, hbegun] at hwritten
    obtain ⟨hnone, hsome⟩ := ending_streaming coders hstream taken uuid created
    cases how with
    | some error =>
      rw [hsome] at hwritten
      exact .inl hwritten
    | none =>
      rw [hnone] at hwritten
      refine .inr ⟨uuid, created, hwritten, ?_⟩
      refine (hflow.ended_well hended).imp_right (fun ⟨hgenerated, hwhole, hreplies⟩ => ?_)
      refine ⟨hgenerated, hwhole, ?_⟩
      rw [hreplies, replyTo, ← hwhole, client_resolves coders hnumbered]

/-- **Without streaming.**  Nothing is written before the stream has ended and all that it carried
    was taken.  Then the response is one message with that, and it is given with the status 200 also
    when the generation has failed; when it has come to its end, the message is the pump's reply in
    the history. -/
theorem response_law (hstream : request.stream ≠ some true) (h : Run coders request events s) :
    s.written = [] ∨ ∃ taken uuid created, taken <+: offered events ∧
      s.written <+: sendData coders (completion request uuid created
        (fullChoice (texts taken) ((calls taken).map (·.openAPIToolCall)))) 200 ∧
      (Unmanaged events ∧ taken = [] ∨
        (s.stream.terminal = some none ∧ s.stream.buffer = []) ∧ .generated ∈ events ∧
          taken = offered events ∧
          s.replies = [(fullChoice (texts taken)
            ((calls taken).map (·.openAPIToolCall))).message.resolvedChatMessage coders] ∨
        ∃ error, s.stream.terminal = some (some error) ∧ s.stream.buffer = []) := by
  obtain ⟨taken, sent, hflow, hanswered⟩ := h.kept
  have hwritten := written_prefix s
  have hbegun : begun coders request sent = [] := if_neg hstream
  obtain hprefix | ⟨how, uuid, created, hended, heq⟩ := hanswered.output_cases
  · left
    rw [hbegun] at hprefix
    exact List.prefix_nil.mp (hwritten.trans hprefix)
  · right
    have hending : ending coders request taken uuid created how = _ := if_neg hstream
    rw [heq, hbegun, hending, List.nil_append] at hwritten
    refine ⟨taken, uuid, created, hflow.carried.taken_prefix, hwritten, ?_⟩
    cases how with
    | some error =>
      cases hended with
      | stream hterminal hbuffer => exact .inr (.inr ⟨error, hterminal, hbuffer⟩)
    | none =>
      rcases hflow.ended_well hended with hnobody | ⟨hgenerated, hwhole, hreplies⟩
      · exact .inl hnobody
      cases hended with
      | stream hterminal hbuffer =>
        refine .inr (.inl ⟨⟨hterminal, hbuffer⟩, hgenerated, hwhole, ?_⟩)
        rw [hreplies, replyTo, ← hwhole, fullChoice_resolves]
      | unmanaged hevents hpump =>
        -- without a manager nothing was taken
        have htaken := hwhole.trans (hflow.absent hpump)
        exact .inl ⟨hevents, htaken⟩

/-- A request for a greeting, with streaming or without. -/
def greetingRequest (stream : Bool) : OpenAPIChatCompletionRequest where
  model := some "m"
  messages := [⟨.user, some (.text "Hi"), none, none, none⟩]
  stream := some stream

/-- Encoding where nothing has to be escaped. -/
def greetingCoders : Coders where
  encode value := some (String.ofList (value.print fun c => [c]))
  url text := some text

/-- The generation ends, and so does the request's task; the event loop runs `runs` closures. -/
def greeted (runs : ℕ) : List Event :=
  [.receive, .opened true none true "" 0, .ready, .generate (.chunk "Hello"), .take "a" 0,
    .generated, .append, .finish, .take "b" 0] ++ List.replicate runs .run

/-- No event of this run opens a stream without the manager. -/
theorem not_unmanaged_greeted (runs : ℕ) : ¬Unmanaged (greeted runs) := by
  rintro ⟨unusable, session, uuid, created, hmem⟩
  simp [greeted] at hmem

/-- Where the steps of the greeting lead, when they are taken one after the other. -/
def greetedState (stream : Bool) (runs : ℕ) : Option ChatStream :=
  (greeted runs).foldlM (fun s event => step greetingCoders (greetingRequest stream) s event) init

/-- What is reached by these events is reached by a run of the request. -/
theorem run_greeted {stream : Bool} {runs : ℕ} (h : greetedState stream runs = some s) :
    Run greetingCoders (greetingRequest stream) (greeted runs) s :=
  Trace.of_foldlM h

/-- A chunk is sent as one data line at most. -/
theorem length_sendChunks_le (sent : List OpenAPIChatCompletionChunk) :
    (sent.flatMap (sendChunk coders)).length ≤ sent.length := by
  induction sent with
  | nil => exact le_refl 0
  | cons chunk sent ih =>
    have hone : (sendChunk coders chunk).length ≤ 1 := by
      unfold sendChunk
      split
      · exact le_refl 1
      · exact Nat.zero_le 1
    rw [List.flatMap_cons, List.length_append, List.length_cons]
    omega

/-- A greeting is sent in five parts, of which the last two are `[DONE]` and the end, and the client
    has the reply of the history. -/
theorem stream_law_greeted : ∃ s, Run greetingCoders (greetingRequest true) (greeted 3) s ∧
    (s.written.length = 5 ∧ s.written.drop 3 = [.body "data: [DONE]\n\n", .last]) ∧
    ∃ sent, sent.map (·.choices) = (choices 0 (offered (greeted 3))).map ([·]) ∧
      s.replies = [(clientMessage sent).resolvedChatMessage greetingCoders] := by
  have hresult : (greetedState true 3).map (fun s => (s.written.length, s.written.drop 3)) =
      some (5, [.body "data: [DONE]\n\n", .last]) := rfl
  obtain ⟨s, hs, hvalues⟩ := Option.map_eq_some_iff.mp hresult
  obtain ⟨hlength, hlast⟩ := Prod.mk.inj hvalues
  obtain ⟨taken, sent, htaken, hsent, hwritten⟩ := stream_law rfl (run_greeted hs)
  refine ⟨s, run_greeted hs, ⟨hlength, hlast⟩, ?_⟩
  rcases hwritten with hshort | ⟨uuid, created, -, hunmanaged | ⟨-, hall, hreplies⟩⟩
  · -- the head, a chunk and the end would be three parts
    have hcount := congrArg List.length hsent
    rw [List.length_map, List.length_map, length_choices] at hcount
    have htaken : taken.length ≤ 1 := htaken.length_le
    have hchunks := @length_sendChunks_le greetingCoders sent
    have hle := hshort.length_le
    rw [hlength, List.length_append, List.length_append] at hle
    have hhead : startSSE.length = 1 := rfl
    have hend : endSSE.length = 1 := rfl
    omega
  · exact absurd hunmanaged.1 (not_unmanaged_greeted 3)
  · exact ⟨sent, hall ▸ hsent, hreplies⟩

/-- The same greeting as a response of three parts, and its message in the history. -/
theorem response_law_greeted : ∃ s, Run greetingCoders (greetingRequest false) (greeted 1) s ∧
    s.written.length = 3 ∧ ∃ uuid created,
      s.written = sendData greetingCoders (completion (greetingRequest false) uuid created
        (fullChoice "Hello" [])) 200 ∧
      s.replies = [(fullChoice "Hello" []).message.resolvedChatMessage greetingCoders] := by
  have hresult : (greetedState false 1).map (fun s => (s.written.length, s.stream.terminal)) =
      some (3, some none) := rfl
  obtain ⟨s, hs, hvalues⟩ := Option.map_eq_some_iff.mp hresult
  obtain ⟨hlength, hterminal⟩ := Prod.mk.inj hvalues
  have hgreeting : texts (offered (greeted 1)) = "Hello" ∧ calls (offered (greeted 1)) = [] :=
    ⟨by decide, by decide⟩
  refine ⟨s, run_greeted hs, hlength, ?_⟩
  rcases response_law (by decide) (run_greeted hs) with
    hnothing | ⟨taken, uuid, created, -, hwritten, hunmanaged | ⟨-, -, hall, hreplies⟩ | herror⟩
  · rw [hnothing] at hlength
    cases hlength
  · exact absurd hunmanaged.1 (not_unmanaged_greeted 1)
  · rw [hall, hgreeting.1, hgreeting.2] at hwritten hreplies
    exact ⟨uuid, created, hwritten.eq_of_length hlength, hreplies⟩
  · obtain ⟨error, herror, -⟩ := herror
    rw [hterminal] at herror
    cases herror

end ChatStream

end ShareCompute.App
