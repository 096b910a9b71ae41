import ShareCompute.App.ChatStream
import ShareCompute.App.ChatClient

namespace ShareCompute.App

open ShareCompute.Core ShareCompute.Library

/-!
# The pump of a chat stream

What holds of the stream and of the history while the pump, the watch and the request's task take
their steps: nothing that was generated is lost before the stream is finished, and a stream that is
finished without an error has carried all of it.

* `offered` — the chunks that the pump has yielded.
* `Flow` — what was generated, yielded, taken, and added to the history.
-/

namespace ChatStream

variable (coders : Coders) (request : OpenAPIChatCompletionRequest)

/-! ### What a step can be -/

/-- A step with a guard is possible only where the guard holds. -/
theorem of_guard {σ : Type} {guard : Prop} [Decidable guard] {s s' : σ} {P : σ → Prop}
    (hs : (if guard then some s else none) = some s') (h : guard → P s) : P s' := by
  split at hs
  case isTrue hguard =>
    obtain rfl := Option.some.inj hs
    exact h hguard
  case isFalse => cases hs

/-- Each step with what it needs and what it leaves. -/
inductive Stepped (s : ChatStream) : Event → ChatStream → Prop
  | receive (hhandler : s.handler = .received) :
      Stepped s .receive
        { (if request.stream = some true then s.execute startSSE else s) with handler := .opening }
  | unmanaged {unusable : Option String} {session : Bool} {uuid : String} {created : ℤ}
      (hhandler : s.handler = .opening) :
      Stepped s (.opened false unusable session uuid created)
        (s.respond coders request uuid created none)
  | refused {unusable : Option String} {session : Bool} {uuid : String} {created : ℤ}
      {error : ModelManagerError} (hhandler : s.handler = .opening) :
      Stepped s (.opened true unusable session uuid created)
        { s.finishStream (some error) with handler := .reading }
  | started {unusable : Option String} {session : Bool} {uuid : String} {created : ℤ}
      (hhandler : s.handler = .opening) :
      Stepped s (.opened true unusable session uuid created)
        { s with handler := .preparing, pump := .reading, watching := true }
  | ready (hhandler : s.handler = .preparing) :
      Stepped s .ready { s with armed := true, handler := .reading }
  | yielded {generation : Generation} {chunk : ModelResponseChunk} (hpump : s.pump = .reading)
      (hchunk : generation.responseChunk = some chunk) :
      Stepped s (.generate generation) (s.pumpChunk chunk)
  | silent {generation : Generation} (hchunk : generation.responseChunk = none) :
      Stepped s (.generate generation) s
  | generated (hpump : s.pump = .reading) : Stepped s .generated { s with pump := .ended }
  | cut (hpump : s.pump = .reading) (hcancelled : s.cancelled = true) :
      Stepped s .cut { s with pump := .ended }
  | throw {description : String} (hpump : s.pump = .reading) :
      Stepped s (.throw description)
        { s.finishStream (some (.generation description)) with pump := .done }
  | append (hpump : s.pump = .ended) :
      Stepped s .append
        { s with
          pump := .appended
          replies := s.replies ++ [reply coders s.fullReply s.toolCalls] }
  | finish (hpump : s.pump = .appended) :
      Stepped s .finish { s.finishStream none with pump := .done }
  | stopped {health : Option RingHealth} (hwatching : s.watching = true)
      (hcancelled : s.cancelled = true) :
      Stepped s (.watch health) { s with watching := false }
  | failed {health : Option RingHealth} {error : ModelManagerError}
      (hwatching : s.watching = true) :
      Stepped s (.watch health) { s.finishStream (some error) with watching := false }
  | waited {health : Option RingHealth} : Stepped s (.watch health) s
  | taken {uuid : String} {created : ℤ} {chunk : ModelResponseChunk}
      {stream : AsyncStream ModelResponseChunk ModelManagerError} (hhandler : s.handler = .reading)
      (hnext : s.stream.next = some (.inl chunk, stream)) :
      Stepped s (.take uuid created)
        ({ s with stream := stream }.handleChunk coders request uuid created chunk)
  | ended {uuid : String} {created : ℤ} {how : Option ModelManagerError}
      (hhandler : s.handler = .reading) (hbuffer : s.stream.buffer = [])
      (hterminal : s.stream.terminal = some how) :
      Stepped s (.take uuid created) (s.respond coders request uuid created how)
  | release (hhandler : s.handler = .responded) :
      Stepped s .release { s with cancelled := s.cancelled || s.armed }
  | run {closure : List Part} {rest : List (List Part)} (hqueue : s.eventLoop = closure :: rest) :
      Stepped s .run { s with eventLoop := rest, written := s.written ++ closure }

variable {coders request} in
/-- Every step is one of the listed ones, with what it does to the pump and to the stream. -/
theorem stepped {s s' : ChatStream} {event : Event}
    (hs : s.step coders request event = some s') : Stepped coders request s event s' := by
  cases event with
  | watch health =>
    simp only [step] at hs
    split at hs
    case isFalse => cases hs
    case isTrue hwatching =>
      split at hs
      case isTrue hcancelled =>
        obtain rfl := Option.some.inj hs
        exact .stopped hwatching hcancelled
      case isFalse =>
        split at hs
        case h_1 =>
          obtain rfl := Option.some.inj hs
          exact .failed hwatching
        case h_2 =>
          obtain rfl := Option.some.inj hs
          exact .waited
  | take uuid created =>
    simp only [step] at hs
    split at hs
    case isFalse => cases hs
    case isTrue hreading =>
      split at hs
      case h_1 chunk stream hnext =>
        obtain rfl := Option.some.inj hs
        exact .taken hreading hnext
      case h_2 how stream hnext =>
        obtain rfl := Option.some.inj hs
        -- only a stream that has ended, with nothing left in it, ends the loop
        obtain ⟨hbuffer, hterminal, rfl⟩ := AsyncStream.next_ending hnext
        exact .ended hreading hbuffer hterminal
      case h_3 => cases hs
  | opened manager unusable session uuid created =>
    simp only [step] at hs
    split at hs
    case isFalse => cases hs
    case isTrue hopening =>
      cases manager with
      | false =>
        obtain rfl := Option.some.inj hs
        exact .unmanaged hopening
      | true =>
        simp only [if_true] at hs
        split at hs
        case h_1 =>
          obtain rfl := Option.some.inj hs
          exact .refused hopening
        case h_2 =>
          obtain rfl := Option.some.inj hs
          exact .started hopening
  | generate generation =>
    simp only [step] at hs
    split at hs
    case isFalse => cases hs
    case isTrue hreading =>
      split at hs
      case h_1 chunk hchunk =>
        obtain rfl := Option.some.inj hs
        exact .yielded hreading hchunk
      case h_2 hchunk =>
        obtain rfl := Option.some.inj hs
        exact .silent hchunk
  | run =>
    simp only [step] at hs
    split at hs
    case h_1 => cases hs
    case h_2 hqueue =>
      obtain rfl := Option.some.inj hs
      exact .run hqueue
  -- the others are one guard and one result each
  | receive => exact of_guard hs .receive
  | ready => exact of_guard hs .ready
  | generated => exact of_guard hs .generated
  | cut => exact of_guard hs (fun hcut => .cut hcut.1 hcut.2)
  | throw description => exact of_guard hs .throw
  | append => exact of_guard hs .append
  | finish => exact of_guard hs .finish
  | release => exact of_guard hs .release

/-! ### The pump's side -/

/-- The chunk that an event of the generation puts out, if it does. -/
def Event.chunk? : Event → Option ModelResponseChunk
  | .generate generation => generation.responseChunk
  | _ => none

/-- The chunks that the pump has yielded. -/
def offered (events : List Event) : List ModelResponseChunk := events.filterMap (·.chunk?)

/-- One event more offers the chunk that it puts out, behind those that were offered before. -/
theorem offered_snoc (events : List Event) (event : Event) :
    offered (events ++ [event]) = offered events ++ event.chunk?.toList := by
  rw [offered, List.filterMap_append]
  congr 1

/-- An event that puts out no chunk offers nothing. -/
theorem offered_snoc_none {events : List Event} {event : Event} (h : event.chunk? = none) :
    offered (events ++ [event]) = offered events := by
  rw [offered_snoc, h]
  exact List.append_nil _

/-- The message for all that was generated. -/
def replyTo (events : List Event) : ChatMessage :=
  reply coders (texts (offered events)) (calls (offered events))

/-- The side of the pump: what was offered is carried by the stream, and what was taken off it was
    offered. -/
structure Flow (events : List Event) (taken : List ModelResponseChunk) (s : ChatStream) :
    Prop where
  carried : s.stream.Carried (offered events) taken
  fullReply : s.fullReply = texts (offered events)
  toolCalls : s.toolCalls = calls (offered events)
  absent : s.pump = .absent → offered events = []
  unanswered : s.pump = .absent ∨ s.pump = .reading ∨ s.pump = .ended → s.replies = []
  appended : s.pump = .appended → s.replies = [replyTo coders events]
  replies : s.replies = [] ∨ s.replies = [replyTo coders events]
  /-- nobody cancels a pump whose stream could still be completed -/
  cancelled : s.cancelled = true → s.pump = .absent ∨ s.stream.terminal.isSome = true
  ended : s.pump = .ended ∨ s.pump = .appended →
    .generated ∈ events ∨ s.stream.terminal.isSome = true
  completed : s.stream.terminal = some none → .generated ∈ events ∧ s.pump = .done ∧
    s.replies = [replyTo coders events] ∧ taken ++ s.stream.buffer = offered events

variable {coders request} {events : List Event} {taken : List ModelResponseChunk}
  {s s' : ChatStream} {event : Event}

/-- At the start nothing was offered, and nothing was taken. -/
theorem Flow.init : Flow coders [] [] init where
  carried := .init
  fullReply := rfl
  toolCalls := rfl
  absent _ := rfl
  unanswered _ := rfl
  appended h := by cases h
  replies := .inl rfl
  cancelled h := by cases h
  ended h := by obtain h | h := h <;> cases h
  completed h := by cases h

/-- An event by which nothing is generated leaves the flow of chunks as it is. -/
theorem Flow.snoc (h : Flow coders events taken s) (hchunk : event.chunk? = none) :
    Flow coders (events ++ [event]) taken s := by
  have hoffered : offered (events ++ [event]) = offered events := offered_snoc_none hchunk
  have hreply : replyTo coders (events ++ [event]) = replyTo coders events := by
    rw [replyTo, replyTo, hoffered]
  refine ⟨hoffered ▸ h.carried, hoffered ▸ h.fullReply, hoffered ▸ h.toolCalls,
    hoffered ▸ h.absent, h.unanswered, hreply ▸ h.appended, hreply ▸ h.replies, h.cancelled,
    fun hended => (h.ended hended).imp_left (List.mem_append_left _), fun hcompleted => ?_⟩
  obtain ⟨hgenerated, hrest⟩ := h.completed hcompleted
  rw [hreply, hoffered]
  exact ⟨List.mem_append_left _ hgenerated, hrest⟩

/-- The pump's side of the chat is the same in both states; only the request's task has moved. -/
structure SamePump (s s' : ChatStream) : Prop where
  stream : s'.stream = s.stream
  pump : s'.pump = s.pump
  fullReply : s'.fullReply = s.fullReply
  toolCalls : s'.toolCalls = s.toolCalls
  replies : s'.replies = s.replies

/-- What only the request's task does leaves the pump's side. -/
theorem Flow.congr (h : Flow coders events taken s) (hsame : SamePump s s')
    (hcancelled : s'.cancelled = true → s.pump = .absent ∨ s.stream.terminal.isSome = true) :
    Flow coders events taken s' := by
  obtain ⟨hstream, hpump, hfullReply, htoolCalls, hreplies⟩ := hsame
  refine ⟨hstream ▸ h.carried, hfullReply ▸ h.fullReply, htoolCalls ▸ h.toolCalls,
    hpump ▸ h.absent, ?_, ?_, hreplies ▸ h.replies, ?_, ?_, ?_⟩
  · rw [hpump, hreplies]
    exact h.unanswered
  · rw [hpump, hreplies]
    exact h.appended
  · rw [hpump, hstream]
    exact hcancelled
  · rw [hpump, hstream]
    exact h.ended
  · rw [hstream, hpump, hreplies]
    exact h.completed

/-- The pump starts, on a stream of its own. -/
theorem Flow.start (h : Flow coders events taken s) (hpump : s.pump = .absent)
    (hstream : s.stream = .makeStream) (hcancelled : s.cancelled = false) :
    Flow coders events taken { s with pump := .reading } := by
  refine ⟨h.carried, h.fullReply, h.toolCalls, (fun hne => by cases hne),
    fun _ => h.unanswered (.inl hpump), (fun hne => by cases hne), h.replies, fun htrue => ?_,
    fun hne => ?_, fun hcompleted => ?_⟩
  · replace htrue : s.cancelled = true := htrue
    rw [hcancelled] at htrue
    cases htrue
  · obtain hne | hne := hne <;> cases hne
  · replace hcompleted : s.stream.terminal = some none := hcompleted
    rw [hstream] at hcompleted
    cases hcompleted

/-- The pump yields the chunk it has read, which is the last one generated so far. -/
theorem Flow.pumpChunk (h : Flow coders events taken s) {chunk : ModelResponseChunk}
    (hchunk : event.chunk? = some chunk) (hpump : s.pump = .reading) :
    Flow coders (events ++ [event]) taken (s.pumpChunk chunk) := by
  have hoffered : offered (events ++ [event]) = offered events ++ [chunk] := by
    rw [offered_snoc, hchunk]
    rfl
  have hreplies : s.replies = [] := h.unanswered (.inr (.inl hpump))
  have hpump' : (s.pumpChunk chunk).pump = .reading := by cases chunk <;> exact hpump
  have hstream' : (s.pumpChunk chunk).stream = s.stream.yield chunk := by cases chunk <;> rfl
  have hreplies' : (s.pumpChunk chunk).replies = [] := by cases chunk <;> exact hreplies
  have hcancelled' : (s.pumpChunk chunk).cancelled = s.cancelled := by cases chunk <;> rfl
  refine ⟨?_, ?_, ?_, ?_, fun _ => hreplies', ?_, .inl hreplies', ?_, ?_, ?_⟩
  · rw [hoffered, hstream']
    exact h.carried.yield
  · rw [hoffered, texts_snoc, ← h.fullReply]
    cases chunk with
    | text text => rfl
    | toolCall toolCall => exact (String.append_empty).symm
  · rw [hoffered, calls_snoc, ← h.toolCalls]
    cases chunk with
    | text text => exact (List.append_nil _).symm
    | toolCall toolCall => rfl
  · rw [hpump']
    exact fun hne => by cases hne
  · rw [hpump']
    exact fun hne => by cases hne
  · rw [hcancelled', hstream', AsyncStream.yield_terminal]
    exact fun hcancelled => (h.cancelled hcancelled).imp_left (fun habsent => by
      rw [hpump] at habsent
      cases habsent)
  · rw [hpump']
    exact fun hne => by obtain hne | hne := hne <;> cases hne
  · rw [hstream', AsyncStream.yield_terminal]
    intro hcompleted
    have hdone := (h.completed hcompleted).2.1
    rw [hpump] at hdone
    cases hdone

/-- Somebody finishes the stream with an error: the pump, the watch, or `streamResponse`. -/
theorem Flow.fail (h : Flow coders events taken s) (error : ModelManagerError) {pump : Pump}
    (hpump : pump = s.pump ∨ s.pump = .reading ∧ pump = .done) :
    Flow coders events taken { s.finishStream (some error) with pump := pump } := by
  have hterminal : (s.stream.finish (some error)).terminal =
      some (s.stream.terminal.getD (some error)) := AsyncStream.finish_terminal
  have hsome : (s.stream.finish (some error)).terminal.isSome = true := by
    rw [hterminal]
    rfl
  refine ⟨h.carried.finish, h.fullReply, h.toolCalls, ?_, ?_, ?_, h.replies, fun _ => .inr hsome,
    fun _ => .inr hsome, fun hcompleted => ?_⟩
  · obtain rfl | ⟨-, rfl⟩ := hpump
    · exact h.absent
    · exact fun hne => by cases hne
  · obtain rfl | ⟨hreading, -⟩ := hpump
    · exact h.unanswered
    · exact fun _ => h.unanswered (.inr (.inl hreading))
  · obtain rfl | ⟨-, rfl⟩ := hpump
    · exact h.appended
    · exact fun hne => by cases hne
  · -- it was completed before, so the pump is not reading any more
    replace hcompleted : (s.stream.finish (some error)).terminal = some none := hcompleted
    have hbefore : s.stream.terminal = some none := by
      rw [hterminal] at hcompleted
      cases hterminal : s.stream.terminal with
      | none =>
        rw [hterminal] at hcompleted
        cases hcompleted
      | some ending =>
        rw [hterminal] at hcompleted
        exact hcompleted
    obtain ⟨hgenerated, hdone, hreplied, hwhole⟩ := h.completed hbefore
    refine ⟨hgenerated, ?_, hreplied, ?_⟩
    · obtain rfl | ⟨-, rfl⟩ := hpump
      · exact hdone
      · rfl
    · show taken ++ (s.stream.finish (some error)).buffer = _
      rw [AsyncStream.finish_buffer]
      exact hwhole

/-- The generation ends for the pump, because it came to its end or because it was cancelled. -/
theorem Flow.pumpEnds (h : Flow coders events taken s) (hpump : s.pump = .reading)
    (hends : .generated ∈ events ∨ s.cancelled = true) :
    Flow coders events taken { s with pump := .ended } := by
  have hreplies : s.replies = [] := h.unanswered (.inr (.inl hpump))
  have hfinished : s.cancelled = true → s.stream.terminal.isSome = true := fun hcancelled =>
    (h.cancelled hcancelled).resolve_left (by rw [hpump]; exact fun hne => by cases hne)
  refine ⟨h.carried, h.fullReply, h.toolCalls, (fun hne => by cases hne), fun _ => hreplies,
    (fun hne => by cases hne), .inl hreplies, fun hcancelled => .inr (hfinished hcancelled),
    fun _ => hends.imp_right hfinished, fun hcompleted => ?_⟩
  have hdone := (h.completed hcompleted).2.1
  rw [hpump] at hdone
  cases hdone

/-- The reply is added to the history. -/
theorem Flow.append (h : Flow coders events taken s) (hpump : s.pump = .ended) :
    Flow coders events taken
      { s with
        pump := .appended
        replies := s.replies ++ [reply coders s.fullReply s.toolCalls] } := by
  have hreplies : s.replies ++ [reply coders s.fullReply s.toolCalls] =
      [replyTo coders events] := by
    rw [h.unanswered (.inr (.inr hpump)), h.fullReply, h.toolCalls, replyTo, List.nil_append]
  refine ⟨h.carried, h.fullReply, h.toolCalls, (fun hne => by cases hne), fun hne => ?_,
    fun _ => hreplies, .inr hreplies, fun hcancelled => ?_, fun _ => h.ended (.inl hpump),
    fun hcompleted => ?_⟩
  · obtain hne | hne | hne := hne <;> cases hne
  · refine .inr ((h.cancelled hcancelled).resolve_left ?_)
    rw [hpump]
    exact fun hne => by cases hne
  · have hdone := (h.completed hcompleted).2.1
    rw [hpump] at hdone
    cases hdone

/-- The pump finishes the stream: if it is the first one, the generation has come to its end. -/
theorem Flow.finish (h : Flow coders events taken s) (hpump : s.pump = .appended) :
    Flow coders events taken { s.finishStream none with pump := .done } := by
  have hterminal : (s.stream.finish none).terminal = some (s.stream.terminal.getD none) :=
    AsyncStream.finish_terminal
  have hsome : (s.stream.finish none).terminal.isSome = true := by
    rw [hterminal]
    rfl
  refine ⟨h.carried.finish, h.fullReply, h.toolCalls, (fun hne => by cases hne), fun hne => ?_,
    (fun hne => by cases hne), .inr (h.appended hpump), fun _ => .inr hsome, fun _ => .inr hsome,
    fun hcompleted => ?_⟩
  · obtain hne | hne | hne := hne <;> cases hne
  · cases hbefore : s.stream.terminal with
    | none =>
      have hgenerated := (h.ended (.inr hpump)).resolve_right (by
        rw [hbefore]
        exact fun hne => by cases hne)
      refine ⟨hgenerated, rfl, h.appended hpump, ?_⟩
      show taken ++ (s.stream.finish none).buffer = _
      rw [AsyncStream.finish_buffer]
      exact h.carried.whole hbefore
    | some ending =>
      replace hcompleted : (s.stream.finish none).terminal = some none := hcompleted
      rw [hterminal, hbefore] at hcompleted
      have hdone := (h.completed (hbefore.trans hcompleted)).2.1
      rw [hpump] at hdone
      cases hdone

/-- The request's task takes the first chunk that the stream has buffered. -/
theorem Flow.take (h : Flow coders events taken s) {chunk : ModelResponseChunk}
    {stream : AsyncStream ModelResponseChunk ModelManagerError}
    (hnext : s.stream.next = some (.inl chunk, stream)) :
    Flow coders events (taken ++ [chunk]) { s with stream := stream } := by
  obtain ⟨hbuffer, hterminal⟩ := AsyncStream.next_element hnext
  refine ⟨h.carried.next hnext, h.fullReply, h.toolCalls, h.absent, h.unanswered, h.appended,
    h.replies, ?_, ?_, ?_⟩
  · show _ → _ ∨ stream.terminal.isSome = true
    rw [hterminal]
    exact h.cancelled
  · show _ → _ ∨ stream.terminal.isSome = true
    rw [hterminal]
    exact h.ended
  · show stream.terminal = some none → _ ∧ _ ∧ _ ∧ (taken ++ [chunk]) ++ stream.buffer = _
    rw [hterminal, List.append_assoc, List.singleton_append, ← hbuffer]
    exact h.completed

end ChatStream

end ShareCompute.App
