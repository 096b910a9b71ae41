import ShareCompute.App.ChatStream

namespace ShareCompute.App

/-!
# What a chat client puts together

The deltas of a streamed completion, and the message of one that is not streamed, as a client reads
them.

* `clientMessage` — the message that a client puts together of a stream.
* `foldl_choices` — the deltas add up to what was generated.
* `client_resolves`, `fullChoice_resolves` — sent back in a history, either message is the reply
  that the history has already.
-/

/-! ### What is generated and what a client makes of it -/

/-- The text of a chunk that is one. -/
def ModelResponseChunk.text? : ModelResponseChunk → Option String
  | .text content => some content
  | .toolCall _ => none

/-- The tool call of a chunk that is one. -/
def ModelResponseChunk.toolCall? : ModelResponseChunk → Option ModelResponseToolCall
  | .text _ => none
  | .toolCall call => some call

namespace ChatStream

/-- The texts of chunks, one after the other. -/
def texts (chunks : List ModelResponseChunk) : String :=
  String.join (chunks.filterMap (·.text?))

/-- The tool calls among the chunks that were taken, in their order. -/
def calls (chunks : List ModelResponseChunk) : List ModelResponseToolCall :=
  chunks.filterMap (·.toolCall?)

/-- The choices for chunks that come after `toolCallCount` tool calls. -/
def choices : ℕ → List ModelResponseChunk → List OpenAPIChoice
  | _, [] => []
  | toolCallCount, chunk :: rest =>
      choice toolCallCount chunk :: choices (toolCallCount + (calls [chunk]).length) rest

/-- A delta of a call that is there goes on with it, another one begins a call. -/
def addDelta (toolCalls : List OpenAPIToolCall) (delta : OpenAPIToolCallDelta) :
    List OpenAPIToolCall :=
  let name := (delta.function.bind (·.name)).getD ""
  let arguments := (delta.function.bind (·.arguments)).getD ""
  match toolCalls[delta.index]? with
  | some call =>
      toolCalls.set delta.index
        { call with
          function := ⟨call.function.name ++ name, call.function.arguments ++ arguments⟩ }
  | none => toolCalls ++ [⟨delta.id.getD "", delta.type.getD "", ⟨name, arguments⟩⟩]

/-- What a client has after one more delta. -/
def addChoice (self : String × List OpenAPIToolCall) (choice : OpenAPIChoice) :
    String × List OpenAPIToolCall :=
  (self.1 ++ choice.delta.content.getD "", (choice.delta.toolCalls.getD []).foldl addDelta self.2)

/-- The assistant's message that a client puts together. -/
def clientMessage (sent : List OpenAPIChatCompletionChunk) : OpenAPIMessage :=
  let (text, toolCalls) := (sent.flatMap (·.choices)).foldl addChoice ("", [])
  { role := .assistant
    content := some (.text text)
    name := none
    toolCalls := some toolCalls
    toolCallId := none }

/-- The texts of chunks are joined: one chunk more adds its text. -/
theorem texts_snoc (chunks : List ModelResponseChunk) (chunk : ModelResponseChunk) :
    texts (chunks ++ [chunk]) = texts chunks ++ chunk.text?.getD "" := by
  cases chunk with
  | text text => simp [texts, ModelResponseChunk.text?, String.join]
  | toolCall toolCall => simp [texts, ModelResponseChunk.text?]

/-- One chunk more adds its tool call, if it has one. -/
theorem calls_snoc (chunks : List ModelResponseChunk) (chunk : ModelResponseChunk) :
    calls (chunks ++ [chunk]) = calls chunks ++ chunk.toolCall?.toList := by
  cases chunk with
  | text text => simp [calls, ModelResponseChunk.toolCall?]
  | toolCall toolCall => simp [calls, ModelResponseChunk.toolCall?]

/-- One chunk more adds the choice that is made of it, numbered by the tool calls before it. -/
theorem choices_snoc (chunks : List ModelResponseChunk) (chunk : ModelResponseChunk) (n : ℕ) :
    choices n (chunks ++ [chunk]) =
      choices n chunks ++ [choice (n + (calls chunks).length) chunk] := by
  induction chunks generalizing n with
  | nil => simp [choices, calls]
  | cons first rest ih =>
    have hlength : (calls (first :: rest)).length =
        (calls [first]).length + (calls rest).length := by
      rw [← List.singleton_append, calls, List.filterMap_append, List.length_append]
      rfl
    rw [List.cons_append, choices, choices, ih, hlength, Nat.add_assoc, List.cons_append]

/-- There is one choice for each chunk. -/
@[simp] theorem length_choices (n : ℕ) (chunks : List ModelResponseChunk) :
    (choices n chunks).length = chunks.length := by
  induction chunks generalizing n with
  | nil => rfl
  | cons chunk chunks ih => rw [choices, List.length_cons, List.length_cons, ih]

/-- **The deltas add up.**  Each tool call gets an index of its own, so a client that goes by the
    indices gets the calls as they were generated. -/
theorem foldl_choices (chunks : List ModelResponseChunk) :
    (choices 0 chunks).foldl addChoice ("", []) =
      (texts chunks, (calls chunks).map (·.openAPIToolCall)) := by
  induction chunks using List.reverseRecOn with
  | nil => rfl
  | append_singleton chunks chunk ih =>
    rw [choices_snoc, List.foldl_append, ih, texts_snoc, calls_snoc, Nat.zero_add]
    cases chunk with
    | text text => simp [addChoice, choice, ModelResponseChunk.text?, ModelResponseChunk.toolCall?]
    | toolCall toolCall =>
      -- the index is the number of the calls before, so there is none there yet
      simp [addChoice, choice, ModelResponseChunk.text?, ModelResponseChunk.toolCall?, addDelta,
        ModelResponseToolCall.delta, ModelResponseToolCall.openAPIToolCall]

variable (coders : Coders) (request : OpenAPIChatCompletionRequest)

/-- A message with a text and tool calls, and nothing else, is the reply with these. -/
theorem resolved_eq_reply {message : OpenAPIMessage} {text : String}
    {toolCalls : List ModelResponseToolCall} (hrole : message.role = .assistant)
    (htext : message.content = some (.text text) ∨ message.content = none ∧ text = "")
    (hcalls : message.toolCalls = some (toolCalls.map (·.openAPIToolCall)) ∨
      message.toolCalls = none ∧ toolCalls = []) :
    message.resolvedChatMessage coders = reply coders text toolCalls := by
  have hcontent : (message.content.map (·.contentText)).getD "" = text ∧
      (message.content.map (·.imageURLs coders)).getD [] = [] := by
    obtain hsome | ⟨hnone, rfl⟩ := htext
    · rw [hsome]
      exact ⟨rfl, rfl⟩
    · rw [hnone]
      exact ⟨rfl, rfl⟩
  have hnormalized : (message.toolCalls.bind fun toolCalls =>
      normalizedToolCallContent coders
        (toolCalls.map fun call => ⟨call.function.name, call.function.arguments⟩)) =
      normalizedToolCallContent coders (toolCalls.map fun call => ⟨call.name, call.arguments⟩) := by
    obtain hsome | ⟨hnone, rfl⟩ := hcalls
    · rw [hsome, Option.bind_some, List.map_map]
      rfl
    · rw [hnone]
      rfl
  unfold OpenAPIMessage.resolvedChatMessage
  rw [hcontent.1, hcontent.2, hnormalized, hrole]
  rfl

/-- What the client has of a stream is the reply. -/
theorem client_resolves {taken : List ModelResponseChunk} {sent : List OpenAPIChatCompletionChunk}
    (h : sent.map (·.choices) = (choices 0 taken).map ([·])) :
    (clientMessage sent).resolvedChatMessage coders = reply coders (texts taken) (calls taken) := by
  have hflat : sent.flatMap (·.choices) = choices 0 taken := by
    rw [List.flatMap_def, h, ← List.flatMap_def, List.flatMap_singleton']
  have hfold := foldl_choices taken
  refine resolved_eq_reply coders rfl (.inl ?_) (.inl ?_)
  · show some (OpenAPIMessageContent.text
      ((sent.flatMap (·.choices)).foldl addChoice ("", [])).1) = _
    rw [hflat, hfold]
  · show some ((sent.flatMap (·.choices)).foldl addChoice ("", [])).2 = _
    rw [hflat, hfold]

/-- So is the message of a response that is not streamed. -/
theorem fullChoice_resolves (chunks : List ModelResponseChunk) :
    (fullChoice (texts chunks) ((calls chunks).map (·.openAPIToolCall))).message.resolvedChatMessage
      coders = reply coders (texts chunks) (calls chunks) := by
  refine resolved_eq_reply coders rfl ?_ ?_
  · by_cases hempty : texts chunks = ""
    · exact .inr ⟨if_pos (by rw [hempty]; rfl), hempty⟩
    · exact .inl (if_neg (by simpa [String.isEmpty_iff] using hempty))
  · by_cases hempty : calls chunks = []
    · exact .inr ⟨if_pos (by rw [hempty]; rfl), hempty⟩
    · exact .inl (if_neg (by simpa using hempty))

end ChatStream

end ShareCompute.App
