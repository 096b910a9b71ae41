import ShareCompute.Core.RingWatchdog
import ShareCompute.Library.AsyncStream
import ShareCompute.Library.Json
import ShareCompute.Library.Runs

namespace ShareCompute.App

open ShareCompute.Core ShareCompute.Library

/-!
# A chat completion

`ModelManager.streamResponseChunks` and `DataServer.handleChatCompletions`.  One task pumps what
the chat session generates into a stream, another one watches the ring and finishes the stream when
the generation cannot come to an end, and the request's task takes from the stream and has the
event loop write the response.

* `ModelResponseChunk`, `OpenAPIMessage`, … — what is generated, and what is sent of it.
* `ChatStream` — the tasks of one request, the stream and the event loop.
* `step` — one step of a task or of the event loop.
-/

/-! ### What the models and the services call things -/

/-- `ChatMessage.Role`, which the models of the OpenAPI share. -/
inductive Role
  | user
  | assistant
  | system
  | tool
deriving DecidableEq

/-- A message of the history; `images` has the absolute strings of their URLs. -/
structure ChatMessage where
  role : Role
  content : String
  images : List String
deriving DecidableEq

/-- A tool call as the model gives it. -/
structure ModelResponseToolCall where
  id : String
  name : String
  arguments : String
deriving DecidableEq

/-- What a stream of `streamResponseChunks` carries: texts and tool calls. -/
inductive ModelResponseChunk
  | text (text : String)
  | toolCall (toolCall : ModelResponseToolCall)
deriving DecidableEq

/-- The function of a tool call, with its arguments as JSON text. -/
structure OpenAPIFunctionCall where
  name : String
  arguments : String
deriving DecidableEq

/-- A tool call in a message that is sent or received. -/
structure OpenAPIToolCall where
  id : String
  type : String
  function : OpenAPIFunctionCall
deriving DecidableEq

/-- The image of a part; `detail` is how closely it is to be looked at. -/
structure OpenAPIImageURL where
  url : String
  detail : Option String
deriving DecidableEq

/-- A part of a content: `text` or `image_url` says which of the two it has. -/
structure OpenAPIMessageContentPart where
  type : String
  text : Option String
  imageURL : Option OpenAPIImageURL
deriving DecidableEq

/-- The content of a message: a text, or parts. -/
inductive OpenAPIMessageContent
  | text (text : String)
  | parts (parts : List OpenAPIMessageContentPart)
deriving DecidableEq

/-- A message of a request or of a response. -/
structure OpenAPIMessage where
  role : Role
  content : Option OpenAPIMessageContent
  name : Option String
  toolCalls : Option (List OpenAPIToolCall)
  toolCallId : Option String
deriving DecidableEq

/-- The fields of a request that the handler reads, but for its tools. -/
structure OpenAPIChatCompletionRequest where
  model : Option String
  messages : List OpenAPIMessage
  stream : Option Bool
deriving DecidableEq

/-- What a delta adds to the function of a tool call. -/
structure OpenAPIFunctionCallDelta where
  name : Option String
  arguments : Option String
deriving DecidableEq

/-- What a delta adds to the tool call at `index`. -/
structure OpenAPIToolCallDelta where
  index : ℕ
  id : Option String
  type : Option String
  function : Option OpenAPIFunctionCallDelta
deriving DecidableEq

/-- What a chunk adds to the message. -/
structure OpenAPIDelta where
  role : Option Role
  content : Option String
  toolCalls : Option (List OpenAPIToolCallDelta)
deriving DecidableEq

/-- The choice of a chunk; the last chunk says why it finished. -/
structure OpenAPIChoice where
  index : ℕ
  delta : OpenAPIDelta
  finishReason : Option String
deriving DecidableEq

/-- The object of a data line of a streamed completion. -/
structure OpenAPIChatCompletionChunk where
  id : String
  object : String
  created : ℤ
  model : String
  choices : List OpenAPIChoice
deriving DecidableEq

/-- The choice of a completion that is not streamed. -/
structure OpenAPIChoiceFull where
  index : ℕ
  message : OpenAPIMessage
  finishReason : Option String
deriving DecidableEq

/-- The body of a completion that is not streamed. -/
structure OpenAPIChatCompletionResponse where
  id : String
  object : String
  created : ℤ
  model : String
  choices : List OpenAPIChoiceFull
deriving DecidableEq

/-- A tool call as it is written into the content of a message of the history. -/
structure NormalizedToolCall where
  name : String
  arguments : String
deriving DecidableEq

/-! ### How they are encoded -/

/-- What `JSONEncoder` and `URL(string:)` make of their arguments. -/
structure Coders where
  encode : Json.Value → Option String
  /-- the absolute string -/
  url : String → Option String

/-- The raw value of a role, which is what a message encodes. -/
def Role.rawValue : Role → String
  | .user => "user"
  | .assistant => "assistant"
  | .system => "system"
  | .tool => "tool"

/-- `encodeIfPresent`: an optional member is written only if there is a value. -/
def encodeIfPresent (key : String) (value : Option Json.Value) : List (String × Json.Value) :=
  (value.map (key, ·)).toList

/-- An `Int` is encoded as its decimal digits. -/
def encodeInt (n : ℤ) : Json.Value := .num (toString n).toList

/-- `encode(to:)`, with the keys in the order of the properties. -/
def NormalizedToolCall.encode (self : NormalizedToolCall) : Json.Value :=
  .obj [("name", .str self.name), ("arguments", .str self.arguments)]

/-- `encode(to:)` of a function call, with its name and its arguments. -/
def OpenAPIFunctionCall.encode (self : OpenAPIFunctionCall) : Json.Value :=
  .obj [("name", .str self.name), ("arguments", .str self.arguments)]

/-- `encode(to:)` of a tool call, with its identifier, its type and its function. -/
def OpenAPIToolCall.encode (self : OpenAPIToolCall) : Json.Value :=
  .obj [("id", .str self.id), ("type", .str self.type), ("function", self.function.encode)]

/-- `encode(to:)` of an image, whose detail is optional. -/
def OpenAPIImageURL.encode (self : OpenAPIImageURL) : Json.Value :=
  .obj (("url", .str self.url) :: encodeIfPresent "detail" (self.detail.map .str))

/-- `encode(to:)` of a part, whose image has the key `image_url`. -/
def OpenAPIMessageContentPart.encode (self : OpenAPIMessageContentPart) : Json.Value :=
  .obj (("type", .str self.type) :: (encodeIfPresent "text" (self.text.map .str) ++
    encodeIfPresent "image_url" (self.imageURL.map (·.encode))))

/-- A single value: a string, or an array. -/
def OpenAPIMessageContent.encode : OpenAPIMessageContent → Json.Value
  | .text content => .str content
  | .parts content => .arr (content.map (·.encode))

/-- `encode(to:)` of a message; a `nil` property has no key. -/
def OpenAPIMessage.encode (self : OpenAPIMessage) : Json.Value :=
  .obj (("role", .str self.role.rawValue) ::
    (encodeIfPresent "content" (self.content.map (·.encode)) ++
      encodeIfPresent "name" (self.name.map .str) ++
      encodeIfPresent "tool_calls" (self.toolCalls.map fun calls => .arr (calls.map (·.encode))) ++
      encodeIfPresent "tool_call_id" (self.toolCallId.map .str)))

/-- `encode(to:)` of what is added to a function. -/
def OpenAPIFunctionCallDelta.encode (self : OpenAPIFunctionCallDelta) : Json.Value :=
  .obj (encodeIfPresent "name" (self.name.map .str) ++
    encodeIfPresent "arguments" (self.arguments.map .str))

/-- `encode(to:)` of what is added to a tool call. -/
def OpenAPIToolCallDelta.encode (self : OpenAPIToolCallDelta) : Json.Value :=
  .obj (("index", encodeInt self.index) :: (encodeIfPresent "id" (self.id.map .str) ++
    encodeIfPresent "type" (self.type.map .str) ++
    encodeIfPresent "function" (self.function.map (·.encode))))

/-- `encode(to:)` of a delta, whose members are all optional. -/
def OpenAPIDelta.encode (self : OpenAPIDelta) : Json.Value :=
  .obj (encodeIfPresent "role" (self.role.map (.str ·.rawValue)) ++
    encodeIfPresent "content" (self.content.map .str) ++
    encodeIfPresent "tool_calls" (self.toolCalls.map fun calls => .arr (calls.map (·.encode))))

/-- `encode(to:)` of the choice of a chunk; the reason is written only where there is one. -/
def OpenAPIChoice.encode (self : OpenAPIChoice) : Json.Value :=
  .obj (("index", encodeInt self.index) :: ("delta", self.delta.encode) ::
    encodeIfPresent "finish_reason" (self.finishReason.map .str))

/-- `encode(to:)` of a chunk, in the order of its coding keys. -/
def OpenAPIChatCompletionChunk.encode (self : OpenAPIChatCompletionChunk) : Json.Value :=
  .obj [("id", .str self.id), ("object", .str self.object), ("created", encodeInt self.created),
    ("model", .str self.model), ("choices", .arr (self.choices.map (·.encode)))]

/-- `encode(to:)` of the choice of a response, which carries a whole message. -/
def OpenAPIChoiceFull.encode (self : OpenAPIChoiceFull) : Json.Value :=
  .obj (("index", encodeInt self.index) :: ("message", self.message.encode) ::
    encodeIfPresent "finish_reason" (self.finishReason.map .str))

/-- `encode(to:)` of a response, of which a request without streaming is sent one. -/
def OpenAPIChatCompletionResponse.encode (self : OpenAPIChatCompletionResponse) : Json.Value :=
  .obj [("id", .str self.id), ("object", .str self.object), ("created", encodeInt self.created),
    ("model", .str self.model), ("choices", .arr (self.choices.map (·.encode)))]

/-! ### What they are turned into -/

namespace ModelResponseToolCall

/-- `openAPIToolCall`: a tool call of the model in the shape that the API prescribes. -/
def openAPIToolCall (self : ModelResponseToolCall) : OpenAPIToolCall :=
  ⟨self.id, "function", ⟨self.name, self.arguments⟩⟩

/-- `delta(index:)`: one delta has all of a call. -/
def delta (self : ModelResponseToolCall) (index : ℕ) : OpenAPIToolCallDelta :=
  ⟨index, some self.id, some "function", some ⟨some self.name, some self.arguments⟩⟩

/-- `modelResponseToolCall` of a call with `arguments` as `JSONEncoder` gives them. -/
def ofToolCall (uuid name : String) (arguments : Option String) : ModelResponseToolCall :=
  ⟨"call_" ++ uuid, name, arguments.getD "{}"⟩

end ModelResponseToolCall

namespace OpenAPIMessageContent

/-- `text` of a content: the text itself, or the texts of its parts joined together. -/
def contentText : OpenAPIMessageContent → String
  | .text content => content
  | .parts content =>
      String.join (content.filterMap fun part => if part.type = "text" then part.text else none)

/-- `imageURLs`: those of the parts that are images with a URL that can be read. -/
def imageURLs (coders : Coders) : OpenAPIMessageContent → List String
  | .text _ => []
  | .parts content =>
      content.filterMap fun part =>
        if part.type = "image_url" then part.imageURL.bind (coders.url ·.url) else none

end OpenAPIMessageContent

/-- `normalizedToolCallContent`: the tool calls of an assistant's message as one text, if there are
    any. -/
def normalizedToolCallContent (coders : Coders) (toolCalls : List NormalizedToolCall) :
    Option String :=
  if toolCalls.isEmpty then none else coders.encode (.arr (toolCalls.map (·.encode)))

/-- `parts.joined(separator: "\n\n")`, of the text and the tool calls that are there. -/
def joinedContent (text : String) (toolCalls : Option String) : String :=
  "\n\n".intercalate ((if text.isEmpty then [] else [text]) ++
    match toolCalls with
    | some calls => if calls.isEmpty then [] else [calls]
    | none => [])

/-- `resolvedChatMessage`: the message that a history has for one that a client has sent. -/
def OpenAPIMessage.resolvedChatMessage (coders : Coders) (self : OpenAPIMessage) : ChatMessage where
  role := self.role
  content :=
    joinedContent ((self.content.map (·.contentText)).getD "")
      (self.toolCalls.bind fun toolCalls =>
        normalizedToolCallContent coders
          (toolCalls.map fun call => ⟨call.function.name, call.function.arguments⟩))
  images := (self.content.map (·.imageURLs coders)).getD []

/-- `assistantHistoryContent(text:toolCalls:)`: the content of the reply in the history. -/
def assistantHistoryContent (coders : Coders) (text : String)
    (toolCalls : List ModelResponseToolCall) : String :=
  joinedContent text
    (normalizedToolCallContent coders (toolCalls.map fun call => ⟨call.name, call.arguments⟩))

/-! ### How a stream fails -/

/-- How a stream fails: by the manager, by the request, by the ring, or by what the session
    throws. -/
inductive ModelManagerError
  | notInitialized
  | invalidRequest (message : String)
  | ringLost (message : String)
  | ringReforming (message : String)
  /-- what the chat session throws -/
  | generation (description : String)
deriving DecidableEq

/-- `description` of why a device is gone. -/
def RingLossReason.description : RingLossReason → String
  | .memberDeparted node => node.rawValue ++ " left the ring"
  | .memberUnreachable node => node.rawValue ++ " stopped responding"

/-- `description` of why the ring could not be made again. -/
def RingFailureCause.description : RingFailureCause → String
  | .reformationFailed detail => "the ring could not be rebuilt — " ++ detail
  | .reformationTimedOut => "rebuilding the ring timed out"
  | .reformationExhausted attempts lastError =>
      "rebuilding the ring failed " ++ toString attempts ++ " times — " ++ lastError

/-- `userFacingMessage`: what the user is told of the health of the ring. -/
def userFacingMessage : RingHealth → Option String
  | .healthy => none
  | .stalled _ => some "Still working — this can take a while on large prompts."
  | .reforming reason _ =>
      some (RingLossReason.description reason ++ ". Rebuilding the ring without it…")
  | .lost reason none =>
      some (RingLossReason.description reason ++
        ". This ring can't be rebuilt without restarting the app.")
  | .lost reason (some cause) =>
      some (RingLossReason.description reason ++ " — " ++ RingFailureCause.description cause ++
        ". Restart the app to try again.")

/-- What the watch makes of the health of the ring; without a monitor it is `none`. -/
def ringFailure : Option RingHealth → Option ModelManagerError
  | some (.lost reason cause) =>
      some (.ringLost ((userFacingMessage (.lost reason cause)).getD
        "The ring is no longer available."))
  | some (.reforming reason since) =>
      some (.ringReforming ((userFacingMessage (.reforming reason since)).getD
        "Rebuilding the ring…"))
  | some .healthy | some (.stalled _) | none => none

/-! ### The tasks of a request -/

namespace ChatStream

/-- `HTTPResponseStatus.ok`, the status that these responses carry. -/
def ok : ℕ := 200

/-- A part of the response: its head with the status and the headers, a piece of the body, the
    end. -/
inductive Part
  | head (status : ℕ) (headers : List (String × String))
  | body (text : String)
  | last
deriving DecidableEq

/-- Where the request's task is, from the received body on to the response. -/
inductive Handler
  | received
  /-- it waits for `streamResponse` -/
  | opening
  /-- in `streamResponseChunks`, where the tasks run already -/
  | preparing
  | reading
  | responded
deriving DecidableEq

/-- Where the pump is, the task that carries what is generated over to the stream of the request. -/
inductive Pump
  | absent
  | reading
  /-- the generation has ended for it -/
  | ended
  | appended
  | done
deriving DecidableEq

/-- What the chat session gives: texts, information on the generation, and tool calls. -/
inductive Generation
  | chunk (text : String)
  | info
  | toolCall (uuid name : String) (arguments : Option String)

/-- A step of a task, with what it hears of the others and of the outside. -/
inductive Event
  | receive
  /-- `streamResponse`: is there a model manager; why the ring is not usable; is there a session -/
  | opened (manager : Bool) (unusable : Option String) (session : Bool) (uuid : String)
      (created : ℤ)
  /-- `onTermination` is set, and the stream returned -/
  | ready
  | generate (generation : Generation)
  /-- the generation has come to its end -/
  | generated
  /-- a cancelled task hears nothing more of the session than its end -/
  | cut
  | throw (description : String)
  | append
  | finish
  /-- the watch wakes up -/
  | watch (health : Option RingHealth)
  | take (uuid : String) (created : ℤ)
  /-- the stream is deallocated -/
  | release
  /-- the event loop runs what was executed first -/
  | run

end ChatStream

/-- The tasks of one request with their variables, their stream, and what the event loop has been
    given to execute and has written. -/
structure ChatStream where
  handler : ChatStream.Handler
  toolCallCount : ℕ
  fullText : String
  openAPIToolCalls : List OpenAPIToolCall
  stream : AsyncStream ModelResponseChunk ModelManagerError
  /-- `onTermination` is set -/
  armed : Bool
  /-- the pump and the watch are cancelled -/
  cancelled : Bool
  pump : ChatStream.Pump
  fullReply : String
  toolCalls : List ModelResponseToolCall
  /-- what the pump has appended to `chatHistoryStore`; that the store was given the request's own
  messages before is left out -/
  replies : List ChatMessage
  watching : Bool
  eventLoop : List (List ChatStream.Part)
  written : List ChatStream.Part

namespace ChatStream

/-- A request that has been parsed, and nothing more. -/
def init : ChatStream where
  handler := .received
  toolCallCount := 0
  fullText := ""
  openAPIToolCalls := []
  stream := .makeStream
  armed := false
  cancelled := false
  pump := .absent
  fullReply := ""
  toolCalls := []
  replies := []
  watching := false
  eventLoop := []
  written := []

variable (coders : Coders) (request : OpenAPIChatCompletionRequest)

/-! What the event loop writes. -/

/-- `startSSE`: the head of a stream of events. -/
def startSSE : List Part :=
  [.head ok [("Content-Type", "text/event-stream"), ("Cache-Control", "no-cache"),
    ("Connection", "keep-alive")]]

/-- `sendSSEData`: a data line of the event stream, as one part of the body. -/
def sendSSEData (string : String) : List Part := [.body string]

/-- `endSSE`: the part that ends the response. -/
def endSSE : List Part := [.last]

/-- A chunk is encoded and sent as one data line; one that cannot be encoded is left out. -/
def sendChunk (chunk : OpenAPIChatCompletionChunk) : List Part :=
  match coders.encode chunk.encode with
  | some json => sendSSEData ("data: " ++ json ++ "\n\n")
  | none => []

/-- `sendData`: a whole response, with its status, or nothing where the body cannot be encoded. -/
def sendData (body : OpenAPIChatCompletionResponse) (status : ℕ) : List Part :=
  match coders.encode body.encode with
  | some json => [.head status [("Content-Length", toString json.utf8ByteSize)], .body json, .last]
  | none => []

/-- `eventLoop.execute`: the closure waits behind those that were given to the event loop before. -/
def execute (self : ChatStream) (closure : List Part) : ChatStream :=
  { self with eventLoop := self.eventLoop ++ [closure] }

/-! What the request's task sends. -/

/-- The chunk that a choice is sent in. -/
def completionChunk (uuid : String) (created : ℤ) (choice : OpenAPIChoice) :
    OpenAPIChatCompletionChunk where
  id := "chatcmpl-" ++ uuid
  object := "chat.completion.chunk"
  created := created
  model := request.model.getD "unknown"
  choices := [choice]

/-- The choice for a chunk of the stream, after `toolCallCount` tool calls. -/
def choice (toolCallCount : ℕ) : ModelResponseChunk → OpenAPIChoice
  | .text text => ⟨0, ⟨some .assistant, some text, none⟩, none⟩
  | .toolCall toolCall => ⟨0, ⟨some .assistant, none, some [toolCall.delta toolCallCount]⟩, none⟩

/-- The choice of the chunk behind the last one that was taken. -/
def lastChoice (toolCallCount : ℕ) : OpenAPIChoice :=
  ⟨0, ⟨none, none, none⟩, some (if 0 < toolCallCount then "tool_calls" else "stop")⟩

/-- The choice of a completion that is not streamed: absent are a text and tool calls that are
    empty. -/
def fullChoice (fullText : String) (toolCalls : List OpenAPIToolCall) : OpenAPIChoiceFull where
  index := 0
  message :=
    { role := .assistant
      content := if fullText.isEmpty then none else some (.text fullText)
      name := none
      toolCalls := if toolCalls.isEmpty then none else some toolCalls
      toolCallId := none }
  finishReason := some (if toolCalls.isEmpty then "stop" else "tool_calls")

/-- The response that a choice is sent in. -/
def completion (uuid : String) (created : ℤ) (choice : OpenAPIChoiceFull) :
    OpenAPIChatCompletionResponse where
  id := "chatcmpl-" ++ uuid
  object := "chat.completion"
  created := created
  model := request.model.getD "unknown"
  choices := [choice]

/-- What comes after the last chunk that was taken. -/
def closing (toolCallCount : ℕ) (uuid : String) (created : ℤ) : List Part :=
  sendChunk coders (completionChunk request uuid created (lastChoice toolCallCount)) ++
    sendSSEData "data: [DONE]\n\n" ++ endSSE

/-- A chunk was taken from the stream: it is sent at once, or gathered where the request does not
    stream. -/
def handleChunk (self : ChatStream) (uuid : String) (created : ℤ) (chunk : ModelResponseChunk) :
    ChatStream :=
  if request.stream = some true then
    let responseChunk := completionChunk request uuid created (choice self.toolCallCount chunk)
    let sent := match coders.encode responseChunk.encode with
      | some _ => self.execute (sendChunk coders responseChunk)
      | none => self
    match chunk with
    | .text _ => sent
    | .toolCall _ => { sent with toolCallCount := self.toolCallCount + 1 }
  else
    match chunk with
    | .text text => { self with fullText := self.fullText ++ text }
    | .toolCall toolCall =>
        { self with openAPIToolCalls := self.openAPIToolCalls ++ [toolCall.openAPIToolCall] }

/-- The stream has ended; without streaming an error is not told. -/
def respond (self : ChatStream) (uuid : String) (created : ℤ) (ending : Option ModelManagerError) :
    ChatStream :=
  let self := { self with handler := .responded }
  if request.stream = some true then
    match ending with
    | none => self.execute (closing coders request self.toolCallCount uuid created)
    | some _ => self.execute endSSE
  else
    self.execute
      (sendData coders
        (completion request uuid created (fullChoice self.fullText self.openAPIToolCalls)) ok)

/-! What the other tasks do. -/

/-- `streamResponse` up to where the generation starts. -/
def refusal (unusable : Option String) (session : Bool) : Option ModelManagerError :=
  if request.messages.isEmpty then
    some (.invalidRequest "Chat request must include at least one message")
  else
    match unusable with
    | some message => some (.ringLost message)
    | none => if session then none else some .notInitialized

/-- The stream is finished, if it was not. -/
def finishStream (self : ChatStream) (ending : Option ModelManagerError) : ChatStream :=
  { self with stream := self.stream.finish ending, cancelled := self.cancelled || self.armed }

/-- The chunk that the pump yields for a generation. -/
def Generation.responseChunk : Generation → Option ModelResponseChunk
  | .chunk text => some (.text text)
  | .info => none
  | .toolCall uuid name arguments => some (.toolCall (.ofToolCall uuid name arguments))

/-- The pump has got something from the chat session. -/
def pumpChunk (self : ChatStream) : ModelResponseChunk → ChatStream
  | .text text =>
      { self with fullReply := self.fullReply ++ text, stream := self.stream.yield (.text text) }
  | .toolCall toolCall =>
      { self with
        toolCalls := self.toolCalls ++ [toolCall]
        stream := self.stream.yield (.toolCall toolCall) }

/-- The assistant's message for the history, made of the whole text and the tool calls. -/
def reply (text : String) (toolCalls : List ModelResponseToolCall) : ChatMessage :=
  ⟨.assistant, assistantHistoryContent coders text toolCalls, []⟩

/-- A step of one of the tasks or of the event loop, where it can be made. -/
def step (self : ChatStream) : Event → Option ChatStream
  | .receive =>
      if self.handler = .received then
        let self := if request.stream = some true then self.execute startSSE else self
        some { self with handler := .opening }
      else none
  | .opened manager unusable session uuid created =>
      if self.handler = .opening then
        if manager then
          match refusal request unusable session with
          | some error => some { self.finishStream (some error) with handler := .reading }
          | none => some { self with handler := .preparing, pump := .reading, watching := true }
        else some (self.respond coders request uuid created none)
      else none
  | .ready =>
      if self.handler = .preparing then some { self with armed := true, handler := .reading }
      else none
  | .generate generation =>
      if self.pump = .reading then
        match generation.responseChunk with
        | some chunk => some (self.pumpChunk chunk)
        | none => some self
      else none
  | .generated => if self.pump = .reading then some { self with pump := .ended } else none
  | .cut =>
      if self.pump = .reading ∧ self.cancelled = true then some { self with pump := .ended }
      else none
  | .throw description =>
      if self.pump = .reading then
        some { self.finishStream (some (.generation description)) with pump := .done }
      else none
  | .append =>
      if self.pump = .ended then
        some { self with
          pump := .appended
          replies := self.replies ++ [reply coders self.fullReply self.toolCalls] }
      else none
  | .finish =>
      if self.pump = .appended then some { self.finishStream none with pump := .done } else none
  | .watch health =>
      if self.watching then
        if self.cancelled then some { self with watching := false }
        else
          match ringFailure health with
          | some error => some { self.finishStream (some error) with watching := false }
          | none => some self
      else none
  | .take uuid created =>
      if self.handler = .reading then
        match self.stream.next with
        | some (.inl chunk, stream) =>
            some ({ self with stream := stream }.handleChunk coders request uuid created chunk)
        | some (.inr ending, stream) =>
            some ({ self with stream := stream }.respond coders request uuid created ending)
        | none => none
      else none
  | .release =>
      if self.handler = .responded then
        some { self with cancelled := self.cancelled || self.armed }
      else none
  | .run =>
      match self.eventLoop with
      | [] => none
      | closure :: rest => some { self with eventLoop := rest, written := self.written ++ closure }

end ChatStream

end ShareCompute.App
