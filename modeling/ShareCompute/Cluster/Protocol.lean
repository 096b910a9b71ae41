import Mathlib.Data.Rat.Cast.Defs
import Mathlib.Data.List.Lookmap

namespace ShareCompute.Cluster

/-!
# Messages of the cluster protocol

`split_cluster.py`: one JSON object a line.  `receive` reads a message, `authenticate` checks
who sent the first one, and `telemetry` reads the counters of a heartbeat.

`json.loads` is an input.  Its values are compared the way Python compares them: a boolean is
a number, and `1536.0` equals `1536`.
-/

/-! ### Values -/

/-- What `json.loads` returns, as a value of Python. -/
inductive Json
  | null
  | bool (value : Bool)
  | int (value : ℤ)
  /-- `none` is a value that is not finite -/
  | float (value : Option ℚ)
  | str (value : String)
  | list (items : List Json)
  | dict (items : List (String × Json))

/-- A Python dictionary with string keys; `lookup` finds the entry that counts. -/
abbrev Dict := List (String × Json)

/-- `message.get(key, default)`: the value of a key, or the default without it. -/
def Dict.getD (message : Dict) (key : String) (default : Json) : Json :=
  (message.lookup key).getD default

/-- `message.get(key)`: the value of a key, or `None` without it. -/
def Dict.get (message : Dict) (key : String) : Json := Dict.getD message key .null

/-- `value == text`, which no value but a string satisfies. -/
def Json.isStr (value : Json) (text : String) : Bool :=
  match value with
  | .str value => decide (value = text)
  | _ => false

@[simp] theorem Json.isStr_iff {value : Json} {text : String} :
    value.isStr text = true ↔ value = .str text := by
  cases value <;> simp [isStr]

/-- The number a value stands for in a comparison. -/
def Json.number : Json → Option ℚ
  | .bool value => some (if value then 1 else 0)
  | .int value => some value
  | .float value => value
  | _ => none

/-- `value == n`, for an integer `n` -/
def Json.isInt (value : Json) (n : ℤ) : Bool := decide (value.number = some (n : ℚ))

/-- `bool(value)`: everything is true but `None`, zero and what is empty. -/
def Json.truthy : Json → Bool
  | .null => false
  | .bool value => value
  | .int value => decide (value ≠ 0)
  | .float value => decide (value ≠ some 0)
  | .str value => decide (value ≠ "")
  | .list items => !items.isEmpty
  | .dict items => !items.isEmpty

/-! ### Reading a line -/

/-- What happens to a handler that awaits a line. -/
inductive Inbound
  /-- the bytes up to the end of the line; none when the other side closed the connection -/
  | line (bytes : List UInt8)
  /-- nothing came in time -/
  | silence
  /-- reading failed -/
  | broken
deriving DecidableEq

/-- `receive(reader)`: the message that a line holds, or the exception that is raised. -/
def receive (loads : List UInt8 → Option Json) : Inbound → Except String Dict
  | .silence => .error "TimeoutError"
  | .broken => .error "ConnectionError"
  | .line bytes =>
      if bytes = [] then .error "The other side closed the connection"
      else if bytes.length > 8192 then .error "Oversized protocol message"
      else
        match loads bytes with
        | some (.dict message) => .ok message
        | some _ => .error "Protocol requires a JSON object"
        | none => .error "JSONDecodeError"

/-! ### The first message -/

/-- What is configured for a node: the token it must show, and its budget. -/
structure Pair where
  token : String
  budgetMib : ℤ

/-- `config`, with the revision `REV` this build speaks. -/
structure Config where
  nodes : String → Option Pair
  rev : String

def isAscii (text : String) : Bool := text.toList.all (fun c => decide (c.toNat < 128))

/-- `hmac.compare_digest`, which raises on text that is not ASCII. -/
def compareDigest (a b : String) : Except String Bool :=
  if isAscii a && isAscii b then .ok (decide (a = b))
  else .error "comparing strings with non-ASCII characters is not supported"

/-- The checks that every first message has to pass: who sends it, and with which token. -/
def authenticate (config : Config) (hello : Dict) : Except String (String × Pair) :=
  match hello.get "node" with
  | .str node =>
      match config.nodes node with
      | none => .error "Unknown node"
      | some pair =>
          match hello.get "token" with
          | .str token =>
              match compareDigest token pair.token with
              | .ok true => .ok (node, pair)
              | .ok false => .error "Authentication failed"
              | .error text => .error text
          | _ => .error "Authentication failed"
  | _ => .error "Unknown node"

/-- The message names a configured node and presents its token. -/
structure Authentic (config : Config) (node : String) (pair : Pair) (hello : Dict) : Prop where
  named : hello.get "node" = .str node
  configured : config.nodes node = some pair
  token : hello.get "token" = .str pair.token

theorem authentic_of_authenticate {config : Config} {hello : Dict} {node : String} {pair : Pair}
    (h : authenticate config hello = .ok (node, pair)) : Authentic config node pair hello := by
  unfold authenticate at h
  split at h
  case h_2 => simp at h
  case h_1 node' hnode =>
    split at h
    case h_1 => simp at h
    case h_2 pair' hpair =>
      split at h
      case h_2 => simp at h
      case h_1 token htoken =>
        split at h
        case h_2 => simp at h
        case h_3 => simp at h
        case h_1 hdigest =>
          obtain ⟨rfl, rfl⟩ := Prod.mk.inj (Except.ok.inj h)
          refine ⟨hnode, hpair, ?_⟩
          -- the digests are equal only for equal tokens
          unfold compareDigest at hdigest
          split at hdigest
          · rw [htoken, of_decide_eq_true (Except.ok.inj hdigest)]
          · simp at hdigest

/-! ### Heartbeats -/

/-- `CORE_STATS` and `CACHE_STATS`, the counters that a worker reports. -/
structure Stats where
  allocatedBytes : ℕ
  peakBytes : ℕ
  graphCalls : ℕ
  cacheHitBytes : ℕ
  cacheStoredBytes : ℕ
  cacheRejected : ℕ
deriving DecidableEq

/-- `dict.fromkeys(CORE_STATS + CACHE_STATS, 0)`, the counters of a record that is new. -/
def Stats.zero : Stats := ⟨0, 0, 0, 0, 0, 0⟩

/-- A counter of a heartbeat: an integer, and not a boolean, from zero on. -/
def counter : Json → Except String ℕ
  | .int (.ofNat n) => .ok n
  | _ => .error "Invalid telemetry"

/-- The counters of a heartbeat; those of the cache may be missing. -/
def telemetry (message : Dict) : Except String Stats :=
  if !(message.get "op").isStr "stats" then .error "Expected telemetry heartbeat"
  else do
    let allocatedBytes ← counter (message.get "allocated_bytes")
    let peakBytes ← counter (message.get "peak_bytes")
    let graphCalls ← counter (message.get "graph_calls")
    let cacheHitBytes ← counter (message.getD "cache_hit_bytes" (.int 0))
    let cacheStoredBytes ← counter (message.getD "cache_stored_bytes" (.int 0))
    let cacheRejected ← counter (message.getD "cache_rejected" (.int 0))
    return ⟨allocatedBytes, peakBytes, graphCalls, cacheHitBytes, cacheStoredBytes, cacheRejected⟩

end ShareCompute.Cluster
