import ShareCompute.Library.Runs
import Mathlib.Data.List.FinRange
import Mathlib.Logic.Function.Basic
import Mathlib.Algebra.Ring.Nat

namespace ShareCompute.Native.ParallelLoad

open ShareCompute.Library

/-!
# Loading the contexts of a model

`llama-parallel-load.patch`: `llama_model_base::load_tensors` loads host contexts one after the
other and, where `SC_PARALLEL_LOAD` asks for it, several remote contexts at the same time, in a
thread each.  The threads share the counter `size_done`, the flag `unmapped` and the guard of the
progress callback.

`load_all_data` is not in the patch but for its last lines.  What it does for a tensor is taken to
be: ask the callback, put the tensor in place, add its size to `size_done`.  It may throw anywhere,
and it may ask the callback once more when it has unmapped (`asksAtEnd`).  The answers of the
callback, and whether a load throws, are the choice of the environment, as is the order in which
the threads move.

* `Load.step` — one step of a load.
* `step` — one step of a load or of `load_tensors`.
-/

/-! ### Contexts -/

/-- A context of `ctx_buf_maps`: its buffers in the order of the map, of which we know whether they
    are host buffers, and the bytes that the mmap has for its tensors. -/
structure Context where
  buffers : List Bool
  tensors : List (List UInt8)

/-- What a call of `load_tensors` is given: the contexts, and whether they are to be loaded in
    parallel. -/
structure Setup where
  contexts : List Context
  /-- `SC_PARALLEL_LOAD` is set, and not to `0`, and `ml.use_mmap` -/
  parallelLoad : Bool
  asksAtEnd : Bool

namespace Setup

variable (setup : Setup)

/-- The index of a context, by which its load is told from the others. -/
abbrev Index := Fin setup.contexts.length

/-- Whether a context is remote: parallel loads are asked for, and its first buffer is not a
    host's. -/
def isRemote (i : setup.Index) : Bool :=
  setup.parallelLoad && (match (setup.contexts.get i).buffers with
    | [] => false
    | host :: _ => !host)

/-- The contexts `remote_ctxs`, which are loaded by threads of their own. -/
def remoteCtxs : List setup.Index := (List.finRange _).filter setup.isRemote

/-- The contexts that are loaded in the thread of `load_tensors`, in this order: those that are not
    remote, and then a remote one that is alone. -/
def serial : List setup.Index :=
  (List.finRange _).filter (fun i => !setup.isRemote i)
    ++ if setup.remoteCtxs.length = 1 then setup.remoteCtxs else []

/-- The contexts that are loaded in a thread each. -/
def parallel : List setup.Index := if 1 < setup.remoteCtxs.length then setup.remoteCtxs else []

/-- The tensors of a context, each with its bytes, in the order in which they are loaded. -/
def tensors (i : setup.Index) : List (List UInt8) := (setup.contexts.get i).tensors

/-- The value `size_data`: the bytes of all tensors of all contexts. -/
def sizeData : ℕ := (setup.contexts.map (fun c => (c.tensors.map List.length).sum)).sum

end Setup

/-! ### A load -/

/-- How a load ended, by returning or by throwing. -/
inductive Outcome
  | returned (ok : Bool)
  | threw
deriving DecidableEq

/-- What `load_all_data` does next; the callback is asked before a tensor, or at the end. -/
inductive Point
  /-- it has not been called -/
  | idle
  /-- enter the callback, or the guard around it -/
  | asking (tensor? : Option ℕ)
  /-- the callback is running -/
  | inside (tensor? : Option ℕ)
  | installing (tensor : ℕ)
  /-- `size_done += n_size` -/
  | adding (tensor : ℕ)
  /-- `size_done >= size_data` -/
  | checking
  /-- `!unmapped.exchange(true)` -/
  | exchanging
  | unmapping
  | ended (outcome : Outcome)
deriving DecidableEq

/-- The load of one context: where it is, and what it has put in place so far. -/
structure Load where
  point : Point
  /-- the tensors that are in place, with their bytes -/
  contents : List (List UInt8)
  /-- how many of them are in `size_done` -/
  added : ℕ

/-- What the loads share, and may touch from their threads. -/
structure Shared (ι : Type) where
  sizeDone : ℕ
  unmapped : Bool
  /-- how often the final unmap has run -/
  unmaps : ℕ
  /-- `sc_progress_guard::cancelled` -/
  cancelled : Bool
  /-- the load that holds `sc_progress_guard::mutex` -/
  holder : Option ι

/-- The guard after an answer: its mutex is free, and a refusal is remembered. -/
def Shared.answered {ι : Type} (shared : Shared ι) (guarded ok : Bool) : Shared ι :=
  if guarded then { shared with holder := none, cancelled := shared.cancelled || !ok } else shared

/-- What a load has to do; `guarded` is whether it asks through `sc_progress_guarded`. -/
structure Job where
  tensors : List (List UInt8)
  guarded : Bool
  sizeData : ℕ
  asksAtEnd : Bool

/-- What a load does next, with what the callback answers where it is asked. -/
inductive Event
  | enter
  /-- the guard says no without asking -/
  | turnAway
  | answer (ok : Bool)
  | install
  | add
  | check
  | exchange
  | unmap
  | throw
deriving DecidableEq

/-- The loop of `load_all_data` from a tensor on, and what comes after it. -/
def Job.loop (job : Job) (tensor : ℕ) : Point :=
  if tensor < job.tensors.length then .asking (some tensor) else .checking

/-- A step of `load_all_data`, by the load `i`. -/
def Load.step {ι : Type} [DecidableEq ι] (job : Job) (i : ι) (load : Load) (shared : Shared ι) :
    Event → Option (Load × Shared ι)
  | .enter =>
      match load.point with
      | .asking tensor? =>
          if !job.guarded then some ({ load with point := .inside tensor? }, shared)
          else if shared.holder = none ∧ shared.cancelled = false then
            some ({ load with point := .inside tensor? }, { shared with holder := some i })
          else none
      | _ => none
  | .turnAway =>
      match load.point with
      | .asking _ =>
          if job.guarded ∧ shared.holder = none ∧ shared.cancelled = true then
            some ({ load with point := .ended (.returned false) }, shared)
          else none
      | _ => none
  | .answer ok =>
      match load.point with
      | .inside tensor? =>
          some ({ load with
            point := if ok then tensor?.elim (.ended (.returned true)) .installing
              else .ended (.returned false) },
            shared.answered job.guarded ok)
      | _ => none
  | .install =>
      match load.point with
      | .installing tensor =>
          (job.tensors[tensor]?).map (fun bytes =>
            ({ load with point := .adding tensor, contents := load.contents ++ [bytes] }, shared))
      | _ => none
  | .add =>
      match load.point with
      | .adding tensor =>
          (job.tensors[tensor]?).map (fun bytes =>
            ({ load with point := job.loop (tensor + 1), added := load.added + 1 },
              { shared with sizeDone := shared.sizeDone + bytes.length }))
      | _ => none
  | .check =>
      match load.point with
      | .checking =>
          some ({ load with
            point := if job.sizeData ≤ shared.sizeDone then .exchanging
              else .ended (.returned true) }, shared)
      | _ => none
  | .exchange =>
      match load.point with
      | .exchanging =>
          some ({ load with
            point := if shared.unmapped then .ended (.returned true) else .unmapping },
            { shared with unmapped := true })
      | _ => none
  | .unmap =>
      match load.point with
      | .unmapping =>
          some ({ load with
            point := if job.asksAtEnd then .asking none else .ended (.returned true) },
            { shared with unmaps := shared.unmaps + 1 })
      | _ => none
  | .throw =>
      match load.point with
      | .idle => none
      | .ended _ => none
      | _ =>
          -- leaving the guard by an exception releases its mutex
          some ({ load with point := .ended .threw },
            { shared with holder := if shared.holder = some i then none else shared.holder })

/-! ### `load_tensors` -/

/-- How `load_tensors` ended; an exception is that of a load. -/
inductive Result (ι : Type)
  | returned (ok : Bool)
  | threw (load : ι)
deriving DecidableEq

/-- What `load_tensors` does next, in the main thread. -/
inductive Main (ι : Type)
  /-- load these contexts, one after the other -/
  | serial (contexts : List ι)
  /-- start a thread for each of these -/
  | spawning (contexts : List ι)
  /-- get the results of these, with `ok` and `error` so far -/
  | collecting (contexts : List ι) (ok : Bool) (error : Option ι)
  | left (result : Result ι)

/-- All loads, what they share, and where `load_tensors` itself is. -/
structure State (setup : Setup) where
  loads : setup.Index → Load
  shared : Shared setup.Index
  main : Main setup.Index

variable {setup : Setup}

/-- What the load of a context has to do, and in which way. -/
def Setup.job (setup : Setup) (i : setup.Index) : Job where
  tensors := setup.tensors i
  guarded := decide (i ∈ setup.parallel)
  sizeData := setup.sizeData
  asksAtEnd := setup.asksAtEnd

/-- Before the first step no load has begun, nothing was counted, and the mapping is there. -/
def start (setup : Setup) : State setup where
  loads _ := ⟨.idle, [], 0⟩
  shared := ⟨0, false, 0, false, none⟩
  main := .serial setup.serial

/-- What can happen: a load goes on, or `load_tensors` does. -/
inductive Action (setup : Setup)
  | load (i : setup.Index) (event : Event)
  /-- `load_tensors` calls `load_all_data`, or starts a thread that does -/
  | call
  /-- a call has come back, or the result of a thread is there -/
  | result
  /-- `load_tensors` goes on to the next loop, or leaves -/
  | proceed

/-- The load `i` begins with its first tensor. -/
def State.begin (s : State setup) (i : setup.Index) : State setup :=
  { s with loads := Function.update s.loads i { s.loads i with point := (setup.job i).loop 0 } }

/-- One step; none where the action is not possible in this state. -/
def step (s : State setup) : Action setup → Option (State setup)
  | .load i event =>
      ((s.loads i).step (setup.job i) i s.shared event).map (fun next =>
        { s with loads := Function.update s.loads i next.1, shared := next.2 })
  | .call =>
      match s.main with
      | .serial (i :: _) => if (s.loads i).point = .idle then some (s.begin i) else none
      | .spawning (i :: contexts) =>
          if (s.loads i).point = .idle then some { s.begin i with main := .spawning contexts }
          else none
      | _ => none
  | .result =>
      match s.main with
      | .serial (i :: contexts) =>
          match (s.loads i).point with
          | .ended (.returned true) => some { s with main := .serial contexts }
          | .ended (.returned false) => some { s with main := .left (.returned false) }
          | .ended .threw => some { s with main := .left (.threw i) }
          | _ => none
      | .collecting (i :: contexts) ok error =>
          match (s.loads i).point with
          | .ended (.returned ok') => some { s with main := .collecting contexts (ok' && ok) error }
          | .ended .threw => some { s with main := .collecting contexts false (error.or (some i)) }
          | _ => none
      | _ => none
  | .proceed =>
      match s.main with
      | .serial [] => some { s with main := .spawning setup.parallel }
      | .spawning [] => some { s with main := .collecting setup.parallel true none }
      | .collecting [] ok error =>
          some { s with main := .left (error.elim (.returned ok) .threw) }
      | _ => none

/-- A step, as a relation between two states. -/
def Step (setup : Setup) (s : State setup) (action : Action setup) (s' : State setup) : Prop :=
  step s action = some s'

end ShareCompute.Native.ParallelLoad
