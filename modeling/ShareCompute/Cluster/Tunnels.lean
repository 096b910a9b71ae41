import Mathlib.Data.List.Basic

namespace ShareCompute.Cluster

/-!
# The tunnels of a worker

What the three workers do with the commands of the relay: `Worker` of `split_cluster.py`,
`WorkerSession.java` on Android and `WorkerModel.swift` on iOS.  Each starts a tunnel for a
command, counts the tunnels that have not ended, and leaves the session when it is asked for a
fifth one.  They count differently: a set of tasks, the permits of a semaphore, a dictionary.

A tunnel ends when the worker has closed both of its sockets, or could not open them; when that
is, is not up to the relay.

* `HonestWorker.receive` — the next command; `HonestWorker.finish` — the end of a tunnel.
* `receive_ok`, `unfinished_of_receive` — what the three have in common.
-/

/-- A line of the control connection, `{'op': 'open', 'channel': channel}`. -/
structure Command where
  op : String
  channel : String
deriving DecidableEq

/-- A hexadecimal digit `[0-9a-f]`, in lower case. -/
def isHexDigit (c : Char) : Bool := ('0' ≤ c && c ≤ '9') || ('a' ≤ c && c ≤ 'f')

/-- The pattern `[0-9a-f]{32}`, which `uuid.uuid4().hex` always matches. -/
def isChannel (text : String) : Bool := text.length == 32 && text.toList.all isHexDigit

/-- The name of a channel has 32 characters, as `uuid.uuid4().hex` has. -/
theorem length_of_isChannel {text : String} (h : isChannel text = true) : text.length = 32 := by
  have hboth : text.length = 32 ∧ text.toList.all isHexDigit = true := by
    simpa [isChannel] using h
  exact hboth.1

/-! ### The laptop -/

/-- `Worker` of `split_cluster.py`; each task of `channels` serves one channel. -/
structure PythonWorker where
  channels : List String

namespace PythonWorker

/-- One round of `commands`: a valid `open` command is taken while fewer than four channels are
    there. -/
def commands (self : PythonWorker) (message : Command) : Except String PythonWorker :=
  if message.op ≠ "open" ∨ message.channel.length ≠ 32 then .error "Invalid open command"
  else if 4 ≤ self.channels.length then .error "Channel limit"
  else .ok ⟨message.channel :: self.channels⟩

/-- The callback of a tunnel's task: the channel is taken out of the set when the tunnel has
    ended. -/
def channelDone (self : PythonWorker) (channel : String) : PythonWorker :=
  ⟨self.channels.erase channel⟩

end PythonWorker

/-! ### Android -/

/-- `WorkerSession`: the permits of `channels` and the running `tunnel` calls. -/
structure WorkerSession where
  availablePermits : ℕ
  tunnels : List String
  balanced : availablePermits + tunnels.length = 4

namespace WorkerSession

/-- Taking a permit for a new tunnel keeps the balance of permits and tunnels at four. -/
theorem balanced_acquire {permits : ℕ} {tunnels : List String} (id : String)
    (h : permits + tunnels.length = 4) (hpermits : 0 < permits) :
    permits - 1 + (id :: tunnels).length = 4 := by
  rw [List.length_cons]
  omega

/-- Giving a permit back when a tunnel ends keeps the balance of permits and tunnels at four. -/
theorem balanced_release {permits : ℕ} {tunnels : List String} {id : String}
    (h : permits + tunnels.length = 4) (hid : id ∈ tunnels) :
    permits + 1 + (tunnels.erase id).length = 4 := by
  have hpos : 0 < tunnels.length := List.length_pos_of_mem hid
  rw [List.length_erase_of_mem hid]
  omega

/-- One round of the loop in `start`. -/
def start (self : WorkerSession) (msg : Command) : Except String WorkerSession :=
  if msg.op ≠ "open" ∨ isChannel msg.channel = false then .error "Invalid tunnel request"
  else if hpermits : 0 < self.availablePermits then
    .ok ⟨self.availablePermits - 1, msg.channel :: self.tunnels,
      balanced_acquire msg.channel self.balanced hpermits⟩
  else .error "Invalid tunnel request"

/-- The `finally` of `tunnel`: the permit is given back, and the tunnel is gone. -/
def release (self : WorkerSession) (id : String) : WorkerSession :=
  if hid : id ∈ self.tunnels then
    ⟨self.availablePermits + 1, self.tunnels.erase id, balanced_release self.balanced hid⟩
  else self

end WorkerSession

/-! ### iOS -/

/-- `WorkerModel`; `channels` are the keys of its dictionary. -/
structure WorkerModel where
  channels : List String

namespace WorkerModel

/-- One round of the loop in `run`. -/
def run (self : WorkerModel) (message : Command) : Except String WorkerModel :=
  if message.op = "open" ∧ message.channel.length = 32 ∧ self.channels.length < 4 ∧
      message.channel ∉ self.channels then
    .ok ⟨message.channel :: self.channels⟩
  else .error "protocolError"

/-- `tunnels.removeValue(forKey:)`: the tunnel of the channel is no longer counted. -/
def removeValue (self : WorkerModel) (channel : String) : WorkerModel :=
  ⟨self.channels.erase channel⟩

end WorkerModel

/-! ### Any of them -/

/-- The three implementations of a worker, each with its own limit of channels. -/
inductive Platform
  | laptop
  | android
  | ios
deriving DecidableEq

/-- A worker of one of the three platforms, which does what its code says. -/
inductive HonestWorker
  | laptop (worker : PythonWorker)
  | android (worker : WorkerSession)
  | ios (worker : WorkerModel)

namespace HonestWorker

/-- A worker that has just joined, with no channel open. -/
def joined : Platform → HonestWorker
  | .laptop => .laptop ⟨[]⟩
  | .android => .android ⟨4, [], rfl⟩
  | .ios => .ios ⟨[]⟩

/-- The channels of the tunnels that have not ended. -/
def unfinished : HonestWorker → List String
  | .laptop worker => worker.channels
  | .android worker => worker.tunnels
  | .ios worker => worker.channels

/-- The next command; an error ends the session. -/
def receive (self : HonestWorker) (message : Command) : Except String HonestWorker :=
  match self with
  | .laptop worker => (worker.commands message).map .laptop
  | .android worker => (worker.start message).map .android
  | .ios worker => (worker.run message).map .ios

/-- A tunnel ends, in the way of its platform. -/
def finish (self : HonestWorker) (channel : String) : HonestWorker :=
  match self with
  | .laptop worker => .laptop (worker.channelDone channel)
  | .android worker => .android (worker.release channel)
  | .ios worker => .ios (worker.removeValue channel)

/-- A worker that has just joined has no tunnels. -/
@[simp] theorem unfinished_joined (platform : Platform) : (joined platform).unfinished = [] := by
  cases platform <;> rfl

/-- When a tunnel has ended, the worker counts the other ones only. -/
@[simp] theorem unfinished_finish (self : HonestWorker) (channel : String) :
    (self.finish channel).unfinished = self.unfinished.erase channel := by
  cases self with
  | laptop worker => rfl
  | ios worker => rfl
  | android worker =>
    show (worker.release channel).tunnels = worker.tunnels.erase channel
    rw [WorkerSession.release]
    split
    case isTrue => rfl
    case isFalse hnot => exact (List.erase_of_not_mem hnot).symm

/-- A new channel is served while fewer than four tunnels are unfinished. -/
theorem receive_ok {self : HonestWorker} {channel : String} (hchannel : isChannel channel = true)
    (hnew : channel ∉ self.unfinished) (hroom : self.unfinished.length < 4) :
    ∃ worker, self.receive ⟨"open", channel⟩ = .ok worker ∧
      worker.unfinished = channel :: self.unfinished := by
  have hlength := length_of_isChannel hchannel
  cases self with
  | laptop worker =>
    refine ⟨.laptop ⟨channel :: worker.channels⟩, ?_, rfl⟩
    have hlimit : ¬ 4 ≤ worker.channels.length := Nat.not_le.mpr hroom
    simp [receive, PythonWorker.commands, hlength, hlimit, Except.map]
  | android worker =>
    have hpermits : 0 < worker.availablePermits := by
      have hbalanced := worker.balanced
      have hrun : worker.tunnels.length < 4 := hroom
      omega
    refine ⟨.android ⟨_, channel :: worker.tunnels,
      WorkerSession.balanced_acquire channel worker.balanced hpermits⟩, ?_, rfl⟩
    simp [receive, WorkerSession.start, hchannel, hpermits, Except.map]
  | ios worker =>
    refine ⟨.ios ⟨channel :: worker.channels⟩, ?_, rfl⟩
    have hlimit : worker.channels.length < 4 := hroom
    have hkey : channel ∉ worker.channels := hnew
    simp [receive, WorkerModel.run, hlength, hlimit, hkey, Except.map]

/-- What a command that is not refused leaves behind, and what it has found. -/
theorem unfinished_of_receive {self worker : HonestWorker} {message : Command}
    (h : self.receive message = .ok worker) :
    worker.unfinished = message.channel :: self.unfinished ∧ self.unfinished.length < 4 := by
  cases self with
  | laptop before =>
    rw [receive, PythonWorker.commands] at h
    split_ifs at h with hform hlimit
    · cases h
    · cases h
    · cases h
      exact ⟨rfl, Nat.not_le.mp hlimit⟩
  | android before =>
    rw [receive, WorkerSession.start] at h
    split_ifs at h with hform hpermits
    · cases h
    · cases h
      have hbalanced := before.balanced
      refine ⟨rfl, ?_⟩
      show before.tunnels.length < 4
      omega
    · cases h
  | ios before =>
    rw [receive, WorkerModel.run] at h
    split_ifs at h with hall
    · cases h
      exact ⟨rfl, hall.2.2.1⟩
    · cases h

end HonestWorker

end ShareCompute.Cluster
