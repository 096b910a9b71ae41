import ShareCompute.Library.TrackedResources

namespace ShareCompute.App

open ShareCompute.Library

/-!
# The threads of an Android session

`WorkerSession.java`: the control thread, a thread for every tunnel and one more that copies the
other way, the heartbeat, and `stop`.  They share the set `sockets`, the flag `closed`, the permits
of `channels` and the two executors; `fail`, `stop` and `halt` hold the monitor of the session.

* `Connect.next`, `Control.next`, `Tunnel.next` — the threads, one shared access at a time.  An
  access that waits for somebody else succeeds or throws; on a closed socket it throws.
* `step` — a thread or the holder of the monitor goes on.
-/

namespace WorkerSession

/-- The threads of a session that use sockets: the control thread, and one for each tunnel. -/
inductive Thread
  | control
  | tunnel (t : ℕ)
deriving DecidableEq

/-- The local variables of a thread that hold a socket: `control` or `remote`, and `local`. -/
inductive Socket
  | tls
  | loopback
deriving DecidableEq

/-- A socket of the session is known by the thread that opens it and by what it is for. -/
abbrev Wire : Type := Thread × Socket

/-- What a thread does with a socket. -/
inductive Access
  | nothing
  /-- it waits for the other side, or needs the socket to be open -/
  | io (socket : Socket)
  | create (socket : Socket)
  /-- `sockets.add` -/
  | register (socket : Socket)
  /-- `if(closed)` in `track` -/
  | check (socket : Socket)
  /-- `track` takes it back and throws -/
  | discard (socket : Socket)
  /-- `connect` takes it back and throws -/
  | release (socket : Socket)
  /-- `close` -/
  | close (socket : Socket)
  /-- `close` and `sockets.remove`, unless the variable is `null` -/
  | drop (socket : Socket)

/-- The access to the shared sockets, as one step; none where it is not possible in this state. -/
def Access.perform (thread : Thread) (wires : Tracked.State Wire) :
    Access → Option (Tracked.State Wire)
  | .nothing => some wires
  | .io socket => if wires.isOpen (thread, socket) then some wires else none
  | .create socket => Tracked.step wires (.create (thread, socket))
  | .register socket => Tracked.step wires (.register (thread, socket))
  | .check socket => Tracked.step wires (.check (thread, socket))
  | .discard socket => Tracked.step wires (.discard (thread, socket))
  | .release socket => Tracked.step wires (.release (thread, socket))
  | .close socket =>
      if wires.stage (thread, socket) = .held then Tracked.step wires (.close (thread, socket))
      else some wires
  | .drop socket =>
      if wires.stage (thread, socket) = .held then Tracked.step wires (.release (thread, socket))
      else some wires

/-- What a thread does to `channels` and the executors. -/
inductive Books
  | same
  /-- `clock.scheduleAtFixedRate` -/
  | beat
  /-- `channels.tryAcquire` -/
  | take
  /-- `pool.execute(()->tunnel(channel))` -/
  | spawn
  /-- the same when the pool refuses it -/
  | lose
  /-- `pool.execute` of the second copy -/
  | pump
  /-- `channels.release` -/
  | giveBack
deriving DecidableEq

/-- A step of a thread that goes on as `next`. -/
structure Move (P : Type) where
  access : Access
  books : Books
  next : P

/-- What a thread can see of the session. -/
structure View where
  closed : Bool
  clockUp : Bool
  poolUp : Bool
  /-- `channels` has a permit -/
  permit : Bool

/-! ### The threads -/

/-- `connect`, by what has been done with the socket that it makes. -/
inductive Connect
  | starting
  | created
  | registered
  | refused
  | handshaking
deriving DecidableEq

/-- A step of `connect`, with where it returns to and where its exceptions are caught. -/
def Connect.next {P : Type} (inside : Connect → P) (returns throws : P) (closed : Bool) :
    Connect → Bool → Option (Move P)
  | .starting, true => some ⟨.create .tls, .same, inside .created⟩
  | .starting, false => some ⟨.nothing, .same, throws⟩
  | .created, true => some ⟨.register .tls, .same, inside .registered⟩
  | .registered, true =>
      some ⟨.check .tls, .same, inside (if closed then .refused else .handshaking)⟩
  | .refused, true => some ⟨.discard .tls, .same, throws⟩
  | .handshaking, true => some ⟨.io .tls, .same, returns⟩
  | .handshaking, false => some ⟨.release .tls, .same, throws⟩
  | _, false => none

/-- The thread that `start` puts into the pool. -/
inductive Control
  /-- before `start` -/
  | idle
  | connect (at' : Connect)
  /-- `hello` is sent and answered -/
  | greeting
  /-- before `setSoTimeout` and `scheduleAtFixedRate` -/
  | joining
  /-- before `while(!closed)` -/
  | looping
  | reading
  /-- a permit was taken -/
  | admitting
  /-- before `fail` -/
  | failing
  | finished
deriving DecidableEq

/-- The next step of the control thread; the flag says whether what it waits for succeeds. -/
def Control.next (view : View) : Control → Bool → Option (Move Control)
  | .idle, true => if view.poolUp then some ⟨.nothing, .same, .connect .starting⟩ else none
  | .connect at', succeeds => Connect.next .connect .greeting .failing view.closed at' succeeds
  | .greeting, true => some ⟨.io .tls, .same, .joining⟩
  -- on a closed socket `setSoTimeout` throws
  | .joining, true =>
      if view.clockUp then some ⟨.io .tls, .beat, .looping⟩ else some ⟨.nothing, .same, .failing⟩
  | .looping, true => some ⟨.nothing, .same, if view.closed then .finished else .reading⟩
  -- the line may have been in the buffer before the socket was closed
  | .reading, true =>
      if view.permit then some ⟨.nothing, .take, .admitting⟩ else some ⟨.nothing, .same, .failing⟩
  | .admitting, true =>
      if view.poolUp then some ⟨.nothing, .spawn, .looping⟩ else some ⟨.nothing, .lose, .failing⟩
  | .greeting, false => some ⟨.nothing, .same, .failing⟩
  | .joining, false => some ⟨.nothing, .same, .failing⟩
  | .reading, false => some ⟨.nothing, .same, .failing⟩
  | _, _ => none

/-- `tunnel`, by what it does next with its two sockets. -/
inductive Tunnel
  | connect (at' : Connect)
  | greeting
  /-- before `new Socket()` -/
  | dialing
  | dialCreated
  | dialRegistered
  | dialRefused
  /-- `local.connect` -/
  | connecting
  /-- before the second copy is put into the pool -/
  | launching
  | relaying
  /-- between the two `close` after the copy -/
  | closing (threw : Bool)
  /-- at the `catch` -/
  | caught
  /-- before `fail` -/
  | failing
  /-- at the `finally` -/
  | leaving
  | leavingRemote
  | returning
  | finished
deriving DecidableEq

/-- The next step of a tunnel; the flag says whether what it waits for succeeds. -/
def Tunnel.next (view : View) : Tunnel → Bool → Option (Move Tunnel)
  | .connect at', succeeds => Connect.next .connect .greeting .caught view.closed at' succeeds
  | .greeting, true => some ⟨.io .tls, .same, .dialing⟩
  | .greeting, false => some ⟨.nothing, .same, .caught⟩
  | .dialing, true => some ⟨.create .loopback, .same, .dialCreated⟩
  | .dialCreated, true => some ⟨.register .loopback, .same, .dialRegistered⟩
  | .dialRegistered, true =>
      some ⟨.check .loopback, .same, if view.closed then .dialRefused else .connecting⟩
  | .dialRefused, true => some ⟨.discard .loopback, .same, .caught⟩
  | .connecting, true => some ⟨.io .loopback, .same, .launching⟩
  | .connecting, false => some ⟨.nothing, .same, .caught⟩
  | .launching, true =>
      if view.poolUp then some ⟨.nothing, .pump, .relaying⟩ else some ⟨.nothing, .same, .caught⟩
  -- the copy ends, or throws
  | .relaying, succeeds => some ⟨.close .loopback, .same, .closing (!succeeds)⟩
  | .closing threw, true =>
      some ⟨.close .tls, .same, if threw then .caught else .leaving⟩
  | .caught, true => some ⟨.nothing, .same, if view.closed then .leaving else .failing⟩
  | .leaving, true => some ⟨.drop .loopback, .same, .leavingRemote⟩
  | .leavingRemote, true => some ⟨.drop .tls, .same, .returning⟩
  | .returning, true => some ⟨.nothing, .giveBack, .finished⟩
  | _, _ => none

/-- The copy from the native listener to the laptop. -/
inductive Pump
  | idle
  | copying
  | closing
  | finished
deriving DecidableEq

/-- The next step of the second thread of a tunnel: it copies until its socket is closed, and closes
    the other one. -/
def Pump.next : Pump → Option (Access × Pump)
  | .copying => some (.close .loopback, .closing)
  | .closing => some (.close .tls, .finished)
  | .idle => none
  | .finished => none

/-- A tunnel's two threads: the one that dials and copies one way, and the pump for the other. -/
structure Channel where
  tunnel : Tunnel
  pump : Pump

/-- A tunnel that was just admitted: its own thread is about to start, and the second one is not
    there yet. -/
def Channel.fresh : Channel := ⟨.connect .starting, .idle⟩

/-! ### The session -/

/-- Who calls a synchronized method: a thread of the session, its heartbeat, or the service. -/
inductive Caller
  | thread (thread : Thread)
  | heartbeat
  | stop
deriving DecidableEq

/-- How far `halt` has got, which closes the sockets and then stops the clock and the pool. -/
inductive Halt
  | closing
  | stoppingClock
  | stoppingPool
  | done
deriving DecidableEq

/-- What can happen in a session: a step of one of its threads, or of whoever is in `halt`. -/
inductive Event
  | control (succeeds : Bool)
  | tunnel (t : ℕ) (succeeds : Bool)
  | pump (t : ℕ)
  | enter (caller : Caller)
  /-- `closed=true` -/
  | flag
  /-- `for(Socket s:sockets)` begins -/
  | begin
  | visit (wire : Wire)
  | finish
  /-- `sockets.clear()` -/
  | clear
  | stopClock
  | stopPool
  | leave

end WorkerSession

/-- The fields of a session, and the place of each of its threads. -/
structure WorkerSession where
  wires : Tracked.State WorkerSession.Wire
  /-- the permits of `channels` -/
  permits : ℕ
  /-- permits of tunnels that the pool refused -/
  lost : ℕ
  control : WorkerSession.Control
  channels : List WorkerSession.Channel
  clockUp : Bool
  poolUp : Bool
  /-- the heartbeat was scheduled -/
  beating : Bool
  /-- who is in `fail` or `stop` -/
  monitor : Option (WorkerSession.Caller × WorkerSession.Halt)
  /-- how often `listener.ended` was called -/
  ended : ℕ
  /-- `stop` came while the session was on -/
  requested : Bool

namespace WorkerSession

/-- A session that was just constructed: no thread runs, and all four permits are free. -/
def init : WorkerSession where
  wires := Tracked.init
  permits := 4
  lost := 0
  control := .idle
  channels := []
  clockUp := true
  poolUp := true
  beating := false
  monitor := none
  ended := 0
  requested := false

/-- What a thread reads of the session besides its sockets. -/
def view (self : WorkerSession) : View :=
  ⟨self.wires.closed, self.clockUp, self.poolUp, 0 < self.permits⟩

/-- What a step notes in the fields that the threads share. -/
def book (self : WorkerSession) : Books → WorkerSession
  | .same => self
  | .beat => { self with beating := true }
  | .take => { self with permits := self.permits - 1 }
  | .spawn => { self with channels := self.channels ++ [.fresh] }
  | .lose => { self with lost := self.lost + 1 }
  | .pump => self
  | .giveBack => { self with permits := self.permits + 1 }

/-- The control thread takes its next step, if it has one. -/
def runControl (self : WorkerSession) (succeeds : Bool) : Option WorkerSession :=
  match self.control.next self.view succeeds with
  | none => none
  | some move =>
      match move.access.perform .control self.wires with
      | none => none
      | some wires => some ({ self with wires := wires, control := move.next }.book move.books)

/-- The thread of a tunnel takes its next step, if it has one. -/
def runTunnel (self : WorkerSession) (t : ℕ) (succeeds : Bool) : Option WorkerSession :=
  match self.channels[t]? with
  | none => none
  | some channel =>
      match channel.tunnel.next self.view succeeds with
      | none => none
      | some move =>
          match move.access.perform (.tunnel t) self.wires with
          | none => none
          | some wires =>
              let channel' : Channel :=
                ⟨move.next, if move.books = .pump then .copying else channel.pump⟩
              some ({ self with wires := wires, channels := self.channels.set t channel' }.book
                move.books)

/-- The second thread of a tunnel takes its next step, if it has one. -/
def runPump (self : WorkerSession) (t : ℕ) : Option WorkerSession :=
  match self.channels[t]? with
  | none => none
  | some channel =>
      match channel.pump.next with
      | none => none
      | some (access, pump) =>
          match access.perform (.tunnel t) self.wires with
          | none => none
          | some wires =>
              some { self with
                wires := wires, channels := self.channels.set t { channel with pump := pump } }

/-- The caller has reached the synchronized method, and waits for the monitor or may take it. -/
def calls (self : WorkerSession) : Caller → Bool
  | .thread .control => self.control = .failing
  | .thread (.tunnel t) => (self.channels[t]?.map Channel.tunnel) = some .failing
  | .heartbeat => self.beating
  | .stop => true

/-- The method returns to its caller, which goes on behind the call. -/
def resume (self : WorkerSession) : Caller → WorkerSession
  | .thread .control => { self with control := .finished }
  | .thread (.tunnel t) =>
      match self.channels[t]? with
      | some channel =>
          { self with channels := self.channels.set t { channel with tunnel := .leaving } }
      | none => self
  | .heartbeat => self
  | .stop => self

/-- `fail` or `stop` up to `halt`.  A failure after the first does nothing. -/
def enter (self : WorkerSession) (caller : Caller) : Option WorkerSession :=
  match self.monitor with
  | some _ => none
  | none =>
      if self.calls caller then
        if caller = .stop then
          some { self with
            monitor := some (caller, .closing)
            requested := self.requested || !self.wires.closed }
        else if self.wires.closed then some (self.resume caller)
        else some { self with monitor := some (caller, .closing) }
      else none

/-- The holder of the monitor closes sockets. -/
def sweep (self : WorkerSession) (event : Tracked.Event Wire) : Option WorkerSession :=
  match self.monitor with
  | some (_, .closing) =>
      (Tracked.step self.wires event).map fun wires => { self with wires := wires }
  | _ => none

/-- One step of the session; none where nobody can take it. -/
def step (self : WorkerSession) : Event → Option WorkerSession
  | .control succeeds => self.runControl succeeds
  | .tunnel t succeeds => self.runTunnel t succeeds
  | .pump t => self.runPump t
  | .enter caller => self.enter caller
  | .flag => self.sweep .flag
  | .begin => self.sweep .begin
  | .visit wire => self.sweep (.visit wire)
  | .finish => self.sweep .finish
  | .clear =>
      match self.monitor with
      | some (caller, .closing) =>
          (Tracked.step self.wires .clear).map fun wires =>
            { self with wires := wires, monitor := some (caller, .stoppingClock) }
      | _ => none
  | .stopClock =>
      match self.monitor with
      | some (caller, .stoppingClock) =>
          some { self with clockUp := false, monitor := some (caller, .stoppingPool) }
      | _ => none
  | .stopPool =>
      match self.monitor with
      | some (caller, .stoppingPool) =>
          some { self with poolUp := false, monitor := some (caller, .done) }
      | _ => none
  | .leave =>
      match self.monitor with
      | some (caller, .done) =>
          let self := { self with monitor := none }
          some (({ self with
            ended := if caller = Caller.stop then self.ended else self.ended + 1 }).resume caller)
      | _ => none

end WorkerSession

end ShareCompute.App
