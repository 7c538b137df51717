import HttpEngine.Serving.Connection
import HttpEngine.Serving.Server

/-!
# A server among peers in memory

Peers connect, send and receive at times of their own; the clock is moved by hand. What a
connection has done by a time follows from what its peer has done by then.

* `Bench.settle`: let everything happen that is due by a time.
* `Bench.act`: one thing that a peer, or whoever runs the server, does.
* `Bench.step`: the same with some time passing.
* `Bench.phase?`, `Bench.registered`: what can be seen of the connections.
-/

namespace HttpEngine

/-- A peer, with what it has done so far. -/
structure Peer where
  name : String
  address : Address
  /-- What it sent, each run of bytes with its time, oldest first. -/
  sent : List (Nat × Bytes) := []
  /-- When it ended its sending. -/
  ended : Option Nat := none
  /-- When it went away. -/
  gone : Option Nat := none
  /-- When it received, oldest first. -/
  received : List Nat := []
  /-- The number of bytes it received. -/
  taken : Nat := 0
  /-- The number of its connection and the time of its accepting. -/
  connection? : Option (Nat × Nat) := none
  /-- When its connection was closed from outside. -/
  closedAt : Option Nat := none
  /-- Whether its connection was ever seen in the registry. -/
  known : Bool := false
  deriving Repr

/-- What waits in a listener's queue. -/
inductive Arrival
  /-- The peer at this place in the list of peers. -/
  | peer (place : Nat)
  | failure (cause : IoError)
  deriving Repr

/-- A listener's queue. -/
structure Queue where
  /-- What arrived, each with its time, oldest first. -/
  arrivals : List (Nat × Arrival) := []
  /-- When the loop has rested after its last failure. -/
  restedAt : Nat := 0
  deriving Repr

/-- A server with its peers. -/
structure Bench where
  service : Service
  security? : Option Security := none
  server : Server
  clock : Nat := 0
  peers : List Peer := []
  queues : List Queue
  /-- Failed accepts, newest first. -/
  failures : List IoError := []

namespace Bench

/-- Milliseconds that a loop rests after a failed accept. -/
def rest : Nat := 100

/-- A bench for so many listeners. -/
def ofListeners (service : Service) (security? : Option Security) (server : Server) : Bench :=
  { service, security?, server, queues := server.loops.map fun _ => {} }

/-- Let things happen to the server. -/
def play (b : Bench) (events : List Server.Event) : Bench :=
  { b with server := b.server.play events }

/-! ### What connections have done -/

/-- What the connection of a peer, accepted at a time, has done so far. What the peer received
is noticed only **after that moment**. -/
def lifeOf (b : Bench) (p : Peer) (acceptedAt : Nat) : Life :=
  let horizon := b.clock + 1
  b.service.attend
    { address := p.address
      security? := b.security?
      wire :=
        { inbound := .peer p.sent p.ended
          outbound := .pipe { drains := p.received.filter (· < b.clock), leaves := p.gone }
          clock := acceptedAt
          deadline := some (min horizon (p.closedAt.getD horizon)) } }

/-- Whether a connection with this life is over. -/
def isOver (p : Peer) (life : Life) : Bool := life.conclusion != .cut || p.closedAt.isSome

/-- The accepted peers, each with the number and the life of its connection. -/
def lives (b : Bench) : List (Peer × Nat × Life) :=
  b.peers.filterMap fun p => p.connection?.map fun (n, time) => (p, n, b.lifeOf p time)

/-- Lines or texts with their times in the order of those times, one connection after the
other within one time. -/
def inOrder (items : List (Nat × Nat × String)) : List String :=
  (items.mergeSort fun x y => x.1 < y.1 || (x.1 == y.1 && x.2.1 ≤ y.2.1)).map (·.2.2)

/-- The lines that handlers noted, in order. -/
def notes (b : Bench) : List String :=
  inOrder (b.lives.flatMap fun (_, n, life) =>
    life.client.wire.journal.notes.map fun (time, line) => (time, n, line))

/-- What ended connections before their time, in order. -/
def serveErrors (b : Bench) : List String :=
  inOrder (b.lives.filterMap fun (_, n, life) =>
    match life.conclusion with
    | .failed text => some (life.client.wire.clock, n, text)
    | _ => none)

/-! ### Time passing -/

/-- Take the front of a listener's queue. -/
def serveQueue (b : Bench) (loop : Nat) (q : Queue) : Bench :=
  match q.arrivals with
  | [] => b
  | (time, arrival) :: later =>
    let now := max time q.restedAt
    match arrival with
    | .failure cause =>
      { b.play [.resume loop, .refuse loop] with
        queues := b.queues.set loop { arrivals := later, restedAt := now + rest }
        failures := cause :: b.failures }
    | .peer place =>
      { b.play [.resume loop, .accept loop] with
        queues := b.queues.set loop { q with arrivals := later }
        peers := b.peers.modify place fun p =>
          { p with connection? := some (b.server.accepted, now) } }

/-- When the front of a queue will be taken. -/
def Queue.dueAt? (q : Queue) : Option Nat :=
  q.arrivals.head?.map fun (time, _) => max time q.restedAt

/-- The listener whose queue is due first, by the clock. -/
def due? (b : Bench) : Option (Nat × Queue) :=
  let due := b.queues.zipIdx.filterMap fun (q, loop) =>
    (Queue.dueAt? q).bind fun time => if time ≤ b.clock then some (time, loop, q) else none
  (due.foldl (fun best d =>
    match best with
    | none => some d
    | some e => if d.1 < e.1 then some d else some e) none).map (·.2)

/-- Take what is due from the queues, at most so much. -/
def serveQueues (b : Bench) : Nat → Bench
  | 0 => b
  | n + 1 =>
    match b.due? with
    | some (loop, q) => (b.serveQueue loop q).serveQueues n
    | none => b

/-- Let the tasks of connections that are over leave the server. -/
def retire (b : Bench) : Bench :=
  b.play (b.lives.flatMap fun (p, n, life) =>
    if !isOver p life then []
    else if life.conclusion = .trapped then Server.unwinding n
    else Server.concluding n)

/-- Let everything happen that is **due by a time**. -/
def settle (b : Bench) (time : Nat) : Bench :=
  let b := { b with clock := time }
  (b.serveQueues (b.queues.flatMap (·.arrivals)).length).retire

/-- Take note of who is in the registry. -/
def look (b : Bench) : Bench :=
  { b with
    peers := b.peers.map fun p =>
      { p with known := p.known || (p.connection?.any fun c => b.server.registry.contains c.1) } }

/-- The phase of a peer's connection, if it was ever seen. One that is **over is closed**, unless a
trap left it where it was. -/
def phase? (b : Bench) (p : Peer) : Option Phase :=
  match p.known, p.connection? with
  | true, some (_, time) =>
    let life := b.lifeOf p time
    some (if isOver p life && life.conclusion != .trapped then .closed
      else life.client.wire.journal.phase)
  | _, _ => none

/-- The connections in the registry, **in the order of their accepting**. -/
def registered (b : Bench) : List (Address × Phase) :=
  ((b.lives.filter fun (_, n, _) => b.server.registry.contains n).mergeSort
    fun x y => x.2.1 ≤ y.2.1).map fun (p, _, life) =>
      (p.address, life.client.wire.journal.phase)

/-- The peers, in the order of their names. -/
def byName (b : Bench) : List Peer := b.peers.mergeSort fun p q => !(q.name < p.name)

/-! ### Acting -/

/-- What can be done on a bench. -/
inductive Action
  | connect (peer : String) (listener : Nat)
  | failAccept (listener : Nat) (cause : IoError)
  | send (peer : String) (data : Bytes)
  | finish (peer : String)
  | drop (peer : String)
  | receive (peer : String)
  | close (peer : String)
  | closeAll
  | wait (ms : Nat)
  | shutdown
  deriving Repr

/-- What comes of it. -/
inductive Answer
  | nothing
  | flag (b : Bool)
  | count (n : Nat)
  | failure (cause : IoError)
  | data (bytes : Bytes) (ended : Bool)
  deriving Repr

/-- The place of a peer. -/
def place? (b : Bench) (peer : String) : Option Nat :=
  match b.peers.findIdx (·.name == peer) with
  | i => if i < b.peers.length then some i else none

/-- The first number that the next peer's port counts on from. -/
def basePort : Nat := 40000

/-- Put something into a listener's queue, unless the server stops. -/
def enqueue (b : Bench) (listener : Nat) (arrival : Arrival) : Bench :=
  if b.server.stopping then b
  else { b with
    queues := b.queues.modify listener fun q =>
      { q with arrivals := q.arrivals ++ [(b.clock, arrival)] } }

/-- Whether the stream of a peer is closed at the server's end. -/
def isCutOff (b : Bench) (p : Peer) : Bool :=
  match p.connection? with
  | some (_, time) => isOver p (b.lifeOf p time)
  | none => b.server.stopping

/-- Close connections from outside, **now**. -/
def closing (b : Bench) (numbers : List Nat) : Bench :=
  { b with
    peers := b.peers.map fun p =>
      match p.connection? with
      | some (n, _) =>
        if numbers.contains n && p.closedAt.isNone then { p with closedAt := some b.clock } else p
      | none => p }

/-- The connections in the registry that nobody closed. -/
def stillOpen (b : Bench) : List Nat := b.server.registry.filter (!b.server.closed.contains ·)

/-- Stop the server: every loop notices, every connection left is closed, and nobody is left
when shutting down looks. -/
def stopAll (b : Bench) : Bench :=
  let loops := (List.range b.server.loops.length).map Server.Event.notice
  let stopped := { b.play (.stop :: loops) with queues := [] }
  let closed := (stopped.closing stopped.stillOpen).play (stopped.server.sweeping .join)
  closed.retire.play [.listen, .look]

/-- **One thing is done.** -/
def act (b : Bench) (action : Action) : Answer × Bench :=
  match action with
  | .connect peer listener =>
    let p : Peer := { name := peer, address := { port := basePort + b.peers.length + 1 } }
    let b' := b.enqueue listener (.peer b.peers.length)
    (.nothing, { b' with peers := b'.peers ++ [p] })
  | .failAccept listener cause => (.nothing, b.enqueue listener (.failure cause))
  | .send peer data => on peer fun i p =>
    if p.gone.isSome || data.isEmpty then (.nothing, b)
    else if p.ended.isSome || b.isCutOff p then (.failure .peerGone, b)
    else (.nothing, change i { p with sent := p.sent ++ [(b.clock, data)] })
  | .finish peer => on peer fun i p =>
    (.nothing, change i { p with ended := p.ended.or (some b.clock) })
  | .drop peer => on peer fun i p =>
    (.nothing, change i
      { p with ended := p.ended.or (some b.clock), gone := p.gone.or (some b.clock) })
  | .receive peer => on peer fun i p =>
    if p.gone.isSome then (.nothing, b)
    else
      let sent := match p.connection? with
        | some (_, time) => (b.lifeOf p time).client.wire.journal.sent
        | none => []
      (.data (sent.drop p.taken) (b.isCutOff p),
        change i { p with received := p.received ++ [b.clock], taken := sent.length })
  | .close peer => on peer fun _ p =>
    match p.connection? with
    | some (n, _) =>
      if p.known then
        let first := !b.server.closed.contains n
        (.flag first, (if first then b.closing [n] else b).play [.close n])
      else (.nothing, b)
    | none => (.nothing, b)
  | .closeAll =>
    if b.server.stopping then (.nothing, b)
    else
      let closed := b.stillOpen
      (.count closed.length, (b.closing closed).play (b.server.sweeping .closeAll))
  | .wait ms => (.nothing, { b with clock := b.clock + min ms longestWait })
  | .shutdown => (.count 0, if b.server.stopping then b else b.stopAll)
where
  /-- Something done to the peer of a name, if there is one. -/
  on (peer : String) (f : Nat → Peer → Answer × Bench) : Answer × Bench :=
    match b.place? peer with
    | some i =>
      match b.peers[i]? with
      | some p => f i p
      | none => (.nothing, b)
    | none => (.nothing, b)
  /-- The bench with a peer changed. -/
  change (i : Nat) (p : Peer) : Bench := { b with peers := b.peers.set i p }

/-- Do one thing and let some time pass with it. A peer receives **at the end of that time**;
anything else is done at its beginning. -/
def step (b : Bench) (action : Action) (pace : Nat) : Answer × Bench :=
  match action with
  | .receive _ =>
    let (answer, b) := (b.settle (b.clock + pace)).act action
    (answer, b.look)
  | _ =>
    let (answer, b) := b.act action
    (answer, (b.settle (b.clock + pace)).look)

end Bench

end HttpEngine
