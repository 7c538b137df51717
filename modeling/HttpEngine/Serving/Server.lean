import HttpEngine.Handling.Context

/-!
# Accept loops, the registry and shutting down

A server runs one accept loop per listener and one task per accepted connection. The registry
holds the connections whose tasks are running; a task that is over leaves it, looks who is
left, and announces it if nobody is, **each in a step of its own**.

* `Server.start`: the loops of a server, started one after another.
* `Server.step`: everything that can happen to a server, one thing at a time.

A call to close all connections comes to one after the other, and others come and go meanwhile.
Shutting down waits for the loops, closes what is left, and then waits until the registry is
empty. It begins to listen for announcements **before** it looks at the registry.
-/

namespace HttpEngine

/-- What an accept loop is doing. -/
inductive AcceptLoop
  /-- It waits for a client. -/
  | accepting
  /-- It rests after a failed accept. -/
  | resting
  /-- It is over. -/
  | ended
  deriving DecidableEq, Repr

/-- A call to close all connections. -/
structure Sweep where
  /-- The connections that were there when it began **and that it has not come to**. -/
  ahead : List Nat
  /-- The connections that it closed, newest first. -/
  counted : List Nat := []
  /-- Whether the call has returned. -/
  ended : Bool := false
  deriving DecidableEq, Repr

/-- How far shutting down has come. -/
inductive Shutdown
  | notAsked
  /-- It waits for the accept loops. -/
  | joining
  /-- It closes what is left, which is this call to close all. -/
  | closing (sweep : Nat)
  /-- It is about to listen for announcements. -/
  | draining
  /-- It listens for announcements after so many, and is about to look at the registry. -/
  | listening (after : Nat)
  /-- It found someone in the registry and waits for an announcement. -/
  | waiting (after : Nat)
  | returned
  deriving DecidableEq, Repr

/-- A server at work. -/
structure Server where
  loops : List AcceptLoop
  /-- The connections whose tasks are running, in the order in which they were accepted. -/
  registry : List Nat := []
  /-- The connections whose tasks left the registry and still have to see who is left. -/
  leaving : List Nat := []
  /-- The connections whose tasks saw nobody left and still have to announce it. -/
  announcing : List Nat := []
  /-- The number of connections ever accepted; they are numbered in that order. -/
  accepted : Nat := 0
  /-- The connections that were closed, by anyone. -/
  closed : List Nat := []
  /-- The connections that calls to close one answered yes for, newest first. -/
  singles : List Nat := []
  /-- The calls to close all, oldest first. -/
  sweeps : List Sweep := []
  /-- How often an empty registry was announced. -/
  announced : Nat := 0
  shutdown : Shutdown := .notAsked
  deriving DecidableEq, Repr

namespace Server

/-- Something that happens to a server. -/
inductive Event
  /-- A loop accepts a client. -/
  | accept (loop : Nat)
  /-- A loop fails to accept. -/
  | refuse (loop : Nat)
  /-- A loop has rested. -/
  | resume (loop : Nat)
  /-- A loop notices that the server stops. -/
  | notice (loop : Nat)
  /-- A connection closes itself. -/
  | shut (connection : Nat)
  /-- A connection that was closed comes to its end. -/
  | conclude (connection : Nat)
  /-- A connection's task is torn down before its end. -/
  | unwind (connection : Nat)
  /-- A task that left looks who is left in the registry. -/
  | lookBack (connection : Nat)
  /-- A task announces that nobody is left. -/
  | announce (connection : Nat)
  /-- Someone closes a connection. -/
  | close (connection : Nat)
  /-- Someone begins to close all connections. -/
  | closeAll
  /-- A call to close all comes to a connection. -/
  | visit (sweep connection : Nat)
  /-- A call to close all has come to everyone. -/
  | finish (sweep : Nat)
  /-- Someone asks the server to stop. -/
  | stop
  /-- Shutting down finds all loops over and begins to close what is left. -/
  | join
  /-- Shutting down listens for announcements from now on. -/
  | listen
  /-- Shutting down looks at the registry. -/
  | look
  /-- Shutting down hears an announcement. -/
  | hear
  deriving DecidableEq, Repr

/-- Change what a loop is doing, if it is doing `now`. -/
def turn (s : Server) (loop : Nat) (now next : AcceptLoop) : Option Server :=
  if s.loops[loop]? = some now then some { s with loops := s.loops.set loop next } else none

/-- Whether shutting down was asked for. -/
def stopping (s : Server) : Bool := s.shutdown != .notAsked

/-- Whether clients are still accepted. -/
def serving (s : Server) : Bool := !s.stopping && s.loops.any (· != .ended)

/-- The number of connections whose tasks are running. -/
def active (s : Server) : Nat := s.registry.length

/-- A connection's task leaves the registry. -/
def leave (s : Server) (connection : Nat) : Option Server :=
  if connection ∈ s.registry then
    some { s with
      registry := s.registry.erase connection
      leaving := connection :: s.leaving }
  else none

/-- What the switch of a connection answers if it is used now: **yes for the first** to do so. -/
def answer (s : Server) (connection : Nat) : List Nat :=
  if connection ∈ s.closed then [] else [connection]

/-- A call to close all begins. -/
def sweep (s : Server) : Server := { s with sweeps := s.sweeps ++ [{ ahead := s.registry }] }

/-- A call to close all comes to a connection. -/
def reach (s : Server) (sweep : Nat) (w : Sweep) (connection : Nat) : Server :=
  { s with
    closed := s.answer connection ++ s.closed
    sweeps := s.sweeps.set sweep
      { w with
        ahead := w.ahead.erase connection
        counted := s.answer connection ++ w.counted } }

/-- **One thing happens**; nothing comes of what cannot happen now. -/
def step (s : Server) : Event → Option Server
  | .accept loop =>
    if s.loops[loop]? = some .accepting then
      some { s with registry := s.registry ++ [s.accepted], accepted := s.accepted + 1 }
    else none
  | .refuse loop => s.turn loop .accepting .resting
  | .resume loop => s.turn loop .resting .accepting
  | .notice loop =>
    if s.stopping then
      (s.turn loop .accepting .ended).or (s.turn loop .resting .ended)
    else none
  | .shut connection =>
    if connection ∈ s.registry then some { s with closed := s.answer connection ++ s.closed }
    else none
  | .conclude connection => if connection ∈ s.closed then s.leave connection else none
  | .unwind connection => s.leave connection
  | .lookBack connection =>
    if connection ∈ s.leaving then
      some { s with
        leaving := s.leaving.erase connection
        announcing := if s.registry = [] then connection :: s.announcing else s.announcing }
    else none
  | .announce connection =>
    if connection ∈ s.announcing then
      some { s with
        announcing := s.announcing.erase connection
        announced := s.announced + 1 }
    else none
  | .close connection =>
    if connection < s.accepted then
      some { s with
        closed := s.answer connection ++ s.closed
        singles := s.answer connection ++ s.singles }
    else none
  | .closeAll => if s.stopping then none else some s.sweep
  | .visit sweep connection =>
    match s.sweeps[sweep]? with
    | some w =>
      if w.ended = false ∧ connection ∈ s.registry then some (s.reach sweep w connection) else none
    | none => none
  | .finish sweep =>
    match s.sweeps[sweep]? with
    | some w =>
      -- who has left the registry is not waited for
      if w.ended = false ∧ ∀ connection ∈ w.ahead, connection ∉ s.registry then
        some { s with
          sweeps := s.sweeps.set sweep { w with ended := true }
          shutdown := if s.shutdown = .closing sweep then .draining else s.shutdown }
      else none
    | none => none
  | .stop =>
    if s.stopping ∨ s.sweeps.any (!·.ended) then none else some { s with shutdown := .joining }
  | .join =>
    if s.shutdown = .joining ∧ s.loops.all (· == .ended) then
      some { s.sweep with shutdown := .closing s.sweeps.length }
    else none
  | .listen =>
    if s.shutdown = .draining then some { s with shutdown := .listening s.announced } else none
  | .look =>
    match s.shutdown with
    | .listening after =>
      some { s with shutdown := if s.registry = [] then .returned else .waiting after }
    | _ => none
  | .hear =>
    match s.shutdown with
    | .waiting after => if s.announced ≠ after then some { s with shutdown := .draining } else none
    | _ => none

/-- Several things happen in turn; what cannot happen is passed over. -/
def play (s : Server) (events : List Event) : Server :=
  events.foldl (fun s e => (s.step e).getD s) s

/-- A call to close all that nothing comes between, **from the event that begins it** to its
end. -/
def sweeping (s : Server) (beginning : Event) : List Event :=
  beginning :: s.registry.map (.visit s.sweeps.length) ++ [.finish s.sweeps.length]

/-- A connection's task is over, and nothing comes between its last steps. -/
def concluding (connection : Nat) : List Event :=
  [.shut connection, .conclude connection, .lookBack connection, .announce connection]

/-- A connection's task is torn down, and nothing comes between its last steps. -/
def unwinding (connection : Nat) : List Event :=
  [.unwind connection, .lookBack connection, .announce connection]

/-- What starting a server brings about. -/
structure Startup where
  /-- The addresses that are listened on, or why there is no server. -/
  outcome : Except Error (List Address)
  /-- The loops that run from then on. -/
  server : Server

/-- Start loops one after another, each **once the address** of its listener is known. -/
def startFrom (running : List AcceptLoop) (addresses : List Address) :
    List (Except IoError Address) → Startup
  | [] => ⟨.ok addresses, { loops := running }⟩
  | .error cause :: _ => ⟨.error (.io cause), { loops := running }⟩
  | .ok address :: rest => startFrom (running ++ [.accepting]) (addresses ++ [address]) rest

/-- **Start a server** for these listeners, of which there must be one. -/
def start (listeners : List (Except IoError Address)) : Startup :=
  if listeners.isEmpty then ⟨.error (.config "no listeners registered"), { loops := [] }⟩
  else startFrom [] [] listeners

/-- A server that has not started, as text **up to the number of its handlers**. -/
def setupText (listeners handlers : Nat) : String :=
  "Server \x7b listeners: " ++ toString listeners ++ ", handlers: " ++ toString handlers

/-- A server at work on some addresses, as text. -/
def text (s : Server) (addresses : List Address) : String :=
  "ServerHandle \x7b local_addrs: [" ++ ", ".intercalate (addresses.map (·.text))
    ++ "], active_connections: " ++ toString s.active ++ " \x7d"

end Server

end HttpEngine
