import HttpEngine.Handling.Compression
import HttpEngine.Security.Credential
import HttpEngine.Serving.Config
import HttpEngine.Serving.Endpoint
import HttpEngine.Serving.Folder

/-!
# Setting up a server

* `Setup.ofConfig`: a server as a configuration wants it. **The listeners come first**, one
  after another, each with its certificates; then the codings.
-/

namespace HttpEngine

/-- How a listener secures its clients. -/
structure Guard where
  credential : Credential
  /-- Milliseconds that a handshake may take. -/
  limit : Nat
  deriving Repr

/-- A listener in its place. -/
structure Listener where
  endpoint : Endpoint
  guard? : Option Guard := none
  deriving Repr

/-- A server that has not started. -/
structure Setup where
  listeners : List Listener := []
  service : Service := {}

namespace Setup

/-- The contents of a file that a listener needs. -/
def read (files : Folder) (path : String) : Except Error Bytes :=
  match files.read path with
  | .ok contents => .ok contents
  | .error cause => .error (.certificate ("cannot read " ++ path ++ ": " ++ cause.message))

/-- How a listener secures its clients, **the certificates read first**. -/
def guard (files : Folder) (s : Safeguard) : Except Error Guard := do
  let certificate ← read files s.certificate
  let key ← read files s.key
  return { credential := ← Credential.ofPem certificate key, limit := s.patience * 1000 }

/-- A listener in its place, while others are taken. -/
def listener (files : Folder) (taken : List Endpoint) (l : Listening) : Except Error Listener := do
  let endpoint ← ((Endpoint.ofText l.address).bind (Endpoint.claim taken)).mapError Error.io
  match l.safeguard? with
  | none => return { endpoint }
  | some s => return { endpoint, guard? := some (← guard files s) }

/-- Listeners, **one after another**. -/
def listenersFrom (files : Folder) (done : List Listener) :
    List Listening → Except Error (List Listener)
  | [] => .ok done
  | l :: rest => do
    let next ← listener files (done.map (·.endpoint)) l
    listenersFrom files (done ++ [next]) rest

/-- The handlers that offer codings: one if there are any codings. -/
def codingHandlers (encode : Encoder) (c : Config) : Except Error (List Handler) :=
  if c.codings.isEmpty then .ok []
  else do return [(← Compression.ofNames c.codings c.level).handler encode]

/-- **A server** as a configuration wants it, which writes bodies by an encoder. -/
def ofConfig (encode : Encoder) (files : Folder) (c : Config) : Except Error Setup := do
  if c.listeners.isEmpty then .error (.config "no listeners configured")
  else
    let listeners ← listenersFrom files [] c.listeners
    let handlers ← codingHandlers encode c
    return {
      listeners
      service := { chain := ⟨handlers⟩, parser := .ofField c.override?, settings := c.settings } }

/-- A server with more handlers behind its own. -/
def withHandlers (s : Setup) (handlers : List Handler) : Setup :=
  { s with service := { s.service with chain := ⟨s.service.chain.handlers ++ handlers⟩ } }

end Setup

end HttpEngine
