import HttpEngine.Handling.Context
import HttpEngine.Transport.Transfers

/-!
# Clients

A client is a stream that can be handed out once, with a switch to close it.

* `CloseSwitch.close`: closes, and says whether **this** was the call that did.
* `Acceptor`: what handshakes are made by.
* `Client.openStream`: hand the stream out, after a handshake where there has to be one.
-/

namespace HttpEngine

/-- Whether a client was closed. -/
structure CloseSwitch where
  closed : Bool := false
  deriving DecidableEq, Repr

/-- Close, and answer yes **for the call that closes**. -/
def CloseSwitch.close (s : CloseSwitch) : Bool × CloseSwitch := (!s.closed, ⟨true⟩)

/-- What makes a server's part of a handshake on a stream. Its answer is the secured stream: where
the bytes come from that the peer seals, and where those go that are sealed for it. -/
structure Acceptor where
  accept : Wire.Act (Inbound × Outbound)
  /-- It **reads and writes, and nothing else**, be the handshake brought to its end or not. -/
  transfers : ∀ w : Wire, w.journal.Grows Event.isTransfer (Act.leaves accept w).journal

/-- How a client is secured. -/
structure Security where
  acceptor : Acceptor
  /-- The milliseconds that a handshake may take. -/
  limit : Nat

/-- The milliseconds that a handshake may take unless something else is said. -/
def Security.defaultLimit : Nat := 10000

/-- One accepted peer. -/
structure Client where
  address : Address
  switch : CloseSwitch := {}
  /-- Whether the stream was handed out. -/
  taken : Bool := false
  wire : Wire := {}
  security? : Option Security := none

namespace Client

/-- Whether the client is still open. -/
def connected (c : Client) : Bool := !c.switch.closed

/-- Close the client. -/
def close (c : Client) : Bool × Client :=
  let (answer, switch) := c.switch.close
  (answer, { c with switch })

/-- The client with a handshake tried, which takes **at most its limit**; one that takes
longer closes the client. A handshake that comes to its end leaves the client with the secured
stream. -/
def secure (s : Security) : EStateM (Halt Error) Client Unit := fun c =>
  let last := c.wire.clock + s.limit
  let deadline := min last (c.wire.deadline.getD last)
  let left := fun (w : Wire) => { c with wire := { w with deadline := c.wire.deadline } }
  match s.acceptor.accept { c.wire with deadline := some deadline } with
  | .ok (inbound, outbound) w => .ok () (left { w with inbound, outbound })
  | .error (.failed cause) w => .error (.failed (.tls cause)) (left w)
  | .error .cut w =>
    if last ≤ w.clock then
      .error (.failed (.handshakeTimeout (s.limit * 1000000))) (left w).close.2
    else .error .cut (left w)
  | .error .trapped w => .error .trapped (left w)

/-- Hand the stream out, **once** and never from a closed client. -/
def openStream : EStateM (Halt Error) Client Unit := fun c =>
  if c.switch.closed then .error (.failed (.io .clientClosed)) c
  else if c.taken then .error (.failed .streamTaken) c
  else
    match c.security? with
    | none => .ok () { c with taken := true }
    | some s => secure s { c with taken := true }

end Client

end HttpEngine
