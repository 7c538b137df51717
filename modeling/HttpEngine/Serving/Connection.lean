import HttpEngine.Handling.Chain
import HttpEngine.Message.Progress
import HttpEngine.Serving.Client

/-!
# Serving one client

A connection reads a request, hands it to the chain of handlers, and sends what comes out of
it, over and over until there is a reason to stop.

* `Service.serve`: requests one after another; each has **fresh budgets**, and the bytes read
  ahead stay for the next one.
* `Service.run`: a client from its opening to its closing.
-/

namespace HttpEngine

/-- How connections are served. -/
structure Settings where
  /-- Bytes that may be read for one request. -/
  readLimit : Budget := none
  /-- Bytes that may be written for one response. -/
  writeLimit : Budget := none
  reader : ReaderOptions := {}
  /-- The size of the write buffer. -/
  writeBuffer : Nat := 8192
  deriving DecidableEq, Repr

/-- What is done for every client. -/
structure Service where
  chain : Chain := {}
  parser : Parser := .ofField (some .header)
  settings : Settings := {}

/-- Why serving came to its end. -/
inductive Conclusion
  /-- There was no further request. -/
  | noRequest
  /-- The last response asked for it, or the last request did. -/
  | finished
  /-- Something failed, with this text. -/
  | failed (text : String)
  /-- It was closed from outside. -/
  | cut
  /-- A result did not fit into its word, and **nothing was done any more**. -/
  | trapped
  deriving DecidableEq, Repr

/-- The end that a halt leads to. -/
def Conclusion.ofHalt {ε : Type} (text : ε → String) : Halt ε → Conclusion
  | .failed cause => failed (text cause)
  | .cut => cut
  | .trapped => trapped

/-- A conclusion and the link it left behind. -/
structure Served where
  conclusion : Conclusion
  link : Link

/-- What is left of a client once its connection is over. -/
structure Life where
  client : Client
  conclusion : Conclusion
  /-- How shutting the stream down failed, if it did. -/
  shutdownFailure? : Option IoError := none

namespace Link

/-- The link with an entry added to the journal. -/
def noting (l : Link) (e : Event) : Link :=
  { l with wire := { l.wire with journal := e :: l.wire.journal } }

/-- The link with lines added to the journal, noted now. -/
def notingAll (l : Link) (lines : List String) : Link :=
  lines.foldl (fun l line => l.noting (.noted l.wire.clock line)) l

@[simp] theorem available_noting (l : Link) (e : Event) : (l.noting e).available = l.available :=
  rfl

@[simp] theorem available_notingAll (l : Link) (lines : List String) :
    (l.notingAll lines).available = l.available := by
  unfold notingAll
  induction lines generalizing l with
  | nil => rfl
  | cons line rest ih => simp [ih]

@[simp] theorem available_renew (l : Link) (r w : Budget) :
    (l.renew r w).available = l.available := rfl

end Link

namespace Service

/-- Send what the chain answered, if anything, and say whether it asked for the connection to
be closed. -/
def answer (c : Context) : Link.Act Bool := fun l =>
  match c.response? with
  | none => .ok false l
  | some r =>
    match r.deliver c.cookies? (l.noting (.entered .writing)) with
    | .error halt l => .error halt l
    | .ok () l => .ok r.close (l.noting (.touched .writing))

/-- Sending an answer leaves what there is to read alone. -/
theorem available_answer {c : Context} {close : Bool} {l l' : Link}
    (h : answer c l = .ok close l') : l'.available = l.available := by
  unfold answer at h
  split at h
  · cases h; rfl
  · split at h
    · cases h
    · rename_i hd
      cases h
      have := Response.available_deliver hd
      simpa using this

/-- What handlers see of a request that came on a link. -/
def contextOn (remote : Address) (request : Request) (l : Link) : Context :=
  { request, remote, phase? := some l.wire.journal.phase, past := l.wire.journal }

/-- Wait for something that never happens. -/
def stuckOn (l : Link) : Link :=
  match Wire.await none l.wire with
  | .ok () w => { l with wire := w }
  | .error _ w => { l with wire := w }

/-- Hand a request to the chain, with what its handlers noted added to the journal. -/
def dispatch (s : Service) (remote : Address) (request : Request) (l : Link) :
    Verdict × Context × Link :=
  let l := l.noting (.touched .dispatching)
  let (verdict, c) := s.chain.run (contextOn remote request l)
  (verdict, c, l.notingAll c.notes)

theorem available_of_dispatch {s : Service} {remote : Address} {request : Request}
    {verdict : Verdict} {c : Context} {l l' : Link}
    (h : s.dispatch remote request l = (verdict, c, l')) : l'.available = l.available := by
  cases h
  simp

/-- The link ready for the next request. -/
def readied (s : Service) (l : Link) : Link :=
  (l.noting (.entered .reading)).renew s.settings.readLimit s.settings.writeLimit

@[simp] theorem available_readied (s : Service) (l : Link) :
    (s.readied l).available = l.available := rfl

/-- **Serve requests one after another**: on as long as the client asks for it and no response
objects. -/
def serve (s : Service) (remote : Address) (parser : Parser) (l : Link) : Served :=
  match _h : parser.parse (s.readied l) with
  | ⟨.error halt, _, l⟩ => ⟨.ofHalt Error.message halt, l⟩
  | ⟨.ok none, _, l⟩ => ⟨.noRequest, l⟩
  | ⟨.ok (some request), parser, l⟩ =>
    match _d : s.dispatch remote request l with
    | (.failed text, _, l) => ⟨.failed text, l⟩
    | (.stuck, _, l) => ⟨.cut, stuckOn l⟩
    | (.done, c, l) =>
      match _k : answer c l with
      | .error halt l => ⟨.ofHalt IoError.message halt, l⟩
      | .ok close l =>
        if request.keepAlive && !close then serve s remote parser l else ⟨.finished, l⟩
termination_by l.available
decreasing_by
  have h := Parser.available_of_parse ‹_›
  have d := available_of_dispatch ‹_›
  have k := available_answer ‹_›
  rw [available_readied] at h
  omega

/-- Shut the stream down after serving came to an end of its own. -/
def partWith (client : Client) (served : Served) : Life :=
  let left := fun (l : Link) => { client with wire := l.wire }
  match served.conclusion with
  | .noRequest | .finished =>
    match served.link.shutDown with
    | .ok () l => ⟨left l, served.conclusion, none⟩
    | .error (.failed cause) l => ⟨left l, served.conclusion, some cause⟩
    | .error .cut l => ⟨left l, .cut, none⟩
    | .error .trapped l => ⟨left l, .trapped, none⟩
  | _ => ⟨left served.link, served.conclusion, none⟩

/-- Open the stream and serve what comes on it. -/
def attend (s : Service) (client : Client) : Life :=
  match client.openStream with
  | .error halt client => ⟨client, .ofHalt Error.message halt, none⟩
  | .ok () client =>
    partWith client (s.serve client.address s.parser
      { wire := client.wire, capacity := s.settings.writeBuffer, options := s.settings.reader })

/-- A life once the connection has entered the last phase and closed its client. -/
def closing (life : Life) : Life :=
  let wire := life.client.wire
  { life with
    client := { life.client with
      switch := life.client.switch.close.2
      wire := { wire with journal := .entered .closed :: wire.journal } } }

/-- **A client from its opening to its closing.** Whatever happens in between, the connection
ends closed and so does the client, unless a trap left it where it was. -/
def run (s : Service) (client : Client) : Life :=
  let life := s.attend client
  if life.conclusion = .trapped then life else closing life

end Service

end HttpEngine
