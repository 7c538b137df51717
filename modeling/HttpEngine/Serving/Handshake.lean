import HttpEngine.Serving.Client
import HttpEngine.Serving.Handshake.Reply
import HttpEngine.Serving.Handshake.Record
import HttpEngine.Transport.Supply

/-!
# Handshakes that fail

A peer that does not send what belongs to a handshake is refused, mostly with an alert; one
that sends too little is waited for. No peer has the key that it takes to bring a handshake to
its end, so the records that it seals **never open**.

* `Handshake.judge`: what becomes of the bytes so far.
* `Handshake.fail`: wait for a handshake that does not come.
* `Handshake.acceptor`: what makes a server's part of handshakes **with such peers**.
-/

namespace HttpEngine.Handshake

/-- What a server waits for. -/
inductive Awaited
  | greeting
  /-- Another greeting, before which so many bytes of early data may come. -/
  | secondGreeting (asked : Asked) (leeway : Nat)
  /-- Sealed records in the newest version, so many bytes of which need not open. -/
  | sealedMessages (leeway : Nat)
  /-- In the older version, a share in a group. -/
  | keyExchange (group : Nat)
  /-- After that, the change of ciphers. -/
  | cipherChange
  /-- After that, sealed records. -/
  | sealedRecords
  deriving Repr

/-- How far a handshake has come. -/
structure Stage where
  awaited : Awaited := .greeting
  warnings : Nat := 0
  /-- The changes of ciphers that were passed over. -/
  cipherChanges : Nat := 0
  /-- What the server has said. -/
  said : Bytes := []
  deriving Repr

namespace Stage

/-- The stage after a greeting, the first or the second. -/
def greeted (s : Stage) (first? : Option Asked) (body behind : Bytes) : Except Refusal Stage :=
  match Greeting.read.run body with
  | .error c => .error (.corrupt c)
  | .ok (g, _) => do
    match ← g.reply first? (Message.isAligned (behind.length + 1) behind) with
    | .askFor asked suite group =>
      let leeway := if g.hasEarlyData then Greeting.earlyLeeway else 0
      return { s with
        awaited := .secondGreeting asked leeway
        said := s.said ++ Asked.message g.session suite group }
    | .newest leeway => return { s with awaited := .sealedMessages leeway }
    | .older group => return { s with awaited := .keyExchange group }

/-- Whether the share that a message consists of is one in the group of a number. -/
def exchanged (number : Nat) (body : Bytes) : Except Refusal Unit := do
  match (Take.counted 1).run body with
  | .error c => .error (.corrupt c)
  | .ok (share, rest) =>
    Greeting.demand rest.isEmpty (.corrupt .keyParameters)
    Greeting.demand ((Group.ofNumber? number).any (·.isShare share)) (.misbehaved .share)

/-- The stage after a message that is **not sealed**. -/
def hear (s : Stage) (kind : UInt8) (body behind : Bytes) : Except Refusal Stage :=
  match s.awaited with
  | .greeting =>
    if kind = Message.greeting then s.greeted none body behind
    else .error (Message.misfit kind body Message.greeting)
  | .secondGreeting asked _ =>
    if kind = Message.greeting then s.greeted (some asked) body behind
    else .error (Message.misfit kind body Message.greeting)
  | .sealedMessages _ =>
    if kind = Message.finished then .error .proofBroken
    else .error (Message.misfit kind body Message.finished)
  | .keyExchange group =>
    if kind = Message.keyExchange then do
      exchanged group body
      return { s with awaited := .cipherChange }
    else .error (Message.misfit kind body Message.keyExchange)
  | .cipherChange | .sealedRecords =>
    match (Message.shape kind).run body with
    | .error c => .error (.corrupt c)
    | .ok _ => .error (.unexpectedRecord Record.handshake Record.cipherChange)

/-- Whether the newest version was chosen. -/
def isNewest (s : Stage) : Bool :=
  match s.awaited with
  | .secondGreeting _ _ | .sealedMessages _ => true
  | _ => false

/-- The warnings that are put up with. -/
def patience : Nat := 4

/-- The warning that is one in the newest version too. -/
def userCanceled : UInt8 := 0x5a

/-- The stage after an alert, by its two bytes; a warning is **passed over**. -/
def warn (s : Stage) : Bytes → Except Refusal Stage
  | [] => .error (.corrupt (.missing "AlertLevel"))
  | [_] => .error (.corrupt (.missing "AlertDescription"))
  | [level, description] =>
    if level = 1 then
      if patience ≤ s.warnings then .error (.misbehaved .manyWarnings)
      else if s.isNewest && description != userCanceled then .error (.warned description)
      else .ok { s with warnings := s.warnings + 1 }
    else if level = 2 then .error (.alerted description)
    else .error (.oddAlert description)
  | _ => .error (.corrupt (.trailing "AlertMessagePayload"))

/-- The changes of ciphers that are put up with where they mean nothing. -/
def mostCipherChanges : Nat := 2

/-- The stage after a change of ciphers that means nothing. -/
def passOver (s : Stage) (payload : Bytes) : Except Refusal Stage :=
  if payload ≠ [1] then .error (.misbehaved .cipherChange)
  else if mostCipherChanges ≤ s.cipherChanges then .error (.misbehaved .manyCipherChanges)
  else .ok { s with cipherChanges := s.cipherChanges + 1 }

/-- Why a record is refused that is neither an alert nor what is expected. -/
def stray (r : Record) (expected : UInt8) : Refusal :=
  if r.kind = Record.cipherChange then
    match r.payload with
    | [1] => .unexpectedRecord r.kind expected
    | 1 :: _ => .corrupt (.trailing "ChangeCipherSpecPayload")
    | _ => .corrupt .cipherChange
  else if r.kind = Record.applicationData then .unexpectedRecord r.kind expected
  else .corrupt .contentType

/-- The bytes of an alert. -/
def alertLength : Nat := 2

/-- Whether a record may come as it is, and **is not sealed**. -/
def isOpen (s : Stage) (r : Record) : Bool :=
  match s.awaited with
  | .sealedMessages _ =>
    r.kind == Record.cipherChange || (r.kind == Record.alert && r.payload.length ≤ alertLength)
  | .sealedRecords => false
  | _ => true

/-- The stage after a sealed record, which does not open. -/
def force (s : Stage) (r : Record) : Except Refusal Stage :=
  match s.awaited with
  | .sealedMessages leeway =>
    if r.payload.length ≤ leeway then
      .ok { s with awaited := .sealedMessages (leeway - r.payload.length) }
    else .error .sealBroken
  | _ => .error .sealBroken

/-- The stage after a record that is not sealed, **and no part of a message**. -/
def pass (s : Stage) (r : Record) : Except Refusal Stage :=
  if s.isNewest && r.kind == Record.cipherChange then s.passOver r.payload
  else if r.kind = Record.alert then s.warn r.payload
  else
    match s.awaited with
    | .secondGreeting asked leeway =>
      if r.kind = Record.applicationData ∧ r.payload.length ≤ leeway then
        .ok { s with awaited := .secondGreeting asked (leeway - r.payload.length) }
      else .error (stray r Record.handshake)
    | .cipherChange =>
      if r.kind = Record.cipherChange ∧ r.payload = [1] then
        .ok { s with awaited := .sealedRecords }
      else .error (stray r Record.cipherChange)
    | _ => .error (stray r Record.handshake)

end Stage

/-- What becomes of some bytes. -/
structure Verdict where
  /-- What the server says to them. -/
  said : Bytes
  /-- Why the peer is refused, if it is. Otherwise **more is needed**. -/
  refusal? : Option Refusal
  /-- The bytes of an unfinished message that are kept. -/
  kept : Nat
  deriving Repr

/-- What becomes of some bytes at a stage, behind the beginning of a message. That was `kept` in
so many bytes, record headers included. -/
def judgeFrom (s : Stage) (kept : Nat) (joined bytes : Bytes) : Verdict :=
  let refuse := fun r => { said := s.said, refusal? := some r, kept := 0 }
  match _h : Message.first? joined with
  | some (kind, body, behind) =>
    match s.hear kind body behind with
    | .error r => refuse r
    | .ok s => judgeFrom s 0 behind bytes
  | none =>
    match _h : Record.next bytes with
    | .unfinished =>
      let kept := if joined.isEmpty then 0 else kept + bytes.length
      { said := s.said, refusal? := none, kept }
    | .corrupt c => refuse (.corrupt c)
    | .record r rest =>
      if !s.isOpen r then
        match s.force r with
        | .error r => refuse r
        | .ok s => judgeFrom s kept joined rest
      else if r.kind = Record.handshake then
        let joined := joined ++ r.payload
        if Message.announcesTooMuch (joined.length + 1) joined then
          refuse (.corrupt .messageTooLong)
        else judgeFrom s (kept + (bytes.length - rest.length)) joined rest
      else if !joined.isEmpty then refuse (.misbehaved .interleaving)
      else
        match s.pass r with
        | .error r => refuse r
        | .ok s => judgeFrom s kept joined rest
termination_by joined.length + bytes.length
decreasing_by
  · have := Message.length_first? ‹_›
    omega
  · have := Record.length_next ‹_›
    omega
  · have := Record.length_next ‹_›
    simp only [List.length_append]
    omega
  · have := Record.length_next ‹_›
    omega

/-- **What becomes of the bytes so far.** -/
def judge (bytes : Bytes) : Verdict := judgeFrom {} 0 [] bytes

/-- The most that one read asks for. -/
def room : Nat := 4096

/-- The most bytes of an unfinished message that are kept. -/
def mostKept : Nat := 0xffff

/-- The stream ended before there was a handshake. -/
def ended : IoError := .device .unexpectedEof "tls handshake eof"

/-- There is no room for the rest of a message. -/
def full : IoError := .device .invalidData "message buffer full"

/-- The stream once the peer was told something, as far as it could be told. -/
def told (bytes : Bytes) (w : Wire) : Wire :=
  if bytes.isEmpty then w
  else
    match Wire.write bytes w with
    | .ok _ w => w
    | .error _ w => w

/-- Wait for a handshake, given the bytes so far, how many of them are kept for an unfinished
message, and how many were said in return, **until it is clear that none comes**. -/
def failFrom (soFar : Bytes) (kept said : Nat) (w : Wire) : Halt IoError × Wire :=
  if mostKept ≤ kept then (.failed full, w)
  else
    match _h : Wire.read (min room (mostKept - kept)) w with
    | .error halt w' => (halt, w')
    | .ok [] w' => (.failed ended, w')
    | .ok (b :: bytes) w' =>
      let v := judge (soFar ++ b :: bytes)
      let unsaid := v.said.drop said
      match v.refusal? with
      | some r => (.failed (.device .invalidData r.text), told (unsaid ++ r.alert) w')
      | none =>
        if unsaid.isEmpty then failFrom (soFar ++ b :: bytes) v.kept said w'
        else
          match _h : Wire.write unsaid w' with
          | .error halt w'' => (halt, w'')
          | .ok _ w'' => failFrom (soFar ++ b :: bytes) v.kept v.said.length w''
termination_by w.inbound.pending
decreasing_by
  · have := Wire.pending_read ‹_›
    simp only [List.length_cons] at this
    omega
  · have := Wire.pending_read ‹_›
    have := Wire.inbound_write ‹_›
    simp only [List.length_cons] at *
    simp only [this]
    omega

/-- Wait for a handshake, **until it is clear that none comes**. -/
def fail (w : Wire) : Halt IoError × Wire := failFrom [] 0 0 w

theorem told_transfers (bytes : Bytes) (w : Wire) :
    w.journal.Grows Event.isTransfer (told bytes w).journal := by
  unfold told
  split
  · exact .refl _
  · have hwrite := Wire.write_transfers bytes w
    unfold Act.leaves at hwrite
    cases h : Wire.write bytes w <;> rwa [h] at hwrite

/-- A handshake **only reads and writes**, however far it comes. -/
theorem failFrom_transfers (soFar : Bytes) (kept said : Nat) (w : Wire) :
    w.journal.Grows Event.isTransfer (failFrom soFar kept said w).2.journal := by
  -- on the reads, with what is said after each of them
  fun_induction failFrom soFar kept said w with
  | case1 => exact .refl _
  | case2 soFar kept said w _ halt w' h => exact Act.leaves_of_error h ▸ Wire.read_transfers _ w
  | case3 soFar kept said w _ w' h => exact Act.leaves_of_ok h ▸ Wire.read_transfers _ w
  | case4 soFar kept said w _ b bytes w' h v unsaid r _ =>
    have hread := Wire.read_transfers (min room (mostKept - kept)) w
    rw [Act.leaves_of_ok h] at hread
    exact hread.trans (told_transfers _ w')
  | case5 soFar kept said w _ b bytes w' h v unsaid _ _ ih =>
    have hread := Wire.read_transfers (min room (mostKept - kept)) w
    rw [Act.leaves_of_ok h] at hread
    exact hread.trans ih
  | case6 soFar kept said w _ b bytes w' h v unsaid _ _ halt w'' hw =>
    have hread := Wire.read_transfers (min room (mostKept - kept)) w
    have hwrite := Wire.write_transfers unsaid w'
    rw [Act.leaves_of_ok h] at hread
    rw [Act.leaves_of_error hw] at hwrite
    exact hread.trans hwrite
  | case7 soFar kept said w _ b bytes w' h v unsaid _ _ n w'' hw ih =>
    have hread := Wire.read_transfers (min room (mostKept - kept)) w
    have hwrite := Wire.write_transfers unsaid w'
    rw [Act.leaves_of_ok h] at hread
    rw [Act.leaves_of_ok hw] at hwrite
    exact (hread.trans hwrite).trans ih

/-- What makes a server's part of handshakes with peers **that have no key**. -/
def acceptor : Acceptor where
  accept w := match fail w with | (halt, w) => .error halt w
  transfers w := failFrom_transfers [] 0 0 w

end HttpEngine.Handshake
