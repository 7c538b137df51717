import HttpEngine.Text.Quoted
import HttpEngine.Text.Span

/-!
# What can go wrong

* `IoError`: a failure of a stream, of a file or of a socket, with its kind and its text.
* `Error`: a failure of the engine, with its text.

Errors are causes; the wording is in `IoError.message` and `Error.message` alone.
-/

namespace HttpEngine

/-- The side of a stream that a byte budget limits. -/
inductive Direction
  | read
  | write
  deriving DecidableEq, Repr

/-- The word for a direction. -/
def Direction.word : Direction → String
  | .read => "read"
  | .write => "write"

/-- The kind of an input or output failure. -/
inductive IoKind
  | connectionReset
  | brokenPipe
  | timedOut
  | unexpectedEof
  | invalidData
  | notConnected
  | writeZero
  | invalidInput
  | addrInUse
  | addrNotAvailable
  | notFound
  | notADirectory
  | isADirectory
  | invalidFilename
  | permissionDenied
  | uncategorized
  | other
  deriving DecidableEq, Repr

/-- A failed read, write or lookup. -/
inductive IoError
  /-- What lies below failed, in its own words. -/
  | device (kind : IoKind) (detail : String)
  /-- A transfer was larger than what is left of a budget. -/
  | overBudget (side : Direction)
  /-- No line ended within the longest line allowed. -/
  | lineTooLong (limit : Nat)
  /-- A body ended before its announced length. -/
  | bodyCutShort (got want : Nat)
  /-- The stream took nothing of the bytes held for it. -/
  | heldBytesStuck
  /-- The stream took nothing of the bytes offered to it. -/
  | nothingWritten
  /-- The other end of the stream is gone. -/
  | peerGone
  /-- The client had been closed before its stream was asked for. -/
  | clientClosed
  deriving DecidableEq, Repr

namespace IoError

/-- The kind of a failure. -/
def kind : IoError → IoKind
  | device k _ => k
  | overBudget _ => .other
  | lineTooLong _ => .invalidData
  | bodyCutShort .. => .unexpectedEof
  | heldBytesStuck => .writeZero
  | nothingWritten => .writeZero
  | peerGone => .brokenPipe
  | clientClosed => .notConnected

/-- The text of a failure. -/
def message : IoError → String
  | device _ detail => detail
  | overBudget side => s!"the stream has exceeded the {side.word} limit specified"
  | lineTooLong limit => s!"line longer than {limit} bytes"
  | bodyCutShort got want => s!"stream ended after {got} of {want} body bytes"
  | heldBytesStuck => "failed to write the buffered data"
  | nothingWritten => "write zero byte into writer"
  | peerGone => "broken pipe"
  | clientClosed => "client already closed"

/-- The side whose budget ran out, if that is what happened. -/
def side? : IoError → Option Direction
  | overBudget side => some side
  | _ => none

end IoError

/-- A failure of the engine. -/
inductive Error
  /-- A stream failed. -/
  | io (cause : IoError)
  /-- A budget ran out. -/
  | limitExceeded (side : Direction)
  /-- No handshake within the time allowed, in nanoseconds. -/
  | handshakeTimeout (nanos : Nat)
  /-- The handshake failed. -/
  | tls (cause : IoError)
  /-- A method that is none of the known ones. -/
  | unknownMethod (name : String)
  /-- A header line without a separator. -/
  | malformedHeader (line : String)
  /-- A body length that is no number. -/
  | invalidContentLength (value : String)
  /-- The client's stream had been handed out before. -/
  | streamTaken
  /-- A certificate or key that cannot be used. -/
  | certificate (detail : String)
  /-- A configuration that cannot be used. -/
  | config (detail : String)
  deriving DecidableEq, Repr

/-- The text of an engine failure. -/
def Error.message : Error → String
  | io cause => "io error: " ++ cause.message
  | limitExceeded side => (IoError.overBudget side).message
  | handshakeTimeout nanos => "TLS handshake did not complete within " ++ Text.spanOfNanos nanos
  | tls cause => "TLS handshake failed: " ++ cause.message
  | unknownMethod name => "unknown HTTP method: " ++ Text.quoted name
  | malformedHeader line => "malformed header line: " ++ Text.quoted line
  | invalidContentLength value => "invalid content-length: " ++ Text.quoted value
  | streamTaken => "client stream already taken"
  | certificate detail => "certificate error: " ++ detail
  | config detail => "config error: " ++ detail

end HttpEngine
