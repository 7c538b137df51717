import HttpEngine.Text.Case
import HttpEngine.Text.Cut

/-!
# Response status codes

`Status` lists the codes the engine can send; `code` and `reason` are what stands on a status
line, and `ofCode?` finds a status by its number.
-/

namespace HttpEngine

/-- A response status. -/
inductive Status
  | continue
  | switchingProtocols
  | ok
  | created
  | accepted
  | nonAuthoritativeInformation
  | noContent
  | resetContent
  | partialContent
  | multipleChoices
  | movedPermanently
  | found
  | seeOther
  | notModified
  | useProxy
  | temporaryRedirect
  | badRequest
  | unauthorized
  | paymentRequired
  | forbidden
  | notFound
  | methodNotAllowed
  | notAcceptable
  | proxyAuthenticationRequired
  | requestTimeout
  | conflict
  | gone
  | lengthRequired
  | preconditionFailed
  | payloadTooLarge
  | uriTooLong
  | unsupportedMediaType
  | rangeNotSatisfiable
  | expectationFailed
  | upgradeRequired
  | internalServerError
  | notImplemented
  | badGateway
  | serviceUnavailable
  | gatewayTimeout
  | httpVersionNotSupported
  deriving DecidableEq, Repr

namespace Status

/-- Every status, by code. -/
def all : List Status :=
  [.continue, switchingProtocols, ok, created, accepted, nonAuthoritativeInformation, noContent,
    resetContent, partialContent, multipleChoices, movedPermanently, found, seeOther,
    notModified, useProxy, temporaryRedirect, badRequest, unauthorized, paymentRequired,
    forbidden, notFound, methodNotAllowed, notAcceptable, proxyAuthenticationRequired,
    requestTimeout, conflict, gone, lengthRequired, preconditionFailed, payloadTooLarge,
    uriTooLong, unsupportedMediaType, rangeNotSatisfiable, expectationFailed, upgradeRequired,
    internalServerError, notImplemented, badGateway, serviceUnavailable, gatewayTimeout,
    httpVersionNotSupported]

/-- The number of a status. -/
def code : Status → Nat
  | .continue => 100
  | switchingProtocols => 101
  | ok => 200
  | created => 201
  | accepted => 202
  | nonAuthoritativeInformation => 203
  | noContent => 204
  | resetContent => 205
  | partialContent => 206
  | multipleChoices => 300
  | movedPermanently => 301
  | found => 302
  | seeOther => 303
  | notModified => 304
  | useProxy => 305
  | temporaryRedirect => 307
  | badRequest => 400
  | unauthorized => 401
  | paymentRequired => 402
  | forbidden => 403
  | notFound => 404
  | methodNotAllowed => 405
  | notAcceptable => 406
  | proxyAuthenticationRequired => 407
  | requestTimeout => 408
  | conflict => 409
  | gone => 410
  | lengthRequired => 411
  | preconditionFailed => 412
  | payloadTooLarge => 413
  | uriTooLong => 414
  | unsupportedMediaType => 415
  | rangeNotSatisfiable => 416
  | expectationFailed => 417
  | upgradeRequired => 426
  | internalServerError => 500
  | notImplemented => 501
  | badGateway => 502
  | serviceUnavailable => 503
  | gatewayTimeout => 504
  | httpVersionNotSupported => 505

/-- The reason phrase of a status. -/
def reason : Status → String
  | .continue => "Continue"
  | switchingProtocols => "Switching Protocols"
  | ok => "OK"
  | created => "Created"
  | accepted => "Accepted"
  | nonAuthoritativeInformation => "Non-Authoritative Information"
  | noContent => "No Content"
  | resetContent => "Reset Content"
  | partialContent => "Partial Content"
  | multipleChoices => "Multiple Choices"
  | movedPermanently => "Moved Permanently"
  | found => "Found"
  | seeOther => "See Other"
  | notModified => "Not Modified"
  | useProxy => "Use Proxy"
  | temporaryRedirect => "Temporary Redirect"
  | badRequest => "Bad Request"
  | unauthorized => "Unauthorized"
  | paymentRequired => "Payment Required"
  | forbidden => "Forbidden"
  | notFound => "Not Found"
  | methodNotAllowed => "Method Not Allowed"
  | notAcceptable => "Not Acceptable"
  | proxyAuthenticationRequired => "Proxy Authentication Required"
  | requestTimeout => "Request Timeout"
  | conflict => "Conflict"
  | gone => "Gone"
  | lengthRequired => "Length Required"
  | preconditionFailed => "Precondition Failed"
  | payloadTooLarge => "Payload Too Large"
  | uriTooLong => "URI Too Long"
  | unsupportedMediaType => "Unsupported Media Type"
  | rangeNotSatisfiable => "Range Not Satisfiable"
  | expectationFailed => "Expectation Failed"
  | upgradeRequired => "Upgrade Required"
  | internalServerError => "Internal Server Error"
  | notImplemented => "Not Implemented"
  | badGateway => "Bad Gateway"
  | serviceUnavailable => "Service Unavailable"
  | gatewayTimeout => "Gateway Timeout"
  | httpVersionNotSupported => "HTTP Version Not Supported"

/-- The status with a number. -/
def ofCode? (n : Nat) : Option Status := all.find? (·.code == n)

/-- Number and reason, as on a status line. -/
def text (s : Status) : String := s!"{s.code} {s.reason}"

/-- The reason as an identifier: its words, each **with one great letter**, put together. -/
def identifier (s : Status) : String :=
  let words := (Text.pieces ' ' s.reason.toList).flatMap (Text.pieces '-')
  String.ofList (words.flatMap Text.capitalised)

end Status

end HttpEngine
