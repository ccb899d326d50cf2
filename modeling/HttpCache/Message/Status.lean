import HttpCache.Text.Decimal

/-!
# HttpCache.Message.Status

The response statuses that the library can send.

* `Status.code`, `Status.reason` — the number and the phrase of the status line.
* `Status.ofCode?` — the status of a number, `none` for every number without one.
* `Status.all` — every status, in the order of the codes.
-/

namespace HttpCache

inductive Status where
  | continues
  | switchingProtocols
  | ok
  | created
  | accepted
  | nonAuthoritativeInformation
  | noContent
  | partialContent
  | movedPermanently
  | found
  | seeOther
  | notModified
  | temporaryRedirect
  | permanentRedirect
  | badRequest
  | unauthorized
  | forbidden
  | notFound
  | methodNotAllowed
  | conflict
  | gone
  | lengthRequired
  | payloadTooLarge
  | uriTooLong
  | unsupportedMediaType
  | unprocessableEntity
  | tooManyRequests
  | internalServerError
  | notImplemented
  | badGateway
  | serviceUnavailable
  | gatewayTimeout
  | httpVersionNotSupported
  deriving DecidableEq, Repr

namespace Status

def code : Status → Nat
  | continues => 100
  | switchingProtocols => 101
  | ok => 200
  | created => 201
  | accepted => 202
  | nonAuthoritativeInformation => 203
  | noContent => 204
  | partialContent => 206
  | movedPermanently => 301
  | found => 302
  | seeOther => 303
  | notModified => 304
  | temporaryRedirect => 307
  | permanentRedirect => 308
  | badRequest => 400
  | unauthorized => 401
  | forbidden => 403
  | notFound => 404
  | methodNotAllowed => 405
  | conflict => 409
  | gone => 410
  | lengthRequired => 411
  | payloadTooLarge => 413
  | uriTooLong => 414
  | unsupportedMediaType => 415
  | unprocessableEntity => 422
  | tooManyRequests => 429
  | internalServerError => 500
  | notImplemented => 501
  | badGateway => 502
  | serviceUnavailable => 503
  | gatewayTimeout => 504
  | httpVersionNotSupported => 505

def reason : Status → String
  | continues => "Continue"
  | switchingProtocols => "Switching Protocols"
  | ok => "OK"
  | created => "Created"
  | accepted => "Accepted"
  | nonAuthoritativeInformation => "Non-Authoritative Information"
  | noContent => "No Content"
  | partialContent => "Partial Content"
  | movedPermanently => "Moved Permanently"
  | found => "Found"
  | seeOther => "See Other"
  | notModified => "Not Modified"
  | temporaryRedirect => "Temporary Redirect"
  | permanentRedirect => "Permanent Redirect"
  | badRequest => "Bad Request"
  | unauthorized => "Unauthorized"
  | forbidden => "Forbidden"
  | notFound => "Not Found"
  | methodNotAllowed => "Method Not Allowed"
  | conflict => "Conflict"
  | gone => "Gone"
  | lengthRequired => "Length Required"
  | payloadTooLarge => "Payload Too Large"
  | uriTooLong => "URI Too Long"
  | unsupportedMediaType => "Unsupported Media Type"
  | unprocessableEntity => "Unprocessable Entity"
  | tooManyRequests => "Too Many Requests"
  | internalServerError => "Internal Server Error"
  | notImplemented => "Not Implemented"
  | badGateway => "Bad Gateway"
  | serviceUnavailable => "Service Unavailable"
  | gatewayTimeout => "Gateway Timeout"
  | httpVersionNotSupported => "HTTP Version Not Supported"

def all : List Status :=
  [.continues, .switchingProtocols, .ok, .created, .accepted, .nonAuthoritativeInformation,
   .noContent, .partialContent, .movedPermanently, .found, .seeOther, .notModified,
   .temporaryRedirect, .permanentRedirect, .badRequest, .unauthorized, .forbidden, .notFound,
   .methodNotAllowed, .conflict, .gone, .lengthRequired, .payloadTooLarge, .uriTooLong,
   .unsupportedMediaType, .unprocessableEntity, .tooManyRequests, .internalServerError,
   .notImplemented, .badGateway, .serviceUnavailable, .gatewayTimeout, .httpVersionNotSupported]

def ofCode? (n : Nat) : Option Status := all.find? fun s => s.code = n

def isSuccess (s : Status) : Bool := 200 ≤ s.code && s.code < 300

def isServerError (s : Status) : Bool := 500 ≤ s.code

def text (s : Status) : String := Decimal.text s.code ++ " " ++ s.reason

@[simp] theorem ofCode?_code (s : Status) : ofCode? s.code = some s := by
  cases s <;> rfl

theorem code_of_ofCode? {n : Nat} {s : Status} (h : ofCode? n = some s) : s.code = n := by
  simpa using List.find?_some h

end Status
end HttpCache
