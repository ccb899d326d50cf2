import HttpCache.Pipeline

/-!
# HttpCache.Server.Connection

The exchange on one connection: requests are cut off the front of the octets received so far and
answered one after the other.

* `Connection.decide` — what to do about the octets received so far.
* `Connection.exchange` — the answers to a sequence of reads, until the stream ends, a request
  asks to close, or one is refused.

How the octets are cut into reads is up to the network. A read of nothing is the end of the
stream; in the middle of a request it closes the connection without an answer.
-/

namespace HttpCache
namespace Connection

def maxRequestSize : Nat := 8 * 1024 * 1024

inductive Decision where
  /-- They may be the beginning of a request. -/
  | readMore
  /-- They are no request; the connection is closed after the answer. -/
  | refuse (response : Response)
  /-- They start with a request; the others follow it. -/
  | dispatch (request : Request) (rest : Bytes)
  deriving DecidableEq, Repr

def refusal (status : Status) (message : String) : Response :=
  (Response.ofText status message).withKeepAlive false

def tooLarge : Response := refusal .payloadTooLarge "Request entity too large"

def badRequest (e : RequestError) : Response := refusal .badRequest ("Bad Request: " ++ e.message)

/-- The number of octets of a request whose body starts at `offset`. -/
def needed (request : Request) (offset : Nat) : Nat := offset + request.contentLength?.getD 0

def decide (received : Bytes) : Decision :=
  if maxRequestSize < received.length then .refuse tooLarge
  else
    match Request.parse received with
    | .error .incomplete => .readMore
    | .error e => .refuse (badRequest e)
    | .ok (request, offset) =>
      let total := needed request offset
      if maxRequestSize < total then .refuse tooLarge
      else if received.length < total then .readMore
      else
        .dispatch { request with body := (received.take total).drop offset } (received.drop total)

/-- A request that is cut off takes at least one octet with it. -/
theorem length_lt_of_dispatch {received rest : Bytes} {request : Request}
    (h : decide received = .dispatch request rest) : rest.length < received.length := by
  unfold decide at h
  split at h
  · cases h
  · split at h
    · cases h
    · cases h
    · rename_i parsed offset hp
      have := Request.parse_offset hp
      dsimp only at h
      split at h
      · cases h
      · split at h
        · cases h
        · cases h
          simp only [List.length_drop, needed]
          omega

variable {σ : Type}

/-- The octets of an answer. Whether the connection stays open is up to the request. -/
def replyTo (request : Request) (response : Response) : Bytes :=
  (response.withKeepAlive request.keepAlive).wire

/-- Answers the requests in the octets received and in the reads to come. The value is all that is
sent. -/
def exchange (p : Pipeline σ) (reads : List Bytes) (received : Bytes) : Act σ Bytes :=
  if received.isEmpty then
    match reads with
    | [] | [] :: _ => pure []
    | (b :: chunk) :: reads => exchange p reads (b :: chunk)
  else
    match _hd : decide received with
    | .readMore =>
      match reads with
      | [] | [] :: _ => pure []
      | (b :: chunk) :: reads => exchange p reads (received ++ b :: chunk)
    | .refuse response => pure response.wire
    | .dispatch request rest => do
      let response ← p.handle request
      let sent := replyTo request response
      if request.keepAlive then do
        let more ← exchange p reads rest
        pure (sent ++ more)
      else pure sent
  termination_by (reads.length, received.length)
  decreasing_by
    · exact .left _ _ (Nat.lt_succ_self _)
    · exact .left _ _ (Nat.lt_succ_self _)
    · exact .right _ (length_lt_of_dispatch _hd)

end Connection
end HttpCache
