import HttpCache.Server.Address
import HttpCache.Server.Connection

/-!
# HttpCache.Server.Listening

A server that answers its connections one after the other.

* `Link` — what reaches the server from a client: a sequence of reads, or nothing at all when the
  network does not let the client through.
* `Server.listen` — a server on an address; some addresses cannot be used.
* `Server.run` — what each client gets, in the order of the connections.
-/

namespace HttpCache

inductive Link where
  | unreachable
  /-- The client sends the given octets and then closes its side. -/
  | connected (reads : List Bytes)
  deriving DecidableEq, Repr

inductive LinkError where
  | notConnected
  deriving DecidableEq, Repr

structure Server (σ : Type) where
  address : Address
  pipeline : Pipeline σ

namespace Server

variable {σ : Type}

def listen (address : String) (pipeline : Pipeline σ) : Option (Server σ) :=
  ((Address.ofText? address).filter (·.host.isUsable)).map fun address => ⟨address, pipeline⟩

/-- What a client gets until the server closes the connection. -/
def answer (server : Server σ) : Link → Act σ (Except LinkError Bytes)
  | .unreachable => pure (.error .notConnected)
  | .connected reads => do
    let sent ← Connection.exchange server.pipeline reads []
    pure (.ok sent)

def run (server : Server σ) : List Link → Act σ (List (Except LinkError Bytes))
  | [] => pure []
  | link :: links => do
    let first ← server.answer link
    let others ← server.run links
    pure (first :: others)

end Server
end HttpCache
