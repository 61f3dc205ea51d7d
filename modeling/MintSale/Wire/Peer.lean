import MintSale.Json.Basic

/-!
# Peers

Whoever answers requests at the other end of a connection. A peer answers by a script; when that is
used up, it closes the connection without an answer.
-/

namespace MintSale.Wire

/-- A request that is posted. -/
structure Request where
  /-- The key that is sent along. -/
  apiKey : Option String
  body : Json

/-- What a peer does with a request. -/
inductive Response where
  | dropped
  | answered (status : Nat) (body : String)

/-- A peer. -/
structure Peer where
  /-- Whether it takes connections at all. -/
  isListening : Bool
  script : List Response
  /-- The requests that have come in. -/
  received : List Request

namespace Peer

/-- Posts a request. The result also has the status and the body of the answer, if there is one. -/
def post (p : Peer) (r : Request) : Option (Nat × String) × Peer :=
  if p.isListening then
    let p := { p with received := p.received ++ [r] }
    match p.script with
    | .answered status body :: rest => (some (status, body), { p with script := rest })
    | .dropped :: rest => (none, { p with script := rest })
    | [] => (none, p)
  else (none, p)

end Peer

end MintSale.Wire
