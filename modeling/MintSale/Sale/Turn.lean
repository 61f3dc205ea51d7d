/-!
# Turns

Those who work at a sale take turns. In one turn somebody takes in only so many things that were
sent; then the others have their turns first.
-/

namespace MintSale

/-- How many events, messages or commands somebody takes in during one turn. -/
def turnLimit : Nat := 128

end MintSale
