import HttpExchange.Script

/-!
# What a script shows

The activity at a script between two moments: what was accepted and the calls that were
made or, once it has met TLS, what its peer has seen.
-/

namespace HttpExchange

namespace Script

/-- What happened at a script between two moments. -/
inductive Activity
  | plain (wrote : Bytes) (reads writes flushes unread : Nat) (closed : Bool)
  | secure (handshaken : Bool) (serverName : Bytes) (records : List Bytes)
      (toldGoodbye closed : Bool)
deriving DecidableEq, Repr

/-- The newest entries of a list that has grown at its front, the oldest of them first. -/
def newest {α : Type} (before after : List α) : List α :=
  (after.take (after.length - before.length)).reverse

/-- The activity at a script, if there was any. A script that has met TLS shows what its
peer has seen and no calls. -/
def activity? (before after : Script) : Option Activity :=
  match after.secure with
  | none =>
    let reads := after.reads - before.reads
    let writes := after.writes - before.writes
    let flushes := after.flushes - before.flushes
    if reads = 0 ∧ writes = 0 ∧ flushes = 0 ∧ after.unread = before.unread
        ∧ after.closed = before.closed then none
    else some (.plain (newest before.accepted after.accepted).flatten reads writes flushes
      after.unread after.closed)
  | some trace =>
    let records := newest before.trace.records trace.records
    if before.secure.isSome ∧ records = [] ∧ trace.handshaken = before.trace.handshaken
        ∧ trace.toldGoodbye = before.trace.toldGoodbye ∧ after.closed = before.closed then none
    else some (.secure trace.handshaken trace.serverName records trace.toldGoodbye after.closed)

end Script

end HttpExchange
