import MultiPlayerGame.Server.World
import MultiPlayerGame.Library.Interleaving

/-!
# The database handle

The part of `DatabaseManager` that its operations share: the handle `m_conn`, and `open`, which
makes sure that it is connected.  An operation has two sections under the mutex.  In the first it
calls `open`; in the second it prepares and executes its statement, beginning with
`mysql_stmt_init(m_conn)`.  The mutex is free in between.  Each section is one step here.

The four operations have the same two sections and differ in the statement.  What they do with its
outcome afterwards does not touch the handle and is left out.
-/

namespace MultiPlayerGame
namespace DatabaseHandle

open Interleaving (Config)

/-- An operation with its arguments. -/
inductive Operation where
  | upsertPlayer (playerId : Int32) (username : Bytes) (score kills : Int32)
  | recordEvent (matchId : Bytes) (playerId : Int32) (eventType eventData : Bytes)
  | getPlayer (playerId : Int32)
  | saveMatch (matchId status : Bytes) (totalPlayers totalKills winnerPlayerId : Int32)
  deriving DecidableEq, Repr

/-- A section under the mutex. -/
inductive Section where
  | «open»
  | statement (op : Operation)
  deriving DecidableEq, Repr

/-- Whether `open` succeeded, and how far the statement got. -/
@[reducible] def Section.Ans : Section → Type
  | .open => Bool
  | .statement _ => StatementOutcome

/-- The effect of the statement of an operation on the tables that are modelled; `getPlayer` only
reads, and `saveMatch` writes to another table. -/
def Operation.apply (op : Operation) (db : Database) : Database :=
  match op with
  | upsertPlayer playerId username score kills =>
    db.apply (.upsertPlayer playerId username score kills)
  | recordEvent matchId playerId eventType eventData =>
    db.apply (.recordEvent matchId playerId eventType eventData)
  | getPlayer _ => db
  | saveMatch .. => db

def Section.exec : (c : Section) → Sql → Database → c.Ans × Database
  | .open, sql, db => db.open sql
  | .statement op, sql, db =>
    (sql.statement, if sql.statement = .executed true then op.apply db else db)

/-- A program of sections. -/
abbrev Worker := Program Section Section.Ans

def enter (c : Section) : Worker c.Ans := Program.perform c

/-- The second section.  It uses the handle without asking again whether it is there. -/
def Operation.execute (op : Operation) : Worker (Option StatementOutcome) := do
  let outcome ← enter (.statement op)
  return some outcome

/-- `if (!open()) return`, and then the statement. -/
def Operation.run (op : Operation) : Worker (Option StatementOutcome) := do
  if !(← enter .open) then return none
  op.execute

/-- The operations in progress and the database.  Nothing else has a part in what happens to the
handle. -/
abbrev State := Config Section Section.Ans Operation (Option StatementOutcome) Database

/-- The operation `id` has opened the database and is about to execute its statement. -/
def AtStatement (x : State) (id : ℕ) : Prop := ∃ op : Operation, x.inflight id = some op.execute

end DatabaseHandle
end MultiPlayerGame
