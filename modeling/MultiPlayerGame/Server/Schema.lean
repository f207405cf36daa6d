import MultiPlayerGame.Server.World

/-!
# Setting up the schema

`DatabaseManager::initSchema` reads a file of SQL and passes it to `mysql_query` piece by piece.  It
goes through the text line by line, leaves out the lines that begin with `--`, gathers the others in
`statement`, and at each line with a semicolon in it passes on what has been gathered.  What is left
at the end is dropped.

A call of `mysql_query` that fails is only logged, and what a statement of the schema does to the
tables is not modelled; a run is the texts that are passed, in order.  The C function is given
`statement.c_str()`, so the text it sees ends before the first zero byte.
-/

namespace MultiPlayerGame
namespace Schema

open Bytes (ascii)

/-- `std::getline` in a loop: the lines of a text, without the newlines that end them.  A last line
that is not ended by a newline is a line if it is not empty.  `line` has been read of the present
one. -/
def getlines (line : Bytes) : Bytes → List Bytes
  | [] => if line = [] then [] else [line]
  | b :: rest => if b = 0x0A then line :: getlines [] rest else getlines (line ++ [b]) rest

/-- `line.rfind("--", 0) == 0` -/
def isComment (line : Bytes) : Bool := (ascii "--").isPrefixOf line

/-- `std::string::c_str`, as a C function sees it. -/
def cstr (s : Bytes) : Bytes := s.takeWhile (· ≠ 0)

/-- The texts that the loop passes to `mysql_query`, with `statement` gathered so far. -/
def queries (statement : Bytes) : List Bytes → List Bytes
  | [] => []
  | line :: lines =>
    if isComment line then queries statement lines
    else
      let statement := statement ++ (line ++ ascii "\n")
      if 0x3B ∈ line then cstr statement :: queries [] lines
      else queries statement lines

/-- `schema` is what the file holds; `none` if it cannot be opened.  The result comes with the texts
that were passed. -/
def initSchema (sql : Sql) (schema : Option Bytes) (db : Database) :
    (Bool × List Bytes) × Database :=
  let (opened, db) := db.open sql
  if !opened then ((false, []), db)
  else
    match schema with
    | none => ((true, []), db)
    | some text => ((true, queries [] (getlines [] text)), db)

theorem initSchema_of_open {sql : Sql} {db : Database} (hopen : (db.open sql).1 = true)
    (text : Bytes) : (initSchema sql (some text) db).1 = (true, queries [] (getlines [] text)) := by
  simp [initSchema, hopen]

/-! ## Lines -/

/-- The lines together are the text, with a newline at its end if it had none. -/
theorem flatMap_getlines (text line : Bytes) :
    (getlines line text).flatMap (· ++ ascii "\n") = line ++ text ∨
      (getlines line text).flatMap (· ++ ascii "\n") = line ++ text ++ ascii "\n" := by
  have hnl : ascii "\n" = [0x0A] := by decide
  rw [hnl]
  induction text generalizing line with
  | nil =>
    by_cases hline : line = []
    · left
      simp [getlines, hline]
    · right
      simp [getlines, hline]
  | cons b rest ih =>
    by_cases hb : b = 0x0A
    · subst hb
      simpa [getlines] using ih []
    · simpa [getlines, hb] using ih (line ++ [b])

/-! ## The loop, line by line -/

theorem queries_comment {line : Bytes} (hline : isComment line = true) (statement : Bytes)
    (lines : List Bytes) : queries statement (line :: lines) = queries statement lines := by
  rw [queries, if_pos hline]

/-- A line without a semicolon is gathered. -/
theorem queries_gather {line : Bytes} (hline : isComment line = false) (hsemi : 0x3B ∉ line)
    (statement : Bytes) (lines : List Bytes) :
    queries statement (line :: lines) = queries (statement ++ (line ++ ascii "\n")) lines := by
  rw [queries, if_neg (Bool.eq_false_iff.mp hline), if_neg hsemi]

/-- A line with a semicolon is passed on with what was gathered before it. -/
theorem queries_flush {line : Bytes} (hline : isComment line = false) (hsemi : 0x3B ∈ line)
    (statement : Bytes) (lines : List Bytes) :
    queries statement (line :: lines) =
      cstr (statement ++ (line ++ ascii "\n")) :: queries [] lines := by
  rw [queries, if_neg (Bool.eq_false_iff.mp hline), if_pos hsemi]

theorem cstr_eq_self {s : Bytes} (hs : 0 ∉ s) : cstr s = s :=
  List.takeWhile_eq_self_iff.mpr fun b hb => by
    have hne : b ≠ 0 := fun h => hs (h ▸ hb)
    simpa using hne

/-- No zero byte is ever passed. -/
theorem zero_notMem_of_mem_queries (lines : List Bytes) :
    ∀ statement : Bytes, ∀ q ∈ queries statement lines, 0 ∉ q := by
  induction lines with
  | nil =>
    intro statement q hq
    exact absurd hq List.not_mem_nil
  | cons line lines ih =>
    intro statement
    by_cases hline : isComment line = true
    · rw [queries_comment hline]
      exact ih statement
    · rw [Bool.not_eq_true] at hline
      by_cases hsemi : 0x3B ∈ line
      · rw [queries_flush hline hsemi]
        intro q hq
        rcases List.mem_cons.mp hq with rfl | hq
        · intro hzero
          simpa using List.mem_takeWhile_imp hzero
        · exact ih [] q hq
      · rw [queries_gather hline hsemi]
        exact ih _

end Schema
end MultiPlayerGame
