import MultiPlayerGame.Library.Since
import MultiPlayerGame.Server.CacheManager
import MultiPlayerGame.Results.Elimination

/-!
# The cache as two maps

Over a Redis that always answers, `CacheManager` is two independent maps from players: the last
session set and not since deleted, and the last position set.  The keys of the two kinds are
disjoint and injective in the player, so every entry of Redis is described by the calls about one
player and one kind (`Described`), and the text in it reads back.

## Why it holds

Redis has one map, and the cache uses it for two kinds of entries.  That they do not meet is a
matter of the keys: the two kinds begin differently, and the numeral at the end determines the
player, since different numbers have different numerals (`positionKey_injective`).  So a call about
another player, or of the other kind, leaves an entry alone, and what an entry is follows from the
calls about it, the last one first.

That the query returns what was set is a round trip.  A position is stored as two numerals with a
comma in between, and read by `stoi` on the two sides of the comma, negative numbers included.  A
session is stored as the text of a value, and that parsing undoes dumping is a hypothesis on the
sessions, as nothing else is asked of them.
-/

namespace MultiPlayerGame
namespace Cache

open CacheManager (sessionKey positionKey positionText)
open Elimination (toString_injective sessionKey_injective sessionKey_ne_positionKey)
open Since (latest latest_concat)

/-- A call that changes the cache.  Each of them sends one command to Redis or, if there is nothing
to send, none. -/
inductive Update where
  | setPlayerSession (playerId : Int32) (sessionData : Json) (ttlSec : Int32)
  | deletePlayerSession (playerId : Int32)
  | setPlayerPosition (playerId x y : Int32)

/-- The call as the handlers make it. -/
def Update.handler : Update → Handler (Except Unit Bool)
  | .setPlayerSession playerId sessionData ttlSec =>
    CacheManager.setPlayerSessionFor playerId sessionData ttlSec
  | .deletePlayerSession playerId => do return .ok (← CacheManager.deletePlayerSession playerId)
  | .setPlayerPosition playerId x y => do return .ok (← CacheManager.setPlayerPosition playerId x y)

/-! ## The two maps -/

/-- What a call makes of the session of a player.  A session that cannot be dumped is not set. -/
def Update.session (playerId : Int32) : Update → Option (Option Json)
  | .setPlayerSession p sessionData _ =>
    if p = playerId ∧ sessionData.dump.isSome then some (some sessionData) else none
  | .deletePlayerSession p => if p = playerId then some none else none
  | .setPlayerPosition .. => none

/-- What a call makes of the position of a player. -/
def Update.position (playerId : Int32) : Update → Option (Int32 × Int32)
  | .setPlayerPosition p x y => if p = playerId then some (x, y) else none
  | _ => none

/-- The last session set and not since deleted.  It is read off the calls about this player alone,
the later ones first. -/
def session (playerId : Int32) (updates : List Update) : Option Json :=
  (latest (Update.session playerId) updates).join

/-- The last position set.  A position is never deleted. -/
def position (playerId : Int32) (updates : List Update) : Option (Int32 × Int32) :=
  latest (Update.position playerId) updates

/-! ## One call -/

section Keys

variable (fp : Doubles) (w : World) (playerId : Int32)

/-- The state after some calls. -/
def after (updates : List Update) : World :=
  updates.foldl (fun w u => (u.handler.run (Call.execAnswering fp) w).2) w

theorem after_concat (updates : List Update) (u : Update) :
    after fp w (updates ++ [u]) =
      (u.handler.run (Call.execAnswering fp) (after fp w updates)).2 := by
  rw [after, List.foldl_append]
  rfl

theorem positionKey_injective : Function.Injective positionKey := fun _ _ h =>
  toString_injective (List.append_cancel_left h)

/-- **The entry of a session after a call.**  A call about the session of this player sets or
deletes it, and every other call has another key. -/
theorem lookup_sessionKey (u : Update) :
    (u.handler.run (Call.execAnswering fp) w).2.keys.lookup (sessionKey playerId) =
      match u.session playerId with
      | some v => v.bind Json.dump
      | none => w.keys.lookup (sessionKey playerId) := by
  cases u with
  | setPlayerSession p sessionData ttlSec =>
    rw [Update.handler, CacheManager.setPlayerSessionFor, Update.session]
    cases hdump : sessionData.dump with
    | none => simp
    | some text =>
      change (w.keys.insert (sessionKey p) text).lookup _ = _
      by_cases hp : p = playerId
      · subst hp
        rw [AList.lookup_insert, if_pos ⟨rfl, rfl⟩]
        exact hdump.symm
      · rw [AList.lookup_insert_ne fun h => hp (sessionKey_injective h).symm,
          if_neg fun h => hp h.1]
  | deletePlayerSession p =>
    change (w.keys.erase (sessionKey p)).lookup _ = _
    rw [Update.session]
    by_cases hp : p = playerId
    · subst hp
      rw [AList.lookup_erase, if_pos rfl]
      rfl
    · rw [AList.lookup_erase_ne fun h => hp (sessionKey_injective h).symm, if_neg hp]
  | setPlayerPosition p x y =>
    exact AList.lookup_insert_ne (sessionKey_ne_positionKey playerId p)

/-- **The entry of a position after a call.**  Only a call that sets the position of this player
writes to it. -/
theorem lookup_positionKey (u : Update) :
    (u.handler.run (Call.execAnswering fp) w).2.keys.lookup (positionKey playerId) =
      match u.position playerId with
      | some p => some (positionText p)
      | none => w.keys.lookup (positionKey playerId) := by
  cases u with
  | setPlayerSession p sessionData ttlSec =>
    rw [Update.handler, CacheManager.setPlayerSessionFor]
    cases sessionData.dump with
    | none => rfl
    | some text => exact AList.lookup_insert_ne (sessionKey_ne_positionKey p playerId).symm
  | deletePlayerSession p =>
    exact AList.lookup_erase_ne (sessionKey_ne_positionKey p playerId).symm
  | setPlayerPosition p x y =>
    change (w.keys.insert (positionKey p) (positionText (x, y))).lookup _ = _
    rw [Update.position]
    by_cases hp : p = playerId
    · subst hp
      rw [AList.lookup_insert, if_pos rfl]
    · rw [AList.lookup_insert_ne fun h => hp (positionKey_injective h).symm, if_neg hp]

end Keys

/-! ## All calls -/

/-- Every entry of Redis is the text of what the calls have left. -/
structure Described (updates : List Update) (w : World) : Prop where
  session : ∀ p, w.keys.lookup (sessionKey p) = (session p updates).bind Json.dump
  position : ∀ p, w.keys.lookup (positionKey p) = (position p updates).map positionText

theorem session_concat (p : Int32) (updates : List Update) (u : Update) :
    session p (updates ++ [u]) = match u.session p with
      | some v => v
      | none => session p updates := by
  rw [session, latest_concat]
  cases u.session p with
  | none => rfl
  | some v => rfl

theorem position_concat (p : Int32) (updates : List Update) (u : Update) :
    position p (updates ++ [u]) = (u.position p).or (position p updates) :=
  latest_concat _ _ _

theorem described_after (fp : Doubles) {w : World} (hempty : w.keys = ∅) (updates : List Update) :
    Described updates (after fp w updates) := by
  induction updates using List.reverseRecOn with
  | nil =>
    refine ⟨fun p => ?_, fun p => ?_⟩
    · change w.keys.lookup _ = none
      rw [hempty]
      rfl
    · change w.keys.lookup _ = none
      rw [hempty]
      rfl
  | append_singleton updates u ih =>
    refine ⟨fun p => ?_, fun p => ?_⟩
    · rw [after_concat, lookup_sessionKey, session_concat, ih.session p]
      cases u.session p with
      | none => rfl
      | some v => rfl
    · rw [after_concat, lookup_positionKey, position_concat, ih.position p]
      cases u.position p with
      | none => rfl
      | some q => rfl

/-- A session that is there has been set and could be dumped. -/
theorem of_mem_session {p : Int32} {updates : List Update} {j : Json} (h : j ∈ session p updates) :
    j.dump.isSome = true ∧ ∃ ttlSec, .setPlayerSession p j ttlSec ∈ updates := by
  induction updates using List.reverseRecOn with
  | nil => cases h
  | append_singleton updates u ih =>
    rw [session_concat] at h
    cases hu : u.session p with
    | none =>
      rw [hu] at h
      obtain ⟨hdump, ttlSec, hmem⟩ := ih h
      exact ⟨hdump, ttlSec, List.mem_append_left _ hmem⟩
    | some v =>
      rw [hu] at h
      cases u with
      | setPlayerSession q sessionData ttlSec =>
        rw [Update.session] at hu
        split at hu
        · rename_i hq
          cases hu
          cases h
          exact ⟨hq.2, ttlSec, hq.1 ▸ List.mem_concat_self⟩
        · cases hu
      | deletePlayerSession q =>
        rw [Update.session] at hu
        split at hu
        · cases hu
          cases h
        · cases hu
      | setPlayerPosition => cases hu

section Answers

variable (fp : Doubles) (w : World)

/-- The answers of the two queries after some calls. -/
def sessionAnswer (playerId : Int32) (updates : List Update) : Except Unit (Option Json) :=
  ((CacheManager.getPlayerSession playerId).run (Call.execAnswering fp) (after fp w updates)).1

def positionAnswer (playerId : Int32) (updates : List Update) :
    Except Unit (Option (Int32 × Int32)) :=
  ((CacheManager.getPlayerPosition playerId).run (Call.execAnswering fp) (after fp w updates)).1

/-- **The cache is two maps.**  The queries about a player return the last session set and not since
deleted, and the last position set; a call about another player or of the other kind changes
neither answer. -/
theorem answers (hempty : w.keys = ∅) (playerId : Int32) (updates : List Update)
    (hparse : ∀ p j ttlSec text, .setPlayerSession p j ttlSec ∈ updates →
      j.dump = some text → Parser.parse text = some j) :
    positionAnswer fp w playerId updates = .ok (position playerId updates) ∧
    sessionAnswer fp w playerId updates = .ok (session playerId updates) ∧
    ∀ u : Update,
      (u.position playerId = none → positionAnswer fp w playerId (updates ++ [u]) =
        positionAnswer fp w playerId updates) ∧
      (u.session playerId = none → sessionAnswer fp w playerId (updates ++ [u]) =
        sessionAnswer fp w playerId updates) := by
  have hposition : ∀ updates,
      positionAnswer fp w playerId updates = .ok (position playerId updates) := fun updates =>
    CacheManager.getPlayerPosition_run fp playerId _
      ((described_after fp hempty updates).position playerId)
  have hsession : ∀ us, session playerId us = session playerId updates →
      sessionAnswer fp w playerId us = .ok (session playerId us) := fun us hus =>
    CacheManager.getPlayerSession_run fp playerId _
      (fun j hj text htext => by
        rw [hus] at hj
        obtain ⟨-, ttlSec, hmem⟩ := of_mem_session hj
        exact hparse _ j ttlSec text hmem htext)
      (fun j hj => (of_mem_session hj).1) ((described_after fp hempty us).session playerId)
  refine ⟨hposition updates, hsession updates rfl, fun u => ⟨fun hu => ?_, fun hu => ?_⟩⟩
  · rw [hposition, hposition, position_concat, hu, Option.none_or]
  · have hsame : session playerId (updates ++ [u]) = session playerId updates := by
      rw [session_concat, hu]
    rw [hsession _ hsame, hsession updates rfl, hsame]

end Answers

/-- A position at the extremes of `int`, a session, and another one deleted. -/
def sample : List Update :=
  [.setPlayerPosition (-5) Int32.minValue Int32.maxValue, .setPlayerSession 7 (.integer 3) 300,
    .setPlayerSession 8 .null 0, .deletePlayerSession 8]

theorem answers_sample :
    positionAnswer .zero .started (-5) sample = .ok (some (Int32.minValue, Int32.maxValue)) ∧
    sessionAnswer .zero .started 7 sample = .ok (some (.integer 3)) := by
  have hparse : ∀ p j ttlSec text, .setPlayerSession p j ttlSec ∈ sample →
      j.dump = some text → Parser.parse text = some j := by
    intro p j ttlSec text hmem hdump
    simp only [sample, List.mem_cons, List.not_mem_nil, reduceCtorEq, false_or, or_false,
      Update.setPlayerSession.injEq] at hmem
    rcases hmem with ⟨-, rfl, -⟩ | ⟨-, rfl, -⟩
    · cases hdump
      exact Parser.parse_text (by decide +kernel)
    · cases hdump
      exact Parser.parse_text (by decide +kernel)
  obtain ⟨hposition, -⟩ := answers .zero .started rfl (-5) sample hparse
  obtain ⟨-, hsession, -⟩ := answers .zero .started rfl 7 sample hparse
  exact ⟨hposition, hsession⟩

end Cache
end MultiPlayerGame
