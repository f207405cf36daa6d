import MultiPlayerGame.Library.CheckThenUse
import MultiPlayerGame.Server.Snapshots
import MultiPlayerGame.Server.Copies
import MultiPlayerGame.Results.Census
import MultiPlayerGame.Results.Linearizability

/-!
# Is the player who asks for the state in the answer?

`GET_STATE` with a `player_id` first asks whether that player is in the game, and refuses if not.
Then it looks into the cache, and then it takes the snapshot.  Each of these is one step; the first
and the last are two critical sections, and between them another client may take the player out.

The answer shows the player in every run in which that does not happen (`own_state`).  A `LEAVE` at
the wrong moment suffices to break it (`exists_without`).

## Why it holds

The answer is right as long as the player stays in the game between two steps of one request.  That
is an assertion which the request relies on and the others must not break, so it is proved by the
rule for checks that are used later (`Library.CheckThenUse`): the request itself satisfies its
outline (`serve_checks`), a check establishes the assertion, and every step of the others that is
`Undisturbed` keeps it (`exec_kept`).  The only steps that break it are a `LEAVE` of the player and
an `ATTACK` that eliminates it, and both are ruled out by what `Undisturbed` says about the state in
which they happen.

Nothing is asked of the reply of Redis, although it comes in between.  A reply that cannot be read
makes the answer an error, and then it does not claim to show anybody.
-/

namespace MultiPlayerGame
namespace OwnState

open Bytes (ascii)
open RequestHandler
open Program (Checks Returns ReturnsIf)
open Interleaving (Reachable ReachableWhere)
open Snapshots

abbrev State := Interleaving.Config Call Call.Ans Bytes Json World

/-- The request is `GET_STATE` in the name of a player. -/
def Asks (rawJson : Bytes) (p : Int32) : Prop := Request.decode rawJson = .getState (some p)

/-- Somebody has been told that the player is in the game and has yet to take the snapshot. -/
def Looking (x : State) (p : Int32) : Prop := Interleaving.Pending Asks .hasPlayer .snapshot x p

/-- The step takes nobody out of the game in whose name somebody is looking. -/
def Undisturbed (x : State) (_ : ℕ) : Call → Prop
  | .removePlayer p => ¬ Looking x p
  | .attackPlayer attackerId targetId =>
    (∃ target, (Command.attack attackerId targetId).Eliminates x.shared.game.players targetId
      target) → ¬ Looking x targetId
  | _ => True

/-! ## What the request relies on -/

/-- The player has been found in the game. -/
def Found (p : Int32) : (c : Call) → c.Ans → Prop
  | .hasPlayer q, present => q = p ∧ present = true
  | _, _ => False

/-- A snapshot shows the player. -/
def Shown (p : Int32) : (c : Call) → c.Ans → Prop
  | .snapshot, snap => shownEntry (succeed "GET_STATE" snap) p ≠ none
  | _, _ => True

/-- If the answer is `ok`, it shows the player. -/
def Shows (p : Int32) (r : Json) : Prop := isOk r = true → shownEntry r p ≠ none

theorem shows_errorResponse (p : Int32) (message : Bytes) : Shows p (errorResponse message) := by
  intro hok
  rw [Request.isOk_errorResponse] at hok
  cases hok

section Handlers

variable (cfg : Config) (fp : Doubles) (p : Int32)

/-- What `handleGetState` returns.  An exception of the Redis client becomes an error, which shows
nobody and says so. -/
def ShowsOrThrows (p : Int32) (r : Except Unit Json) : Prop := ∀ j, r = .ok j → Shows p j

theorem stateResponse_returnsIf : stateResponse.ReturnsIf (Shown p) (ShowsOrThrows p) := by
  intro snap hsnap j hj
  cases hj
  exact fun _ => hsnap

theorem stateHandler_returnsIf :
    (Request.stateHandler cfg p true).ReturnsIf (Shown p) (ShowsOrThrows p) := by
  have hlookup : ∀ session,
      (Request.afterLookup session).ReturnsIf (Shown p) (ShowsOrThrows p) := by
    intro session
    cases session with
    | error _ => exact fun j hj => by cases hj
    | ok _ => exact stateResponse_returnsIf p
  rw [Request.stateHandler]
  split
  · have hsession := Program.returns_of_forall (fun _ => trivial) (CacheManager.getPlayerSession p)
    exact hsession.returnsIf.bind fun session _ => hlookup session
  · exact stateResponse_returnsIf p

theorem orInternalError_returns {r : Except Unit Json} (hr : ShowsOrThrows p r) :
    (orInternalError r).Returns (Shows p) := by
  cases r with
  | error _ => exact shows_errorResponse p _
  | ok j => exact hr j rfl

/-- **The request relies on the player being there only after it has asked.**  Before that nothing
is relied upon, and a `GET_STATE` that names nobody relies on nothing at all. -/
theorem serve_checks : ((Request.getState (some p)).serve cfg fp).Checks (.hasPlayer p) (Found p)
    (Shown p) (Shows p) := by
  intro present
  cases present with
  | false =>
    refine ⟨?_, fun _ => shows_errorResponse p _⟩
    rintro ⟨-, htrue⟩
    cases htrue
  | true =>
    refine ⟨fun _ => ⟨?_, ?_⟩, fun hno => absurd ⟨rfl, rfl⟩ hno⟩
    · exact (stateHandler_calls (by simp) (by simp) (by simp) (by simp) cfg p true).bind
        orInternalError_calls
    · exact (stateHandler_returnsIf cfg p).bind fun r hr => (orInternalError_returns p hr).returnsIf

theorem reply_checks {rawJson : Bytes} (h : Asks rawJson p) :
    (reply cfg fp rawJson).Checks (.hasPlayer p) (Found p) (Shown p) (Shows p) := by
  have hanswer : (answer cfg fp rawJson).Checks (.hasPlayer p) (Found p) (Shown p) (Shows p) := by
    rw [Request.answer_eq, h]
    refine fun _ => ⟨fun hno => hno.elim, fun _ => (serve_checks cfg fp p).bind (fun response => ?_)
      fun response hr => ?_⟩
    · exact ⟨by simp, fun _ => trivial⟩
    · exact fun _ => hr
  refine fun start => ⟨fun hno => hno.elim, fun _ => hanswer.bind (fun response => ?_)
    fun response hr => ?_⟩
  · exact ⟨by simp, fun _ => (recordRequestLatency_calls (by simp) (by simp) _).bind
      fun _ => trivial⟩
  · exact fun finish => (Program.returns_of_forall (fun _ => trivial)
      (MetricsRegistry.recordRequestLatency (finish - start))).bind fun _ _ => hr

end Handlers

/-! ## What a step does to the player -/

section Steps

variable {fp : Doubles} {p : Int32}

theorem exec_found {c : Call} {e : Env} {w : World} (h : Found p c (c.exec fp e w).1) :
    p ∈ (c.exec fp e w).2.game.players := by
  cases c with
  | hasPlayer q =>
    obtain ⟨rfl, hpresent⟩ := h
    exact of_decide_eq_true hpresent
  | _ => exact h.elim

theorem exec_shown (c : Call) (e : Env) {w : World} (hw : Records.Keyed w.game)
    (hp : p ∈ w.game.players) : Shown p c (c.exec fp e w).1 := by
  cases c with
  | snapshot =>
    obtain ⟨s, hs⟩ := Option.isSome_iff_exists.mp (AList.lookup_isSome.mpr hp)
    obtain ⟨t, ht⟩ := shownEntry_of_lookup fp e.now hw hs
    exact fun hno => by cases ht.symm.trans hno
  | _ => trivial

/-- An attack takes a player out only if one more hit leaves it no health. -/
theorem eliminates_of_attackPlayer {g : GameState} {attackerId targetId : Int32}
    {r : AttackResult × GameState} (h : g.attackPlayer attackerId targetId = .ok r)
    (hr : r.1.targetEliminated = true) :
    ∃ target, (Command.attack attackerId targetId).Eliminates g.players targetId target := by
  obtain ⟨attacker, target, hself, hatt, htgt, rfl⟩ := GameState.attackPlayer_inv h
  exact ⟨target, attackerId, rfl, hself, KeyedMap.mem_of_lookup hatt, htgt, of_decide_eq_true hr⟩

/-- Whom a step takes out of the game. -/
theorem removed_of_turn {c : Call} {e : Env} {w : World} {t : Census.Turn}
    (h : Census.turn? ⟨c, (c.exec fp e w).1⟩ = some t) (hgone : t.isEntered = false) :
    c = .removePlayer t.playerId ∨ ∃ attackerId, c = .attackPlayer attackerId t.playerId ∧
      ∃ target, (Command.attack attackerId t.playerId).Eliminates w.game.players t.playerId
        target := by
  cases c with
  | addPlayer q =>
    generalize (Call.exec fp (.addPlayer q) e w).1 = answer at h
    cases answer with
    | error err => cases h
    | ok _ =>
      cases h
      cases hgone
  | removePlayer q =>
    generalize (Call.exec fp (.removePlayer q) e w).1 = answer at h
    cases answer with
    | error err => cases h
    | ok _ =>
      cases h
      exact Or.inl rfl
  | attackPlayer attackerId targetId =>
    cases hattack : w.game.attackPlayer attackerId targetId with
    | error err =>
      simp only [Call.exec, hattack] at h
      cases h
    | ok r =>
      simp only [Call.exec, hattack] at h
      change (if r.1.targetEliminated then some (Census.Turn.killed targetId) else none) =
        some t at h
      split at h
      · rename_i helim
        cases h
        exact Or.inr ⟨attackerId, rfl, eliminates_of_attackPlayer hattack helim⟩
      · cases h
  | _ => cases h

/-- **An undisturbed step leaves the player in the game.**  It is no `LEAVE` of this player and no
`ATTACK` that eliminates it, and these are the only ways out. -/
theorem exec_kept {x : State} {id : ℕ} {c : Call} {e : Env} (holds : Undisturbed x id c)
    (hlooking : Looking x p) (hp : p ∈ x.shared.game.players) :
    p ∈ (c.exec fp e x.shared).2.game.players := by
  obtain ⟨hturned, hsame, -⟩ := Census.exec_turned fp c e x.shared
  cases hturn : Census.turn? ⟨c, (c.exec fp e x.shared).1⟩ with
  | none => exact ((hsame hturn).1 p).mpr hp
  | some t =>
    obtain ⟨⟨-, hmem⟩, -⟩ := hturned t hturn
    rw [hmem]
    split
    · rename_i heq
      by_contra hgone
      rcases removed_of_turn hturn (Bool.eq_false_iff.mpr hgone) with rfl | ⟨attackerId, rfl, helim⟩
      · exact holds (heq ▸ hlooking)
      · exact holds helim (heq ▸ hlooking)
    · exact hp

end Steps

/-! ## Whole runs -/

section Run

variable {cfg : Config} {fp : Doubles} {w : World} {x : State}

/-- **`GET_STATE` shows the player in whose name it is sent**, in every interleaving in which no
step takes that player out of the game between the check and the snapshot. -/
theorem own_state (hfresh : w.Fresh)
    (hx : ReachableWhere Undisturbed (reply cfg fp) (Call.exec fp) w x) {id : ℕ} {rawJson : Bytes}
    {p : Int32} {r : Json} (hasks : Asks rawJson p) (hinvoke : .invoke id rawJson ∈ x.history)
    (hrespond : .respond id r ∈ x.history) (hok : isOk r = true) : shownEntry r p ≠ none := by
  have hkeyed : ∀ y : State, Reachable (reply cfg fp) (Call.exec fp) w y →
      Records.Keyed y.shared.game := fun y hy => by
    obtain ⟨log, hlog⟩ := Reachable.performed hy
    exact Records.keyed_of_performed hfresh hlog
  have hprog : ∀ q p, Asks q p →
      (reply cfg fp q).Checks (.hasPlayer p) (Found p) (Shown p) (Shows p) :=
    fun q p hq => reply_checks cfg fp p hq
  have hpass : ∀ p c e (t : World), Records.Keyed t.game → Found p c (c.exec fp e t).1 →
      p ∈ (c.exec fp e t).2.game.players := fun p c e t _ h => exec_found h
  have hgood : ∀ p c e (t : World), Records.Keyed t.game → p ∈ t.game.players →
      Shown p c (c.exec fp e t).1 := fun p c e t ht hp => exec_shown c e ht hp
  have huse : ∀ p c a, c ≠ .snapshot → Shown p c a := fun p c a hc => by
    cases c with
    | snapshot => exact absurd rfl hc
    | _ => trivial
  have hkeep : ∀ (y : State) (i : ℕ) c e, Undisturbed y i c → Records.Keyed y.shared.game →
      ∀ p, Looking y p → p ∈ y.shared.game.players →
        p ∈ (c.exec fp e y.shared).2.game.players :=
    fun y i c e holds _ p hlooking hp => exec_kept holds hlooking hp
  exact Interleaving.answered_of_kept hprog hpass hgood huse hkeep hkeyed hx hasks hinvoke hrespond
    hok

end Run

/-! ## A player leaves at the wrong moment -/

section Leave

abbrev bare : Config := ⟨false, false⟩

def stateZero : Bytes := ascii "\x7b\"action\":\"GET_STATE\",\"player_id\":0\x7d"

def leaveZero : Bytes := ascii "\x7b\"action\":\"LEAVE\",\"player_id\":0\x7d"

theorem asks_stateZero : Asks stateZero 0 := by
  have hdecode : Request.decode stateZero = .getState (some 0) := by decide +kernel
  exact hdecode

/-- Steps that take nobody out of the game. -/
def Staying : Call → Prop
  | .removePlayer _ | .attackPlayer .. => False
  | _ => True

theorem undisturbed_of_staying {x : State} {id : ℕ} {c : Call} (hc : Staying c) :
    Undisturbed x id c := by
  cases c with
  | removePlayer | attackPlayer => exact hc.elim
  | _ => trivial

theorem reply_staying {rawJson : Bytes}
    (h : ((Request.decode rawJson).serve bare .zero).Calls Staying) :
    (reply bare .zero rawJson).Calls Staying :=
  Linearizability.reply_calls bare .zero trivial (fun _ => trivial) (fun _ => trivial) h

/-- Player 0 joins and asks for the state. -/
theorem own_state_join : ∃ (x : State) (r : Json),
    ReachableWhere Undisturbed (reply bare .zero) (Call.exec .zero) .started x ∧
    .respond 1 r ∈ x.history ∧ isOk r = true ∧ shownEntry r 0 ≠ none := by
  have hjoin : (reply bare .zero joinZero).Calls Staying := by
    have hdecode : Request.decode joinZero = .command (.join 0) := by decide +kernel
    refine reply_staying ?_
    rw [hdecode]
    refine ⟨trivial, fun answer => ?_⟩
    cases answer with
    | error err => trivial
    | ok _ =>
      have hquiet : ∀ c : Call, c.Quiet → c.Uncounted → Staying c := fun c hc _ => by
        cases c with
        | removePlayer | attackPlayer => exact hc.elim
        | _ => trivial
      exact ((Command.join 0).effects_calls hquiet bare (.ok ())).bind fun _ =>
        ⟨trivial, fun _ => ⟨trivial, fun _ => ⟨trivial, fun _ => trivial⟩⟩⟩
  have hstate : (reply bare .zero stateZero).Calls Staying := by
    refine reply_staying ?_
    rw [asks_stateZero]
    exact (serve_looks bare .zero (by simp)).mono fun c hc => by
      cases c with
      | removePlayer | attackPlayer => exact hc.elim
      | _ => trivial
  have h₀ : ReachableWhere Undisturbed (reply bare .zero) (Call.exec .zero) .started
      (.start .started) := .refl
  have h₁ := h₀.tail (.invoke _ 0 joinZero (by simp [Interleaving.Config.start]))
  have h₂ := ReachableWhere.runs h₁ 0 (fun y c hc => undisturbed_of_staying hc) rfl hjoin
    (Program.runs_run _ {} _ _)
  have h₃ := h₂.tail (.invoke _ 1 stateZero (by simp [Interleaving.Config.start]))
  have h₄ := ReachableWhere.runs h₃ 1 (fun y c hc => undisturbed_of_staying hc) rfl hstate
    (Program.runs_run _ {} _ _)
  have h₅ := h₄.tail (.respond _ 1 _ rfl)
  have hok : isOk ((reply bare .zero stateZero).run (fun c => c.exec .zero {})
      ((reply bare .zero joinZero).run (fun c => c.exec .zero {}) .started).2).1 = true := by
    decide +kernel
  exact ⟨_, _, h₅, List.mem_concat_self, hok, own_state World.started_fresh h₅ asks_stateZero
    (by simp) List.mem_concat_self hok⟩

/-- **The answer is `ok`, and the player is not in it.**  Player 0 leaves after it has been found
and before the snapshot is taken. -/
theorem exists_without : ∃ (x : State) (id : ℕ) (rawJson : Bytes) (p : Int32) (r : Json),
    Reachable (reply bare .zero) (Call.exec .zero) .started x ∧ Asks rawJson p ∧
    .invoke id rawJson ∈ x.history ∧ .respond id r ∈ x.history ∧ isOk r = true ∧
    shownEntry r p = none := by
  have h₀ : Reachable (reply bare .zero) (Call.exec .zero) .started (.start .started) := .refl
  have h₁ := h₀.tail (.invoke _ 0 joinZero (by simp [Interleaving.Config.start]))
  have h₂ := Reachable.runs h₁ 0 (p := reply bare .zero joinZero) rfl (Program.runs_run _ {} _ _)
  have h₃ := h₂.tail (.invoke _ 1 stateZero (by simp [Interleaving.Config.start]))
  have h₄ := h₃.tail (.call _ 1 .clock _ {} rfl)
  have h₅ := h₄.tail (.call _ 1 (.fetchAdd .requestsTotal) _ {} rfl)
  have h₆ := h₅.tail (.call _ 1 (.hasPlayer 0) _ {} rfl)
  have h₇ := h₆.tail (.invoke _ 2 leaveZero (by simp [Interleaving.Config.start]))
  have h₈ := Reachable.runs h₇ 2 (p := reply bare .zero leaveZero) rfl (Program.runs_run _ {} _ _)
  have h₉ := Reachable.runs h₈ 1 rfl (Program.runs_run _ {} _ _)
  have h₁₀ := h₉.tail (.respond _ 1 _ rfl)
  refine ⟨_, 1, stateZero, 0, _, h₁₀, asks_stateZero, by simp, List.mem_concat_self, ?_, ?_⟩
  · decide +kernel
  · decide +kernel

end Leave

end OwnState
end MultiPlayerGame
