import MultiPlayerGame.Server.Reachable

/-!
# Integers beyond 32 bits

A JSON integer has 64 bits, and `requireInt` reads it with `get<int>()`, which keeps the low 32.
The checks that follow --- who is in the game, the edges of the map, the sign of a score --- are
made on what is left.  So a handler need not act on the integer that was sent: a request to join as
player 4294967297 makes player 1 join.

`Sent` is a request with its integers as they were sent, and `Sent.Done` says what it means to act
on exactly these.  `exact_iff` determines the payloads that are always handled so (`Sent.Safe`):
those whose integers fit 32 bits, and a few more where the low 32 bits happen to lead to the same.

## Why it holds

`Sent` keeps a request as it came, with integers of any size, and `Sent.narrowed` is the command
that the handlers make of it.  Between the two there is only `get<int>()`, so the question for each
action is when acting on the low 32 bits is acting on the integer.  For an identifier it is when the
integer fits: another one never means the same player, and is harmless only where the request is
refused for something else.  For a coordinate there is more room, because it is clamped afterwards,
and an integer beyond an edge of the map may have low 32 bits that are beyond the same edge
(`SameEdge`).  A score must fit too, unless it is negative and stays so.

The direction from `Safe` to `Exact` goes through the rules: a request that is answered with `ok`
went by the rule of its action, with the narrowed integers, which are the integers
(`done_of_responds`).  The other direction needs a state.  It has to be one in which the request
succeeds, or else being refused would be as good as being handled exactly; `exists_done_of_exact`
builds it, a game with all the players that the payload names, and there the narrowed integers show
(`safe_of_exact`).
-/

namespace MultiPlayerGame
namespace Integers

open Bytes (ascii)
open Program (Runs)
open RequestHandler
open GameState (clamp mapMin mapMax)

/-! ## What was sent -/

/-- A request with its integers.  They are those of the payload, which may have 64 bits, and not
those that the handlers read. -/
inductive Sent where
  | join (playerId : Int)
  | move (playerId x y : Int)
  | attack (playerId targetId : Int)
  | chat (playerId : Int) (message : Bytes)
  | getState (playerId : Int)
  | updateScore (playerId score : Int)
  | leave (playerId : Int)
  deriving DecidableEq

/-- A field with an integer in it. -/
def integer? (req : Json) (key : String) : Option Int :=
  match req.field? (ascii key) with
  | some (.integer n) => some n
  | _ => none

/-- The fields that an action reads, if they are all there. -/
def ofRequest? (req : Json) : Action → Option Sent
  | .join => do return .join (← integer? req "player_id")
  | .move => do
    return .move (← integer? req "player_id") (← integer? req "x") (← integer? req "y")
  | .attack => do return .attack (← integer? req "player_id") (← integer? req "target_id")
  | .chat => do
    return .chat (← integer? req "player_id") (← (req.field? (ascii "message")).bind getString)
  | .getState => do return .getState (← integer? req "player_id")
  | .updateScore => do
    return .updateScore (← integer? req "player_id") (← integer? req "score")
  | .leave => do return .leave (← integer? req "player_id")
  | .getMetrics => none

def sent? (rawJson : Bytes) : Option Sent := do
  let req ← Parser.parse rawJson
  let a ← Request.action? req
  ofRequest? req a

/-! ## What the handlers read -/

/-- What is left of the request when its integers have been read. -/
def Sent.narrowed : Sent → Request
  | join n => .command (.join (Json.toInt32 n))
  | move n x y => .command (.move (Json.toInt32 n) (Json.toInt32 x) (Json.toInt32 y))
  | attack n m => .command (.attack (Json.toInt32 n) (Json.toInt32 m))
  | chat n message =>
    if message = [] then .refused (ascii "message cannot be empty")
    else if Json.toInt32 message.length > GameState.maxChatLen then
      .refused (ascii "message too long (max " ++ toString GameState.maxChatLen ++ ascii " chars)")
    else .command (.chat (Json.toInt32 n) message)
  | getState n => .getState (some (Json.toInt32 n))
  | updateScore n score =>
    if Json.toInt32 score < 0 then .refused (ascii "score cannot be negative")
    else .command (.updateScore (Json.toInt32 n) (Json.toInt32 score))
  | leave n => .command (.leave (Json.toInt32 n))

theorem requireInt_eq {req : Json} {key : String} {n : Int} (h : integer? req key = some n) :
    requireInt req key = .ok (Json.toInt32 n) := by
  unfold integer? at h
  split at h
  · rename_i m hfield
    cases h
    rw [requireInt, requireField, hfield]
    rfl
  · cases h

theorem requireInt_error {req : Json} {key : String} (h : integer? req key = none) :
    ∃ err, requireInt req key = .error err := by
  unfold integer? at h
  rw [requireInt, requireField]
  cases hfield : req.field? (ascii key) with
  | none => exact ⟨_, rfl⟩
  | some v =>
    rw [hfield] at h
    cases v with
    | integer n => cases h
    | _ => exact ⟨_, rfl⟩

theorem requireString_eq {req : Json} {key : String} {s : Bytes}
    (h : (req.field? (ascii key)).bind getString = some s) : requireString req key = .ok s := by
  obtain ⟨v, hfield, hv⟩ := Option.bind_eq_some_iff.mp h
  rw [requireString, requireField, hfield]
  simp only [hv]

theorem requireString_error {req : Json} {key : String}
    (h : (req.field? (ascii key)).bind getString = none) :
    ∃ err, requireString req key = .error err := by
  rw [requireString, requireField]
  cases hfield : req.field? (ascii key) with
  | none => exact ⟨_, rfl⟩
  | some v =>
    rw [hfield, Option.bind_some] at h
    simp only [h]
    exact ⟨_, rfl⟩

theorem bind_getInt (req : Json) :
    (req.field? (ascii "player_id")).bind getInt =
      (integer? req "player_id").map Json.toInt32 := by
  unfold integer?
  cases req.field? (ascii "player_id") with
  | none => rfl
  | some v => cases v <;> rfl

/-- **The handlers work on the low 32 bits.**  The fields are all there and of the right kind, so
the checks succeed, and each integer is read with `get<int>()`. -/
theorem ofAction_of_sent {req : Json} {a : Action} {s : Sent} (h : ofRequest? req a = some s) :
    Request.ofAction req a = s.narrowed := by
  cases a with
  | join =>
    obtain ⟨n, hn, h⟩ := Option.bind_eq_some_iff.mp h
    cases h
    rw [Request.ofAction, requireInt_eq hn]
    rfl
  | move =>
    obtain ⟨n, hn, h⟩ := Option.bind_eq_some_iff.mp h
    obtain ⟨x, hx, h⟩ := Option.bind_eq_some_iff.mp h
    obtain ⟨y, hy, h⟩ := Option.bind_eq_some_iff.mp h
    cases h
    rw [Request.ofAction, requireInt_eq hn, requireInt_eq hx, requireInt_eq hy]
    rfl
  | attack =>
    obtain ⟨n, hn, h⟩ := Option.bind_eq_some_iff.mp h
    obtain ⟨m, hm, h⟩ := Option.bind_eq_some_iff.mp h
    cases h
    rw [Request.ofAction, requireInt_eq hn, requireInt_eq hm]
    rfl
  | chat =>
    obtain ⟨n, hn, h⟩ := Option.bind_eq_some_iff.mp h
    obtain ⟨message, hmessage, h⟩ := Option.bind_eq_some_iff.mp h
    cases h
    rw [Request.ofAction, requireInt_eq hn, requireString_eq hmessage]
    rfl
  | getState =>
    obtain ⟨n, hn, h⟩ := Option.bind_eq_some_iff.mp h
    cases h
    rw [Request.ofAction, bind_getInt, hn]
    rfl
  | updateScore =>
    obtain ⟨n, hn, h⟩ := Option.bind_eq_some_iff.mp h
    obtain ⟨score, hscore, h⟩ := Option.bind_eq_some_iff.mp h
    cases h
    rw [Request.ofAction, requireInt_eq hn, requireInt_eq hscore]
    rfl
  | leave =>
    obtain ⟨n, hn, h⟩ := Option.bind_eq_some_iff.mp h
    cases h
    rw [Request.ofAction, requireInt_eq hn]
    rfl
  | getMetrics => cases h

theorem decode_of_sent {rawJson : Bytes} {s : Sent} (h : sent? rawJson = some s) :
    Request.decode rawJson = s.narrowed := by
  obtain ⟨req, hparse, h⟩ := Option.bind_eq_some_iff.mp h
  obtain ⟨a, ha, h⟩ := Option.bind_eq_some_iff.mp h
  rw [Request.decode_of_action hparse ha, ofAction_of_sent h]

/-- A field that must hold an integer: if the rest is refused, all is. -/
theorem refused_of_check {req : Json} {key : String} {next : Int32 → Request}
    (h : ∀ n, integer? req key = some n → ∃ err, next (Json.toInt32 n) = .refused err) :
    ∃ err, Request.check (requireInt req key) next = .refused err := by
  cases hn : integer? req key with
  | none =>
    obtain ⟨err, herr⟩ := requireInt_error hn
    rw [herr]
    exact ⟨err, rfl⟩
  | some n =>
    rw [requireInt_eq hn]
    exact h n hn

/-- A request that does not have all its fields is refused, unless it only asks. -/
theorem ofAction_of_not_sent {req : Json} {a : Action} (h : ofRequest? req a = none) :
    (∃ err, Request.ofAction req a = .refused err) ∨ a = .getState ∨ a = .getMetrics := by
  cases a with
  | join =>
    refine Or.inl (refused_of_check fun n hn => ?_)
    rw [ofRequest?, hn] at h
    cases h
  | move =>
    refine Or.inl (refused_of_check fun n hn => refused_of_check fun x hx =>
      refused_of_check fun y hy => ?_)
    rw [ofRequest?, hn, hx, hy] at h
    cases h
  | attack =>
    refine Or.inl (refused_of_check fun n hn => refused_of_check fun m hm => ?_)
    rw [ofRequest?, hn, hm] at h
    cases h
  | chat =>
    refine Or.inl (refused_of_check fun n hn => ?_)
    cases hmessage : (req.field? (ascii "message")).bind getString with
    | none =>
      obtain ⟨err, herr⟩ := requireString_error hmessage
      rw [herr]
      exact ⟨err, rfl⟩
    | some message =>
      rw [ofRequest?, hn, hmessage] at h
      cases h
  | updateScore =>
    refine Or.inl (refused_of_check fun n hn => refused_of_check fun m hm => ?_)
    rw [ofRequest?, hn, hm] at h
    cases h
  | leave =>
    refine Or.inl (refused_of_check fun n hn => ?_)
    rw [ofRequest?, hn] at h
    cases h
  | getState => exact Or.inr (Or.inl rfl)
  | getMetrics => exact Or.inr (Or.inr rfl)

theorem decode_of_not_sent {rawJson : Bytes} (h : sent? rawJson = none) :
    (∃ err, Request.decode rawJson = .refused err) ∨ ∃ req, Parser.parse rawJson = some req ∧
      (Request.action? req = some .getState ∨ Request.action? req = some .getMetrics) := by
  cases haction : (Request.decode rawJson).action with
  | none =>
    cases hdecode : Request.decode rawJson with
    | refused err => exact Or.inl ⟨err, rfl⟩
    | _ => rw [hdecode] at haction; cases haction
  | some a =>
    obtain ⟨req, hparse, ha, hdecode⟩ := Request.decode_action haction
    rw [sent?, hparse, Option.bind_eq_bind, Option.bind_some, ha, Option.bind_eq_bind,
      Option.bind_some] at h
    rcases ofAction_of_not_sent h with ⟨err, herr⟩ | hasks
    · exact Or.inl ⟨err, hdecode.trans herr⟩
    · exact Or.inr ⟨req, hparse, by rwa [ha, Option.some.injEq, Option.some.injEq]⟩

/-! ## Acting on exactly what was sent -/

/-- An integer clamped to the map. -/
def clampTo (v : Int) : Int := max 0 (min v 1000)

/-- The standing of one player is changed, and nothing else. -/
def Updated (a : Arena) (p : Int32) (f : Standing → Standing) (a' : Arena) : Prop :=
  ∃ s, a.player p = some s ∧ a' = { a with player := Function.update a.player p (some (f s)) }

/-- **What it means to act on exactly the integers that were sent**, in the state before, the
response and the state after. -/
def Sent.Done (g : GameState) (r : Json) (g' : GameState) : Sent → Prop
  | join n => ∃ p : Int32, p.toInt = n ∧ (Deed.joined p).Did g.arena g'.arena ∧ r = joinResponse p
  | move n x y => ∃ p cx cy : Int32, p.toInt = n ∧ cx.toInt = clampTo x ∧ cy.toInt = clampTo y ∧
      Updated g.arena p (fun s => { s with x := cx, y := cy }) g'.arena ∧ r = moveResponse p cx cy
  | attack n m => ∃ (p q : Int32) (result : AttackResult), p.toInt = n ∧ q.toInt = m ∧
      (Deed.attacked p q result.targetEliminated).Did g.arena g'.arena ∧
      r = attackResponse p q result
  | chat n message => ∃ p : Int32, p.toInt = n ∧ g.arena.player p ≠ none ∧ g'.arena = g.arena ∧
      r = chatResponse p message
  | getState n => ∃ p : Int32, p.toInt = n ∧ g.arena.player p ≠ none ∧ g' = g
  | updateScore n score => ∃ p v : Int32, p.toInt = n ∧ v.toInt = score ∧
      Updated g.arena p (fun s => { s with score := v }) g'.arena ∧ r = updateScoreResponse p v
  | leave n => ∃ p finalScore : Int32, p.toInt = n ∧ (Deed.left p).Did g.arena g'.arena ∧
      r = leaveResponse p finalScore

/-- An answer with `ok` acts on exactly what was sent, and a score that is not negative is not
refused for being negative. -/
def Sent.Handled (s : Sent) (g : GameState) (r : Json) (g' : GameState) : Prop :=
  (isOk r = true → s.Done g r g') ∧
    ∀ n score, s = .updateScore n score → 0 ≤ score →
      r ≠ errorResponse (ascii "score cannot be negative")

/-- **A payload is always handled exactly**: in every reachable state, it is refused or its integers
are acted on as they were sent.  A payload that lacks one of its integers is refused, unless it only
asks. -/
def Exact (cfg : Config) (fp : Doubles) (rawJson : Bytes) : Prop :=
  ∀ w r w', w.Reachable cfg fp → Runs (Call.exec fp) (reply cfg fp rawJson) w r w' →
    match sent? rawJson with
    | some s => s.Handled w.game r w'.game
    | none => isOk r = true → ∃ req, Parser.parse rawJson = some req ∧
        (Request.action? req = some .getState ∨ Request.action? req = some .getMetrics)

/-- The low 32 bits of an integer, with their sign. -/
def low (n : Int) : Int := n.bmod (2 ^ 32)

/-- Does the integer fit 32 bits?  These are the integers that `get<int>()` leaves alone. -/
def Fits (n : Int) : Prop := -2 ^ 31 ≤ n ∧ n < 2 ^ 31

instance (n : Int) : Decidable (Fits n) := inferInstanceAs (Decidable (_ ∧ _))

/-- A coordinate that is clamped where it should be: it fits 32 bits, or it is beyond an edge of the
map and so are its low 32 bits. -/
def SameEdge (v : Int) : Prop := Fits v ∨ v < 0 ∧ low v ≤ 0 ∨ 1000 < v ∧ 1000 ≤ low v

/-- **The integers that the handlers deal with exactly.**  Those that fit, and those that do not
where the handler refuses anyway or clamps to the same edge. -/
def Sent.Safe : Sent → Prop
  | join n | getState n | leave n => Fits n
  | move n x y => Fits n ∧ SameEdge x ∧ SameEdge y
  | attack n m => low n = low m ∨ Fits n ∧ Fits m
  | chat n message =>
    message = [] ∨ GameState.maxChatLen < Json.toInt32 message.length ∨ Fits n
  | updateScore n score => score < 0 ∧ low score < 0 ∨ Fits n ∧ Fits score

/-! ### Arithmetic -/

theorem toInt_toInt32 (n : Int) : (Json.toInt32 n).toInt = low n := Int32.toInt_ofInt

theorem low_eq_iff (n : Int) : low n = n ↔ Fits n := by
  rw [← toInt_toInt32]
  constructor
  · intro h
    rw [← h]
    exact ⟨Int32.le_toInt _, Int32.toInt_lt _⟩
  · exact fun h => Int32.toInt_ofInt_of_le h.1 h.2

/-- An integer that is some `int` fits. -/
theorem fits_of_toInt {p : Int32} {n : Int} (h : p.toInt = n) : Fits n :=
  h ▸ ⟨p.le_toInt, p.toInt_lt⟩

theorem toInt_toInt32_of_fits {n : Int} (h : Fits n) : (Json.toInt32 n).toInt = n := by
  rw [toInt_toInt32, (low_eq_iff n).mpr h]

theorem toInt32_lt_zero_iff (n : Int) : Json.toInt32 n < 0 ↔ low n < 0 := by
  rw [Int32.lt_iff_toInt_lt, toInt_toInt32]
  rfl

theorem toInt_clamp (v : Int32) : (clamp v mapMin mapMax).toInt = clampTo v.toInt := by
  have hmin : mapMin.toInt = 0 := rfl
  have hmax : mapMax.toInt = 1000 := rfl
  unfold clamp clampTo
  simp only [Int32.lt_iff_toInt_lt, hmin, hmax]
  split
  · rw [hmin]
    omega
  split
  · rw [hmax]
    omega
  · omega

theorem clampTo_low_iff (v : Int) : clampTo (low v) = clampTo v ↔ SameEdge v := by
  have hfits := low_eq_iff v
  unfold SameEdge clampTo
  constructor
  · intro h
    by_cases hv : Fits v
    · exact Or.inl hv
    · have hne : low v ≠ v := fun h => hv (hfits.mp h)
      rw [Fits] at hv
      omega
  · rintro (hv | hv | hv)
    · rw [hfits.mpr hv]
    · omega
    · omega

/-! ## Safe integers are acted on -/

/-- A command that was answered with `ok` went by the rules. -/
theorem rule_of_isOk {fp : Doubles} {unreadable : Prop} {c : Command} {g g' : GameState} {r : Json}
    (h : Responds fp unreadable (.command c) g r g') (hok : isOk r = true) :
    ∃ data, c.rule g.arena = .ok ((data, r), g'.arena) := by
  cases h with
  | rejected c now _ err happly =>
    rw [Request.isOk_errorResponse] at hok
    cases hok
  | done c now _ g₁ data r timestamp happly =>
    have hrule := c.arena_apply now g
    rw [happly] at hrule
    exact ⟨data, hrule.symm⟩

/-- One that was not has the text of the rules. -/
theorem rule_of_not_isOk {fp : Doubles} {unreadable : Prop} {c : Command} {g g' : GameState}
    {r : Json} (h : Responds fp unreadable (.command c) g r g') (hno : isOk r = false) :
    ∃ err, c.rule g.arena = .error err ∧ r = errorResponse err := by
  cases h with
  | rejected c now _ err happly =>
    have hrule := c.arena_apply now g
    rw [happly] at hrule
    exact ⟨err, hrule.symm, rfl⟩
  | done c now _ g₁ data r timestamp happly =>
    rw [Command.isOk_of_apply happly] at hno
    cases hno

theorem eq_of_refused {fp : Doubles} {unreadable : Prop} {message : Bytes} {g g' : GameState}
    {r : Json} (h : Responds fp unreadable (.refused message) g r g') :
    r = errorResponse message ∧ g' = g := by
  cases h with
  | refused => exact ⟨rfl, rfl⟩

/-- A player in the game is told the state, if the cache can be read. -/
theorem isOk_of_present {fp : Doubles} {unreadable : Prop} (hreadable : ¬ unreadable) {p : Int32}
    {g g' : GameState} {r : Json} (hp : g.arena.player p ≠ none)
    (h : Responds fp unreadable (.getState (some p)) g r g') : isOk r = true := by
  cases h with
  | absent _ _ habsent =>
    rw [GameState.arena_player, AList.lookup_eq_none.mpr habsent] at hp
    exact absurd rfl hp
  | unread _ _ _ hbad => exact absurd hbad hreadable
  | state _ now _ _ => exact isOk_succeed _ _

section Rules

variable {a a' : Arena} {data : Bytes} {r : Json}

theorem rule_join {p : Int32} (h : (Command.join p).rule a = .ok ((data, r), a')) :
    (Deed.joined p).Did a a' ∧ r = joinResponse p := by
  have hdid := Command.did_of_rule h
  obtain ⟨a₁, -, heq⟩ := map_eq_ok h
  cases heq
  exact ⟨hdid, rfl⟩

theorem updated_of_modifyPlayer {p : Int32} {f : Standing → Standing}
    (h : a.modifyPlayer p f = .ok a') : Updated a p f a' := Arena.modifyPlayer_inv h

theorem rule_move {p x y : Int32} (h : (Command.move p x y).rule a = .ok ((data, r), a')) :
    Updated a p (fun s => { s with x := clamp x mapMin mapMax, y := clamp y mapMin mapMax }) a' ∧
      r = moveResponse p (clamp x mapMin mapMax) (clamp y mapMin mapMax) := by
  obtain ⟨a₁, hmove, heq⟩ := map_eq_ok h
  cases heq
  have hupdated := updated_of_modifyPlayer hmove
  rw [clamp_clamp, clamp_clamp] at hupdated
  exact ⟨hupdated, rfl⟩

theorem rule_attack {p q : Int32} (h : (Command.attack p q).rule a = .ok ((data, r), a')) :
    ∃ result : AttackResult, (Deed.attacked p q result.targetEliminated).Did a a' ∧
      r = attackResponse p q result ∧ p ≠ q := by
  have hdid := Command.did_of_rule h
  obtain ⟨⟨result, a₁⟩, hattack, heq⟩ := map_eq_ok h
  cases heq
  rw [Command.deed] at hdid
  simp only [eliminated_attackResponse] at hdid
  obtain ⟨-, -, hne, -⟩ := Arena.attackPlayer_inv hattack
  exact ⟨result, hdid, rfl, hne⟩

theorem rule_chat {p : Int32} {message : Bytes}
    (h : (Command.chat p message).rule a = .ok ((data, r), a')) :
    a.player p ≠ none ∧ a' = a ∧ r = chatResponse p message := by
  rw [Command.rule] at h
  split at h
  · cases h
    exact ⟨‹_›, rfl, rfl⟩
  · cases h

theorem rule_updateScore {p v : Int32}
    (h : (Command.updateScore p v).rule a = .ok ((data, r), a')) :
    Updated a p (fun s => { s with score := v }) a' ∧ r = updateScoreResponse p v := by
  obtain ⟨a₁, hset, heq⟩ := map_eq_ok h
  cases heq
  exact ⟨updated_of_modifyPlayer hset, rfl⟩

theorem rule_updateScore_error {p v : Int32} {err : Bytes}
    (h : (Command.updateScore p v).rule a = .error err) : err = GameState.notInGame p := by
  rw [Command.rule, Arena.setScore, Arena.modifyPlayer] at h
  split at h
  · cases h
    rfl
  · cases h

theorem rule_leave {p : Int32} (h : (Command.leave p).rule a = .ok ((data, r), a')) :
    (Deed.left p).Did a a' ∧ ∃ finalScore, r = leaveResponse p finalScore := by
  have hdid := Command.did_of_rule h
  obtain ⟨⟨finalScore, a₁⟩, -, heq⟩ := map_eq_ok h
  cases heq
  exact ⟨hdid, finalScore, rfl⟩

end Rules

/-- **Safe integers are acted on as they were sent.**  The rule that has answered with `ok` was
applied to the low 32 bits, and with safe integers these do what the integers would do. -/
theorem done_of_responds {fp : Doubles} {unreadable : Prop} {s : Sent} {g g' : GameState} {r : Json}
    (hsafe : s.Safe) (h : Responds fp unreadable s.narrowed g r g') (hok : isOk r = true) :
    s.Done g r g' := by
  cases s with
  | join n =>
    obtain ⟨data, hrule⟩ := rule_of_isOk h hok
    obtain ⟨hdid, hr⟩ := rule_join hrule
    exact ⟨_, toInt_toInt32_of_fits hsafe, hdid, hr⟩
  | move n x y =>
    obtain ⟨hn, hx, hy⟩ := hsafe
    obtain ⟨data, hrule⟩ := rule_of_isOk h hok
    obtain ⟨hupdated, hr⟩ := rule_move hrule
    refine ⟨_, _, _, toInt_toInt32_of_fits hn, ?_, ?_, hupdated, hr⟩
    · rw [toInt_clamp, toInt_toInt32, (clampTo_low_iff x).mpr hx]
    · rw [toInt_clamp, toInt_toInt32, (clampTo_low_iff y).mpr hy]
  | attack n m =>
    obtain ⟨data, hrule⟩ := rule_of_isOk h hok
    obtain ⟨result, hdid, hr, hne⟩ := rule_attack hrule
    rcases hsafe with hself | ⟨hn, hm⟩
    · refine absurd (Int32.toInt_inj.mp ?_) hne
      rw [toInt_toInt32, toInt_toInt32, hself]
    · exact ⟨_, _, result, toInt_toInt32_of_fits hn, toInt_toInt32_of_fits hm, hdid, hr⟩
  | chat n message =>
    rw [Sent.narrowed] at h
    split at h
    · cases h
      rw [Request.isOk_errorResponse] at hok
      cases hok
    split at h
    · cases h
      rw [Request.isOk_errorResponse] at hok
      cases hok
    rename_i hempty hlong
    have hn : Fits n := by
      rcases hsafe with hno | hno | hn
      · exact absurd hno hempty
      · exact absurd hno hlong
      · exact hn
    obtain ⟨data, hrule⟩ := rule_of_isOk h hok
    obtain ⟨hpresent, harena, hr⟩ := rule_chat hrule
    exact ⟨_, toInt_toInt32_of_fits hn, hpresent, harena, hr⟩
  | getState n =>
    have hpresent : g.arena.player (Json.toInt32 n) ≠ none ∧ g' = g := by
      cases h with
      | absent =>
        rw [Request.isOk_errorResponse] at hok
        cases hok
      | unread =>
        rw [Request.isOk_errorResponse] at hok
        cases hok
      | state _ now _ present =>
        have hmem := present _ rfl
        refine ⟨?_, rfl⟩
        rw [GameState.arena_player, ne_eq, Option.map_eq_none_iff, AList.lookup_eq_none]
        exact not_not.mpr hmem
    exact ⟨_, toInt_toInt32_of_fits hsafe, hpresent⟩
  | updateScore n score =>
    rw [Sent.narrowed] at h
    split at h
    · cases h
      rw [Request.isOk_errorResponse] at hok
      cases hok
    rename_i hneg
    rw [toInt32_lt_zero_iff] at hneg
    obtain ⟨hn, hscore⟩ : Fits n ∧ Fits score := by
      rcases hsafe with ⟨-, hlow⟩ | hfits
      · exact absurd hlow hneg
      · exact hfits
    obtain ⟨data, hrule⟩ := rule_of_isOk h hok
    obtain ⟨hupdated, hr⟩ := rule_updateScore hrule
    exact ⟨_, _, toInt_toInt32_of_fits hn, toInt_toInt32_of_fits hscore, hupdated, hr⟩
  | leave n =>
    obtain ⟨data, hrule⟩ := rule_of_isOk h hok
    obtain ⟨hdid, finalScore, hr⟩ := rule_leave hrule
    exact ⟨_, finalScore, toInt_toInt32_of_fits hsafe, hdid, hr⟩

/-- A score that is not negative and fits is not refused for its sign. -/
theorem not_negative_of_responds {fp : Doubles} {unreadable : Prop} {n score : Int}
    {g g' : GameState} {r : Json} (hpos : 0 ≤ score) (hfits : Fits score)
    (h : Responds fp unreadable (Sent.updateScore n score).narrowed g r g') :
    r ≠ errorResponse (ascii "score cannot be negative") := by
  have hneg : ¬ Json.toInt32 score < 0 := by
    rw [toInt32_lt_zero_iff, (low_eq_iff score).mpr hfits]
    omega
  rw [Sent.narrowed, if_neg hneg] at h
  intro heq
  cases hok : isOk r with
  | true =>
    rw [heq, Request.isOk_errorResponse] at hok
    cases hok
  | false =>
    obtain ⟨err, hrule, hr⟩ := rule_of_not_isOk h hok
    rw [rule_updateScore_error hrule] at hr
    have hmessage := congrArg (Json.field? (ascii "message")) (hr.symm.trans heq)
    simp only [errorResponse, Json.field?_obj_cons] at hmessage
    have hhead : (GameState.notInGame (Json.toInt32 n)).head? = some 0x70 := rfl
    have htext : GameState.notInGame (Json.toInt32 n) = ascii "score cannot be negative" := by
      injection (Option.some.inj hmessage)
    rw [htext] at hhead
    exact absurd hhead (by decide)

/-! ## The others are not -/

/-- Nothing comes from the network. -/
def silence (_ : Unit) : Env := {}

theorem readable_silence : ¬ Unreadable silence := readable_of_sends fun _ => rfl

section Exact

variable {cfg : Config} {fp : Doubles} {rawJson : Bytes} {s : Sent}

/-- Every request can be answered without the network interfering. -/
theorem exists_responds (cfg : Config) (fp : Doubles) (hs : sent? rawJson = some s) (w : World) :
    ∃ r w', Runs (Call.exec fp) (reply cfg fp rawJson) w r w' ∧
      Responds fp (Unreadable silence) s.narrowed w.game r w'.game := by
  obtain ⟨r, w', hrun⟩ :=
    Program.exists_runs (Call.execVia fp silence) (reply cfg fp rawJson) w
  have hresponds := (reply_responds hrun).1
  rw [decode_of_sent hs] at hresponds
  exact ⟨r, w', hrun.mono fun c e w => ⟨silence e, rfl⟩, hresponds⟩

/-- A payload that is always handled exactly is, wherever the rules allow it, acted on as it was
sent. -/
theorem done_of_exact (hexact : Exact cfg fp rawJson) (hs : sent? rawJson = some s) {w : World}
    (hw : w.Reachable cfg fp) {c : Command} (hc : s.narrowed = .command c)
    (hrule : ∃ out, c.rule w.game.arena = .ok out) :
    ∃ r g' data, s.Done w.game r g' ∧ c.rule w.game.arena = .ok ((data, r), g'.arena) := by
  obtain ⟨⟨out, a⟩, hrule⟩ := hrule
  obtain ⟨r, w', hrun, hresponds⟩ := exists_responds cfg fp hs w
  have hhandled := hexact w r w' hw hrun
  rw [hs] at hhandled
  rw [hc] at hresponds
  obtain ⟨hok, -, -⟩ := responds_of_rule hrule hresponds
  obtain ⟨data, hrule'⟩ := rule_of_isOk hresponds hok
  exact ⟨r, w'.game, data, hhandled.1 hok, hrule'⟩

/-- Somewhere the players are all in the game, so a request about them is answered with `ok`. -/
theorem exists_done_of_exact (hexact : Exact cfg fp rawJson) (hs : sent? rawJson = some s)
    {c : Command} (hc : s.narrowed = .command c) {ids : List Int32}
    (hrule : ∀ a : Arena, (∀ p ∈ ids, a.player p ≠ none) → ∃ out, c.rule a = .ok out) :
    ∃ g r g' data, s.Done g r g' ∧ c.rule g.arena = .ok ((data, r), g'.arena) := by
  obtain ⟨w, hw, hpresent⟩ := exists_reachable_present cfg fp ids
  exact ⟨w.game, done_of_exact hexact hs hw hc (hrule w.game.arena hpresent)⟩

theorem exists_modifyPlayer {a : Arena} {p : Int32} (hp : a.player p ≠ none)
    (f : Standing → Standing) : ∃ a', a.modifyPlayer p f = .ok a' := by
  obtain ⟨st, hst⟩ := Option.ne_none_iff_exists'.mp hp
  rw [Arena.modifyPlayer, hst]
  exact ⟨_, rfl⟩

theorem moveResponse_inj {p p' x x' y y' : Int32} (h : moveResponse p x y = moveResponse p' x' y') :
    x = x' ∧ y = y' := by
  have hx := congrArg (Json.field? (ascii "x")) h
  have hy := congrArg (Json.field? (ascii "y")) h
  simp +decide only [moveResponse, Json.field?_obj_cons, Json.int, if_true, if_false,
    Option.some.injEq, Json.integer.injEq, Int32.toInt_inj] at hx hy
  exact ⟨hx, hy⟩

/-- The integers of a payload that is always handled exactly are safe. -/
theorem safe_of_exact (hexact : Exact cfg fp rawJson) (hs : sent? rawJson = some s) : s.Safe := by
  cases s with
  | join n =>
    obtain ⟨r, g', data, ⟨p, hp, -⟩, -⟩ :=
      done_of_exact hexact hs World.started_fresh.reachable rfl ⟨_, rfl⟩
    exact fits_of_toInt hp
  | leave n =>
    have hrule : ∀ a : Arena, (∀ p ∈ [Json.toInt32 n], a.player p ≠ none) →
        ∃ out, (Command.leave (Json.toInt32 n)).rule a = .ok out := fun a hpresent => by
      obtain ⟨st, hst⟩ := Option.ne_none_iff_exists'.mp (hpresent _ List.mem_cons_self)
      rw [Command.rule, Arena.removePlayer, hst]
      exact ⟨_, rfl⟩
    obtain ⟨g, r, g', data, ⟨p, -, hp, -⟩, -⟩ := exists_done_of_exact hexact hs rfl hrule
    exact fits_of_toInt hp
  | attack n m =>
    by_cases hself : low n = low m
    · exact Or.inl hself
    have hne : Json.toInt32 n ≠ Json.toInt32 m := fun h => hself (by
      rw [← toInt_toInt32, ← toInt_toInt32, h])
    have hrule : ∀ a : Arena, (∀ p ∈ [Json.toInt32 n, Json.toInt32 m], a.player p ≠ none) →
        ∃ out, (Command.attack (Json.toInt32 n) (Json.toInt32 m)).rule a = .ok out :=
      fun a hpresent => by
        obtain ⟨st, hst⟩ := Option.ne_none_iff_exists'.mp (hpresent _ List.mem_cons_self)
        obtain ⟨st', hst'⟩ := Option.ne_none_iff_exists'.mp
          (hpresent _ (List.mem_cons_of_mem _ List.mem_cons_self))
        rw [Command.rule, Arena.attackPlayer, if_neg hne, hst, hst']
        exact ⟨_, rfl⟩
    obtain ⟨g, r, g', data, ⟨p, q, -, hp, hq, -⟩, -⟩ := exists_done_of_exact hexact hs rfl hrule
    exact Or.inr ⟨fits_of_toInt hp, fits_of_toInt hq⟩
  | chat n message =>
    by_cases hempty : message = []
    · exact Or.inl hempty
    by_cases hlong : GameState.maxChatLen < Json.toInt32 message.length
    · exact Or.inr (Or.inl hlong)
    have hnarrowed : (Sent.chat n message).narrowed =
        .command (.chat (Json.toInt32 n) message) := by
      rw [Sent.narrowed, if_neg hempty, if_neg hlong]
    have hrule : ∀ a : Arena, (∀ p ∈ [Json.toInt32 n], a.player p ≠ none) →
        ∃ out, (Command.chat (Json.toInt32 n) message).rule a = .ok out := fun a hpresent => by
      rw [Command.rule, if_pos (hpresent _ List.mem_cons_self)]
      exact ⟨_, rfl⟩
    obtain ⟨g, r, g', data, ⟨p, hp, -⟩, -⟩ := exists_done_of_exact hexact hs hnarrowed hrule
    exact Or.inr (Or.inr (fits_of_toInt hp))
  | move n x y =>
    have hrule : ∀ a : Arena, (∀ p ∈ [Json.toInt32 n], a.player p ≠ none) →
        ∃ out, (Command.move (Json.toInt32 n) (Json.toInt32 x) (Json.toInt32 y)).rule a = .ok out :=
      fun a hpresent => by
        obtain ⟨a', ha'⟩ := exists_modifyPlayer (hpresent _ List.mem_cons_self) _
        rw [Command.rule, Arena.movePlayer, ha']
        exact ⟨_, rfl⟩
    obtain ⟨g, r, g', data, ⟨p, cx, cy, hp, hcx, hcy, -, hr⟩, hmove⟩ :=
      exists_done_of_exact hexact hs rfl hrule
    -- the response has the coordinates that were stored
    obtain ⟨hx, hy⟩ := moveResponse_inj (hr.symm.trans (rule_move hmove).2)
    rw [hx, toInt_clamp, toInt_toInt32, clampTo_low_iff] at hcx
    rw [hy, toInt_clamp, toInt_toInt32, clampTo_low_iff] at hcy
    exact ⟨fits_of_toInt hp, hcx, hcy⟩
  | getState n =>
    obtain ⟨w, hw, hpresent⟩ := exists_reachable_present cfg fp [Json.toInt32 n]
    obtain ⟨r, w', hrun, hresponds⟩ := exists_responds cfg fp hs w
    have hhandled := hexact w r w' hw hrun
    rw [hs] at hhandled
    have hmem := hpresent _ List.mem_cons_self
    have hok := isOk_of_present readable_silence hmem hresponds
    obtain ⟨p, hp, -⟩ := hhandled.1 hok
    exact fits_of_toInt hp
  | updateScore n score =>
    by_cases hneg : Json.toInt32 score < 0
    · refine Or.inl ⟨?_, (toInt32_lt_zero_iff score).mp hneg⟩
      by_contra hpos
      obtain ⟨r, w', hrun, hresponds⟩ := exists_responds cfg fp hs .started
      have hhandled := hexact _ r w' World.started_fresh.reachable hrun
      rw [hs] at hhandled
      refine hhandled.2 n score rfl (Int.not_lt.mp hpos) ?_
      rw [Sent.narrowed, if_pos hneg] at hresponds
      exact (eq_of_refused hresponds).1
    · have hnarrowed : (Sent.updateScore n score).narrowed =
          .command (.updateScore (Json.toInt32 n) (Json.toInt32 score)) := if_neg hneg
      have hrule : ∀ a : Arena, (∀ p ∈ [Json.toInt32 n], a.player p ≠ none) →
          ∃ out, (Command.updateScore (Json.toInt32 n) (Json.toInt32 score)).rule a = .ok out :=
        fun a hpresent => by
          obtain ⟨a', ha'⟩ := exists_modifyPlayer (hpresent _ List.mem_cons_self) _
          rw [Command.rule, Arena.setScore, ha']
          exact ⟨_, rfl⟩
      obtain ⟨g, r, g', data, ⟨p, v, hp, hv, -⟩, -⟩ :=
        exists_done_of_exact hexact hs hnarrowed hrule
      exact Or.inr ⟨fits_of_toInt hp, fits_of_toInt hv⟩

end Exact

/-- **A payload is always handled exactly if and only if its integers are safe.**  For one direction
a safe integer is followed through the rules, for the other a state is made in which an unsafe one
shows. -/
theorem exact_iff (cfg : Config) (fp : Doubles) (rawJson : Bytes) :
    Exact cfg fp rawJson ↔ ∀ s, sent? rawJson = some s → s.Safe := by
  refine ⟨fun hexact s hs => safe_of_exact hexact hs, fun hsafe w r w' _ hrun => ?_⟩
  have hrun' : Runs (Call.execVia fp id) (reply cfg fp rawJson) w r w' := hrun
  have hresponds := (reply_responds hrun').1
  cases hs : sent? rawJson with
  | none =>
    intro hok
    rcases decode_of_not_sent hs with ⟨err, herr⟩ | hasks
    · rw [herr] at hresponds
      rw [(eq_of_refused hresponds).1, Request.isOk_errorResponse] at hok
      cases hok
    · exact hasks
  | some s =>
    rw [decode_of_sent hs] at hresponds
    refine ⟨done_of_responds (hsafe s hs) hresponds, fun n score hscore hpos => ?_⟩
    subst hscore
    refine not_negative_of_responds hpos ?_ hresponds
    rcases hsafe _ hs with ⟨hneg, -⟩ | ⟨-, hfits⟩
    · omega
    · exact hfits

/-- A request to join as player 4294967297. -/
def joinBeyond : Bytes := ascii "\x7b\"action\":\"JOIN\",\"player_id\":4294967297\x7d"

/-- **Player 1 joins in its place.**  The low 32 bits of 4294967297 are 1. -/
theorem joinBeyond_not_exact :
    sent? joinBeyond = some (.join 4294967297) ∧ Request.decode joinBeyond = .command (.join 1) ∧
      ¬ Exact ⟨false, false⟩ .zero joinBeyond := by
  have hsent : sent? joinBeyond = some (.join 4294967297) := by decide +kernel
  refine ⟨hsent, by decide +kernel, fun hexact => ?_⟩
  obtain ⟨r, g', data, ⟨p, hp, -⟩, -⟩ :=
    done_of_exact hexact hsent World.started_fresh.reachable rfl ⟨_, rfl⟩
  exact absurd (fits_of_toInt hp) (by decide)

end Integers
end MultiPlayerGame
