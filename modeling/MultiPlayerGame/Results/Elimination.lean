import MultiPlayerGame.Server.Copies

/-!
# An elimination is not passed on

The gauge, the sessions in Redis and the rows in MySQL follow the game only through the handlers of
`JOIN` and `LEAVE`.  There is a third way in or out: an `ATTACK` takes its target out of the game
when it leaves no health, and `handleAttack` writes to none of the three.  So

* the gauge is right after every request of a run if and only if no request eliminates a player
  (`gauge_iff`; and the count fits the `int` it is kept in);
* the sessions are those of the players in the game, after every request of a run, if and only if
  no request eliminates a player (`sessions_iff`);
* a request loses a final score if and only if it eliminates a player whose score is above the high
  score that MySQL already has for it (`scores_iff`).

`Duel` is a run in which all three go wrong.

## How exactness is shown

For each copy there is a lemma about one request, in both directions: if the copy was right before,
it is right afterwards exactly if the request does not eliminate anybody.  The lemma is applied to
the first request of the run that eliminates somebody.  Up to it all is well, and right after it the
copy is wrong.  That a later request may repair it, by a `JOIN` that sets the gauge anew, is the
reason why the statement is about every moment of the run and not about its end.

What the request does to the copies is `Copies.reply_copies`, and what it does to the players is
`players_of_apply`.  An elimination is a property of the state before the request: two players who
are there and are not the same, the second one with a health of at most 25. For the scores one more
thing is needed, the row that MySQL has, because `upsertPlayer` keeps the greater one of two scores
and a score that is not above the row is not lost.
-/

namespace MultiPlayerGame
namespace Elimination

open Bytes (ascii)
open Program (Runs Served ServedThrough Turn serveThrough)
open RequestHandler

/-- Does a request eliminate someone?  It is a property of the payload and of the state in which it
is served. -/
def Kills (w : World) (rawJson : Bytes) : Prop := ∃ q target, Eliminates rawJson w.game q target

/-- A request, seen from the players and the copies. -/
theorem reply_players {ε : Type} {env : ε → Env} {cfg : Config} {fp : Doubles} {w w' : World}
    {rawJson : Bytes} {r : Json} (h : Runs (Call.execVia fp env) (reply cfg fp rawJson) w r w') :
    (w'.game.players = w.game.players ∧ w'.copies = w.copies ∧
        ∀ c, Request.decode rawJson = .command c →
          ¬ ∃ players', c.Players w.game.players players') ∨
      ∃ c x data w₁ w₂, Request.decode rawJson = .command c ∧
        c.Players w.game.players w'.game.players ∧
        (∀ p st, c = .leave p → w.game.players.lookup p = some st → r = leaveResponse p st.score) ∧
        c.outcome x = .ok (data, r) ∧
        w₁.game.players = w'.game.players ∧ w₁.copies = w.copies ∧
        Runs (Call.execVia fp env) (c.effects cfg x) w₁ () w₂ ∧ w'.copies = w₂.copies := by
  rcases reply_copies h with ⟨hgame, hcopies, hrefused⟩ |
    ⟨c, now, data, g, x, w₁, w₂, timestamp, hdecode, happly, houtcome, hw₁, hcopies₁, heffects,
      hgame, hcopies₂⟩
  · refine Or.inl ⟨by rw [hgame], hcopies, fun c hdecode ⟨players', hplayers⟩ => ?_⟩
    obtain ⟨now, err, happly⟩ := hrefused c hdecode
    obtain ⟨out, hok⟩ := apply_of_players hplayers now
    rw [hok] at happly
    cases happly
  · have hplayers : w'.game.players = g.players := by rw [hgame]; rfl
    refine Or.inr ⟨c, x, data, w₁, w₂, hdecode, ?_, ?_, houtcome, by rw [hw₁, hplayers], hcopies₁,
      heffects, hcopies₂⟩
    · rw [hplayers]
      exact players_of_apply happly
    · rintro p st rfl hst
      obtain ⟨out, hremove, heq⟩ := map_eq_ok happly
      rw [GameState.removePlayer, hst] at hremove
      cases hremove
      exact congrArg (·.1.2) heq.symm

/-- Whom a request eliminates, if anyone. -/
def eliminated (rawJson : Bytes) (g : GameState) : Option (Int32 × PlayerState) :=
  match Request.decode rawJson with
  | .command (.attack p q) =>
    if p ≠ q ∧ p ∈ g.players then
      ((g.players.lookup q).filter fun target => Arena.Lethal target.standing).map fun target =>
        (q, target)
    else none
  | _ => none

theorem eliminates_iff {rawJson : Bytes} {g : GameState} {q : Int32} {target : PlayerState} :
    Eliminates rawJson g q target ↔ eliminated rawJson g = some (q, target) := by
  unfold eliminated
  constructor
  · rintro ⟨c, hdecode, p, rfl, hne, hp, htarget, hlethal⟩
    rw [hdecode]
    simp [hne, hp, htarget, hlethal]
  · intro h
    split at h
    · rename_i p q' hdecode
      obtain ⟨⟨hne, hp⟩, h⟩ := Option.ite_none_right_eq_some.mp h
      obtain ⟨target', hfilter, heq⟩ := Option.map_eq_some_iff.mp h
      cases heq
      obtain ⟨htarget, hlethal⟩ := Option.filter_eq_some_iff.mp hfilter
      exact ⟨_, hdecode, p, rfl, hne, hp, htarget, of_decide_eq_true hlethal⟩
    · cases h

instance (w : World) (rawJson : Bytes) : Decidable (Kills w rawJson) :=
  decidable_of_iff ((eliminated rawJson w.game).isSome = true) <| by
    simp only [Kills, eliminates_iff, Option.isSome_iff_exists, Prod.exists]

/-- The command of a request that eliminates someone. -/
theorem kills_iff {w : World} {rawJson : Bytes} {c : Command}
    (hdecode : Request.decode rawJson = .command c) :
    Kills w rawJson ↔ ∃ q target, c.Eliminates w.game.players q target := by
  constructor
  · rintro ⟨q, target, c', hdecode', helim⟩
    rw [hdecode] at hdecode'
    cases hdecode'
    exact ⟨q, target, helim⟩
  · rintro ⟨q, target, helim⟩
    exact ⟨q, target, c, hdecode, helim⟩

/-- A request that the game refuses eliminates nobody. -/
theorem not_kills_of_refused {w : World} {rawJson : Bytes}
    (h : ∀ c, Request.decode rawJson = .command c →
      ¬ ∃ players', c.Players w.game.players players') : ¬ Kills w rawJson :=
  fun ⟨_, _, c, hdecode, helim⟩ => h c hdecode (Command.players_of_eliminates helim)

/-! ## A duel

Two players join, one is given a score, and the other attacks it four times. -/

/-- What a request that can do something to the players does to the rows. -/
theorem rows_of_reply {ε : Type} {env : ε → Env} {cfg : Config} {fp : Doubles}
    (hdb : cfg.hasDb = true) (hsql : ∀ e, (env e).sql.Works) {w w' : World} {rawJson : Bytes}
    {r : Json} {c : Command} (hdecode : Request.decode rawJson = .command c)
    (hpossible : ∃ players', c.Players w.game.players players')
    (h : Runs (Call.execVia fp env) (reply cfg fp rawJson) w r w') :
    ∃ score, w'.db.players = c.rowsAfter score w.db.players := by
  rcases reply_players h with ⟨-, -, hrefused⟩ |
    ⟨c', x, data, w₁, w₂, hdecode', -, -, houtcome, -, hcopies₁, heffects, hcopies₂⟩
  · exact absurd hpossible (hrefused c hdecode)
  · rw [hdecode] at hdecode'
    cases hdecode'
    obtain ⟨score, hafter, -⟩ := effects_rows hdb hsql houtcome heffects
    rw [hcopies₁, ← hcopies₂] at hafter
    exact ⟨score, hafter⟩

/-- A player joins who is one more than an `int` can count. -/
def Overflows (w : World) (rawJson : Bytes) : Prop :=
  ∃ p, Request.decode rawJson = .command (.join p) ∧ p ∉ w.game.players ∧
    w.game.activePlayerCount + 1 = 2 ^ 31

instance (w : World) (rawJson : Bytes) : Decidable (Overflows w rawJson) :=
  decidable_of_iff ((match Request.decode rawJson with
    | .command (.join p) => decide (p ∉ w.game.players ∧ w.game.activePlayerCount + 1 = 2 ^ 31)
    | _ => false) = true) <| by
    unfold Overflows
    split
    · rename_i p hdecode
      simp [hdecode]
    · rename_i hno
      refine iff_of_false Bool.false_ne_true ?_
      rintro ⟨p, hdecode, -⟩
      exact hno p hdecode

namespace Duel

def joinTarget : Bytes := ascii "\x7b\"action\":\"JOIN\",\"player_id\":1\x7d"

def setScore : Bytes := ascii "\x7b\"action\":\"UPDATE_SCORE\",\"player_id\":1,\"score\":10\x7d"

def attack : Bytes := ascii "\x7b\"action\":\"ATTACK\",\"player_id\":0,\"target_id\":1\x7d"

def leaveTarget : Bytes := ascii "\x7b\"action\":\"LEAVE\",\"player_id\":1\x7d"

/-- The requests before the last attack. -/
def opening : List Bytes := [joinZero, joinTarget, setScore, attack, attack, attack]

/-- The target leaves instead of being attacked once more. -/
def retreat : List Bytes := opening ++ [leaveTarget]

/-- Redis and MySQL do whatever they are asked. -/
def working (_ : Unit) : Env := { executed := true }

theorem working_works (u : Unit) : (working u).sql.Works := ⟨rfl, rfl, rfl⟩

/-- The answers and the world after some requests. -/
def after (requests : List Bytes) : List Json × World :=
  Program.serve (reply ⟨true, true⟩ .zero) (fun c => c.execVia .zero working ()) requests .started

/-- The same request by request. -/
def turns (requests : List Bytes) : List (Turn World Bytes Json) :=
  serveThrough (reply ⟨true, true⟩ .zero) (fun c => c.execVia .zero working ()) requests .started

theorem served_after (requests : List Bytes) :
    Served (reply ⟨true, true⟩ .zero) (Call.execVia .zero working) .started
      (requests.zip (after requests).1) (after requests).2 :=
  Program.served_serve (reply ⟨true, true⟩ .zero) (Call.execVia .zero working) () requests .started

theorem through_turns (requests : List Bytes) :
    ServedThrough (reply ⟨true, true⟩ .zero) (Call.execVia .zero working) .started (turns requests)
      (after requests).2 :=
  Program.servedThrough_serve (reply ⟨true, true⟩ .zero) (Call.execVia .zero working) () requests
    .started

theorem requests_after (requests : List Bytes) :
    (requests.zip (after requests).1).map Prod.fst = requests :=
  List.map_fst_zip (Program.length_serve _ _ _ _).ge

end Duel

/-! ## The gauge -/

/-- The gauge shows the number of players.  The gauge is an `int`, and the number of players is
compared with it as an integer. -/
def GaugeRight (w : World) : Prop := w.metrics.activePlayers.toInt = w.game.activePlayerCount

instance : DecidablePred GaugeRight := fun _ => inferInstanceAs (Decidable (_ = _))

theorem toInt_toInt32_natCast (n : Nat) : (Json.toInt32 n).toInt = n ↔ n < 2 ^ 31 := by
  constructor
  · intro h
    have := Int32.toInt_lt (Json.toInt32 n)
    omega
  · intro h
    exact Int32.toInt_ofInt_of_le (by omega) (by omega)

/-- **One request.**  The gauge stays right unless the request eliminates a player or overflows. -/
theorem gauge_step {ε : Type} {env : ε → Env} {cfg : Config} {fp : Doubles} {w w' : World}
    {rawJson : Bytes} {r : Json} (hright : GaugeRight w)
    (h : Runs (Call.execVia fp env) (reply cfg fp rawJson) w r w') :
    GaugeRight w' ↔ ¬ Kills w rawJson ∧ ¬ Overflows w rawJson := by
  have hlt := Int32.toInt_lt w.metrics.activePlayers
  have hcount : ∀ v : World, v.game.activePlayerCount = v.game.players.size := fun _ => rfl
  have hgauge : ∀ v : World, v.metrics.activePlayers = v.copies.gauge := fun _ => rfl
  rcases reply_players h with ⟨hplayers, hcopies, hrefused⟩ |
    ⟨c, x, data, w₁, w₂, hdecode, hcommand, hscore, houtcome, hw₁, hcopies₁, heffects,
      hcopies₂⟩
  · refine iff_of_true ?_ ⟨not_kills_of_refused hrefused, fun ⟨p, hdecode, hp, _⟩ =>
      hrefused _ hdecode ⟨_, hp, 0, rfl⟩⟩
    unfold GaugeRight at hright ⊢
    rwa [hgauge, hcopies, hcount, hplayers]
  · have hafter := effects_gauge houtcome heffects
    rw [hw₁, hcopies₁, ← hcopies₂] at hafter
    unfold GaugeRight Overflows at *
    simp only [hgauge, hcount] at hright hlt ⊢
    rw [hafter, kills_iff hdecode]
    rcases size_of_players hcommand with ⟨p, rfl, hsize⟩ | ⟨p, rfl, hsize⟩ |
      ⟨q, target, helim, hsize⟩ | ⟨hsize, hjoin, hleave, hno⟩
    · have hp : p ∉ w.game.players := hcommand.1
      have hnokill : ¬ ∃ q target, (Command.join p).Eliminates w.game.players q target := by
        rintro ⟨q, target, p', heq, -⟩
        cases heq
      rw [Command.gaugeAfter, toInt_toInt32_natCast, hsize]
      constructor
      · intro hfits
        refine ⟨hnokill, fun ⟨_, _, _, hfull⟩ => ?_⟩
        omega
      · rintro ⟨-, hfits⟩
        have hne : ¬ w.game.players.size + 1 = 2 ^ 31 :=
          fun hfull => hfits ⟨p, hdecode, hp, hfull⟩
        omega
    · rw [Command.gaugeAfter, toInt_toInt32_natCast]
      refine iff_of_true (by omega) ⟨?_, ?_⟩
      · rintro ⟨q, target, p', heq, -⟩
        cases heq
      · rintro ⟨p', hdecode', -⟩
        rw [hdecode] at hdecode'
        cases hdecode'
    · obtain ⟨p, rfl, -⟩ := id helim
      refine iff_of_false ?_ fun ⟨hno, _⟩ => hno ⟨q, target, helim⟩
      have hsame : (Command.attack p q).gaugeAfter w'.game.players.size w.copies.gauge =
          w.copies.gauge := rfl
      rw [hsame, hright]
      omega
    · refine iff_of_true ?_ ⟨fun ⟨q, target, helim⟩ => hno q target helim, ?_⟩
      · rw [hsize, ← hright]
        cases c with
        | join p => exact absurd rfl (hjoin p)
        | leave p => exact absurd rfl (hleave p)
        | _ => rfl
      · rintro ⟨p', hdecode', -⟩
        rw [hdecode] at hdecode'
        cases hdecode'
        exact absurd rfl (hjoin p')

/-- **The gauge shows the number of players after every request of a run if and only if no request
of it eliminates a player**, or brings in one more than an `int` can count. -/
theorem gauge_iff {cfg : Config} {fp : Doubles} {w₀ w : World}
    {turns : List (Turn World Bytes Json)} (hfresh : w₀.Fresh)
    (hzero : w₀.metrics.activePlayers = 0)
    (h : ServedThrough (reply cfg fp) (Call.exec fp) w₀ turns w) :
    (∀ e ∈ turns, GaugeRight e.after) ↔
      ∀ e ∈ turns, ¬ Kills e.before e.request ∧ ¬ Overflows e.before e.request := by
  have hstart : GaugeRight w₀ := by
    obtain ⟨matchStart, hgame⟩ := hfresh
    rw [GaugeRight, hzero, hgame]
    rfl
  refine h.iff_of_step (fun rawJson r w w' hright last => ?_) (fun _ _ _ _ _ _ hright => hright)
    hstart
  have last' : Runs (Call.execVia fp id) (reply cfg fp rawJson) w r w' := last
  exact gauge_step hright last'

/-- Two players join, one is hit three times and leaves; the gauge is right all the time. -/
theorem gauge_iff_retreat : ∃ turns w, turns.map Turn.request = Duel.retreat ∧
    ServedThrough (reply ⟨true, true⟩ .zero) (Call.exec .zero) .started turns w ∧
    ∀ e ∈ turns, GaugeRight e.after := by
  have h := Program.servedThrough_serve (reply ⟨true, true⟩ .zero) (Call.exec .zero) {} Duel.retreat
    .started
  exact ⟨_, _, by decide +kernel, h, (gauge_iff World.started_fresh rfl h).mpr (by decide +kernel)⟩

/-- **After the duel the gauge is wrong.**  It says 2, and one player is in the game. -/
theorem duel_gauge : ∃ history w, history.map Prod.fst = Duel.opening ++ [Duel.attack] ∧
    Served (reply ⟨true, true⟩ .zero) (Call.exec .zero) .started history w ∧ ¬ GaugeRight w := by
  have h : Served (reply ⟨true, true⟩ .zero) (Call.exec .zero) .started _ _ :=
    (Duel.served_after (Duel.opening ++ [Duel.attack])).mono fun c e s => ⟨Duel.working e, rfl⟩
  exact ⟨_, _, Duel.requests_after _, h, by decide +kernel⟩

/-! ## The sessions -/

/-- Redis holds a session for exactly the players in the game. -/
def SessionsRight (w : World) : Prop :=
  ∀ id, CacheManager.sessionKey id ∈ w.keys ↔ id ∈ w.game.players

theorem toString_injective : Function.Injective toString := fun p q h => by
  have hint := Bytes.decimal_injective h
  rw [← Int32.ofInt_toInt p, hint, Int32.ofInt_toInt]

theorem sessionKey_injective : Function.Injective CacheManager.sessionKey := fun _ _ h =>
  toString_injective (List.append_cancel_left h)

theorem sessionKey_ne_positionKey (p q : Int32) :
    CacheManager.sessionKey p ≠ CacheManager.positionKey q := fun h => by
  have hhead : (0x73 : UInt8) = 0x70 := (List.cons.inj h).1
  exact absurd hhead (by decide)

/-- Which sessions there are after the effects of a command. -/
theorem sessionKey_mem_keysAfter (session : Bytes) (keys : KeyedMap Bytes Bytes) (c : Command)
    (id : Int32) : CacheManager.sessionKey id ∈ c.keysAfter session keys ↔ match c with
      | .join p => id = p ∨ CacheManager.sessionKey id ∈ keys
      | .leave p => id ≠ p ∧ CacheManager.sessionKey id ∈ keys
      | _ => CacheManager.sessionKey id ∈ keys := by
  cases c with
  | join p =>
    rw [Command.keysAfter, AList.mem_insert, AList.mem_insert, sessionKey_injective.eq_iff]
    exact or_iff_right (sessionKey_ne_positionKey id p)
  | leave p =>
    rw [Command.keysAfter, AList.mem_erase, sessionKey_injective.ne_iff]
  | move p x y =>
    rw [Command.keysAfter, AList.mem_insert]
    exact or_iff_right (sessionKey_ne_positionKey id p)
  | _ => exact Iff.rfl

/-- **One request.**  The sessions stay right unless the request eliminates a player. -/
theorem sessions_step {ε : Type} {env : ε → Env} {cfg : Config} {fp : Doubles}
    (hcache : cfg.cacheEnabled = true) (hexecuted : ∀ e, (env e).executed = true) {w w' : World}
    {rawJson : Bytes} {r : Json} (hright : SessionsRight w)
    (h : Runs (Call.execVia fp env) (reply cfg fp rawJson) w r w') :
    SessionsRight w' ↔ ¬ Kills w rawJson := by
  have hkeys : ∀ v : World, v.keys = v.copies.keys := fun _ => rfl
  rcases reply_players h with ⟨hplayers, hcopies, hrefused⟩ |
    ⟨c, x, data, w₁, w₂, hdecode, hcommand, hscore, houtcome, hw₁, hcopies₁, heffects,
      hcopies₂⟩
  · refine iff_of_true (fun id => ?_) (not_kills_of_refused hrefused)
    rw [hkeys, hcopies, hplayers]
    exact hright id
  · obtain ⟨session, hafter⟩ := effects_keys hcache hexecuted houtcome heffects
    rw [hcopies₁, ← hcopies₂] at hafter
    have hsessions := sessionKey_mem_keysAfter session w.copies.keys c
    have hmem := mem_of_players hcommand
    rw [kills_iff hdecode]
    unfold SessionsRight at *
    simp only [hkeys] at hright ⊢
    rw [hafter]
    have hother : (∀ p q, c ≠ .attack p q) → ¬ ∃ q target, c.Eliminates w.game.players q target :=
      fun hc ⟨q, target, p, heq, _⟩ => hc p q heq
    cases c with
    | attack p q =>
      constructor
      · -- the session of the target is still there
        rintro hafter' ⟨q', target, helim⟩
        obtain ⟨p', heq, -, -, htgt, -⟩ := id helim
        cases heq
        have hsession := (hright q).mpr (KeyedMap.mem_of_lookup htgt)
        exact ((hmem q).mp ((hafter' q).mp ((hsessions q).mpr hsession))).1 target helim rfl
      · intro hno id
        rw [hsessions, hmem, hright]
        exact ⟨fun hid => ⟨fun target helim => absurd ⟨q, target, helim⟩ hno, hid⟩, And.right⟩
    | _ =>
      refine iff_of_true (fun id => ?_) (hother (by simp))
      rw [hsessions, hmem]
      simp only [hright]

/-- **The sessions in Redis are those of the players in the game after every request of a run if and
only if no request of it eliminates a player.** -/
theorem sessions_iff {ε : Type} {env : ε → Env} {cfg : Config} {fp : Doubles}
    (hcache : cfg.cacheEnabled = true) (hexecuted : ∀ e, (env e).executed = true) {w₀ w : World}
    {turns : List (Turn World Bytes Json)} (hfresh : w₀.Fresh)
    (hnone : ∀ id, CacheManager.sessionKey id ∉ w₀.keys)
    (h : ServedThrough (reply cfg fp) (Call.execVia fp env) w₀ turns w) :
    (∀ e ∈ turns, SessionsRight e.after) ↔ ∀ e ∈ turns, ¬ Kills e.before e.request := by
  have hstart : SessionsRight w₀ := fun id => by
    obtain ⟨matchStart, hgame⟩ := hfresh
    refine iff_of_false (hnone id) ?_
    rw [hgame]
    exact AList.notMem_empty id
  exact h.iff_of_step (fun _ _ _ _ hright last => sessions_step hcache hexecuted hright last)
    (fun _ _ _ _ _ _ hright => hright) hstart

/-- Two players join, one is hit three times and leaves; the sessions are right all the time. -/
theorem sessions_iff_retreat : ∃ turns w, turns.map Turn.request = Duel.retreat ∧
    ServedThrough (reply ⟨true, true⟩ .zero) (Call.execVia .zero Duel.working) .started turns w ∧
    ∀ e ∈ turns, SessionsRight e.after := by
  have h := Duel.through_turns Duel.retreat
  exact ⟨_, _, by decide +kernel, h, (sessions_iff rfl (fun _ => rfl) World.started_fresh
    (fun _ => AList.notMem_empty _) h).mpr (by decide +kernel)⟩

/-- **After the duel there is a session of a player who is gone.**  Nobody deletes it, and it stays
until it expires. -/
theorem duel_sessions : ∃ history w, history.map Prod.fst = Duel.opening ++ [Duel.attack] ∧
    Served (reply ⟨true, true⟩ .zero) (Call.execVia .zero Duel.working) .started history w ∧
    ¬ SessionsRight w := by
  refine ⟨_, _, Duel.requests_after _, Duel.served_after (Duel.opening ++ [Duel.attack]),
    fun hright => ?_⟩
  exact absurd ((hright 1).mp (by decide +kernel)) (by decide +kernel)

/-! ## The final scores -/

/-- Whoever a request has taken out of the game has a row whose high score is at least the score it
had. -/
def ScoresKept (w w' : World) : Prop :=
  ∀ p st, w.game.players.lookup p = some st → p ∉ w'.game.players →
    ∃ row, w'.db.players.lookup p = some row ∧ st.score ≤ row.highScore

/-- The request eliminates a player whose score is not in its row yet. -/
def Unsaved (w : World) (rawJson : Bytes) : Prop :=
  ∃ q target, Eliminates rawJson w.game q target ∧
    ¬ ∃ row, w.db.players.lookup q = some row ∧ target.score ≤ row.highScore

instance (w : World) (rawJson : Bytes) : Decidable (Unsaved w rawJson) :=
  decidable_of_iff ((eliminated rawJson w.game).any (fun e =>
      !(w.db.players.lookup e.1).any fun row => e.2.score ≤ row.highScore) = true) <| by
    simp [Unsaved, eliminates_iff, Option.any_eq_true, Option.any_eq_false]

theorem le_greatest (a b : Int32) : b ≤ Database.greatest a b := by
  unfold Database.greatest
  split
  · exact Int32.le_refl b
  · exact Int32.not_lt.mp ‹_›

/-- What `upsertPlayer` promises. -/
theorem lookup_upserted (playerId : Int32) (username : Bytes) (score kills : Int32)
    (rows : KeyedMap Int32 PlayerRow) :
    ∃ row, (upserted playerId username score kills rows).lookup playerId = some row ∧
      score ≤ row.highScore := by
  unfold upserted
  cases hrow : rows.lookup playerId with
  | none => exact ⟨_, AList.lookup_insert _, Int32.le_refl score⟩
  | some row =>
    exact ⟨_, KeyedMap.lookup_replace (KeyedMap.mem_of_lookup hrow) _, le_greatest _ _⟩

theorem leaveResponse_injective (p : Int32) : Function.Injective (leaveResponse p) := by
  intro score score' h
  have hscore := congrArg (Json.field? (ascii "final_score")) h
  simp +decide only [leaveResponse, Json.field?_obj_cons, Json.int, if_true, if_false,
    Option.some.injEq, Json.integer.injEq] at hscore
  exact Int32.toInt_inj.mp hscore

/-- **One request.**  It loses a final score exactly when it eliminates a player whose score is not
in its row yet. -/
theorem scores_step {ε : Type} {env : ε → Env} {cfg : Config} {fp : Doubles}
    (hdb : cfg.hasDb = true) (hsql : ∀ e, (env e).sql.Works) {w w' : World} {rawJson : Bytes}
    {r : Json} (h : Runs (Call.execVia fp env) (reply cfg fp rawJson) w r w') :
    ScoresKept w w' ↔ ¬ Unsaved w rawJson := by
  have hrows : ∀ v : World, v.db.players = v.copies.rows := fun _ => rfl
  rcases reply_players h with ⟨hplayers, hcopies, hrefused⟩ |
    ⟨c, x, data, w₁, w₂, hdecode, hcommand, hscore, houtcome, hw₁, hcopies₁, heffects, hcopies₂⟩
  · refine iff_of_true (fun p st hst hgone => ?_) fun ⟨q, target, helim, _⟩ =>
      not_kills_of_refused hrefused ⟨q, target, helim⟩
    rw [hplayers] at hgone
    exact absurd (KeyedMap.mem_of_lookup hst) hgone
  · obtain ⟨score, hafter, hleave⟩ := effects_rows hdb hsql houtcome heffects
    rw [hcopies₁, ← hcopies₂] at hafter
    have hmem := mem_of_players hcommand
    have hunsaved : Unsaved w rawJson ↔ ∃ q target, c.Eliminates w.game.players q target ∧
        ¬ ∃ row, w.db.players.lookup q = some row ∧ target.score ≤ row.highScore := by
      constructor
      · rintro ⟨q, target, ⟨c', hdecode', helim⟩, hrow⟩
        rw [hdecode] at hdecode'
        cases hdecode'
        exact ⟨q, target, helim, hrow⟩
      · rintro ⟨q, target, helim, hrow⟩
        exact ⟨q, target, ⟨c, hdecode, helim⟩, hrow⟩
    rw [hunsaved]
    have hother : (∀ p q, c ≠ .attack p q) → ¬ ∃ q target, c.Eliminates w.game.players q target ∧
        ¬ ∃ row, w.db.players.lookup q = some row ∧ target.score ≤ row.highScore :=
      fun hc ⟨q, target, ⟨p, heq, _⟩, _⟩ => hc p q heq
    unfold ScoresKept
    simp only [hrows] at hother ⊢
    rw [hafter]
    cases c with
    | attack p q =>
      constructor
      · rintro hkept ⟨q', target, helim, hrow⟩
        obtain ⟨p', heq, -, -, htgt, -⟩ := id helim
        cases heq
        exact hrow (hkept q target htgt fun hq => ((hmem q).mp hq).1 target helim rfl)
      · intro hno p' st hst hgone
        have helim : p' = q ∧
            ∃ target, (Command.attack p q).Eliminates w.game.players q target := by
          by_contra hne
          refine hgone ((hmem p').mpr ⟨fun target helim heq => ?_, KeyedMap.mem_of_lookup hst⟩)
          exact hne ⟨heq, target, helim⟩
        obtain ⟨rfl, target, helim⟩ := helim
        obtain ⟨-, -, -, -, htgt, -⟩ := id helim
        rw [hst] at htgt
        cases htgt
        by_contra hrow
        exact hno ⟨p', st, helim, hrow⟩
    | leave p =>
      refine iff_of_true (fun p' st hst hgone => ?_) (hother (by simp))
      have heq : p' = p := by
        by_contra hne
        exact hgone ((hmem p').mpr ⟨hne, KeyedMap.mem_of_lookup hst⟩)
      subst heq
      have hfinal := leaveResponse_injective p'
        ((hscore p' st rfl hst).symm.trans (hleave p' rfl))
      rw [hfinal]
      exact lookup_upserted p' (username p') score 0 w.copies.rows
    | join p =>
      refine iff_of_true (fun p' st hst hgone => ?_) (hother (by simp))
      exact absurd ((hmem p').mpr (Or.inr (KeyedMap.mem_of_lookup hst))) hgone
    | _ =>
      refine iff_of_true (fun p' st hst hgone => ?_) (hother (by simp))
      exact absurd ((hmem p').mpr (KeyedMap.mem_of_lookup hst)) hgone

/-- **No final score is lost in a run if and only if no request of it eliminates a player whose
score is above the high score of its row.** -/
theorem scores_iff {ε : Type} {env : ε → Env} {cfg : Config} {fp : Doubles}
    (hdb : cfg.hasDb = true) (hsql : ∀ e, (env e).sql.Works) {w₀ w : World}
    {turns : List (Turn World Bytes Json)}
    (h : ServedThrough (reply cfg fp) (Call.execVia fp env) w₀ turns w) :
    (∀ e ∈ turns, ScoresKept e.before e.after) ↔ ∀ e ∈ turns, ¬ Unsaved e.before e.request :=
  h.iff_of_step (I := fun _ => True) (fun _ _ _ _ _ last => scores_step hdb hsql last)
    (fun _ _ _ _ _ _ _ => trivial) trivial

/-- A player is given a score, is hit three times and leaves with it. -/
theorem scores_iff_retreat : ∃ turns w, turns.map Turn.request = Duel.retreat ∧
    ServedThrough (reply ⟨true, true⟩ .zero) (Call.execVia .zero Duel.working) .started turns w ∧
    ∀ e ∈ turns, ScoresKept e.before e.after := by
  have h := Duel.through_turns Duel.retreat
  exact ⟨_, _, by decide +kernel, h, (scores_iff rfl Duel.working_works h).mpr (by decide +kernel)⟩

/-- **The duel loses the score of the target**: it was 10, and the high score in its row is 0. -/
theorem duel_scores : ∃ history w r w', history.map Prod.fst = Duel.opening ∧
    Served (reply ⟨true, true⟩ .zero) (Call.execVia .zero Duel.working) .started history w ∧
    Runs (Call.execVia .zero Duel.working) (reply ⟨true, true⟩ .zero Duel.attack) w r w' ∧
    ¬ ScoresKept w w' := by
  have hlast := Program.runs_run (Call.execVia .zero Duel.working) ()
    (reply ⟨true, true⟩ .zero Duel.attack) (Duel.after Duel.opening).2
  refine ⟨_, _, _, _, Duel.requests_after _, Duel.served_after Duel.opening, hlast, ?_⟩
  rw [scores_step rfl Duel.working_works hlast, not_not]
  decide +kernel

end Elimination
end MultiPlayerGame
