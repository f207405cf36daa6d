import MultiPlayerGame.Results.Reports
import MultiPlayerGame.Results.Journal

/-!
# The story that the event log tells

An event is recorded after the step that it is about, and not under the same lock.  So the log need
not tell what happened in the order in which it happened: a `MOVE` of a player may stand in front of
its `JOIN`, or behind its `LEAVE`.  `story_possible` says when it does not: if an event is recorded
only after the conflicting events of earlier steps, then in log order everything a player does is
preceded by a `JOIN` of it with no `LEAVE` or elimination in between.  Two events conflict if one of
them brings in or takes out a player whom the other concerns.  `exists_impossible` is a log that
starts with a `MOVE`.

`m_events` keeps the last thousand events only.  The story is therefore told by all that have been
pushed (`Observed.pushed`), which the model carries along beside the server; `m_events` is what is
left of it.

## Why it holds

Let an act be the step on the game and its report the push of the event.  In the order of the acts
the story is possible, since the game itself refuses a player who is not there (`mem_of_plays`).
The log has the reports in another order.  Two events that do not conflict can be told in either
order with the same result (`tell_comm`).  So as long as no report overtakes one that it conflicts
with, the log can be sorted into the order of the acts by swapping neighbours that do not conflict,
and nothing about its being possible changes.

`Library.Arrears` makes this argument without sorting.  It keeps what is outstanding in a queue, and
what has been told, followed by the queue, always agrees with the game (`Paced.settled`).  What has
been told alone is possible then, for what follows cannot repair a story that is impossible
(`possible_of_post`).
-/

namespace MultiPlayerGame
namespace Story

open Bytes (ascii)
open RequestHandler
open Reports
open GameState (maxEvents)
open Journal (intField boolField attackData_fields)
open Interleaving (Reachable Paced)

/-! ## What a story is -/

/-- The event brings a player in. -/
def Joins (p : Int32) (ev : GameEvent) : Prop := ev.eventType = ascii "JOIN" ∧ ev.playerId = p

/-- The event says that a player has left. -/
def Leaves (p : Int32) (ev : GameEvent) : Prop := ev.eventType = ascii "LEAVE" ∧ ev.playerId = p

/-- The event says that a player was eliminated. -/
def Eliminates (p : Int32) (ev : GameEvent) : Prop :=
  ev.eventType = ascii "ATTACK" ∧ intField (Parser.parse ev.data) "target_id" = some p ∧
    boolField (Parser.parse ev.data) "eliminated" = some true

/-- The event is something that only a player in the game can do. -/
def Plays (p : Int32) (ev : GameEvent) : Prop :=
  ev.eventType ∈ [ascii "MOVE", ascii "CHAT", ascii "ATTACK", ascii "UPDATE_SCORE", ascii "LEAVE"] ∧
    ev.playerId = p

/-- **A possible story.**  Whatever a player does is preceded by a `JOIN` of it with no `LEAVE` and
no elimination of it in between. -/
def Possible (events : List GameEvent) : Prop :=
  ∀ before ev after p, events = before ++ ev :: after → Plays p ev →
    ∃ past join since, before = past ++ join :: since ∧ Joins p join ∧
      ∀ e ∈ since, ¬ Leaves p e ∧ ¬ Eliminates p e

/-- Who is in the game by the story so far, and whether it has been possible. -/
@[ext] structure Telling where
  inside : Int32 → Prop
  possible : Prop

def Telling.start : Telling := ⟨fun _ => False, True⟩

/-- One more event. -/
def Telling.tell (v : Telling) (ev : GameEvent) : Telling where
  inside p := Joins p ev ∨ (v.inside p ∧ ¬ Leaves p ev ∧ ¬ Eliminates p ev)
  possible := v.possible ∧ ∀ p, Plays p ev → v.inside p

theorem inside_foldl {events : List GameEvent} {p : Int32}
    (h : (events.foldl Telling.tell .start).inside p) :
    ∃ past join since, events = past ++ join :: since ∧ Joins p join ∧
      ∀ e ∈ since, ¬ Leaves p e ∧ ¬ Eliminates p e := by
  induction events using List.reverseRecOn with
  | nil => exact h.elim
  | append_singleton events ev ih =>
    rw [List.foldl_append] at h
    rcases h with hjoins | ⟨hinside, hstays⟩
    · exact ⟨events, ev, [], rfl, hjoins, fun _ he => by cases he⟩
    · obtain ⟨past, join, since, rfl, hjoins, hsince⟩ := ih hinside
      refine ⟨past, join, since ++ [ev], by simp, hjoins, fun e he => ?_⟩
      rcases List.mem_append.mp he with he | he
      · exact hsince e he
      · rw [List.mem_singleton.mp he]
        exact hstays

/-- What has been told cannot be made possible by what follows. -/
theorem possible_of_foldl {events : List GameEvent} {v : Telling}
    (h : (events.foldl Telling.tell v).possible) : v.possible := by
  induction events generalizing v with
  | nil => exact h
  | cons ev events ih => exact (ih h).1

theorem possible_of_telling {events : List GameEvent}
    (h : (events.foldl Telling.tell .start).possible) : Possible events := by
  rintro before ev after p rfl hplays
  rw [List.foldl_append, List.foldl_cons] at h
  exact inside_foldl ((possible_of_foldl h).2 p hplays)

/-! ## Conflicting events -/

/-- The event brings a player in or takes it out. -/
def Changes (p : Int32) (ev : GameEvent) : Prop := Joins p ev ∨ Leaves p ev ∨ Eliminates p ev

/-- The event concerns a player. -/
def Concerns (p : Int32) (ev : GameEvent) : Prop := Changes p ev ∨ Plays p ev

/-- The event of a debt; its id and its time do not matter. -/
def told (playerId : Int32) (eventType data : Bytes) : GameEvent :=
  ⟨0, playerId, eventType, data, 0⟩

/-- One of two events changes who is in the game, in a way that concerns the other. -/
def Conflict (a b : GameEvent) : Prop :=
  ∃ p, (Changes p a ∧ Concerns p b) ∨ (Concerns p a ∧ Changes p b)

/-- Two debts that must be settled in the order in which they arose. -/
def Conflicting : Debt → Debt → Prop
  | .event p type data, .event p' type' data' => Conflict (told p type data) (told p' type' data')
  | _, _ => False

/-- An event changes nothing for the players whom it does not concern. -/
theorem inside_tell {v : Telling} {ev : GameEvent} {p : Int32} (h : ¬ Changes p ev) :
    (v.tell ev).inside p ↔ v.inside p := by
  unfold Changes at h
  simp only [Telling.tell]
  tauto

/-- **Two events that do not conflict can be told in either order.**  Whom one of them brings in or
takes out, the other one does not concern. -/
theorem tell_comm {a b : GameEvent} (h : ¬ Conflict a b) (v : Telling) :
    (v.tell a).tell b = (v.tell b).tell a := by
  have hnot : ∀ p, (Changes p a → ¬ Concerns p b) ∧ (Changes p b → ¬ Concerns p a) := fun p =>
    ⟨fun ha hb => h ⟨p, Or.inl ⟨ha, hb⟩⟩, fun hb ha => h ⟨p, Or.inr ⟨ha, hb⟩⟩⟩
  have hplays : ∀ p, (Plays p b → ((v.tell a).inside p ↔ v.inside p)) ∧
      (Plays p a → ((v.tell b).inside p ↔ v.inside p)) := fun p =>
    ⟨fun hb => inside_tell fun ha => (hnot p).1 ha (Or.inr hb),
      fun ha => inside_tell fun hb => (hnot p).2 hb (Or.inr ha)⟩
  refine Telling.ext (funext fun p => propext ?_) (propext ?_)
  · by_cases ha : Changes p a
    · have hb : ¬ Changes p b := fun hb => (hnot p).1 ha (Or.inl hb)
      rw [inside_tell hb]
      simp only [Telling.tell]
      unfold Changes at hb
      tauto
    · rw [Telling.tell, Telling.tell]
      simp only [inside_tell ha]
      unfold Changes at ha
      simp only [Telling.tell]
      tauto
  · change ((v.possible ∧ ∀ p, Plays p a → v.inside p) ∧ ∀ p, Plays p b → (v.tell a).inside p) ↔
      (v.possible ∧ ∀ p, Plays p b → v.inside p) ∧ ∀ p, Plays p a → (v.tell b).inside p
    have hb : (∀ p, Plays p b → (v.tell a).inside p) ↔ ∀ p, Plays p b → v.inside p :=
      forall_congr' fun p => forall_congr' (hplays p).1
    have ha : (∀ p, Plays p a → (v.tell b).inside p) ↔ ∀ p, Plays p a → v.inside p :=
      forall_congr' fun p => forall_congr' (hplays p).2
    rw [hb, ha]
    tauto

/-! ## The events of the commands -/

theorem name_eq_iff {a b : Action} : ascii a.name = ascii b.name ↔ a = b := by
  cases a <;> cases b <;> decide

section Events

variable {c : Command} {data : Bytes} {p : Int32}

theorem joins_told : Joins p (told c.playerId (ascii c.action.name) data) ↔ c = .join p := by
  have hname : Joins p (told c.playerId (ascii c.action.name) data) ↔
      c.action = .join ∧ c.playerId = p := and_congr_left' (name_eq_iff (b := .join))
  rw [hname]
  cases c <;> simp [Command.action, Command.playerId]

theorem leaves_told : Leaves p (told c.playerId (ascii c.action.name) data) ↔ c = .leave p := by
  have hname : Leaves p (told c.playerId (ascii c.action.name) data) ↔
      c.action = .leave ∧ c.playerId = p := and_congr_left' (name_eq_iff (b := .leave))
  rw [hname]
  cases c <;> simp [Command.action, Command.playerId]

/-- **The event of an attack says whom it eliminates.**  Its data are the text of an object with a
field for it, and the text can be parsed. -/
theorem eliminates_told {now : Nat → Int} {g g' : GameState} {r : Json}
    (h : c.apply now g = .ok ((data, r), g')) :
    Eliminates p (told c.playerId (ascii c.action.name) data) ↔
      ∃ target, c.Eliminates g.players p target := by
  by_cases hattack : c.action = .attack
  swap
  · refine iff_of_false (fun helim => hattack (name_eq_iff.mp helim.1)) ?_
    rintro ⟨target, p', rfl, -⟩
    exact hattack rfl
  cases c with
  | attack a t =>
    obtain ⟨r, hattack, heq⟩ := map_eq_ok h
    cases heq
    obtain ⟨attacker, target, hne, hatt, htgt, rfl⟩ := GameState.attackPlayer_inv hattack
    obtain ⟨htarget, -, heliminated⟩ := attackData_fields t GameState.attackDamage
      (Arena.Lethal target.standing)
    have htold : Eliminates p (told a (ascii "ATTACK")
        (attackData t GameState.attackDamage (Arena.Lethal target.standing))) ↔
          t = p ∧ Arena.Lethal target.standing := by
      unfold Eliminates told
      rw [htarget, heliminated]
      simp
    refine htold.trans ⟨?_, ?_⟩
    · rintro ⟨rfl, hlethal⟩
      exact ⟨target, a, rfl, hne, KeyedMap.mem_of_lookup hatt, htgt, hlethal⟩
    · rintro ⟨target', a', hcommand, -, -, htgt', hlethal⟩
      cases hcommand
      rw [htgt] at htgt'
      cases htgt'
      exact ⟨rfl, hlethal⟩
  | _ => cases hattack

/-- Whoever plays is in the game. -/
theorem mem_of_plays {players players' : KeyedMap Int32 PlayerState}
    (h : c.Players players players')
    (hplays : Plays p (told c.playerId (ascii c.action.name) data)) : p ∈ players := by
  obtain ⟨htype, hplayer⟩ := hplays
  cases c with
  | join q =>
    simp +decide only [told, Command.action, Action.name] at htype
  | attack q t =>
    obtain ⟨attacker, target, -, hatt, -⟩ := h
    exact hplayer ▸ KeyedMap.mem_of_lookup hatt
  | chat q message => exact hplayer ▸ h.1
  | move | updateScore | leave =>
    obtain ⟨st, hst, -⟩ := h
    exact hplayer ▸ KeyedMap.mem_of_lookup hst

/-- **A command that succeeds calls for the event that goes on with the story.**  Whoever plays is
in the game, and whoever comes or goes does so in the story as well. -/
theorem tell_command {now : Nat → Int} {g g' : GameState} {r : Json}
    (h : c.apply now g = .ok ((data, r), g')) {v : Telling} (hpossible : v.possible)
    (hinside : ∀ p, v.inside p ↔ p ∈ g.players) :
    (v.tell (told c.playerId (ascii c.action.name) data)).possible ∧
      ∀ p, (v.tell (told c.playerId (ascii c.action.name) data)).inside p ↔ p ∈ g'.players := by
  have hplayers := players_of_apply h
  refine ⟨⟨hpossible, fun p hp => (hinside p).mpr (mem_of_plays hplayers hp)⟩, fun p => ?_⟩
  simp only [Telling.tell]
  rw [joins_told, leaves_told, eliminates_told h, hinside, mem_of_players hplayers]
  cases c with
  | join q => simp [Command.Eliminates, eq_comm]
  | leave q => simp [Command.Eliminates, eq_comm, and_comm]
  | attack a t =>
    simp only [reduceCtorEq, false_or, not_false_eq_true, true_and, not_exists]
    rw [and_comm]
    refine and_congr_left' ⟨fun hno target helim hp => ?_, fun hno target helim => ?_⟩
    · subst hp
      exact hno target helim
    · have ht : t = p := by
        obtain ⟨a', hcommand, -⟩ := helim
        cases hcommand
        rfl
      subst ht
      exact hno target helim rfl
  | _ => simp [Command.Eliminates]

end Events

/-! ## All events that have been pushed -/

/-- The shared objects, with all events that have ever been pushed. -/
structure Observed where
  world : World
  pushed : List GameEvent

/-- The events that a step pushes. -/
def pushes : Call → List GameEvent
  | .pushEvent ev => [ev]
  | _ => []

/-- One step, observed. -/
def observe (fp : Doubles) (c : Call) (e : Env) (o : Observed) : c.Ans × Observed :=
  ((c.exec fp e o.world).1, ⟨(c.exec fp e o.world).2, o.pushed ++ pushes c⟩)

/-- The log holds the last of the events that have been pushed. -/
def Kept (o : Observed) : Prop :=
  o.world.game.events = o.pushed.drop (o.pushed.length - maxEvents)

theorem events_pushEvent (ev : GameEvent) {g : GameState} {pushed : List GameEvent}
    (h : g.events = pushed.drop (pushed.length - maxEvents)) :
    (g.pushEvent ev).events = (pushed ++ [ev]).drop ((pushed ++ [ev]).length - maxEvents) := by
  have hlength : g.events.length = min pushed.length maxEvents := by
    rw [h, List.length_drop]
    omega
  unfold GameState.pushEvent
  simp only [List.length_append, List.length_singleton, hlength]
  by_cases hfull : maxEvents < min pushed.length maxEvents + 1
  · have hsucc : pushed.length + 1 - maxEvents = pushed.length - maxEvents + 1 := by omega
    rw [if_pos hfull, h, hsucc, ← List.tail_drop, List.drop_append_of_le_length (by omega)]
  · have hall : pushed.length + 1 - maxEvents = 0 := by omega
    have hbefore : pushed.length - maxEvents = 0 := by omega
    rw [if_neg hfull, h, hall, hbefore, List.drop_zero, List.drop_zero]

/-- **The story that has been told is possible and up to date.**  Those who are in the game by the
story are those in the game. -/
structure Tracks (o : Observed) (v : Telling) : Prop where
  possible : v.possible
  inside : ∀ p, v.inside p ↔ p ∈ o.world.game.players
  kept : Kept o

/-- What a debt adds to the story. -/
def post (v : Telling) : Debt → Telling
  | .event playerId eventType data => v.tell (told playerId eventType data)
  | _ => v

theorem post_comm (a d : Debt) (v : Telling) (h : ¬ Conflicting a d) :
    post (post v a) d = post (post v d) a := by
  cases a with
  | event p type data =>
    cases d with
    | event p' type' data' => exact tell_comm h v
    | _ => rfl
  | _ => rfl

/-- Of the reports of a command its event is the one that goes into the story. -/
theorem foldl_reported (cfg : Config) (c : Command) (data : Bytes) (v : Telling) :
    (reported cfg c data).foldl post v =
      v.tell (told c.playerId (ascii c.action.name) data) := by
  have hcached : (cached c).foldl post v = v := by cases c <;> rfl
  rw [reported, List.foldl_append]
  cases cfg.cacheEnabled with
  | false => rfl
  | true => exact congrArg (Telling.tell · _) hcached

/-- What is outstanding cannot make the story possible either. -/
theorem possible_of_post {ds : List Debt} {v : Telling} (h : (ds.foldl post v).possible) :
    v.possible := by
  induction ds generalizing v with
  | nil => exact h
  | cons d ds ih =>
    cases d with
    | event => exact (ih h).1
    | _ => exact ih h

theorem pushes_of_deciding {c : Call} (hc : Linearizability.Deciding c) : pushes c = [] := by
  cases c <;> first | rfl | exact hc.elim

/-- What an idle step leaves alone. -/
theorem idle_step {c : Call} (hc : Idle c) (fp : Doubles) (e : Env) (w : World) :
    pushes c = [] ∧ (c.exec fp e w).2.game.players = w.game.players ∧
      (c.exec fp e w).2.game.events = w.game.events := by
  cases c <;> first | exact ⟨rfl, rfl, rfl⟩ | exact hc.elim

/-! ## The theorem -/

section Theorem

variable {cfg : Config} {fp : Doubles}

/-- The handler of an action with a request object. -/
def handle (cfg : Config) (fp : Doubles) (q : Action × Json) : Handler (Except Unit Json) :=
  dispatch cfg fp q.2 q.1

abbrev State := Interleaving.Config Call Call.Ans (Action × Json) (Except Unit Json) Observed

/-- All commands. -/
def Any (_ : Command) : Prop := True

/-- Nothing has been pushed yet. -/
def begin (w : World) : Observed := ⟨w, []⟩

/-- **The log tells a possible story**, if no event is recorded before a conflicting one of an
earlier step. -/
theorem story_possible {w₀ : World} (hfresh : w₀.Fresh) {x : State} {owed : List (ℕ × Debt)}
    (hx : Paced (accounts cfg Any) Conflicting (handle cfg fp) (observe fp) (begin w₀) x owed) :
    Possible x.shared.pushed ∧ Kept x.shared := by
  have hstart : Tracks (begin w₀) .start := by
    obtain ⟨matchStart, hgame⟩ := hfresh
    refine ⟨trivial, fun p => iff_of_false not_false ?_, ?_⟩
    · change p ∉ w₀.game.players
      rw [hgame]
      exact AList.notMem_empty p
    · have hnone : w₀.game.events = [] := by rw [hgame]
      exact hnone.trans List.drop_nil.symm
  have hsettled := hx.settled (fun o : Observed => o.pushed.foldl Telling.tell .start) post Tracks
    hstart
    (fun c e o v hc hv => by
      obtain ⟨hpushes, hplayers, hevents⟩ := idle_step hc fp e o.world
      have hpushed : (observe fp c e o).2.pushed = o.pushed := by simp [observe, hpushes]
      refine ⟨by rw [hpushed], hv.possible, fun p => ?_, ?_⟩
      · exact (hv.inside p).trans (by rw [observe, hplayers])
      · rw [Kept, hpushed]
        exact hevents.trans hv.kept)
    (fun c e o v ds hc hdebts hv => by
      have hpushed : (observe fp c e o).2.pushed = o.pushed := by
        simp [observe, pushes_of_deciding hc]
      refine ⟨by rw [hpushed], ?_⟩
      rcases deciding_step cfg fp hdebts with ⟨rfl, hworld⟩ |
        ⟨command, data, response, g, -, rfl, happly, hworld⟩
      · have hsame : (observe fp c e o).2 = o := by
          rw [observe, hworld, pushes_of_deciding hc, List.append_nil]
        rw [hsame]
        exact hv
      · rw [foldl_reported]
        obtain ⟨hpossible, hinside⟩ := tell_command happly hv.possible hv.inside
        have hgame : (observe fp c e o).2.world.game = g := by rw [observe, hworld]
        refine ⟨hpossible, fun p => by rw [hgame]; exact hinside p, ?_⟩
        have hlog := congrArg Prod.fst (Command.log_apply happly)
        rw [Kept, hpushed, hgame]
        exact hlog.trans hv.kept)
    (fun c e o v d hc hv => by
      cases hc with
      | event ev =>
        refine ⟨List.foldl_append, hv.possible, hv.inside, ?_⟩
        exact events_pushEvent ev hv.kept
      | joined | left | position =>
        have hpushed : ∀ command, (observe fp (.redis command) e o).2.pushed = o.pushed :=
          fun _ => List.append_nil _
        exact ⟨by rw [hpushed]; rfl, hv.possible, hv.inside, by
          rw [Kept, hpushed]
          exact hv.kept⟩)
    post_comm
  exact ⟨possible_of_telling (possible_of_post hsettled.possible), hsettled.kept⟩

end Theorem

/-- Without cache and database. -/
def bare : Config := ⟨false, false⟩

/-- A request of player 1, with the fields of a `MOVE`. -/
def one : Json := Json.obj [("player_id", Json.int 1), ("x", Json.int 3), ("y", Json.int 4)]

/-- A `JOIN` and then a `MOVE`. -/
theorem story_possible_move : ∃ x : State,
    Paced (accounts bare Any) Conflicting (handle bare .zero) (observe .zero) (begin .started) x
      [] ∧
    x.shared.pushed.map GameEvent.eventType = [ascii "JOIN", ascii "MOVE"] ∧
    Possible x.shared.pushed := by
  have hprog : ∀ q, (accounts bare Any).Acting (handle bare .zero q) := fun _ =>
    dispatch_acting bare .zero fun _ _ => trivial
  have h₀ : Paced (accounts bare Any) Conflicting (handle bare .zero) (observe .zero)
      (begin .started) (.start (begin .started)) [] := .start
  have h₁ := h₀.invoke 0 (.join, one) (by simp [Interleaving.Config.start])
  have h₂ := h₁.runs hprog 0 (fun _ hb => by cases hb) rfl
    (Program.runs_run _ default _ _)
  have h₃ := h₂.invoke 1 (.move, one) (by simp [Interleaving.Config.start])
  have h₄ := h₃.runs hprog 1 (fun _ hb => by cases hb) rfl
    (Program.runs_run _ default _ _)
  exact ⟨_, h₄, rfl, (story_possible World.started_fresh h₄).1⟩

/-- **A `MOVE` that is recorded before its `JOIN`.**  The player joins in the game and moves, and
the event of the `MOVE` is the first one pushed. -/
theorem exists_impossible : ∃ x : State,
    Reachable (handle bare .zero) (observe .zero) (begin .started) x ∧
    x.shared.world.game.events = x.shared.pushed ∧ ¬ Possible x.shared.pushed := by
  have h₀ : Reachable (handle bare .zero) (observe .zero) (begin .started)
      (.start (begin .started)) := .refl
  have h₁ := h₀.tail (.invoke _ 0 (.join, one) (by simp [Interleaving.Config.start]))
  have h₂ := h₁.tail (.invoke _ 1 (.move, one) (by simp [Interleaving.Config.start]))
  have h₃ := h₂.tail (.call _ 0 (.addPlayer 1) _ default rfl)
  have h₄ := Reachable.runs h₃ 1 (p := handle bare .zero (.move, one)) rfl
    (Program.runs_run _ default _ _)
  refine ⟨_, h₄, rfl, fun hpossible => ?_⟩
  obtain ⟨past, join, since, hbefore, -⟩ := hpossible [] _ [] 1 rfl ⟨by decide, rfl⟩
  cases past <;> cases hbefore

end Story
end MultiPlayerGame
