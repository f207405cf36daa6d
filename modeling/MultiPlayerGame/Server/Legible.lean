import MultiPlayerGame.Library.Interleaving
import MultiPlayerGame.Server.Deeds
import MultiPlayerGame.Server.Serving

/-!
# Every response can be serialised

`dump` throws on a string that is not UTF-8, and nothing in `handle` catches that.  It does not
happen.  What a response says is ASCII text of the server's own, numerals, and text of the client,
which the parser has let through; and a snapshot repeats the types and data of events, which are the
server's own too.

`Speaks` says this of a program: told nothing but UTF-8, it pushes and returns nothing but UTF-8.  A
world in which all events are legible tells nothing else (`heard_exec`), and stays so in every
interleaving (`legible_of_reachable`).

## Why it is an invariant and not a lemma about responses

A response may repeat what another request has put into the log, and so it is not enough to look at
one request.  The log is legible because all that was ever pushed was, and that in turn is because
the handlers push types and data of their own.  So the handlers are followed with two questions at
once:  what they push and what they return (`Speaks`).  What they are told on the way may be assumed
to be legible, for a legible world tells nothing else.  The two fit together in
`legible_of_reachable`, by induction along the interleaving.

Text of the client comes back in two responses only: the echo of a chat message, and an unknown
action.  Both were strings of a payload that was parsed, and the scanner lets nothing through that
is not UTF-8 (`Parser.parse_sound`).
-/

namespace MultiPlayerGame

open Bytes (ascii decimal digits)
open Json (obj int)
open GameState (clamp mapMin mapMax)
open Program (Runs)
open RequestHandler
open Utf8 (Valid)

/-! ## Text -/

theorem valid_toString (n : Int32) : Valid (toString n) := Utf8.valid_decimal n.toInt

/-- A numeral in the middle of a text. -/
theorem valid_around {s t : Bytes} (hs : Valid s) (n : Int32) (ht : Valid t) :
    Valid (s ++ toString n ++ t) :=
  (hs.append (valid_toString n)).append ht

theorem utf8_string {s : Bytes} (hs : Valid s) : (Json.string s).utf8 = true := decide_eq_true hs

theorem utf8_obj {fields : List (String × Json)}
    (h : ∀ f ∈ fields, Valid (ascii f.1) ∧ f.2.utf8 = true) : (obj fields).utf8 = true :=
  Json.every_obj fun f hf => ⟨decide_eq_true (h f hf).1, (h f hf).2⟩

theorem utf8_set {key : Bytes} {value j : Json} (hkey : Valid key) (hvalue : value.utf8 = true)
    (hj : j.utf8 = true) : (j.set key value).utf8 = true :=
  Json.every_set (decide_eq_true hkey) hvalue hj

theorem utf8_errorResponse {message : Bytes} (h : Valid message) :
    (errorResponse message).utf8 = true := by
  refine utf8_obj ?_
  simp +decide [utf8_string h]

theorem utf8_succeed {action : String} {j : Json} (haction : Valid (ascii action))
    (hj : j.utf8 = true) : (succeed action j).utf8 = true :=
  utf8_set (by decide) (utf8_string haction) (utf8_set (by decide) (utf8_string (by decide)) hj)

/-! ## What a payload is read as -/

/-- The text of the client in a command is UTF-8. -/
def Command.Legible : Command → Prop
  | .chat _ message => Valid message
  | _ => True

/-- The text of a request is UTF-8. -/
def Request.Legible : Request → Prop
  | .refused message => Valid message
  | .command c => c.Legible
  | _ => True

theorem legible_check {α : Type} {r : Except Bytes α} {next : α → Request}
    (herr : ∀ err, r = .error err → Valid err) (hnext : ∀ a, r = .ok a → (next a).Legible) :
    (Request.check r next).Legible := by
  cases r with
  | error err => exact herr err rfl
  | ok a => exact hnext a rfl

theorem valid_requireField {α : Type} {what key : String} {get : Json → Option α} {j : Json}
    {err : Bytes} (hwhat : Valid (ascii what)) (hkey : Valid (ascii key))
    (h : requireField what get j key = .error err) : Valid err := by
  unfold requireField at h
  split at h
  · cases h
    have hfront : Valid (ascii "missing required field: '") := by decide
    exact (hfront.append hkey).append (by decide)
  · split at h
    · cases h
      have hfront : Valid (ascii "field '") := by decide
      have hmiddle : Valid (ascii "' must be ") := by decide
      exact ((hfront.append hkey).append hmiddle).append hwhat
    · cases h

theorem valid_requireInt {j : Json} {key : String} {err : Bytes} (hkey : Valid (ascii key))
    (h : requireInt j key = .error err) : Valid err :=
  valid_requireField (by decide) hkey h

/-- A string that was parsed is UTF-8. -/
theorem valid_of_field {req : Json} (hreq : req.utf8 = true) {key s : Bytes}
    (h : (req.field? key).bind getString = some s) : Valid s := by
  obtain ⟨v, hv, hs⟩ := Option.bind_eq_some_iff.mp h
  have hutf8 : v.utf8 = true := Json.every_of_field? hreq hv
  cases v with
  | string t =>
    cases hs
    exact of_decide_eq_true hutf8
  | _ => cases hs

theorem valid_of_requireString {req : Json} (hreq : req.utf8 = true) {key : String} {s : Bytes}
    (h : requireString req key = .ok s) : Valid s :=
  valid_of_field hreq (field_of_requireString h)

theorem legible_ofAction {req : Json} (hreq : req.utf8 = true) (a : Action) :
    (Request.ofAction req a).Legible := by
  have hint : ∀ {key : String} {next : Int32 → Request}, Valid (ascii key) →
      (∀ n, (next n).Legible) → (Request.check (requireInt req key) next).Legible :=
    fun hkey hnext => legible_check (fun _ => valid_requireInt hkey) fun n _ => hnext n
  have hid : Valid (ascii "player_id") := by decide
  cases a with
  | join => exact hint hid fun _ => trivial
  | leave => exact hint hid fun _ => trivial
  | move =>
    exact hint hid fun _ => hint (by decide) fun _ => hint (by decide) fun _ => trivial
  | attack => exact hint hid fun _ => hint (by decide) fun _ => trivial
  | chat =>
    refine hint hid fun _ => legible_check (fun _ h => valid_requireField (by decide) (by decide) h)
      fun message hmessage => ?_
    split
    · exact (by decide : Valid (ascii "message cannot be empty"))
    split
    · exact valid_around (by decide) _ (by decide)
    · exact valid_of_requireString hreq hmessage
  | updateScore =>
    refine hint hid fun _ => hint (by decide) fun score => ?_
    split
    · exact (by decide : Valid (ascii "score cannot be negative"))
    · trivial
  | getState => trivial
  | getMetrics => trivial

/-- **Whatever the payload, the text that is read from it is UTF-8.**  The parser accepts no string
that is not, and the numerals and the names of the fields are ASCII. -/
theorem legible_decode (rawJson : Bytes) : (Request.decode rawJson).Legible := by
  unfold Request.decode
  cases hparse : Parser.parse rawJson with
  | none => exact (by decide : Valid (ascii "invalid JSON"))
  | some req =>
    have hreq : req.utf8 = true := Json.utf8_of_sound (Parser.parse_sound hparse)
    simp only
    cases haction : (req.field? (ascii "action")).bind getString with
    | none => exact (by decide : Valid (ascii "missing action"))
    | some action =>
      simp only
      cases Action.ofName? action with
      | none =>
        have hfront : Valid (ascii "unknown action: ") := by decide
        exact hfront.append (valid_of_field hreq haction)
      | some a => exact legible_ofAction hreq a

/-! ## What the server says -/

@[simp] theorem utf8_int (n : Int32) : (int n).utf8 = true := rfl

@[simp] theorem utf8_integer (n : Int) : (Json.integer n).utf8 = true := rfl

@[simp] theorem utf8_float (t : Bytes) : (Json.float t).utf8 = true := rfl

theorem valid_digits (n : Nat) : Valid (digits n) := Utf8.valid_decimal (.ofNat n)

/-! ### Data of events -/

theorem valid_moveData (x y : Int32) : Valid (moveData x y) := by
  have hx := valid_around (s := ascii "\x7b\"x\":") (by decide) x (t := ascii ",\"y\":") (by decide)
  exact (hx.append (valid_toString y)).append (by decide)

theorem valid_attackData (targetId damage : Int32) (eliminated : Bool) :
    Valid (attackData targetId damage eliminated) := by
  have htarget := valid_around (s := ascii "\x7b\"target_id\":") (by decide) targetId
    (t := ascii ",\"damage\":") (by decide)
  have hdamage := htarget.append (valid_toString damage)
  unfold attackData
  cases eliminated with
  | false => exact ((hdamage.append (by decide)).append (by decide)).append (by decide)
  | true => exact ((hdamage.append (by decide)).append (by decide)).append (by decide)

theorem valid_chatData (message : Bytes) : Valid (chatData message) := by
  have hfront : Valid (ascii "\x7b\"len\":") := by decide
  exact (hfront.append (valid_digits _)).append (by decide)

/-! ### Responses -/

theorem utf8_joinResponse (playerId : Int32) : (joinResponse playerId).utf8 = true := by
  have hmessage := utf8_string (valid_around (s := ascii "Player ") (by decide) playerId
    (t := ascii " joined the game") (by decide))
  rw [List.append_assoc] at hmessage
  refine utf8_obj ?_
  simp +decide [hmessage]

theorem utf8_leaveResponse (playerId finalScore : Int32) :
    (leaveResponse playerId finalScore).utf8 = true := by
  have hmessage := utf8_string (valid_around (s := ascii "Player ") (by decide) playerId
    (t := ascii " left the game") (by decide))
  rw [List.append_assoc] at hmessage
  refine utf8_obj ?_
  simp +decide [hmessage]

theorem utf8_attackResponse (playerId targetId : Int32) (result : AttackResult) :
    (attackResponse playerId targetId result).utf8 = true := by
  unfold attackResponse
  simp only
  split
  · exact utf8_set (by decide) rfl (utf8_obj (by simp +decide))
  · exact utf8_obj (by simp +decide)

/-- **A command that succeeds**: the data of its event and its response.  They are put together from
numerals, texts of the server's own and, for `CHAT`, the message. -/
theorem Command.legible_outcome {c : Command} (hc : c.Legible) {x : c.call.Ans} {data : Bytes}
    {r : Json} (h : c.outcome x = .ok (data, r)) : Valid data ∧ r.utf8 = true := by
  cases c with
  | join playerId =>
    obtain ⟨_, -, heq⟩ := map_eq_ok h
    cases heq
    exact ⟨by decide, utf8_joinResponse playerId⟩
  | move playerId x' y' =>
    obtain ⟨_, -, heq⟩ := map_eq_ok h
    cases heq
    exact ⟨valid_moveData _ _, utf8_obj (by simp +decide)⟩
  | attack playerId targetId =>
    obtain ⟨result, -, heq⟩ := map_eq_ok h
    cases heq
    exact ⟨valid_attackData _ _ _, utf8_attackResponse _ _ _⟩
  | chat playerId message =>
    rw [outcome] at h
    split at h
    · cases h
      refine ⟨valid_chatData message, utf8_obj ?_⟩
      simp +decide [utf8_string hc]
    · cases h
  | updateScore playerId score =>
    obtain ⟨_, -, heq⟩ := map_eq_ok h
    cases heq
    exact ⟨valid_around (by decide) score (by decide), utf8_obj (by simp +decide)⟩
  | leave playerId =>
    obtain ⟨finalScore, -, heq⟩ := map_eq_ok h
    cases heq
    exact ⟨valid_around (by decide) finalScore (by decide), utf8_leaveResponse _ _⟩

/-! ## What the game state says -/

theorem valid_notInGame (playerId : Int32) : Valid (GameState.notInGame playerId) :=
  valid_around (by decide) playerId (by decide)

/-- The refusals are UTF-8. -/
theorem valid_refusal {err : Bytes} (h : GameState.Refusal err) : Valid err := by
  cases h with
  | present playerId => exact valid_around (by decide) playerId (by decide)
  | absent playerId => exact valid_notInGame playerId
  | oneself => exact (by decide : Valid (ascii "cannot attack yourself"))
  | noAttacker playerId => exact valid_around (by decide) playerId (by decide)
  | noTarget playerId => exact valid_around (by decide) playerId (by decide)

/-- All events are legible. -/
def World.Legible (w : World) : Prop :=
  ∀ ev ∈ w.game.events, Valid ev.eventType ∧ Valid ev.data

theorem World.Fresh.legible {w : World} (hw : w.Fresh) : w.Legible := by
  obtain ⟨matchStart, hgame⟩ := hw
  rw [World.Legible, hgame]
  exact fun ev hev => absurd hev List.not_mem_nil

/-- What a legible world answers: refusals and snapshots are UTF-8. -/
def Heard : (c : Call) → c.Ans → Prop
  | .addPlayer _, r | .movePlayer .., r | .setScore .., r => ∀ err, r = .error err → Valid err
  | .removePlayer _, r => ∀ err, r = .error err → Valid err
  | .attackPlayer .., r => ∀ err, r = .error err → Valid err
  | .snapshot, j => j.utf8 = true
  | _, _ => True

/-- The program pushes legible events only, and returns what satisfies `Q`, as long as it hears
nothing but UTF-8. -/
def Speaks {α : Type} (Q : α → Prop) : Handler α → Prop
  | .ret a => Q a
  | .call c k => (∀ ev, c = .pushEvent ev → Valid ev.eventType ∧ Valid ev.data) ∧
    ∀ x, Heard c x → Speaks Q (k x)

section Speaks

variable {α β : Type} {Q : α → Prop} {R : β → Prop} {p : Handler α} {f : α → Handler β}

theorem Speaks.bind (hp : Speaks Q p) (hf : ∀ a, Q a → Speaks R (f a)) : Speaks R (p >>= f) := by
  induction p with
  | ret a => exact hf a hp
  | call c k ih => exact ⟨hp.1, fun x hx => ih x (hp.2 x hx)⟩

/-- A program that pushes no event. -/
theorem Speaks.of_returns (hp : p.Calls fun c => ∀ ev, c ≠ .pushEvent ev) (hQ : p.Returns Q) :
    Speaks Q p := by
  induction p with
  | ret a => exact hQ
  | call c k ih => exact ⟨fun ev hc => absurd hc (hp.1 ev), fun x _ => ih x (hp.2 x) (hQ x)⟩

theorem Speaks.of_calls (hp : p.Calls fun c => ∀ ev, c ≠ .pushEvent ev) :
    Speaks (fun _ => True) p :=
  Speaks.of_returns hp (Program.returns_of_forall (fun _ => trivial) p)

end Speaks

theorem utf8_array {items : List Json} (h : ∀ v ∈ items, v.utf8 = true) :
    (Json.array items).utf8 = true := Json.everyItem_iff.mpr h

theorem utf8_snapshot {fp : Doubles} {now : Nat → Int} {w : World} (hw : w.Legible) :
    (w.game.snapshot fp now).utf8 = true := by
  have hstatus : (Json.string w.game.matchStatusString).utf8 = true := by
    refine utf8_string ?_
    unfold GameState.matchStatusString
    split
    · decide
    · decide
    · decide
  have hplayers : ∀ v ∈ w.game.players.entries.mapIdx fun i e =>
      GameState.playerJson fp (now i) e.2, v.utf8 = true := by
    intro v hv
    obtain ⟨i, hi, rfl⟩ := List.mem_mapIdx.mp hv
    exact utf8_obj (by simp +decide)
  have hevents : ∀ v ∈ (w.game.recentEvents 5).map GameState.eventJson, v.utf8 = true := by
    intro v hv
    obtain ⟨ev, hev, rfl⟩ := List.mem_map.mp hv
    obtain ⟨htype, hdata⟩ := hw ev (List.mem_of_mem_drop hev)
    refine utf8_obj ?_
    simp +decide [utf8_string htype, utf8_string hdata]
  refine utf8_obj ?_
  simp +decide [hstatus, utf8_array hplayers, utf8_array hevents]

theorem attempt_error {α : Type} {w : World} {r : Except Bytes (α × GameState)} {err : Bytes}
    (h : (w.attempt r).1 = .error err) : r = .error err := by
  cases r with
  | error err' => exact congrArg Except.error (Except.error.inj h)
  | ok a => cases h

theorem attemptUnit_error {w : World} {r : Except Bytes GameState} {err : Bytes}
    (h : (w.attemptUnit r).1 = .error err) : r = .error err :=
  map_eq_error (attempt_error h)

/-- **A legible world tells nothing but UTF-8.**  A refusal is one of three texts with a numeral in
it, and a snapshot repeats events that are legible. -/
theorem heard_exec (fp : Doubles) (c : Call) (e : Env) {w : World} (hw : w.Legible) :
    Heard c (c.exec fp e w).1 := by
  cases c with
  | addPlayer =>
    exact fun err h => valid_refusal (GameState.addPlayer_refusal (attemptUnit_error h))
  | removePlayer =>
    exact fun err h => valid_refusal (GameState.removePlayer_refusal (attempt_error h))
  | movePlayer =>
    exact fun err h => valid_refusal (GameState.modifyPlayer_refusal (attemptUnit_error h))
  | setScore =>
    exact fun err h => valid_refusal (GameState.modifyPlayer_refusal (attemptUnit_error h))
  | attackPlayer =>
    exact fun err h => valid_refusal (GameState.attackPlayer_refusal (attempt_error h))
  | snapshot => exact utf8_snapshot hw
  | _ => trivial

/-! ## The world stays legible -/

/-- Only `pushEvent` touches the log. -/
theorem events_exec (fp : Doubles) {c : Call} (hc : ∀ ev, c ≠ .pushEvent ev) (e : Env) (w : World) :
    (c.exec fp e w).2.game.events = w.game.events := by
  have hunlogged : c.Unlogged → (c.exec fp e w).2.game.events = w.game.events := fun h =>
    congrArg Prod.fst (Call.exec_unlogged fp h e w)
  cases c with
  | fetchAddEventId => rfl
  | pushEvent ev => exact absurd rfl (hc ev)
  | _ => exact hunlogged trivial

theorem World.Legible.exec {w : World} (hw : w.Legible) (fp : Doubles) {c : Call}
    (hc : ∀ ev, c = .pushEvent ev → Valid ev.eventType ∧ Valid ev.data) (e : Env) :
    (c.exec fp e w).2.Legible := by
  by_cases hpush : ∃ ev, c = .pushEvent ev
  · obtain ⟨ev, rfl⟩ := hpush
    intro a ha
    have hmem : a ∈ w.game.events ++ [ev] := by
      change a ∈ (w.game.pushEvent ev).events at ha
      unfold GameState.pushEvent at ha
      simp only at ha
      split at ha
      · exact List.mem_of_mem_tail ha
      · exact ha
    rcases List.mem_append.mp hmem with ha | ha
    · exact hw a ha
    · rw [List.mem_singleton.mp ha]
      exact hc ev rfl
  · intro a ha
    rw [events_exec fp fun ev h => hpush ⟨ev, h⟩] at ha
    exact hw a ha

theorem Speaks.runs {α : Type} {Q : α → Prop} {fp : Doubles} {p : Handler α} {w w' : World} {a : α}
    (hp : Speaks Q p) (hw : w.Legible) (h : Runs (Call.exec fp) p w a w') : Q a ∧ w'.Legible := by
  induction p generalizing w with
  | ret b =>
    obtain ⟨rfl, rfl⟩ := Program.runs_ret.mp h
    exact ⟨hp, hw⟩
  | call c k ih =>
    obtain ⟨e, hrest⟩ := Program.runs_call.mp h
    exact ih _ (hp.2 _ (heard_exec fp c e hw)) (hw.exec fp hp.1 e) hrest

/-! ## Every response -/

section Responses

variable (cfg : Config) (fp : Doubles)

theorem valid_name (a : Action) : Valid (ascii a.name) := by
  cases a with
  | _ => decide

theorem finish_speaks {c : Command} (hc : c.Legible) {x : c.call.Ans} (hx : Heard c.call x) :
    Speaks (fun j => j.utf8 = true) (c.finish cfg x (c.outcome x)) := by
  cases hout : c.outcome x with
  | error err =>
    refine utf8_errorResponse ?_
    cases c with
    | join | move | attack | updateScore | leave => exact hx err (map_eq_error hout)
    | chat playerId message =>
      rw [Command.outcome] at hout
      split at hout
      · cases hout
      · cases hout
        exact valid_notInGame playerId
  | ok out =>
    obtain ⟨hdata, hresponse⟩ := Command.legible_outcome hc hout
    have heffects := Speaks.of_calls (c.effects_calls (P := fun c => ∀ ev, c ≠ .pushEvent ev)
      (fun c hquiet _ ev hev => by rw [hev] at hquiet; exact hquiet) cfg x)
    refine heffects.bind fun _ _ => ?_
    refine ⟨fun ev h => (by cases h), fun eventId _ => ⟨fun ev h => (by cases h),
      fun timestamp _ => ⟨fun ev h => ?_, fun _ _ => hresponse⟩⟩⟩
    cases h
    exact ⟨valid_name c.action, hdata⟩

theorem stateResponse_speaks :
    Speaks (fun r => ∀ j, r = .ok j → j.utf8 = true) stateResponse := by
  refine ⟨fun ev h => (by cases h), fun snap hsnap j hj => ?_⟩
  cases hj
  exact utf8_succeed (by decide) hsnap

theorem orInternalError_speaks {r : Except Unit Json} (h : ∀ j, r = .ok j → j.utf8 = true) :
    Speaks (fun j => j.utf8 = true) (orInternalError r) := by
  cases r with
  | error err => exact utf8_errorResponse (by decide)
  | ok j => exact h j rfl

/-- The metrics are numbers. -/
theorem toJson_returns : (MetricsRegistry.toJson fp).Returns fun j => j.utf8 = true := by
  intro total count sum activePlayers successful failed hits misses operations
  refine utf8_obj ?_
  simp +decide

/-- **Whatever is asked, the response is UTF-8.**  The events that are pushed on the way are legible
as well, so the world stays so. -/
theorem serve_speaks {q : Request} (hq : q.Legible) :
    Speaks (fun j => j.utf8 = true) (q.serve cfg fp) := by
  cases q with
  | refused message => exact utf8_errorResponse hq
  | command c =>
    refine ⟨fun ev h => ?_, fun x hx => finish_speaks cfg hq hx⟩
    cases c with
    | _ => cases h
  | getMetrics =>
    refine (Speaks.of_returns (toJson_calls (P := fun c => ∀ ev, c ≠ .pushEvent ev)
      (fun _ _ h => by cases h) (fun _ h => by cases h) (fun _ h => by cases h) fp)
      (toJson_returns fp)).bind fun j hj => ?_
    exact utf8_succeed (by decide) hj
  | getState playerId =>
    cases playerId with
    | none => exact stateResponse_speaks.bind fun r => orInternalError_speaks
    | some playerId =>
      refine ⟨fun ev h => (by cases h), fun present _ => ?_⟩
      have hhandler : Speaks (fun r => ∀ j, r = .ok j → j.utf8 = true)
          (Request.stateHandler cfg playerId present) := by
        cases present with
        | false =>
          intro j hj
          cases hj
          exact utf8_errorResponse (valid_notInGame playerId)
        | true =>
          rw [Request.stateHandler]
          split
          · refine Speaks.bind (Q := fun _ => True) ⟨fun ev h => (by cases h), fun reply _ => ?_⟩
              fun session _ => ?_
            · exact Speaks.of_calls (readSession_calls (fun _ h => by cases h)
                (fun _ h => by cases h) reply)
            · cases session with
              | error err => exact fun j hj => by cases hj
              | ok session => exact stateResponse_speaks
          · exact stateResponse_speaks
      exact hhandler.bind fun r => orInternalError_speaks

theorem reply_speaks (rawJson : Bytes) :
    Speaks (fun j => j.utf8 = true) (reply cfg fp rawJson) := by
  have hanswer : Speaks (fun j => j.utf8 = true) (answer cfg fp rawJson) := by
    rw [Request.answer_eq]
    refine ⟨fun ev h => (by cases h), fun _ _ =>
      (serve_speaks cfg fp (legible_decode rawJson)).bind fun j hj =>
        ⟨fun ev h => (by cases h), fun _ _ => hj⟩⟩
  refine ⟨fun ev h => (by cases h), fun _ _ => hanswer.bind fun j hj =>
    ⟨fun ev h => (by cases h), fun _ _ => ?_⟩⟩
  exact (Speaks.of_calls (recordRequestLatency_calls (P := fun c => ∀ ev, c ≠ .pushEvent ev)
    (fun _ _ h => by cases h) (fun _ _ h => by cases h) _)).bind fun _ _ => hj

end Responses

/-! ## In every interleaving -/

/-- **Reachable worlds are legible.**  The world that a server starts with has no events, and every
program that it runs speaks. -/
theorem legible_of_reachable {cfg : Config} {fp : Doubles} {w : World} (hw : w.Legible)
    {x : Interleaving.Config Call Call.Ans Bytes Json World}
    (hx : Interleaving.Reachable (reply cfg fp) (Call.exec fp) w x) :
    x.shared.Legible ∧ ∀ id p, x.inflight id = some p → Speaks (fun j => j.utf8 = true) p := by
  induction hx with
  | refl => exact ⟨hw, fun _ _ hp => by cases hp⟩
  | tail _ hstep ih =>
    obtain ⟨hshared, hspeaks⟩ := ih
    cases hstep with
    | invoke id q _ =>
      refine ⟨hshared, fun i p hp => ?_⟩
      rcases Interleaving.update_some_cases hp with ⟨-, hv⟩ | ⟨-, hp⟩
      · cases hv
        exact reply_speaks cfg fp q
      · exact hspeaks i p hp
    | call id c k e running =>
      obtain ⟨hpush, hrest⟩ := hspeaks id _ running
      refine ⟨hshared.exec fp hpush e, fun i p hp => ?_⟩
      rcases Interleaving.update_some_cases hp with ⟨-, hv⟩ | ⟨-, hp⟩
      · cases hv
        exact hrest _ (heard_exec fp c e hshared)
      · exact hspeaks i p hp
    | respond id r _ =>
      refine ⟨hshared, fun i p hp => ?_⟩
      rcases Interleaving.update_some_cases hp with ⟨-, hv⟩ | ⟨-, hp⟩
      · cases hv
      · exact hspeaks i p hp

end MultiPlayerGame
