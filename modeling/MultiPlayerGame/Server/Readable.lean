import MultiPlayerGame.Json.Canonical
import MultiPlayerGame.Library.Phases
import MultiPlayerGame.Server.Legible
import MultiPlayerGame.Simulator.PlayerBot

/-!
# Every response can be read back

What a client parses is what the server has built: the objects of a response are in order, its
strings are UTF-8 (`Server.Legible`), and so parsing its text gives the response again, if the
64-bit counters and the floating-point numbers in it are numbers of JSON.  In particular a bot finds
the status that the server has put there (`succeeded_text`).

## Why canonical values

The parser puts the fields of an object in order and lets the last of two equal keys win, so parsing
a text gives a value in a normal form.  A response is read back as itself if it is in this form
already (`Canonical`).  The handlers build every object by assignments to an empty one, and each
assignment keeps the fields in order, so what they build is canonical without looking at the keys.

## Why numbers are a condition

The counters of the metrics are natural numbers here and have 64 bits in the server, and the
averages are floating-point numbers that the server prints.  About these something has to be known:
that they are numbers of JSON (`numeric`).  The responses to commands contain no such number, and
are readable whatever the state is.
-/

namespace MultiPlayerGame

open Bytes (ascii)
open Json (obj int)
open RequestHandler

/-- **A bot finds the status of the response.**  The text parses to the response, and the bot looks
at the same field as the server. -/
theorem succeeded_text {j : Json} (hcanonical : j.Canonical) (hj : j.readable = true) :
    PlayerBot.succeeded j.text = isOk j := by
  rw [PlayerBot.succeeded, Parser.parse_text_canonical hcanonical hj]
  rfl

/-! ## Around serving a request -/

/-- Calls that are made around serving a request. -/
def Call.Around : Call → Prop
  | .clock | .fetchAdd _ | .addLatency _ => True
  | _ => False

section Around

open Program (Obeys)

variable {φ : Type} {P : Protocol Call Call.Ans φ} {final : φ → Json → Prop} {s : φ}
  {cfg : Config} {fp : Doubles}

/-- **A request is served in order** if what serves it keeps to the protocol, and what is done
around it does not matter there. -/
theorem reply_obeys_of_serve
    (haround : ∀ s c, c.Around → P.allowed s c ∧ ∀ x s', P.next s c x s' → s' = s)
    {rawJson : Bytes} (h : Obeys P final s ((Request.decode rawJson).serve cfg fp)) :
    Obeys P final s (reply cfg fp rawJson) := by
  have hlatency : ∀ s duration, (MetricsRegistry.recordRequestLatency duration).Calls fun c =>
      P.allowed s c ∧ ∀ x s', P.next s c x s' → s' = s := fun s duration =>
    recordRequestLatency_calls (fun c => haround s (.fetchAdd c) trivial)
      (fun d => haround s (.addLatency d) trivial) duration
  have hinvoke : ∀ {α : Type} {R : φ → α → Prop} {s c} {f : c.Ans → Handler α}, c.Around →
      (∀ x, Obeys P R s (f x)) → Obeys P R s (invoke c >>= f) := fun hc hf =>
    Obeys.calls_bind (invoke_calls (haround _ _ hc)) hf
  have hcounted : Obeys P final s (Request.counted ((Request.decode rawJson).serve cfg fp)) :=
    hinvoke (c := .fetchAdd .requestsTotal) trivial fun _ => h.bind fun _ r hr =>
      hinvoke (c := .fetchAdd _) trivial fun _ => hr
  unfold reply
  rw [Request.answer_eq]
  exact hinvoke trivial fun start => hcounted.bind fun _ r hr => hinvoke trivial fun finish =>
    Obeys.calls_bind (hlatency _ _) fun _ => hr

end Around

/-! ## The values that the server builds -/

theorem canonical_errorResponse (message : Bytes) : (errorResponse message).Canonical :=
  Json.canonical_obj (by simp)

theorem numeric_errorResponse (message : Bytes) : (errorResponse message).numeric = true :=
  Json.numeric_obj (by simp)

theorem canonical_succeed {action : String} {j : Json} (hj : j.Canonical) :
    (succeed action j).Canonical :=
  Json.canonical_set (by trivial) (Json.canonical_set (by trivial) hj)

theorem numeric_succeed {action : String} {j : Json} (hj : j.numeric = true) :
    (succeed action j).numeric = true :=
  Json.numeric_set rfl (Json.numeric_set rfl hj)

theorem canonical_attackResponse (playerId targetId : Int32) (result : AttackResult) :
    (attackResponse playerId targetId result).Canonical := by
  unfold attackResponse
  simp only
  split
  · exact Json.canonical_set (by trivial) (Json.canonical_obj (by simp))
  · exact Json.canonical_obj (by simp)

theorem numeric_attackResponse (playerId targetId : Int32) (result : AttackResult) :
    (attackResponse playerId targetId result).numeric = true := by
  unfold attackResponse
  simp only
  split
  · exact Json.numeric_set rfl (Json.numeric_obj (by simp))
  · exact Json.numeric_obj (by simp)

/-- The response of a command that succeeds. -/
theorem Command.isOk_outcome {c : Command} {x : c.call.Ans} {data : Bytes} {r : Json}
    (h : c.outcome x = .ok (data, r)) : isOk r = true := by
  cases c with
  | chat playerId message =>
    rw [outcome] at h
    split at h
    · cases h
      exact isOk_obj _
    · cases h
  | attack playerId targetId =>
    obtain ⟨result, -, heq⟩ := map_eq_ok h
    cases heq
    exact isOk_attackResponse _ _ _
  | join | move | updateScore | leave =>
    obtain ⟨_, -, heq⟩ := map_eq_ok h
    cases heq
    exact isOk_obj _

theorem Command.canonical_outcome {c : Command} {x : c.call.Ans} {data : Bytes} {r : Json}
    (h : c.outcome x = .ok (data, r)) : r.Canonical ∧ r.numeric = true := by
  cases c with
  | chat playerId message =>
    rw [outcome] at h
    split at h
    · cases h
      exact ⟨Json.canonical_obj (by simp), Json.numeric_obj (by simp)⟩
    · cases h
  | attack playerId targetId =>
    obtain ⟨result, -, heq⟩ := map_eq_ok h
    cases heq
    exact ⟨canonical_attackResponse _ _ _, numeric_attackResponse _ _ _⟩
  | join | move | updateScore | leave =>
    obtain ⟨_, -, heq⟩ := map_eq_ok h
    cases heq
    exact ⟨Json.canonical_obj (by simp), Json.numeric_obj (by simp)⟩

theorem readable_errorResponse {message : Bytes} (h : Utf8.Valid message) :
    (errorResponse message).readable = true :=
  Json.readable_of_utf8 (utf8_errorResponse h) (numeric_errorResponse message)

/-- A refusal is a text of the game state. -/
theorem Command.valid_outcome {c : Command} {x : c.call.Ans} (hx : Heard c.call x) {err : Bytes}
    (h : c.outcome x = .error err) : Utf8.Valid err := by
  cases c with
  | join | move | attack | updateScore | leave => exact hx err (map_eq_error h)
  | chat playerId message =>
    rw [outcome] at h
    split at h
    · cases h
    · cases h
      exact valid_notInGame playerId

/-- **What a bot makes of the response to a command**: whether the command has succeeded.  It is
`ok` if the command was carried out, and `error` if it was refused. -/
theorem Command.succeeded_response {c : Command} (hc : c.Legible) {x : c.call.Ans}
    (hx : Heard c.call x) :
    PlayerBot.succeeded (match c.outcome x with
      | .error err => errorResponse err
      | .ok (_, response) => response).text = (c.outcome x).isOk := by
  cases hout : c.outcome x with
  | error err =>
    refine (succeeded_text (canonical_errorResponse err)
      (readable_errorResponse (valid_outcome hx hout))).trans ?_
    exact Request.isOk_errorResponse err
  | ok out =>
    obtain ⟨data, r⟩ := out
    obtain ⟨hcanonical, hnumeric⟩ := canonical_outcome hout
    refine (succeeded_text hcanonical
      (Json.readable_of_utf8 (legible_outcome hc hout).2 hnumeric)).trans ?_
    exact isOk_outcome hout

theorem canonical_snapshot (fp : Doubles) (now : Nat → Int) (g : GameState) :
    (g.snapshot fp now).Canonical := by
  have hplayers : ∀ v ∈ g.players.entries.mapIdx fun i e => GameState.playerJson fp (now i) e.2,
      v.Canonical := by
    intro v hv
    obtain ⟨i, hi, rfl⟩ := List.mem_mapIdx.mp hv
    exact Json.canonical_obj (by simp)
  have hevents : ∀ v ∈ (g.recentEvents 5).map GameState.eventJson, v.Canonical := by
    intro v hv
    obtain ⟨ev, -, rfl⟩ := List.mem_map.mp hv
    exact Json.canonical_obj (by simp)
  refine Json.canonical_obj ?_
  simp [Json.canonical_array hplayers, Json.canonical_array hevents]

theorem canonical_exported (fp : Doubles) (total count : Nat) (sum : List Int)
    (activePlayers : Int32) (successful failed hits misses operations : Nat) :
    (MetricsRegistry.exported fp total count sum activePlayers successful failed hits misses
      operations).Canonical :=
  Json.canonical_obj (by simp)

/-! ## What a handler answers -/

/-- A request for numbers that are not bounded by their type in the model: 64-bit counters and
floating-point numbers. -/
def Request.Reports : Request → Prop
  | .getState _ | .getMetrics => True
  | _ => False

/-- A canonical value, with numbers of JSON only if it answers a command; or also if it answers a
request for the state, if `P`. -/
def Request.Readable (P : Prop) (q : Request) (r : Json) : Prop :=
  r.Canonical ∧ (¬ q.Reports ∨ P ∧ q ≠ .getMetrics → r.numeric = true)

theorem Request.readable_errorResponse (P : Prop) (q : Request) (message : Bytes) :
    q.Readable P (errorResponse message) :=
  ⟨canonical_errorResponse message, fun _ => numeric_errorResponse message⟩

/-- A snapshot is canonical, and if `P`, its numbers are numbers of JSON. -/
def Call.AnswersCanonical (P : Prop) : (c : Call) → c.Ans → Prop
  | .snapshot, j => j.Canonical ∧ (P → j.numeric = true)
  | _, _ => True

theorem answersCanonical_exec {P : Prop} {fp : Doubles} (c : Call) (e : Env) {w : World}
    (hw : P → (w.game.snapshot fp e.now).numeric = true) :
    c.AnswersCanonical P (c.exec fp e w).1 := by
  cases c with
  | snapshot => exact ⟨canonical_snapshot fp e.now w.game, hw⟩
  | _ => trivial

/-- A handler may do what it likes; only what a snapshot looks like is kept in mind. -/
def answering (φ : Type) (P : Prop) : Protocol Call Call.Ans φ where
  allowed _ _ := True
  next s c x s' := s' = s ∧ c.AnswersCanonical P x

section Answers

open Program (Obeys)

variable {cfg : Config} {fp : Doubles} {φ : Type} {P : Prop} {s : φ}

theorem answering_calls {α : Type} (p : Handler α) :
    p.Calls fun c => (answering φ P).allowed s c ∧
      ∀ x s', (answering φ P).next s c x s' → s' = s :=
  Program.calls_of_forall (fun _ => ⟨trivial, fun _ _ h => h.1⟩) p

theorem answering_bind {α β : Type} {final : φ → β → Prop} {f : α → Handler β}
    (p : Handler α) (hf : ∀ a, Obeys (answering φ P) final s (f a)) :
    Obeys (answering φ P) final s (p >>= f) :=
  Obeys.calls_bind (answering_calls p) hf

/-- A response of `handleGetState`. -/
def StateReadable (P : Prop) (r : Except Unit Json) : Prop :=
  ∀ j, r = .ok j → j.Canonical ∧ (P → j.numeric = true)

theorem stateResponse_obeys :
    Obeys (answering φ P) (fun s' r => s' = s ∧ StateReadable P r) s stateResponse := by
  refine ⟨trivial, fun snap s' h => ⟨h.1, fun j hj => ?_⟩⟩
  cases hj
  obtain ⟨hcanonical, hnumeric⟩ := h.2
  exact ⟨canonical_succeed hcanonical, fun hP => numeric_succeed (hnumeric hP)⟩

theorem orInternalError_obeys (playerId : Option Int32) {r : Except Unit Json}
    (h : StateReadable P r) :
    Obeys (answering φ P) (fun s' r => s' = s ∧ (Request.getState playerId).Readable P r) s
      (orInternalError r) := by
  cases r with
  | error err => exact ⟨rfl, Request.readable_errorResponse P _ _⟩
  | ok j =>
    obtain ⟨hcanonical, hnumeric⟩ := h j rfl
    exact ⟨rfl, hcanonical, fun hq =>
      hq.elim (fun hno => absurd trivial hno) fun hP => hnumeric hP.1⟩

theorem finish_obeys (c : Command) (x : c.call.Ans) :
    Obeys (answering φ P) (fun s' r => s' = s ∧ (Request.command c).Readable P r) s
      (c.finish cfg x (c.outcome x)) := by
  cases hout : c.outcome x with
  | error err => exact ⟨rfl, Request.readable_errorResponse P _ err⟩
  | ok out =>
    obtain ⟨hcanonical, hnumeric⟩ := Command.canonical_outcome hout
    refine answering_bind _ fun _ => answering_bind _ fun _ => ?_
    exact ⟨rfl, hcanonical, fun _ => hnumeric⟩

/-- **Every response is readable.**  The answers to commands are readable in any case, the others if
the numbers in them are numbers of JSON. -/
theorem serve_obeys (q : Request) :
    Obeys (answering φ P) (fun s' r => s' = s ∧ q.Readable P r) s (q.serve cfg fp) := by
  have hstate : ∀ playerId {p : Handler (Except Unit Json)},
      Obeys (answering φ P) (fun s' r => s' = s ∧ StateReadable P r) s p →
      Obeys (answering φ P) (fun s' r => s' = s ∧ (Request.getState playerId).Readable P r) s
        (p >>= orInternalError) := fun playerId p hp =>
    hp.bind fun s' r h => h.1 ▸ orInternalError_obeys playerId h.2
  cases q with
  | refused message => exact ⟨rfl, Request.readable_errorResponse P _ message⟩
  | command c =>
    refine ⟨trivial, fun x s' h => ?_⟩
    rw [h.1]
    exact finish_obeys c x
  | getMetrics =>
    have hexported : (MetricsRegistry.toJson fp).Returns Json.Canonical :=
      fun _ _ _ _ _ _ _ _ _ => canonical_exported fp _ _ _ _ _ _ _ _ _
    refine (Obeys.of_returns (answering_calls _) hexported).bind fun s' m h => ?_
    refine ⟨h.1, canonical_succeed h.2, fun hq => hq.elim (fun hno => absurd trivial hno) ?_⟩
    exact fun hno => absurd rfl hno.2
  | getState playerId =>
    cases playerId with
    | none => exact hstate none stateResponse_obeys
    | some playerId =>
      refine answering_bind (invoke (.hasPlayer playerId)) fun present => hstate _ ?_
      cases present with
      | false =>
        refine ⟨rfl, fun j hj => ?_⟩
        cases hj
        exact ⟨canonical_errorResponse _, fun _ => numeric_errorResponse _⟩
      | true =>
        rw [Request.stateHandler]
        split
        · refine answering_bind _ fun session => ?_
          cases session with
          | error err => exact ⟨rfl, fun j hj => by cases hj⟩
          | ok session => exact stateResponse_obeys
        · exact stateResponse_obeys

theorem reply_obeys (rawJson : Bytes) :
    Obeys (answering φ P) (fun s' r => s' = s ∧ (Request.decode rawJson).Readable P r) s
      (reply cfg fp rawJson) :=
  reply_obeys_of_serve (P := answering φ P) (fun _ _ _ => ⟨trivial, fun _ _ h => h.1⟩)
    (serve_obeys _)

end Answers

end MultiPlayerGame
