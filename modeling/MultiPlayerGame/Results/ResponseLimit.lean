import MultiPlayerGame.Json.RoundTrip
import MultiPlayerGame.Results.Conversations
import MultiPlayerGame.Server.Snapshots
import MultiPlayerGame.Server.ResponseSizes

/-!
# Does every response fit into a message?

The protocol allows messages of at most 1 MiB in both directions, and both decoders reject what is
longer.  `MessageFramer::encode`, which frames the responses, does not look at their length.  Two
kinds of responses can be too long.  The error for an unknown action repeats the action, which may
fill the request, with 47 bytes around it and its special characters escaped.  And the answer to
`GET_STATE` has an entry for every player, and nothing bounds the number of players.

`response_fits_iff`: the response fits if and only if the payload and the state are not of these
kinds (`Fits`).  Whatever else is asked, the response has at most 16384 bytes (`Short`).

## Why it holds

All other responses are short because there is nothing long in them: their texts are the server's
own, their numbers have 32 or 64 bits, and the one text of a client that comes back, a chat message,
has been checked.  So for these the answer is yes without looking at the state.

For the two kinds that are left the length is computed.  The error for an unknown action has the
action with its special characters escaped in it.  A snapshot is as long as its entries are together
(`stateLength`), and this depends on the clock through the digits of the durations.  The condition
therefore says that the snapshot fits whatever the clock shows, and the other direction makes a run
in which the clock shows what is needed (`exists_showing`).
-/

namespace MultiPlayerGame
namespace ResponseLimit

open Bytes (ascii)
open Json (escapedLength)
open MessageFramer (maxMessageSize)
open Program (Runs)
open RequestHandler

/-- No unknown action is so long that the error does not fit, and no state that is asked for is so
large that its snapshot does not, whatever the clock shows. -/
structure Fits (fp : Doubles) (g : GameState) (rawJson : Bytes) : Prop where
  unknown : ∀ action ∈ Request.unknown? rawJson,
    escapedLength action + 47 ≤ maxMessageSize.toNat
  state : ∀ playerId, Request.decode rawJson = .getState playerId →
    (∀ p ∈ playerId, p ∈ g.players) → ∀ now, stateLength fp now g ≤ maxMessageSize.toNat

variable {cfg : Config} {fp : Doubles} {w w' : World} {rawJson : Bytes}

theorem maxMessageSize_toNat : maxMessageSize.toNat = 1048576 := rfl

theorem length_of_short {j : Json} (h : Short j) : j.text.length ≤ maxMessageSize.toNat :=
  Nat.le_trans h (by decide)

theorem length_unknown (action : Bytes) :
    (errorResponse (ascii "unknown action: " ++ action)).text.length =
      escapedLength action + 47 := by
  have hfront : escapedLength (ascii "unknown action: ") = 16 := by decide
  rw [length_errorResponse, Json.escapedLength_append, hfront]
  omega

/-- **One request.**  The counters matter to `GET_METRICS` only.  For those requests whose answers
have a length that matters, the length is computed, and the others are short. -/
theorem length_le_of_fits (hlength : rawJson.length < 2 ^ 31) (hfits : Fits fp w.game rawJson)
    (hcounters : Request.decode rawJson = .getMetrics → ∀ c, w.metrics.counters c < 2 ^ 64)
    {r : Json} (h : Runs (Call.exec fp) (reply cfg fp rawJson) w r w') :
    r.text.length ≤ maxMessageSize.toNat := by
  have h' : Runs (Call.execVia fp id) (reply cfg fp rawJson) w r w' := h
  obtain ⟨w₁, hserve, -⟩ := reply_serves h'
  rcases decode_cases hlength with ⟨-, hmodest⟩ | ⟨action, hunknown, hdecode⟩
  · cases hq : Request.decode rawJson with
    | refused message =>
      rw [hq] at hserve hmodest
      obtain ⟨rfl, -⟩ := Program.runs_ret.mp hserve
      exact length_of_short (short_errorResponse hmodest)
    | command c =>
      rw [hq] at hserve hmodest
      rcases handler_runs hserve with ⟨e, err, happly, rfl, -⟩ |
        ⟨e, data, g, x, w₂, timestamp, happly, -⟩
      · exact length_of_short (short_errorResponse (c.length_of_apply happly))
      · exact length_of_short (Command.short_of_apply hmodest happly)
    | getState playerId =>
      rw [hq] at hserve
      rcases (getState_runs hserve).2.2 with ⟨p, -, -, rfl⟩ | ⟨p, -, -, -, rfl⟩ |
        ⟨hpresent, e, rfl⟩
      · exact length_of_short (short_errorResponse (length_notInGame_le p))
      · have hinternal : (ascii "internal server error").length ≤ 100 := by decide
        exact length_of_short (short_errorResponse hinternal)
      · rw [length_state]
        exact hfits.state playerId hq hpresent e.now
    | getMetrics =>
      rw [hq] at hserve
      obtain ⟨m, w₂, hjson, hreturn⟩ := Program.runs_bind.mp hserve
      obtain ⟨rfl, -⟩ := Program.runs_ret.mp hreturn
      refine length_of_short (short_of_toJson (fun c => ?_) hjson)
      have hc := hcounters hq c
      have htotal := hcounters hq .requestsTotal
      simp only [MetricsRegistry.fetchAdd]
      split
      · omega
      · omega
  · rw [hdecode] at hserve
    obtain ⟨rfl, -⟩ := Program.runs_ret.mp hserve
    rw [length_unknown]
    exact hfits.unknown action hunknown

/-- The clock shows `now` throughout, and nothing comes from the network. -/
def showing (now : Nat → Int) (_ : Unit) : Env := { now }

/-- Whatever the clock shows, there is a run in which it does. -/
theorem exists_showing (cfg : Config) (fp : Doubles) (w : World) (rawJson : Bytes)
    (now : Nat → Int) : ∃ r w', Runs (Call.exec fp) (reply cfg fp rawJson) w r w' ∧
      ∀ playerId, Request.decode rawJson = .getState playerId →
        (∀ p ∈ playerId, p ∈ w.game.players) →
        r = succeed "GET_STATE" (w.game.snapshot fp now) := by
  obtain ⟨r, w', hrun⟩ :=
    Program.exists_runs (Call.execVia fp (showing now)) (reply cfg fp rawJson) w
  refine ⟨r, w', hrun.mono fun c e w => ⟨showing now e, rfl⟩, fun playerId hdecode hpresent => ?_⟩
  obtain ⟨w₁, hserve, -⟩ := reply_serves hrun
  rw [hdecode] at hserve
  rcases (getState_runs hserve).2.2 with ⟨p, rfl, habsent, -⟩ | ⟨p, -, -, hbad, -⟩ | ⟨-, e, rfl⟩
  · exact absurd (hpresent p rfl) habsent
  · exact absurd hbad (readable_of_sends fun _ => rfl)
  · rfl

/-- A payload that is always answered with a response that fits is of neither kind. -/
theorem fits_of_length_le
    (h : ∀ r w', Runs (Call.exec fp) (reply cfg fp rawJson) w r w' →
      r.text.length ≤ maxMessageSize.toNat) (hlength : rawJson.length < 2 ^ 31) :
    Fits fp w.game rawJson := by
  refine ⟨fun action haction => ?_, fun playerId hdecode hpresent now => ?_⟩
  · obtain ⟨r, w', hrun⟩ := Program.exists_runs (Call.exec fp) (reply cfg fp rawJson) w
    have hle := h r w' hrun
    have h' : Runs (Call.execVia fp id) (reply cfg fp rawJson) w r w' := hrun
    obtain ⟨w₁, hserve, -⟩ := reply_serves h'
    rcases decode_cases hlength with ⟨hnone, -⟩ | ⟨action', hsome, hdecode⟩
    · rw [hnone] at haction
      cases haction
    · rw [hsome] at haction
      cases haction
      rw [hdecode] at hserve
      obtain ⟨rfl, -⟩ := Program.runs_ret.mp hserve
      rwa [length_unknown] at hle
  · obtain ⟨r, w', hrun, hshows⟩ := exists_showing cfg fp w rawJson now
    have hle := h r w' hrun
    rwa [hshows playerId hdecode hpresent, length_state] at hle

/-! ## The text of the response -/

/-- What `handle` returns is the text of the response. -/
theorem reply_of_handle {response : Bytes}
    (h : Runs (Call.exec fp) (handle cfg fp rawJson) w (some response) w') :
    ∃ r, Runs (Call.exec fp) (reply cfg fp rawJson) w r w' ∧ r.text = response := by
  obtain ⟨r, w₁, hreply, hdump⟩ := Program.runs_bind.mp h
  obtain ⟨heq, rfl⟩ := Program.runs_ret.mp hdump
  refine ⟨r, hreply, ?_⟩
  rw [Json.dump] at heq
  split at heq
  · exact (Option.some.inj heq).symm
  · cases heq

theorem handle_of_reply (hw : w.Legible) {r : Json}
    (h : Runs (Call.exec fp) (reply cfg fp rawJson) w r w') :
    Runs (Call.exec fp) (handle cfg fp rawJson) w (some r.text) w' := by
  have hutf8 := ((reply_speaks cfg fp rawJson).runs hw h).1
  exact Program.runs_bind.mpr ⟨r, w', h, Program.runs_ret.mpr
    ⟨(Json.dump_of_utf8 hutf8).symm, rfl⟩⟩

/-- **Every response to a payload fits if and only if the payload and the state are of neither
kind**, in every state that requests can lead to.  The counters, which `GET_METRICS` prints, have 64
bits. -/
theorem response_fits_iff {w₀ : World} (hfresh : w₀.Fresh)
    {x : Interleaving.Config Call Call.Ans Bytes Json World}
    (hx : Interleaving.Reachable (reply cfg fp) (Call.exec fp) w₀ x)
    (hpayload : rawJson.length ≤ maxMessageSize.toNat)
    (hcounters : Request.decode rawJson = .getMetrics →
      ∀ c, x.shared.metrics.counters c < 2 ^ 64) :
    (∀ response w', Runs (Call.exec fp) (handle cfg fp rawJson) x.shared (some response) w' →
      response.length ≤ maxMessageSize.toNat) ↔ Fits fp x.shared.game rawJson := by
  have hlegible := (legible_of_reachable hfresh.legible hx).1
  have hlength : rawJson.length < 2 ^ 31 := by
    rw [maxMessageSize_toNat] at hpayload
    omega
  constructor
  · intro h
    exact fits_of_length_le (fun r w' hrun => h r.text w' (handle_of_reply hlegible hrun)) hlength
  · intro hfits response w' h
    obtain ⟨r, hreply, rfl⟩ := reply_of_handle h
    exact length_le_of_fits hlength hfits hcounters hreply

/-- The clock does not show in a snapshot whose durations are not printed. -/
theorem stateLength_zero (now : ℕ → Int) (g : GameState) :
    stateLength .zero now g = stateLength .zero (fun _ => 0) g := rfl

/-- A request for the state after a skirmish, in which one player has moved and has been attacked
and the other has left. -/
theorem response_fits_skirmish : ∃ response w',
    Runs (Call.exec .zero) (handle ⟨false, false⟩ .zero Snapshots.statePayload)
      (leftBy ⟨false, false⟩ {} Skirmish.requests) (some response) w' ∧
    response.length ≤ maxMessageSize.toNat := by
  obtain ⟨x, hx, hshared, -⟩ := Interleaving.Reachable.of_served
    (served_repliesTo ⟨false, false⟩ {} Skirmish.requests)
  have hlegible := (legible_of_reachable World.started_fresh.legible hx).1
  obtain ⟨r, w', hreply⟩ := Program.exists_runs (Call.exec .zero)
    (reply ⟨false, false⟩ .zero Snapshots.statePayload) x.shared
  have hhandle := handle_of_reply hlegible hreply
  have hfits : Fits .zero x.shared.game Snapshots.statePayload := by
    rw [hshared]
    refine ⟨by decide +kernel, fun _ _ _ now => ?_⟩
    rw [stateLength_zero]
    decide +kernel
  have hcounters : Request.decode Snapshots.statePayload = .getMetrics →
      ∀ c, x.shared.metrics.counters c < 2 ^ 64 := fun h => by
    rw [Snapshots.decode_statePayload] at h
    cases h
  have hlength := (response_fits_iff World.started_fresh hx (by decide) hcounters).mpr hfits _ _
    hhandle
  rw [hshared] at hhandle
  exact ⟨r.text, w', hhandle, hlength⟩

/-! ## An action that is too long -/

/-- A request with nothing but an action. -/
def actionPayload (action : Bytes) : Bytes := (Json.object [(ascii "action", .string action)]).text

theorem length_actionPayload (action : Bytes) :
    (actionPayload action).length = escapedLength action + 13 := by
  have hkey : (Json.quote (ascii "action")).length = 8 := by decide
  rw [actionPayload, Json.length_object (List.cons_ne_nil _ _), Json.fieldsLength,
    List.map_singleton, List.sum_singleton, Json.fieldLength, hkey, Json.text, Json.length_quote]
  omega

theorem unknown_actionPayload {action : Bytes} (hvalid : Utf8.Valid action)
    (hname : Action.ofName? action = none) :
    Request.unknown? (actionPayload action) = some action := by
  have hkey : Utf8.Valid (ascii "action") := by decide
  have hparse : Parser.parse (actionPayload action) =
      some (.ofFields [(ascii "action", .string action)]) := by
    refine Parser.parse_text_object fun f hf => ?_
    rw [List.mem_singleton.mp hf]
    exact ⟨hkey, decide_eq_true hvalid, rfl⟩
  have hfield : ((Json.ofFields [(ascii "action", .string action)]).field? (ascii "action")).bind
      getString = some action := by
    simp [Json.ofFields, Json.setField, Json.field?, Json.findField, getString]
  simp only [Request.unknown?, hparse, hfield, hname]

/-- The names of the actions are short. -/
theorem ofName?_eq_none {action : Bytes} (h : 12 < action.length) :
    Action.ofName? action = none := by
  have hlengths : ∀ a ∈ Action.all, (ascii a.name).length ≤ 12 := by decide
  refine List.find?_eq_none.mpr fun a ha heq => ?_
  have hname := hlengths a ha
  rw [of_decide_eq_true heq] at hname
  omega

/-- Nothing in it has to be escaped. -/
theorem escapedLength_replicate (n : ℕ) : escapedLength (List.replicate n 0x41) = n := by
  induction n with
  | zero => rfl
  | succ n ih =>
    have hone : Json.escape 0x41 = [0x41] := by decide
    rw [escapedLength] at ih
    rw [escapedLength, List.replicate_succ, List.flatMap_cons, hone, List.length_append, ih]
    exact Nat.add_comm 1 n

theorem valid_replicate (n : ℕ) : Utf8.Valid (List.replicate n 0x41) :=
  Utf8.valid_of_ascii fun b hb => by
    rw [List.eq_of_mem_replicate hb]
    decide

/-- **A request of 1 MiB, and a response that is 34 bytes longer.**  The action fills the request,
and the error repeats it with more text around it than the request has. -/
theorem exists_too_long :
    ¬ ∀ (cfg : Config) (fp : Doubles) (w₀ : World)
        (x : Interleaving.Config Call Call.Ans Bytes Json World), w₀.Fresh →
        Interleaving.Reachable (reply cfg fp) (Call.exec fp) w₀ x → ∀ rawJson : Bytes,
        rawJson.length ≤ maxMessageSize.toNat → ∀ response w',
        Runs (Call.exec fp) (handle cfg fp rawJson) x.shared (some response) w' →
        response.length ≤ maxMessageSize.toNat := by
  intro h
  have hlegible : World.started.Legible := World.started_fresh.legible
  obtain ⟨n, hn⟩ : ∃ n : ℕ, n = 1048563 := ⟨_, rfl⟩
  have hlength : (actionPayload (List.replicate n 0x41)).length = maxMessageSize.toNat := by
    rw [length_actionPayload, escapedLength_replicate, hn]
    rfl
  have hname : Action.ofName? (List.replicate n 0x41) = none :=
    ofName?_eq_none (by rw [List.length_replicate]; omega)
  have hall := h ⟨false, false⟩ .zero .started _ World.started_fresh Relation.ReflTransGen.refl
    (actionPayload (List.replicate n 0x41)) hlength.le
  have hfits : Fits .zero World.started.game (actionPayload (List.replicate n 0x41)) := by
    refine fits_of_length_le (fun r w' hrun => hall r.text w' (handle_of_reply hlegible hrun)) ?_
    rw [hlength]
    decide
  have htoo := hfits.unknown _ (unknown_actionPayload (valid_replicate n) hname)
  rw [escapedLength_replicate, maxMessageSize_toNat] at htoo
  omega

end ResponseLimit
end MultiPlayerGame
