import MultiPlayerGame.Results.Responses
import MultiPlayerGame.Simulator.Simulator

/-!
# When a bot records what its script notes

The scripts of `Simulator.Simulator` know nothing of sockets.  A script makes its requests, gets a
response to each of them and notes whether it says `ok`.  `PlayerBot::run` does the same only as
long as nothing goes wrong on the way, and there is a lot that may go wrong.  It records a failed
`CONNECT` and nothing else if it cannot connect.  It records a failure, and goes on, if a `send` or
a `recv` fails; and it does the same if the response has more than 1 MiB, with the response unread
in the socket, so that the next exchange finds the wrong bytes.

## The condition

`Exchanged` says of one exchange that none of this happened: the request has been written, the frame
of the response has arrived in some pieces, no `recv` has failed, and the response fits.  `Carries`
says so of all exchanges of a bot.  It is a condition on the connection and on the length of the
responses, and on nothing that the bot does.

## What follows

Before an exchange the bot has read everything that was sent to it (`Ready`).  With `Exchanged` it
has again read everything after it, and has recorded what the response says (`exchange_result`).  By
induction `PlayerBot::run` records the results of its script, one by one and in their order,
whatever the responses are (`run_refines_script`).  `exists_metrics` says this of the exchanges
themselves, and is how the results about scripts become results about `PlayerBot::run`.
-/

namespace MultiPlayerGame
namespace Wire

open Bytes (ascii)
open MessageFramer (encode writeAll maxMessageSize)
open PlayerBot (sendAll succeeded exchangeAll Exchanges)
open Responses (Exchange Ready)
open Sessions (Follows)
open RequestHandler

/-! ## One exchange -/

/-- A request is written, and the answer to it arrives in some pieces; it is one that fits. -/
structure Exchanged (e : Bytes × Json) (net : Network) : Prop where
  written : writeAll (encode e.1).length net.sends = true
  answer_flatten : net.answer.flatten = encode e.2.text
  answer_nonempty : [] ∉ net.answer
  fits : e.2.text.length ≤ maxMessageSize.toNat

/-- A request with the network that carries it. -/
def carried (request : Bytes × Bytes) (net : Network) : Bytes × Bytes × Network :=
  (request.1, request.2, net)

/-- The result that a metric is about.  The latency is left out, for the script does not know of
any. -/
def result (m : RequestMetric) : Bytes × Bool := (m.action, m.success)

/-- **One exchange**, from a bot that has read everything to one that has.  The answer arrives
behind nothing else, so what the bot reads is this answer. -/
theorem exchange_result {bot : PlayerBot} (hbot : Ready bot) (action : Bytes)
    {jsonPayload : Bytes} {r : Json} {net : Network} (h : Exchanged (jsonPayload, r) net) :
    ∃ bot' m, bot.sendAndReceive action jsonPayload net = some (m.success, bot') ∧ Ready bot' ∧
      bot'.localMetrics = bot.localMetrics ++ [m] ∧ result m = (action, succeeded r.text) := by
  have hshort : r.text.length < 2 ^ 32 := Nat.lt_of_le_of_lt h.fits (by decide)
  let x : Exchange := ⟨action, jsonPayload, r.text, net, hshort, h.written, h.answer_flatten,
    h.answer_nonempty⟩
  obtain ⟨stream, m, hexchange, hno, ⟨haction, hsuccess⟩, hread, -⟩ :=
    Responses.exchange_ready hbot x
  refine ⟨_, m, hexchange, ⟨hbot.connected, hno, hread h.fits⟩, rfl, ?_⟩
  have hgood : m.success = true ↔ succeeded r.text = true :=
    hsuccess.trans ((and_iff_right h.fits).trans (Responses.succeeded_iff r.text).symm)
  exact Prod.ext haction (Bool.eq_iff_iff.mpr hgood)

/-! ## All exchanges of a bot -/

/-- **All exchanges of a script.**  By induction on the exchanges, one metric for each. -/
theorem sendAll_results {requests : List (Bytes × Bytes)} {past : List (Bytes × Json)}
    {results : List (Bytes × Bool)} (hfollows : Follows (exchangeAll requests) past (.ret results))
    {nets : List Network} (hnets : List.Forall₂ Exchanged past nets) {bot : PlayerBot}
    (hbot : Ready bot) : ∃ bot' ms, sendAll (List.zipWith carried requests nets) bot = some bot' ∧
      bot'.localMetrics = bot.localMetrics ++ ms ∧ ms.map result = results := by
  induction requests generalizing past results nets bot with
  | nil =>
    obtain ⟨-, heq⟩ := Follows.ret_inv hfollows
    cases heq
    exact ⟨bot, [], rfl, (List.append_nil _).symm, rfl⟩
  | cons request requests ih =>
    obtain ⟨action, jsonPayload⟩ := request
    rcases hfollows.call_inv with ⟨-, hno⟩ | ⟨r, later, rfl, hlater⟩
    · cases hno
    obtain ⟨rest, early, late, rfl, hearly, hlate⟩ := Follows.bind_inv hlater
    obtain ⟨rfl, heq⟩ := Follows.ret_inv hlate
    cases heq
    rw [List.append_nil] at hnets
    cases hnets with
    | cons hnet hnets =>
      obtain ⟨bot', m, hexchange, hbot', hmetrics, hm⟩ :=
        exchange_result hbot action hnet
      obtain ⟨bot'', ms, hsent, hmetrics', hms⟩ := ih hearly hnets hbot'
      refine ⟨bot'', m :: ms, ?_, ?_, ?_⟩
      · rw [List.zipWith_cons_cons, carried, sendAll, hexchange]
        exact hsent
      · rw [hmetrics', hmetrics, List.append_assoc, List.singleton_append]
      · rw [List.map_cons, hm, hms]

/-- **`PlayerBot::run` records the results of the script**, whatever the answers are.  The
conditions are on the sockets and on the lengths of the answers, and not on what they say. -/
theorem run_refines_script {config : SimulatorConfig} {playerId : Int32} {draws : List Draw}
    {past : List (Bytes × Json)} {results : List (Bytes × Bool)}
    (hfollows : Follows (PlayerBot.script config playerId draws) past (.ret results))
    {nets : List Network} (hnets : List.Forall₂ Exchanged past nets) (c : MetricsCollector) :
    ∃ ms, PlayerBot.run true (List.zipWith carried
        (PlayerBot.requests config playerId draws) nets) c = some (c.recordBatch ms) ∧
      ms.map result = results := by
  obtain ⟨bot', ms, hsent, hmetrics, hms⟩ := sendAll_results hfollows hnets Responses.ready_start
  have hall : bot'.localMetrics = ms := hmetrics
  exact ⟨ms, hall ▸ Responses.run_eq hsent c, hms⟩

/-- The connection of a bot carries its exchanges. -/
def Carries (exchanges : Exchanges) (nets : List Network) : Prop :=
  List.Forall₂ (fun e net => Exchanged e.2 net) exchanges nets

/-- **`PlayerBot::run` records what its exchanges say**, in the collector that it is given.  The
latencies come from the clock, and nothing is said about them. -/
theorem exists_metrics {requests : List (Bytes × Bytes)} {exchanges : Exchanges}
    (hrequests : exchanges.requests = requests) {nets : List Network}
    (h : Carries exchanges nets) :
    ∃ ms, (∀ c, PlayerBot.run true (List.zipWith carried requests nets) c =
      some (c.recordBatch ms)) ∧ ms.map result = exchanges.noted := by
  subst hrequests
  obtain ⟨bot, ms, hsent, hmetrics, hms⟩ := sendAll_results (PlayerBot.follows_noted exchanges)
    (List.forall₂_map_left_iff.mpr h) Responses.ready_start
  have hall : bot.localMetrics = ms := hmetrics
  exact ⟨ms, fun c => hall ▸ Responses.run_eq hsent c, hms⟩

/-! ## Connections that work -/

/-- One `send`, and the answer in one piece. -/
def whole (e : Bytes × Json) : Network :=
  ⟨[((encode e.1).length : Int)], [encode e.2.text], 250⟩

theorem exchanged_whole {e : Bytes × Json} (hfits : e.2.text.length ≤ maxMessageSize.toNat) :
    Exchanged e (whole e) :=
  ⟨MessageFramer.writeAll_whole _, List.append_nil _,
    fun h => Responses.encode_ne_nil _ (List.mem_singleton.mp h).symm, hfits⟩

/-- A bot whose two requests are refused. -/
theorem run_refused : ∃ nets ms, PlayerBot.run true (List.zipWith carried
      (PlayerBot.requests ⟨1, 1000⟩ 1000 []) nets) {} = some (MetricsCollector.recordBatch ms {}) ∧
    ms.map result = [(ascii "JOIN", succeeded (errorResponse []).text),
      (ascii "LEAVE", succeeded (errorResponse []).text)] := by
  let past : List (Bytes × Json) := [((PlayerBot.joinReq 1000).text, errorResponse []),
    ((PlayerBot.leaveReq 1000).text, errorResponse [])]
  have hfollows : Follows (PlayerBot.script ⟨1, 1000⟩ 1000 []) past
      (.ret [(ascii "JOIN", succeeded (errorResponse []).text),
        (ascii "LEAVE", succeeded (errorResponse []).text)]) := .cons (.cons .nil)
  have hfits : (errorResponse []).text.length ≤ maxMessageSize.toNat := by
    decide +kernel
  have hnets : List.Forall₂ Exchanged past (past.map whole) :=
    .cons (exchanged_whole hfits) (.cons (exchanged_whole hfits) .nil)
  exact ⟨_, run_refines_script hfollows hnets {}⟩

end Wire
end MultiPlayerGame
