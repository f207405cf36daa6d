import MultiPlayerGame.Json.RoundTrip
import MultiPlayerGame.Simulator.PlayerBot

/-!
# Does a bot get the response to its own request?

The server answers each request of a bot with one frame.  `sendAndReceive` takes the whole frame out
of the stream, with one exception: a payload beyond 1 MiB is not read, and the socket stays open.
The next exchange then reads what is left of the old answer for its own.

`Answered` is what should hold of a session of any length: each exchange begins with nothing left of
earlier answers, and the metrics say of each request whether its own response was good.
`answered_iff` says when it does: at most the last response is too large.

## Why it holds

An exchange of a bot that has read everything is measured right.  It writes its request, and what
arrives next is the frame of the answer, of which it reads the header first.  If the announced
length is within the limit, the rest of the frame is read and nothing is left; if it is not, the bot
gives up and the payload stays in the stream (`exchange_ready`).  So by induction all goes well up
to the first response that is too large, and that one is noted as a failure, which it is for the
bot.

If another exchange follows, it begins with bytes of the old answer, so the condition is necessary.
What becomes of it then depends on these bytes.  `chat_misread` is one case: four bytes of the text
of a state are read as a length, and a message that was accepted counts as failed.
-/

namespace MultiPlayerGame
namespace Responses

open Bytes (ascii)
open MessageFramer (encode writeAll writeU32LE maxMessageSize encode_of_length_lt writeAll_whole)
open PlayerBot (sendAll succeeded unread)

/-- A request that is written, and a frame that answers it in some pieces. -/
structure Exchange where
  action : Bytes
  jsonPayload : Bytes
  response : Bytes
  network : Network
  short : response.length < 2 ^ 32
  written : writeAll (encode jsonPayload).length network.sends = true
  answer_flatten : network.answer.flatten = encode response
  answer_nonempty : [] ∉ network.answer

namespace Exchange

def request (x : Exchange) : Bytes × Bytes × Network := (x.action, x.jsonPayload, x.network)

/-- The response is at most 1 MiB.  This is the bound that `sendAndReceive` compares the announced
length with. -/
def Fits (x : Exchange) : Prop := x.response.length ≤ maxMessageSize.toNat

/-- The response fits, and is an object whose status is `ok`. -/
def Good (x : Exchange) : Prop :=
  x.Fits ∧ ∃ fields, Parser.parse x.response = some (.object fields) ∧
    Json.findField (ascii "status") fields = some (.string (ascii "ok"))

/-- The metric of the request says whether the response is good. -/
def Measured (x : Exchange) (m : RequestMetric) : Prop :=
  m.action = x.action ∧ (m.success = true ↔ x.Good)

end Exchange

open Exchange (Fits Good Measured)

/-- The bot hands in one metric for each request, about the response to this request; and before
each request it has read all earlier answers. -/
structure Answered (xs : List Exchange) : Prop where
  metrics : ∃ ms, (∀ c, PlayerBot.run true (xs.map (·.request)) c = some (c.recordBatch ms)) ∧
    List.Forall₂ Measured xs ms
  own : ∀ before x after, xs = before ++ x :: after →
    ∃ bot, sendAll (before.map (·.request)) {} = some bot ∧ bot.unread = []

/-! ## One exchange -/

/-- What `succeeded` looks for. -/
theorem succeeded_iff (responsePayload : Bytes) : succeeded responsePayload = true ↔
    ∃ fields, Parser.parse responsePayload = some (.object fields) ∧
      Json.findField (ascii "status") fields = some (.string (ascii "ok")) := by
  have hempty : ([] : Bytes) ≠ ascii "ok" := by decide
  rw [succeeded]
  rcases Parser.parse responsePayload with _ | resp
  · simp
  cases resp with
  | object fields =>
    rcases hfield : Json.findField (ascii "status") fields with _ | v
    · simp [Json.stringValue, Json.field?, hfield, hempty]
    · cases v with
      | string s => simp [Json.stringValue, Json.field?, hfield]
      | _ => simp [Json.stringValue, Json.field?, hfield, hempty]
  | _ => simp [Json.stringValue, Json.field?, hempty]

/-- The bot is connected and has read everything. -/
structure Ready (bot : PlayerBot) : Prop where
  connected : bot.connected = true
  stream : [] ∉ bot.stream
  unread : bot.unread = []

theorem ready_start : Ready {} := ⟨rfl, List.not_mem_nil, rfl⟩

section Step

variable {bot : PlayerBot} (hbot : Ready bot) (x : Exchange)

include hbot

theorem stream_answer : [] ∉ bot.stream ++ x.network.answer ∧
    (bot.stream ++ x.network.answer).flatten =
      writeU32LE (UInt32.ofNat x.response.length) ++ x.response := by
  refine ⟨?_, ?_⟩
  · rw [List.mem_append]
    rintro (hno | hno)
    · exact hbot.stream hno
    · exact x.answer_nonempty hno
  · have hunread : bot.stream.flatten = [] := hbot.unread
    rw [List.flatten_append, hunread, List.nil_append, x.answer_flatten,
      (encode_of_length_lt x.short).1]

/-- **An exchange of a bot that has read everything.**  It is measured right; and all of the answer
is read if it fits, and nothing but the header if it does not. -/
theorem exchange_ready : ∃ stream m,
    bot.sendAndReceive x.action x.jsonPayload x.network =
      some (m.success, { bot with stream, localMetrics := bot.localMetrics ++ [m] }) ∧
    [] ∉ stream ∧ Measured x m ∧ (x.Fits → stream.flatten = []) ∧
      (¬ x.Fits → stream.flatten = x.response) := by
  obtain ⟨hfails, hstream⟩ := stream_answer hbot x
  have hlen : (UInt32.ofNat x.response.length).toNat = x.response.length :=
    (encode_of_length_lt x.short).2
  by_cases hfits : x.Fits
  · have hsmall : ¬ maxMessageSize < UInt32.ofNat x.response.length := by
      rw [UInt32.lt_iff_toNat_lt, hlen]
      exact Nat.not_lt.mpr hfits
    have hframe : (bot.stream ++ x.network.answer).flatten =
        writeU32LE (UInt32.ofNat x.response.length) ++ (x.response ++ []) := by
      rw [hstream, List.append_nil]
    obtain ⟨stream, hno, hleft, hexchange⟩ := PlayerBot.sendAndReceive_of_frame
      hbot.connected x.written hfails hframe hsmall hlen
    refine ⟨stream, ⟨x.action, x.network.latencyMicros, succeeded x.response⟩, hexchange, hno,
      ⟨rfl, ?_⟩, fun _ => hleft, fun hno => absurd hfits hno⟩
    rw [succeeded_iff, Good]
    exact (and_iff_right hfits).symm
  · have hlarge : maxMessageSize < UInt32.ofNat x.response.length := by
      rw [UInt32.lt_iff_toNat_lt, hlen]
      exact Nat.not_le.mp hfits
    obtain ⟨stream, hno, hleft, hexchange⟩ := PlayerBot.sendAndReceive_of_large
      hbot.connected x.written hfails hstream hlarge
    refine ⟨stream, ⟨x.action, 0, false⟩, hexchange, hno, ⟨rfl, ?_⟩,
      fun hyes => absurd hyes hfits, fun _ => hleft⟩
    exact iff_of_false Bool.false_ne_true fun hgood => hfits hgood.1

end Step

/-! ## All exchanges -/

theorem sendAll_append (before after : List (Bytes × Bytes × Network)) (bot : PlayerBot) :
    sendAll (before ++ after) bot = (sendAll before bot).bind (sendAll after) := by
  induction before generalizing bot with
  | nil => rfl
  | cons request before ih =>
    obtain ⟨action, jsonPayload, net⟩ := request
    rw [List.cons_append, sendAll, sendAll]
    rcases bot.sendAndReceive action jsonPayload net with _ | ⟨ok, bot'⟩
    · rfl
    · exact ih bot'

/-- **As long as every response fits, the bot has read everything after each of them.**  By
induction on the exchanges, each of which leaves a bot that has read everything. -/
theorem sendAll_ready {xs : List Exchange} (hfits : ∀ x ∈ xs, x.Fits) {bot : PlayerBot}
    (hbot : Ready bot) : ∃ bot' ms, sendAll (xs.map (·.request)) bot = some bot' ∧ Ready bot' ∧
      bot'.localMetrics = bot.localMetrics ++ ms ∧ List.Forall₂ Measured xs ms := by
  induction xs generalizing bot with
  | nil => exact ⟨bot, [], rfl, hbot, (List.append_nil _).symm, .nil⟩
  | cons x xs ih =>
    obtain ⟨hx, hxs⟩ := List.forall_mem_cons.mp hfits
    obtain ⟨stream, m, hexchange, hno, hm, hread, -⟩ := exchange_ready hbot x
    have hready : Ready { bot with stream, localMetrics := bot.localMetrics ++ [m] } :=
      ⟨hbot.connected, hno, hread hx⟩
    obtain ⟨bot', ms, hrest, hbot', hmetrics, hms⟩ := ih hxs hready
    refine ⟨bot', m :: ms, ?_, hbot', ?_, .cons hm hms⟩
    · rw [List.map_cons, Exchange.request, sendAll, hexchange]
      exact hrest
    · rw [hmetrics, List.append_assoc, List.singleton_append]

/-- The last response may be of any length. -/
theorem sendAll_concat {xs : List Exchange} (hfits : ∀ x ∈ xs, x.Fits) (x : Exchange) :
    ∃ bot ms, sendAll ((xs ++ [x]).map (·.request)) {} = some bot ∧ bot.localMetrics = ms ∧
      List.Forall₂ Measured (xs ++ [x]) ms ∧ (¬ x.Fits → bot.unread = x.response) := by
  obtain ⟨bot, ms, hbefore, hbot, hmetrics, hms⟩ := sendAll_ready hfits ready_start
  obtain ⟨stream, m, hexchange, -, hm, -, hleft⟩ := exchange_ready hbot x
  refine ⟨{ bot with stream, localMetrics := bot.localMetrics ++ [m] }, ms ++ [m], ?_, ?_, ?_,
    hleft⟩
  · rw [List.map_append, sendAll_append, hbefore, Option.bind_some, List.map_singleton,
      Exchange.request, sendAll, hexchange]
    rfl
  · show bot.localMetrics ++ [m] = _
    rw [hmetrics]
    rfl
  · exact List.rel_append hms (.cons hm .nil)

theorem run_eq {requests : List (Bytes × Bytes × Network)} {bot : PlayerBot}
    (h : sendAll requests {} = some bot) (c : MetricsCollector) :
    PlayerBot.run true requests c = some (c.recordBatch bot.localMetrics) := by
  rw [PlayerBot.run, h]
  rfl

/-- If before each of some exchanges everything has been read, all responses before fit. -/
theorem fits_of_own {xs : List Exchange} (hown : ∀ before x after, xs = before ++ x :: after →
      ∃ bot, sendAll (before.map (·.request)) {} = some bot ∧ bot.unread = [])
    {before after : List Exchange} (h : xs = before ++ after) (hafter : after ≠ []) :
    ∀ x ∈ before, x.Fits := by
  induction before using List.reverseRecOn generalizing after with
  | nil => exact fun x hx => absurd hx List.not_mem_nil
  | append_singleton before y ih =>
    rw [List.append_assoc, List.singleton_append] at h
    have hbefore := ih h (List.cons_ne_nil _ _)
    obtain ⟨bot, ms, hall, -, -, hleft⟩ := sendAll_concat hbefore y
    have hy : y.Fits := by
      by_contra hlarge
      obtain ⟨x, after, rfl⟩ := List.exists_cons_of_ne_nil hafter
      obtain ⟨bot', hall', hunread⟩ := hown (before ++ [y]) x after (by
        rw [h, List.append_assoc, List.singleton_append])
      rw [hall] at hall'
      cases hall'
      rw [hleft hlarge] at hunread
      rw [Fits, hunread] at hlarge
      exact hlarge (Nat.zero_le _)
    intro x hx
    rcases List.mem_append.mp hx with hx | hx
    · exact hbefore x hx
    · rwa [List.mem_singleton.mp hx]

/-- **A bot gets the responses to its own requests, and measures them right, if and only if every
response but the last is at most 1 MiB.** -/
theorem answered_iff (xs : List Exchange) : Answered xs ↔ ∀ x ∈ xs.dropLast, x.Fits := by
  obtain rfl | ⟨init, last, rfl⟩ := xs.eq_nil_or_concat'
  · refine iff_of_true ⟨⟨[], fun c => rfl, .nil⟩, fun before x after h => ?_⟩ (by simp)
    exact absurd h.symm (by simp)
  rw [List.dropLast_concat]
  constructor
  · intro h
    exact fits_of_own h.own rfl (List.cons_ne_nil _ _)
  · intro hfits
    obtain ⟨bot, ms, hall, rfl, hms, -⟩ := sendAll_concat hfits last
    refine ⟨⟨bot.localMetrics, fun c => run_eq hall c, hms⟩, fun before x after h => ?_⟩
    -- what comes before an exchange is part of `init`
    have hbefore : before <+: init := by
      have hlength := congrArg List.length h
      simp only [List.length_append, List.length_cons, List.length_nil] at hlength
      exact List.prefix_of_prefix_length_le ⟨_, h.symm⟩ ⟨_, rfl⟩ (by omega)
    obtain ⟨bot', -, hsent, hready, -⟩ := sendAll_ready
      (fun y hy => hfits y (hbefore.subset hy)) ready_start
    exact ⟨bot', hsent, hready.unread⟩

/-! ## A response that is too large -/

theorem encode_ne_nil (payload : Bytes) : encode payload ≠ [] := fun h => by
  rw [encode, List.append_eq_nil_iff] at h
  cases h.1

/-- An exchange in one `send` and one piece. -/
def Exchange.whole (action jsonPayload response : Bytes) (short : response.length < 2 ^ 32) :
    Exchange where
  action := action
  jsonPayload := jsonPayload
  response := response
  network := ⟨[((encode jsonPayload).length : Int)], [encode response], 250⟩
  short := short
  written := writeAll_whole _
  answer_flatten := List.append_nil _
  answer_nonempty := fun h => encode_ne_nil response (List.mem_singleton.mp h).symm

/-- A state that is too large by one byte, -/
def largeState : Exchange :=
  .whole (ascii "GET_STATE") (ascii "\x7b\"action\":\"GET_STATE\"\x7d")
    (List.replicate 1048577 0x20) (by rw [List.length_replicate]; norm_num)

/-- and a message that is accepted. -/
def chat : Exchange :=
  .whole (ascii "CHAT") (ascii "\x7b\"action\":\"CHAT\"\x7d") (ascii "\x7b\"status\":\"ok\"\x7d")
    (by decide)

theorem chat_good : chat.Good := by
  refine ⟨?_, [(ascii "status", .string (ascii "ok"))], ?_, rfl⟩
  · show (ascii "\x7b\"status\":\"ok\"\x7d").length ≤ maxMessageSize.toNat
    decide
  · have htext : chat.response = (Json.object [(ascii "status", .string (ascii "ok"))]).text := by
      decide +kernel
    rw [htext]
    exact Parser.parse_text (by decide +kernel)

theorem largeState_too_large : ¬ largeState.Fits := by
  have hlength : largeState.response.length = 1048577 := List.length_replicate
  rw [Fits, hlength]
  decide

/-- **The bot takes four bytes of the state for the header of the next response**, and counts the
message as failed. -/
theorem chat_misread : ∃ bot : PlayerBot,
    sendAll ([largeState, chat].map (·.request)) {} = some bot ∧
    bot.localMetrics.map (·.success) = [false, false] ∧ chat.Good ∧
    ¬ Answered [largeState, chat] := by
  obtain ⟨stream, m, hfirst, hno, hm, -, hleft⟩ := exchange_ready ready_start largeState
  have hfalse : m.success = false :=
    Bool.eq_false_iff.mpr fun htrue => largeState_too_large (hm.2.mp htrue).1
  let bot : PlayerBot := { connected := true, stream, localMetrics := [m] }
  have hfails : [] ∉ bot.stream ++ chat.network.answer := by
    rw [List.mem_append]
    rintro (hempty | hempty)
    · exact hno hempty
    · exact chat.answer_nonempty hempty
  -- the spaces that are left are a header
  have hspaces : (bot.stream ++ chat.network.answer).flatten = writeU32LE 0x20202020 ++
      (List.replicate 1048573 0x20 ++ chat.network.answer.flatten) := by
    rw [List.flatten_append, ← List.append_assoc]
    exact congrArg (· ++ _)
      ((hleft largeState_too_large).trans (List.replicate_add 4 1048573 0x20))
  obtain ⟨stream', -, -, hsecond⟩ :=
    PlayerBot.sendAndReceive_of_large rfl chat.written hfails hspaces (by decide)
  have hall : sendAll ([largeState, chat].map (·.request)) {} =
      some ({ bot with stream := stream' }.push chat.action 0 false) := by
    rw [List.map_cons, Exchange.request, sendAll, hfirst]
    show sendAll [chat.request] bot = _
    rw [Exchange.request, sendAll, hsecond]
    rfl
  refine ⟨_, hall, ?_, chat_good, ?_⟩
  · show [m.success, false] = _
    rw [hfalse]
  · rintro ⟨⟨ms, hrun, hms⟩, -⟩
    have hsame : ms = [m, ⟨chat.action, 0, false⟩] := congrArg MetricsCollector.metrics
      (Option.some.inj ((hrun {}).symm.trans (run_eq hall {})))
    rw [hsame] at hms
    obtain _ | ⟨-, _ | ⟨hchat, -⟩⟩ := hms
    have hno : false = true := hchat.2.mpr chat_good
    cases hno

end Responses
end MultiPlayerGame
