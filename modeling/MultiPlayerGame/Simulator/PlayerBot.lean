import MultiPlayerGame.Json.Parser
import MultiPlayerGame.Server.MessageFramer
import MultiPlayerGame.Simulator.MetricsCollector

/-!
# A bot

`PlayerBot` sends requests over one socket, waits for the response to each, and keeps a metric of
it.  What comes from outside is input: what `send` returns, the pieces in which the server's answer
arrives, and the time that the exchange takes.  The server answers a request that has been written,
and only then, so the pieces of the answer join the stream at that point; what is left of it stays
in the stream for the next exchange.

A response may never be complete.  Then `recv` waits, and the bot with it: `none`.

Which requests the bot makes depends on its random numbers and on the clock.  So `run` takes them as
a list.
-/

namespace MultiPlayerGame

open Bytes (ascii)
open MessageFramer (encode readExact writeAll readU32LE writeU32LE headerSize maxMessageSize)

/-- A bot, and what the server has sent and the bot has not read. -/
structure PlayerBot where
  /-- `m_socketFd >= 0` -/
  connected : Bool := true
  stream : List Bytes := []
  localMetrics : List RequestMetric := []
  deriving DecidableEq, Repr

/-- What comes from outside during an exchange. -/
structure Network where
  sends : List Int
  answer : List Bytes
  latencyMicros : UInt64
  deriving DecidableEq, Repr

namespace PlayerBot

def push (action : Bytes) (latencyMicros : UInt64) (success : Bool) (bot : PlayerBot) : PlayerBot :=
  { bot with localMetrics := bot.localMetrics ++ [⟨action, latencyMicros, success⟩] }

/-- Is the status of the response `ok`?  A text that is no JSON, a value that is no object and a
status that is no string make an exception, and it is caught. -/
def succeeded (responsePayload : Bytes) : Bool :=
  match Parser.parse responsePayload with
  | none => false
  | some resp => resp.stringValue (ascii "status") [] = ascii "ok"

/-- What is returned, and the bot afterwards.  `none` is a call that waits for bytes that nobody
sends. -/
def sendAndReceive (action jsonPayload : Bytes) (net : Network) (bot : PlayerBot) :
    Option (Bool × PlayerBot) :=
  if !bot.connected then some (false, bot)
  else if !writeAll (encode jsonPayload).length net.sends then
    some (false, bot.push action 0 false)
  else
    match readExact headerSize (bot.stream ++ net.answer) with
    | .waits => none
    | .failed stream => some (false, { bot with stream }.push action 0 false)
    | .done lenBuf stream =>
      let payloadLen := readU32LE lenBuf
      if maxMessageSize < payloadLen then some (false, { bot with stream }.push action 0 false)
      else
        match readExact payloadLen.toNat stream with
        | .waits => none
        | .failed stream => some (false, { bot with stream }.push action 0 false)
        | .done responsePayload stream =>
          let success := succeeded responsePayload
          some (success, { bot with stream }.push action net.latencyMicros success)

/-- One request after another.  The bot goes on with the next one whatever came of the last. -/
def sendAll : List (Bytes × Bytes × Network) → PlayerBot → Option PlayerBot
  | [], bot => some bot
  | (action, jsonPayload, net) :: requests, bot =>
    match bot.sendAndReceive action jsonPayload net with
    | none => none
    | some (_, bot) => sendAll requests bot

/-- `connects` says whether the socket is connected. -/
def run (connects : Bool) (requests : List (Bytes × Bytes × Network)) (c : MetricsCollector) :
    Option MetricsCollector :=
  if !connects then some (c.record (ascii "CONNECT") 0 false)
  else
    match sendAll requests {} with
    | none => none
    | some bot => some (c.recordBatch bot.localMetrics)

/-! ## One exchange -/

/-- Nothing is left of earlier answers. -/
def unread (bot : PlayerBot) : Bytes := bot.stream.flatten

section Exchange

variable {bot : PlayerBot} {action jsonPayload : Bytes} {net : Network}

/-- A header at the front of the stream is read. -/
theorem readExact_header {stream : List Bytes} (hfails : [] ∉ stream) {len : UInt32} {rest : Bytes}
    (hstream : stream.flatten = writeU32LE len ++ rest) :
    ∃ left, [] ∉ left ∧ left.flatten = rest ∧
      readExact headerSize stream = .done (writeU32LE len) left := by
  have hheader := MessageFramer.length_writeU32LE len
  obtain ⟨left, hno, hread, hleft⟩ := MessageFramer.readExact_of_le (n := headerSize) hfails (by
    rw [hstream, List.length_append, hheader]
    omega)
  rw [hstream, ← hheader, List.take_left] at hread
  rw [hstream, ← hheader, List.drop_left] at hleft
  exact ⟨left, hno, hleft, hheader ▸ hread⟩

theorem readU32LE_header (len : UInt32) : readU32LE (writeU32LE len) = len := by
  have hback := MessageFramer.readU32LE_writeU32LE len []
  rwa [List.append_nil] at hback

variable (hconnected : bot.connected = true)
  (hsent : writeAll (encode jsonPayload).length net.sends = true)
  (hfails : [] ∉ bot.stream ++ net.answer)

include hconnected hsent hfails

/-- **A header that announces too much ends the exchange.**  What follows it stays in the stream. -/
theorem sendAndReceive_of_large {len : UInt32} {rest : Bytes}
    (hstream : (bot.stream ++ net.answer).flatten = writeU32LE len ++ rest)
    (hlarge : maxMessageSize < len) :
    ∃ stream, [] ∉ stream ∧ stream.flatten = rest ∧ bot.sendAndReceive action jsonPayload net =
      some (false, { bot with stream }.push action 0 false) := by
  obtain ⟨stream, hno, hleft, hread⟩ := readExact_header hfails hstream
  refine ⟨stream, hno, hleft, ?_⟩
  rw [sendAndReceive, hconnected, hsent, hread]
  simp only [Bool.not_true, Bool.false_eq_true, if_false, readU32LE_header, if_pos hlarge]

/-- **Any other header makes the bot read as many bytes as it announces**, if they are there. -/
theorem sendAndReceive_of_frame {len : UInt32} {responsePayload rest : Bytes}
    (hstream : (bot.stream ++ net.answer).flatten = writeU32LE len ++ (responsePayload ++ rest))
    (hsmall : ¬ maxMessageSize < len) (hlen : len.toNat = responsePayload.length) :
    ∃ stream, [] ∉ stream ∧ stream.flatten = rest ∧ bot.sendAndReceive action jsonPayload net =
      some (succeeded responsePayload,
        { bot with stream }.push action net.latencyMicros (succeeded responsePayload)) := by
  obtain ⟨stream₁, hno₁, hleft₁, hread₁⟩ := readExact_header hfails hstream
  obtain ⟨stream, hno, hread, hleft⟩ := MessageFramer.readExact_of_le (n := len.toNat) hno₁ (by
    rw [hleft₁, List.length_append]
    omega)
  rw [hleft₁, hlen, List.take_left] at hread
  rw [hleft₁, hlen, List.drop_left] at hleft
  refine ⟨stream, hno, hleft, ?_⟩
  rw [sendAndReceive, hconnected, hsent, hread₁]
  simp only [Bool.not_true, Bool.false_eq_true, if_false, readU32LE_header, if_neg hsmall, hlen,
    hread]

end Exchange

end PlayerBot
end MultiPlayerGame
