import MultiPlayerGame.Library.Schedules
import MultiPlayerGame.Results.Delivery
import MultiPlayerGame.Results.Wire
import MultiPlayerGame.Server.Reachable
import MultiPlayerGame.Server.Readable

/-!
# Reading back

The server writes JSON and so do its clients, and both read it with the same parser.  What is to be
shown is that nothing is lost on the way: a value that has been parsed is the same after another
round (`parse_dump_parse`), and whatever the server answers, in whatever interleaving, can be
written, and is what the client reads (`responses_read_back`).

## What could go wrong

`dump` throws if a string is not UTF-8, and strings from requests come back in answers and in the
event log; so it matters that the parser accepts nothing but UTF-8, and that the handlers cut no
string apart.  An object with a field twice would be read back with one field; the handlers build
every object with its fields once (`Json.Canonical`).  And a number that is no number of JSON could
not be read at all.

## Numbers with a fraction or an exponent

Such a number is a `double` in C++.  It is printed anew from its value, and not from the text it was
read from: `1e5` comes back as `100000.0`.  The model keeps the text.  So the first theorem is about
values whose numbers are integers of 64 bits, and the second one says of the responses with
snapshots and metrics only what does not depend on how a `double` is printed: that a bot finds the
status in them.  There it is a hypothesis that the numbers are ones that JSON allows: C++ prints the
64-bit counters and the `double`s that way, and in the model the counters are unbounded.

## What a bot notes

A bot does not parse every response.  It does not get that far if the connection fails, and it does
not read a response of more than 1 MiB.  The last part of `responses_read_back` is about exchanges
in which neither happens (`Wire.Exchanged`).
-/

namespace MultiPlayerGame
namespace Readback

open Bytes (ascii)
open Interleaving (Reachable)
open RequestHandler

/-- **What has been parsed can be written, and is then parsed as the same value**, if its numbers
are integers of 64 bits. -/
theorem parse_dump_parse {s : Bytes} {j : Json} (h : Parser.parse s = some j)
    (hintegral : j.integral = true) : j.dump = some j.text ∧ Parser.parse j.text = some j :=
  ⟨Json.dump_of_utf8 (Json.utf8_of_sound (Parser.parse_sound h)),
    Parser.parse_text_of_parse h hintegral⟩

/-- A text with white space, and with a field twice. -/
theorem parse_dump_parse_twice : ∃ j : Json,
    Parser.parse (ascii "\x7b\"b\": 1, \"a\" : [ -7 ], \"b\":2 \x7d") = some j ∧
      j.dump = some (ascii "\x7b\"a\":[-7],\"b\":2\x7d") ∧
      Parser.parse (ascii "\x7b\"a\":[-7],\"b\":2\x7d") = some j := by
  have hparse : Parser.parse (ascii "\x7b\"b\": 1, \"a\" : [ -7 ], \"b\":2 \x7d") =
      some (.object [(ascii "a", .array [.integer (-7)]), (ascii "b", .integer 2)]) := rfl
  obtain ⟨hdump, hback⟩ := parse_dump_parse hparse rfl
  exact ⟨_, hparse, hdump, hback⟩

section System

variable {cfg : Config} {fp : Doubles} {w₀ : World}
  {x : Interleaving.Config Call Call.Ans Bytes Json World}

/-- Every request is in the phase of what its payload asks for. -/
def Decoded (history : List (Interleaving.Event Bytes Json)) (phases : ℕ → Option Request) : Prop :=
  ∀ i q, phases i = some q → ∃ rawJson, .invoke i rawJson ∈ history ∧ q = Request.decode rawJson

theorem Decoded.update {history : List (Interleaving.Event Bytes Json)}
    {phases : ℕ → Option Request} (h : Decoded history phases) {i : ℕ} {q : Request}
    (hq : ∃ rawJson, .invoke i rawJson ∈ history ∧ q = Request.decode rawJson) :
    Decoded history (Function.update phases i (some q)) := by
  intro j q' hj
  rcases Interleaving.update_some_cases hj with ⟨rfl, hv⟩ | ⟨-, hj⟩
  · cases hv
    exact hq
  · exact h j q' hj

theorem readable_of_answered (hx : Reachable (reply cfg fp) (Call.exec fp) w₀ x) {id : ℕ}
    {q : Bytes} {r : Json} (hq : .invoke id q ∈ x.history) (hr : .respond id r ∈ x.history) :
    (Request.decode q).Readable False r := by
  have hphased : ∃ phases, Interleaving.Phased (answering Request False)
      (fun q' r => q'.Readable False r) (fun _ phases => Decoded x.history phases) x phases :=
    Reachable.phased (fun _ _ _ => (reply_obeys _).mono fun _ _ h => h.1 ▸ h.2)
      (fun _ _ hno => by cases hno) (fun _ _ _ _ hsent _ hinv => hinv.update ⟨_, hsent, rfl⟩)
      (fun t _ _ q' c e hinv hi _ =>
        ⟨q', ⟨rfl, answersCanonical_exec c e False.elim⟩, hinv.update (hinv _ _ hi)⟩) hx
      fun _ _ h => h
  obtain ⟨phases, h⟩ := hphased
  obtain ⟨q', hid, hreadable⟩ := h.answered id r hr
  obtain ⟨rawJson, hinvoke, rfl⟩ := h.inv id q' hid
  rwa [hx.invoked_once hq hinvoke]

/-- **Whatever the server answers, the client reads**; and over a connection that carries it, a bot
that has read everything before notes what it says. -/
theorem responses_read_back (hfresh : w₀.Fresh)
    (hx : Reachable (reply cfg fp) (Call.exec fp) w₀ x) {id : ℕ} {q : Bytes} {r : Json}
    (hq : .invoke id q ∈ x.history) (hr : .respond id r ∈ x.history) :
    r.dump = some r.text ∧
    (¬ (Request.decode q).Reports → Parser.parse r.text = some r) ∧
    (((Request.decode q).Reports → r.numeric = true) →
      ∀ (bot : PlayerBot) (action : Bytes) (net : Network), Responses.Ready bot →
        Wire.Exchanged (q, r) net → ∃ bot' m,
          bot.sendAndReceive action q net = some (isOk r, bot') ∧ Responses.Ready bot' ∧
          bot'.localMetrics = bot.localMetrics ++ [m] ∧ Wire.result m = (action, isOk r)) := by
  have hutf8 := Delivery.utf8_of_answered hfresh.legible hx hr
  obtain ⟨hcanonical, hcommand⟩ := readable_of_answered hx hq hr
  refine ⟨Json.dump_of_utf8 hutf8, fun hno => ?_, fun hnumeric bot action net hbot hnet => ?_⟩
  · exact Parser.parse_text_canonical hcanonical
      (Json.readable_of_utf8 hutf8 (hcommand (Or.inl hno)))
  · have hreadable : r.readable = true := Json.readable_of_utf8 hutf8
      (Classical.byCases hnumeric fun hno => hcommand (Or.inl hno))
    obtain ⟨bot', m, hexchange, hready, hmetrics, hm⟩ :=
      Wire.exchange_result hbot action hnet
    rw [succeeded_text hcanonical hreadable] at hm
    have hsuccess : m.success = isOk r := congrArg Prod.snd hm
    exact ⟨bot', m, hsuccess ▸ hexchange, hready, hmetrics, hm⟩

end System

/-! ## A player who joins and looks around -/

open Interleaving (Event Move turns answersOf)

/-- A request to join and one for the state, one after the other. -/
def looking : List (Move Bytes Env) :=
  [.send 0 (PlayerBot.joinReq 0).text] ++ turns 0 60 default ++ [.answer 0] ++
    [.send 1 (PlayerBot.stateReq 0).text] ++ turns 1 60 default ++ [.answer 1]

theorem exists_looking : ∃ x : Interleaving.Config Call Call.Ans Bytes Json World,
    Reachable (reply ⟨true, true⟩ .zero) (Call.exec .zero) .started x ∧
      x.history.map (Event.map id isOk) = [.invoke 0 (PlayerBot.joinReq 0).text, .respond 0 true,
        .invoke 1 (PlayerBot.stateReq 0).text, .respond 1 true] ∧
      ∀ a ∈ answersOf x.history, a.2.numeric = true ∧
        a.2.text.length ≤ MessageFramer.maxMessageSize.toNat :=
  Interleaving.exists_play looking _ (by decide +kernel)

/-- The answer to `JOIN` is read back, and a bot notes the answer to `GET_STATE` as a success. -/
theorem responses_read_back_looking :
    ∃ (x : Interleaving.Config Call Call.Ans Bytes Json World) (r state : Json) (bot : PlayerBot)
      (m : RequestMetric), Reachable (reply ⟨true, true⟩ .zero) (Call.exec .zero) .started x ∧
      .respond 0 r ∈ x.history ∧ Parser.parse r.text = some r ∧ .respond 1 state ∈ x.history ∧
      PlayerBot.sendAndReceive (ascii "GET_STATE") (PlayerBot.stateReq 0).text
        (Wire.whole ((PlayerBot.stateReq 0).text, state)) {} = some (true, bot) ∧
      bot.localMetrics = [m] ∧ Wire.result m = (ascii "GET_STATE", true) := by
  obtain ⟨x, hx, hhistory, hall⟩ := exists_looking
  have hinvoke : ∀ {i q}, .invoke i q ∈ x.history.map (Event.map id isOk) →
      .invoke i q ∈ x.history := by
    intro i q hq
    obtain ⟨q', hq', rfl⟩ := Interleaving.invoke_mem_map.mp hq
    exact hq'
  have hrespond : ∀ {i ok}, .respond i ok ∈ x.history.map (Event.map id isOk) →
      ∃ r, .respond i r ∈ x.history ∧ isOk r = ok := Interleaving.respond_mem_map.mp
  rw [hhistory] at hinvoke hrespond
  have hjoin := hinvoke (i := 0) List.mem_cons_self
  have hlook := hinvoke (i := 1) (List.mem_cons_of_mem _ (List.mem_cons_of_mem _
    List.mem_cons_self))
  obtain ⟨r, hr, -⟩ := hrespond (i := 0) (List.mem_cons_of_mem _ List.mem_cons_self)
  obtain ⟨state, hstate, hok⟩ := hrespond (i := 1) (List.mem_cons_of_mem _
    (List.mem_cons_of_mem _ (List.mem_cons_of_mem _ List.mem_cons_self)))
  obtain ⟨hnumeric, hfits⟩ := hall _ (Interleaving.mem_answersOf.mpr hstate)
  obtain ⟨-, hread, -⟩ := responses_read_back World.started_fresh hx hjoin hr
  obtain ⟨-, -, hnoted⟩ := responses_read_back World.started_fresh hx hlook hstate
  obtain ⟨bot, m, hexchange, -, hmetrics, hm⟩ := hnoted (fun _ => hnumeric) {}
    (ascii "GET_STATE") _ Responses.ready_start (Wire.exchanged_whole hfits)
  rw [hok] at hexchange hm
  refine ⟨x, r, state, bot, m, hx, hr, hread ?_, hstate, hexchange, hmetrics, hm⟩
  rw [PlayerBot.decode_joinReq]
  exact not_false

end Readback
end MultiPlayerGame
