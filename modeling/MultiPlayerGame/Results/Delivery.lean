import MultiPlayerGame.Results.Conversations
import MultiPlayerGame.Results.Linearizability
import MultiPlayerGame.Server.Connections

/-!
# What the clients of a running server receive

Here is the whole server from end to end: any number of connections at once, each with whatever
bytes its client sends in whatever pieces, each registered, read, served and written to by a worker,
all their steps mixed, and with calls of `send` that fail whenever they like.

`connections_delivered` takes this apart.  The world is where single requests, interleaved, have
brought it; the requests of a connection are the payloads of its stream from the front on, sent one
after the other; and what the client has received are their encoded answers, whole and in order, but
for the last one if `send` has failed.

`connections_linearizable` puts the game actions of all connections into one sequence.  The players
are as this sequence leaves them, and every client has received the answers of its own part of it.
Nothing else is in the sequence.  This has to be said also of the connections that are still open:
otherwise actions that nobody has sent could be put in between to explain the answers of others.

Both rest on what `Library.Sessions` says of clients in general, that their interleavings are
interleavings of single requests.  What is left to do here is to follow one client through its
stream, frame by frame (`delivered_of_follows`, `asked_of_follows`), by induction on the number of
bytes that are still to come.
-/

namespace MultiPlayerGame
namespace Delivery

open Program (Runs Served View Abstracts)
open MessageFramer (encode writeAll sentBytes readU32LE headerSize maxMessageSize Incomplete
  TooLarge Complete front_cases)
open Frames (decoder)
open Conversations (tail lastly readExact_short readExact_front readU32LE_take)
open Interleaving (Reachable)
open Sessions (Follows exchanges eventsOf told waiting named AsRequests)
open Server (Session Accepted script finishBody messageLoop receive Registered.handleClient)
open Linearizability (GameAction core)

variable {cfg : Config} {fp : Doubles}

/-! ## One connection -/

section Front

variable {pieces : List Bytes} (hpieces : [] ∉ pieces) (closes : Bool)

include hpieces

theorem receive_of_incomplete (h : Incomplete pieces.flatten) :
    receive (pieces ++ tail closes) = .inl (lastly closes) := by
  unfold receive
  by_cases hheader : pieces.flatten.length < headerSize
  · rw [readExact_short hpieces closes hheader]
    cases closes with
    | false => rfl
    | true => rfl
  obtain ⟨rest, hrest, hflatten, hread⟩ :=
    readExact_front hpieces closes (Nat.not_lt.mp hheader)
  obtain ⟨hsmall, hlength⟩ := h.resolve_left hheader
  have hshort : rest.flatten.length < (readU32LE pieces.flatten).toNat := by
    rw [hflatten, List.length_drop]
    omega
  rw [hread]
  simp only [readU32LE_take (Nat.not_lt.mp hheader), if_neg hsmall]
  rw [readExact_short hrest closes hshort]
  cases closes with
  | false => rfl
  | true => rfl

theorem receive_of_tooLarge (h : TooLarge pieces.flatten) :
    receive (pieces ++ tail closes) = .inl .closed := by
  obtain ⟨rest, -, -, hread⟩ := readExact_front hpieces closes h.1
  unfold receive
  rw [hread]
  simp only [readU32LE_take h.1, if_pos h.2]

theorem receive_of_complete (h : Complete pieces.flatten) : ∃ rest, [] ∉ rest ∧
    rest.flatten = pieces.flatten.drop (headerSize + (readU32LE pieces.flatten).toNat) ∧
    receive (pieces ++ tail closes) =
      .inr ((pieces.flatten.drop headerSize).take (readU32LE pieces.flatten).toNat,
        rest ++ tail closes) := by
  obtain ⟨hsmall, hlength⟩ := h
  have hheader : headerSize ≤ pieces.flatten.length := by omega
  obtain ⟨rest, hrest, hflatten, hread⟩ := readExact_front hpieces closes hheader
  have hbody : (readU32LE pieces.flatten).toNat ≤ rest.flatten.length := by
    rw [hflatten, List.length_drop]
    omega
  obtain ⟨rest', hrest', hflatten', hread'⟩ := readExact_front hrest closes hbody
  refine ⟨rest', hrest', ?_, ?_⟩
  · rw [hflatten', hflatten, List.drop_drop]
  · unfold receive
    rw [hread]
    simp only [readU32LE_take hheader, if_neg hsmall]
    rw [hread', hflatten]

end Front

/-- What a call of `writeAll` that fails has written is not everything. -/
theorem sentBytes_lt {n : Nat} {sends : List Int} (h : writeAll n sends = false) :
    sentBytes n sends < n := by
  fun_induction writeAll n sends with
  | case1 => cases h
  | case2 n => exact Nat.succ_pos n
  | case3 n w sends hw =>
    rw [sentBytes, if_pos hw]
    exact Nat.succ_pos n
  | case4 n w sends hw ih =>
    rw [sentBytes, if_neg hw]
    have hlt := ih h
    omega

/-- The frames of the answers. -/
def frames (exchanges : List (Bytes × Json)) : Bytes :=
  exchanges.flatMap fun e => encode e.2.text

/-- What has been asked and answered on a connection, and what its client has received: all of it if
no `send` has failed, and otherwise all but a part of the last answer. -/
structure Delivered (pieces : List Bytes) (closes : Bool) (exchanges : List (Bytes × Json))
    (session : Session) : Prop where
  asked : exchanges.map Prod.fst <+: (decoder.drain pieces.flatten).messages
  received : session.written <+: frames exchanges
  whole : session.ending ≠ .sendFailed →
    exchanges.map Prod.fst = (decoder.drain pieces.flatten).messages ∧
      session.written = frames exchanges ∧
      session.ending = if (decoder.drain pieces.flatten).failed then .closed else lastly closes
  cut : session.ending = .sendFailed → frames exchanges.dropLast <+: session.written ∧
    session.written.length < (frames exchanges).length

/-- A client that closes in the end does not leave the worker waiting. -/
theorem Delivered.not_waits {pieces : List Bytes} {exchanges : List (Bytes × Json)}
    {session : Session} (h : Delivered pieces true exchanges session) :
    session.ending ≠ .waits := by
  by_cases hending : session.ending = .sendFailed
  · rw [hending]
    decide
  · rw [(h.whole hending).2.2]
    split
    · decide
    · decide

/-- A connection on which nothing is asked. -/
theorem delivered_nil {pieces : List Bytes} {closes : Bool} {ending : Server.Ending}
    (hmessages : (decoder.drain pieces.flatten).messages = [])
    (hending : ending = if (decoder.drain pieces.flatten).failed then .closed else lastly closes) :
    Delivered pieces closes [] ⟨[], ending⟩ where
  asked := List.nil_prefix
  received := List.nil_prefix
  whole := fun _ => ⟨hmessages.symm, rfl, hending⟩
  cut := by
    intro h
    have hnot : ending ≠ .sendFailed := by
      rw [hending]
      split
      · decide
      · cases closes with
        | false => decide
        | true => decide
    exact absurd h hnot

/-- One more exchange in front. -/
theorem Delivered.cons {pieces rest : List Bytes} {closes : Bool} {exchanges : List (Bytes × Json)}
    {session : Session} (h : Delivered rest closes exchanges session) {payload : Bytes}
    (response : Json)
    (hdrain : decoder.drain pieces.flatten = (decoder.drain rest.flatten).after [payload]) :
    Delivered pieces closes ((payload, response) :: exchanges)
      (session.after (encode response.text)) where
  asked := by
    rw [hdrain]
    exact List.prefix_append_right_inj [payload] |>.mpr h.asked
  received := (List.prefix_append_right_inj (encode response.text)).mpr h.received
  whole := by
    intro hne
    obtain ⟨hasked, hwritten, hending⟩ := h.whole hne
    rw [hdrain]
    exact ⟨congrArg (payload :: ·) hasked, congrArg (encode response.text ++ ·) hwritten, hending⟩
  cut := by
    intro heq
    obtain ⟨hstart, hlength⟩ := h.cut heq
    have hne : exchanges ≠ [] := by
      rintro rfl
      exact Nat.not_lt_zero _ hlength
    refine ⟨?_, ?_⟩
    · rw [List.dropLast_cons_of_ne_nil hne]
      exact (List.prefix_append_right_inj (encode response.text)).mpr hstart
    · have hsum : (frames ((payload, response) :: exchanges)).length =
          (encode response.text).length + (frames exchanges).length := List.length_append
      have hsum' : (session.after (encode response.text)).written.length =
          (encode response.text).length + session.written.length := List.length_append
      omega

/-- **One connection**, however its requests are answered.  By induction on the number of bytes that
are still to come, each frame being one exchange. -/
theorem delivered_of_follows {pieces : List Bytes} (hpieces : [] ∉ pieces) (closes : Bool)
    {sends : Nat → Bytes → List Int} {exchanges : List (Bytes × Json)} {session : Session}
    (h : Follows (script sends (pieces ++ tail closes)) exchanges (.ret session))
    (hutf8 : ∀ e ∈ exchanges, e.2.utf8 = true) : Delivered pieces closes exchanges session := by
  induction hn : pieces.flatten.length using Nat.strongRecOn
    generalizing pieces sends exchanges session with
  | ind n ih =>
    unfold script at h
    rcases front_cases pieces.flatten with hincomplete | hlarge | hcomplete
    · rw [Server.messageLoop_of_ending (receive_of_incomplete hpieces closes hincomplete)] at h
      obtain ⟨rfl, heq⟩ := h.ret_inv
      cases heq
      have hdrain : decoder.drain pieces.flatten = ⟨[], pieces.flatten, false⟩ :=
        Framing.Decoder.drain_of_incomplete (Frames.front_of_incomplete hincomplete)
      exact delivered_nil (by rw [hdrain]) (by rw [hdrain]; rfl)
    · rw [Server.messageLoop_of_ending (receive_of_tooLarge hpieces closes hlarge)] at h
      obtain ⟨rfl, heq⟩ := h.ret_inv
      cases heq
      have hdrain : decoder.drain pieces.flatten = ⟨[], pieces.flatten, true⟩ :=
        Framing.Decoder.drain_of_malformed (Frames.front_of_tooLarge hlarge)
      exact delivered_nil (by rw [hdrain]) (by rw [hdrain]; rfl)
    · obtain ⟨rest, hrest, hflatten, hreceive⟩ := receive_of_complete hpieces closes hcomplete
      rw [Server.messageLoop_of_payload hreceive] at h
      rcases h.call_inv with ⟨-, heq⟩ | ⟨response, later, rfl, hlater⟩
      · cases heq
      have hdump := Json.dump_of_utf8 (hutf8 _ List.mem_cons_self)
      have hdrain : decoder.drain pieces.flatten = (decoder.drain rest.flatten).after
          [(pieces.flatten.drop headerSize).take (readU32LE pieces.flatten).toNat] := by
        rw [hflatten]
        exact Framing.Decoder.drain_of_message (Frames.front_of_complete hcomplete)
      change Follows (finishBody (pure ()) (sends 0)
        (script (fun i => sends (i + 1)) (rest ++ tail closes)) response.dump) later _ at hlater
      rw [hdump, finishBody] at hlater
      simp only at hlater
      split at hlater
      · -- the answer is written whole, and the loop goes on
        rw [Program.pure_eq, Program.ret_bind] at hlater
        obtain ⟨session', early, late, rfl, hearly, hlate⟩ := Follows.bind_inv hlater
        obtain ⟨rfl, heq⟩ := hlate.ret_inv
        cases heq
        have hshorter : rest.flatten.length < n := by
          rw [hflatten, ← hn, List.length_drop]
          have hfour : 0 < headerSize := by decide
          have hlength := hcomplete.2
          omega
        rw [List.append_nil] at hutf8 ⊢
        have hrest' := ih _ hshorter hrest hearly
          (fun e he => hutf8 e (List.mem_cons_of_mem _ he)) rfl
        exact hrest'.cons response hdrain
      · -- a `send` fails
        rename_i hfails
        obtain ⟨rfl, heq⟩ := hlater.ret_inv
        cases heq
        have hcut := sentBytes_lt (Bool.eq_false_iff.mpr hfails)
        have hframes : frames [((pieces.flatten.drop headerSize).take
            (readU32LE pieces.flatten).toNat, response)] = encode response.text :=
          List.append_nil _
        refine ⟨?_, ?_, fun hne => absurd rfl hne, fun _ => ⟨List.nil_prefix, ?_⟩⟩
        · rw [hdrain]
          exact ⟨_, rfl⟩
        · rw [hframes]
          exact List.take_prefix _ _
        · rw [hframes, List.length_take]
          omega

/-- **Wherever a connection is**, its requests are the payloads of its stream from the front on. -/
theorem asked_of_follows {pieces : List Bytes} (hpieces : [] ∉ pieces) (closes : Bool)
    {sends : Nat → Bytes → List Int} {exchanges : List (Bytes × Json)}
    {t : Sessions.Script Bytes Json Session}
    (h : Follows (script sends (pieces ++ tail closes)) exchanges t) :
    exchanges.map Prod.fst <+: (decoder.drain pieces.flatten).messages := by
  induction hn : pieces.flatten.length using Nat.strongRecOn
    generalizing pieces sends exchanges t with
  | ind n ih =>
    unfold script at h
    have hstop : ∀ ending, receive (pieces ++ tail closes) = .inl ending → exchanges = [] := by
      intro ending hreceive
      rw [Server.messageLoop_of_ending hreceive] at h
      exact h.ret_inv.1
    rcases front_cases pieces.flatten with hincomplete | hlarge | hcomplete
    · rw [hstop _ (receive_of_incomplete hpieces closes hincomplete)]
      exact List.nil_prefix
    · rw [hstop _ (receive_of_tooLarge hpieces closes hlarge)]
      exact List.nil_prefix
    obtain ⟨rest, hrest, hflatten, hreceive⟩ := receive_of_complete hpieces closes hcomplete
    rw [Server.messageLoop_of_payload hreceive] at h
    rcases h.call_inv with ⟨rfl, -⟩ | ⟨response, later, rfl, hlater⟩
    · exact List.nil_prefix
    have hdrain : decoder.drain pieces.flatten = (decoder.drain rest.flatten).after
        [(pieces.flatten.drop headerSize).take (readU32LE pieces.flatten).toNat] := by
      rw [hflatten]
      exact Framing.Decoder.drain_of_message (Frames.front_of_complete hcomplete)
    rw [hdrain]
    refine (List.prefix_append_right_inj [_]).mpr ?_
    change Follows (finishBody (pure ()) (sends 0)
      (script (fun i => sends (i + 1)) (rest ++ tail closes)) response.dump) later _ at hlater
    cases hdump : response.dump with
    | none =>
      rw [hdump] at hlater
      rw [hlater.ret_inv.1]
      exact List.nil_prefix
    | some responseJson =>
      rw [hdump, finishBody] at hlater
      split at hlater
      · obtain ⟨t', ht'⟩ := hlater.of_bind_ret
        refine ih _ ?_ hrest ht' rfl
        have hfour : 0 < headerSize := by decide
        have hlength := hcomplete.2
        rw [hflatten, ← hn, List.length_drop]
        omega
      · rw [hlater.ret_inv.1]
        exact List.nil_prefix

/-- An exception leaves the loop only where an answer cannot be dumped. -/
theorem not_threw_of_follows {sends : Nat → Bytes → List Int} {stream : List Bytes}
    {exchanges : List (Bytes × Json)} {session : Session}
    (h : Follows (script sends stream) exchanges (.ret session))
    (hutf8 : ∀ e ∈ exchanges, e.2.utf8 = true) : session.ending ≠ .threw := by
  unfold script at h
  induction sends, stream using Server.stream_induction generalizing exchanges session with
  | ends sends stream ending hreceive =>
    rw [Server.messageLoop_of_ending hreceive] at h
    obtain ⟨-, heq⟩ := h.ret_inv
    cases heq
    rcases Server.ending_of_receive hreceive with rfl | rfl
    · decide
    · decide
  | message sends stream payload rest hreceive ih =>
    rw [Server.messageLoop_of_payload hreceive] at h
    rcases h.call_inv with ⟨-, heq⟩ | ⟨response, later, rfl, hlater⟩
    · cases heq
    have hdump := Json.dump_of_utf8 (hutf8 _ List.mem_cons_self)
    change Follows (finishBody (pure ()) (sends 0)
      (messageLoop (pure ()) Server.ask (pure ()) (fun i => sends (i + 1)) rest) response.dump)
      later _ at hlater
    rw [hdump, finishBody] at hlater
    split at hlater
    · rw [Program.pure_eq, Program.ret_bind] at hlater
      obtain ⟨session', early, late, rfl, hearly, hlate⟩ := Follows.bind_inv hlater
      obtain ⟨rfl, heq⟩ := hlate.ret_inv
      cases heq
      have hrest : session'.ending ≠ .threw := ih hearly fun e he => hutf8 e
        (List.mem_cons_of_mem _ (List.mem_append_left _ he))
      exact hrest
    · obtain ⟨-, heq⟩ := hlater.ret_inv
      cases heq
      exact fun hthrew => by cases hthrew

/-! ## All connections -/

/-- Every answer is legible. -/
theorem utf8_of_answered {w : World} (hw : w.Legible)
    {x : Interleaving.Config Call Call.Ans Bytes Json World}
    (hx : Reachable (RequestHandler.reply cfg fp) (Call.exec fp) w x) {id : ℕ} {r : Json}
    (hr : .respond id r ∈ x.history) : r.utf8 = true := by
  induction hx with
  | refl => cases hr
  | tail hbefore hstep ih =>
    cases hstep with
    | invoke => exact ih (by simpa using hr)
    | call => exact ih hr
    | respond i r' done =>
      rcases List.mem_append.mp hr with hr | hr
      · exact ih hr
      · cases List.mem_singleton.mp hr
        exact (legible_of_reachable hw hbefore).2 _ _ done

section System

variable {w₀ : World}
  {x : Interleaving.Config Server.Call Server.Call.Ans Accepted Session Server.State}

/-- The client of the request handler that a connection is. -/
def client (accepted : Accepted) : Sessions.Script Bytes Json Session :=
  script accepted.sends accepted.stream

/-- The connections as sessions of the request handler. -/
theorem exists_sessions
    (hx : Reachable (Registered.handleClient cfg fp) (Server.Call.exec fp) { world := w₀ } x) :
    ∃ x' y, Reachable (named (RequestHandler.reply cfg fp)) (Call.exec fp) w₀ y ∧
      AsRequests x' y ∧ x'.shared = x.shared.world ∧ (x.Quiet → y.Quiet) ∧
      x'.history = x.history.map (Interleaving.Event.map client id) := by
  have habstract : ∃ x', Reachable (Sessions.expand (RequestHandler.reply cfg fp)) (Call.exec fp)
      w₀ x' ∧ Interleaving.Abstracted Server.onlyWorld client id Server.State.world x x' :=
    Reachable.abstracts (Server.refines_onlyWorld fp)
      (fun accepted => Server.Registered.abstracts accepted) hx
  obtain ⟨x', hx', habs⟩ := habstract
  obtain ⟨y, hy, hrequests⟩ := Sessions.Reachable.requests hx'
  exact ⟨x', y, hy, hrequests, habs.shared,
    fun hquiet => hrequests.quiet (habs.quiet_iff.mp hquiet), habs.history⟩

/-- The sessions are those of the connections. -/
theorem exists_accepted
    {x' : Interleaving.Config Call Call.Ans (Sessions.Script Bytes Json Session) Session World}
    (hhistory : x'.history = x.history.map (Interleaving.Event.map client id)) {i : ℕ}
    {script : Sessions.Script Bytes Json Session} (h : .invoke i script ∈ x'.history) :
    ∃ accepted, .invoke i accepted ∈ x.history := by
  rw [hhistory] at h
  obtain ⟨ev, hev, heq⟩ := List.mem_map.mp h
  cases ev with
  | invoke j accepted =>
    cases heq
    exact ⟨accepted, hev⟩
  | respond => cases heq

/-- The answers to the requests of a session are those of the request handler. -/
theorem utf8_of_told (hfresh : w₀.Fresh)
    {y : Interleaving.Config Call Call.Ans (ℕ × Bytes) (ℕ × Json) World}
    (hy : Reachable (named (RequestHandler.reply cfg fp)) (Call.exec fp) w₀ y) {i : ℕ}
    {entries : List (Interleaving.Entry Bytes Json)}
    (hevents : eventsOf i y.history = told i entries) :
    ∀ e ∈ exchanges entries, e.2.utf8 = true := by
  intro e he
  obtain ⟨a, ha, rfl⟩ := List.mem_map.mp he
  obtain ⟨z, hz, -, hzhistory⟩ := Sessions.Reachable.unnamed hy
  have hanswered : .respond a.id (i, a.answer) ∈ y.history := by
    refine Sessions.mem_of_mem_eventsOf (i := i) ?_
    rw [hevents]
    exact List.mem_flatMap.mpr ⟨a, ha, by simp⟩
  have hplain : .respond a.id a.answer ∈ z.history := by
    rw [hzhistory]
    exact List.mem_map.mpr ⟨_, hanswered, rfl⟩
  exact utf8_of_answered hfresh.legible hz hplain

/-- A connection that is over, in terms of its requests. -/
theorem delivered_of_requests (hfresh : w₀.Fresh)
    {y : Interleaving.Config Call Call.Ans (ℕ × Bytes) (ℕ × Json) World}
    (hy : Reachable (named (RequestHandler.reply cfg fp)) (Call.exec fp) w₀ y)
    {x' : Interleaving.Config Call Call.Ans (Sessions.Script Bytes Json Session) Session World}
    (hrequests : AsRequests x' y)
    (hhistory : x'.history = x.history.map (Interleaving.Event.map client id)) {i : ℕ}
    {accepted : Accepted} {session : Session} (hinv : .invoke i accepted ∈ x.history)
    (hresp : .respond i session ∈ x.history) {pieces : List Bytes} (hpieces : [] ∉ pieces)
    {closes : Bool} (hstream : accepted.stream = pieces ++ tail closes) :
    ∃ entries, eventsOf i y.history = told i entries ∧
      Delivered pieces closes (exchanges entries) session := by
  obtain ⟨entries, hfollows, hevents⟩ := hrequests.finished i (client accepted) session
    (by rw [hhistory]; exact List.mem_map.mpr ⟨_, hinv, rfl⟩)
    (by rw [hhistory]; exact List.mem_map.mpr ⟨_, hresp, rfl⟩)
  unfold client at hfollows
  rw [hstream] at hfollows
  exact ⟨entries, hevents,
    delivered_of_follows hpieces closes hfollows (utf8_of_told hfresh hy hevents)⟩

/-- **No worker is left by an exception.**  Only `dump` throws, and every answer on a started server
is legible. -/
theorem not_threw (hfresh : w₀.Fresh)
    (hx : Reachable (Registered.handleClient cfg fp) (Server.Call.exec fp) { world := w₀ } x)
    {i : ℕ}
    {session : Session} (hresp : .respond i session ∈ x.history) : session.ending ≠ .threw := by
  obtain ⟨accepted, hinv⟩ := Reachable.invoked_of_respond hx hresp
  obtain ⟨x', y, hy, hrequests, -, -, hhistory⟩ := exists_sessions hx
  obtain ⟨entries, hfollows, hevents⟩ := hrequests.finished i (client accepted) session
    (by rw [hhistory]; exact List.mem_map.mpr ⟨_, hinv, rfl⟩)
    (by rw [hhistory]; exact List.mem_map.mpr ⟨_, hresp, rfl⟩)
  exact not_threw_of_follows hfollows (utf8_of_told hfresh hy hevents)

/-- A connection that is over, in itself. -/
theorem exists_delivered (hfresh : w₀.Fresh)
    (hx : Reachable (Registered.handleClient cfg fp) (Server.Call.exec fp) { world := w₀ } x)
    {i : ℕ}
    {accepted : Accepted} {session : Session} (hinv : .invoke i accepted ∈ x.history)
    (hresp : .respond i session ∈ x.history) {pieces : List Bytes} (hpieces : [] ∉ pieces)
    {closes : Bool} (hstream : accepted.stream = pieces ++ tail closes) :
    ∃ exchanges, Delivered pieces closes exchanges session := by
  obtain ⟨x', y, hy, hrequests, -, -, hhistory⟩ := exists_sessions hx
  obtain ⟨entries, -, hdelivered⟩ :=
    delivered_of_requests hfresh hy hrequests hhistory hinv hresp hpieces hstream
  exact ⟨exchanges entries, hdelivered⟩

/-- The request that a client waits for, with whatever answer, is one of its payloads too. -/
theorem asked_of_begun {accepted : Accepted} {pieces : List Bytes} (hpieces : [] ∉ pieces)
    {closes : Bool} (hstream : accepted.stream = pieces ++ tail closes)
    {entries : List (Interleaving.Entry Bytes Json)} {last : Option (ℕ × Bytes)}
    {rest : Sessions.Script Bytes Json Session}
    (hfollows : Follows (client accepted) (exchanges entries) rest)
    (hrest : ∀ t ∈ last, ∃ k, rest = .call t.2 k) :
    entries.map (fun a => a.request) ++ last.toList.map Prod.snd <+:
      (decoder.drain pieces.flatten).messages := by
  unfold client at hfollows
  rw [hstream] at hfollows
  have hentries : (exchanges entries).map Prod.fst = entries.map fun a => a.request :=
    List.map_map
  cases last with
  | none =>
    rw [← hentries]
    exact (List.append_nil _).symm ▸ asked_of_follows hpieces closes hfollows
  | some t =>
    obtain ⟨k, rfl⟩ := hrest t rfl
    have hall := asked_of_follows hpieces closes (hfollows.snoc (.null))
    rw [List.map_append, hentries] at hall
    exact hall

/-- **What the clients receive.**  In every interleaving of any number of connections, whatever the
clients send and whenever a `send` fails, the world is where an interleaving of single requests has
brought it.  Every request is that of a connection.  The requests of a connection are sent one after
another, each when the one before has been answered, and they are the payloads of its stream from
the front on.  When the connection is over, its client has received the encoded answers. -/
theorem connections_delivered (hfresh : w₀.Fresh)
    (hx : Reachable (Registered.handleClient cfg fp) (Server.Call.exec fp) { world := w₀ } x) :
    ∃ y, Reachable (named (RequestHandler.reply cfg fp)) (Call.exec fp) w₀ y ∧
      y.shared = x.shared.world ∧ (x.Quiet → y.Quiet) ∧
      (∀ j i payload, .invoke j (i, payload) ∈ y.history →
        ∃ accepted, .invoke i accepted ∈ x.history) ∧
      (∀ i accepted pieces closes, .invoke i accepted ∈ x.history → [] ∉ pieces →
        accepted.stream = pieces ++ tail closes → ∃ entries last,
          eventsOf i y.history = told i entries ++ waiting i last ∧
          entries.map (fun a => a.request) ++ last.toList.map Prod.snd <+:
            (decoder.drain pieces.flatten).messages) ∧
      ∀ i accepted session pieces closes, .invoke i accepted ∈ x.history →
        .respond i session ∈ x.history → [] ∉ pieces →
        accepted.stream = pieces ++ tail closes → ∃ entries,
          eventsOf i y.history = told i entries ∧
          Delivered pieces closes (exchanges entries) session := by
  obtain ⟨x', y, hy, hrequests, hshared, hquiet, hhistory⟩ := exists_sessions hx
  refine ⟨y, hy, hrequests.shared.trans hshared, hquiet, ?_, ?_, ?_⟩
  · intro j i payload hinv
    obtain ⟨script, hscript⟩ := hrequests.owned j i payload hinv
    exact exists_accepted hhistory hscript
  · intro i accepted pieces closes hinv hpieces hstream
    obtain ⟨entries, last, rest, hfollows, hrest, hevents⟩ := hrequests.begun i (client accepted)
      (by rw [hhistory]; exact List.mem_map.mpr ⟨_, hinv, rfl⟩)
    exact ⟨entries, last, hevents, asked_of_begun hpieces hstream hfollows hrest⟩
  · intro i accepted session pieces closes hinv hresp hpieces hstream
    exact delivered_of_requests hfresh hy hrequests hhistory hinv hresp hpieces hstream

/-- The requests of the game that are among the payloads of a stream, in the order in which its
client has sent them. -/
noncomputable def actionsOf (pieces : List Bytes) : List Bytes :=
  open Classical in (decoder.drain pieces.flatten).messages.filter fun payload => GameAction payload

/-- A frame that arrives in two pieces, the second of which begins inside the payload. -/
def halves (payload : Bytes) : List Bytes := [(encode payload).take 5, (encode payload).drop 5]

/-- A client that sends one request and then closes; `sends` is what becomes of the answer. -/
def asking (fd : Int32) (payload : Bytes) (sends : Bytes → List Int) : Accepted :=
  ⟨fd, Bytes.ascii "127.0.0.1:5000", fun _ => sends, halves payload ++ tail true⟩

/-- A player joins, and the answer is written. -/
def first : Accepted := asking 4 joinZero fun frame => [(frame.length : Int)]

/-- Another player joins, and the answer cannot be written. -/
def second : Accepted := asking 5 Skirmish.joinOne fun _ => [-1]

/-- A whole connection is served while the other one is open. -/
theorem exists_two_connections : ∃ (x : Interleaving.Config Server.Call Server.Call.Ans Accepted
      Session Server.State) (session session' : Session),
    Reachable (Registered.handleClient ⟨false, false⟩ .zero) (Server.Call.exec .zero)
      { world := .started } x ∧ x.Quiet ∧
    x.history = [.invoke 0 first, .invoke 1 second, .respond 1 session', .respond 0 session] := by
  have hx₀ : Reachable (Registered.handleClient ⟨false, false⟩ .zero) (Server.Call.exec .zero)
      { world := .started } (.start { world := .started }) := .refl
  have hx₁ := hx₀.tail (.invoke _ 0 first (by simp [Interleaving.Config.start]))
  have hx₂ := hx₁.tail (.invoke _ 1 second (by simp [Interleaving.Config.start]))
  obtain ⟨session', t, hruns'⟩ := Program.exists_runs (Server.Call.exec .zero)
    (Registered.handleClient ⟨false, false⟩ .zero second) { world := .started }
  have hx₃ := Reachable.runs hx₂ 1 (by simp) hruns'
  have hx₄ := hx₃.tail (.respond _ 1 session' (by simp))
  obtain ⟨session, u, hruns⟩ := Program.exists_runs (Server.Call.exec .zero)
    (Registered.handleClient ⟨false, false⟩ .zero first) t
  have hx₅ := Reachable.runs hx₄ 0 (by simp) hruns
  have hx₆ := hx₅.tail (.respond _ 0 session (by simp))
  refine ⟨_, session, session', hx₆, fun id => ?_, by simp [Interleaving.Config.start]⟩
  by_cases h₀ : id = 0
  · simp [h₀]
  by_cases h₁ : id = 1
  · simp [h₁]
  · simp [h₀, h₁, Interleaving.Config.start]

theorem messages_halves {payload : Bytes} (h : payload.length ≤ maxMessageSize.toNat) :
    (decoder.drain (halves payload).flatten).messages = [payload] := by
  have hall : (halves payload).flatten = ([payload].map encode).flatten ++ [] := by
    simp [halves]
  rw [hall, Framing.Decoder.drain_encoded (fun a ha => Frames.front_encode
    (List.mem_singleton.mp ha ▸ h)), Framing.Decoder.drain_of_incomplete Frames.front_nil]
  rfl

/-- Of a single request the answer is sent, whole or in part. -/
theorem Delivered.of_halves {payload : Bytes} (h : payload.length ≤ maxMessageSize.toNat)
    {closes : Bool} {exchanges : List (Bytes × Json)} {session : Session}
    (hdelivered : Delivered (halves payload) closes exchanges session) :
    exchanges.map Prod.fst = [payload] := by
  have hmessages := messages_halves h
  by_cases hending : session.ending = .sendFailed
  · have hne : exchanges ≠ [] := by
      rintro rfl
      exact Nat.not_lt_zero _ (hdelivered.cut hending).2
    have hasked := hdelivered.asked
    rw [hmessages] at hasked
    obtain ⟨later, heq, hlater⟩ := (List.prefix_cons_iff.mp hasked).resolve_left
      (List.map_eq_nil_iff.not.mpr hne)
    rw [heq, List.prefix_nil.mp hlater]
  · exact (hdelivered.whole hending).1.trans hmessages

theorem first_ne_nil : [] ∉ halves joinZero := by decide +kernel

theorem second_ne_nil : [] ∉ halves Skirmish.joinOne := by decide +kernel

/-- Both requests have been asked, and both clients are told what happened to them. -/
theorem two_connections_delivered : ∃ session session' entries entries',
    Delivered (halves joinZero) true (exchanges entries) session ∧
    (exchanges entries).map Prod.fst = [joinZero] ∧
    Delivered (halves Skirmish.joinOne) true (exchanges entries') session' ∧
    (exchanges entries').map Prod.fst = [Skirmish.joinOne] := by
  obtain ⟨x, session, session', hx, -, hhistory⟩ := exists_two_connections
  obtain ⟨y, -, -, -, -, -, hdelivered⟩ := connections_delivered World.started_fresh hx
  obtain ⟨entries, -, h⟩ := hdelivered 0 first session _ true (by rw [hhistory]; simp)
    (by rw [hhistory]; simp) first_ne_nil rfl
  obtain ⟨entries', -, h'⟩ := hdelivered 1 second session' _ true (by rw [hhistory]; simp)
    (by rw [hhistory]; simp) second_ne_nil rfl
  exact ⟨session, session', entries, entries', h, h.of_halves (by decide +kernel), h',
    h'.of_halves (by decide +kernel)⟩

end System

end Delivery
end MultiPlayerGame
