import MultiPlayerGame.Results.Frames
import MultiPlayerGame.Server.HandleClient
import MultiPlayerGame.Server.Legible

/-!
# A conversation with a client

`handleClient` has its own way of taking frames out of the stream: it reads a header, and then as
many bytes as it says.  `MessageFramer::decode` takes them out of a buffer.  `conversation` says
that both find the same payloads, whatever the client sends and however it arrives, and that the
client gets the answers to these payloads in this order and nothing else.

The proof goes through the three cases of `MessageFramer.front_cases`.  Nothing can be lost behind a
frame, since `readExact` takes no more than it is asked for; and `handle` always has an answer,
since every response is legible (`handle_runs`).

## Reading by length and decoding a buffer

The two ways of taking frames out of a stream differ in what they do at its end.  A decoder that
works on a buffer waits with what it has.  `handleClient` is inside `readExact` at that moment,
which returns `false` when the stream closes and blocks otherwise.  What has been read of an
incomplete frame is lost, and no answer depends on it.  Up to there they agree frame by frame,
because both look at the header first and at the limit next.

The conversation is an induction on the number of bytes to come.  Each frame is one request, served
from the state that the last one has left, and the answer is written before the next header is read.
-/

namespace MultiPlayerGame
namespace Conversations

open Program (Runs Served)
open MessageFramer (encode readExact writeAll readU32LE headerSize maxMessageSize Incomplete
  TooLarge Complete readExact_of_le readExact_of_lt readExact_append front_cases)
open Frames (decoder)
open Server (handleClient Session)

variable {cfg : Config} {fp : Doubles}

/-- **`handle` always has an answer.**  What it answers is the text of the response, for a response
of a legible world can be dumped. -/
theorem handle_runs {w w' : World} (hw : w.Legible) {payload : Bytes} {r : Option Bytes}
    (h : Runs (Call.exec fp) (RequestHandler.handle cfg fp payload) w r w') :
    (∃ text, r = some text) ∧ w'.Legible := by
  obtain ⟨response, w₁, hreply, hdump⟩ := Program.runs_bind.mp h
  obtain ⟨rfl, rfl⟩ := Program.runs_ret.mp hdump
  obtain ⟨hutf8, hlegible⟩ := (reply_speaks cfg fp payload).runs hw hreply
  exact ⟨⟨_, Json.dump_of_utf8 hutf8⟩, hlegible⟩

/-! ## The front of the stream -/

/-- What comes after all that the client sends: it closes the stream, or it does not. -/
def tail (closes : Bool) : List Bytes := if closes then [[]] else []

/-- How the conversation then ends. -/
def lastly (closes : Bool) : Server.Ending := if closes then .closed else .waits

section Front

variable {sends : Nat → Bytes → List Int} {pieces : List Bytes} (hpieces : [] ∉ pieces)
  (closes : Bool)

theorem handleClient_eq (sends : Nat → Bytes → List Int) (stream : List Bytes) :
    handleClient cfg fp sends stream = match readExact headerSize stream with
      | .waits => return ⟨[], .waits⟩
      | .failed _ => return ⟨[], .closed⟩
      | .done lenBuf afterHeader =>
        if maxMessageSize < readU32LE lenBuf then return ⟨[], .closed⟩
        else match readExact (readU32LE lenBuf).toNat afterHeader with
          | .waits => return ⟨[], .waits⟩
          | .failed _ => return ⟨[], .closed⟩
          | .done payload rest => RequestHandler.handle cfg fp payload >>= Server.sendResponse
              (sends 0) (handleClient cfg fp (fun i => sends (i + 1)) rest) := by
  rw [handleClient]
  split
  · rename_i hheader
    rw [hheader]
  · rename_i hheader
    rw [hheader]
  · rename_i hheader
    rw [hheader]
    simp only
    split
    · rfl
    · split
      · rename_i hbody
        rw [hbody]
      · rename_i hbody
        rw [hbody]
      · rename_i hbody
        rw [hbody]

include hpieces

theorem readExact_short {n : Nat} (hn : pieces.flatten.length < n) :
    readExact n (pieces ++ tail closes) = if closes then .failed [] else .waits := by
  obtain ⟨hwaits, hfailed⟩ := readExact_of_lt hpieces hn
  cases closes with
  | false =>
    rw [tail, if_neg Bool.false_ne_true, List.append_nil, hwaits]
    rfl
  | true => exact hfailed

/-- The header of a frame is read, and stays where it was found otherwise. -/
theorem readExact_front {n : Nat} (hn : n ≤ pieces.flatten.length) : ∃ rest, [] ∉ rest ∧
    rest.flatten = pieces.flatten.drop n ∧
      readExact n (pieces ++ tail closes) =
        .done (pieces.flatten.take n) (rest ++ tail closes) := by
  obtain ⟨rest, hrest, hread, hflatten⟩ := readExact_of_le hpieces hn
  exact ⟨rest, hrest, hflatten, readExact_append hread _⟩

omit hpieces in
theorem readU32LE_take {buffer : Bytes} (h : headerSize ≤ buffer.length) :
    readU32LE (buffer.take headerSize) = readU32LE buffer := by
  have hlength : headerSize ≤ (buffer.take headerSize).length := by
    rw [List.length_take]
    omega
  have happend := MessageFramer.readU32LE_append hlength (buffer.drop headerSize)
  rw [List.take_append_drop] at happend
  exact happend.symm

theorem handleClient_of_incomplete (h : Incomplete pieces.flatten) :
    handleClient cfg fp sends (pieces ++ tail closes) = pure ⟨[], lastly closes⟩ := by
  rw [handleClient_eq]
  by_cases hheader : pieces.flatten.length < headerSize
  · rw [readExact_short hpieces closes hheader]
    cases closes with
    | false => rfl
    | true => rfl
  obtain ⟨rest, hrest, hflatten, hread⟩ :=
    readExact_front hpieces closes (Nat.not_lt.mp hheader)
  obtain ⟨hsmall, hlength⟩ := h.resolve_left hheader
  have hshort : rest.flatten.length < (readU32LE pieces.flatten).toNat := by
    rw [hflatten, List.length_drop]
    omega
  rw [hread]
  simp only [readU32LE_take (Nat.not_lt.mp hheader), if_neg hsmall]
  rw [readExact_short hrest closes hshort]
  cases closes with
  | false => rfl
  | true => rfl

theorem handleClient_of_tooLarge (h : TooLarge pieces.flatten) :
    handleClient cfg fp sends (pieces ++ tail closes) = pure ⟨[], .closed⟩ := by
  obtain ⟨rest, -, -, hread⟩ := readExact_front hpieces closes h.1
  rw [handleClient_eq, hread]
  simp only [readU32LE_take h.1, if_pos h.2]

theorem handleClient_of_complete (h : Complete pieces.flatten) : ∃ rest, [] ∉ rest ∧
    rest.flatten = pieces.flatten.drop (headerSize + (readU32LE pieces.flatten).toNat) ∧
    handleClient cfg fp sends (pieces ++ tail closes) =
      (RequestHandler.handle cfg fp
          ((pieces.flatten.drop headerSize).take (readU32LE pieces.flatten).toNat) >>=
        Server.sendResponse (sends 0)
          (handleClient cfg fp (fun i => sends (i + 1)) (rest ++ tail closes))) := by
  obtain ⟨hsmall, hlength⟩ := h
  have hheader : headerSize ≤ pieces.flatten.length := by omega
  obtain ⟨rest, hrest, hflatten, hread⟩ := readExact_front hpieces closes hheader
  have hbody : (readU32LE pieces.flatten).toNat ≤ rest.flatten.length := by
    rw [hflatten, List.length_drop]
    omega
  obtain ⟨rest', hrest', hflatten', hread'⟩ := readExact_front hrest closes hbody
  refine ⟨rest', hrest', ?_, ?_⟩
  · rw [hflatten', hflatten, List.drop_drop]
  · rw [handleClient_eq, hread]
    simp only [readU32LE_take hheader, if_neg hsmall]
    rw [hread', hflatten]

end Front

/-! ## The whole stream -/

/-- **The conversation**, from a state in which all events are legible.  The induction is on the
number of bytes to come, and each step is one of the three cases of what is at the front. -/
theorem conversation_of_legible {pieces : List Bytes} (hpieces : [] ∉ pieces) (closes : Bool)
    {sends : Nat → Bytes → List Int}
    (hsends : ∀ i frame, writeAll frame.length (sends i frame) = true) {w w' : World}
    (hw : w.Legible) {session : Session}
    (h : Runs (Call.exec fp) (handleClient cfg fp sends (pieces ++ tail closes)) w session w') :
    ∃ messages : List (Bytes × Bytes),
      messages.map Prod.fst = (decoder.drain pieces.flatten).messages ∧
      Served (RequestHandler.handle cfg fp) (Call.exec fp) w
        (messages.map fun m => (m.1, some m.2)) w' ∧
      session.written = (messages.map fun m => encode m.2).flatten ∧
      session.ending =
        if (decoder.drain pieces.flatten).failed then .closed else lastly closes := by
  induction hn : pieces.flatten.length using Nat.strongRecOn
    generalizing pieces sends w session with
  | ind n ih =>
    rcases front_cases pieces.flatten with hincomplete | hlarge | hcomplete
    · rw [handleClient_of_incomplete hpieces closes hincomplete] at h
      obtain ⟨rfl, rfl⟩ := Program.runs_ret.mp h
      rw [Framing.Decoder.drain_of_incomplete (Frames.front_of_incomplete hincomplete)]
      exact ⟨[], rfl, .nil, rfl, rfl⟩
    · rw [handleClient_of_tooLarge hpieces closes hlarge] at h
      obtain ⟨rfl, rfl⟩ := Program.runs_ret.mp h
      rw [Framing.Decoder.drain_of_malformed (Frames.front_of_tooLarge hlarge)]
      exact ⟨[], rfl, .nil, rfl, rfl⟩
    · obtain ⟨rest, hrest, hflatten, heq⟩ :=
        @handleClient_of_complete cfg fp sends pieces hpieces closes hcomplete
      rw [heq] at h
      obtain ⟨r, w₁, hhandle, hrespond⟩ := Program.runs_bind.mp h
      obtain ⟨⟨text, rfl⟩, hw₁⟩ := handle_runs hw hhandle
      rw [Server.sendResponse, if_pos (hsends 0 _)] at hrespond
      obtain ⟨later, w₂, hlater, hreturn⟩ := Program.runs_bind.mp hrespond
      obtain ⟨rfl, rfl⟩ := Program.runs_ret.mp hreturn
      have hshorter : rest.flatten.length < n := by
        rw [hflatten, ← hn, List.length_drop]
        have hfour : 0 < headerSize := by decide
        have hlength := hcomplete.2
        omega
      obtain ⟨messages, hmessages, hserved, hwritten, hending⟩ :=
        ih _ hshorter hrest (fun i => hsends (i + 1)) hw₁ hlater rfl
      rw [Framing.Decoder.drain_of_message (Frames.front_of_complete hcomplete), ← hflatten]
      refine ⟨(_, text) :: messages, ?_, (Served.one hhandle).trans hserved, ?_, hending⟩
      · exact congrArg (_ :: ·) hmessages
      · exact congrArg (encode text ++ ·) hwritten

/-- **The conversation with a client**, whatever the client sends, in whatever pieces, and in every
state that requests can lead to: if every answer can be written, then what is written are the
encoded answers of `handle`, one after another, to the payloads that `decode` finds in the stream.
The loop ends when `decode` would throw, or when the client has sent all. -/
theorem conversation {w₀ : World} (hfresh : w₀.Fresh)
    {x : Interleaving.Config Call Call.Ans Bytes Json World}
    (hx : Interleaving.Reachable (RequestHandler.reply cfg fp) (Call.exec fp) w₀ x)
    {pieces : List Bytes} (hpieces : [] ∉ pieces) (closes : Bool)
    {sends : Nat → Bytes → List Int}
    (hsends : ∀ i frame, writeAll frame.length (sends i frame) = true) {w' : World}
    {session : Session}
    (h : Runs (Call.exec fp) (handleClient cfg fp sends (pieces ++ tail closes)) x.shared session
      w') :
    ∃ messages : List (Bytes × Bytes),
      messages.map Prod.fst = (decoder.drain pieces.flatten).messages ∧
      Served (RequestHandler.handle cfg fp) (Call.exec fp) x.shared
        (messages.map fun m => (m.1, some m.2)) w' ∧
      session.written = (messages.map fun m => encode m.2).flatten ∧
      session.ending =
        if (decoder.drain pieces.flatten).failed then .closed else lastly closes := by
  exact conversation_of_legible hpieces closes hsends (legible_of_reachable hfresh.legible hx).1 h

/-! ### Two requests and a frame that is too large -/

/-- The header of the third frame announces one byte more than is allowed. -/
def twoAndTooLarge : Bytes :=
  ([joinZero, Skirmish.chatZero].map encode).flatten ++ [1, 0, 16, 0]

/-- The pieces in which they come: the second one ends within the second header. -/
def piecesOfThree : List Bytes :=
  [twoAndTooLarge.take 2, (twoAndTooLarge.drop 2).take 36, twoAndTooLarge.drop 38]

theorem drain_twoAndTooLarge : decoder.drain piecesOfThree.flatten =
    ⟨[joinZero, Skirmish.chatZero], [1, 0, 16, 0], true⟩ := by
  have hflatten : piecesOfThree.flatten = twoAndTooLarge := by decide +kernel
  have hsize : ∀ p ∈ [joinZero, Skirmish.chatZero], p.length ≤ maxMessageSize.toNat := by
    decide +kernel
  have hlarge : TooLarge [1, 0, 16, 0] := by
    constructor
    · decide
    · decide
  have hframes := decoder.drain_encoded (fun p hp => Frames.front_encode (hsize p hp)) [1, 0, 16, 0]
  rw [hflatten, twoAndTooLarge, hframes,
    Framing.Decoder.drain_of_malformed (Frames.front_of_tooLarge hlarge)]
  rfl

/-- The two requests are answered, and the connection is closed, though the client has not closed
it. -/
theorem conversation_twoAndTooLarge : ∃ session w' joined said,
    Runs (Call.exec .zero)
      (handleClient ⟨false, false⟩ .zero (fun _ frame => [(frame.length : Int)])
        (piecesOfThree ++ tail false)) (leftBy ⟨false, false⟩ {} Skirmish.requests) session w' ∧
    Served (RequestHandler.handle ⟨false, false⟩ .zero) (Call.exec .zero)
      (leftBy ⟨false, false⟩ {} Skirmish.requests)
      [(joinZero, some joined), (Skirmish.chatZero, some said)] w' ∧
    session = ⟨encode joined ++ encode said, .closed⟩ := by
  obtain ⟨x, hx, hshared, -⟩ := Interleaving.Reachable.of_served
    (served_repliesTo ⟨false, false⟩ {} Skirmish.requests)
  obtain ⟨session, w', hrun⟩ := Program.exists_runs (Call.exec .zero)
    (handleClient ⟨false, false⟩ .zero (fun _ frame => [(frame.length : Int)])
      (piecesOfThree ++ tail false)) x.shared
  have hpieces : [] ∉ piecesOfThree := by decide +kernel
  obtain ⟨messages, hmessages, hserved, hwritten, hending⟩ := conversation World.started_fresh hx
    hpieces false (fun _ frame => MessageFramer.writeAll_whole frame.length) hrun
  rw [drain_twoAndTooLarge] at hmessages hending
  obtain ⟨⟨_, joined⟩, rest, rfl, rfl, hrest⟩ := List.map_eq_cons_iff.mp hmessages
  obtain ⟨⟨_, said⟩, rfl, rfl⟩ := List.map_eq_singleton_iff.mp hrest
  obtain ⟨written, ending⟩ := session
  obtain rfl : written = encode joined ++ (encode said ++ []) := hwritten
  obtain rfl : ending = .closed := hending
  rw [List.append_nil] at hrun
  rw [hshared] at hrun hserved
  exact ⟨_, w', joined, said, hrun, hserved, rfl⟩

end Conversations
end MultiPlayerGame
