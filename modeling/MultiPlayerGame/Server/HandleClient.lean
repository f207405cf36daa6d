import MultiPlayerGame.Server.MessageFramer
import MultiPlayerGame.Server.RequestHandler

/-!
# The connection of a client

`Server::handleClient` reads one frame after another from a client's socket, has the request handler
answer it, and writes the answer back.  It has a header parser of its own and reads exactly the
bytes that the header announces, so it never has bytes of the next frame in its hands.

What the client sends comes in pieces; an empty piece is a `recv` that fails or finds the stream
closed.  What `send` returns may depend on the frame.  The counters of the connection manager and
the log are left out.
-/

namespace MultiPlayerGame
namespace Server

open MessageFramer (encode readExact writeAll sentBytes readU32LE headerSize maxMessageSize
  flatten_of_readExact)

/-- How a call of `handleClient` ends: it waits for the client to send more; it leaves the loop, and
closes the socket, because the client has gone or sends too large a frame, or because a `send` has
failed; or an exception leaves it. -/
inductive Ending where
  | waits
  | closed
  | sendFailed
  | threw
  deriving DecidableEq, Repr

/-- What has been written to the socket in the end. -/
structure Session where
  written : Bytes
  ending : Ending
  deriving DecidableEq, Repr

/-- What has been written before belongs to the session too. -/
def Session.after (before : Bytes) (s : Session) : Session :=
  { s with written := before ++ s.written }

/-- The end of the body of the loop: the answer is framed and written.  `none` is an exception of
the request handler, and `next` is the rest of the loop. -/
def sendResponse (sends : Bytes → List Int) (next : Handler Session) :
    Option Bytes → Handler Session
  | none => return ⟨[], .threw⟩
  | some responseJson =>
    let frame := encode responseJson
    if writeAll frame.length (sends frame) then do
      let session ← next
      return session.after frame
    else return ⟨frame.take (sentBytes frame.length (sends frame)), .sendFailed⟩

/-- The loop of `handleClient`.  `sends i frame` is what `send` returns for the `i`-th answer. -/
def handleClient (cfg : Config) (fp : Doubles) (sends : Nat → Bytes → List Int)
    (stream : List Bytes) : Handler Session :=
  match hheader : readExact headerSize stream with
  | .waits => return ⟨[], .waits⟩
  | .failed _ => return ⟨[], .closed⟩
  | .done lenBuf afterHeader =>
    let payloadLen := readU32LE lenBuf
    if maxMessageSize < payloadLen then return ⟨[], .closed⟩
    else
      match hbody : readExact payloadLen.toNat afterHeader with
      | .waits => return ⟨[], .waits⟩
      | .failed _ => return ⟨[], .closed⟩
      | .done payload rest => do
        let response ← RequestHandler.handle cfg fp payload
        sendResponse (sends 0) (handleClient cfg fp (fun i => sends (i + 1)) rest) response
termination_by stream.flatten.length
decreasing_by
  obtain ⟨hlength, hstream⟩ := flatten_of_readExact hheader
  obtain ⟨-, hrest⟩ := flatten_of_readExact hbody
  rw [hstream, hrest, List.length_append, List.length_append, hlength]
  have hfour : 0 < headerSize := by decide
  omega

end Server
end MultiPlayerGame
