import MultiPlayerGame.Library.Abstraction
import MultiPlayerGame.Library.Sessions
import MultiPlayerGame.Server.HandleClient

/-!
# The registry of connections, and the whole of `handleClient`

`ConnectionManager` gives every connection a number and counts its messages.  `Server.HandleClient`
leaves it out; here is the whole of `Server::handleClient`, a program over the connection manager,
the sockets and the world (`Registered.handleClient`).  A worker that leaves the loop closes the
socket first and unregisters the connection after that, in two steps, so for a moment the registry
lists a connection whose descriptor is no longer its own.

The other way to look at a connection is as a client of the request handler: it takes the next
payload out of the stream, has it answered, writes the answer back, and so on.  `script` is this
client.  With the request handler put in, it is the loop of `handleClient` without the registry
(`expand_script`), and `Registered.abstracts` says that the whole of `handleClient` is the same
program, seen by someone who sees neither the registry nor the sockets.  So what is known of clients
and their requests carries over to connections.

The lines that are logged are left out, and with them the active count that they read.

## Two descriptions of one loop

`messageLoop` has three parts that are left open: what is done about a message that has been
received, how its payload is answered, and what is done when an answer has been sent.  With the
steps on the registry for the first and the last it is the loop of the source.  With nothing for
these, and a request in place of the answer, it is the client `script`.  Anything that is proved by
following the stream (`stream_induction`) is proved once and holds of both.

The count of messages received goes up before the payload is dispatched, and the count of messages
sent after `writeAll` has returned `true`.  So the two differ by one while a request is being
answered, and for good if the answer could not be written.
-/

namespace MultiPlayerGame

/-! ## The connection manager -/

/-- A connection; `connectedAt` is for the log only. -/
structure ConnectionInfo where
  connectionId : Nat
  fd : Int32
  remoteAddr : Bytes
  messagesReceived : Nat := 0
  messagesSent : Nat := 0
  deriving DecidableEq, Repr

structure ConnectionManager where
  connections : KeyedMap Nat ConnectionInfo := ∅
  nextId : Nat := 1
  totalConnections : Nat := 0

namespace ConnectionManager

/-- `m_nextId.fetch_add(1)`. -/
def fetchAddNextId (m : ConnectionManager) : Nat × ConnectionManager :=
  (m.nextId, { m with nextId := m.nextId + 1 })

/-- The section of `registerConnection` under the mutex; `emplace` keeps what is there. -/
def emplace (info : ConnectionInfo) (m : ConnectionManager) : ConnectionManager :=
  if info.connectionId ∈ m.connections then m
  else { m with connections := m.connections.insert info.connectionId info }

/-- `m_totalConnections.fetch_add(1)`. -/
def fetchAddTotal (m : ConnectionManager) : ConnectionManager :=
  { m with totalConnections := m.totalConnections + 1 }

/-- An increment through the iterator that `find` returned.  A connection that is not registered is
not found, and nothing happens. -/
def modify (connectionId : Nat) (f : ConnectionInfo → ConnectionInfo) (m : ConnectionManager) :
    ConnectionManager :=
  match m.connections.lookup connectionId with
  | none => m
  | some info => { m with connections := m.connections.replace connectionId (f info) }

def recordMessageReceived (connectionId : Nat) : ConnectionManager → ConnectionManager :=
  modify connectionId fun info => { info with messagesReceived := info.messagesReceived + 1 }

def recordMessageSent (connectionId : Nat) : ConnectionManager → ConnectionManager :=
  modify connectionId fun info => { info with messagesSent := info.messagesSent + 1 }

def unregisterConnection (connectionId : Nat) (m : ConnectionManager) : ConnectionManager :=
  { m with connections := m.connections.erase connectionId }

def activeCount (m : ConnectionManager) : Nat := m.connections.size

end ConnectionManager

namespace Server

open MessageFramer (encode readExact writeAll sentBytes readU32LE headerSize maxMessageSize
  flatten_of_readExact)
open Program (View Abstracts)
open Sessions (Script expand expand_bind)

/-- One step on the connection manager: an atomic operation, or a section under the mutex. -/
inductive ConnectionCall where
  | fetchAddNextId
  | emplace (info : ConnectionInfo)
  | fetchAddTotal
  | recordMessageReceived (connectionId : Nat)
  | recordMessageSent (connectionId : Nat)
  | unregisterConnection (connectionId : Nat)

/-- One step of a worker.  It is one on the connection manager, on a socket, or one that the request
handler makes. -/
inductive Call where
  | connection (c : ConnectionCall)
  | close (fd : Int32)
  | world (c : MultiPlayerGame.Call)

@[reducible] def ConnectionCall.Ans : ConnectionCall → Type
  | .fetchAddNextId => Nat
  | _ => Unit

@[reducible] def Call.Ans : Call → Type
  | .connection c => c.Ans
  | .close _ => Unit
  | .world c => c.Ans

/-- What the workers share; `closed` has the descriptors that they have closed. -/
structure State where
  connections : ConnectionManager := {}
  closed : List Int32 := []
  world : World

def ConnectionCall.exec : (c : ConnectionCall) → ConnectionManager → c.Ans × ConnectionManager
  | .fetchAddNextId, m => m.fetchAddNextId
  | .emplace info, m => ((), m.emplace info)
  | .fetchAddTotal, m => ((), m.fetchAddTotal)
  | .recordMessageReceived connectionId, m => ((), m.recordMessageReceived connectionId)
  | .recordMessageSent connectionId, m => ((), m.recordMessageSent connectionId)
  | .unregisterConnection connectionId, m => ((), m.unregisterConnection connectionId)

def Call.exec (fp : Doubles) : (c : Call) → Env → State → c.Ans × State
  | .connection c, _, s =>
    ((c.exec s.connections).1, { s with connections := (c.exec s.connections).2 })
  | .close fd, _, s => ((), { s with closed := s.closed ++ [fd] })
  | .world c, e, s => ((c.exec fp e s.world).1, { s with world := (c.exec fp e s.world).2 })

/-- A program of a worker. -/
abbrev Worker := Program Call Call.Ans

/-- The program of a single step on the connection manager. -/
def connection (c : ConnectionCall) : Worker c.Ans := .call (.connection c) .ret

/-- The program of closing a socket. -/
def close (fd : Int32) : Worker Unit := .call (.close fd) .ret

/-- The request handler, called by a worker. -/
def onWorld {α : Type} : Handler α → Worker α
  | .ret a => .ret a
  | .call c k => .call (.world c) fun x => onWorld (k x)

/-- A connection as `accept` hands it over, with what will come from the client and what `send` will
return. -/
structure Accepted where
  fd : Int32
  remoteAddr : Bytes
  sends : Nat → Bytes → List Int
  stream : List Bytes

/-! ## The loop of `handleClient` -/

/-- How the body of the loop begins: it finds a payload, or it is left, or waits. -/
def receive (stream : List Bytes) : Ending ⊕ Bytes × List Bytes :=
  match readExact headerSize stream with
  | .waits => .inl .waits
  | .failed _ => .inl .closed
  | .done lenBuf afterHeader =>
    let payloadLen := readU32LE lenBuf
    if maxMessageSize < payloadLen then .inl .closed
    else
      match readExact payloadLen.toNat afterHeader with
      | .waits => .inl .waits
      | .failed _ => .inl .closed
      | .done payload rest => .inr (payload, rest)

theorem length_of_receive {stream rest : List Bytes} {payload : Bytes}
    (h : receive stream = .inr (payload, rest)) :
    rest.flatten.length < stream.flatten.length := by
  unfold receive at h
  split at h
  · cases h
  · cases h
  · rename_i hheader
    simp only at h
    split at h
    · cases h
    · split at h
      · cases h
      · cases h
      · rename_i hbody
        cases h
        obtain ⟨hlength, hstream⟩ := flatten_of_readExact hheader
        obtain ⟨-, hrest⟩ := flatten_of_readExact hbody
        rw [hstream, hrest, List.length_append, List.length_append, hlength]
        have hfour : 0 < headerSize := by decide
        omega

/-- The loop is left, or waits. -/
theorem ending_of_receive {stream : List Bytes} {ending : Ending}
    (h : receive stream = .inl ending) : ending = .waits ∨ ending = .closed := by
  unfold receive at h
  split at h
  · cases h
    exact Or.inl rfl
  · cases h
    exact Or.inr rfl
  · simp only at h
    split at h
    · cases h
      exact Or.inr rfl
    · split at h
      · cases h
        exact Or.inl rfl
      · cases h
        exact Or.inr rfl
      · cases h

section Loop

variable {C : Type} {Ans : C → Type}

/-- How the body of the loop ends: the answer is framed and written. -/
def finishBody (sent : Program C Ans Unit) (sends : Bytes → List Int)
    (next : Program C Ans Session) : Option Bytes → Program C Ans Session
  | none => return ⟨[], .threw⟩
  | some responseJson =>
    let frame := encode responseJson
    if writeAll frame.length (sends frame) then do
      sent
      let session ← next
      return session.after frame
    else return ⟨frame.take (sentBytes frame.length (sends frame)), .sendFailed⟩

/-- The loop, with what is done about a message that has been received, about its payload, and about
a message that has been sent. -/
def messageLoop (received : Program C Ans Unit) (dispatch : Bytes → Program C Ans (Option Bytes))
    (sent : Program C Ans Unit) (sends : Nat → Bytes → List Int) (stream : List Bytes) :
    Program C Ans Session :=
  match h : receive stream with
  | .inl ending => return ⟨[], ending⟩
  | .inr (payload, rest) => do
    received
    let response ← dispatch payload
    finishBody sent (sends 0) (messageLoop received dispatch sent (fun i => sends (i + 1)) rest)
      response
termination_by stream.flatten.length
decreasing_by exact length_of_receive h

variable {received : Program C Ans Unit} {dispatch : Bytes → Program C Ans (Option Bytes)}
  {sent : Program C Ans Unit} {sends : Nat → Bytes → List Int} {stream : List Bytes}

theorem messageLoop_of_ending {ending : Ending} (h : receive stream = .inl ending) :
    messageLoop received dispatch sent sends stream = return ⟨[], ending⟩ := by
  rw [messageLoop]
  split
  · rename_i h'
    cases h.symm.trans h'
    rfl
  · rename_i h'
    cases h.symm.trans h'

theorem messageLoop_of_payload {payload : Bytes} {rest : List Bytes}
    (h : receive stream = .inr (payload, rest)) :
    messageLoop received dispatch sent sends stream = (do
      received
      let response ← dispatch payload
      finishBody sent (sends 0) (messageLoop received dispatch sent (fun i => sends (i + 1)) rest)
        response) := by
  rw [messageLoop]
  split
  · rename_i h'
    cases h.symm.trans h'
  · rename_i h'
    cases h.symm.trans h'
    rfl

/-- **Induction on the stream**, one message after another.  The stream gets shorter with every
payload that is taken out of it, and where there is none the loop is left or waits. -/
theorem stream_induction {P : (Nat → Bytes → List Int) → List Bytes → Prop}
    (ends : ∀ sends stream ending, receive stream = .inl ending → P sends stream)
    (message : ∀ sends stream payload rest, receive stream = .inr (payload, rest) →
      P (fun i => sends (i + 1)) rest → P sends stream)
    (sends : Nat → Bytes → List Int) (stream : List Bytes) : P sends stream := by
  induction hn : stream.flatten.length using Nat.strongRecOn generalizing sends stream with
  | ind n ih =>
    cases h : receive stream with
    | inl ending => exact ends sends stream ending h
    | inr next =>
      obtain ⟨payload, rest⟩ := next
      exact message sends stream payload rest h (ih _ (hn ▸ length_of_receive h) _ rest rfl)

end Loop

/-! ## The whole of `handleClient` -/

namespace Registered

/-- The number of the new connection. -/
def registerConnection (fd : Int32) (remoteAddr : Bytes) : Worker Nat := do
  let id ← connection .fetchAddNextId
  connection (.emplace { connectionId := id, fd, remoteAddr })
  connection .fetchAddTotal
  return id

/-- The loop has been left by a `break`, or the worker still waits in `recv`, or an exception passes
by. -/
def afterLoop (clientFd : Int32) (connId : Nat) (session : Session) : Worker Session :=
  match session.ending with
  | .closed | .sendFailed => do
    close clientFd
    connection (.unregisterConnection connId)
    return session
  | .waits | .threw => return session

def handleClient (cfg : Config) (fp : Doubles) (client : Accepted) : Worker Session := do
  let connId ← registerConnection client.fd client.remoteAddr
  let session ← messageLoop (connection (.recordMessageReceived connId))
    (fun payload => onWorld (RequestHandler.handle cfg fp payload))
    (connection (.recordMessageSent connId)) client.sends client.stream
  afterLoop client.fd connId session

end Registered

/-! ## As a client of the request handler -/

/-- Have a payload answered.  The client learns the text of the response, or that it could not be
dumped. -/
def ask (payload : Bytes) : Script Bytes Json (Option Bytes) :=
  .call payload fun response => pure response.dump

/-- The client that `handleClient` is to the request handler. -/
def script (sends : Nat → Bytes → List Int) (stream : List Bytes) : Script Bytes Json Session :=
  messageLoop (pure ()) ask (pure ()) sends stream

/-! ## Without the registry -/

/-- The connection manager and the sockets are not seen. -/
def onlyWorld : View Call.Ans MultiPlayerGame.Call.Ans
  | .connection _ => none
  | .close _ => none
  | .world c => some ⟨c, id⟩

theorem refines_onlyWorld (fp : Doubles) :
    Interleaving.Refines onlyWorld State.world (Call.exec fp) (MultiPlayerGame.Call.exec fp) where
  unseen := by
    intro c e s hc
    cases c with
    | connection | close => rfl
    | world => cases hc
  seen := by
    intro c e s c' g hc
    cases c with
    | connection | close => cases hc
    | world =>
      cases hc
      exact ⟨e, rfl⟩

theorem abstracts_onWorld {α : Type} (p : Handler α) :
    Abstracts onlyWorld id (onWorld p) p := by
  induction p with
  | ret a => exact .ret a
  | call c k ih => exact .call rfl ih

theorem abstracts_connection {β γ : Type} {out : β → γ} {c : ConnectionCall}
    {f : c.Ans → Worker β} {q : Handler γ} (hf : ∀ x, Abstracts onlyWorld out (f x) q) :
    Abstracts onlyWorld out (connection c >>= f) q :=
  .skip rfl hf

section Loop

variable {C C' : Type} {Ans : C → Type} {Ans' : C' → Type} {view : View Ans Ans'}
  {received sent : Program C Ans Unit} {dispatch : Bytes → Program C Ans (Option Bytes)}
  {received' sent' : Program C' Ans' Unit} {dispatch' : Bytes → Program C' Ans' (Option Bytes)}

theorem abstracts_finishBody (hsent : Abstracts view id sent sent') (sends : Bytes → List Int)
    {next : Program C Ans Session} {next' : Program C' Ans' Session}
    (hnext : Abstracts view id next next') (response : Option Bytes) :
    Abstracts view id (finishBody sent sends next response)
      (finishBody sent' sends next' response) := by
  cases response with
  | none => exact .ret _
  | some responseJson =>
    unfold finishBody
    simp only
    split
    · exact hsent.bind fun _ => hnext.bind fun _ => .ret _
    · exact .ret _

/-- What the loop is seen as depends on what its three parts are seen as. -/
theorem abstracts_messageLoop (hreceived : Abstracts view id received received')
    (hdispatch : ∀ payload, Abstracts view id (dispatch payload) (dispatch' payload))
    (hsent : Abstracts view id sent sent') (sends : Nat → Bytes → List Int)
    (stream : List Bytes) :
    Abstracts view id (messageLoop received dispatch sent sends stream)
      (messageLoop received' dispatch' sent' sends stream) := by
  induction sends, stream using stream_induction with
  | ends sends stream ending h =>
    rw [messageLoop_of_ending h, messageLoop_of_ending h]
    exact .ret _
  | message sends stream payload rest h ih =>
    rw [messageLoop_of_payload h, messageLoop_of_payload h]
    exact hreceived.bind fun _ => (hdispatch payload).bind fun response =>
      abstracts_finishBody hsent (sends 0) ih response

end Loop

variable {cfg : Config} {fp : Doubles}

/-- The client of the request handler, with the request handler put in. -/
theorem expand_script (sends : Nat → Bytes → List Int) (stream : List Bytes) :
    expand (RequestHandler.reply cfg fp) (script sends stream) =
      messageLoop (pure ()) (RequestHandler.handle cfg fp) (pure ()) sends stream := by
  unfold script
  induction sends, stream using stream_induction with
  | ends sends stream ending h =>
    rw [messageLoop_of_ending h, messageLoop_of_ending h]
    rfl
  | message sends stream payload rest h ih =>
    rw [messageLoop_of_payload h, messageLoop_of_payload h]
    refine (expand_bind _ (ask payload) _).trans ?_
    refine congrArg (RequestHandler.handle cfg fp payload >>= ·) (funext fun response => ?_)
    cases response with
    | none => rfl
    | some responseJson =>
      unfold finishBody
      simp only
      split
      · refine (expand_bind _ (messageLoop _ _ _ _ _) _).trans ?_
        rw [ih]
        rfl
      · rfl

namespace Registered

/-- **The registry does not show**: without it, `handleClient` is the client of the request
handler, served by it. -/
theorem abstracts (client : Accepted) :
    Abstracts onlyWorld id (handleClient cfg fp client)
      (expand (RequestHandler.reply cfg fp) (script client.sends client.stream)) := by
  have hafter : ∀ connId session, Abstracts onlyWorld id (afterLoop client.fd connId session)
      (.ret session) := by
    intro connId session
    unfold afterLoop
    split
    · exact .skip rfl fun _ => abstracts_connection fun _ => .ret session
    · exact .skip rfl fun _ => abstracts_connection fun _ => .ret session
    · exact .ret session
    · exact .ret session
  rw [expand_script]
  refine abstracts_connection fun connId => abstracts_connection fun _ =>
    abstracts_connection fun _ => ?_
  rw [← Program.bind_ret (messageLoop (pure ()) _ _ _ _)]
  refine (abstracts_messageLoop ?_ (fun payload => abstracts_onWorld _) ?_ _ _).bind
    (hafter connId)
  · exact abstracts_connection fun _ => .ret ()
  · exact abstracts_connection fun _ => .ret ()

end Registered

end Server
end MultiPlayerGame
