import MultiPlayerGame.Library.Counting
import MultiPlayerGame.Library.Phases
import MultiPlayerGame.Results.Delivery

/-!
# The registry of connections in a running server

Workers register connections, count their messages, close the sockets and unregister the
connections, all at once.  Each step is atomic, but `registerConnection` is three of them, the
counters of a connection are found by its number each time, and a worker that has closed its socket
is still registered for a moment.  `registry_exact` says that the registry is right all the same:
the numbers are distinct; what is registered under a number is the connection of one worker that has
not finished, with the counters it should have; no socket is closed twice; and when no worker is in
the middle of something, the two counts are those of the connections that have come and of those
whose worker is blocked in `recv`, and the sockets of all others have been closed.

A worker goes through stages (`Stage`), and in each of them it makes only some of the steps
(`handleClient_obeys`).  The stages are what the registry has to be compared with: it cannot be said
of the registry alone that it is right, since at any time some workers are between two of their
steps.  What the registry has to do with the stages of all workers is `Kept`, and what the closed
descriptors have to do with them is `Closings`; both survive every step (`Kept.step`,
`Closings.step`).  When nobody is in the middle of something the stages are known from how the
workers have ended, and the counts follow.

An exception would leave a connection registered and its socket open.  On a started server no worker
meets one (`Delivery.not_threw`): the request handler only throws where it dumps an answer that is
not legible, and all its answers are.
-/

namespace MultiPlayerGame
namespace Registry

open Program (Obeys)
open Interleaving (Reachable Sums sent)
open Server (Accepted Session messageLoop finishBody onWorld connection)
open Server.Registered (handleClient registerConnection afterLoop)

/-! ## The stages of a worker -/

/-- Where a worker is with its connection: it has no number yet; it has one, but is not registered;
it is registered, but not counted; it waits for a message; it answers one; it has closed the socket;
it has unregistered. -/
inductive Stage where
  | start (client : Accepted)
  | numbered (info : ConnectionInfo)
  | entered (info : ConnectionInfo)
  | idle (info : ConnectionInfo)
  | busy (info : ConnectionInfo)
  | closing (info : ConnectionInfo)
  | gone (info : ConnectionInfo)

/-- One message more has been received. -/
def received (info : ConnectionInfo) : ConnectionInfo :=
  { info with messagesReceived := info.messagesReceived + 1 }

/-- One message more has been sent. -/
def answered (info : ConnectionInfo) : ConnectionInfo :=
  { info with messagesSent := info.messagesSent + 1 }

namespace Stage

/-- The steps of a worker, with the stages they lead to. -/
inductive Next : Stage → (c : Server.Call) → c.Ans → Stage → Prop where
  | number (client : Accepted) (id : ℕ) :
      Next (.start client) (.connection .fetchAddNextId) id
        (.numbered { connectionId := id, fd := client.fd, remoteAddr := client.remoteAddr })
  | enter (info : ConnectionInfo) :
      Next (.numbered info) (.connection (.emplace info)) () (.entered info)
  | count (info : ConnectionInfo) :
      Next (.entered info) (.connection .fetchAddTotal) () (.idle info)
  | receive (info : ConnectionInfo) :
      Next (.idle info) (.connection (.recordMessageReceived info.connectionId)) ()
        (.busy (received info))
  | work (info : ConnectionInfo) (c : Call) (x : c.Ans) :
      Next (.busy info) (.world c) x (.busy info)
  | send (info : ConnectionInfo) :
      Next (.busy info) (.connection (.recordMessageSent info.connectionId)) ()
        (.idle (answered info))
  | close (info : ConnectionInfo) : Next (.idle info) (.close info.fd) () (.closing info)
  | fail (info : ConnectionInfo) : Next (.busy info) (.close info.fd) () (.closing info)
  | unregister (info : ConnectionInfo) :
      Next (.closing info) (.connection (.unregisterConnection info.connectionId)) () (.gone info)

/-- A worker makes a step in a stage if it leads to another, whatever it is answered. -/
def protocol : Protocol Server.Call Server.Call.Ans Stage where
  allowed st c := ∀ x, ∃ st', Next st c x st'
  next := Next

/-- Where the loop is left.  The stage, the number and how the loop has ended fit together. -/
def AfterLoop (fd : Int32) (connId : ℕ) (st : Stage) (session : Session) : Prop :=
  match session.ending with
  | .waits | .closed => ∃ info, st = .idle info ∧ info.fd = fd ∧ info.connectionId = connId
  | .sendFailed | .threw => ∃ info, st = .busy info ∧ info.fd = fd ∧ info.connectionId = connId

/-- Where a worker is when it is done, or waits for ever. -/
def Last (st : Stage) (session : Session) : Prop :=
  match session.ending with
  | .waits => ∃ info, st = .idle info
  | .threw => ∃ info, st = .busy info
  | .closed | .sendFailed => ∃ info, st = .gone info

end Stage

open Stage (protocol Next AfterLoop Last)

section Worker

variable {cfg : Config} {fp : Doubles}

theorem onWorld_obeys {α : Type} (info : ConnectionInfo) (p : Handler α) :
    Obeys protocol (fun st _ => st = .busy info) (.busy info) (onWorld p) := by
  induction p with
  | ret a => exact rfl
  | call c k ih =>
    refine ⟨fun x => ⟨_, .work info c x⟩, fun x st hst => ?_⟩
    cases hst
    exact ih x

theorem afterLoop_after {fd : Int32} {connId : ℕ} {st : Stage} {session : Session}
    (h : AfterLoop fd connId st session) (frame : Bytes) :
    AfterLoop fd connId st (session.after frame) := h

theorem messageLoop_obeys (info : ConnectionInfo) (sends : ℕ → Bytes → List Int)
    (stream : List Bytes) :
    Obeys protocol (AfterLoop info.fd info.connectionId) (.idle info)
      (messageLoop (connection (.recordMessageReceived info.connectionId))
        (fun payload => onWorld (RequestHandler.handle cfg fp payload))
        (connection (.recordMessageSent info.connectionId)) sends stream) := by
  induction sends, stream using Server.stream_induction generalizing info with
  | ends sends stream ending h =>
    rw [Server.messageLoop_of_ending h]
    rcases Server.ending_of_receive h with rfl | rfl
    · exact ⟨info, rfl, rfl, rfl⟩
    · exact ⟨info, rfl, rfl, rfl⟩
  | message sends stream payload rest h ih =>
    rw [Server.messageLoop_of_payload h]
    refine ⟨fun x => ⟨_, .receive info⟩, fun x st hst => ?_⟩
    cases hst
    refine (onWorld_obeys _ _).bind fun st response hst => ?_
    subst hst
    cases response with
    | none => exact ⟨_, rfl, rfl, rfl⟩
    | some responseJson =>
      unfold finishBody
      simp only
      split
      · refine ⟨fun x => ⟨_, .send (received info)⟩, fun x st hst => ?_⟩
        cases hst
        exact (ih (answered (received info))).bind fun st session hst => afterLoop_after hst _
      · exact ⟨_, rfl, rfl, rfl⟩

/-- With the socket closed, the connection is unregistered. -/
theorem unregister_obeys (info : ConnectionInfo) {session : Session}
    (h : ∀ st, st = .gone info → Last st session) :
    Obeys protocol Last (.closing info)
      (connection (.unregisterConnection info.connectionId) >>= fun _ => .ret session) :=
  ⟨fun _ => ⟨_, .unregister info⟩, fun x st hst => by
    cases hst
    exact h _ rfl⟩

/-- **A worker keeps to the stages.**  It is a fact about the program alone: whatever its steps are
answered, it makes them in the order of the stages. -/
theorem handleClient_obeys (client : Accepted) :
    Obeys protocol Last (.start client) (handleClient cfg fp client) := by
  refine ⟨fun id => ⟨_, .number client id⟩, fun id st hst => ?_⟩
  cases hst
  refine ⟨fun x => ⟨_, .enter _⟩, fun x st hst => ?_⟩
  cases hst
  refine ⟨fun x => ⟨_, .count _⟩, fun x st hst => ?_⟩
  cases hst
  refine (messageLoop_obeys { connectionId := id, fd := client.fd, remoteAddr := client.remoteAddr }
    client.sends client.stream).bind fun st session hst => ?_
  obtain ⟨written, ending⟩ := session
  cases ending with
  | waits =>
    obtain ⟨info, rfl, -⟩ := hst
    exact ⟨info, rfl⟩
  | threw =>
    obtain ⟨info, rfl, -⟩ := hst
    exact ⟨info, rfl⟩
  | closed =>
    obtain ⟨info, rfl, hfd, hid⟩ := hst
    change info.fd = client.fd at hfd
    change info.connectionId = id at hid
    subst hid
    rw [← hfd]
    refine ⟨fun x => ⟨_, .close info⟩, fun x st hst => ?_⟩
    cases hst
    exact unregister_obeys _ fun st hst => ⟨_, hst⟩
  | sendFailed =>
    obtain ⟨info, rfl, hfd, hid⟩ := hst
    change info.fd = client.fd at hfd
    change info.connectionId = id at hid
    subst hid
    rw [← hfd]
    refine ⟨fun x => ⟨_, .fail info⟩, fun x st hst => ?_⟩
    cases hst
    exact unregister_obeys _ fun st hst => ⟨_, hst⟩

end Worker

/-! ## The registry and the stages of all workers -/

namespace Stage

/-- The connection, once it has a number. -/
def info? : Stage → Option ConnectionInfo
  | .start _ => none
  | .numbered info | .entered info | .idle info | .busy info | .closing info | .gone info =>
    some info

/-- The connection as it is registered. -/
def registered? : Stage → Option ConnectionInfo
  | .start _ | .numbered _ | .gone _ => none
  | .entered info | .idle info | .busy info | .closing info => some info

/-- The worker has taken this connection over.  The descriptor and the address in its stage are
those that it was given. -/
def Serves (client : Accepted) : Stage → Prop
  | .start client' => client' = client
  | .numbered info | .entered info | .idle info | .busy info | .closing info | .gone info =>
    info.fd = client.fd ∧ info.remoteAddr = client.remoteAddr

/-- The counters of the connection are as they should be in the stage. -/
def Balanced : Stage → Prop
  | .start _ | .gone _ => True
  | .numbered info | .entered info | .idle info => info.messagesReceived = info.messagesSent
  | .busy info => info.messagesReceived = info.messagesSent + 1
  | .closing info =>
    info.messagesReceived = info.messagesSent ∨ info.messagesReceived = info.messagesSent + 1

/-- One for a worker that has a number. -/
def hasNumber (st : Stage) : ℕ := if st.info?.isSome then 1 else 0

/-- One for a worker that is registered. -/
def isRegistered (st : Stage) : ℕ := if st.registered?.isSome then 1 else 0

/-- One for a worker that has been counted. -/
def isCounted : Stage → ℕ
  | .start _ | .numbered _ | .entered _ => 0
  | .idle _ | .busy _ | .closing _ | .gone _ => 1

/-- One for a worker that has closed its socket, if it is this one. -/
def hasClosed (fd : Int32) : Stage → ℕ
  | .closing info | .gone info => if info.fd = fd then 1 else 0
  | _ => 0

/-- One for a worker that was given this descriptor. -/
def hasFd (fd : Int32) : Stage → ℕ
  | .start client => if client.fd = fd then 1 else 0
  | .numbered info | .entered info | .idle info | .busy info | .closing info | .gone info =>
    if info.fd = fd then 1 else 0

theorem info_of_registered {st : Stage} {info : ConnectionInfo} (h : st.registered? = some info) :
    st.info? = some info := by
  cases st with
  | start | numbered | gone => cases h
  | entered | idle | busy | closing => exact h

end Stage

/-- What the registry has to do with the stages of the workers.  `begun` says which worker was
started with which connection. -/
structure Kept (begun : ℕ → Accepted → Prop) (m : ConnectionManager) (stages : ℕ → Option Stage) :
    Prop where
  serves : ∀ i st, stages i = some st → ∃ client, begun i client ∧ st.Serves client
  balanced : ∀ i st, stages i = some st → st.Balanced
  /-- Numbers have been given out in order, -/
  given : ∀ i st info, stages i = some st → st.info? = some info → info.connectionId < m.nextId
  /-- each to one worker. -/
  distinct : ∀ i j st st' info info', stages i = some st → stages j = some st' →
    st.info? = some info → st'.info? = some info' → info.connectionId = info'.connectionId → i = j
  lookup : ∀ id info, m.connections.lookup id = some info ↔
    info.connectionId = id ∧ ∃ i st, stages i = some st ∧ st.registered? = some info
  numbers : Sums stages Stage.hasNumber (m.nextId - 1)
  started : 1 ≤ m.nextId
  total : Sums stages Stage.isCounted m.totalConnections
  active : Sums stages Stage.isRegistered m.activeCount

section Kept

variable {begun : ℕ → Accepted → Prop} {m m' : ConnectionManager} {stages : ℕ → Option Stage}
  {i : ℕ} {st st' : Stage}

theorem kept_start : Kept begun {} fun _ => none where
  serves := fun i st h => by cases h
  balanced := fun i st h => by cases h
  given := fun i st info h => by cases h
  distinct := fun i j st st' info info' h => by cases h
  lookup := by
    intro id info
    exact iff_of_false (by simp) fun ⟨_, i, st, h, _⟩ => by cases h
  numbers := Interleaving.sums_nothing
  started := Nat.le_refl 1
  total := Interleaving.sums_nothing
  active := Interleaving.sums_nothing

theorem Kept.invoke (h : Kept begun m stages) (hi : stages i = none) {client : Accepted}
    (hbegun : begun i client) :
    Kept begun m (Function.update stages i (some (.start client))) where
  serves := by
    intro j st hj
    rcases Interleaving.update_some_cases hj with ⟨rfl, hst⟩ | ⟨-, hj⟩
    · cases hst
      exact ⟨client, hbegun, rfl⟩
    · exact h.serves j st hj
  balanced := by
    intro j st hj
    rcases Interleaving.update_some_cases hj with ⟨rfl, hst⟩ | ⟨-, hj⟩
    · cases hst
      trivial
    · exact h.balanced j st hj
  given := by
    intro j st info hj hinfo
    rcases Interleaving.update_some_cases hj with ⟨rfl, hst⟩ | ⟨-, hj⟩
    · cases hst
      cases hinfo
    · exact h.given j st info hj hinfo
  distinct := by
    intro j k st st' info info' hj hk hinfo hinfo' heq
    rcases Interleaving.update_some_cases hj with ⟨rfl, hst⟩ | ⟨-, hj⟩
    · cases hst
      cases hinfo
    rcases Interleaving.update_some_cases hk with ⟨rfl, hst⟩ | ⟨-, hk⟩
    · cases hst
      cases hinfo'
    · exact h.distinct j k st st' info info' hj hk hinfo hinfo' heq
  lookup := by
    intro id info
    rw [h.lookup]
    refine and_congr_right fun _ => ⟨?_, ?_⟩
    · rintro ⟨j, st, hj, hst⟩
      have hne : j ≠ i := by
        rintro rfl
        cases hi.symm.trans hj
      exact ⟨j, st, (Function.update_of_ne hne _ _).trans hj, hst⟩
    · rintro ⟨j, st, hj, hst⟩
      rcases Interleaving.update_some_cases hj with ⟨rfl, hst'⟩ | ⟨-, hj⟩
      · cases hst'
        cases hst
      · exact ⟨j, st, hj, hst⟩
  numbers := h.numbers.invoke hi
  started := h.started
  total := h.total.invoke hi
  active := h.active.invoke hi

/-- **A worker moves on** with its connection: what is registered under its number is what should
be in its new stage, and the rest of the registry is as before. -/
theorem Kept.move (h : Kept begun m stages) (hi : stages i = some st) {info info' : ConnectionInfo}
    (hinfo : st.info? = some info) (hinfo' : st'.info? = some info')
    (hid : info'.connectionId = info.connectionId) (hserves : ∀ c, st.Serves c → st'.Serves c)
    (hbalanced : st'.Balanced) (hnext : m'.nextId = m.nextId)
    (hself : m'.connections.lookup info.connectionId = st'.registered?)
    (hothers : ∀ id ≠ info.connectionId, m'.connections.lookup id = m.connections.lookup id)
    (htotal : m'.totalConnections + st.isCounted = m.totalConnections + st'.isCounted)
    (hactive : m'.activeCount + st.isRegistered = m.activeCount + st'.isRegistered) :
    Kept begun m' (Function.update stages i (some st')) where
  serves := by
    intro j stj hj
    rcases Interleaving.update_some_cases hj with ⟨rfl, hst⟩ | ⟨-, hj⟩
    · cases hst
      obtain ⟨client, hbegun, hst⟩ := h.serves j st hi
      exact ⟨client, hbegun, hserves client hst⟩
    · exact h.serves j stj hj
  balanced := by
    intro j stj hj
    rcases Interleaving.update_some_cases hj with ⟨rfl, hst⟩ | ⟨-, hj⟩
    · cases hst
      exact hbalanced
    · exact h.balanced j stj hj
  given := by
    intro j stj infoj hj hinfoj
    rw [hnext]
    rcases Interleaving.update_some_cases hj with ⟨rfl, hst⟩ | ⟨-, hj⟩
    · cases hst
      cases hinfo'.symm.trans hinfoj
      rw [hid]
      exact h.given j st info hi hinfo
    · exact h.given j stj infoj hj hinfoj
  distinct := by
    have hold : ∀ {j stj infoj}, Function.update stages i (some st') j = some stj →
        stj.info? = some infoj → ∃ stj' infoj', stages j = some stj' ∧ stj'.info? = some infoj' ∧
          infoj'.connectionId = infoj.connectionId := by
      intro j stj infoj hj hinfoj
      rcases Interleaving.update_some_cases hj with ⟨rfl, hst⟩ | ⟨-, hj⟩
      · cases hst
        cases hinfo'.symm.trans hinfoj
        exact ⟨st, info, hi, hinfo, hid.symm⟩
      · exact ⟨stj, infoj, hj, hinfoj, rfl⟩
    intro j k stj stk infoj infok hj hk hinfoj hinfok heq
    obtain ⟨stj', infoj', hj', hinfoj', hidj⟩ := hold hj hinfoj
    obtain ⟨stk', infok', hk', hinfok', hidk⟩ := hold hk hinfok
    exact h.distinct j k stj' stk' infoj' infok' hj' hk' hinfoj' hinfok'
      (hidj.trans (heq.trans hidk.symm))
  lookup := by
    intro id infoj
    by_cases hn : id = info.connectionId
    · subst hn
      rw [hself]
      constructor
      · intro hreg
        cases hinfo'.symm.trans (Stage.info_of_registered hreg)
        exact ⟨hid, i, st', Function.update_self .., hreg⟩
      · rintro ⟨hidj, j, stj, hj, hreg⟩
        rcases Interleaving.update_some_cases hj with ⟨-, hst⟩ | ⟨hne, hj⟩
        · cases hst
          exact hreg
        · exact absurd (h.distinct j i stj st infoj info hj hi (Stage.info_of_registered hreg)
            hinfo hidj) hne
    · rw [hothers id hn, h.lookup]
      refine and_congr_right fun hidj => ⟨?_, ?_⟩
      · rintro ⟨j, stj, hj, hreg⟩
        have hne : j ≠ i := by
          rintro rfl
          cases hi.symm.trans hj
          cases hinfo.symm.trans (Stage.info_of_registered hreg)
          exact hn hidj.symm
        exact ⟨j, stj, (Function.update_of_ne hne _ _).trans hj, hreg⟩
      · rintro ⟨j, stj, hj, hreg⟩
        rcases Interleaving.update_some_cases hj with ⟨-, hst⟩ | ⟨-, hj⟩
        · cases hst
          cases hinfo'.symm.trans (Stage.info_of_registered hreg)
          exact absurd (hidj.symm.trans hid) hn
        · exact ⟨j, stj, hj, hreg⟩
  numbers := by
    rw [hnext]
    refine h.numbers.same hi ?_
    rw [Stage.hasNumber, Stage.hasNumber, hinfo, hinfo']
    rfl
  started := by
    rw [hnext]
    exact h.started
  total := h.total.call hi htotal
  active := h.active.call hi hactive

/-- A worker is given a number. -/
theorem Kept.number (h : Kept begun m stages) {client : Accepted}
    (hi : stages i = some (.start client)) :
    Kept begun m.fetchAddNextId.2 (Function.update stages i (some (.numbered
      { connectionId := m.nextId, fd := client.fd, remoteAddr := client.remoteAddr }))) where
  serves := by
    intro j stj hj
    rcases Interleaving.update_some_cases hj with ⟨rfl, hst⟩ | ⟨-, hj⟩
    · cases hst
      obtain ⟨client', hbegun, rfl⟩ := h.serves j _ hi
      exact ⟨client, hbegun, rfl, rfl⟩
    · exact h.serves j stj hj
  balanced := by
    intro j stj hj
    rcases Interleaving.update_some_cases hj with ⟨rfl, hst⟩ | ⟨-, hj⟩
    · cases hst
      rfl
    · exact h.balanced j stj hj
  given := by
    intro j stj info hj hinfo
    rcases Interleaving.update_some_cases hj with ⟨rfl, hst⟩ | ⟨-, hj⟩
    · cases hst
      cases hinfo
      exact Nat.lt_succ_self _
    · exact Nat.lt_succ_of_lt (h.given j stj info hj hinfo)
  distinct := by
    intro j k stj stk info info' hj hk hinfo hinfo' heq
    rcases Interleaving.update_some_cases hj with ⟨hji, hst⟩ | ⟨-, hj⟩ <;>
      rcases Interleaving.update_some_cases hk with ⟨hki, hst'⟩ | ⟨-, hk⟩
    · exact hji.trans hki.symm
    · cases hst
      cases hinfo
      exact absurd (h.given k stk info' hk hinfo') (by rw [← heq]; exact Nat.lt_irrefl _)
    · cases hst'
      cases hinfo'
      exact absurd (h.given j stj info hj hinfo) (by rw [heq]; exact Nat.lt_irrefl _)
    · exact h.distinct j k stj stk info info' hj hk hinfo hinfo' heq
  lookup := by
    intro id info
    refine (h.lookup id info).trans (and_congr_right fun _ => ⟨?_, ?_⟩)
    · rintro ⟨j, stj, hj, hreg⟩
      have hne : j ≠ i := by
        rintro rfl
        cases hi.symm.trans hj
        cases hreg
      exact ⟨j, stj, (Function.update_of_ne hne _ _).trans hj, hreg⟩
    · rintro ⟨j, stj, hj, hreg⟩
      rcases Interleaving.update_some_cases hj with ⟨-, hst⟩ | ⟨-, hj⟩
      · cases hst
        cases hreg
      · exact ⟨j, stj, hj, hreg⟩
  numbers := by
    refine h.numbers.call hi ?_
    have hstarted := h.started
    show m.nextId + 1 - 1 + 0 = m.nextId - 1 + 1
    omega
  started := Nat.le_succ_of_le h.started
  total := h.total.same hi rfl
  active := h.active.same hi rfl

/-- The connection of a worker is found under its number as it is registered. -/
theorem Kept.lookup_self (h : Kept begun m stages) (hi : stages i = some st)
    {info : ConnectionInfo} (hinfo : st.info? = some info) :
    m.connections.lookup info.connectionId = st.registered? := by
  cases hreg : st.registered? with
  | some info' =>
    cases hinfo.symm.trans (Stage.info_of_registered hreg)
    exact (h.lookup _ _).mpr ⟨rfl, i, st, hi, hreg⟩
  | none =>
    cases hfound : m.connections.lookup info.connectionId with
    | none => rfl
    | some info' =>
      obtain ⟨hid, j, stj, hj, hregj⟩ := (h.lookup _ _).mp hfound
      have hji := h.distinct j i stj st info' info hj hi (Stage.info_of_registered hregj) hinfo hid
      subst hji
      cases hi.symm.trans hj
      cases hreg.symm.trans hregj

/-- A worker counts a message. -/
theorem Kept.modify (h : Kept begun m stages) (hi : stages i = some st) {info : ConnectionInfo}
    (hreg : st.registered? = some info) {f : ConnectionInfo → ConnectionInfo}
    (hreg' : st'.registered? = some (f info)) (hid : (f info).connectionId = info.connectionId)
    (hserves : ∀ c, st.Serves c → st'.Serves c) (hbalanced : st'.Balanced)
    (hcounted : st'.isCounted = st.isCounted) :
    Kept begun (m.modify info.connectionId f) (Function.update stages i (some st')) := by
  have hinfo := Stage.info_of_registered hreg
  have hfound := (h.lookup_self hi hinfo).trans hreg
  have hmodify : m.modify info.connectionId f =
      { m with connections := m.connections.replace info.connectionId (f info) } := by
    rw [ConnectionManager.modify, hfound]
  rw [hmodify]
  refine h.move hi hinfo (Stage.info_of_registered hreg') hid hserves hbalanced rfl ?_ ?_ ?_ ?_
  · exact (KeyedMap.lookup_replace (KeyedMap.mem_of_lookup hfound) _).trans hreg'.symm
  · exact fun id hne => KeyedMap.lookup_replace_ne hne _
  · rw [hcounted]
  · have hsize := KeyedMap.size_replace m.connections info.connectionId (f info)
    rw [Stage.isRegistered, Stage.isRegistered, hreg, hreg']
    exact congrArg (· + 1) hsize

/-- A worker unregisters its connection. -/
theorem Kept.unregister (h : Kept begun m stages) (hi : stages i = some st)
    {info : ConnectionInfo} (hreg : st.registered? = some info)
    (hserves : ∀ c, st.Serves c → Stage.Serves c (.gone info)) (hcounted : st.isCounted = 1) :
    Kept begun (m.unregisterConnection info.connectionId)
      (Function.update stages i (some (.gone info))) := by
  have hinfo := Stage.info_of_registered hreg
  have hfound := (h.lookup_self hi hinfo).trans hreg
  refine h.move hi hinfo rfl rfl hserves trivial rfl ?_ ?_ ?_ ?_
  · exact AList.lookup_erase ..
  · exact fun id hne => AList.lookup_erase_ne hne
  · rw [hcounted]
    rfl
  · have hsize := KeyedMap.size_erase (KeyedMap.mem_of_lookup hfound)
    rw [Stage.isRegistered, hreg]
    exact hsize

/-- **Every step of a worker keeps the registry right.**  One worker moves from one stage to the
next, and the registry with it; what is said of the others does not change. -/
theorem Kept.step {fp : Doubles} {s : Server.State} (h : Kept begun s.connections stages)
    (hi : stages i = some st) {c : Server.Call} (hallowed : protocol.allowed st c) (e : Env) :
    ∃ st', Next st c (c.exec fp e s).1 st' ∧
      Kept begun (c.exec fp e s).2.connections (Function.update stages i (some st')) := by
  obtain ⟨st', hnext⟩ := hallowed (c.exec fp e s).1
  refine ⟨st', hnext, ?_⟩
  generalize hx : (c.exec fp e s).1 = x at hnext
  cases hnext with
  | number client id =>
    cases hx
    exact h.number hi
  | enter info =>
    have hfound : s.connections.connections.lookup info.connectionId = none :=
      h.lookup_self hi rfl
    have hnot : info.connectionId ∉ s.connections.connections := AList.lookup_eq_none.mp hfound
    have hemplace : s.connections.emplace info = { s.connections with
        connections := s.connections.connections.insert info.connectionId info } := if_neg hnot
    have hbalanced : info.messagesReceived = info.messagesSent := h.balanced i _ hi
    show Kept begun (s.connections.emplace info) _
    rw [hemplace]
    refine h.move hi rfl rfl rfl (fun _ hc => hc) hbalanced rfl ?_ ?_ rfl ?_
    · exact AList.lookup_insert _
    · exact fun id hne => AList.lookup_insert_ne hne
    · exact KeyedMap.size_insert hnot info
  | count info =>
    have hbalanced : info.messagesReceived = info.messagesSent := h.balanced i _ hi
    exact h.move hi rfl rfl rfl (fun _ hc => hc) hbalanced rfl (h.lookup_self hi rfl)
      (fun _ _ => rfl) rfl rfl
  | receive info =>
    exact h.modify hi rfl rfl rfl (fun _ hc => hc)
      (congrArg (· + 1) (h.balanced i _ hi)) rfl
  | work info c x =>
    exact h.move hi rfl rfl rfl (fun _ hc => hc) (h.balanced i _ hi) rfl (h.lookup_self hi rfl)
      (fun _ _ => rfl) rfl rfl
  | send info =>
    have hbalanced : info.messagesReceived = info.messagesSent + 1 := h.balanced i _ hi
    exact h.modify hi rfl rfl rfl (fun _ hc => hc) hbalanced rfl
  | close info =>
    have hbalanced : info.messagesReceived = info.messagesSent := h.balanced i _ hi
    exact h.move hi rfl rfl rfl (fun _ hc => hc) (Or.inl hbalanced) rfl (h.lookup_self hi rfl)
      (fun _ _ => rfl) rfl rfl
  | fail info =>
    have hbalanced : info.messagesReceived = info.messagesSent + 1 := h.balanced i _ hi
    exact h.move hi rfl rfl rfl (fun _ hc => hc) (Or.inr hbalanced) rfl (h.lookup_self hi rfl)
      (fun _ _ => rfl) rfl rfl
  | unregister info => exact h.unregister hi rfl (fun _ hc => hc) rfl

end Kept

/-! ## The sockets and the stages of all workers -/

/-- A descriptor has been closed as often as workers have closed a socket with this descriptor. -/
def Closings (closed : List Int32) (stages : ℕ → Option Stage) : Prop :=
  ∀ fd, Sums stages (Stage.hasClosed fd) (closed.count fd)

section Closings

variable {closed : List Int32} {stages : ℕ → Option Stage} {i : ℕ} {st st' : Stage}

theorem closings_start : Closings [] fun _ => none := fun _ => Interleaving.sums_nothing

theorem Closings.invoke (h : Closings closed stages) (hi : stages i = none) (client : Accepted) :
    Closings closed (Function.update stages i (some (.start client))) := fun fd =>
  (h fd).invoke hi

/-- Only closing a socket counts, and it counts once. -/
theorem Closings.step {fp : Doubles} {s : Server.State} (h : Closings s.closed stages)
    (hi : stages i = some st) {c : Server.Call} {x : c.Ans} (hnext : Next st c x st') (e : Env) :
    Closings (c.exec fp e s).2.closed (Function.update stages i (some st')) := by
  intro fd
  have hcount : ∀ fd', (s.closed ++ [fd']).count fd =
      s.closed.count fd + if fd' = fd then 1 else 0 :=
    fun fd' => by
      rw [List.count_append, List.count_singleton]
      exact congrArg _ (if_congr beq_iff_eq rfl rfl)
  cases hnext with
  | close info => exact (h fd).call hi (hcount info.fd)
  | fail info => exact (h fd).call hi (hcount info.fd)
  | _ => exact (h fd).same hi rfl

end Closings

/-! ## In every interleaving -/

section System

variable {cfg : Config} {fp : Doubles} {w₀ : World}
  {x : Interleaving.Config Server.Call Server.Call.Ans Accepted Session Server.State}

/-- What is registered under a number: the connection that this worker was started with, of whose
messages at most one has not been answered; the worker has not come to its end, unless it is blocked
in `recv`. -/
structure Entry (x : Interleaving.Config Server.Call Server.Call.Ans Accepted Session Server.State)
    (id worker : ℕ) (info : ConnectionInfo) : Prop where
  number : info.connectionId = id
  client : ∃ client, .invoke worker client ∈ x.history ∧ info.fd = client.fd ∧
    info.remoteAddr = client.remoteAddr
  unfinished : ∀ session, .respond worker session ∈ x.history → session.ending = .waits
  sent_le : info.messagesSent ≤ info.messagesReceived
  received_le : info.messagesReceived ≤ info.messagesSent + 1

open Classical in
/-- The workers that were given this descriptor. -/
noncomputable def given
    (x : Interleaving.Config Server.Call Server.Call.Ans Accepted Session Server.State)
    (fd : Int32) : Finset ℕ :=
  (sent x.history).filter fun i => ∃ client, .invoke i client ∈ x.history ∧ client.fd = fd

open Classical in
/-- When every worker has finished or is blocked in `recv`, the connection manager reports all
connections so far, and those whose worker is blocked; and every other worker has closed its socket,
once. -/
structure Settled
    (x : Interleaving.Config Server.Call Server.Call.Ans Accepted Session Server.State) : Prop where
  total : x.shared.connections.totalConnections = (sent x.history).card
  nextId : x.shared.connections.nextId = (sent x.history).card + 1
  active : x.shared.connections.activeCount = ((sent x.history).filter fun i =>
    ∃ session, .respond i session ∈ x.history ∧ session.ending = .waits).card
  closed : ∀ fd, x.shared.closed.count fd = ((given x fd).filter fun i =>
    ∃ session, .respond i session ∈ x.history ∧ session.ending ≠ .waits).card

/-- The stages of the workers in a configuration. -/
abbrev Staged (x : Interleaving.Config Server.Call Server.Call.Ans Accepted Session Server.State)
    (stages : ℕ → Option Stage) : Prop :=
  Interleaving.Phased protocol Last (fun s stages =>
    Kept (fun i client => .invoke i client ∈ x.history) s.connections stages ∧
      Closings s.closed stages) x stages

theorem exists_stages
    (hx : Reachable (handleClient cfg fp) (Server.Call.exec fp) { world := w₀ } x) :
    ∃ stages, Staged x stages :=
  Reachable.phased (fun _ client _ => handleClient_obeys client) ⟨kept_start, closings_start⟩
    (fun _ _ _ client hbegun hnone hinv =>
      ⟨hinv.1.invoke hnone hbegun, hinv.2.invoke hnone client⟩)
    (fun _ _ _ _ _ e hinv hst hallowed => by
      obtain ⟨st', hnext, hkept⟩ := hinv.1.step hst hallowed e
      exact ⟨st', hnext, hkept, hinv.2.step hst hnext e⟩) hx fun _ _ hinv => hinv

/-- A worker that has finished. -/
theorem counts_of_last {st : Stage} {session : Session} (h : Last st session)
    (hthrew : session.ending ≠ .threw) :
    st.hasNumber = 1 ∧ st.isCounted = 1 ∧
      st.isRegistered = (if session.ending = .waits then 1 else 0) ∧
      ∀ fd, st.hasClosed fd = if session.ending = .waits then 0 else st.hasFd fd := by
  obtain ⟨written, ending⟩ := session
  cases ending with
  | threw => exact absurd rfl hthrew
  | waits | closed | sendFailed =>
    obtain ⟨info, rfl⟩ := h
    exact ⟨rfl, rfl, rfl, fun _ => rfl⟩

theorem entry_of_registered {stages : ℕ → Option Stage} (h : Staged x stages)
    (hthrew : ∀ i session, .respond i session ∈ x.history → session.ending ≠ .threw) {i id : ℕ}
    {st : Stage} {info : ConnectionInfo} (hi : stages i = some st)
    (hreg : st.registered? = some info) (hid : info.connectionId = id) : Entry x id i info := by
  obtain ⟨client, hbegun, hserves⟩ := h.inv.1.serves i st hi
  have hbalanced := h.inv.1.balanced i st hi
  refine ⟨hid, ⟨client, hbegun, ?_⟩, ?_, ?_, ?_⟩
  · cases st with
    | start | numbered | gone => cases hreg
    | entered | idle | busy | closing =>
      cases hreg
      exact hserves
  · intro session hresp
    obtain ⟨st', hi', hlast⟩ := h.answered i session hresp
    cases hi.symm.trans hi'
    by_contra hclosed
    have hzero := (counts_of_last hlast (hthrew i session hresp)).2.2.1
    rw [if_neg hclosed, Stage.isRegistered, hreg] at hzero
    cases hzero
  · cases st with
    | start | numbered | gone => cases hreg
    | entered | idle =>
      cases hreg
      exact Nat.le_of_eq hbalanced.symm
    | busy =>
      cases hreg
      exact Nat.le_of_lt (Nat.lt_of_lt_of_eq (Nat.lt_succ_self _) hbalanced.symm)
    | closing =>
      cases hreg
      rcases hbalanced with heq | heq
      · exact Nat.le_of_eq heq.symm
      · exact Nat.le_of_lt (Nat.lt_of_lt_of_eq (Nat.lt_succ_self _) heq.symm)
  · cases st with
    | start | numbered | gone => cases hreg
    | entered | idle =>
      cases hreg
      exact Nat.le_succ_of_le (Nat.le_of_eq hbalanced)
    | busy =>
      cases hreg
      exact Nat.le_of_eq hbalanced
    | closing =>
      cases hreg
      rcases hbalanced with heq | heq
      · exact Nat.le_succ_of_le (Nat.le_of_eq heq)
      · exact Nat.le_of_eq heq

theorem mem_sent_iff {stages : ℕ → Option Stage} (h : Staged x stages) (i : ℕ) :
    i ∈ sent x.history ↔ stages i ≠ none :=
  Interleaving.mem_sent.trans (h.begun i).symm

open Classical in
/-- The descriptor of a worker in its stage is the one it was given. -/
theorem hasFd_eq (hx : Reachable (handleClient cfg fp) (Server.Call.exec fp) { world := w₀ } x)
    {stages : ℕ → Option Stage} (h : Staged x stages) {i : ℕ} {st : Stage} (hi : stages i = some st)
    (fd : Int32) : st.hasFd fd =
      if ∃ client, .invoke i client ∈ x.history ∧ client.fd = fd then 1 else 0 := by
  obtain ⟨client, hbegun, hserves⟩ := h.inv.1.serves i st hi
  have hiff : (∃ client, .invoke i client ∈ x.history ∧ client.fd = fd) ↔ client.fd = fd := by
    refine ⟨?_, fun heq => ⟨client, hbegun, heq⟩⟩
    rintro ⟨client', hinv, heq⟩
    rwa [Reachable.invoked_once hx hbegun hinv]
  rw [if_congr hiff rfl rfl]
  cases st with
  | start client' =>
    cases hserves
    rfl
  | numbered | entered | idle | busy | closing | gone => rw [Stage.hasFd, hserves.1]

open Classical in
/-- **No socket is closed twice.**  Closing a socket is a step of one stage, which a worker passes
once. -/
theorem closed_le (hx : Reachable (handleClient cfg fp) (Server.Call.exec fp) { world := w₀ } x)
    {stages : ℕ → Option Stage} (h : Staged x stages) (fd : Int32) :
    x.shared.closed.count fd ≤ (given x fd).card := by
  rw [(h.inv.2 fd).eq_sum (mem_sent_iff h), given, Finset.card_filter]
  refine Finset.sum_le_sum fun i _ => ?_
  cases hi : stages i with
  | none => exact Nat.zero_le _
  | some st =>
    have hle : st.hasClosed fd ≤ st.hasFd fd := by
      cases st with
      | closing | gone => exact Nat.le_refl _
      | _ => exact Nat.zero_le _
    rw [hasFd_eq hx h hi] at hle
    exact hle

open Classical in
theorem settled_of_quiet
    (hx : Reachable (handleClient cfg fp) (Server.Call.exec fp) { world := w₀ } x)
    {stages : ℕ → Option Stage} (h : Staged x stages)
    (hthrew : ∀ i session, .respond i session ∈ x.history → session.ending ≠ .threw)
    (hquiet : x.Quiet) : Settled x := by
  -- every worker has finished
  have hlast : ∀ i ∈ sent x.history, ∃ st session, stages i = some st ∧ Last st session ∧
      .respond i session ∈ x.history := by
    intro i hi
    obtain ⟨client, hinv⟩ := Interleaving.mem_sent.mp hi
    obtain ⟨session, hresp⟩ := hx.answered_of_done hinv (hquiet i)
    obtain ⟨st, hst, hlast⟩ := h.answered i session hresp
    exact ⟨st, session, hst, hlast, hresp⟩
  have hcard : ∀ f : Stage → ℕ,
      (∀ st session, Last st session → session.ending ≠ .threw → f st = 1) →
      ∑ i ∈ sent x.history, (stages i).elim 0 f = (sent x.history).card := by
    intro f hf
    rw [Finset.card_eq_sum_ones]
    refine Finset.sum_congr rfl fun i hi => ?_
    obtain ⟨st, session, hst, hlast, hresp⟩ := hlast i hi
    rw [hst]
    exact hf st session hlast (hthrew i session hresp)
  -- and has one answer
  have hwaits : ∀ {i session}, .respond i session ∈ x.history →
      ∀ P : Server.Ending → Prop,
        (∃ session', .respond i session' ∈ x.history ∧ P session'.ending) ↔ P session.ending := by
    intro i session hresp P
    refine ⟨?_, fun hP => ⟨session, hresp, hP⟩⟩
    rintro ⟨session', hresp', hP⟩
    rwa [hx.answered_once hresp hresp']
  refine ⟨?_, ?_, ?_, fun fd => ?_⟩
  · rw [h.inv.1.total.eq_sum (mem_sent_iff h)]
    exact hcard _ fun st session hst hne => (counts_of_last hst hne).2.1
  · have hnumbers := h.inv.1.numbers.eq_sum (mem_sent_iff h)
    rw [hcard _ fun st session hst hne => (counts_of_last hst hne).1] at hnumbers
    have hstarted := h.inv.1.started
    omega
  · rw [h.inv.1.active.eq_sum (mem_sent_iff h), Finset.card_filter]
    refine Finset.sum_congr rfl fun i hi => ?_
    obtain ⟨st, session, hst, hlast, hresp⟩ := hlast i hi
    rw [hst, Option.elim_some, (counts_of_last hlast (hthrew i session hresp)).2.2.1]
    exact if_congr (hwaits hresp (· = .waits)).symm rfl rfl
  · rw [(h.inv.2 fd).eq_sum (mem_sent_iff h), given, Finset.filter_filter, Finset.card_filter]
    refine Finset.sum_congr rfl fun i hi => ?_
    obtain ⟨st, session, hst, hlast, hresp⟩ := hlast i hi
    rw [hst, Option.elim_some, (counts_of_last hlast (hthrew i session hresp)).2.2.2 fd,
      hasFd_eq hx h hst fd, hwaits hresp (· ≠ .waits)]
    by_cases hending : session.ending = .waits
    · rw [if_pos hending, if_neg fun hand => hand.2 hending]
    rw [if_neg hending]
    by_cases hfd : ∃ client, .invoke i client ∈ x.history ∧ client.fd = fd
    · rw [if_pos hfd, if_pos ⟨hfd, hending⟩]
    · rw [if_neg hfd, if_neg fun hand => hfd hand.1]

/-- **The registry of connections is right**, in every interleaving of any number of workers on a
started server. -/
theorem registry_exact (hfresh : w₀.Fresh)
    (hx : Reachable (handleClient cfg fp) (Server.Call.exec fp) { world := w₀ } x) :
    (∃ worker : ℕ → ℕ,
      (∀ id info, x.shared.connections.connections.lookup id = some info →
        Entry x id (worker id) info) ∧
      ∀ id id', id ∈ x.shared.connections.connections → id' ∈ x.shared.connections.connections →
        worker id = worker id' → id = id') ∧
    x.shared.connections.totalConnections < x.shared.connections.nextId ∧
    (∀ fd, x.shared.closed.count fd ≤ (given x fd).card) ∧
    (x.Quiet → Settled x) := by
  obtain ⟨stages, h⟩ := exists_stages hx
  have hthrew : ∀ i session, .respond i session ∈ x.history → session.ending ≠ .threw :=
    fun _ _ hresp => Delivery.not_threw hfresh hx hresp
  refine ⟨?_, ?_, closed_le hx h, settled_of_quiet hx h hthrew⟩
  · have hworker : ∀ id, ∃ i, ∀ info, x.shared.connections.connections.lookup id = some info →
        info.connectionId = id ∧ ∃ st, stages i = some st ∧ st.registered? = some info := by
      intro id
      cases hfound : x.shared.connections.connections.lookup id with
      | none => exact ⟨0, fun info hinfo => by cases hinfo⟩
      | some info =>
        obtain ⟨hid, i, st, hi, hreg⟩ := (h.inv.1.lookup id info).mp hfound
        refine ⟨i, fun info' hinfo' => ?_⟩
        cases hinfo'
        exact ⟨hid, st, hi, hreg⟩
    choose worker hworker using hworker
    refine ⟨worker, ?_, ?_⟩
    · intro id info hfound
      obtain ⟨hid, st, hi, hreg⟩ := hworker id info hfound
      exact entry_of_registered h hthrew hi hreg hid
    · intro id id' hid hid' heq
      obtain ⟨info, hfound⟩ := Option.isSome_iff_exists.mp (AList.lookup_isSome.mpr hid)
      obtain ⟨info', hfound'⟩ := Option.isSome_iff_exists.mp (AList.lookup_isSome.mpr hid')
      obtain ⟨rfl, st, hi, hreg⟩ := hworker id info hfound
      obtain ⟨rfl, st', hi', hreg'⟩ := hworker id' info' hfound'
      rw [heq] at hi
      cases hi.symm.trans hi'
      cases hreg.symm.trans hreg'
      rfl
  · have hle := h.inv.1.total.le_of_le h.inv.1.numbers fun st => by
      cases st with
      | start | idle | busy | closing | gone => exact Nat.le_refl _
      | numbered | entered => exact Nat.zero_le _
    have hstarted := h.inv.1.started
    omega

/-- Two workers have come and gone, and have closed their sockets. -/
theorem two_connections_registered : ∃ x : Interleaving.Config Server.Call Server.Call.Ans Accepted
      Session Server.State,
    x.shared.connections.totalConnections = 2 ∧ x.shared.connections.activeCount = 0 ∧
      x.shared.closed.count 4 = 1 ∧ x.shared.closed.count 5 = 1 := by
  classical
  obtain ⟨x, session, session', hx, hquiet, hhistory⟩ := Delivery.exists_two_connections
  obtain ⟨-, -, -, hsettled⟩ := registry_exact World.started_fresh hx
  have hsent : sent x.history = {0, 1} := by
    rw [hhistory]
    rfl
  have hinv : ∀ i client, .invoke i client ∈ x.history ↔
      i = 0 ∧ client = Delivery.first ∨ i = 1 ∧ client = Delivery.second := by
    rw [hhistory]
    simp
  have hresp : ∀ i s, .respond i s ∈ x.history ↔ i = 1 ∧ s = session' ∨ i = 0 ∧ s = session := by
    rw [hhistory]
    simp
  obtain ⟨_, h⟩ := Delivery.exists_delivered World.started_fresh hx
    ((hinv 0 _).mpr (Or.inl ⟨rfl, rfl⟩)) ((hresp 0 _).mpr (Or.inr ⟨rfl, rfl⟩))
    Delivery.first_ne_nil rfl
  obtain ⟨_, h'⟩ := Delivery.exists_delivered World.started_fresh hx
    ((hinv 1 _).mpr (Or.inr ⟨rfl, rfl⟩)) ((hresp 1 _).mpr (Or.inl ⟨rfl, rfl⟩))
    Delivery.second_ne_nil rfl
  -- neither of them waits
  have hnever : ∀ i s, .respond i s ∈ x.history → s.ending ≠ .waits := by
    intro i s hs
    rcases (hresp i s).mp hs with ⟨-, rfl⟩ | ⟨-, rfl⟩
    · exact h'.not_waits
    · exact h.not_waits
  have hclosed : ∀ fd i, (i ∈ (given x fd).filter fun i =>
      ∃ s, .respond i s ∈ x.history ∧ s.ending ≠ .waits) ↔ i = 0 ∧ fd = 4 ∨ i = 1 ∧ fd = 5 := by
    intro fd i
    rw [Finset.mem_filter, given, Finset.mem_filter, hsent]
    constructor
    · rintro ⟨⟨-, client, hclient, rfl⟩, -⟩
      rcases (hinv i client).mp hclient with ⟨rfl, rfl⟩ | ⟨rfl, rfl⟩
      · exact Or.inl ⟨rfl, rfl⟩
      · exact Or.inr ⟨rfl, rfl⟩
    · rintro (⟨rfl, rfl⟩ | ⟨rfl, rfl⟩)
      · exact ⟨⟨by decide, _, (hinv 0 _).mpr (Or.inl ⟨rfl, rfl⟩), rfl⟩, _,
          (hresp 0 _).mpr (Or.inr ⟨rfl, rfl⟩), h.not_waits⟩
      · exact ⟨⟨by decide, _, (hinv 1 _).mpr (Or.inr ⟨rfl, rfl⟩), rfl⟩, _,
          (hresp 1 _).mpr (Or.inl ⟨rfl, rfl⟩), h'.not_waits⟩
  refine ⟨x, ?_, ?_, ?_, ?_⟩
  · rw [(hsettled hquiet).total, hsent]
    rfl
  · rw [(hsettled hquiet).active, Finset.card_eq_zero, Finset.filter_eq_empty_iff]
    exact fun i _ ⟨s, hs, hwaits⟩ => hnever i s hs hwaits
  · rw [(hsettled hquiet).closed]
    refine Finset.card_eq_one.mpr ⟨0, Finset.ext fun i => ?_⟩
    rw [hclosed, Finset.mem_singleton]
    simp
  · rw [(hsettled hquiet).closed]
    refine Finset.card_eq_one.mpr ⟨1, Finset.ext fun i => ?_⟩
    rw [hclosed, Finset.mem_singleton]
    simp

end System

end Registry
end MultiPlayerGame
