import MultiPlayerGame.Library.Transition

/-!
# The accept loop and the request to stop

`Server::run` and one call of `Server::stop` by another thread, or by the signal handler, at any
point after `run` has begun.  A step is one socket call, one load or store of `m_running`, or the
call of a method of another object: starting and stopping the exporter, creating the pool, handing a
client to it and draining it.  `setsockopt` is left out.

`shutdown` has an effect only on a socket that listens already, and from then on `accept` fails.
-/

namespace MultiPlayerGame
namespace RunLoop

open Transition (System)

/-- Where `run` is.  The places are those between which `stop` can come in. -/
inductive RunPos where
  | outside
  /-- before `socket` -/
  | begun
  /-- before `bind` -/
  | opened
  /-- before `listen` -/
  | bound
  /-- before the exporter is made -/
  | listening
  /-- before the exporter is started -/
  | made
  /-- before the pool is made -/
  | started
  /-- before `m_running.store(true)` -/
  | pooled
  /-- before the load at the head of the loop -/
  | head
  /-- in an iteration, before `accept` -/
  | accepting
  /-- has a client -/
  | accepted
  /-- `accept` has failed -/
  | failed
  /-- has left the loop -/
  | draining
  | returned
  deriving DecidableEq, Repr

/-- Where the call of `stop` is. -/
inductive StopPos where
  | outside
  /-- has stored `false` in `m_running` -/
  | lowered
  /-- has stopped the exporter, if there is one -/
  | exporterStopped
  | returned
  deriving DecidableEq, Repr

structure State where
  /-- `m_running` -/
  running : Bool := false
  /-- `m_listenFd >= 0` -/
  listenFd : Bool := false
  /-- has `listen` been called on the socket? -/
  listens : Bool := false
  /-- has the listening socket been shut down? -/
  shut : Bool := false
  /-- `m_httpMetricsServer`, and whether it is running -/
  exporter : Option Bool := none
  run : RunPos := .outside
  stop : StopPos := .outside
  /-- how many iterations of the accept loop have begun -/
  iterations : Nat := 0
  deriving DecidableEq, Repr

/-- **One step**, of `run` or of `stop`. -/
inductive Step : State → State → Prop where
  | begin (s : State) (h : s.run = .outside) : Step s { s with run := .begun }
  | socket (s : State) (h : s.run = .begun) : Step s { s with run := .opened, listenFd := true }
  | socketFails (s : State) (h : s.run = .begun) : Step s { s with run := .returned }
  | bind (s : State) (h : s.run = .opened) : Step s { s with run := .bound }
  | bindFails (s : State) (h : s.run = .opened) :
      Step s { s with run := .returned, listenFd := false }
  | listen (s : State) (h : s.run = .bound) : Step s { s with run := .listening, listens := true }
  | listenFails (s : State) (h : s.run = .bound) :
      Step s { s with run := .returned, listenFd := false }
  | makeExporter (s : State) (h : s.run = .listening) :
      Step s { s with run := .made, exporter := some false }
  | startExporter (s : State) (ok : Bool) (h : s.run = .made) :
      Step s { s with run := .started, exporter := some ok }
  | makePool (s : State) (h : s.run = .started) : Step s { s with run := .pooled }
  | raise (s : State) (h : s.run = .pooled) : Step s { s with run := .head, running := true }
  | iterate (s : State) (h : s.run = .head) (hrunning : s.running = true) :
      Step s { s with run := .accepting, iterations := s.iterations + 1 }
  | leave (s : State) (h : s.run = .head) (hrunning : s.running = false) :
      Step s { s with run := .draining }
  | accept (s : State) (h : s.run = .accepting) (hopen : s.shut = false) :
      Step s { s with run := .accepted }
  | acceptFails (s : State) (h : s.run = .accepting) : Step s { s with run := .failed }
  | submit (s : State) (h : s.run = .accepted) : Step s { s with run := .head }
  | retry (s : State) (h : s.run = .failed) (hrunning : s.running = true) :
      Step s { s with run := .head }
  | giveUp (s : State) (h : s.run = .failed) (hrunning : s.running = false) :
      Step s { s with run := .draining }
  | drained (s : State) (h : s.run = .draining) : Step s { s with run := .returned }
  | lower (s : State) (h : s.stop = .outside) (hbegun : s.run ≠ .outside) :
      Step s { s with stop := .lowered, running := false }
  | stopExporter (s : State) (h : s.stop = .lowered) :
      Step s { s with stop := .exporterStopped, exporter := s.exporter.map fun _ => false }
  | shutdown (s : State) (h : s.stop = .exporterStopped) (hfd : s.listenFd = true) :
      Step s { s with stop := .returned, shut := s.listens }
  | noSocket (s : State) (h : s.stop = .exporterStopped) (hfd : s.listenFd = false) :
      Step s { s with stop := .returned }

/-- A server that has been constructed. -/
def server : System State where
  Start := fun s => s = {}
  Step := Step

end RunLoop
end MultiPlayerGame
