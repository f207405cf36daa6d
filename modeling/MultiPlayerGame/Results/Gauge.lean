import MultiPlayerGame.Library.Traces
import MultiPlayerGame.Results.Elimination

/-!
# The gauge of active players when handlers overlap

A successful `JOIN` or `LEAVE` counts the players and then stores the count in the gauge, in two
steps.  Neither step is taken under a lock that the other holds, so another player may join or leave
in between, and then the count is out of date when it is stored.  By itself that does no harm.
Whoever changed the number of players in between counts and stores after that, and its store will
put the gauge right.  It does harm when the late store comes last: then nobody is left who would
correct the gauge, and it stays wrong until the next `JOIN` or `LEAVE`.  Two `JOIN`s suffice for
this (`exists_stale`).

## The condition

A handler that has changed the number of players and has not stored the gauge since owes a store
(`Owes`).  A store is the last when nobody else owes one.  `InTime` asks of a last store that no
player has joined or left between the count of its handler and the store itself, and that the
players, when it is made, are few enough for an `int`.  It speaks of the order in which the handlers
took their steps, and of the state the store finds; what the handler has counted does not come in.

`gauge_right` says that a run all of whose stores are in time shows the right number whenever nobody
is being served.

## The invariant

What carries the induction over the run is `Pending`: while the gauge is wrong, some handler owes a
store, and a handler that owes one is still being served.  For the first half a store that is made
has to be right if it is the last, and this needs to know what it stores: the number of players when
its handler counted, since in the program the store comes right behind the count (`StoresCount`).
For the second half the program must not return between the change and the store (`Heeds`).
-/

namespace MultiPlayerGame
namespace Gauge

open Bytes (ascii)
open RequestHandler
open Interleaving (Made Reachable Traced cuts_nil cuts_concat cuts_append)
open Elimination (GaugeRight)

abbrev State := Interleaving.Config Call Call.Ans Bytes Json World

/-- A run, with the worlds it went through.  Every call is listed with who made it and what it was
answered. -/
abbrev Trace := List (Made Call.Ans World)

/-! ## The order of the steps -/

/-- A step changes the number of players: a player joins or leaves. -/
def Changes : (c : Call) → c.Ans → Prop
  | .addPlayer _, .ok _ => True
  | .removePlayer _, .ok _ => True
  | _, _ => False

/-- The step counts the players. -/
def Counts (m : Made Call.Ans World) : Prop := m.call = .activePlayerCount

/-- The step stores the gauge. -/
def StoresGauge (m : Made Call.Ans World) : Prop := ∃ n, m.call = .setActivePlayers n

/-- **Handler `i` owes a store**: it has changed the number of players and has not stored the gauge
since. -/
def Owes (trace : Trace) (i : ℕ) : Prop :=
  ∃ past m later, trace = past ++ m :: later ∧ m.id = i ∧ Changes m.call m.answer ∧
    ∀ m' ∈ later, m'.id = i → ¬ StoresGauge m'

/-- **A last store is made in time.**  If nobody else owes a store, no player has joined or left
between the count of this handler and its store, and there are fewer than `2^31` players. -/
def InTime (past : Trace) (m : Made Call.Ans World) : Prop :=
  StoresGauge m → (∀ j, j ≠ m.id → ¬ Owes past j) →
    (∃ earlier c between, past = earlier ++ c :: between ∧ c.id = m.id ∧ Counts c ∧
      ∀ m' ∈ between, ¬ Changes m'.call m'.answer) ∧
    m.before.game.activePlayerCount < 2 ^ 31

theorem inTime_of_not_stores {past : Trace} {m : Made Call.Ans World} (hm : ¬ StoresGauge m) :
    InTime past m := fun hstores => absurd hstores hm

section Owing

variable {trace : Trace} {m : Made Call.Ans World} {i : ℕ}

/-- Whoever changes the number of players owes a store from then on. -/
theorem Owes.of_changes (hm : Changes m.call m.answer) : Owes (trace ++ [m]) m.id :=
  ⟨trace, m, [], rfl, rfl, hm, fun _ hno => by cases hno⟩

/-- A store is owed until it is made. -/
theorem Owes.concat (h : Owes trace i) (hm : m.id = i → ¬ StoresGauge m) :
    Owes (trace ++ [m]) i := by
  obtain ⟨past, c, later, rfl, hid, hchanges, hlater⟩ := h
  refine ⟨past, c, later ++ [m], by simp, hid, hchanges, fun m' hm' => ?_⟩
  rcases List.mem_append.mp hm' with hm' | hm'
  · exact hlater m' hm'
  · rw [List.mem_singleton.mp hm']
    exact hm

theorem Owes.of_concat (h : Owes (trace ++ [m]) i) :
    (m.id = i ∧ Changes m.call m.answer) ∨
      Owes trace i ∧ (m.id = i → ¬ StoresGauge m) := by
  obtain ⟨past, c, later, heq, hid, hchanges, hlater⟩ := h
  rcases List.eq_nil_or_concat later with rfl | ⟨later', last, rfl⟩
  · obtain ⟨-, hlast⟩ := List.append_inj' heq rfl
    cases hlast
    exact Or.inl ⟨hid, hchanges⟩
  · rw [List.concat_eq_append, ← List.cons_append, ← List.append_assoc] at heq
    obtain ⟨htrace, hlast⟩ := List.append_inj' heq rfl
    cases hlast
    rw [List.concat_eq_append] at hlater
    exact Or.inr ⟨⟨past, c, later', htrace, hid, hchanges,
      fun m' hm' => hlater m' (List.mem_append_left _ hm')⟩,
      hlater m (List.mem_append_right _ (List.mem_singleton_self _))⟩

end Owing

/-! ## Stores that are still to come -/

/-- Whatever it is answered, the program stores the gauge. -/
def Stores {α : Type} : Handler α → Prop
  | .ret _ => False
  | .call c k => (∃ n, c = .setActivePlayers n) ∨ ∀ x, Stores (k x)

/-- After a step that changes the number of players the gauge is stored; there is no `ATTACK`. -/
def Heeded {α : Type} : (c : Call) → (c.Ans → Handler α) → Prop
  | .addPlayer _, k => Stores (k (.ok ()))
  | .removePlayer _, k => ∀ score, Stores (k (.ok score))
  | .attackPlayer .., _ => False
  | _, _ => True

/-- The program stores the gauge whenever it has changed the number of players. -/
def Heeds {α : Type} : Handler α → Prop
  | .ret _ => True
  | .call c k => Heeded c k ∧ ∀ x, Heeds (k x)

/-- Steps that leave the number of players alone.  A step that changes it is an addition or a
removal, and these are the steps of two commands. -/
def Stays : Call → Prop
  | .addPlayer _ | .removePlayer _ | .attackPlayer .. => False
  | _ => True

/-- What the next step may store: the count, if the step before has counted. -/
def counted : (c : Call) → c.Ans → Option ℕ
  | .activePlayerCount, n => some n
  | _, _ => none

/-- **The program stores nothing but what it has counted in the step before.**  `last` is the count,
if the step before the program was one. -/
def StoresCount {α : Type} : Option ℕ → Handler α → Prop
  | _, .ret _ => True
  | last, .call c k =>
    (∀ n, c = .setActivePlayers n → ∃ count, last = some count ∧ n = Json.toInt32 count) ∧
      ∀ x, StoresCount (counted c x) (k x)

/-- Steps that do not store the gauge. -/
def Other (c : Call) : Prop := ∀ n, c ≠ .setActivePlayers n

section Programs

variable {α β : Type} {p : Handler α} {f : α → Handler β}

theorem Stores.bind (h : Stores p) : Stores (p >>= f) := by
  induction p with
  | ret a => exact h.elim
  | call c k ih => exact h.imp id fun hrest x => ih x (hrest x)

theorem Heeds.bind (h : Heeds p) (hf : ∀ a, Heeds (f a)) : Heeds (p >>= f) := by
  induction p with
  | ret a => exact hf a
  | call c k ih =>
    refine ⟨?_, fun x => ih x (h.2 x)⟩
    have hheeded := h.1
    cases c with
    | addPlayer => exact Stores.bind hheeded
    | removePlayer => exact fun score => Stores.bind (hheeded score)
    | attackPlayer => exact hheeded
    | _ => trivial

theorem heeded_of_stays {c : Call} (hc : Stays c) (k : c.Ans → Handler α) : Heeded c k := by
  cases c with
  | addPlayer | removePlayer | attackPlayer => exact hc.elim
  | _ => trivial

theorem StoresCount.of_none {last : Option ℕ} (h : StoresCount none p) : StoresCount last p := by
  cases p with
  | ret => trivial
  | call c k =>
    refine ⟨fun n hn => ?_, h.2⟩
    obtain ⟨count, hcount, -⟩ := h.1 n hn
    cases hcount

theorem StoresCount.bind {last : Option ℕ} (h : StoresCount last p)
    (hf : ∀ a, StoresCount none (f a)) : StoresCount last (p >>= f) := by
  induction p generalizing last with
  | ret a => exact (hf a).of_none
  | call c k ih => exact ⟨h.1, fun x => ih x (h.2 x)⟩

theorem StoresCount.of_other {last : Option ℕ} (hp : p.Calls Other) : StoresCount last p := by
  induction p generalizing last with
  | ret a => trivial
  | call c k ih => exact ⟨fun n hn => absurd hn (hp.1 n), fun x => ih x (hp.2 x)⟩

theorem Heeds.of_stays (hp : p.Calls Stays) : Heeds p := by
  induction p with
  | ret a => trivial
  | call c k ih => exact ⟨heeded_of_stays hp.1 k, fun x => ih x (hp.2 x)⟩

end Programs

theorem stays_of_quiet {c : Call} (hc : c.Quiet) : Stays c := by
  cases c with
  | addPlayer | removePlayer | attackPlayer => exact hc.elim
  | _ => trivial

theorem stays_of_looks {c : Call} (hc : c.Looks) : Stays c := by
  cases c with
  | addPlayer | removePlayer | attackPlayer => exact hc.elim
  | _ => trivial

section Handlers

variable (cfg : Config) (fp : Doubles)

theorem finish_stays (c : Command) (x : c.call.Ans) (out : Except Bytes (Bytes × Json)) :
    (c.finish cfg x out).Calls Stays := by
  cases out with
  | error err => trivial
  | ok out =>
    exact (c.effects_calls (fun _ hc _ => stays_of_quiet hc) cfg x).bind fun _ =>
      ⟨trivial, fun _ => ⟨trivial, fun _ => ⟨trivial, fun _ => trivial⟩⟩⟩

theorem updateActivePlayers_stores : Stores updateActivePlayers :=
  Or.inr fun _ => Or.inl ⟨_, rfl⟩

/-- **A command that changes the number of players stores the gauge.**  It does so after its step on
the game, with a count that it has taken in between. -/
theorem handler_heeds {c : Command} (hc : c.action ≠ .attack) : Heeds (c.handler cfg) := by
  refine ⟨?_, fun x => Heeds.of_stays (finish_stays cfg c x _)⟩
  cases c with
  | join playerId =>
    have hfinish : ∀ x out, Stores ((Command.join playerId).finish cfg x (.ok out)) := fun _ _ =>
      Stores.bind (Stores.bind updateActivePlayers_stores)
    exact hfinish (.ok ()) (ascii "\x7b\x7d", joinResponse playerId)
  | leave playerId =>
    have hfinish : ∀ score out,
        Stores ((Command.leave playerId).finish cfg (.ok score) (.ok out)) := fun _ _ =>
      Stores.bind (Stores.bind updateActivePlayers_stores)
    exact fun score => hfinish score (leaveData score, leaveResponse playerId score)
  | attack => exact absurd rfl hc
  | _ => trivial

theorem serve_heeds {q : Request} (hq : q.action ≠ some .attack) : Heeds (q.serve cfg fp) := by
  cases q with
  | command c => exact handler_heeds cfg fun hc => hq (congrArg some hc)
  | _ =>
    exact Heeds.of_stays (serve_calls (fun _ hc _ => stays_of_looks hc) cfg fp (by simp))

theorem reply_heeds {rawJson : Bytes} (hq : (Request.decode rawJson).action ≠ some .attack) :
    Heeds (reply cfg fp rawJson) := by
  have hanswer : Heeds (answer cfg fp rawJson) := by
    rw [Request.answer_eq]
    exact ⟨trivial, fun _ => (serve_heeds cfg fp hq).bind fun _ => ⟨trivial, fun _ => trivial⟩⟩
  have hlatency : ∀ d, (MetricsRegistry.recordRequestLatency d).Calls Stays :=
    recordRequestLatency_calls (fun _ => trivial) fun _ => trivial
  exact ⟨trivial, fun _ => hanswer.bind fun _ => ⟨trivial, fun _ =>
    (Heeds.of_stays (hlatency _)).bind fun _ => trivial⟩⟩

/-! ### Stores come right behind counts -/

theorem other_of_onDatabase {c : Call} (hc : c.OnDatabase) : Other c := by
  rintro n rfl
  exact hc

theorem other_of_looks {c : Call} (hc : c.Looks) : Other c := by
  rintro n rfl
  exact hc

theorem updateActivePlayers_storesCount : StoresCount none updateActivePlayers :=
  ⟨fun n hn => (by cases hn), fun count => ⟨fun n hn => ⟨count, rfl, (by cases hn; rfl)⟩,
    fun _ => trivial⟩⟩

theorem effects_storesCount (c : Command) (x : c.call.Ans) :
    StoresCount none (c.effects cfg x) := by
  have hstore : ∀ b playerId score eventType eventData,
      (when b (storePlayer playerId score eventType eventData)).Calls Other := fun _ _ _ _ _ =>
    when_calls (storePlayer_calls (fun _ hc _ => other_of_onDatabase hc) _ _ _ _)
  have hredis : ∀ b command, (when b (discard (invoke (.redis command)))).Calls Other :=
    fun _ _ => when_calls (discard_invoke_calls fun _ hc => by cases hc)
  have hsession : ∀ b playerId, (when b (cacheSession playerId)).Calls Other := fun _ playerId =>
    when_calls
      (cacheSession_calls (fun _ hc => (by cases hc)) (fun _ _ hc => (by cases hc)) playerId)
  cases c with
  | join playerId =>
    exact updateActivePlayers_storesCount.bind fun _ =>
      (StoresCount.of_other (hsession _ _)).bind fun _ => StoresCount.of_other (hstore _ _ _ _ _)
  | move => exact StoresCount.of_other (hredis _ _)
  | attack | chat | updateScore => trivial
  | leave playerId =>
    cases x with
    | error err => trivial
    | ok finalScore =>
      exact updateActivePlayers_storesCount.bind fun _ =>
        (StoresCount.of_other (hredis _ _)).bind fun _ => StoresCount.of_other (hstore _ _ _ _ _)

theorem handler_storesCount (c : Command) : StoresCount none (c.handler cfg) := by
  refine ⟨fun n hn => (by cases c <;> cases hn), fun x => StoresCount.of_none ?_⟩
  change StoresCount none (c.finish cfg x (c.outcome x))
  cases c.outcome x with
  | error err => trivial
  | ok out =>
    have hrecord : ∀ playerId eventType data,
        (RequestHandler.recordEvent playerId eventType data).Calls Other := fun _ _ _ =>
      ⟨fun _ hc => (by cases hc), fun _ => ⟨fun _ hc => (by cases hc), fun _ =>
        ⟨fun _ hc => (by cases hc), fun _ => trivial⟩⟩⟩
    exact (effects_storesCount cfg c x).bind fun _ =>
      (StoresCount.of_other (hrecord _ _ _)).bind fun _ => trivial

theorem reply_storesCount (rawJson : Bytes) : StoresCount none (reply cfg fp rawJson) := by
  have hserve : StoresCount none ((Request.decode rawJson).serve cfg fp) := by
    cases Request.decode rawJson with
    | command c => exact handler_storesCount cfg c
    | _ =>
      exact StoresCount.of_other (serve_calls (fun _ hc _ => other_of_looks hc) cfg fp (by simp))
  have hfetch : ∀ c, Other (.fetchAdd c) := fun _ _ hc => by cases hc
  have hcounted : StoresCount none (Request.counted ((Request.decode rawJson).serve cfg fp)) :=
    ⟨fun n hn => (by cases hn), fun _ => hserve.bind fun response =>
      StoresCount.of_other (by exact ⟨hfetch _, fun _ => trivial⟩)⟩
  have hlatency : ∀ d, (MetricsRegistry.recordRequestLatency d).Calls Other :=
    recordRequestLatency_calls hfetch fun _ _ hc => by cases hc
  unfold reply
  rw [Request.answer_eq]
  exact ⟨fun n hn => (by cases hn), fun start => hcounted.bind fun response =>
    ⟨fun n hn => (by cases hn), fun finish => (StoresCount.of_other (hlatency _)).bind
      fun _ => trivial⟩⟩

end Handlers

/-! ## What a step does to the gauge -/

theorem attempt_cases {α : Type} (w : World) (r : Except Bytes (α × GameState)) :
    (w.attempt r).2 = w ∨ ∃ a, (w.attempt r).1 = .ok a := by
  cases r with
  | error err => exact Or.inl rfl
  | ok r => exact Or.inr ⟨r.1, rfl⟩

theorem size_modifyPlayer {g g' : GameState} {playerId : Int32} {f : PlayerState → PlayerState}
    (h : g.modifyPlayer playerId f = .ok g') : g'.activePlayerCount = g.activePlayerCount := by
  obtain ⟨st, -, rfl⟩ := GameState.modifyPlayer_inv h
  exact KeyedMap.size_replace _ _ _

theorem size_attemptUnit {w : World} {r : Except Bytes GameState}
    (h : ∀ g, r = .ok g → g.activePlayerCount = w.game.activePlayerCount) :
    (w.attemptUnit r).2.game.activePlayerCount = w.game.activePlayerCount := by
  cases r with
  | error err => rfl
  | ok g => exact h g rfl

/-- Joining, leaving, and nothing else changes the number of players, where nobody attacks. -/
theorem size_exec {fp : Doubles} {c : Call} (hattack : ∀ p q, c ≠ .attackPlayer p q) (e : Env)
    (w : World) (hno : ¬ Changes c (c.exec fp e w).1) :
    (c.exec fp e w).2.game.activePlayerCount = w.game.activePlayerCount := by
  cases c with
  | attackPlayer p q => exact absurd rfl (hattack p q)
  | movePlayer => exact size_attemptUnit fun g hg => size_modifyPlayer hg
  | setScore => exact size_attemptUnit fun g hg => size_modifyPlayer hg
  | addPlayer playerId =>
    rcases attempt_cases w ((w.game.addPlayer playerId e.now).map fun g => ((), g)) with
      hsame | ⟨u, hok⟩
    · exact congrArg (fun w : World => w.game.activePlayerCount) hsame
    · exact absurd ((congrArg (Changes (.addPlayer playerId)) hok).mpr trivial) hno
  | removePlayer playerId =>
    rcases attempt_cases w (w.game.removePlayer playerId) with hsame | ⟨score, hok⟩
    · exact congrArg (fun w : World => w.game.activePlayerCount) hsame
    · exact absurd ((congrArg (Changes (.removePlayer playerId)) hok).mpr trivial) hno
  | _ => rfl

/-- A step that neither changes the number of players nor stores the gauge leaves the gauge right or
wrong as it was. -/
theorem gaugeRight_exec {fp : Doubles} {c : Call} (hattack : ∀ p q, c ≠ .attackPlayer p q)
    (hstore : Other c) (e : Env) {w : World} (hno : ¬ Changes c (c.exec fp e w).1)
    (hright : GaugeRight w) : GaugeRight (c.exec fp e w).2 := by
  have hgauge : (c.exec fp e w).2.metrics.activePlayers = w.metrics.activePlayers := by
    have hspares : c.Spares true false false := by
      cases c with
      | setActivePlayers n => exact absurd rfl (hstore n)
      | _ => trivial
    exact (Call.exec_spares fp hspares e w).1 rfl
  rw [GaugeRight, hgauge, size_exec hattack e w hno]
  exact hright

/-! ## Whole runs -/

/-- The last count of handler `i` found `n` players, and the handler has taken no step since. -/
def CountedLast (trace : Trace) (i n : ℕ) : Prop :=
  ∃ earlier c between, trace = earlier ++ c :: between ∧ c.id = i ∧ Counts c ∧
    c.after.game.activePlayerCount = n ∧ ∀ m ∈ between, m.id ≠ i

theorem CountedLast.concat {trace : Trace} {m : Made Call.Ans World} {i n : ℕ}
    (h : CountedLast trace i n) (hm : m.id ≠ i) : CountedLast (trace ++ [m]) i n := by
  obtain ⟨earlier, c, between, rfl, hid, hcounts, hsize, hbetween⟩ := h
  refine ⟨earlier, c, between ++ [m], by simp, hid, hcounts, hsize, fun m' hm' => ?_⟩
  rcases List.mem_append.mp hm' with hm' | hm'
  · exact hbetween m' hm'
  · rw [List.mem_singleton.mp hm']
    exact hm

/-- Of two steps of a handler, the one after which it has taken no step is not the earlier one:
what comes after it comes after both. -/
theorem after_of_last {trace earlier between earlier' between' : Trace}
    {m m' : Made Call.Ans World} (h : trace = earlier ++ m :: between)
    (h' : trace = earlier' ++ m' :: between') (hid : m.id = m'.id)
    (hlast : ∀ n ∈ between', n.id ≠ m'.id) : ∀ n ∈ between', n ∈ between := by
  rcases List.append_eq_append_iff.mp (h.symm.trans h') with ⟨gap, -, hgap⟩ | ⟨gap, -, hgap⟩
  · cases gap with
    | nil =>
      cases hgap
      exact fun n hn => hn
    | cons a rest =>
      cases hgap
      exact fun n hn => List.mem_append_right _ (List.mem_cons_of_mem _ hn)
  · cases gap with
    | nil =>
      cases hgap
      exact fun n hn => hn
    | cons a rest =>
      cases hgap
      exact absurd hid (hlast m (List.mem_append_right _ List.mem_cons_self))

/-- **While the gauge is wrong, somebody owes a store and is still being served.**  So the gauge is
right when nobody is being served. -/
structure Pending (x : State) (trace : Trace) : Prop where
  heeds : ∀ i p, x.inflight i = some p → Heeds p
  counts : ∀ i p, x.inflight i = some p → ∃ last, StoresCount last p ∧
    ∀ n, last = some n → CountedLast trace i n
  sized : ∀ m ∈ trace, ¬ Changes m.call m.answer →
    m.after.game.activePlayerCount = m.before.game.activePlayerCount
  owes : ∀ i, Owes trace i → ∃ p, x.inflight i = some p ∧ Stores p
  right : GaugeRight x.shared ∨ ∃ i, Owes trace i

section Run

variable {cfg : Config} {fp : Doubles} {w : World} {x y : State} {trace : Trace} {id : ℕ} {c : Call}
  {k : c.Ans → Handler Json}

theorem not_attack_of_heeded (h : Heeded c k) : ∀ p q, c ≠ .attackPlayer p q := by
  rintro p q rfl
  exact h

/-- A last store that is in time is of the number of players there are. -/
theorem Pending.store (h : Pending x trace) (hx : Traced (reply cfg fp) (Call.exec fp) w x trace)
    {n : Int32} {k : Unit → Handler Json} (e : Env)
    (running : x.inflight id = some (.call (.setActivePlayers n) k))
    (hin : InTime trace ⟨x.shared, id, .setActivePlayers n, (), (Call.exec fp (.setActivePlayers n)
      e x.shared).2⟩)
    (hlast : ∀ j, j ≠ id → ¬ Owes trace j) : n.toInt = x.shared.game.activePlayerCount := by
  obtain ⟨⟨earlier, m, between, htrace, hid, -, hbetween⟩, hsize⟩ := hin ⟨n, rfl⟩ hlast
  obtain ⟨last, hstores, hcounted⟩ := h.counts id _ running
  obtain ⟨count, rfl, rfl⟩ := hstores.1 n rfl
  obtain ⟨earlier', m', between', htrace', hid', -, hcount, hnone⟩ := hcounted count rfl
  have hsame := hx.unchanged (fun w => w.game.activePlayerCount) htrace' fun a ha =>
    h.sized a (htrace' ▸ List.mem_append_right _ (List.mem_cons_of_mem _ ha))
      (hbetween a (after_of_last htrace htrace' (hid.trans hid'.symm)
        (fun b hb => hid'.symm ▸ hnone b hb) a ha))
  change x.shared.game.activePlayerCount = m'.after.game.activePlayerCount at hsame
  change x.shared.game.activePlayerCount < 2 ^ 31 at hsize
  rw [hcount] at hsame
  rw [hsame] at hsize ⊢
  exact (Elimination.toInt_toInt32_natCast count).mpr hsize

/-- **One call.**  A step that changes the number of players puts the request that makes it into
debt.  The last store pays all debts, because by the condition on the step nobody has come or gone
since its count was taken. -/
theorem Pending.call (h : Pending x trace) (hx : Traced (reply cfg fp) (Call.exec fp) w x trace)
    (e : Env) (running : x.inflight id = some (.call c k))
    (hin : InTime trace ⟨x.shared, id, c, (c.exec fp e x.shared).1, (c.exec fp e x.shared).2⟩) :
    Pending ⟨(c.exec fp e x.shared).2,
      Function.update x.inflight id (some (k (c.exec fp e x.shared).1)), x.history⟩
      (trace ++ [⟨x.shared, id, c, (c.exec fp e x.shared).1, (c.exec fp e x.shared).2⟩]) := by
  obtain ⟨hheeded, hrest⟩ := h.heeds id _ running
  have hattack := not_attack_of_heeded hheeded
  refine ⟨fun i p hp => ?_, fun i p hp => ?_, fun m hm hno => ?_, fun i hi => ?_, ?_⟩
  · rcases Interleaving.update_some_cases hp with ⟨-, hv⟩ | ⟨-, hp⟩
    · cases hv
      exact hrest _
    · exact h.heeds i p hp
  · rcases Interleaving.update_some_cases hp with ⟨rfl, hv⟩ | ⟨hi, hp⟩
    · cases hv
      obtain ⟨last, hstores, -⟩ := h.counts i _ running
      refine ⟨_, hstores.2 _, fun n hn => ?_⟩
      cases c with
      | activePlayerCount =>
        cases hn
        exact ⟨trace, _, [], rfl, rfl, rfl, rfl, fun _ hno => by cases hno⟩
      | _ => cases hn
    · obtain ⟨last, hstores, hcounted⟩ := h.counts i p hp
      exact ⟨last, hstores, fun n hn => (hcounted n hn).concat (Ne.symm hi)⟩
  · rcases List.mem_append.mp hm with hm | hm
    · exact h.sized m hm hno
    · cases List.mem_singleton.mp hm
      exact size_exec hattack e x.shared hno
  · rcases hi.of_concat with ⟨rfl, hchanges⟩ | ⟨hi, hstore⟩
    · refine ⟨_, Function.update_self .., ?_⟩
      change Changes c (c.exec fp e x.shared).1 at hchanges
      generalize (c.exec fp e x.shared).1 = a at hchanges
      cases c with
      | addPlayer =>
        cases a with
        | ok => exact hheeded
        | error => exact hchanges.elim
      | removePlayer =>
        cases a with
        | ok score => exact hheeded score
        | error => exact hchanges.elim
      | _ => exact hchanges.elim
    · obtain ⟨p, hp, hstores⟩ := h.owes i hi
      by_cases hid : id = i
      · subst hid
        cases running.symm.trans hp
        refine ⟨_, Function.update_self .., ?_⟩
        exact (hstores.resolve_left (hstore rfl)) _
      · exact ⟨p, (Function.update_of_ne (Ne.symm hid) _ _).trans hp, hstores⟩
  -- the gauge is right, or somebody owes a store
  by_cases hset : ∃ n, c = .setActivePlayers n
  · obtain ⟨n, rfl⟩ := hset
    by_cases hlast : ∀ j, j ≠ id → ¬ Owes trace j
    · exact Or.inl (h.store hx e running hin hlast)
    · push Not at hlast
      obtain ⟨j, hj, howes⟩ := hlast
      exact Or.inr ⟨j, howes.concat fun hid => absurd hid.symm hj⟩
  have hother : Other c := fun n hn => hset ⟨n, hn⟩
  by_cases hchanges : Changes c (c.exec fp e x.shared).1
  · exact Or.inr ⟨id, Owes.of_changes hchanges⟩
  · refine h.right.imp (gaugeRight_exec hattack hother e hchanges) fun ⟨i, hi⟩ => ?_
    exact ⟨i, hi.concat fun _ hstore => hset hstore⟩

/-- **The gauge shows the number of players whenever nobody is being served**, in every run without
`ATTACK` all of whose last stores are in time. -/
theorem gauge_right (hstart : GaugeRight w)
    (hx : Traced (reply cfg fp) (Call.exec fp) w x trace)
    (hin : ∀ past m later, trace = past ++ m :: later → InTime past m)
    (hattack : ∀ id rawJson, .invoke id rawJson ∈ x.history →
      (Request.decode rawJson).action ≠ some .attack)
    (hquiet : x.Quiet) : GaugeRight x.shared := by
  suffices hpending : Pending x trace by
    rcases hpending.right with hright | ⟨i, hi⟩
    · exact hright
    · obtain ⟨p, hp, -⟩ := hpending.owes i hi
      cases (hquiet i).symm.trans hp
  clear hquiet
  induction hx with
  | start =>
    refine ⟨fun _ _ hp => (by cases hp), fun _ _ hp => (by cases hp), fun _ hm => (by cases hm),
      fun i hi => ?_, Or.inl hstart⟩
    obtain ⟨past, m, later, heq, -⟩ := hi
    exact absurd heq.symm (List.append_ne_nil_of_right_ne_nil _ (List.cons_ne_nil _ _))
  | invoke before id q fresh ih =>
    have hpending := ih hin fun i rawJson hmem => hattack i rawJson (List.mem_append_left _ hmem)
    refine ⟨fun i p hp => ?_, fun i p hp => ?_, hpending.sized, fun i hi => ?_, hpending.right⟩
    · rcases Interleaving.update_some_cases hp with ⟨-, hv⟩ | ⟨-, hp⟩
      · cases hv
        exact reply_heeds cfg fp (hattack id q List.mem_concat_self)
      · exact hpending.heeds i p hp
    · rcases Interleaving.update_some_cases hp with ⟨-, hv⟩ | ⟨-, hp⟩
      · cases hv
        exact ⟨none, reply_storesCount cfg fp q, fun n hn => by cases hn⟩
      · exact hpending.counts i p hp
    · obtain ⟨p, hp, hstores⟩ := hpending.owes i hi
      have hid : i ≠ id := fun heq => by
        obtain ⟨q', hq'⟩ := before.reachable.invoked hp
        exact fresh q' (heq ▸ hq')
      exact ⟨p, (Function.update_of_ne hid _ _).trans hp, hstores⟩
  | call before id c k e running ih =>
    obtain ⟨hbefore, hnow⟩ := cuts_concat.mp hin
    exact (ih hbefore hattack).call before e running hnow
  | respond before id r done ih =>
    have hpending := ih hin fun i rawJson hmem => hattack i rawJson (List.mem_append_left _ hmem)
    refine ⟨fun i p hp => ?_, fun i p hp => ?_, hpending.sized, fun i hi => ?_, hpending.right⟩
    · rcases Interleaving.update_some_cases hp with ⟨-, hv⟩ | ⟨-, hp⟩
      · cases hv
      · exact hpending.heeds i p hp
    · rcases Interleaving.update_some_cases hp with ⟨-, hv⟩ | ⟨-, hp⟩
      · cases hv
      · exact hpending.counts i p hp
    · obtain ⟨p, hp, hstores⟩ := hpending.owes i hi
      have hid : i ≠ id := fun heq => by
        rw [heq, done] at hp
        cases hp
        exact hstores
      exact ⟨p, (Function.update_of_ne hid _ _).trans hp, hstores⟩

end Run

/-! ## Two players join -/

section Join

abbrev bare : Config := ⟨false, false⟩

/-- Two players join at the same time.  The first store is of an old count, but the second handler
still owes one, which comes right behind its own count. -/
theorem gauge_right_joins : ∃ (x : State) (trace : Trace),
    Traced (reply bare .zero) (Call.exec .zero) .started x trace ∧
    (∃ m ∈ trace, m.id = 0 ∧ StoresGauge m ∧ ¬ GaugeRight m.after) ∧
    x.Quiet ∧ x.shared.game.activePlayerCount = 2 ∧ GaugeRight x.shared := by
  have h₀ : Traced (reply bare .zero) (Call.exec .zero) .started
      (Interleaving.Config.start .started) [] := .start
  have h₁ := h₀.invoke 0 joinZero (by simp [Interleaving.Config.start])
  have h₂ := h₁.invoke 1 Skirmish.joinOne (by simp [Interleaving.Config.start])
  have h₃ := h₂.call 0 .clock _ {} rfl
  have h₄ := h₃.call 0 (.fetchAdd .requestsTotal) _ {} rfl
  have h₅ := h₄.call 0 (.addPlayer 0) _ {} rfl
  have h₆ := h₅.call 0 .activePlayerCount _ {} rfl
  have h₇ := h₆.call 1 .clock _ {} rfl
  have h₈ := h₇.call 1 (.fetchAdd .requestsTotal) _ {} rfl
  have h₉ := h₈.call 1 (.addPlayer 1) _ {} rfl
  have h₁₀ := h₉.call 0 (.setActivePlayers 1) _ {} rfl
  have h₁₁ := h₁₀.call 1 .activePlayerCount _ {} rfl
  have h₁₂ := h₁₁.call 1 (.setActivePlayers 2) _ {} rfl
  -- what is left of the two handlers stores nothing
  have hlatency : ∀ d (r : Json), (MetricsRegistry.recordRequestLatency d >>= fun _ =>
      (pure r : Handler Json)).Calls Other := fun d _ =>
    (recordRequestLatency_calls (fun _ => nofun) (fun _ => nofun) d).bind fun _ => trivial
  obtain ⟨later₀, h₁₃, hlater₀⟩ := h₁₂.runs 0 rfl
    (by exact ⟨nofun, fun _ => ⟨nofun, fun _ => ⟨nofun, fun _ => ⟨nofun, fun _ => ⟨nofun, fun _ =>
      hlatency _ _⟩⟩⟩⟩⟩) (Program.runs_run _ {} _ _)
  have h₁₄ := h₁₃.respond 0 _ rfl
  obtain ⟨later₁, h₁₅, hlater₁⟩ := h₁₄.runs 1 rfl
    (by exact ⟨nofun, fun _ => ⟨nofun, fun _ => ⟨nofun, fun _ => ⟨nofun, fun _ => ⟨nofun, fun _ =>
      hlatency _ _⟩⟩⟩⟩⟩) (Program.runs_run _ {} _ _)
  have h₁₆ := h₁₅.respond 1 _ rfl
  have hstart : GaugeRight .started := rfl
  have hjoin : (Request.decode joinZero).action ≠ some .attack ∧
      (Request.decode Skirmish.joinOne).action ≠ some .attack := by decide +kernel
  have hnever : ∀ m : Made Call.Ans World, Other m.call → ∀ past, InTime past m :=
    fun m hm _ => inTime_of_not_stores fun ⟨n, hn⟩ => hm n hn
  have hstep : ∀ {trace : Trace} {m : Made Call.Ans World}, Other m.call →
      (∀ past m' later, trace = past ++ m' :: later → InTime past m') →
      ∀ past m' later, trace ++ [m] = past ++ m' :: later → InTime past m' := fun hm hcuts =>
    cuts_concat.mpr ⟨hcuts, hnever _ hm _⟩
  refine ⟨_, _, h₁₆, ⟨_, List.mem_append_left _ (List.mem_append_left _ (List.mem_append_left _
    (List.mem_append_left _ (List.mem_append_right _ (List.mem_singleton_self _))))), rfl, ⟨1, rfl⟩,
    by decide +kernel⟩, ?quiet, by decide +kernel, gauge_right hstart h₁₆ ?_ ?_ ?quiet⟩
  case quiet =>
    intro id
    by_cases hzero : id = 0
    · simp [hzero]
    by_cases hone : id = 1
    · simp [hone]
    · simp [hzero, hone, Interleaving.Config.start]
  · refine cuts_append (cuts_append (cuts_concat.mpr ⟨hstep nofun (cuts_concat.mpr ⟨hstep nofun
      (hstep nofun (hstep nofun (hstep nofun (hstep nofun (hstep nofun (hstep nofun cuts_nil)))))),
      ?_⟩), ?_⟩) fun m hm => hnever m (hlater₀ m hm).2) fun m hm => hnever m (hlater₁ m hm).2
    · exact fun _ hlast => (hlast 1 (by decide) (Owes.of_changes (by exact trivial))).elim
    · exact fun _ _ => ⟨⟨_, _, [], rfl, rfl, rfl, fun _ hno => by cases hno⟩, by decide +kernel⟩
  · intro id rawJson hmem
    simp only [Interleaving.Config.start, List.nil_append, List.mem_append, List.mem_singleton,
      Interleaving.Event.invoke.injEq, reduceCtorEq, or_false] at hmem
    rcases hmem with ⟨-, rfl⟩ | ⟨-, rfl⟩
    · exact hjoin.1
    · exact hjoin.2

/-- **Two `JOIN`s leave the gauge at 1.**  The first counts the players before the second joins, and
stores the count after the second has stored its own. -/
theorem exists_stale : ∃ x : State,
    Reachable (reply bare .zero) (Call.exec .zero) .started x ∧
    (∀ id rawJson, .invoke id rawJson ∈ x.history →
      rawJson = joinZero ∨ rawJson = Skirmish.joinOne) ∧
    x.Quiet ∧ x.shared.game.activePlayerCount = 2 ∧ x.shared.metrics.activePlayers = 1 := by
  have h₀ : Reachable (reply bare .zero) (Call.exec .zero) .started (.start .started) := .refl
  have h₁ := h₀.tail (.invoke _ 0 joinZero (by simp [Interleaving.Config.start]))
  have h₂ := h₁.tail (.call _ 0 .clock _ {} rfl)
  have h₃ := h₂.tail (.call _ 0 (.fetchAdd .requestsTotal) _ {} rfl)
  have h₄ := h₃.tail (.call _ 0 (.addPlayer 0) _ {} rfl)
  have h₅ := h₄.tail (.call _ 0 .activePlayerCount _ {} rfl)
  have h₆ := h₅.tail (.invoke _ 1 Skirmish.joinOne (by simp [Interleaving.Config.start]))
  have h₇ := Reachable.runs h₆ 1 (p := reply bare .zero Skirmish.joinOne) rfl
    (Program.runs_run _ {} _ _)
  have h₈ := h₇.tail (.respond _ 1 _ rfl)
  have h₉ := Reachable.runs h₈ 0 rfl (Program.runs_run _ {} _ _)
  have h₁₀ := h₉.tail (.respond _ 0 _ rfl)
  refine ⟨_, h₁₀, ?_, fun id => ?_, by decide +kernel, by decide +kernel⟩
  · intro id rawJson hmem
    simp only [Interleaving.Config.start, List.nil_append, List.mem_append, List.mem_singleton,
      Interleaving.Event.invoke.injEq, reduceCtorEq, or_false] at hmem
    exact hmem.imp And.right And.right
  · by_cases hzero : id = 0
    · simp [hzero]
    by_cases hone : id = 1
    · simp [hone]
    · simp [hzero, hone, Interleaving.Config.start]

end Join

end Gauge
end MultiPlayerGame
