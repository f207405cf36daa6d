import MultiPlayerGame.Library.Phases
import MultiPlayerGame.Results.Accounting
import MultiPlayerGame.Results.Simulation
import MultiPlayerGame.Server.Readable

/-!
# What the simulator measures

The simulator and the server count the same requests independently of each other: the bots by the
responses that they read, the server in its metrics.  When all bots have finished, the two counts
agree (`counters_of_scripts`), in whatever order everything happened.

## Why this is not obvious

A bot has to see a success exactly where the server has counted one.  The server looks at the object
it is about to send, the bot at the text that it has received; so every response has to be printed
without an exception and to be read as what it was.  That takes three things.  The strings in it
have to be UTF-8, which they are because everything that is said in the game is (`hearing`).  It
must not have a field twice, which the handlers see to (`answering`).  And its numbers have to be
numbers of JSON: in a snapshot there are the kills and the numbers of the events, which C++ keeps in
64 bits, so the counts agree as long as these suffice (`GameState.InRange`).

The other half is bookkeeping.  The handler counts a request when it begins and its outcome when it
ends, and the counters are shared by all threads.  `Share` is what a single bot has added to them,
and the invariant is that the counters are the sums of these shares (`Tallied`).

The bots here are scripts, programs without sockets.  What follows for `PlayerBot::run` is said in
`Results.Recorded`.
-/

namespace MultiPlayerGame

/-- The 64-bit counters of the game state do not overflow. -/
structure GameState.InRange (g : GameState) : Prop where
  totalKills : g.totalKills < 2 ^ 64
  nextEventId : g.nextEventId ≤ 2 ^ 64

namespace Measurements

open Bytes (ascii)
open PlayerBot (succeeded exchangeAll)
open Program (Obeys)
open Interleaving (Reachable Phased Sums answersOf)
open Sessions (expand)
open RequestHandler

/-! ## Numbers in a snapshot -/

/-- Every duration is printed as a number of JSON. -/
def Prints (fp : Doubles) : Prop := ∀ d, isDouble (fp.seconds d) = true

section Snapshots

variable {fp : Doubles} {g : GameState}

theorem numeric_snapshot (hfp : Prints fp) (hrange : g.InRange)
    (hids : ∀ ev ∈ g.events, ev.eventId < g.nextEventId) (now : Nat → Int) :
    (g.snapshot fp now).numeric = true := by
  have hnext := hrange.nextEventId
  have hseconds : ∀ d, (Json.float (fp.seconds d)).numeric = true := fun d =>
    Json.numeric_float (hfp d)
  have htotal : g.totalEvents < 2 ^ 64 := by
    rw [GameState.totalEvents]
    omega
  have hplayers : ∀ v ∈ g.players.entries.mapIdx fun i e => GameState.playerJson fp (now i) e.2,
      v.numeric = true := by
    intro v hv
    obtain ⟨i, hi, rfl⟩ := List.mem_mapIdx.mp hv
    exact Json.numeric_obj (by simp [hseconds])
  have hevents : ∀ v ∈ (g.recentEvents 5).map GameState.eventJson, v.numeric = true := by
    intro v hv
    obtain ⟨ev, hev, rfl⟩ := List.mem_map.mp hv
    have hid := hids ev (List.mem_of_mem_drop hev)
    have hnumeric : (Json.integer ev.eventId).numeric = true := Json.numeric_natural (by omega)
    exact Json.numeric_obj (by simp [hnumeric])
  refine Json.numeric_obj ?_
  simp [hseconds, Json.numeric_natural hrange.totalKills, Json.numeric_natural htotal,
    Json.numeric_array hplayers, Json.numeric_array hevents]

end Snapshots

/-! ## What a step does to the counters -/

/-- What a step adds to a counter. -/
def tally : Call → Counter → ℕ
  | .fetchAdd c, k => if c = k then 1 else 0
  | _, _ => 0

section Steps

variable (fp : Doubles) (c : Call) (e : Env) (w : World)

theorem counters_exec (k : Counter) :
    (c.exec fp e w).2.metrics.counters k = w.metrics.counters k + tally c k := by
  have hattempt {α : Type} (r : Except Bytes (α × GameState)) :
      (w.attempt r).2.metrics.counters k = w.metrics.counters k :=
    congrArg (fun m => m.counters k) (Accounting.metrics_attempt w r)
  cases c with
  | fetchAdd c => exact Accounting.counted_fetchAdd w.metrics c k
  | addPlayer | movePlayer | setScore => exact hattempt _
  | removePlayer | attackPlayer => exact hattempt _
  | _ => rfl

theorem totalKills_attempt {α : Type} {r : Except Bytes (α × GameState)}
    (h : ∀ a g, r = .ok (a, g) → w.game.totalKills ≤ g.totalKills) :
    w.game.totalKills ≤ (w.attempt r).2.game.totalKills := by
  cases r with
  | error err => exact le_rfl
  | ok r => exact h r.1 r.2 rfl

/-- Kills are never taken back. -/
theorem totalKills_exec : w.game.totalKills ≤ (c.exec fp e w).2.game.totalKills := by
  have hmodify (playerId : Int32) (f : PlayerState → PlayerState) :
      w.game.totalKills ≤ (w.attemptUnit (w.game.modifyPlayer playerId f)).2.game.totalKills := by
    refine totalKills_attempt w fun a g h => ?_
    obtain ⟨g', hmodify, heq⟩ := map_eq_ok h
    cases heq
    obtain ⟨st, -, rfl⟩ := GameState.modifyPlayer_inv hmodify
    exact le_rfl
  cases c with
  | addPlayer playerId =>
    refine totalKills_attempt w fun a g h => ?_
    obtain ⟨g', hadd, heq⟩ := map_eq_ok h
    cases heq
    obtain ⟨-, rfl⟩ := GameState.addPlayer_inv hadd
    exact le_rfl
  | removePlayer playerId =>
    refine totalKills_attempt w fun a g h => ?_
    obtain ⟨st, -, heq⟩ := GameState.removePlayer_inv h
    cases heq
    rw [GameState.totalKills_finishIfEmpty]
  | movePlayer => exact hmodify _ _
  | setScore => exact hmodify _ _
  | attackPlayer attackerId targetId =>
    refine totalKills_attempt w fun a g h => ?_
    obtain ⟨attacker, target, -, -, -, heq⟩ := GameState.attackPlayer_inv h
    cases heq
    exact Nat.le_add_right _ _
  | _ => exact le_rfl

end Steps

/-! ## What a request adds to the counters -/

/-- How far a bot has come: what it has added to the counters, and the number of the last event that
it has drawn. -/
structure Share where
  counts : Counter → ℕ
  eventId : ℕ

/-- The number of the last event, after a step. -/
def drawn (last : ℕ) : (c : Call) → c.Ans → ℕ
  | .fetchAddEventId, eventId => eventId
  | _, _ => last

/-- Steps add to the counters, and an event is pushed under the number that was drawn for it. -/
def counting : Protocol Call Call.Ans Share where
  allowed s c := ∀ ev, c = .pushEvent ev → ev.eventId = s.eventId
  next s c x s' := s' = ⟨s.counts + tally c, drawn s.eventId c x⟩

/-- The counters that say how many requests there were and how they went. -/
def OfOutcomes : Counter → Bool
  | .requestsTotal | .successfulRequests | .failedRequests => true
  | _ => false

/-- These counters have not been touched.  They are those that a request that is served does not
count. -/
def Kept (s s' : Share) : Prop := ∀ k, OfOutcomes k = true → s'.counts k = s.counts k

theorem Kept.trans {s s' s'' : Share} (h : Kept s s') (h' : Kept s' s'') : Kept s s'' :=
  fun k hk => (h' k hk).trans (h k hk)

/-- The counter for a response. -/
def outcome (r : Json) : Counter := if isOk r then .successfulRequests else .failedRequests

/-- One request has been counted.  Its counters, and no others of those that are compared, have
grown by one. -/
def Counted (s : Share) (r : Json) (s' : Share) : Prop :=
  ∀ k, OfOutcomes k = true → s'.counts k =
    s.counts k + tally (.fetchAdd .requestsTotal) k + tally (.fetchAdd (outcome r)) k

/-- A step that neither counts a request nor pushes an event. -/
def Silent (c : Call) : Prop :=
  (∀ k, OfOutcomes k = true → tally c k = 0) ∧ ∀ ev, c ≠ .pushEvent ev

theorem silent_fetchAdd {c : Counter} (hc : OfOutcomes c = false) : Silent (.fetchAdd c) := by
  refine ⟨fun k hk => if_neg ?_, fun ev h => by cases h⟩
  rintro rfl
  cases hk.symm.trans hc

theorem silent_of_uncounted {c : Call} (hc : c.Uncounted) (hpush : ∀ ev, c ≠ .pushEvent ev) :
    Silent c := by
  cases c with
  | fetchAdd c =>
    refine silent_fetchAdd ?_
    cases c with
    | requestsTotal | successfulRequests | failedRequests => cases hc
    | _ => rfl
  | pushEvent ev => exact absurd rfl (hpush ev)
  | _ => exact ⟨fun _ _ => rfl, hpush⟩

section Requests

variable {cfg : Config} {fp : Doubles} {s : Share} {α β : Type}

theorem kept_of_silent {p : Handler α} (hp : p.Calls Silent) :
    Obeys counting (fun s' _ => Kept s s') s p := by
  induction p generalizing s with
  | ret a => exact fun _ _ => rfl
  | call c k ih =>
    refine ⟨fun ev h => absurd h (hp.1.2 ev), fun x s' hs' => ?_⟩
    refine (ih x (hp.2 x)).mono fun s'' _ h => Kept.trans (fun k hk => ?_) h
    rw [hs']
    show s.counts k + tally c k = s.counts k
    rw [hp.1.1 k hk, Nat.add_zero]

/-- Something silent, and then something else. -/
theorem silent_bind {final : Share → β → Prop} {p : Handler α} {f : α → Handler β}
    (hp : p.Calls Silent) (hf : ∀ s' a, Kept s s' → Obeys counting final s' (f a)) :
    Obeys counting final s (p >>= f) :=
  (kept_of_silent hp).bind hf

theorem finish_counting (c : Command) (x : c.call.Ans) :
    Obeys counting (fun s' _ => Kept s s') s (c.finish cfg x (c.outcome x)) := by
  cases c.outcome x with
  | error err => exact fun _ _ => rfl
  | ok out =>
    have heffects : (c.effects cfg x).Calls Silent :=
      c.effects_calls (fun c hquiet hc => silent_of_uncounted hc fun ev hev => by
        rw [hev] at hquiet
        exact hquiet) cfg x
    refine silent_bind heffects fun s₁ _ h₁ => ?_
    refine ⟨fun ev h => by (cases h), fun eventId s₂ h₂ => ⟨fun ev h => by (cases h),
      fun timestamp s₃ h₃ => ⟨fun ev h => ?_, fun _ s₄ h₄ k hk => ?_⟩⟩⟩
    · cases h
      rw [h₃, h₂]
      rfl
    · rw [h₄, h₃, h₂]
      exact h₁ k hk

/-- Serving a request counts nothing that is about requests. -/
theorem serve_counting (q : Request) :
    Obeys counting (fun s' _ => Kept s s') s (q.serve cfg fp) := by
  by_cases hq : ∃ c, q = .command c
  · obtain ⟨c, rfl⟩ := hq
    have hcall : Silent c.call := by
      cases c with
      | _ => exact ⟨fun _ _ => rfl, fun ev h => by cases h⟩
    refine silent_bind (invoke_calls hcall) fun s₁ x h₁ => ?_
    exact (finish_counting c x).mono fun s₂ _ h₂ => h₁.trans h₂
  · refine kept_of_silent (serve_calls (fun c hlooks hc => ?_) cfg fp fun c h => hq ⟨c, h⟩)
    refine silent_of_uncounted hc fun ev hev => ?_
    rw [hev] at hlooks
    exact hlooks

theorem recordRequestLatency_silent (duration : Int) :
    (MetricsRegistry.recordRequestLatency duration).Calls Silent := by
  have hbuckets : ∀ buckets, (MetricsRegistry.countBuckets duration buckets).Calls Silent := by
    intro buckets
    induction buckets with
    | nil => trivial
    | cons b rest ih => exact (when_calls (invoke_calls (silent_fetchAdd rfl))).bind fun _ => ih
  exact ⟨silent_fetchAdd rfl, fun _ => ⟨⟨fun _ _ => rfl, fun ev h => by cases h⟩, fun _ =>
    (hbuckets _).bind fun _ => ⟨silent_fetchAdd rfl, fun _ => trivial⟩⟩⟩

/-- **A request counts itself once, and its response once.**  What the handlers do in between counts
other things. -/
theorem reply_counting (rawJson : Bytes) :
    Obeys counting (fun s' r => Counted s r s') s (reply cfg fp rawJson) := by
  have hclock : Silent .clock := ⟨fun _ _ => rfl, fun ev h => by cases h⟩
  have hanswer : ∀ s, Obeys counting (fun s' r => Counted s r s') s (answer cfg fp rawJson) := by
    intro s
    rw [Request.answer_eq]
    refine ⟨fun ev h => by (cases h), fun _ s₁ h₁ => (serve_counting _).bind fun s₂ r h₂ => ?_⟩
    refine ⟨fun ev h => by (cases h), fun _ s₃ h₃ k hk => ?_⟩
    rw [h₃]
    show s₂.counts k + _ = _
    rw [h₂ k hk, h₁]
    rfl
  refine silent_bind (invoke_calls hclock) fun s₁ start h₁ => (hanswer s₁).bind fun s₂ r h₂ => ?_
  refine silent_bind (invoke_calls hclock) fun s₃ finish h₃ => ?_
  refine silent_bind (recordRequestLatency_silent _) fun s₄ _ h₄ k hk => ?_
  rw [h₄ k hk, h₃ k hk, h₂ k hk, h₁ k hk]

end Requests

/-! ## What a bot adds to the counters -/

/-- What is heard from a legible world. -/
def hearing : Protocol Call Call.Ans Unit where
  allowed _ c := ∀ ev, c = .pushEvent ev → Utf8.Valid ev.eventType ∧ Utf8.Valid ev.data
  next _ c x _ := Heard c x

theorem obeys_of_speaks {α : Type} {Q : α → Prop} {p : Handler α} (hp : Speaks Q p) (u : Unit) :
    Obeys hearing (fun _ => Q) u p := by
  induction p generalizing u with
  | ret a => exact hp
  | call c k ih => exact ⟨hp.1, fun x u' hx => ih x (hp.2 x hx) u'⟩

/-- Responses are readable, and requests are counted. -/
def noting : Protocol Call Call.Ans ((Unit × Unit) × Share) :=
  ((answering Unit True).both hearing).both counting

/-- The results of a bot have been counted. -/
structure Noted (s : Share) (results : List (Bytes × Bool)) (s' : Share) : Prop where
  total : s'.counts .requestsTotal = s.counts .requestsTotal + results.length
  successful : s'.counts .successfulRequests =
    s.counts .successfulRequests + results.countP (·.2)
  failed : s'.counts .failedRequests = s.counts .failedRequests + results.countP (!·.2)

theorem Noted.cons {s s' s'' : Share} {r : Json} {results : List (Bytes × Bool)} (action : Bytes)
    (h : Counted s r s') (hrest : Noted s' results s'') :
    Noted s ((action, isOk r) :: results) s'' := by
  have htotal := h .requestsTotal rfl
  have hsuccessful := h .successfulRequests rfl
  have hfailed := h .failedRequests rfl
  cases hok : isOk r with
  | true =>
    rw [outcome, if_pos hok] at htotal hsuccessful hfailed
    simp only [tally, reduceCtorEq, if_true, if_false, add_zero] at htotal hsuccessful hfailed
    refine ⟨?_, ?_, ?_⟩
    · rw [hrest.total, htotal, List.length_cons]
      omega
    · rw [hrest.successful, hsuccessful, List.countP_cons_of_pos rfl]
      omega
    · rw [hrest.failed, hfailed, List.countP_cons_of_neg (by simp)]
  | false =>
    rw [outcome, hok, if_neg Bool.false_ne_true] at htotal hsuccessful hfailed
    simp only [tally, reduceCtorEq, if_true, if_false, add_zero] at htotal hsuccessful hfailed
    refine ⟨?_, ?_, ?_⟩
    · rw [hrest.total, htotal, List.length_cons]
      omega
    · rw [hrest.successful, hsuccessful, List.countP_cons_of_neg (by simp)]
    · rw [hrest.failed, hfailed, List.countP_cons_of_pos rfl]
      omega

section Bots

variable {cfg : Config} {fp : Doubles} {config : SimulatorConfig}

/-- **A bot notes of a request what the server counts.**  Each of its requests is answered with `ok`
or not, and the bot reads this off the text that the server counts by. -/
theorem reply_noting {rawJson : Bytes} (hmetrics : Request.decode rawJson ≠ .getMetrics)
    (u : (Unit × Unit) × Share) :
    Obeys noting (fun u' r => Counted u.2 r u'.2 ∧ succeeded r.text = isOk r) u
      (reply cfg fp rawJson) := by
  have hreadable := ((reply_obeys (P := True) (s := u.1.1) rawJson).both
    (obeys_of_speaks (reply_speaks cfg fp rawJson) u.1.2)).both (reply_counting (s := u.2) rawJson)
  refine hreadable.mono fun u' r h => ⟨h.2, ?_⟩
  obtain ⟨⟨⟨-, hcanonical, hnumeric⟩, hutf8⟩, -⟩ := h
  exact succeeded_text hcanonical
    (Json.readable_of_utf8 hutf8 (hnumeric (Or.inr ⟨trivial, hmetrics⟩)))

theorem exchangeAll_noting {requests : List (Bytes × Bytes)}
    (hmetrics : ∀ request ∈ requests, Request.decode request.2 ≠ .getMetrics)
    (u : (Unit × Unit) × Share) :
    Obeys noting (fun u' results => Noted u.2 results u'.2) u
      (expand (reply cfg fp) (exchangeAll requests)) := by
  induction requests generalizing u with
  | nil => exact ⟨rfl, rfl, rfl⟩
  | cons request rest ih =>
    obtain ⟨hfirst, hrest⟩ := List.forall_mem_cons.mp hmetrics
    refine (reply_noting hfirst u).bind fun u' r hr => ?_
    rw [Sessions.expand_bind]
    refine (ih hrest u').bind fun u'' later hlater => ?_
    show Noted u.2 ((request.1, succeeded r.text) :: later) u''.2
    rw [hr.2]
    exact hlater.cons request.1 hr.1

/-- The bots do not ask for the metrics. -/
theorem decode_requests (p : Int32) (draws : List Draw) :
    ∀ request ∈ PlayerBot.requests config p draws, Request.decode request.2 ≠ .getMetrics := by
  intro request hmem hmetrics
  rw [PlayerBot.requests, List.mem_append, List.mem_cons, List.mem_map,
    List.mem_singleton] at hmem
  rcases hmem with (rfl | ⟨d, -, rfl⟩) | rfl
  · cases (PlayerBot.decode_joinReq p).symm.trans hmetrics
  · unfold PlayerBot.act at hmetrics
    split at hmetrics
    · cases (PlayerBot.decode_moveReq p d.x d.y).symm.trans hmetrics
    split at hmetrics
    · cases (PlayerBot.decode_attackReq config p).symm.trans hmetrics
    split at hmetrics
    · cases (PlayerBot.decode_stateReq p).symm.trans hmetrics
    · cases (PlayerBot.decode_chatReq p).symm.trans hmetrics
  · cases (PlayerBot.decode_leaveReq p).symm.trans hmetrics

end Bots

/-! ## All bots -/

/-- Events are numbered one after another. -/
structure Numbered (g : GameState) : Prop where
  pos : 0 < g.nextEventId
  lt : ∀ ev ∈ g.events, ev.eventId < g.nextEventId

theorem mem_pushEvent {g : GameState} {ev a : GameEvent} (h : a ∈ (g.pushEvent ev).events) :
    a ∈ g.events ∨ a = ev := by
  unfold GameState.pushEvent at h
  simp only at h
  have hmem : a ∈ g.events ++ [ev] := by
    split at h
    · exact List.mem_of_mem_tail h
    · exact h
  exact (List.mem_append.mp hmem).imp_right List.mem_singleton.mp

section Steps

variable {fp : Doubles} {c : Call} {e : Env} {w : World}

theorem nextEventId_exec : w.game.nextEventId ≤ (c.exec fp e w).2.game.nextEventId := by
  by_cases hc : c.Unlogged
  · exact (congrArg Prod.snd (Call.exec_unlogged fp hc e w)).ge
  · cases c with
    | fetchAddEventId => exact Nat.le_succ _
    | pushEvent ev => exact le_rfl
    | _ => exact absurd trivial hc

theorem Numbered.exec (h : Numbered w.game)
    (hpush : ∀ ev, c = .pushEvent ev → ev.eventId < w.game.nextEventId) :
    Numbered (c.exec fp e w).2.game := by
  refine ⟨Nat.lt_of_lt_of_le h.pos nextEventId_exec, fun a ha => ?_⟩
  refine Nat.lt_of_lt_of_le ?_ nextEventId_exec
  by_cases hc : c.Unlogged
  · have hevents : (c.exec fp e w).2.game.events = w.game.events :=
      congrArg Prod.fst (Call.exec_unlogged fp hc e w)
    rw [hevents] at ha
    exact h.lt a ha
  · cases c with
    | fetchAddEventId => exact h.lt a ha
    | pushEvent ev =>
      rcases mem_pushEvent ha with ha | rfl
      · exact h.lt a ha
      · exact hpush a rfl
    | _ => exact absurd trivial hc

theorem drawn_lt {last : ℕ} (hlast : last < w.game.nextEventId) :
    drawn last c (c.exec fp e w).1 < (c.exec fp e w).2.game.nextEventId := by
  cases c with
  | fetchAddEventId => exact Nat.lt_succ_self _
  | _ => exact Nat.lt_of_lt_of_le hlast nextEventId_exec

end Steps

/-- The counters are the sums of what the bots have added to them. -/
structure Tallied (w : World) (phases : ℕ → Option ((Unit × Unit) × Share)) : Prop where
  counters : ∀ k, Sums phases (fun u => u.2.counts k) (w.metrics.counters k)
  legible : w.Legible
  numbered : Numbered w.game
  below : ∀ i u, phases i = some u → u.2.eventId < w.game.nextEventId

/-- Nothing has been added. -/
def fresh : (Unit × Unit) × Share := (((), ()), ⟨0, 0⟩)

section Tallied

variable {fp : Doubles} {w : World} {phases : ℕ → Option ((Unit × Unit) × Share)}

theorem Tallied.invoke (h : Tallied w phases) {i : ℕ} (hi : phases i = none) :
    Tallied w (Function.update phases i (some fresh)) where
  counters k := (h.counters k).invoke hi
  legible := h.legible
  numbered := h.numbered
  below := by
    intro j u hj
    rcases Interleaving.update_some_cases hj with ⟨-, hv⟩ | ⟨-, hj⟩
    · cases hv
      exact h.numbered.pos
    · exact h.below j u hj

/-- **One step.**  Only one bot moves, and what it notes and what the server counts of it change
together. -/
theorem Tallied.step (hfp : Prints fp) (hrange : w.game.InRange) (h : Tallied w phases) {i : ℕ}
    {u : (Unit × Unit) × Share} (hi : phases i = some u) {c : Call} (hallowed : noting.allowed u c)
    (e : Env) : ∃ u', noting.next u c (c.exec fp e w).1 u' ∧
      Tallied (c.exec fp e w).2 (Function.update phases i (some u')) := by
  obtain ⟨⟨-, hspeaks⟩, hpush⟩ := hallowed
  have hdrawn := h.below i u hi
  refine ⟨(u.1, ⟨u.2.counts + tally c, drawn u.2.eventId c (c.exec fp e w).1⟩),
    ⟨⟨⟨rfl, ?_⟩, heard_exec fp c e h.legible⟩, rfl⟩, fun k => ?_, ?_, ?_, ?_⟩
  · exact answersCanonical_exec c e fun _ => numeric_snapshot hfp hrange h.numbered.lt e.now
  · refine (h.counters k).call hi ?_
    rw [counters_exec fp c e w k]
    show _ = w.metrics.counters k + (u.2.counts k + tally c k)
    omega
  · exact h.legible.exec fp hspeaks e
  · refine h.numbered.exec fun ev hev => ?_
    rw [hpush ev hev]
    exact hdrawn
  · intro j u' hj
    rcases Interleaving.update_some_cases hj with ⟨-, hv⟩ | ⟨-, hj⟩
    · cases hv
      exact drawn_lt hdrawn
    · exact Nat.lt_of_lt_of_le (h.below j u' hj) nextEventId_exec

end Tallied

theorem inRange_back (fp : Doubles) (w : World) (c : Call) (e : Env)
    (h : (c.exec fp e w).2.game.InRange) : w.game.InRange :=
  ⟨Nat.lt_of_le_of_lt (totalKills_exec fp c e w) h.totalKills,
    Nat.le_trans nextEventId_exec h.nextEventId⟩

section Totals

variable {config : SimulatorConfig} {cfg : Config} {fp : Doubles} {w₀ : World}
  {x : Interleaving.Config Call Call.Ans Bot (List (Bytes × Bool)) World}

/-- **What the scripts note is what the server has counted**, when all bots have finished.  The sums
over the bots are sums over their lists, request by request. -/
theorem counters_of_scripts (hfresh : w₀.Fresh) (hzero : ∀ k, w₀.metrics.counters k = 0)
    (hfp : Prints fp) (hx : Reachable (Simulation.run config cfg fp) (Call.exec fp) w₀ x)
    (hrange : x.shared.game.InRange) (hquiet : x.Quiet) {results : List (Bytes × Bool)}
    (hresults : results = (answersOf x.history).flatMap Prod.snd) :
    x.shared.metrics.counters .requestsTotal = results.length ∧
      x.shared.metrics.counters .successfulRequests = results.countP (·.2) ∧
      x.shared.metrics.counters .failedRequests = results.countP (!·.2) := by
  have hphased : ∃ phases, Phased noting
      (fun (u : (Unit × Unit) × Share) results => Noted fresh.2 results u.2) Tallied x phases := by
    refine Reachable.phased_while (inRange_back fp) (fun _ bot _ => ?_) ?_
      (fun _ _ _ _ _ hnone h => h.invoke hnone)
      (fun _ _ _ _ _ e hrange h hi hallowed => h.step hfp hrange hi hallowed e) hx
      (fun _ _ _ => trivial) hrange
    · exact exchangeAll_noting (decode_requests bot.playerId bot.draws) fresh
    · obtain ⟨t, hgame⟩ := hfresh
      refine ⟨fun k => ?_, World.Fresh.legible ⟨t, hgame⟩, ?_, fun _ _ h => by cases h⟩
      · rw [hzero k]
        exact Interleaving.sums_nothing
      · rw [hgame]
        exact ⟨Nat.one_pos, fun ev hev => by cases hev⟩
  obtain ⟨phases, h⟩ := hphased
  have hsum {k : Counter} {g : List (Bytes × Bool) → ℕ}
      (hg : ∀ (u : (Unit × Unit) × Share) results, Noted fresh.2 results u.2 →
        u.2.counts k = g results) :
      x.shared.metrics.counters k = ((answersOf x.history).map fun e => g e.2).sum :=
    h.sum_answers hx hquiet (h.inv.counters k) hg
  subst hresults
  refine ⟨?_, ?_, ?_⟩
  · rw [List.length_flatMap]
    exact hsum fun u results hnoted => hnoted.total.trans (Nat.zero_add _)
  · rw [List.countP_flatMap]
    exact hsum fun u results hnoted => hnoted.successful.trans (Nat.zero_add _)
  · rw [List.countP_flatMap]
    exact hsum fun u results hnoted => hnoted.failed.trans (Nat.zero_add _)

end Totals

end Measurements
end MultiPlayerGame
