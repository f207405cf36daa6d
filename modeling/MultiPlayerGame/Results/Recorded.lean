import MultiPlayerGame.Library.Schedules
import MultiPlayerGame.Results.Measurements
import MultiPlayerGame.Results.Summary
import MultiPlayerGame.Results.Wire

/-!
# What the simulator records

What the simulator reports at its end is made of the metrics that `PlayerBot::run` has recorded.
`Results.Simulation` and `Results.Measurements` are about something else, namely about what scripts
note that get all their responses.  Here the two are put together: the server serves the requests of
the bots, in some interleaving, and of every bot that has finished there is what went over its wire
(`live`); and `PlayerBot::run`, over a connection that carries just this, records metrics from which
everything that has been proved of the scripts can be read off.

## What is assumed of the connections

The connections have to carry the exchanges (`Wire.Carries`).  Each bot can connect, no `send` and
no
`recv` of it fails, and no response has more than 1 MiB.  Without this both theorems are false, and
not by accident.  A bot that cannot connect records a `CONNECT` that the server never hears of; a
bot whose `LEAVE` is not sent leaves its player in the game; and a bot that gets a `GET_STATE` of
more than 1 MiB records a failure where the server has counted a success, and takes the rest of the
response for the header of the next one.

Nothing is assumed of the pieces in which responses arrive, of the latencies, of the random numbers
of the bots, of the order in which they hand in their metrics, or of how many of them have finished:
an unfinished bot has recorded nothing, and the first three conclusions of `simulation_exact` are
about the others.
-/

namespace MultiPlayerGame
namespace Recorded

open Bytes (ascii)
open Interleaving (Reachable Event answersOf sent)
open MetricsCollector (computeSummary)
open PlayerBot (Exchanges)
open RequestHandler
open Sessions (expand)
open Simulation (InPlay Outcome Settled LeaveFailed landed)
open Wire (Carries carried result)

/-- A bot and the server that answers it, with what goes over the wire as the result. -/
def live (config : SimulatorConfig) (cfg : Config) (fp : Doubles) (bot : Bot) :
    Handler Exchanges :=
  expand (reply cfg fp) (PlayerBot.talk (PlayerBot.requests config bot.playerId bot.draws))

/-- `PlayerBot::run` of a bot over this connection. -/
def runOver (config : SimulatorConfig) (bot : Bot) (net : List Network) :
    MetricsCollector → Option MetricsCollector :=
  PlayerBot.run true (List.zipWith carried (PlayerBot.requests config bot.playerId bot.draws) net)

/-- What metrics say about the requests. -/
def results (metrics : List RequestMetric) : List (Bytes × Bool) := metrics.map result

/-! ## The scripts behind the bots -/

section Scripts

variable {config : SimulatorConfig} {cfg : Config} {fp : Doubles} {w₀ : World}
  {x : Interleaving.Config Call Call.Ans Bot Exchanges World}

theorem mem_history_map_invoke {history : List (Event Bot Exchanges)} {i : ℕ} {bot : Bot} :
    .invoke i bot ∈ history.map (Event.map id Exchanges.noted) ↔ .invoke i bot ∈ history := by
  simp [Interleaving.invoke_mem_map]

theorem sent_history_map (history : List (Event Bot Exchanges)) :
    sent (history.map (Event.map id Exchanges.noted)) = sent history := by
  ext i
  rw [Interleaving.mem_sent, Interleaving.mem_sent]
  exact exists_congr fun _ => mem_history_map_invoke

/-- A script notes what went over the wire. -/
theorem run_eq (bot : Bot) : Simulation.run config cfg fp bot =
    live config cfg fp bot >>= fun exchanges => .ret exchanges.noted := by
  rw [Simulation.run, PlayerBot.script, PlayerBot.exchangeAll_eq, Sessions.expand_bind]
  rfl

/-- A bot makes the requests that it is to make. -/
theorem live_returns (bot : Bot) : (live config cfg fp bot).Returns fun exchanges =>
    exchanges.requests = PlayerBot.requests config bot.playerId bot.draws :=
  Sessions.returns_expand _ (PlayerBot.talk_returns _)

/-- The metrics that the bots record in `x`, with the interleaving `y` of their scripts. -/
structure Recording (config : SimulatorConfig) (cfg : Config) (fp : Doubles) (w₀ : World)
    (x : Interleaving.Config Call Call.Ans Bot Exchanges World) (nets : ℕ → List Network)
    (metrics : ℕ → List RequestMetric)
    (y : Interleaving.Config Call Call.Ans Bot (List (Bytes × Bool)) World) : Prop where
  records : ∀ i bot exchanges, .invoke i bot ∈ x.history → .respond i exchanges ∈ x.history →
    ∀ c, runOver config bot (nets i) c = some (c.recordBatch (metrics i))
  reachable : Reachable (Simulation.run config cfg fp) (Call.exec fp) w₀ y
  shared : y.shared = x.shared
  history : y.history = x.history.map (Event.map id Exchanges.noted)
  quiet : x.Quiet ↔ y.Quiet
  noted : ∀ i noted, .respond i noted ∈ y.history → results (metrics i) = noted

/-- Over its own connection `PlayerBot::run` records what went over the wire. -/
theorem exists_metrics_of_answered (hx : Reachable (live config cfg fp) (Call.exec fp) w₀ x)
    {i : ℕ} {net : List Network}
    (hnet : ∀ exchanges, .respond i exchanges ∈ x.history → Carries exchanges net) :
    ∃ ms : List RequestMetric, ∀ bot exchanges, .invoke i bot ∈ x.history →
      .respond i exchanges ∈ x.history →
      (∀ c, runOver config bot net c = some (c.recordBatch ms)) ∧
        results ms = exchanges.noted := by
  by_cases hanswered : ∃ exchanges, .respond i exchanges ∈ x.history
  · obtain ⟨exchanges, hr⟩ := hanswered
    obtain ⟨bot, hbot, hrequests⟩ := hx.returned live_returns hr
    obtain ⟨ms, hrun, hms⟩ := Wire.exists_metrics hrequests (hnet exchanges hr)
    refine ⟨ms, fun bot' exchanges' hbot' hr' => ?_⟩
    rw [hx.invoked_once hbot' hbot, hx.answered_once hr' hr]
    exact ⟨hrun, hms⟩
  · exact ⟨[], fun _ exchanges _ hr => absurd ⟨exchanges, hr⟩ hanswered⟩

/-- **The bots record what their scripts note**, in the same interleaving.  What goes over the wire
to each bot is read off the answers that its script was given. -/
theorem exists_recording (hx : Reachable (live config cfg fp) (Call.exec fp) w₀ x)
    {nets : ℕ → List Network}
    (hnets : ∀ i exchanges, .respond i exchanges ∈ x.history → Carries exchanges (nets i)) :
    ∃ metrics y, Recording config cfg fp w₀ x nets metrics y := by
  have hmetrics := fun i => exists_metrics_of_answered hx (hnets i)
  choose metrics hmetrics using hmetrics
  obtain ⟨y, hy, habs⟩ := Interleaving.Reachable.abstracts
    (Interleaving.refines_plainly (Call.exec fp))
    (fun bot => run_eq bot ▸ Program.abstracts_result (live config cfg fp bot) Exchanges.noted) hx
  refine ⟨metrics, y, fun i bot exchanges hbot hr => (hmetrics i bot exchanges hbot hr).1, hy,
    habs.shared, habs.history, habs.quiet_iff, fun i noted hnoted => ?_⟩
  rw [habs.history] at hnoted
  obtain ⟨exchanges, hr, rfl⟩ := Interleaving.respond_mem_map.mp hnoted
  obtain ⟨bot, hbot⟩ := hx.invoked_of_respond hr
  exact (hmetrics i bot exchanges hbot hr).2

section Recording

variable {nets : ℕ → List Network} {metrics : ℕ → List RequestMetric}
  {y : Interleaving.Config Call Call.Ans Bot (List (Bytes × Bool)) World}

theorem Recording.invoke_iff (h : Recording config cfg fp w₀ x nets metrics y) {i : ℕ} {bot : Bot} :
    .invoke i bot ∈ y.history ↔ .invoke i bot ∈ x.history := by
  rw [h.history]
  exact mem_history_map_invoke

theorem Recording.respond (h : Recording config cfg fp w₀ x nets metrics y) {i : ℕ}
    {exchanges : Exchanges} (hr : .respond i exchanges ∈ x.history) :
    .respond i exchanges.noted ∈ y.history := by
  rw [h.history]
  exact Interleaving.respond_mem_map.mpr ⟨exchanges, hr, rfl⟩

end Recording

/-- **Responses that fit can always be carried.**  Each of them comes in one piece, in answer to a
request that is sent in one. -/
theorem exists_nets (hx : Reachable (live config cfg fp) (Call.exec fp) w₀ x)
    (hfits : ∀ a ∈ answersOf x.history, ∀ e ∈ a.2,
      e.2.2.text.length ≤ MessageFramer.maxMessageSize.toNat) :
    ∃ nets : ℕ → List Network,
      ∀ i exchanges, .respond i exchanges ∈ x.history → Carries exchanges (nets i) := by
  have hone : ∀ i, ∃ net : List Network,
      ∀ exchanges, .respond i exchanges ∈ x.history → Carries exchanges net := by
    intro i
    by_cases hanswered : ∃ exchanges, .respond i exchanges ∈ x.history
    · obtain ⟨exchanges, hr⟩ := hanswered
      refine ⟨exchanges.map fun e => Wire.whole e.2, fun exchanges' hr' => ?_⟩
      rw [hx.answered_once hr' hr]
      refine List.forall₂_map_right_iff.mpr (List.forall₂_same.mpr fun e he => ?_)
      exact Wire.exchanged_whole (hfits _ (Interleaving.mem_answersOf.mpr hr) e he)
    · exact ⟨[], fun exchanges hr => absurd ⟨exchanges, hr⟩ hanswered⟩
  choose nets hnets using hone
  exact ⟨nets, hnets⟩

end Scripts

/-! ## The game -/

section Game

variable {config : SimulatorConfig} {cfg : Config} {fp : Doubles} {w₀ : World}
  {x : Interleaving.Config Call Call.Ans Bot Exchanges World}

/-- **What the bots record and what the server counts agree**, in every interleaving in which the
connections carry what is sent. -/
theorem simulation_exact (hfresh : w₀.Fresh)
    (hx : Reachable (live config cfg fp) (Call.exec fp) w₀ x)
    (hbots : ∀ i bot, .invoke i bot ∈ x.history → config.Starts i bot) {nets : ℕ → List Network}
    (hnets : ∀ i exchanges, .respond i exchanges ∈ x.history → Carries exchanges (nets i)) :
    ∃ metrics : ℕ → List RequestMetric,
      (∀ i bot exchanges, .invoke i bot ∈ x.history → .respond i exchanges ∈ x.history →
        ∀ c, runOver config bot (nets i) c = some (c.recordBatch (metrics i))) ∧
      (∀ q player, x.shared.game.players.lookup q = some player → InPlay player) ∧
      (∀ i exchanges, .respond i exchanges ∈ x.history → Outcome (results (metrics i))) ∧
      (∀ i j bot bot' exchanges exchanges', .invoke i bot ∈ x.history →
        .invoke j bot' ∈ x.history → .respond i exchanges ∈ x.history →
        .respond j exchanges' ∈ x.history →
        PlayerBot.targetId config bot.playerId = bot'.playerId →
        (LeaveFailed (results (metrics j)) ↔ landed (results (metrics i)) = 4)) ∧
      (x.Quiet → (∃ i bot, .invoke i bot ∈ x.history) →
        Settled x.shared (sent x.history) fun i => results (metrics i)) := by
  obtain ⟨metrics, y, h⟩ := exists_recording hx hnets
  obtain ⟨hinPlay, houtcome, hleave, hsettled⟩ := Simulation.scripts_exact hfresh h.reachable
    (fun i bot hbot => hbots i bot (h.invoke_iff.mp hbot)) h.noted
  refine ⟨metrics, h.records, ?_, fun i exchanges hr => houtcome i _ (h.respond hr), ?_, ?_⟩
  · rw [← h.shared]
    exact hinPlay
  · exact fun i j bot bot' exchanges exchanges' hbot hbot' hr hr' htarget =>
      hleave i j bot bot' _ _ (h.invoke_iff.mpr hbot) (h.invoke_iff.mpr hbot') (h.respond hr)
        (h.respond hr') htarget
  · rintro hquiet ⟨i, bot, hbot⟩
    have hend := hsettled (h.quiet.mp hquiet) ⟨i, bot, h.invoke_iff.mpr hbot⟩
    rwa [h.shared, h.history, sent_history_map] at hend

end Game

/-! ## The summary -/

section Summaries

variable {config : SimulatorConfig} {cfg : Config} {fp : Doubles} {w₀ : World}
  {x : Interleaving.Config Call Call.Ans Bot Exchanges World}

/-- What the summary counts, of no metrics too. -/
theorem computeSummary_counts {D : Type} [LinearOrder D] (arith : DoubleArithmetic D)
    (durationSec : D) (ms : List RequestMetric) :
    (computeSummary arith durationSec ⟨ms⟩).totalRequests = (results ms).length ∧
    (computeSummary arith durationSec ⟨ms⟩).successfulRequests = (results ms).countP (·.2) ∧
    (computeSummary arith durationSec ⟨ms⟩).failedRequests = (results ms).countP (!·.2) := by
  have hresults : ∀ p : Bool → Bool,
      (results ms).countP (fun r => p r.2) = ms.countP (fun m => p m.success) := fun p =>
    List.countP_map
  refine Eq.symm (hresults id) ▸ Eq.symm (hresults not) ▸ ?_
  rw [results, List.length_map]
  by_cases hms : ms = []
  · subst hms
    simp [computeSummary]
  · rw [computeSummary, if_neg hms, MetricsCollector.foldl_add]
    simp

/-- The bots hand in their metrics one after another. -/
def collect (config : SimulatorConfig) (nets : ℕ → List Network) (bots : List (ℕ × Bot))
    (c : MetricsCollector) : Option MetricsCollector :=
  bots.foldlM (fun c b => runOver config b.2 (nets b.1) c) c

/-- What has been handed in are the metrics of all of them. -/
theorem collect_eq {nets : ℕ → List Network} {metrics : ℕ → List RequestMetric}
    {bots : List (ℕ × Bot)}
    (h : ∀ b ∈ bots, ∀ c, runOver config b.2 (nets b.1) c = some (c.recordBatch (metrics b.1)))
    (c : MetricsCollector) :
    collect config nets bots c = some ⟨c.metrics ++ (bots.map Prod.fst).flatMap metrics⟩ := by
  induction bots generalizing c with
  | nil =>
    rw [List.map_nil, List.flatMap_nil, List.append_nil]
    rfl
  | cons b bots ih =>
    obtain ⟨hb, hbots⟩ := List.forall_mem_cons.mp h
    rw [collect, List.foldlM_cons, hb c]
    refine (ih hbots (c.recordBatch (metrics b.1))).trans ?_
    rw [List.map_cons, List.flatMap_cons, MetricsCollector.recordBatch, List.append_assoc]

/-- The bots, in the order in which they hand in their metrics, are those that have noted
something. -/
theorem Recording.handed_in {nets : ℕ → List Network} {metrics : ℕ → List RequestMetric}
    {y : Interleaving.Config Call Call.Ans Bot (List (Bytes × Bool)) World}
    (h : Recording config cfg fp w₀ x nets metrics y) (hquiet : x.Quiet) {bots : List (ℕ × Bot)}
    (hnodup : (bots.map Prod.fst).Nodup)
    (hbots : ∀ i bot, (i, bot) ∈ bots ↔ .invoke i bot ∈ x.history) :
    (results ((bots.map Prod.fst).flatMap metrics)).Perm
      ((answersOf y.history).flatMap Prod.snd) := by
  have hperm : (bots.map Prod.fst).Perm ((answersOf y.history).map Prod.fst) := by
    refine (List.perm_ext_iff_of_nodup hnodup h.reachable.nodup_answersOf).mpr fun i => ?_
    rw [List.mem_map, List.mem_map]
    constructor
    · rintro ⟨⟨_, bot⟩, hb, rfl⟩
      obtain ⟨noted, hr⟩ := h.reachable.answered_of_done (h.invoke_iff.mpr ((hbots _ bot).mp hb))
        (h.quiet.mp hquiet _)
      exact ⟨(_, noted), Interleaving.mem_answersOf.mpr hr, rfl⟩
    · rintro ⟨⟨_, noted⟩, he, rfl⟩
      obtain ⟨bot, hbot⟩ := h.reachable.invoked_of_respond (Interleaving.mem_answersOf.mp he)
      exact ⟨(_, bot), (hbots _ bot).mpr (h.invoke_iff.mp hbot), rfl⟩
  have hanswers : (answersOf y.history).flatMap Prod.snd =
      ((answersOf y.history).map Prod.fst).flatMap fun i => results (metrics i) := by
    rw [List.flatMap_map]
    refine List.flatMap_congr fun e he => ?_
    exact (h.noted e.1 e.2 (Interleaving.mem_answersOf.mp he)).symm
  rw [hanswers, results, List.map_flatMap]
  exact hperm.flatMap_right _

/-- **What the simulator reports is what the server has counted**, when all bots have finished and
their connections have carried what was sent. -/
theorem totals_agree (hfresh : w₀.Fresh) (hzero : ∀ k, w₀.metrics.counters k = 0)
    (hfp : Measurements.Prints fp) (hx : Reachable (live config cfg fp) (Call.exec fp) w₀ x)
    (hrange : x.shared.game.InRange) (hquiet : x.Quiet) {nets : ℕ → List Network}
    (hnets : ∀ i exchanges, .respond i exchanges ∈ x.history → Carries exchanges (nets i))
    {bots : List (ℕ × Bot)} (hnodup : (bots.map Prod.fst).Nodup)
    (hbots : ∀ i bot, (i, bot) ∈ bots ↔ .invoke i bot ∈ x.history)
    {D : Type} [LinearOrder D] (arith : DoubleArithmetic D) (durationSec : D) :
    ∃ c, collect config nets bots {} = some c ∧
      (computeSummary arith durationSec c).totalRequests =
        x.shared.metrics.counters .requestsTotal ∧
      (computeSummary arith durationSec c).successfulRequests =
        x.shared.metrics.counters .successfulRequests ∧
      (computeSummary arith durationSec c).failedRequests =
        x.shared.metrics.counters .failedRequests := by
  obtain ⟨metrics, y, h⟩ := exists_recording hx hnets
  have hrecords : ∀ b ∈ bots, ∀ c,
      runOver config b.2 (nets b.1) c = some (c.recordBatch (metrics b.1)) := by
    intro b hb c
    have hbot := (hbots b.1 b.2).mp hb
    obtain ⟨exchanges, hr⟩ := hx.answered_of_done hbot (hquiet b.1)
    exact h.records b.1 b.2 exchanges hbot hr c
  have hcollect := collect_eq hrecords {}
  refine ⟨_, hcollect, ?_⟩
  have hresults := h.handed_in hquiet hnodup hbots
  obtain ⟨htotal, hsuccessful, hfailed⟩ := Measurements.counters_of_scripts hfresh hzero hfp
    h.reachable (h.shared.symm ▸ hrange) (h.quiet.mp hquiet) rfl
  rw [h.shared] at htotal hsuccessful hfailed
  obtain ⟨htotal', hsuccessful', hfailed'⟩ :=
    computeSummary_counts arith durationSec ((bots.map Prod.fst).flatMap metrics)
  refine ⟨?_, ?_, ?_⟩
  · exact htotal'.trans (hresults.length_eq.trans htotal.symm)
  · exact hsuccessful'.trans ((hresults.countP_eq _).trans hsuccessful.symm)
  · exact hfailed'.trans ((hresults.countP_eq _).trans hfailed.symm)

end Summaries

/-! ## A fight -/

section Fight

open Interleaving (Move turns)

/-- Two bots. -/
def pair : SimulatorConfig := ⟨2, 1000⟩

/-- The first one attacks four times. -/
def attacking : Bot := ⟨1000, List.replicate 4 ⟨70, 0, 0⟩⟩

/-- The second one joins and leaves. -/
def attacked : Bot := ⟨1001, []⟩

/-- The clock stands still, and there are neither Redis nor MySQL. -/
def nobody : Env := {}

/-- The second bot has joined when the first one begins, and leaves when the first one is done. -/
def fight : List (Move Bot Env) :=
  [.send 0 attacking, .send 1 attacked] ++ turns 1 8 nobody ++ turns 0 200 nobody ++
    turns 1 60 nobody ++ [.answer 1, .answer 0]

/-- What the bots note: the second one is gone when it wants to leave. -/
def notes : List (Event Bot (List (Bytes × Bool))) :=
  [.invoke 0 attacking, .invoke 1 attacked,
    .respond 1 [(ascii "JOIN", true), (ascii "LEAVE", false)],
    .respond 0 ((ascii "JOIN", true) :: List.replicate 4 (ascii "ATTACK", true) ++
      [(ascii "LEAVE", true)])]

/-- What the fight leads to. -/
theorem exists_fight :
    ∃ x, Reachable (live pair ⟨true, true⟩ .zero) (Call.exec .zero) .started x ∧
      x.history.map (Event.map id Exchanges.noted) = notes ∧
      (∀ a ∈ answersOf x.history, ∀ e ∈ a.2,
        e.2.2.text.length ≤ MessageFramer.maxMessageSize.toNat) ∧
      x.shared.game.totalKills = 1 ∧ x.shared.game.nextEventId < 2 ^ 64 :=
  Interleaving.exists_play fight _ (by decide +kernel)

/-- Both bots have finished. -/
theorem quiet_of_notes {x : Interleaving.Config Call Call.Ans Bot Exchanges World}
    (hx : Reachable (live pair ⟨true, true⟩ .zero) (Call.exec .zero) .started x)
    (h : x.history.map (Event.map id Exchanges.noted) = notes) :
    x.Quiet ∧ ∀ i bot, .invoke i bot ∈ x.history ↔ (i, bot) ∈ [(0, attacking), (1, attacked)] := by
  have hinvoke : ∀ i bot,
      .invoke i bot ∈ x.history ↔ (i, bot) ∈ [(0, attacking), (1, attacked)] := by
    intro i bot
    rw [← mem_history_map_invoke, h]
    simp [notes]
  refine ⟨fun i => ?_, hinvoke⟩
  by_contra hrun
  obtain ⟨p, hp⟩ := Option.ne_none_iff_exists'.mp hrun
  obtain ⟨bot, hbot⟩ := hx.invoked hp
  have hanswered : ∀ {noted}, .respond i noted ∈ notes → False := by
    intro noted hr
    rw [← h] at hr
    obtain ⟨exchanges, hr, -⟩ := Interleaving.respond_mem_map.mp hr
    exact hrun (hx.done_of_answered hr)
  have hcases := (hinvoke i bot).mp hbot
  simp only [List.mem_cons, Prod.mk.injEq, List.not_mem_nil, or_false] at hcases
  rcases hcases with ⟨rfl, -⟩ | ⟨rfl, -⟩
  · exact hanswered (List.mem_cons_of_mem _ (List.mem_cons_of_mem _
      (List.mem_cons_of_mem _ List.mem_cons_self)))
  · exact hanswered (List.mem_cons_of_mem _ (List.mem_cons_of_mem _ List.mem_cons_self))

theorem starts_of_mem {i : ℕ} {bot : Bot} (h : (i, bot) ∈ [(0, attacking), (1, attacked)]) :
    pair.Starts i bot := by
  simp only [List.mem_cons, Prod.mk.injEq, List.not_mem_nil, or_false] at h
  rcases h with ⟨rfl, rfl⟩ | ⟨rfl, rfl⟩
  · exact ⟨by decide, rfl⟩
  · exact ⟨by decide, rfl⟩

/-- The server has counted the kill, the first bot four successful attacks, and the second one a
`LEAVE` that failed. -/
theorem simulation_exact_fight : ∃ (w : World) (bots : Finset ℕ) (metrics : ℕ → List RequestMetric),
    w.game.totalKills = 1 ∧ landed (results (metrics 0)) ≤ 4 ∧
      (LeaveFailed (results (metrics 1)) ↔ landed (results (metrics 0)) = 4) ∧
      Settled w bots fun i => results (metrics i) := by
  obtain ⟨x, hx, hnotes, hfits, hkills, -⟩ := exists_fight
  obtain ⟨nets, hnets⟩ := exists_nets hx hfits
  obtain ⟨hquiet, hbots⟩ := quiet_of_notes hx hnotes
  obtain ⟨metrics, -, -, houtcome, hleave, hsettled⟩ := simulation_exact World.started_fresh hx
    (fun i bot hbot => starts_of_mem ((hbots i bot).mp hbot)) hnets
  have hzero := (hbots 0 attacking).mpr List.mem_cons_self
  have hone := (hbots 1 attacked).mpr (List.mem_cons_of_mem _ List.mem_cons_self)
  obtain ⟨exchanges, hr⟩ := hx.answered_of_done hzero (hquiet 0)
  obtain ⟨exchanges', hr'⟩ := hx.answered_of_done hone (hquiet 1)
  exact ⟨x.shared, _, metrics, hkills, (houtcome 0 exchanges hr).landed_le,
    hleave 0 1 attacking attacked exchanges exchanges' hzero hone hr hr' (by decide),
    hsettled hquiet ⟨0, attacking, hzero⟩⟩

theorem prints_zero : Measurements.Prints .zero := by
  have hfloat : Lexer.isFloat (ascii "0.0") = true := by decide +kernel
  have hfinite : Parser.isFinite (ascii "0.0") = true := by decide +kernel
  exact fun _ => isDouble_iff.mpr ⟨hfloat, hfinite⟩

/-- The second bot hands in its metrics first. -/
theorem totals_agree_fight : ∃ (w : World) (nets : ℕ → List Network) (c : MetricsCollector),
    w.game.totalKills = 1 ∧ collect pair nets [(1, attacked), (0, attacking)] {} = some c ∧
      (computeSummary Summary.exact 10 c).totalRequests = w.metrics.counters .requestsTotal ∧
      (computeSummary Summary.exact 10 c).successfulRequests =
        w.metrics.counters .successfulRequests ∧
      (computeSummary Summary.exact 10 c).failedRequests =
        w.metrics.counters .failedRequests := by
  obtain ⟨x, hx, hnotes, hfits, hkills, hevents⟩ := exists_fight
  obtain ⟨nets, hnets⟩ := exists_nets hx hfits
  obtain ⟨hquiet, hbots⟩ := quiet_of_notes hx hnotes
  have hswap : ∀ i bot, (i, bot) ∈ [(1, attacked), (0, attacking)] ↔ .invoke i bot ∈ x.history :=
    fun i bot => (List.Perm.swap (0, attacking) (1, attacked) []).mem_iff.trans (hbots i bot).symm
  have hrange : x.shared.game.InRange := ⟨by omega, Nat.le_of_lt hevents⟩
  obtain ⟨c, hc, hcounts⟩ := totals_agree World.started_fresh (fun _ => rfl) prints_zero
    hx hrange hquiet hnets (by decide) hswap Summary.exact 10
  exact ⟨x.shared, nets, c, hkills, hc, hcounts⟩

end Fight

end Recorded
end MultiPlayerGame
