import MultiPlayerGame.Library.Counting
import MultiPlayerGame.Library.Phases
import MultiPlayerGame.Results.Linearizability
import MultiPlayerGame.Server.Readable
import MultiPlayerGame.Simulator.Simulator

/-!
# A whole simulation

`Simulator::run` against a server that has just been started: a closed system, in which nobody but
the bots sends anything.  A bot attacks the next one in a ring, and only this one.  So its player
can lose health to a single other bot, and what has become of it can be read off what the two have
been told (`Own`).  This is an invariant of every interleaving (`Played`), whatever the bots' random
numbers are.

In the end what the bots note about their own requests and what the server counts are the same:
a bot has been eliminated exactly if the one before it landed four attacks, exactly then its `LEAVE`
fails, and the server counts these eliminations (`scripts_exact`).

## What the bots are here

The bots are the scripts of `Simulator.Simulator`: every response reaches them, and they note what
it says.  A bot whose connection breaks, or that gets a response of more than 1 MiB, notes failures
that the server knows nothing of, and nothing of this module holds of it.  `Results.Recorded` says
under which conditions the results hold of `PlayerBot::run`.

## Why it holds

Every hit is one step, in which the score of the attacker and the health of the victim change
together.  So the attacker and the victim agree at every moment on how many hits there have been,
and it is enough to count them once, in the stage of the attacker.  `Played` relates the stages to
the players:  the player of a bot has been hit as often as the bot before it in the ring has hit
(`taken`), has the health that this leaves, and the score of its own hits, and is gone after the
fourth.  `Played.step` goes through the steps that a bot can take, and each of them touches the
stages of one bot and at most two players.

A bot does not see its stage.  It sees answers, and draws its conclusions: after a `MOVE` that
failed it knows that its player is gone.  `script_obeys` follows the whole script with what it can
know, by `Obeys`, the rule for programs that use others according to a protocol.  At the end of a
run the stages and the lists that the bots have handed in are put side by side (`settled_of_quiet`).

Five attacks in the same interleaving may all be under way at once, and nothing is assumed about
their order.  That a fifth hit cannot land follows from the invariant: the fourth one has removed
the player.
-/

namespace MultiPlayerGame
namespace Simulation

open Bytes (ascii)
open PlayerBot (targetId)
open Program (Obeys)
open Interleaving (Reachable Sums sent)
open Linearizability (Deciding)
open Sessions (expand)
open RequestHandler

/-! ## How far a bot has come -/

inductive Stage where
  /-- its `JOIN` has not been decided -/
  | ready (p : Int32)
  /-- its player has joined and hit this many times; `out`: it has been told that it is gone -/
  | playing (p : Int32) (hits : ℕ) (out : Bool)
  /-- its `LEAVE` has been decided; `left`: the player was there -/
  | gone (p : Int32) (hits : ℕ) (left : Bool)

namespace Stage

def playerId : Stage → Int32
  | ready p | playing p .. | gone p .. => p

/-- How often the player has hit its target. -/
def hits : Stage → ℕ
  | ready _ => 0
  | playing _ hits _ | gone _ hits _ => hits

/-- The fourth hit is lethal. -/
def kills (st : Stage) : ℕ := if st.hits = 4 then 1 else 0

end Stage

variable {config : SimulatorConfig}

/-- The steps that the requests of a bot lead to. -/
inductive Allowed (config : SimulatorConfig) : Stage → Call → Prop
  | silent {st c} (h : ¬ Deciding c) : Allowed config st c
  | join {p} : Allowed config (.ready p) (.addPlayer p)
  | move {p hits out x y} : Allowed config (.playing p hits out) (.movePlayer p x y)
  | look {p hits out} : Allowed config (.playing p hits out) (.hasPlayer p)
  | attack {p hits out} : Allowed config (.playing p hits out) (.attackPlayer p (targetId config p))
  | leave {p hits out} : Allowed config (.playing p hits out) (.removePlayer p)

/-- What a step may be answered, and where it leads.  A bot whose player is gone is told so. -/
inductive Next (config : SimulatorConfig) : Stage → (c : Call) → c.Ans → Stage → Prop
  | silent {st c x} (h : ¬ Deciding c) : Next config st c x st
  | joined {p} : Next config (.ready p) (.addPlayer p) (.ok ()) (.playing p 0 false)
  | moved {p hits x y} :
    Next config (.playing p hits false) (.movePlayer p x y) (.ok ()) (.playing p hits false)
  | stuck {p hits out x y err} :
    Next config (.playing p hits out) (.movePlayer p x y) (.error err) (.playing p hits true)
  | present {p hits} :
    Next config (.playing p hits false) (.hasPlayer p) true (.playing p hits false)
  | absent {p hits out} :
    Next config (.playing p hits out) (.hasPlayer p) false (.playing p hits true)
  | hit {p hits result} : Next config (.playing p hits false)
    (.attackPlayer p (targetId config p)) (.ok result) (.playing p (hits + 1) false)
  | miss {p hits out err} : Next config (.playing p hits out)
    (.attackPlayer p (targetId config p)) (.error err) (.playing p hits out)
  | left {p hits score} :
    Next config (.playing p hits false) (.removePlayer p) (.ok score) (.gone p hits true)
  | late {p hits out err} :
    Next config (.playing p hits out) (.removePlayer p) (.error err) (.gone p hits false)

/-- How a bot uses the server.  Which step it may take in which stage, and what it may be answered
there. -/
def protocol (config : SimulatorConfig) : Protocol Call Call.Ans Stage where
  allowed := Allowed config
  next st c x st' := Next config st c x st' ∧ (Deciding c → Heard c x)

/-! ## What has become of the players -/

/-- The score after this many hits. -/
def scoreAfter (hits : ℕ) : Int32 := if hits = 4 then 130 else Int32.ofNat (10 * hits)

/-- How a player stands who has been hit `taken` times and has hit `hits` times. -/
structure Fits (taken hits : ℕ) (s : Standing) : Prop where
  health : s.health = Int32.ofNat (100 - 25 * taken)
  score : s.score = scoreAfter hits
  kills : s.kills = if hits = 4 then 1 else 0

/-- What has become of the player of a bot. -/
def Own (taken : ℕ) (a : Arena) : Stage → Prop
  | .ready p => a.player p = none ∧ taken = 0
  | .playing p hits out =>
    (taken < 4 ∧ out = false ∧ ∃ s, a.player p = some s ∧ Fits taken hits s) ∨
      taken = 4 ∧ a.player p = none
  | .gone p _ left => a.player p = none ∧ taken ≤ 4 ∧ (left = true ↔ taken < 4)

theorem Own.congr {taken : ℕ} {a a' : Arena} {st : Stage}
    (h : a'.player st.playerId = a.player st.playerId) (hown : Own taken a st) :
    Own taken a' st := by
  cases st with
  | ready p => exact ⟨h.trans hown.1, hown.2⟩
  | playing p hits out =>
    rcases hown with ⟨hlt, hout, s, hs, hfits⟩ | ⟨hfour, hnone⟩
    · exact Or.inl ⟨hlt, hout, s, h.trans hs, hfits⟩
    · exact Or.inr ⟨hfour, h.trans hnone⟩
  | gone p hits left => exact ⟨h.trans hown.1, hown.2⟩

/-- How often the player of the `i`-th bot has been hit. -/
def taken (config : SimulatorConfig) (stages : ℕ → Option Stage) (i : ℕ) : ℕ :=
  (stages (config.attacker i)).elim 0 Stage.hits

/-- **The invariant.**  The players are as the stages of the bots say, and as many kills have been
counted as there are bots who have hit four times. -/
structure Played (config : SimulatorConfig) (a : Arena) (stages : ℕ → Option Stage) : Prop where
  bots : ∀ i st, stages i = some st → i < config.bots ∧ st.playerId = config.playerId i
  own : ∀ i st, stages i = some st → Own (taken config stages i) a st
  others : ∀ q, a.player q ≠ none → ∃ i st, stages i = some st ∧ st.playerId = q
  untouched : ∀ i, i < config.bots → stages i = none → taken config stages i = 0
  kills : Sums stages Stage.kills a.totalKills
  waiting : a.status = .waiting → ∀ i st, stages i = some st → ∃ p, st = .ready p
  active : a.status = .active → ∃ q, a.player q ≠ none

section Played

variable {a a' : Arena} {stages : ℕ → Option Stage} {i j : ℕ} {st st' : Stage}

theorem played_start {t : Int} :
    Played config ({ matchStart := t } : GameState).arena fun _ => none where
  bots _ _ hno := by cases hno
  own _ _ hno := by cases hno
  others q hq := absurd rfl hq
  untouched _ _ _ := rfl
  kills := Interleaving.sums_nothing
  waiting _ _ _ hno := by cases hno
  active hno := by cases hno

theorem taken_update (hi : stages i = some st) (hhits : st'.hits = st.hits) (j : ℕ) :
    taken config (Function.update stages i (some st')) j = taken config stages j := by
  unfold taken
  by_cases hj : config.attacker j = i
  · rw [hj, Function.update_self, hi]
    exact hhits
  · rw [Function.update_of_ne hj]

/-- Two bots play different players. -/
theorem Played.playerId_ne (h : Played config a stages) (hi : stages i = some st)
    (hj : stages j = some st') (hne : j ≠ i) : st'.playerId ≠ st.playerId := by
  intro heq
  obtain ⟨hlt, hid⟩ := h.bots i st hi
  obtain ⟨hlt', hid'⟩ := h.bots j st' hj
  exact hne (SimulatorConfig.playerId_injective hlt' hlt (by rw [← hid', ← hid, heq]))

/-- **A bot goes on without having hit.**  Its stage changes, and with it at most its own
player; what is owed by the others stays as it was. -/
theorem Played.change (h : Played config a stages) (hi : stages i = some st)
    (hid : st'.playerId = st.playerId) (hhits : st'.hits = st.hits)
    (hplayer : ∀ q, q ≠ st.playerId → a'.player q = a.player q)
    (hown : Own (taken config stages i) a' st') (hkills : a'.totalKills = a.totalKills)
    (hwaiting : a'.status = .waiting → a.status = .waiting ∧ ∃ p, st' = .ready p)
    (hactive : a'.status = .active → ∃ q, a'.player q ≠ none) :
    Played config a' (Function.update stages i (some st')) where
  bots := by
    intro j stj hj
    rcases Interleaving.update_some_cases hj with ⟨rfl, hv⟩ | ⟨-, hj⟩
    · cases hv
      rw [hid]
      exact h.bots _ st hi
    · exact h.bots j stj hj
  own := by
    intro j stj hj
    rw [taken_update hi hhits]
    rcases Interleaving.update_some_cases hj with ⟨rfl, hv⟩ | ⟨hne, hj⟩
    · cases hv
      exact hown
    · exact (h.own j stj hj).congr (hplayer _ (h.playerId_ne hi hj hne))
  others := by
    intro q hq
    by_cases hself : q = st.playerId
    · exact ⟨i, st', Function.update_self .., hid.trans hself.symm⟩
    · rw [hplayer q hself] at hq
      obtain ⟨j, stj, hj, hidj⟩ := h.others q hq
      have hne : j ≠ i := by
        rintro rfl
        cases hi.symm.trans hj
        exact hself hidj.symm
      exact ⟨j, stj, (Function.update_of_ne hne _ _).trans hj, hidj⟩
  untouched := by
    intro j hlt hj
    rw [taken_update hi hhits]
    refine h.untouched j hlt ?_
    rwa [Function.update_of_ne] at hj
    rintro rfl
    rw [Function.update_self] at hj
    cases hj
  kills := by
    rw [hkills]
    exact h.kills.same hi (by rw [Stage.kills, Stage.kills, hhits])
  waiting := by
    intro hstatus j stj hj
    obtain ⟨hbefore, hready⟩ := hwaiting hstatus
    rcases Interleaving.update_some_cases hj with ⟨-, hv⟩ | ⟨-, hj⟩
    · cases hv
      exact hready
    · exact h.waiting hbefore j stj hj
  active := hactive

/-- A bot starts. -/
theorem Played.invoke (h : Played config a stages) {bot : Bot} (hbot : config.Starts i bot)
    (hi : stages i = none) :
    Played config a (Function.update stages i (some (.ready bot.playerId))) := by
  have htaken : ∀ j, taken config (Function.update stages i (some (.ready bot.playerId))) j =
      taken config stages j := by
    intro j
    unfold taken
    by_cases hj : config.attacker j = i
    · rw [hj, Function.update_self, hi]
      rfl
    · rw [Function.update_of_ne hj]
  refine ⟨?_, ?_, ?_, ?_, ?_, ?_, h.active⟩
  · intro j stj hj
    rcases Interleaving.update_some_cases hj with ⟨rfl, hv⟩ | ⟨-, hj⟩
    · cases hv
      exact ⟨hbot.lt, hbot.playerId⟩
    · exact h.bots j stj hj
  · intro j stj hj
    rw [htaken]
    rcases Interleaving.update_some_cases hj with ⟨rfl, hv⟩ | ⟨-, hj⟩
    · cases hv
      refine ⟨?_, h.untouched _ hbot.lt hi⟩
      by_contra hsome
      obtain ⟨k, stk, hk, hidk⟩ := h.others _ hsome
      obtain ⟨hlt, hid⟩ := h.bots k stk hk
      have hkj := SimulatorConfig.playerId_injective hlt hbot.lt
        (by rw [← hid, hidk, hbot.playerId])
      rw [hkj, hi] at hk
      cases hk
    · exact h.own j stj hj
  · intro q hq
    obtain ⟨j, stj, hj, hid⟩ := h.others q hq
    have hne : j ≠ i := by
      rintro rfl
      cases hi.symm.trans hj
    exact ⟨j, stj, (Function.update_of_ne hne _ _).trans hj, hid⟩
  · intro j hlt hj
    rw [htaken]
    refine h.untouched j hlt ?_
    rwa [Function.update_of_ne] at hj
    rintro rfl
    rw [Function.update_self] at hj
    cases hj
  · exact h.kills.invoke hi
  · intro hstatus j stj hj
    rcases Interleaving.update_some_cases hj with ⟨-, hv⟩ | ⟨-, hj⟩
    · cases hv
      exact ⟨_, rfl⟩
    · exact h.waiting hstatus j stj hj

/-! ### Hits -/

theorem healthAfter_fits {hits : ℕ} (hlt : hits < 4) {s : Standing}
    (h : s.health = Int32.ofNat (100 - 25 * hits)) :
    Arena.healthAfter s = Int32.ofNat (100 - 25 * (hits + 1)) := by
  have hall : ∀ n < 4, GameState.max 0 (Int32.ofNat (100 - 25 * n) - GameState.attackDamage) =
      Int32.ofNat (100 - 25 * (n + 1)) := by decide
  rw [Arena.healthAfter, h, hall hits hlt]

theorem lethal_iff {hits : ℕ} (hlt : hits < 4) {s : Standing}
    (h : s.health = Int32.ofNat (100 - 25 * hits)) : Arena.Lethal s ↔ hits = 3 := by
  have hall : ∀ n < 4, Int32.ofNat (100 - 25 * (n + 1)) = 0 ↔ n = 3 := by decide
  rw [Arena.Lethal, healthAfter_fits hlt h, hall hits hlt]

/-- The attacker after one more hit. -/
theorem Fits.rewarded {t hits other : ℕ} {attacker target : Standing} (h : Fits t hits attacker)
    (htarget : Fits hits other target) (hlt : hits < 4) :
    Fits t (hits + 1) (Arena.rewarded attacker target) := by
  have hlethal := lethal_iff hlt htarget.health
  have hscore : ∀ n < 4, scoreAfter n + (if n = 3 then 100 else 10) = scoreAfter (n + 1) := by
    decide
  have hkills : ∀ n < 4, (if n = 3 then (if n = 4 then 1 else 0) + 1 else if n = 4 then 1 else 0) =
      (if n + 1 = 4 then 1 else (0 : Int32)) := by decide
  refine ⟨h.health, ?_, ?_⟩
  · rw [Arena.rewarded, h.score, ← hscore hits hlt]
    simp only [hlethal]
  · rw [Arena.rewarded, h.kills, ← hkills hits hlt]
    simp only [hlethal]

/-- The victim after one more hit. -/
theorem Fits.struck {hits other : ℕ} {target : Standing} (h : Fits hits other target)
    (hlt : hits < 4) :
    hits + 1 < 4 ∧ (∃ s, Arena.struck target = some s ∧ Fits (hits + 1) other s) ∨
      hits + 1 = 4 ∧ Arena.struck target = none := by
  have hlethal := lethal_iff hlt h.health
  by_cases hthree : hits = 3
  · exact Or.inr ⟨by omega, if_pos (hlethal.mpr hthree)⟩
  · exact Or.inl ⟨by omega, _, if_neg fun hyes => hthree (hlethal.mp hyes),
      healthAfter_fits hlt h.health, h.score, h.kills⟩

/-- The bot whose player is at the other end of an attack. -/
theorem Played.victim (h : Played config a stages) {p : Int32} {hits : ℕ} {out : Bool}
    (hi : stages i = some (.playing p hits out)) {target : Standing}
    (htarget : a.player (targetId config p) = some target) : ∃ other,
      stages (config.victim i) = some (.playing (targetId config p) other false) ∧
        hits < 4 ∧ Fits hits other target := by
  obtain ⟨hlt, hid⟩ := h.bots i _ hi
  have htargetId : targetId config p = config.playerId (config.victim i) := by
    rw [← SimulatorConfig.targetId_playerId hlt, ← hid]
    rfl
  obtain ⟨j, st, hj, hidj⟩ := h.others (targetId config p)
    (by rw [htarget]; exact Option.some_ne_none _)
  obtain ⟨hltj, hidj'⟩ := h.bots j st hj
  have hjv : j = config.victim i := SimulatorConfig.playerId_injective hltj
    (SimulatorConfig.victim_lt hlt) (by rw [← hidj', hidj, htargetId])
  subst hjv
  have htaken : taken config stages (config.victim i) = hits := by
    rw [taken, SimulatorConfig.attacker_victim, hi]
    rfl
  have hown := h.own _ st hj
  rw [htaken] at hown
  cases st with
  | ready q =>
    cases hidj
    cases hown.1.symm.trans htarget
  | gone q =>
    cases hidj
    cases hown.1.symm.trans htarget
  | playing q other out =>
    cases hidj
    rcases hown with ⟨hfour, rfl, s, hs, hfits⟩ | ⟨-, hnone⟩
    · cases hs.symm.trans htarget
      exact ⟨other, hj, hfour, hfits⟩
    · cases hnone.symm.trans htarget

/-- **A bot has hit.**  Its victim has been hit once more.  The stage of the attacker counts it, so
the health of its victim and its own score change with the stage. -/
theorem Played.hit (h : Played config a stages) {p : Int32} {hits : ℕ}
    (hi : stages i = some (.playing p hits false)) {attacker target : Standing}
    (hne : p ≠ targetId config p) (hattacker : a.player p = some attacker)
    (htarget : a.player (targetId config p) = some target) :
    Played config
      { a with
        player := Function.update (Function.update a.player p
          (some (Arena.rewarded attacker target))) (targetId config p) (Arena.struck target)
        totalKills := a.totalKills + if Arena.Lethal target then 1 else 0 }
      (Function.update stages i (some (.playing p (hits + 1) false))) := by
  obtain ⟨other, hvictim, hlt, hfits⟩ := h.victim hi htarget
  have hvi : config.victim i ≠ i := by
    intro heq
    rw [heq, hi] at hvictim
    exact hne (Stage.playing.inj (Option.some.inj hvictim)).1
  have htaken : ∀ k, k < config.bots → k ≠ config.victim i →
      taken config (Function.update stages i (some (.playing p (hits + 1) false))) k =
        taken config stages k := by
    intro k hk hkv
    have hattacker : config.attacker k ≠ i := by
      rintro rfl
      exact hkv (SimulatorConfig.victim_attacker hk).symm
    rw [taken, Function.update_of_ne hattacker]
    rfl
  refine ⟨?_, ?_, ?_, ?_, ?_, ?_, ?_⟩
  · intro k stk hk
    rcases Interleaving.update_some_cases hk with ⟨rfl, hv⟩ | ⟨-, hk⟩
    · cases hv
      have hbot := h.bots _ _ hi
      exact hbot
    · exact h.bots k stk hk
  · intro k stk hk
    rcases Interleaving.update_some_cases hk with ⟨rfl, hv⟩ | ⟨hki, hk⟩
    · -- the attacker itself
      cases hv
      rw [htaken k (h.bots k _ hi).1 hvi.symm]
      rcases h.own k _ hi with ⟨htwo, -, s, hs, hfits'⟩ | ⟨-, hnone⟩
      · cases hs.symm.trans hattacker
        refine Or.inl ⟨htwo, rfl, _, ?_, hfits'.rewarded hfits hlt⟩
        exact (Function.update_of_ne hne _ _).trans (Function.update_self ..)
      · cases hnone.symm.trans hattacker
    · by_cases hkv : k = config.victim i
      · -- its victim
        subst hkv
        cases hvictim.symm.trans hk
        have hnew : taken config
            (Function.update stages i (some (.playing p (hits + 1) false))) (config.victim i) =
            hits + 1 := by
          rw [taken, SimulatorConfig.attacker_victim, Function.update_self]
          rfl
        rw [hnew]
        rcases hfits.struck hlt with ⟨hthree, s, hs, hfits'⟩ | ⟨hfour, hnone⟩
        · exact Or.inl ⟨hthree, rfl, s, (Function.update_self ..).trans hs, hfits'⟩
        · exact Or.inr ⟨hfour, (Function.update_self ..).trans hnone⟩
      · -- anybody else
        rw [htaken k (h.bots k stk hk).1 hkv]
        refine (h.own k stk hk).congr ?_
        exact (Function.update_of_ne (h.playerId_ne hvictim hk hkv) _ _).trans
          (Function.update_of_ne (h.playerId_ne hi hk hki) _ _)
  · intro q hq
    by_cases hself : q = p
    · exact ⟨i, _, Function.update_self .., hself.symm⟩
    · by_cases hqt : q = targetId config p
      · exact ⟨_, _, (Function.update_of_ne hvi _ _).trans hvictim, hqt.symm⟩
      · have hsame := (Function.update_of_ne hqt (Arena.struck target) _).trans
          (Function.update_of_ne hself (some (Arena.rewarded attacker target)) a.player)
        obtain ⟨k, stk, hk, hid⟩ := h.others q fun hno => hq (hsame.trans hno)
        have hki : k ≠ i := by
          rintro rfl
          cases hi.symm.trans hk
          exact hself hid.symm
        exact ⟨k, stk, (Function.update_of_ne hki _ _).trans hk, hid⟩
  · intro k hk hnone
    have hki : k ≠ i := by
      rintro rfl
      rw [Function.update_self] at hnone
      cases hnone
    rw [Function.update_of_ne hki] at hnone
    have hkv : k ≠ config.victim i := by
      rintro rfl
      rw [hvictim] at hnone
      cases hnone
    rw [htaken k hk hkv]
    exact h.untouched k hk hnone
  · refine h.kills.call hi ?_
    have hlethal := lethal_iff hlt hfits.health
    have hnot : hits ≠ 4 := Nat.ne_of_lt hlt
    simp [Stage.kills, Stage.hits, hlethal, hnot]
  · intro hstatus
    obtain ⟨q, hq⟩ := h.waiting hstatus i _ hi
    cases hq
  · exact fun _ => ⟨p, by simp [Function.update_of_ne hne]⟩

end Played

/-! ## Single steps -/

section Exec

variable {w : World} {α : Type}

theorem attempt_of_ok {r : Except Bytes (α × GameState)} {v : α} {a : Arena}
    (h : r.map (Prod.map id GameState.arena) = .ok (v, a)) :
    (w.attempt r).1 = .ok v ∧ (w.attempt r).2.game.arena = a := by
  obtain ⟨⟨v', g⟩, rfl, heq⟩ := map_eq_ok h
  cases heq
  exact ⟨rfl, rfl⟩

theorem attempt_of_error {β : Type} {r : Except Bytes (α × GameState)}
    {f : α × GameState → β} {err : Bytes} (h : r.map f = .error err) :
    w.attempt r = (.error err, w) := by
  rw [map_eq_error h]
  rfl

theorem attemptUnit_of_ok {r : Except Bytes GameState} {a : Arena}
    (h : r.map GameState.arena = .ok a) :
    (w.attemptUnit r).1 = .ok () ∧ (w.attemptUnit r).2.game.arena = a := by
  obtain ⟨g, rfl, heq⟩ := map_eq_ok h
  exact ⟨rfl, heq⟩

theorem attemptUnit_of_error {β : Type} {r : Except Bytes GameState} {f : GameState → β}
    {err : Bytes} (h : r.map f = .error err) : w.attemptUnit r = (.error err, w) := by
  rw [map_eq_error h]
  rfl

end Exec

/-- Steps that decide nothing leave the arena alone. -/
theorem arena_of_not_deciding (fp : Doubles) {c : Call} (hc : ¬ Deciding c) (e : Env) (w : World) :
    (c.exec fp e w).2.game.arena = w.game.arena := by
  have hcore := Linearizability.core_exec_of_silent fp c e w
    (Linearizability.silent_of_not_deciding hc)
  have hplayers := congrArg (fun t => t.1) hcore
  have hstatus := congrArg (fun t => t.2.1) hcore
  have hkills := congrArg (fun t => t.2.2.2) hcore
  refine Arena.ext (funext fun q => ?_) hstatus hkills
  rw [GameState.arena_player, GameState.arena_player]
  exact congrArg (fun players => (AList.lookup q players).map PlayerState.standing) hplayers

/-- A refusal is UTF-8, whatever is in the log. -/
theorem heard_of_deciding (fp : Doubles) {c : Call} (hc : Deciding c) (e : Env) (w : World) :
    Heard c (c.exec fp e w).1 := by
  have hsame := Linearizability.exec_congr fp c e w
    { w with game := { w.game with events := [] } } hc rfl
  rw [hsame.1]
  exact heard_exec fp c e fun ev hev => by cases hev

theorem hasPlayer_eq (g : GameState) (p : Int32) : g.hasPlayer p = (g.arena.player p).isSome := by
  rw [GameState.arena_player, Option.isSome_map, GameState.hasPlayer, Bool.eq_iff_iff,
    decide_eq_true_iff, AList.lookup_isSome]

section Step

variable {fp : Doubles} {w : World} {stages : ℕ → Option Stage} {i hits : ℕ} {p : Int32}
  {out : Bool}

/-- A step of this bot may be answered so, and the invariant holds then. -/
def Goes (config : SimulatorConfig) (fp : Doubles) (stages : ℕ → Option Stage) (i : ℕ) (st : Stage)
    (c : Call) (e : Env) (w : World) : Prop :=
  ∃ st', Next config st c (c.exec fp e w).1 st' ∧
    Played config (c.exec fp e w).2.game.arena (Function.update stages i (some st'))

theorem Goes.intro {st st' : Stage} {c : Call} {e : Env} {x : c.Ans} {a : Arena}
    (hexec : (c.exec fp e w).1 = x ∧ (c.exec fp e w).2.game.arena = a)
    (hnext : Next config st c x st')
    (hplayed : Played config a (Function.update stages i (some st'))) :
    Goes config fp stages i st c e w := by
  obtain ⟨rfl, rfl⟩ := hexec
  exact ⟨st', hnext, hplayed⟩

/-- The step has changed nothing. -/
theorem Goes.same {st : Stage} {c : Call} {e : Env} {x : c.Ans}
    (h : Played config w.game.arena stages) (hi : stages i = some st)
    (hexec : (c.exec fp e w).1 = x ∧ (c.exec fp e w).2.game.arena = w.game.arena)
    (hnext : Next config st c x st) : Goes config fp stages i st c e w := by
  refine .intro hexec hnext ?_
  rwa [Function.update_eq_self_iff.mpr hi.symm]

theorem Played.status_ne (h : Played config w.game.arena stages)
    (hi : stages i = some (.playing p hits out)) : w.game.arena.status ≠ .waiting := by
  intro hstatus
  obtain ⟨q, hq⟩ := h.waiting hstatus i _ hi
  cases hq

theorem goes_join (h : Played config w.game.arena stages) (hi : stages i = some (.ready p))
    (e : Env) : Goes config fp stages i (.ready p) (.addPlayer p) e w := by
  obtain ⟨hnone, htaken⟩ := h.own i _ hi
  have hrule := GameState.arena_addPlayer p e.now w.game
  rw [Arena.addPlayer, if_neg (not_not.mpr hnone)] at hrule
  refine .intro (attemptUnit_of_ok hrule) .joined ?_
  refine h.change hi rfl rfl (fun q hq => Function.update_of_ne hq _ _) ?_ rfl ?_ ?_
  · rw [htaken]
    exact Or.inl ⟨by decide, rfl, _, Function.update_self .., rfl, rfl, rfl⟩
  · intro hstatus
    simp only at hstatus
    split at hstatus
    · cases hstatus
    · rename_i hno
      exact absurd hstatus hno
  · exact fun _ => ⟨p, by simp⟩

theorem goes_move (h : Played config w.game.arena stages)
    (hi : stages i = some (.playing p hits out)) (x y : Int32) (e : Env) :
    Goes config fp stages i (.playing p hits out) (.movePlayer p x y) e w := by
  have hstatus := h.status_ne hi
  have hrule := GameState.arena_movePlayer p x y w.game
  rw [Arena.movePlayer, Arena.modifyPlayer] at hrule
  rcases h.own i _ hi with ⟨hlt, rfl, s, hs, hfits⟩ | ⟨hfour, hnone⟩
  · rw [hs] at hrule
    refine .intro (attemptUnit_of_ok hrule) .moved ?_
    refine h.change hi rfl rfl (fun q hq => Function.update_of_ne hq _ _) ?_ rfl
      (fun hwaiting => absurd hwaiting hstatus) fun _ => ⟨p, by simp⟩
    exact Or.inl ⟨hlt, rfl, _, Function.update_self .., hfits.health, hfits.score, hfits.kills⟩
  · rw [hnone] at hrule
    have hexec := attemptUnit_of_error (w := w) hrule
    refine .intro ⟨congrArg Prod.fst hexec, congrArg (·.2.game.arena) hexec⟩ .stuck ?_
    exact h.change hi rfl rfl (fun _ _ => rfl) (Or.inr ⟨hfour, hnone⟩) rfl
      (fun hwaiting => absurd hwaiting hstatus) h.active

theorem goes_look (h : Played config w.game.arena stages)
    (hi : stages i = some (.playing p hits out)) (e : Env) :
    Goes config fp stages i (.playing p hits out) (.hasPlayer p) e w := by
  have hanswer := hasPlayer_eq w.game p
  rcases h.own i _ hi with ⟨-, rfl, s, hs, -⟩ | ⟨hfour, hnone⟩
  · rw [hs] at hanswer
    exact .same h hi ⟨hanswer, rfl⟩ .present
  · rw [hnone] at hanswer
    refine .intro ⟨hanswer, rfl⟩ .absent ?_
    exact h.change hi rfl rfl (fun _ _ => rfl) (Or.inr ⟨hfour, hnone⟩) rfl
      (fun hwaiting => absurd hwaiting (h.status_ne hi)) h.active

theorem goes_attack (h : Played config w.game.arena stages)
    (hi : stages i = some (.playing p hits out)) (e : Env) :
    Goes config fp stages i (.playing p hits out) (.attackPlayer p (targetId config p)) e w := by
  have hrule := GameState.arena_attackPlayer p (targetId config p) w.game
  cases hattack : w.game.arena.attackPlayer p (targetId config p) with
  | error err =>
    have hexec := attempt_of_error (w := w) (hrule.trans hattack)
    exact .same h hi ⟨congrArg Prod.fst hexec, congrArg (·.2.game.arena) hexec⟩ .miss
  | ok r =>
    obtain ⟨attacker, target, hne, hattacker, htarget, rfl⟩ := Arena.attackPlayer_inv hattack
    rcases h.own i _ hi with ⟨-, rfl, -⟩ | ⟨-, hnone⟩
    · exact .intro (attempt_of_ok (hrule.trans hattack)) .hit (h.hit hi hne hattacker htarget)
    · rw [hnone] at hattacker
      cases hattacker

theorem goes_leave (h : Played config w.game.arena stages)
    (hi : stages i = some (.playing p hits out)) (e : Env) :
    Goes config fp stages i (.playing p hits out) (.removePlayer p) e w := by
  have hstatus := h.status_ne hi
  have hrule := GameState.arena_removePlayer p w.game
  rw [Arena.removePlayer] at hrule
  rcases h.own i _ hi with ⟨hlt, rfl, s, hs, -⟩ | ⟨hfour, hnone⟩
  · rw [hs] at hrule
    refine .intro (attempt_of_ok hrule) .left ?_
    refine h.change hi rfl rfl (fun q hq => ?_) ?_ (Arena.totalKills_finishIfEmpty _) ?_ ?_
    · rw [Arena.player_finishIfEmpty]
      exact Function.update_of_ne hq _ _
    · refine ⟨?_, Nat.le_of_lt hlt, iff_of_true rfl hlt⟩
      rw [Arena.player_finishIfEmpty]
      exact Function.update_self ..
    · intro hwaiting
      unfold Arena.finishIfEmpty at hwaiting
      split at hwaiting
      · cases hwaiting
      · exact absurd hwaiting hstatus
    · intro hactive
      by_contra hempty
      have hall : ∀ q, Function.update w.game.arena.player p none q = none := fun q => by
        by_contra hq
        refine hempty ⟨q, ?_⟩
        rwa [Arena.player_finishIfEmpty]
      unfold Arena.finishIfEmpty at hactive
      split at hactive
      · cases hactive
      · rename_i hno
        exact hno ⟨hactive, hall⟩
  · rw [hnone] at hrule
    have hexec := attempt_of_error (w := w) hrule
    refine .intro ⟨congrArg Prod.fst hexec, congrArg (·.2.game.arena) hexec⟩ .late ?_
    refine h.change hi rfl rfl (fun _ _ => rfl) ?_ rfl
      (fun hwaiting => absurd hwaiting hstatus) h.active
    exact ⟨hnone, Nat.le_of_eq hfour, iff_of_false Bool.false_ne_true (by rw [hfour]; decide)⟩

/-- **Every step of a bot keeps the invariant.**  The bot is in a stage in which it takes this step,
and the answer is one that leads to another. -/
theorem Played.step {st : Stage} (h : Played config w.game.arena stages) (hi : stages i = some st)
    {c : Call} (hallowed : Allowed config st c) (e : Env) : Goes config fp stages i st c e w := by
  cases hallowed with
  | silent hc => exact .same h hi ⟨rfl, arena_of_not_deciding fp hc e w⟩ (.silent hc)
  | join => exact goes_join h hi e
  | move => exact goes_move h hi _ _ e
  | look => exact goes_look h hi e
  | attack => exact goes_attack h hi e
  | leave => exact goes_leave h hi e

end Step

/-! ## What a bot reports -/

section Reports

variable {cfg : Config} {fp : Doubles} {p : Int32} {hits : ℕ} {out : Bool}

theorem protocol_silent (st : Stage) {c : Call} (hc : ¬ Deciding c) :
    (protocol config).allowed st c ∧
      ∀ x st', (protocol config).next st c x st' → st' = st := by
  refine ⟨.silent hc, fun x st' h => ?_⟩
  cases h.1 with
  | silent => rfl
  | _ => exact absurd trivial hc

/-- A command, by what the step that decides about it is answered. -/
theorem command_obeys {st : Stage} {final : Stage → Json → Prop} {rawJson : Bytes} {c : Command}
    (hdecode : Request.decode rawJson = .command c) (hallowed : Allowed config st c.call)
    (hfinal : ∀ x st', Next config st c.call x st' → Heard c.call x →
      final st' (Linearizability.response c x)) :
    Obeys (protocol config) final st (reply cfg fp rawJson) := by
  have hshows : Program.Shows Deciding (reply cfg fp rawJson)
      (.call c.call fun x => .ret (Linearizability.response c x)) := by
    refine Linearizability.reply_shows cfg fp not_false (fun _ => not_false)
      (fun _ => not_false) ?_
    rw [hdecode]
    exact Linearizability.handler_shows cfg c
  refine Obeys.of_shows hshows (fun st c hc => protocol_silent st hc) ⟨hallowed, fun x st' h => ?_⟩
  exact hfinal x st' h.1 (h.2 (Linearizability.deciding_call c))

theorem succeeded_response {c : Command} (hc : c.Legible) {x : c.call.Ans} (hx : Heard c.call x) :
    PlayerBot.succeeded (Linearizability.response c x).text = (c.outcome x).isOk :=
  Command.succeeded_response hc hx

/-- One round of the action loop: what it is noted as, whether it is noted as successful, and what
the bot knows afterwards. -/
structure Round (action : Bytes) (hits : ℕ) (out ok : Bool) (hits' : ℕ) (out' : Bool) : Prop where
  hits : hits' = hits + if (action, ok) = (ascii "ATTACK", true) then 1 else 0
  out : out = true → ok = false ∧ out' = true
  tells : action = ascii "MOVE" ∨ action = ascii "CHAT" → ok = false → out' = true

theorem Round.other {action : Bytes} {ok out' : Bool} (haction : action ≠ ascii "ATTACK")
    (hout : out = true → ok = false ∧ out' = true)
    (htells : action = ascii "MOVE" ∨ action = ascii "CHAT" → ok = false → out' = true) :
    Round action hits out ok hits out' where
  hits := by rw [if_neg fun heq => haction (congrArg Prod.fst heq), Nat.add_zero]
  out := hout
  tells := htells

/-- A round with a player that is there. -/
theorem Round.fine {action : Bytes} (haction : action ≠ ascii "ATTACK") :
    Round action hits false true hits false :=
  .other haction (fun hno => by cases hno) fun _ hno => by cases hno

/-- The player is gone. -/
theorem Round.ends {action : Bytes} (haction : action ≠ ascii "ATTACK") :
    Round action hits out false hits true :=
  .other haction (fun _ => ⟨rfl, rfl⟩) fun _ _ => rfl

theorem Round.hit : Round (ascii "ATTACK") hits false true (hits + 1) false where
  hits := by rw [if_pos rfl]
  out hno := by cases hno
  tells hno := absurd hno (by decide)

theorem Round.miss : Round (ascii "ATTACK") hits out false hits out where
  hits := by rw [if_neg (by decide), Nat.add_zero]
  out hout := ⟨rfl, hout⟩
  tells hno := absurd hno (by decide)

/-- The stage and the response after one round. -/
def AfterRound (p : Int32) (action : Bytes) (hits : ℕ) (out : Bool) (st : Stage) (r : Json) :
    Prop :=
  ∃ hits' out', st = .playing p hits' out' ∧
    Round action hits out (PlayerBot.succeeded r.text) hits' out'

theorem move_obeys (x y : Int32) : Obeys (protocol config) (AfterRound p (ascii "MOVE") hits out)
    (.playing p hits out) (reply cfg fp (PlayerBot.moveReq p x y).text) := by
  refine command_obeys (PlayerBot.decode_moveReq p x y) .move fun ans st' hnext hx => ?_
  have hok := succeeded_response (c := .move p x y) trivial hx
  cases hnext with
  | silent hno => exact absurd trivial hno
  | moved => exact ⟨_, _, rfl, hok ▸ .fine (by decide)⟩
  | stuck => exact ⟨_, _, rfl, hok ▸ .ends (by decide)⟩

theorem attack_obeys : Obeys (protocol config) (AfterRound p (ascii "ATTACK") hits out)
    (.playing p hits out) (reply cfg fp (PlayerBot.attackReq config p).text) := by
  refine command_obeys (PlayerBot.decode_attackReq config p) .attack fun ans st' hnext hx => ?_
  have hok := succeeded_response (c := .attack p (targetId config p)) trivial hx
  cases hnext with
  | silent hno => exact absurd trivial hno
  | hit => exact ⟨_, _, rfl, hok ▸ .hit⟩
  | miss => exact ⟨_, _, rfl, hok ▸ .miss⟩

theorem chat_obeys : Obeys (protocol config) (AfterRound p (ascii "CHAT") hits out)
    (.playing p hits out) (reply cfg fp (PlayerBot.chatReq p).text) := by
  refine command_obeys (PlayerBot.decode_chatReq p) .look fun ans st' hnext hx => ?_
  have hlegible : (Command.chat p (ascii "ggwp")).Legible := by
    show Utf8.Valid (ascii "ggwp")
    decide
  have hok := succeeded_response (x := ans) hlegible hx
  cases hnext with
  | silent hno => exact absurd trivial hno
  | present => exact ⟨_, _, rfl, hok ▸ .fine (by decide)⟩
  | absent => exact ⟨_, _, rfl, hok ▸ .ends (by decide)⟩

/-- Whatever comes of looking at the state; a bot whose player is gone is told so. -/
theorem state_obeys : Obeys (protocol config) (AfterRound p (ascii "GET_STATE") hits out)
    (.playing p hits out) (reply cfg fp (PlayerBot.stateReq p).text) := by
  have haround : ∀ (st : Stage) (c : Call), c.Around → (protocol config).allowed st c ∧
      ∀ x st', (protocol config).next st c x st' → st' = st := fun st c hc =>
    protocol_silent st (by cases c <;> first | exact not_false | exact hc.elim)
  have hactions : ascii "GET_STATE" ≠ ascii "ATTACK" ∧ ascii "GET_STATE" ≠ ascii "MOVE" ∧
      ascii "GET_STATE" ≠ ascii "CHAT" := by decide
  obtain ⟨hattack, hmove, hchat⟩ := hactions
  refine reply_obeys_of_serve haround ?_
  rw [PlayerBot.decode_stateReq]
  refine ⟨.look, fun x st' h => ?_⟩
  cases h.1 with
  | silent hno => exact absurd trivial hno
  | present =>
    have hcalls : (Request.stateHandler cfg p true >>= orInternalError).Calls fun c =>
        ¬ Deciding c :=
      (stateHandler_calls not_false not_false not_false (fun _ => not_false) cfg p true).bind
        fun r => orInternalError_calls r
    refine (Obeys.of_calls (hcalls.mono fun c hc => protocol_silent _ hc)).mono fun st r hst => ?_
    rw [hst]
    exact ⟨_, _, rfl, .other hattack (fun hno => by cases hno)
      fun h => absurd h (not_or.mpr ⟨hmove, hchat⟩)⟩
  | absent =>
    have hok := succeeded_text (canonical_errorResponse _)
      (readable_errorResponse (valid_notInGame p))
    rw [Request.isOk_errorResponse] at hok
    exact ⟨_, _, rfl, hok ▸ .ends hattack⟩

/-- **One round.**  Whatever the bot draws, the stage after the answer is one in which what it has
noted is true. -/
theorem act_obeys (d : Draw) : Obeys (protocol config)
    (AfterRound p (PlayerBot.act config p d).1 hits out) (.playing p hits out)
    (reply cfg fp (PlayerBot.act config p d).2) := by
  unfold PlayerBot.act
  split
  · exact move_obeys d.x d.y
  split
  · exact attack_obeys
  split
  · exact state_obeys
  · exact chat_obeys

/-! ### All exchanges of a bot -/

/-- A `MOVE` or a `CHAT` that fails tells that nothing will succeed any more. -/
def Tells (a b : Bytes × Bool) : Prop :=
  a.1 = ascii "MOVE" ∨ a.1 = ascii "CHAT" → a.2 = false → b.2 = false

/-- The rounds of a bot that has joined, and whether its `LEAVE` succeeded. -/
structure Report (hits : ℕ) (out : Bool) (acts : List (Bytes × Bool)) (left : Bool) (hits' : ℕ) :
    Prop where
  hits : hits' = hits + acts.count (ascii "ATTACK", true)
  out : out = true → ∀ a ∈ acts ++ [(ascii "LEAVE", left)], a.2 = false
  tells : (acts ++ [(ascii "LEAVE", left)]).Pairwise Tells

/-- The stage and the list of a bot that has left. -/
def Reported (p : Int32) (hits : ℕ) (out : Bool) (st : Stage) (results : List (Bytes × Bool)) :
    Prop :=
  ∃ acts left hits', results = acts ++ [(ascii "LEAVE", left)] ∧ st = .gone p hits' left ∧
    Report hits out acts left hits'

theorem Report.cons {action : Bytes} {ok out' left : Bool} {hits' hits'' : ℕ}
    {acts : List (Bytes × Bool)} (hround : Round action hits out ok hits' out')
    (h : Report hits' out' acts left hits'') :
    Report hits out ((action, ok) :: acts) left hits'' where
  hits := by
    rw [h.hits, hround.hits, List.count_cons, Nat.add_assoc, Nat.add_comm (ite _ _ _)]
    simp only [beq_iff_eq]
  out hout := by
    obtain ⟨hok, hout'⟩ := hround.out hout
    exact List.forall_mem_cons.mpr ⟨hok, h.out hout'⟩
  tells := List.pairwise_cons.mpr
    ⟨fun b hb haction hok => h.out (hround.tells haction hok) b hb, h.tells⟩

/-- One exchange, and then the others. -/
theorem exchange_obeys {st : Stage} {mid : Stage → Json → Prop}
    {final : Stage → List (Bytes × Bool) → Prop} {action jsonPayload : Bytes}
    {rest : List (Bytes × Bytes)}
    (hreply : Obeys (protocol config) mid st (reply cfg fp jsonPayload))
    (hrest : ∀ st' r, mid st' r → Obeys (protocol config)
      (fun st'' later => final st'' ((action, PlayerBot.succeeded r.text) :: later)) st'
      (expand (reply cfg fp) (PlayerBot.exchangeAll rest))) :
    Obeys (protocol config) final st
      (expand (reply cfg fp) (PlayerBot.exchangeAll ((action, jsonPayload) :: rest))) := by
  refine hreply.bind fun st' r hr => ?_
  rw [Sessions.expand_bind]
  exact (hrest st' r hr).bind fun st'' later h => h

/-- The `LEAVE`. -/
theorem leave_obeys : Obeys (protocol config)
    (fun st r => st = .gone p hits (PlayerBot.succeeded r.text) ∧
      (out = true → PlayerBot.succeeded r.text = false))
    (.playing p hits out) (reply cfg fp (PlayerBot.leaveReq p).text) := by
  refine command_obeys (PlayerBot.decode_leaveReq p) .leave fun ans st' hnext hx => ?_
  have hok := succeeded_response (c := .leave p) trivial hx
  cases hnext with
  | silent hno => exact absurd trivial hno
  | left => exact hok ▸ ⟨rfl, fun hno => by cases hno⟩
  | late => exact hok ▸ ⟨rfl, fun _ => rfl⟩

/-- **All rounds, and the `LEAVE`.**  By induction on the draws. -/
theorem rounds_obeys (draws : List Draw) : Obeys (protocol config) (Reported p hits out)
    (.playing p hits out) (expand (reply cfg fp) (PlayerBot.exchangeAll
      (draws.map (PlayerBot.act config p) ++ [(ascii "LEAVE", (PlayerBot.leaveReq p).text)]))) := by
  induction draws generalizing hits out with
  | nil =>
    refine exchange_obeys leave_obeys fun st r hr => ?_
    obtain ⟨rfl, hout⟩ := hr
    refine ⟨[], _, hits, rfl, rfl, rfl, fun h => List.forall_mem_singleton.mpr (hout h), ?_⟩
    exact List.pairwise_singleton _ _
  | cons d draws ih =>
    refine exchange_obeys (act_obeys d) fun st r hr => ?_
    obtain ⟨hits', out', rfl, hround⟩ := hr
    refine ih.mono fun st later h => ?_
    obtain ⟨acts, left, hits'', rfl, hst, hreport⟩ := h
    exact ⟨_ :: acts, left, hits'', rfl, hst, hreport.cons hround⟩

/-- The stage and the list of a bot that has finished. -/
def Finished (st : Stage) (results : List (Bytes × Bool)) : Prop :=
  ∃ acts left p, results = (ascii "JOIN", true) :: acts ++ [(ascii "LEAVE", left)] ∧
    st = .gone p (acts.count (ascii "ATTACK", true)) left ∧ results.Pairwise Tells

/-- **The whole bot.**  It joins, goes through its rounds and leaves, and in the end its list says
what its stage says. -/
theorem script_obeys (draws : List Draw) : Obeys (protocol config) Finished (.ready p)
    (expand (reply cfg fp) (PlayerBot.script config p draws)) := by
  have hjoin : Obeys (protocol config)
      (fun st r => st = .playing p 0 false ∧ PlayerBot.succeeded r.text = true) (.ready p)
      (reply cfg fp (PlayerBot.joinReq p).text) := by
    refine command_obeys (PlayerBot.decode_joinReq p) .join fun ans st' hnext hx => ?_
    have hok := succeeded_response (c := .join p) trivial hx
    cases hnext with
    | silent hno => exact absurd trivial hno
    | joined => exact ⟨rfl, hok⟩
  refine exchange_obeys hjoin fun st r hr => ?_
  obtain ⟨rfl, hok⟩ := hr
  refine (rounds_obeys draws).mono fun st later h => ?_
  obtain ⟨acts, left, hits', rfl, rfl, hreport⟩ := h
  rw [hok]
  refine ⟨acts, left, p, rfl, ?_, List.pairwise_cons.mpr ⟨?_, hreport.tells⟩⟩
  · rw [hreport.hits, Nat.zero_add]
  · exact fun b _ hno => absurd hno (by decide)

end Reports

/-! ## The whole simulation -/

/-- A bot and the server that answers it. -/
def run (config : SimulatorConfig) (cfg : Config) (fp : Doubles) (bot : Bot) :
    Handler (List (Bytes × Bool)) :=
  expand (reply cfg fp) (PlayerBot.script config bot.playerId bot.draws)

/-- A player in the game has been hit less than four times, and has hit at most four times. -/
structure InPlay (player : PlayerState) : Prop where
  health : ∃ taken < 4, player.health = Int32.ofNat (100 - 25 * taken)
  score : ∃ hits ≤ 4, player.score = scoreAfter hits ∧ player.kills = if hits = 4 then 1 else 0

/-- How many attacks a bot notes as successful.  These are the hits that it knows of. -/
def landed (results : List (Bytes × Bool)) : ℕ := results.count (ascii "ATTACK", true)

/-- The bot notes that its last request failed. -/
def LeaveFailed (results : List (Bytes × Bool)) : Prop :=
  results.getLast? = some (ascii "LEAVE", false)

instance : DecidablePred LeaveFailed := fun results => by
  unfold LeaveFailed
  infer_instance

/-- What a bot notes: its `JOIN` succeeds, at most four of its attacks do, and when a `MOVE` or a
`CHAT` has failed, nothing does any more. -/
structure Outcome (results : List (Bytes × Bool)) : Prop where
  shape : ∃ acts left, results = (ascii "JOIN", true) :: acts ++ [(ascii "LEAVE", left)]
  landed_le : landed results ≤ 4
  tells : results.Pairwise Tells

variable {cfg : Config} {fp : Doubles} {w₀ : World}
  {x : Interleaving.Config Call Call.Ans Bot (List (Bytes × Bool)) World}

/-- The end of a simulation with these bots: nobody is left, the match is over, and the server has
counted as many kills as bots note four successful attacks, and as bots note that their `LEAVE`
failed. -/
structure Settled (w : World) (bots : Finset ℕ) (noted : ℕ → List (Bytes × Bool)) : Prop where
  empty : ∀ q, q ∉ w.game.players
  finished : w.game.status = .finished
  killers : w.game.totalKills = (bots.filter fun i => landed (noted i) = 4).card
  killed : w.game.totalKills = (bots.filter fun i => LeaveFailed (noted i)).card

theorem exists_stages (hfresh : w₀.Fresh)
    (hx : Reachable (run config cfg fp) (Call.exec fp) w₀ x)
    (hbots : ∀ i bot, .invoke i bot ∈ x.history → config.Starts i bot) :
    ∃ stages, Interleaving.Phased (protocol config) Finished
      (fun w stages => Played config w.game.arena stages) x stages := by
  obtain ⟨t, hgame⟩ := hfresh
  refine Reachable.phased (fun _ bot _ => script_obeys bot.draws) ?_
    (fun _ _ _ _ hbot hnone hplayed => hplayed.invoke hbot hnone) ?_ hx hbots
  · rw [hgame]
    exact played_start
  · intro w stages i st c e hplayed hi hallowed
    have hgoes : Goes config fp stages i st c e w := hplayed.step hi hallowed e
    obtain ⟨st', hnext, hplayed'⟩ := hgoes
    exact ⟨st', ⟨hnext, fun hc => heard_of_deciding fp hc e w⟩, hplayed'⟩

section Phases

variable {stages : ℕ → Option Stage}

/-- The stage of a bot that has reported. -/
theorem stage_of_answered {Inv : World → (ℕ → Option Stage) → Prop}
    (h : Interleaving.Phased (protocol config) Finished Inv x stages) {i : ℕ}
    {results : List (Bytes × Bool)} (hr : .respond i results ∈ x.history) :
    ∃ p left, stages i = some (.gone p (landed results) left) ∧
      (LeaveFailed results ↔ left = false) ∧ results.Pairwise Tells ∧
      ∃ acts, results = (ascii "JOIN", true) :: acts ++ [(ascii "LEAVE", left)] := by
  obtain ⟨st, hst, acts, left, p, rfl, rfl, htells⟩ := h.answered i results hr
  have hjoin : ((ascii "JOIN", true) : Bytes × Bool) ≠ (ascii "ATTACK", true) := by decide
  have hleave : ((ascii "LEAVE", left) : Bytes × Bool) ≠ (ascii "ATTACK", true) := by
    cases left <;> decide
  have hlanded : landed ((ascii "JOIN", true) :: acts ++ [(ascii "LEAVE", left)]) =
      acts.count (ascii "ATTACK", true) := by
    simp [landed, List.count_append, hjoin, hleave]
  refine ⟨p, left, by rw [hlanded]; exact hst, ?_, htells, acts, rfl⟩
  rw [LeaveFailed, List.getLast?_concat]
  simp

/-- The hits of a bot are those that its victim has taken. -/
theorem taken_victim {i : ℕ} {st : Stage} (hi : stages i = some st) :
    taken config stages (config.victim i) = st.hits := by
  rw [taken, SimulatorConfig.attacker_victim, hi]
  rfl

variable {a : Arena}

theorem Own.taken_le {taken : ℕ} {st : Stage} (h : Own taken a st) : taken ≤ 4 := by
  cases st with
  | ready => exact h.2 ▸ Nat.zero_le 4
  | playing =>
    rcases h with ⟨hlt, -⟩ | ⟨hfour, -⟩
    · exact Nat.le_of_lt hlt
    · exact Nat.le_of_eq hfour
  | gone => exact h.2.1

theorem Played.hits_le (h : Played config a stages) {i : ℕ} {st : Stage}
    (hi : stages i = some st) : st.hits ≤ 4 := by
  have htaken : taken config stages (config.victim i) = st.hits := taken_victim hi
  rw [← htaken]
  cases hv : stages (config.victim i) with
  | none =>
    rw [h.untouched _ (SimulatorConfig.victim_lt (h.bots i st hi).1) hv]
    exact Nat.zero_le 4
  | some stv => exact (h.own _ stv hv).taken_le

theorem Played.inPlay {g : GameState} (h : Played config g.arena stages) {q : Int32}
    {player : PlayerState} (hq : g.players.lookup q = some player) : InPlay player := by
  have hplayer : g.arena.player q = some player.standing := by
    rw [GameState.arena_player, hq]
    rfl
  obtain ⟨i, st, hi, rfl⟩ := h.others q (by rw [hplayer]; exact Option.some_ne_none _)
  have hown := h.own i st hi
  have hle := h.hits_le hi
  cases st with
  | ready => cases hown.1.symm.trans hplayer
  | gone => cases hown.1.symm.trans hplayer
  | playing p hits out =>
    rcases hown with ⟨hlt, -, s, hs, hfits⟩ | ⟨-, hnone⟩
    · cases hs.symm.trans hplayer
      exact ⟨⟨_, hlt, hfits.health⟩, hits, hle, hfits.score, hfits.kills⟩
    · cases hnone.symm.trans hplayer

/-- **A bot has been eliminated exactly if the one before it landed four attacks.**  The hits that
it has taken are those in the stage of that bot, and the fourth one removes its player. -/
theorem Played.left_iff (h : Played config a stages) {i j : ℕ} {p : Int32} {hits : ℕ} {left : Bool}
    {st : Stage} (hi : stages i = some st) (hj : stages j = some (.gone p hits left))
    (hv : config.victim i = j) : left = false ↔ st.hits = 4 := by
  subst hv
  have hown := h.own _ _ hj
  rw [taken_victim hi] at hown
  obtain ⟨-, hle, hleft⟩ := hown
  rw [← Bool.not_eq_true, hleft]
  omega

end Phases

section Quiet

variable {stages : ℕ → Option Stage}

/-- When everything is quiet, every bot has reported. -/
theorem reported_of_quiet (hx : Reachable (run config cfg fp) (Call.exec fp) w₀ x)
    {Inv : World → (ℕ → Option Stage) → Prop}
    (h : Interleaving.Phased (protocol config) Finished Inv x stages) (hquiet : x.Quiet) {i : ℕ}
    {st : Stage} (hi : stages i = some st) :
    ∃ results p left, .respond i results ∈ x.history ∧ st = .gone p (landed results) left ∧
      (LeaveFailed results ↔ left = false) := by
  obtain ⟨bot, hbot⟩ := (h.begun i).mp (by rw [hi]; exact Option.some_ne_none _)
  obtain ⟨results, hr⟩ := hx.answered_of_done hbot (hquiet i)
  obtain ⟨p, left, hst, hleft, -⟩ := stage_of_answered h hr
  cases hi.symm.trans hst
  exact ⟨results, p, left, hr, rfl, hleft⟩

theorem settled_of_quiet (hx : Reachable (run config cfg fp) (Call.exec fp) w₀ x)
    (h : Interleaving.Phased (protocol config) Finished
      (fun w stages => Played config w.game.arena stages) x stages) (hquiet : x.Quiet)
    (hstarted : ∃ i bot, .invoke i bot ∈ x.history) {noted : ℕ → List (Bytes × Bool)}
    (hnoted : ∀ i results, .respond i results ∈ x.history → noted i = results) :
    Settled x.shared (sent x.history) noted := by
  have hplayed := h.inv
  have hgone : ∀ {i st}, stages i = some st → ∃ results p left,
      .respond i results ∈ x.history ∧ st = .gone p (landed results) left ∧
        (LeaveFailed results ↔ left = false) := fun hi => reported_of_quiet hx h hquiet hi
  have hids : ∀ i, i ∈ sent x.history ↔ stages i ≠ none := fun i =>
    Interleaving.mem_sent.trans (h.begun i).symm
  have hempty : ∀ q, x.shared.game.arena.player q = none := by
    intro q
    by_contra hq
    obtain ⟨i, st, hi, rfl⟩ := hplayed.others q hq
    obtain ⟨results, p, left, -, rfl, -⟩ := hgone hi
    exact hq (hplayed.own i _ hi).1
  have hkillers : x.shared.game.totalKills =
      ((sent x.history).filter fun i => landed (noted i) = 4).card := by
    refine (hplayed.kills.eq_sum hids).trans ?_
    rw [Finset.card_filter]
    refine Finset.sum_congr rfl fun i hi => ?_
    obtain ⟨st, hst⟩ := Option.ne_none_iff_exists'.mp ((hids i).mp hi)
    obtain ⟨results, p, left, hr, rfl, -⟩ := hgone hst
    rw [hst, Option.elim_some, Stage.kills, hnoted i results hr]
    rfl
  refine ⟨fun q hq => ?_, ?_, hkillers, hkillers.trans ?_⟩
  · have hnone := hempty q
    rw [GameState.arena_player, Option.map_eq_none_iff, AList.lookup_eq_none] at hnone
    exact hnone hq
  · obtain ⟨i, bot, hbot⟩ := hstarted
    obtain ⟨st, hst⟩ := Option.ne_none_iff_exists'.mp ((h.begun i).mpr ⟨bot, hbot⟩)
    obtain ⟨results, p, left, -, rfl, -⟩ := hgone hst
    cases hstatus : x.shared.game.status with
    | finished => rfl
    | waiting =>
      obtain ⟨q, hq⟩ := hplayed.waiting hstatus i _ hst
      cases hq
    | active =>
      obtain ⟨q, hq⟩ := hplayed.active hstatus
      exact absurd (hempty q) hq
  · refine Finset.card_bij (fun i _ => config.victim i) ?_ ?_ ?_
    · intro i hi
      obtain ⟨hmem, hfour⟩ := Finset.mem_filter.mp hi
      obtain ⟨st, hst⟩ := Option.ne_none_iff_exists'.mp ((hids i).mp hmem)
      obtain ⟨results, p, left, hr, rfl, -⟩ := hgone hst
      rw [hnoted i results hr] at hfour
      have htaken : taken config stages (config.victim i) = 4 := (taken_victim hst).trans hfour
      have hv : stages (config.victim i) ≠ none := by
        intro hnone
        have hlt := SimulatorConfig.victim_lt (hplayed.bots i _ hst).1
        rw [hplayed.untouched _ hlt hnone] at htaken
        cases htaken
      obtain ⟨stv, hstv⟩ := Option.ne_none_iff_exists'.mp hv
      obtain ⟨results', p', left', hr', rfl, hleft'⟩ := hgone hstv
      refine Finset.mem_filter.mpr ⟨(hids _).mpr hv, ?_⟩
      rw [hnoted _ results' hr']
      exact hleft'.mpr ((hplayed.left_iff hst hstv rfl).mpr hfour)
    · intro i _ j _ heq
      have hi : config.attacker (config.victim i) = i := SimulatorConfig.attacker_victim i
      rw [← hi, heq, SimulatorConfig.attacker_victim]
    · intro j hj
      obtain ⟨hmem, hfail⟩ := Finset.mem_filter.mp hj
      obtain ⟨stj, hstj⟩ := Option.ne_none_iff_exists'.mp ((hids j).mp hmem)
      obtain ⟨results', p', left', hr', rfl, hleft'⟩ := hgone hstj
      rw [hnoted j results' hr'] at hfail
      have hvictim := SimulatorConfig.victim_attacker (hplayed.bots j _ hstj).1
      obtain ⟨-, hle, hleft⟩ := hplayed.own j _ hstj
      have htaken : taken config stages j = 4 := by
        rw [hleft'.mp hfail] at hleft
        have hnot := mt hleft.mpr Bool.false_ne_true
        omega
      cases hst : stages (config.attacker j) with
      | none =>
        rw [taken, hst] at htaken
        cases htaken
      | some st =>
        obtain ⟨results, p, left, hr, rfl, -⟩ := hgone hst
        rw [taken, hst] at htaken
        refine ⟨config.attacker j, Finset.mem_filter.mpr ⟨(hids _).mpr ?_, ?_⟩, hvictim⟩
        · rw [hst]
          exact Option.some_ne_none _
        · rw [hnoted _ results hr]
          exact htaken

end Quiet

/-- **What the scripts note and what the server counts agree**, in every interleaving.  When all
bots have finished, their lists and the counters of the server are read off the same stages. -/
theorem scripts_exact (hfresh : w₀.Fresh)
    (hx : Reachable (run config cfg fp) (Call.exec fp) w₀ x)
    (hbots : ∀ i bot, .invoke i bot ∈ x.history → config.Starts i bot)
    {noted : ℕ → List (Bytes × Bool)}
    (hnoted : ∀ i results, .respond i results ∈ x.history → noted i = results) :
    (∀ q player, x.shared.game.players.lookup q = some player → InPlay player) ∧
    (∀ i results, .respond i results ∈ x.history → Outcome (noted i)) ∧
    (∀ i j bot bot' results results', .invoke i bot ∈ x.history → .invoke j bot' ∈ x.history →
      .respond i results ∈ x.history → .respond j results' ∈ x.history →
      targetId config bot.playerId = bot'.playerId →
      (LeaveFailed (noted j) ↔ landed (noted i) = 4)) ∧
    (x.Quiet → (∃ i bot, .invoke i bot ∈ x.history) →
      Settled x.shared (sent x.history) noted) := by
  obtain ⟨stages, h⟩ := exists_stages hfresh hx hbots
  refine ⟨fun q player => h.inv.inPlay, ?_, ?_,
    fun hquiet hstarted => settled_of_quiet hx h hquiet hstarted hnoted⟩
  · intro i results hr
    obtain ⟨p, left, hst, -, htells, acts, hacts⟩ := stage_of_answered h hr
    rw [hnoted i results hr]
    exact ⟨⟨acts, left, hacts⟩, h.inv.hits_le hst, htells⟩
  · intro i j bot bot' results results' hi hj hr hr' htarget
    obtain ⟨p, left, hst, -⟩ := stage_of_answered h hr
    obtain ⟨p', left', hst', hleft', -⟩ := stage_of_answered h hr'
    have hbot := hbots i bot hi
    have hbot' := hbots j bot' hj
    rw [hbot.playerId, SimulatorConfig.targetId_playerId hbot.lt, hbot'.playerId] at htarget
    rw [hnoted i results hr, hnoted j results' hr']
    exact hleft'.trans (h.inv.left_iff hst hst' (SimulatorConfig.playerId_injective
      (SimulatorConfig.victim_lt hbot.lt) hbot'.lt htarget))

end Simulation
end MultiPlayerGame
