import MultiPlayerGame.Results.Census

/-!
# The status of the match, from the log of calls

There is one match.  It waits for the first player, and it is over as soon as the game has become
empty; it does not start again when somebody joins after that (the guard in `addPlayer` asks for
`WAITING`).  So the status is not a function of who is playing.  It is a function of the log: the
match is finished exactly if everybody who had joined was gone at some point (`Emptied`), and then
it stays finished, whoever joins.

`statusAfter` says what one call does to the status.  The status of a log is an invariant of it
(`IsStatus.snoc`), which uses the census for the number of players.

## Why the log decides

A log of calls with their answers says who has joined, who has left and who was killed, so it says
at every moment how many players there are (`Results.Census`).  The status changes at two of the
calls.  A `JOIN` that succeeds makes a waiting match active, and a `LEAVE` that succeeds and empties
the game finishes it.  A kill never empties the game, because the attacker is still there
(`mem_attackPlayer`); so the branch of `attackPlayer` that finishes the match is not taken, and
`statusAfter` has no case for it.

With that the status of a log is computed call by call, and comparing it with the three descriptions
is arithmetic of the counters: nobody has joined, or more have joined than are gone, or they were
equal at some point after the first.
-/

namespace MultiPlayerGame
namespace Lifecycle

open Bytes (ascii)
open Census (Turn Turned turn? entered left IsCensus count_concat)
open Program (Performed)

/-- Is this a kill? -/
def isKilled : Turn → Bool
  | .killed _ => true
  | _ => false

/-- The number of players that were killed. -/
def killed (log : List (Σ c : Call, c.Ans)) : Nat := (log.filterMap turn?).countP isKilled

/-- Everybody who has joined is gone again.  This is an equation of three counters of the log. -/
def Empty (log : List (Σ c : Call, c.Ans)) : Prop :=
  0 < entered log ∧ entered log = left log + killed log

/-- At some point everybody who had joined was gone again. -/
def Emptied (log : List (Σ c : Call, c.Ans)) : Prop := ∃ past, past <+: log ∧ Empty past

theorem Emptied.mono {past log : List (Σ c : Call, c.Ans)} (h : Emptied past)
    (hpast : past <+: log) : Emptied log := by
  obtain ⟨past', hpast', hempty⟩ := h
  exact ⟨past', hpast'.trans hpast, hempty⟩

theorem emptied_concat {log : List (Σ c : Call, c.Ans)} {a : Σ c : Call, c.Ans} :
    Emptied (log ++ [a]) ↔ Emptied log ∨ Empty (log ++ [a]) := by
  constructor
  · rintro ⟨past, hpast, hempty⟩
    rcases List.prefix_concat_iff.mp hpast with rfl | hpast
    · exact Or.inr hempty
    · exact Or.inl ⟨past, hpast, hempty⟩
  · rintro (h | hempty)
    · exact h.mono (List.prefix_append _ _)
    · exact ⟨_, List.prefix_rfl, hempty⟩

theorem not_emptied_nil : ¬ Emptied [] := by
  rintro ⟨past, hpast, hjoined, -⟩
  rw [List.prefix_nil.mp hpast] at hjoined
  exact absurd hjoined (by decide)

/-! ## What one call does -/

/-- The status after a call, given how many players it leaves. -/
def statusAfter (count : Nat) (status : MatchStatus) : Option Turn → MatchStatus
  | some (.entered _) => if status = .waiting then .active else status
  | some (.left _) => if status = .active ∧ count = 0 then .finished else status
  | _ => status

theorem status_addPlayer {g g' : GameState} {p : Int32} {now : Nat → Int}
    (h : g.addPlayer p now = .ok g') :
    g'.status = if g.status = .waiting then .active else g.status := by
  obtain ⟨-, rfl⟩ := GameState.addPlayer_inv h
  rfl

theorem status_removePlayer {g : GameState} {p : Int32} {r : Int32 × GameState}
    (h : g.removePlayer p = .ok r) :
    r.2.status =
      if g.status = .active ∧ r.2.activePlayerCount = 0 then .finished else g.status := by
  obtain ⟨st, -, rfl⟩ := GameState.removePlayer_inv h
  rw [GameState.activePlayerCount, GameState.players_finishIfEmpty]
  unfold GameState.finishIfEmpty
  split <;> rfl

theorem status_modifyPlayer {g g' : GameState} {p : Int32} {f : PlayerState → PlayerState}
    (h : g.modifyPlayer p f = .ok g') : g'.status = g.status := by
  obtain ⟨st, -, rfl⟩ := GameState.modifyPlayer_inv h
  rfl

/-- What an attack leaves. -/
theorem attackPlayer_inv {g : GameState} {p q : Int32} {r : AttackResult × GameState}
    (h : g.attackPlayer p q = .ok r) :
    r.2.status = g.status ∧ ∃ st, r.2.players.lookup p = some st := by
  obtain ⟨attacker, target, hself, hatt, -, rfl⟩ := GameState.attackPlayer_inv h
  refine ⟨rfl, GameState.rewardedState attacker target, ?_⟩
  change (GameState.playersAfterAttack p q attacker target g.players).lookup p = _
  unfold GameState.playersAfterAttack
  simp only
  split
  · rw [AList.lookup_erase_ne hself, KeyedMap.lookup_replace (KeyedMap.mem_of_lookup hatt)]
  · rw [KeyedMap.lookup_replace_ne hself, KeyedMap.lookup_replace (KeyedMap.mem_of_lookup hatt)]

theorem mem_attackPlayer {g g' : GameState} {p q : Int32} {r : AttackResult}
    (h : g.attackPlayer p q = .ok (r, g')) : p ∈ g'.players := by
  obtain ⟨-, st, hst⟩ := attackPlayer_inv h
  exact KeyedMap.mem_of_lookup hst

/-- After an attack the attacker is still there, and the status is what it was. -/
theorem status_attackPlayer {g : GameState} {p q : Int32} {r : AttackResult × GameState}
    (h : g.attackPlayer p q = .ok r) : r.2.status = g.status ∧ 0 < r.2.activePlayerCount := by
  obtain ⟨hstatus, st, hst⟩ := attackPlayer_inv h
  exact ⟨hstatus, KeyedMap.size_pos_of_lookup hst⟩

/-- **What any step on the shared objects does to the status**; a kill leaves somebody in the
game. -/
theorem exec_status (fp : Doubles) (c : Call) (e : Env) (w : World) :
    (c.exec fp e w).2.game.status =
        statusAfter (c.exec fp e w).2.game.activePlayerCount w.game.status
          (turn? ⟨c, (c.exec fp e w).1⟩) ∧
      ∀ q, turn? ⟨c, (c.exec fp e w).1⟩ = some (.killed q) →
        0 < (c.exec fp e w).2.game.activePlayerCount := by
  cases c with
  | addPlayer playerId =>
    cases h : w.game.addPlayer playerId e.now with
    | error err =>
      simp [Call.exec, World.attemptUnit, World.attempt, h, Except.map, turn?, statusAfter]
    | ok g => simp [Call.exec, World.attemptUnit, World.attempt, h, Except.map, turn?, statusAfter,
        status_addPlayer h]
  | removePlayer playerId =>
    cases h : w.game.removePlayer playerId with
    | error err => simp [Call.exec, World.attempt, h, turn?, statusAfter]
    | ok r => simp [Call.exec, World.attempt, h, turn?, statusAfter, status_removePlayer h]
  | movePlayer playerId x y =>
    cases h : w.game.movePlayer playerId x y with
    | error err =>
      simp [Call.exec, World.attemptUnit, World.attempt, h, Except.map, turn?, statusAfter]
    | ok g => simp [Call.exec, World.attemptUnit, World.attempt, h, Except.map, turn?, statusAfter,
        status_modifyPlayer h]
  | attackPlayer playerId targetId =>
    cases h : w.game.attackPlayer playerId targetId with
    | error err => simp [Call.exec, World.attempt, h, turn?, statusAfter]
    | ok r =>
      obtain ⟨hstatus, hcount⟩ := status_attackPlayer h
      cases helim : r.1.targetEliminated with
      | false => simp [Call.exec, World.attempt, h, turn?, statusAfter, hstatus, helim]
      | true => simp [Call.exec, World.attempt, h, turn?, statusAfter, hstatus, hcount, helim]
  | setScore playerId score =>
    cases h : w.game.setScore playerId score with
    | error err =>
      simp [Call.exec, World.attemptUnit, World.attempt, h, Except.map, turn?, statusAfter]
    | ok g => simp [Call.exec, World.attemptUnit, World.attempt, h, Except.map, turn?, statusAfter,
        status_modifyPlayer h]
  | _ => exact ⟨rfl, fun q hq => by cases hq⟩

/-! ## The status of a log -/

/-- **The status that a log leads to.**  It is told by whether anybody has joined, and whether
everybody who had was gone at some point. -/
structure IsStatus (log : List (Σ c : Call, c.Ans)) (g : GameState) : Prop where
  kills : g.totalKills = killed log
  waiting : g.status = .waiting ↔ entered log = 0
  finished : g.status = .finished ↔ Emptied log
  playing : g.status = .active → 0 < g.activePlayerCount

theorem isStatus_start (matchStart : Int) : IsStatus [] { matchStart } where
  kills := rfl
  waiting := iff_of_true rfl rfl
  finished := iff_of_false (fun h => by cases h) not_emptied_nil
  playing := fun h => by cases h

/-- In a census the game is empty when the counters say so. -/
theorem empty_iff {log : List (Σ c : Call, c.Ans)} {g : GameState} (hcensus : IsCensus log g)
    (hkills : g.totalKills = killed log) :
    Empty log ↔ 0 < entered log ∧ g.activePlayerCount = 0 := by
  have hcount := hcensus.count
  rw [hkills] at hcount
  refine and_congr_right fun _ => ?_
  omega

/-- **Every call keeps the status right.**  The census says how many players the call leaves, and
`statusAfter` what that makes of the status. -/
theorem IsStatus.snoc {log : List (Σ c : Call, c.Ans)} {a : Σ c : Call, c.Ans} {g g' : GameState}
    (h : IsStatus log g) (hcensus : IsCensus log g) (hcensus' : IsCensus (log ++ [a]) g')
    (hturned : Turned g (turn? a) g')
    (hstatus : g'.status = statusAfter g'.activePlayerCount g.status (turn? a))
    (hkilled : ∀ q, turn? a = some (.killed q) → 0 < g'.activePlayerCount) :
    IsStatus (log ++ [a]) g' := by
  have hkills' : g'.totalKills = killed (log ++ [a]) := by
    rw [killed, count_concat]
    cases hturn : turn? a with
    | none =>
      rw [(hturned.same hturn).2.2, h.kills]
      rfl
    | some t =>
      have hcounted := (hturned.turned t hturn).2
      cases t with
      | entered q => rw [hcounted.2, h.kills]; rfl
      | left q => rw [hcounted.2, h.kills]; rfl
      | killed q => rw [hcounted.2, h.kills]; rfl
  have hempty' : Emptied (log ++ [a]) ↔
      Emptied log ∨ 0 < entered (log ++ [a]) ∧ g'.activePlayerCount = 0 :=
    emptied_concat.trans (or_congr_right (empty_iff hcensus' hkills'))
  have hentered : entered (log ++ [a]) =
      entered log + if (turn? a).any Turn.isEntered then 1 else 0 := count_concat _
  have hcount := hcensus.count
  have hwaiting := h.waiting
  have hfinished := h.finished
  have hplaying := h.playing
  cases hturn : turn? a with
  | none =>
    obtain ⟨-, hsize, -⟩ := hturned.same hturn
    have hstatus' : g'.status = g.status := by rw [hstatus, hturn]; rfl
    have hentered' : entered (log ++ [a]) = entered log := by rw [hentered, hturn]; rfl
    refine ⟨hkills', ?_, ?_, ?_⟩
    · rw [hstatus', hentered', hwaiting]
    · rw [hempty', hentered', hsize, hstatus', hfinished]
      refine (or_iff_left_of_imp fun ⟨hjoined, hnobody⟩ => ?_).symm
      rw [← hfinished]
      -- somebody has joined and nobody is there
      cases hg : g.status with
      | waiting => have := hwaiting.mp hg; omega
      | active => have := hplaying hg; omega
      | finished => rfl
    · rw [hstatus', hsize]
      exact hplaying
  | some t =>
    have hcounted := (hturned.turned t hturn).2
    cases t with
    | entered q =>
      have hsize := hcounted.1
      have hstatus' : g'.status = if g.status = .waiting then .active else g.status := by
        rw [hstatus, hturn]; rfl
      have hentered' : entered (log ++ [a]) = entered log + 1 := by rw [hentered, hturn]; rfl
      refine ⟨hkills', ?_, ?_, fun _ => by omega⟩
      · rw [hstatus', hentered']
        cases g.status with
        | waiting => simp
        | active => simp
        | finished => simp
      · rw [hempty', hentered', hsize, hstatus', ← hfinished]
        cases g.status with
        | waiting => simp
        | active => simp
        | finished => simp
    | left q =>
      have hsize := hcounted.1
      have hstatus' : g'.status =
          if g.status = .active ∧ g'.activePlayerCount = 0 then .finished else g.status := by
        rw [hstatus, hturn]; rfl
      have hentered' : entered (log ++ [a]) = entered log := by rw [hentered, hturn]; rfl
      have hjoined : 0 < entered log := by omega
      have hbegun : g.status ≠ .waiting := fun hg => by
        have := hwaiting.mp hg
        omega
      refine ⟨hkills', ?_, ?_, ?_⟩
      · rw [hstatus', hentered']
        refine iff_of_false ?_ (by omega)
        split
        · simp
        · exact hbegun
      · rw [hempty', hentered', hstatus', ← hfinished]
        cases hg : g.status with
        | waiting => exact absurd hg hbegun
        | active => simp [hjoined]
        | finished => simp
      · rw [hstatus']
        split
        · intro hno
          cases hno
        · intro hactive
          have hnonempty : ¬ g'.activePlayerCount = 0 := fun hnobody =>
            ‹¬ (g.status = .active ∧ g'.activePlayerCount = 0)› ⟨hactive, hnobody⟩
          omega
    | killed q =>
      have hpos := hkilled q hturn
      have hsize := hcounted.1
      have hstatus' : g'.status = g.status := by rw [hstatus, hturn]; rfl
      have hentered' : entered (log ++ [a]) = entered log := by rw [hentered, hturn]; rfl
      refine ⟨hkills', ?_, ?_, fun _ => hpos⟩
      · rw [hstatus', hentered', hwaiting]
      · rw [hempty', hstatus', hfinished]
        exact (or_iff_left fun ⟨_, hnobody⟩ => by omega).symm

/-- The status of the log of a server, for any calls in any order. -/
theorem isStatus_of_performed {fp : Doubles} {w₀ w : World} {log : List (Σ c : Call, c.Ans)}
    (hfresh : w₀.Fresh) (h : Performed (Call.exec fp) w₀ log w) : IsStatus log w.game := by
  induction h with
  | nil =>
    obtain ⟨matchStart, hgame⟩ := hfresh
    rw [hgame]
    exact isStatus_start matchStart
  | snoc before c e ih =>
    obtain ⟨hstatus, hkilled⟩ := exec_status fp c e _
    exact ih.snoc (Census.isCensus_of_performed hfresh before)
      (Census.isCensus_of_performed hfresh (before.snoc c e)) (Census.exec_turned fp c e _)
      hstatus hkilled

/-- What `GET_STATE` shows as the status. -/
def shownStatus (snapshot : Json) : Bytes := snapshot.stringValue (ascii "match_status") []

theorem shownStatus_snapshot (fp : Doubles) (now : Nat → Int) (g : GameState) :
    shownStatus (g.snapshot fp now) = ascii "FINISHED" ↔ g.status = .finished := by
  have hshown : shownStatus (g.snapshot fp now) = g.matchStatusString := by
    simp +decide [shownStatus, GameState.snapshot, Json.stringValue]
  rw [hshown, GameState.matchStatusString]
  cases g.status with
  | waiting => simp +decide
  | active => simp +decide
  | finished => simp

/-- **The status of the match follows from the log**, for any calls in any order.  It is `WAITING`
exactly as long as nobody has joined.  It is `ACTIVE` exactly if somebody has joined and the game
has never been empty since, so that somebody is in it.  It is `FINISHED` from the first moment on at
which all who had joined were gone, also while others who joined later are in the game; and that is
when `GET_STATE` shows it. -/
theorem status_of_performed {fp : Doubles} {w₀ w : World} {log : List (Σ c : Call, c.Ans)}
    (hfresh : w₀.Fresh) (h : Performed (Call.exec fp) w₀ log w) :
    (w.game.status = .waiting ↔ entered log = 0) ∧
    (w.game.status = .active ↔ 0 < entered log ∧ ¬ Emptied log) ∧
    (w.game.status = .active → 0 < w.game.activePlayerCount) ∧
    (w.game.status = .finished ↔ Emptied log) ∧
    (Emptied log → 0 < entered log) ∧
    (0 < entered log → w.game.activePlayerCount = 0 → w.game.status = .finished) ∧
    ∀ now, shownStatus (w.game.snapshot fp now) = ascii "FINISHED" ↔ Emptied log := by
  have hstatus := isStatus_of_performed hfresh h
  have hwaiting := hstatus.waiting
  have hfinished := hstatus.finished
  have hplaying := hstatus.playing
  have hjoined : Emptied log → 0 < entered log := fun hemptied => by
    have hover := hfinished.mpr hemptied
    by_contra hnobody
    have := hwaiting.mpr (by omega)
    rw [hover] at this
    cases this
  refine ⟨hwaiting, ?_, hplaying, hfinished, hjoined, ?_, fun now => ?_⟩
  · rw [← hfinished, Nat.pos_iff_ne_zero, Ne, ← hwaiting]
    cases w.game.status <;> simp
  · intro hsome hnobody
    cases hg : w.game.status with
    | waiting => have := hwaiting.mp hg; omega
    | active => have := hplaying hg; omega
    | finished => rfl
  · rw [shownStatus_snapshot, hfinished]

/-! ## The status moves forward -/

/-- The order of the statuses. -/
def rank : MatchStatus → Nat
  | .waiting => 0
  | .active => 1
  | .finished => 2

theorem rank_statusAfter (count : Nat) (status : MatchStatus) (t : Option Turn) :
    rank status ≤ rank (statusAfter count status t) := by
  cases t with
  | none => exact le_rfl
  | some t =>
    cases t with
    | entered q => cases status <;> simp [statusAfter, rank]
    | left q =>
      rw [statusAfter]
      split
      · rename_i h
        rw [h.1]
        decide
      · exact le_rfl
    | killed q => exact le_rfl

/-- The match is finished by somebody who leaves, and was going on before. -/
theorem left_of_statusAfter {count : Nat} {status : MatchStatus} {t : Option Turn}
    (hbefore : status ≠ .finished) (h : statusAfter count status t = .finished) :
    (∃ p, t = some (.left p)) ∧ status = .active ∧ count = 0 := by
  cases t with
  | none => exact absurd h hbefore
  | some t =>
    cases t with
    | entered q => cases status <;> simp [statusAfter] at h hbefore
    | left q =>
      rw [statusAfter] at h
      split at h
      · rename_i hcond
        exact ⟨⟨q, rfl⟩, hcond⟩
      · exact absurd h hbefore
    | killed q => exact absurd h hbefore

theorem eq_removePlayer_of_turn {a : Σ c : Call, c.Ans} {p : Int32}
    (h : turn? a = some (.left p)) : ∃ score, a = ⟨.removePlayer p, .ok score⟩ := by
  obtain ⟨c, x⟩ := a
  cases c with
  | removePlayer q =>
    cases x with
    | error err => cases h
    | ok score =>
      cases h
      exact ⟨score, rfl⟩
  | addPlayer q => cases x <;> cases h
  | attackPlayer q r =>
    cases x with
    | error err => cases h
    | ok result =>
      rw [turn?] at h
      split at h <;> cases h
  | _ => cases h

/-- Counting the joins of a log. -/
theorem entered_eq_zero_iff (log : List (Σ c : Call, c.Ans)) :
    entered log = 0 ↔ ∀ p, (⟨.addPlayer p, .ok ()⟩ : Σ c : Call, c.Ans) ∉ log := by
  rw [entered, List.countP_eq_zero]
  constructor
  · intro h p hp
    exact absurd rfl (h (.entered p) (List.mem_filterMap.mpr ⟨_, hp, rfl⟩))
  · intro h t ht
    obtain ⟨⟨c, x⟩, hmem, hturn⟩ := List.mem_filterMap.mp ht
    cases t with
    | left q => simp [Turn.isEntered]
    | killed q => simp [Turn.isEntered]
    | entered q =>
      exfalso
      cases c with
      | addPlayer p =>
        cases x with
        | error err => cases hturn
        | ok u => exact h p hmem
      | removePlayer p => cases x <;> cases hturn
      | attackPlayer p r =>
        cases x with
        | error err => cases hturn
        | ok result =>
          rw [turn?] at hturn
          split at hturn <;> cases hturn
      | _ => cases hturn

/-- Any calls move the status forward. -/
theorem rank_of_performed {fp : Doubles} {w w' : World} {log : List (Σ c : Call, c.Ans)}
    (h : Performed (Call.exec fp) w log w') : rank w.game.status ≤ rank w'.game.status := by
  induction h with
  | nil => exact le_rfl
  | snoc _ c e ih =>
    rw [(exec_status fp c e _).1]
    exact ih.trans (rank_statusAfter _ _ _)

/-- **The status only moves forward**, for any calls in any order.  It is `WAITING` exactly until
somebody joins; while it is `ACTIVE` somebody is there; and it becomes `FINISHED` only when
`removePlayer` takes out the last player.  An attack leaves the attacker in the game, so that the
branch of `attackPlayer` that would finish the match is never taken. -/
theorem status_moves_forward {fp : Doubles} {w₀ w : World} {log : List (Σ c : Call, c.Ans)}
    (hfresh : w₀.Fresh) (h : Performed (Call.exec fp) w₀ log w) :
    (w.game.status = .waiting ↔ ∀ p, (⟨.addPlayer p, .ok ()⟩ : Σ c : Call, c.Ans) ∉ log) ∧
    (w.game.status = .active → w.game.players.size ≠ 0) ∧
    (∀ later w', Performed (Call.exec fp) w later w' →
      rank w.game.status ≤ rank w'.game.status ∧
        (w.game.status = .finished → w'.game.status = .finished)) ∧
    (∀ c e, w.game.status ≠ .finished → (c.exec fp e w).2.game.status = .finished →
      ∃ p score, (⟨c, (c.exec fp e w).1⟩ : Σ c : Call, c.Ans) = ⟨.removePlayer p, .ok score⟩ ∧
        w.game.status = .active ∧ (c.exec fp e w).2.game.players.size = 0) ∧
    ∀ p q r g, w.game.attackPlayer p q = .ok (r, g) →
      g.status = w.game.status ∧ p ∈ g.players := by
  obtain ⟨hwaiting, -, hactive, -⟩ := status_of_performed hfresh h
  refine ⟨hwaiting.trans (entered_eq_zero_iff log), fun hg => ?_, fun later w' hlater => ?_,
    fun c e hbefore hafter => ?_, fun p q r g hattack => ?_⟩
  · exact (hactive hg).ne'
  · have hrank := rank_of_performed hlater
    refine ⟨hrank, fun hfinished => ?_⟩
    rw [hfinished] at hrank
    cases hg : w'.game.status with
    | waiting => rw [hg] at hrank; exact absurd hrank (by decide)
    | active => rw [hg] at hrank; exact absurd hrank (by decide)
    | finished => rfl
  · rw [(exec_status fp c e w).1] at hafter
    obtain ⟨⟨p, hturn⟩, hgoing, hnobody⟩ := left_of_statusAfter hbefore hafter
    obtain ⟨score, hcall⟩ := eq_removePlayer_of_turn hturn
    exact ⟨p, score, hcall, hgoing, hnobody⟩
  · exact ⟨(status_attackPlayer hattack).1, mem_attackPlayer hattack⟩

/-- A player joins, and the match is finished when it leaves. -/
theorem status_moves_forward_leave : ∃ w, Performed (Call.exec .zero) .started
    [⟨.addPlayer 1, .ok ()⟩] w ∧ w.game.players.size ≠ 0 ∧
      ((Call.removePlayer 1).exec .zero {} w).2.game.players.size = 0 := by
  have hstart : Performed (Call.exec .zero) .started [] .started := .nil
  have hjoined := hstart.snoc (.addPlayer 1) {}
  obtain ⟨-, hactive, -, hfinishing, -⟩ :=
    status_moves_forward World.started_fresh hjoined
  obtain ⟨-, -, -, -, hnobody⟩ := hfinishing (.removePlayer 1) {} (by decide) rfl
  exact ⟨_, hjoined, hactive rfl, hnobody⟩

/-- A player joins, leaves and joins again. -/
def rejoin : List (Σ c : Call, c.Ans) :=
  [⟨.addPlayer 1, .ok ()⟩, ⟨.removePlayer 1, .ok 0⟩, ⟨.addPlayer 1, .ok ()⟩]

theorem performed_rejoin : ∃ w, Performed (Call.exec .zero) .started rejoin w ∧
    w.game.status = .finished ∧ w.game.players.size = 1 ∧
    ∃ player, (w.game.snapshot .zero fun _ => 0).field? (ascii "players") =
      some (.array [player]) := by
  have hstart : Performed (Call.exec .zero) .started [] .started := .nil
  exact ⟨_, ((hstart.snoc (.addPlayer 1) {}).snoc (.removePlayer 1) {}).snoc (.addPlayer 1) {}, rfl,
    rfl, _, rfl⟩

/-- The match that the player re-joins is over. -/
theorem status_of_rejoin : ∃ w, Performed (Call.exec .zero) .started rejoin w ∧
    w.game.status = .finished := by
  obtain ⟨w, hperformed, -⟩ := performed_rejoin
  refine ⟨w, hperformed, (status_of_performed World.started_fresh hperformed).2.2.2.1.mpr ?_⟩
  exact ⟨rejoin.take 2, List.take_prefix 2 rejoin, by decide, rfl⟩

/-- **A match can be over while somebody is in the game**, and `GET_STATE` shows just that. -/
theorem finished_while_playing : ∃ w, Performed (Call.exec .zero) .started rejoin w ∧
    w.game.status = .finished ∧ 0 < w.game.activePlayerCount ∧
    shownStatus (w.game.snapshot .zero fun _ => 0) = ascii "FINISHED" ∧
    ∃ player, (w.game.snapshot .zero fun _ => 0).field? (ascii "players") =
      some (.array [player]) := by
  obtain ⟨w, hperformed, hstatus, hsize, hplayers⟩ := performed_rejoin
  refine ⟨w, hperformed, hstatus, ?_, (shownStatus_snapshot _ _ _).mpr hstatus, hplayers⟩
  rw [GameState.activePlayerCount, hsize]
  exact Nat.one_pos

end Lifecycle
end MultiPlayerGame
