import MultiPlayerGame.Library.Interleaving
import MultiPlayerGame.Server.Deeds

/-!
# Who is in the game, from the log of calls

Two operations take players out of the game: a player leaves, or another one kills it.  The log of
the calls on the shared objects says when a player was added and when it was taken out, and this
file derives who is in the game from it, for any calls in any order (`Program.Performed`); so it
holds of every interleaving of clients, each call of which is in the log.

`Turned` is what one call can do to the set of players and the counters.  The census of a log is an
invariant that every `Turned` keeps (`Census.snoc`).

## Why it holds

A player can only be added when it is absent, and taken out when it is present, because the methods
check that under the mutex.  So the additions and removals of one player alternate whatever the
order of the calls is, and the last of them says where it is.  `Turn` reads off a call and its
answer which of the three things it has done: somebody entered, left, or was killed by somebody
else.  `Turned` is the specification of a call, with the guard of the method in it, and every method
satisfies it (`exec_turned`); the census is kept by anything that does.

The equation of the counts follows along the log: each turn changes the number of players and one of
the counters by one.  The bound on the kills has a different reason.  The kills of the players
present are among the total kills, and those of players who have gone are not counted any more, so
the sum can only be smaller.  That the stored kills are 32 bits wide does no harm to it, since
`killsPresent` counts the positive ones, and a counter that has become negative only makes the sum
smaller still.
-/

namespace MultiPlayerGame
namespace Census

open Program (Performed)
open GameState (players_finishIfEmpty totalKills_finishIfEmpty)

/-- What a call does to who is in the game. -/
inductive Turn where
  | entered (playerId : Int32)
  | left (playerId : Int32)
  | killed (playerId : Int32)
  deriving DecidableEq, Repr

/-- Read off a call and its answer.  A call that was refused has done nothing, and neither has one
that is not about who is there. -/
def turn? : (Σ c : Call, c.Ans) → Option Turn
  | ⟨.addPlayer playerId, .ok _⟩ => some (.entered playerId)
  | ⟨.removePlayer playerId, .ok _⟩ => some (.left playerId)
  | ⟨.attackPlayer _ targetId, .ok result⟩ =>
    if result.targetEliminated then some (.killed targetId) else none
  | _ => none

def Turn.playerId : Turn → Int32
  | .entered p | .left p | .killed p => p

def Turn.isEntered : Turn → Bool
  | .entered _ => true
  | _ => false

def Turn.isLeft : Turn → Bool
  | .left _ => true
  | _ => false

/-- Whether a turn brings the player into the game or takes it out. -/
def Turn.mark (p : Int32) (t : Turn) : Option Bool :=
  if t.playerId = p then some t.isEntered else none

/-- The times a player was added (`true`) and taken out (`false`). -/
def marks (p : Int32) (log : List (Σ c : Call, c.Ans)) : List Bool :=
  (log.filterMap turn?).filterMap (Turn.mark p)

/-- The number of successful calls of `addPlayer`. -/
def entered (log : List (Σ c : Call, c.Ans)) : Nat := (log.filterMap turn?).countP Turn.isEntered

/-- The number of successful calls of `removePlayer`. -/
def left (log : List (Σ c : Call, c.Ans)) : Nat := (log.filterMap turn?).countP Turn.isLeft

/-- The kills of the players present, as far as they are positive. -/
def killsPresent (g : GameState) : Int :=
  KeyedMap.total (fun st => max 0 st.kills.toInt) g.players

/-! ## What one call can do -/

/-- Who must be there before a turn, and who is there afterwards. -/
def Turn.Members (g g' : GameState) (t : Turn) : Prop :=
  (t.playerId ∈ g.players ↔ t.isEntered = false) ∧
    ∀ q, q ∈ g'.players ↔ if q = t.playerId then t.isEntered = true else q ∈ g.players

/-- What a turn does to the counters.  The total of the kills grows by one with a kill and is left
alone by the others. -/
def Turn.Counted (g g' : GameState) : Turn → Prop
  | .entered _ => g'.activePlayerCount = g.activePlayerCount + 1 ∧ g'.totalKills = g.totalKills
  | .left _ => g'.activePlayerCount + 1 = g.activePlayerCount ∧ g'.totalKills = g.totalKills
  | .killed _ => g'.activePlayerCount + 1 = g.activePlayerCount ∧
      g'.totalKills = g.totalKills + 1

/-- **What a call can do.**  The guard that the method checks, who is in the game afterwards, and
the counters. -/
structure Turned (g : GameState) (turn : Option Turn) (g' : GameState) : Prop where
  turned : ∀ t ∈ turn, t.Members g g' ∧ t.Counted g g'
  same : turn = none → (∀ q, q ∈ g'.players ↔ q ∈ g.players) ∧
    g'.activePlayerCount = g.activePlayerCount ∧ g'.totalKills = g.totalKills
  kills : killsPresent g' + g.totalKills ≤ killsPresent g + g'.totalKills

/-- Nothing that concerns the players. -/
theorem Turned.of_eq {g g' : GameState} (hplayers : g'.players = g.players)
    (hkills : g'.totalKills = g.totalKills) : Turned g none g' where
  turned := fun _ hmem => by cases hmem
  same := fun _ => ⟨fun _ => by rw [hplayers],
    by rw [GameState.activePlayerCount, GameState.activePlayerCount, hplayers], hkills⟩
  kills := Int.le_of_eq (by rw [killsPresent, killsPresent, hplayers, hkills])

theorem Turned.refl (g : GameState) : Turned g none g := .of_eq rfl rfl

theorem Turned.of_turn {g g' : GameState} {t : Turn} (hmembers : t.Members g g')
    (hcounted : t.Counted g g')
    (hkills : killsPresent g' + g.totalKills ≤ killsPresent g + g'.totalKills) :
    Turned g (some t) g' where
  turned := fun t' ht' => by
    cases ht'
    exact ⟨hmembers, hcounted⟩
  same := fun hno => by cases hno
  kills := hkills

theorem Turn.Members.of_entered {g g' : GameState} {p : Int32} (hp : p ∉ g.players)
    (h : ∀ q, q ∈ g'.players ↔ q = p ∨ q ∈ g.players) : (Turn.entered p).Members g g' :=
  ⟨by simp [playerId, isEntered, hp], fun q => by
    rw [h]
    by_cases hq : q = p <;> simp [playerId, isEntered, hq]⟩

theorem Turn.Members.of_gone {g g' : GameState} {t : Turn} (ht : t.isEntered = false)
    (hp : t.playerId ∈ g.players)
    (h : ∀ q, q ∈ g'.players ↔ q ≠ t.playerId ∧ q ∈ g.players) : t.Members g g' :=
  ⟨by simp [ht, hp], fun q => by
    rw [h]
    by_cases hq : q = t.playerId <;> simp [ht, hq]⟩

theorem addPlayer_turned {g g' : GameState} {p : Int32} {now : Nat → Int}
    (h : g.addPlayer p now = .ok g') : Turned g (some (.entered p)) g' := by
  obtain ⟨hp, rfl⟩ := GameState.addPlayer_inv h
  refine .of_turn (.of_entered hp fun q => AList.mem_insert _) ⟨KeyedMap.size_insert hp _, rfl⟩ ?_
  simp only [killsPresent]
  rw [KeyedMap.total_insert _ hp]
  change 0 + KeyedMap.total _ g.players + _ ≤ _
  omega

theorem total_erase_le {g : GameState} {p : Int32} {st : PlayerState}
    (h : g.players.lookup p = some st) :
    KeyedMap.total (fun st => max 0 st.kills.toInt) (g.players.erase p) ≤ killsPresent g := by
  have herase := KeyedMap.total_erase (fun st : PlayerState => max 0 st.kills.toInt) h
  rw [killsPresent]
  omega

theorem removePlayer_turned {g : GameState} {p : Int32} {r : Int32 × GameState}
    (h : g.removePlayer p = .ok r) : Turned g (some (.left p)) r.2 := by
  obtain ⟨st, hst, rfl⟩ := GameState.removePlayer_inv h
  have hmem := KeyedMap.mem_of_lookup hst
  refine .of_turn (.of_gone rfl hmem fun q => ?_) ⟨?_, totalKills_finishIfEmpty _⟩ ?_
  · rw [players_finishIfEmpty, AList.mem_erase]
    rfl
  · rw [GameState.activePlayerCount, players_finishIfEmpty, GameState.activePlayerCount]
    exact KeyedMap.size_erase hmem
  · have hle := total_erase_le hst
    rw [totalKills_finishIfEmpty, killsPresent, players_finishIfEmpty]
    exact Int.add_le_add_right hle _

/-- An assignment to a player that leaves its kills alone. -/
theorem modifyPlayer_turned {g g' : GameState} {p : Int32} {f : PlayerState → PlayerState}
    (hf : ∀ st, (f st).kills = st.kills) (h : g.modifyPlayer p f = .ok g') : Turned g none g' := by
  obtain ⟨st, hst, rfl⟩ := GameState.modifyPlayer_inv h
  refine ⟨fun _ hno => (by cases hno), fun _ => ⟨fun q => AList.mem_replace, ?_, rfl⟩, ?_⟩
  · exact KeyedMap.size_replace _ _ _
  · have hreplace :=
      KeyedMap.total_replace (fun st : PlayerState => max 0 st.kills.toInt) hst (f st)
    simp only [hf] at hreplace
    simp only [killsPresent]
    omega

theorem max_kills_succ (k : Int32) : max 0 (k + 1).toInt ≤ max 0 k.toInt + 1 := by
  rw [Int32.toInt_add]
  have hone : (1 : Int32).toInt = 1 := rfl
  have hlt := Int32.toInt_lt k
  have hle := Int32.le_toInt k
  rw [hone, Int.bmod_def]
  omega

theorem attackPlayer_turned {g : GameState} {attackerId targetId : Int32}
    {r : AttackResult × GameState} (h : g.attackPlayer attackerId targetId = .ok r) :
    Turned g (if r.1.targetEliminated then some (.killed targetId) else none) r.2 := by
  obtain ⟨attacker, target, hself, hatt, htgt, rfl⟩ := GameState.attackPlayer_inv h
  -- the attacker first, then the target
  have hreplace := KeyedMap.total_replace (fun st : PlayerState => max 0 st.kills.toInt) hatt
    (GameState.rewardedState attacker target)
  have htgt' : (g.players.replace attackerId (GameState.rewardedState attacker target)).lookup
      targetId = some target := by
    rw [KeyedMap.lookup_replace_ne (Ne.symm hself), htgt]
  by_cases hlethal : Arena.Lethal target.standing
  · have hkills : (GameState.rewardedState attacker target).kills = attacker.kills + 1 :=
      if_pos hlethal
    have hsucc := max_kills_succ attacker.kills
    have hmem := KeyedMap.mem_of_lookup htgt'
    have herase := KeyedMap.total_erase (fun st : PlayerState => max 0 st.kills.toInt) htgt'
    have hsize := KeyedMap.size_erase hmem
    rw [KeyedMap.size_replace] at hsize
    simp only [hkills] at hreplace
    simp only [hlethal, decide_true, if_true, GameState.playersAfterAttack]
    refine .of_turn (.of_gone rfl (KeyedMap.mem_of_lookup htgt) fun q => ?_) ⟨hsize, rfl⟩ ?_
    · rw [AList.mem_erase, AList.mem_replace]
      rfl
    · simp only [killsPresent]
      push_cast
      omega
  · have hkills : (GameState.rewardedState attacker target).kills = attacker.kills :=
      if_neg hlethal
    have hreplace' := KeyedMap.total_replace (fun st : PlayerState => max 0 st.kills.toInt) htgt'
      { target with health := Arena.healthAfter target.standing }
    simp only [hkills] at hreplace
    dsimp only at hreplace'
    simp only [hlethal, decide_false, Bool.false_eq_true, if_false, GameState.playersAfterAttack]
    refine ⟨fun _ hno => (by cases hno), fun _ => ⟨fun q => ?_, ?_, Nat.add_zero _⟩, ?_⟩
    · rw [AList.mem_replace, AList.mem_replace]
    · rw [GameState.activePlayerCount, KeyedMap.size_replace, KeyedMap.size_replace,
        GameState.activePlayerCount]
    · simp only [killsPresent]
      omega

/-- **What any step on the shared objects can do.**  The four methods that change who is in the game
or how many kills there are turn it, and all other steps leave both alone. -/
theorem exec_turned (fp : Doubles) (c : Call) (e : Env) (w : World) :
    Turned w.game (turn? ⟨c, (c.exec fp e w).1⟩) (c.exec fp e w).2.game := by
  cases c with
  | addPlayer playerId =>
    cases h : w.game.addPlayer playerId e.now with
    | error err => simp only [Call.exec, World.attemptUnit, h]; exact .refl _
    | ok g => simp only [Call.exec, World.attemptUnit, h]; exact addPlayer_turned h
  | removePlayer playerId =>
    cases h : w.game.removePlayer playerId with
    | error err => simp only [Call.exec, h]; exact .refl _
    | ok r => simp only [Call.exec, h]; exact removePlayer_turned h
  | movePlayer playerId x y =>
    cases h : w.game.movePlayer playerId x y with
    | error err => simp only [Call.exec, World.attemptUnit, h]; exact .refl _
    | ok g =>
      have hturned : Turned w.game none g := by
        refine modifyPlayer_turned ?_ h
        exact fun _ => rfl
      simp only [Call.exec, World.attemptUnit, h]
      exact hturned
  | attackPlayer attackerId targetId =>
    cases h : w.game.attackPlayer attackerId targetId with
    | error err => simp only [Call.exec, h]; exact .refl _
    | ok r => simp only [Call.exec, h]; exact attackPlayer_turned h
  | setScore playerId score =>
    cases h : w.game.setScore playerId score with
    | error err => simp only [Call.exec, World.attemptUnit, h]; exact .refl _
    | ok g =>
      have hturned : Turned w.game none g := by
        refine modifyPlayer_turned ?_ h
        exact fun _ => rfl
      simp only [Call.exec, World.attemptUnit, h]
      exact hturned
  | _ => exact .of_eq rfl rfl

/-! ## The census of a log -/

section Concat

variable {p : Int32} {log : List (Σ c : Call, c.Ans)} {a : Σ c : Call, c.Ans}

theorem marks_concat : marks p (log ++ [a]) =
    marks p log ++ ((turn? a).bind (Turn.mark p)).toList := by
  unfold marks
  rw [List.filterMap_append, List.filterMap_append]
  cases h : turn? a with
  | none => simp [h]
  | some t =>
    cases h' : t.mark p with
    | none => simp [h, h']
    | some b => simp [h, h']

theorem count_concat (f : Turn → Bool) :
    ((log ++ [a]).filterMap turn?).countP f =
      (log.filterMap turn?).countP f + if (turn? a).any f then 1 else 0 := by
  rw [List.filterMap_append, List.countP_append]
  cases h : turn? a with
  | none => simp [h]
  | some t => simp [h, List.countP_singleton]

end Concat

/-- **The census.**  A player's additions and removals alternate and begin with an addition; a
player is there when the last was an addition; and the counters add up. -/
structure IsCensus (log : List (Σ c : Call, c.Ans)) (g : GameState) : Prop where
  first : ∀ p, (marks p log).head? ≠ some false
  alternate : ∀ p, (marks p log).IsChain (· ≠ ·)
  present : ∀ p, p ∈ g.players ↔ (marks p log).getLast? = some true
  count : g.activePlayerCount + left log + g.totalKills = entered log
  kills : killsPresent g ≤ g.totalKills

theorem census_start (matchStart : Int) : IsCensus [] { matchStart } where
  first := fun _ hno => by cases hno
  alternate := fun _ => List.IsChain.nil
  present := fun p => ⟨fun hno => absurd hno (AList.notMem_empty p), fun hno => by cases hno⟩
  count := rfl
  kills := Int.le_refl _

/-- Appending a mark that continues the alternation. -/
theorem alternate_concat {l : List Bool} {b : Bool} (hfirst : l.head? ≠ some false)
    (hchain : l.IsChain (· ≠ ·)) (hb : l.getLast? = some true ↔ b = false) :
    (l ++ [b]).head? ≠ some false ∧ (l ++ [b]).IsChain (· ≠ ·) := by
  constructor
  · cases l with
    | nil =>
      have hb : b ≠ false := fun h => by cases hb.mpr h
      simpa using hb
    | cons c l => simpa using hfirst
  · refine hchain.append (List.IsChain.singleton _) fun x hx y hy => ?_
    cases Option.some.inj hy
    rw [Option.mem_def.mp hx] at hb
    cases x <;> cases b <;> simp_all

/-- **Every call keeps the census.**  The guard of the call says where the player was, so its
additions and removals go on alternating. -/
theorem IsCensus.snoc {log : List (Σ c : Call, c.Ans)} {a : Σ c : Call, c.Ans} {g g' : GameState}
    (h : IsCensus log g) (hturned : Turned g (turn? a) g') : IsCensus (log ++ [a]) g' := by
  have hkills := hturned.kills
  have hle := h.kills
  have hcount := h.count
  cases hturn : turn? a with
  | none =>
    obtain ⟨hmembers, hsize, htotal⟩ := hturned.same hturn
    have hmarks : ∀ p, marks p (log ++ [a]) = marks p log := fun p => by
      rw [marks_concat, hturn]
      exact List.append_nil _
    refine ⟨fun p => ?_, fun p => ?_, fun p => ?_, ?_, by omega⟩
    · rw [hmarks]
      exact h.first p
    · rw [hmarks]
      exact h.alternate p
    · rw [hmarks, hmembers]
      exact h.present p
    · rw [entered, left, count_concat, count_concat, hturn, hsize, htotal]
      exact hcount
  | some t =>
    obtain ⟨⟨hguard, hmembers⟩, hcounted⟩ := hturned.turned t hturn
    have hmarks : ∀ p, marks p (log ++ [a]) = marks p log ++ (t.mark p).toList := fun p => by
      rw [marks_concat, hturn]
      rfl
    -- only the player of the turn gets a mark
    have hplayer : ∀ p, (t.mark p).toList = if p = t.playerId then [t.isEntered] else [] :=
      fun p => by
        unfold Turn.mark
        by_cases hp : p = t.playerId
        · rw [if_pos hp, if_pos hp.symm]
          rfl
        · rw [if_neg hp, if_neg (Ne.symm hp)]
          rfl
    have hnext := alternate_concat (h.first t.playerId) (h.alternate t.playerId)
      ((h.present t.playerId).symm.trans hguard)
    refine ⟨fun p => ?_, fun p => ?_, fun p => ?_, ?_, by omega⟩
    · rw [hmarks, hplayer]
      split
      · rename_i hp
        rw [hp]
        exact hnext.1
      · rw [List.append_nil]
        exact h.first p
    · rw [hmarks, hplayer]
      split
      · rename_i hp
        rw [hp]
        exact hnext.2
      · rw [List.append_nil]
        exact h.alternate p
    · rw [hmarks, hplayer, hmembers]
      split
      · simp
      · rw [List.append_nil]
        exact h.present p
    · rw [entered, left, count_concat, count_concat, hturn]
      rw [entered, left] at hcount
      simp only [Option.any_some]
      cases t with
      | entered q =>
        obtain ⟨hsize, htotal⟩ := hcounted
        simp only [Turn.isLeft, Turn.isEntered, Bool.false_eq_true, if_false, if_true]
        omega
      | left q =>
        obtain ⟨hsize, htotal⟩ := hcounted
        simp only [Turn.isLeft, Turn.isEntered, Bool.false_eq_true, if_false, if_true]
        omega
      | killed q =>
        obtain ⟨hsize, htotal⟩ := hcounted
        simp only [Turn.isLeft, Turn.isEntered, Bool.false_eq_true, if_false]
        omega

/-- **The census of the log of a server is right**, for any calls in any order. -/
theorem isCensus_of_performed {fp : Doubles} {w₀ w : World} {log : List (Σ c : Call, c.Ans)}
    (hfresh : w₀.Fresh) (h : Performed (Call.exec fp) w₀ log w) : IsCensus log w.game := by
  induction h with
  | nil =>
    obtain ⟨matchStart, hgame⟩ := hfresh
    rw [hgame]
    exact census_start matchStart
  | snoc before c e ih => exact ih.snoc (exec_turned fp c e _)

/-- **Joins, leaves and kills account for everybody**, for any calls in any order.  Of every player
the additions and removals alternate, beginning with an addition; the player is in the game exactly
when the last of them was an addition; and all players ever added are present, have left or have
been killed, with the kills of those present among the total. -/
theorem census_of_performed {fp : Doubles} {w₀ w : World} {log : List (Σ c : Call, c.Ans)}
    (hfresh : w₀.Fresh) (h : Performed (Call.exec fp) w₀ log w) :
    (∀ p, (marks p log).head? ≠ some false ∧ (marks p log).IsChain (· ≠ ·) ∧
      (p ∈ w.game.players ↔ (marks p log).getLast? = some true)) ∧
    w.game.activePlayerCount + left log + w.game.totalKills = entered log ∧
    KeyedMap.total (fun st => st.kills.toInt) w.game.players ≤ w.game.totalKills := by
  have hcensus := isCensus_of_performed hfresh h
  refine ⟨fun p => ⟨hcensus.first p, hcensus.alternate p, hcensus.present p⟩, hcensus.count, ?_⟩
  calc KeyedMap.total (fun st => st.kills.toInt) w.game.players
      ≤ killsPresent w.game := KeyedMap.total_le_total (fun st => Int.le_max_right _ _) _
    _ ≤ w.game.totalKills := hcensus.kills

/-- A player is added, removed and added again. -/
theorem census_of_rejoin : ∃ (log : List (Σ c : Call, c.Ans)) (w : World),
    Performed (Call.exec .zero) .started log w ∧ marks 1 log = [true, false, true] ∧
    1 ∈ w.game.players ∧ w.game.activePlayerCount + left log + w.game.totalKills = entered log := by
  have hstart : Performed (Call.exec .zero) .started [] .started := .nil
  have hperformed := ((hstart.snoc (.addPlayer 1) {}).snoc (.removePlayer 1) {}).snoc
    (.addPlayer 1) {}
  obtain ⟨hplayers, hcount, -⟩ := census_of_performed World.started_fresh hperformed
  exact ⟨_, _, hperformed, rfl, (hplayers 1).2.2.mpr rfl, hcount⟩

/-- The census of an interleaving: its calls, in the order in which they happened, account for
everybody. -/
theorem census_of_reachable {cfg : Config} {fp : Doubles} {w₀ : World}
    {x : Interleaving.Config Call Call.Ans Bytes Json World} (hfresh : w₀.Fresh)
    (hx : Interleaving.Reachable (RequestHandler.reply cfg fp) (Call.exec fp) w₀ x) :
    ∃ log, IsCensus log x.shared.game := by
  obtain ⟨log, hlog⟩ := hx.performed
  exact ⟨log, isCensus_of_performed hfresh hlog⟩

end Census
end MultiPlayerGame
