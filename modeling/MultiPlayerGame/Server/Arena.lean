import MultiPlayerGame.Server.GameState

/-!
# The arena: what the game state is for

Seen from the rules of the game, a state says who is playing and how each player stands, whether the
match has begun or is over, and how many kills there have been.  The hash map, the event log and the
clocks are not part of it.  This is `Arena`; its operations are the rules.

`GameState.arena` forgets the rest, and each method of `GameState` refines the operation of the same
name: it refuses exactly when the operation does, with the same text, and otherwise commutes with
forgetting (`arena_addPlayer` to `arena_setScore`).  Proofs about the rules are done here, where a
map is a function.

## Why a second level

The players of a `GameState` are an association list, and a method searches it, changes it and
searches it again.  To know how a player stands after an attack on somebody else one has to commute
a lookup with two replacements and an erasure.  That is done here, once for each method.  In the
arena the players are a function from ids to standings, two arenas are equal if they have the same
players, and what a rule does to the others is read off `Function.update`.

The arena is also where the specification lives.  What the results say about scores, health and
kills they say about standings, and a change of how the players are stored would leave them as they
are.

The inversion lemmas say what an operation that succeeded has found and what it has left.  They are
what the later proofs use in place of the definitions: a proof that has a successful attack in hand
gets the two players, that they are different, the result and the new arena in one step.
-/

namespace MultiPlayerGame

open Bytes (ascii)

/-- How a player stands.  These are the fields of a record that the rules look at or change. -/
structure Standing where
  x : Int32
  y : Int32
  health : Int32
  score : Int32
  kills : Int32
  deriving DecidableEq, Repr

/-- How a player stands who has just joined. -/
def Standing.initial : Standing := ⟨500, 500, 100, 0, 0⟩

def PlayerState.standing (p : PlayerState) : Standing := ⟨p.x, p.y, p.health, p.score, p.kills⟩

/-- Who is playing, and the state of the match. -/
@[ext]
structure Arena where
  player : Int32 → Option Standing
  status : MatchStatus
  totalKills : Nat

namespace Arena

open GameState (alreadyInGame notInGame clamp mapMin mapMax attackDamage)

def addPlayer (playerId : Int32) (a : Arena) : Except Bytes Arena :=
  if a.player playerId ≠ none then .error (alreadyInGame playerId)
  else .ok
    { a with
      player := Function.update a.player playerId (some .initial)
      status := if a.status = .waiting then .active else a.status }

open Classical in
/-- The match is over when the last player has gone. -/
noncomputable def finishIfEmpty (a : Arena) : Arena :=
  if a.status = .active ∧ ∀ p, a.player p = none then { a with status := .finished } else a

noncomputable def removePlayer (playerId : Int32) (a : Arena) : Except Bytes (Int32 × Arena) :=
  match a.player playerId with
  | none => .error (notInGame playerId)
  | some s => .ok (s.score,
      finishIfEmpty { a with player := Function.update a.player playerId none })

@[simp] theorem player_finishIfEmpty (a : Arena) : a.finishIfEmpty.player = a.player := by
  unfold finishIfEmpty
  split <;> rfl

@[simp] theorem totalKills_finishIfEmpty (a : Arena) :
    a.finishIfEmpty.totalKills = a.totalKills := by
  unfold finishIfEmpty
  split <;> rfl

def modifyPlayer (playerId : Int32) (f : Standing → Standing) (a : Arena) : Except Bytes Arena :=
  match a.player playerId with
  | none => .error (notInGame playerId)
  | some s => .ok { a with player := Function.update a.player playerId (some (f s)) }

def movePlayer (playerId x y : Int32) : Arena → Except Bytes Arena :=
  modifyPlayer playerId fun s => { s with x := clamp x mapMin mapMax, y := clamp y mapMin mapMax }

def setScore (playerId score : Int32) : Arena → Except Bytes Arena :=
  modifyPlayer playerId fun s => { s with score }

/-- The health a hit leaves. -/
def healthAfter (target : Standing) : Int32 := GameState.max 0 (target.health - attackDamage)

/-- A hit is lethal when it leaves no health. -/
def Lethal (target : Standing) : Prop := healthAfter target = 0

instance (target : Standing) : Decidable (Lethal target) := inferInstanceAs (Decidable (_ = _))

/-- What an attack does to the attacker.  A kill counts 100 and one kill more, any other hit 10. -/
def rewarded (attacker target : Standing) : Standing :=
  { attacker with
    score := attacker.score + if Lethal target then 100 else 10
    kills := if Lethal target then attacker.kills + 1 else attacker.kills }

/-- What an attack does to the target.  `none` is a target that has been eliminated. -/
def struck (target : Standing) : Option Standing :=
  if Lethal target then none else some { target with health := healthAfter target }

def attackPlayer (attackerId targetId : Int32) (a : Arena) : Except Bytes (AttackResult × Arena) :=
  if attackerId = targetId then .error (ascii "cannot attack yourself")
  else match a.player attackerId with
    | none => .error (ascii "attacker " ++ toString attackerId ++ ascii " not in game")
    | some attacker =>
      match a.player targetId with
      | none => .error (ascii "target " ++ toString targetId ++ ascii " not in game")
      | some target => .ok
          (⟨attackDamage, healthAfter target, (rewarded attacker target).score, Lethal target⟩,
            { a with
              player := Function.update
                (Function.update a.player attackerId (some (rewarded attacker target)))
                targetId (struck target)
              totalKills := a.totalKills + if Lethal target then 1 else 0 })

/-! ### What an operation that succeeds has done -/

section Inversion

variable {a a' : Arena} {playerId : Int32}

theorem addPlayer_inv (h : a.addPlayer playerId = .ok a') :
    a.player playerId = none ∧ a' = { a with
      player := Function.update a.player playerId (some .initial)
      status := if a.status = .waiting then .active else a.status } := by
  unfold addPlayer at h
  split at h
  · cases h
  · rename_i habsent
    exact ⟨not_not.mp habsent, (Except.ok.inj h).symm⟩

theorem removePlayer_inv {r : Int32 × Arena} (h : a.removePlayer playerId = .ok r) :
    ∃ s, a.player playerId = some s ∧
      r = (s.score, finishIfEmpty { a with player := Function.update a.player playerId none }) := by
  unfold removePlayer at h
  split at h
  · cases h
  · rename_i s hs
    exact ⟨s, hs, (Except.ok.inj h).symm⟩

theorem modifyPlayer_inv {f : Standing → Standing} (h : a.modifyPlayer playerId f = .ok a') :
    ∃ s, a.player playerId = some s ∧
      a' = { a with player := Function.update a.player playerId (some (f s)) } := by
  unfold modifyPlayer at h
  split at h
  · cases h
  · rename_i s hs
    exact ⟨s, hs, (Except.ok.inj h).symm⟩

theorem attackPlayer_inv {attackerId targetId : Int32} {r : AttackResult × Arena}
    (h : a.attackPlayer attackerId targetId = .ok r) :
    ∃ attacker target, attackerId ≠ targetId ∧ a.player attackerId = some attacker ∧
      a.player targetId = some target ∧
      r = (⟨attackDamage, healthAfter target, (rewarded attacker target).score, Lethal target⟩,
        { a with
          player := Function.update
            (Function.update a.player attackerId (some (rewarded attacker target)))
            targetId (struck target)
          totalKills := a.totalKills + if Lethal target then 1 else 0 }) := by
  unfold attackPlayer at h
  split at h
  · cases h
  rename_i hne
  split at h
  · cases h
  rename_i attacker hattacker
  split at h
  · cases h
  rename_i target htarget
  exact ⟨attacker, target, hne, hattacker, htarget, (Except.ok.inj h).symm⟩

end Inversion

end Arena

namespace GameState

/-- What the rules see of a game state.  The records are read at their standings, and the log, the
ids and the clocks are forgotten. -/
def arena (g : GameState) : Arena where
  player := fun p => (g.players.lookup p).map PlayerState.standing
  status := g.status
  totalKills := g.totalKills

@[simp] theorem arena_player (g : GameState) (p : Int32) :
    g.arena.player p = (g.players.lookup p).map PlayerState.standing := rfl

@[simp] theorem arena_status (g : GameState) : g.arena.status = g.status := rfl

@[simp] theorem arena_totalKills (g : GameState) : g.arena.totalKills = g.totalKills := rfl

/-- Logging is not part of the arena. -/
@[simp] theorem arena_pushEvent (ev : GameEvent) (g : GameState) :
    (g.pushEvent ev).arena = g.arena := rfl

@[simp] theorem arena_fetchAddEventId (g : GameState) :
    g.fetchAddEventId.2.arena = g.arena := rfl

/-! ## Each method refines its rule -/

theorem arena_insert (g : GameState) (p : Int32) (st : PlayerState) :
    ({ g with players := g.players.insert p st } : GameState).arena.player =
      Function.update g.arena.player p (some st.standing) := by
  funext q
  by_cases hq : q = p
  · subst hq
    simp
  · simp [hq, AList.lookup_insert_ne hq]

theorem arena_erase (g : GameState) (p : Int32) :
    ({ g with players := g.players.erase p } : GameState).arena.player =
      Function.update g.arena.player p none := by
  funext q
  by_cases hq : q = p
  · subst hq
    simp
  · simp [hq, AList.lookup_erase_ne hq]

theorem arena_replace (g : GameState) {p : Int32} (hp : p ∈ g.players) (st : PlayerState) :
    ({ g with players := g.players.replace p st } : GameState).arena.player =
      Function.update g.arena.player p (some st.standing) := by
  funext q
  by_cases hq : q = p
  · subst hq
    simp [KeyedMap.lookup_replace hp]
  · simp [hq, KeyedMap.lookup_replace_ne hq]

/-- The end of the match changes no player. -/
theorem players_finishIfEmpty (g : GameState) : g.finishIfEmpty.players = g.players := by
  unfold finishIfEmpty
  split <;> rfl

theorem totalKills_finishIfEmpty (g : GameState) :
    g.finishIfEmpty.totalKills = g.totalKills := by
  unfold finishIfEmpty
  split <;> rfl

theorem arena_finishIfEmpty (g : GameState) : g.finishIfEmpty.arena = g.arena.finishIfEmpty := by
  have hempty : g.players.size = 0 ↔ ∀ p, g.arena.player p = none := by
    simp [KeyedMap.size_eq_zero_iff]
  unfold finishIfEmpty Arena.finishIfEmpty
  rw [arena_status]
  by_cases h : g.status = .active ∧ g.players.size = 0
  · rw [if_pos h, if_pos ⟨h.1, hempty.mp h.2⟩]
    rfl
  · rw [if_neg h, if_neg fun h' => h ⟨h'.1, hempty.mpr h'.2⟩]

theorem arena_addPlayer (playerId : Int32) (now : Nat → Int) (g : GameState) :
    (g.addPlayer playerId now).map arena = g.arena.addPlayer playerId := by
  unfold addPlayer Arena.addPlayer
  by_cases hp : playerId ∈ g.players
  · have hsome : g.arena.player playerId ≠ none := by
      simpa [← Option.isSome_iff_ne_none, AList.lookup_isSome] using hp
    rw [if_pos hp, if_pos hsome]
    rfl
  · have hnone : ¬ g.arena.player playerId ≠ none := by
      simpa [AList.lookup_eq_none] using hp
    rw [if_neg hp, if_neg hnone]
    by_cases hstatus : g.status = .waiting
    · simp only [hstatus, if_true, Except.map, arena_status]
      exact congrArg _ (Arena.ext (arena_insert g playerId _) rfl rfl)
    · simp only [hstatus, if_false, Except.map, arena_status]
      exact congrArg _ (Arena.ext (arena_insert g playerId _) rfl rfl)

theorem arena_removePlayer (playerId : Int32) (g : GameState) :
    (g.removePlayer playerId).map (Prod.map id arena) = g.arena.removePlayer playerId := by
  unfold removePlayer Arena.removePlayer
  rw [arena_player]
  cases hp : g.players.lookup playerId with
  | none => rfl
  | some st =>
    simp only [Option.map_some, Except.map, Prod.map, id_eq, arena_finishIfEmpty]
    rw [← arena_erase g playerId]
    rfl

theorem arena_modifyPlayer {playerId : Int32} {f : PlayerState → PlayerState}
    {f' : Standing → Standing} (hf : ∀ st, (f st).standing = f' st.standing) (g : GameState) :
    (g.modifyPlayer playerId f).map arena = g.arena.modifyPlayer playerId f' := by
  unfold modifyPlayer Arena.modifyPlayer
  rw [arena_player]
  cases hp : g.players.lookup playerId with
  | none => rfl
  | some st =>
    simp only [Option.map_some, Except.map]
    refine congrArg _ (Arena.ext ?_ rfl rfl)
    rw [arena_replace g (KeyedMap.mem_of_lookup hp), hf]

theorem arena_movePlayer (playerId x y : Int32) (g : GameState) :
    (g.movePlayer playerId x y).map arena = g.arena.movePlayer playerId x y :=
  arena_modifyPlayer (fun _ => rfl) g

theorem arena_setScore (playerId score : Int32) (g : GameState) :
    (g.setScore playerId score).map arena = g.arena.setScore playerId score :=
  arena_modifyPlayer (fun _ => rfl) g

/-- The record of an attacker after an attack. -/
def rewardedState (attacker target : PlayerState) : PlayerState :=
  { attacker with
    score := (Arena.rewarded attacker.standing target.standing).score
    kills := (Arena.rewarded attacker.standing target.standing).kills }

/-- The map after an attack. -/
def playersAfterAttack (attackerId targetId : Int32) (attacker target : PlayerState)
    (players : KeyedMap Int32 PlayerState) : KeyedMap Int32 PlayerState :=
  let players := players.replace attackerId (rewardedState attacker target)
  if Arena.Lethal target.standing then players.erase targetId
  else players.replace targetId { target with health := Arena.healthAfter target.standing }

/-- **What a successful attack does.**  After a lethal one the attacker is still playing, so the
match is not over: the transition to `FINISHED` in `attackPlayer` is never taken. -/
theorem attackPlayer_of_lookup {g : GameState} {attackerId targetId : Int32}
    {attacker target : PlayerState} (hne : attackerId ≠ targetId)
    (hatt : g.players.lookup attackerId = some attacker)
    (htgt : g.players.lookup targetId = some target) :
    g.attackPlayer attackerId targetId = .ok
      (⟨attackDamage, Arena.healthAfter target.standing,
          (Arena.rewarded attacker.standing target.standing).score,
          Arena.Lethal target.standing⟩,
        { g with
          players := playersAfterAttack attackerId targetId attacker target g.players
          totalKills := g.totalKills + if Arena.Lethal target.standing then 1 else 0 }) := by
  unfold attackPlayer
  rw [if_neg hne, hatt, htgt]
  have hmem := KeyedMap.mem_of_lookup hatt
  by_cases hlethal : Arena.Lethal target.standing
  · have hzero : max 0 (target.health - attackDamage) = 0 := hlethal
    -- the attacker is still there
    have hstays : ∀ st : PlayerState, finishIfEmpty { g with
        players := (g.players.replace attackerId st).erase targetId
        totalKills := g.totalKills + 1 } = { g with
        players := (g.players.replace attackerId st).erase targetId
        totalKills := g.totalKills + 1 } := fun st => by
      have hlookup : ((g.players.replace attackerId st).erase targetId).lookup attackerId =
          some st := by
        rw [AList.lookup_erase_ne hne, KeyedMap.lookup_replace hmem]
      have hpos := KeyedMap.size_pos_of_lookup hlookup
      exact if_neg fun h => Nat.ne_of_gt hpos h.2
    have hhealth : Arena.healthAfter target.standing = 0 := hlethal
    simp only [hzero, if_true, hstays, playersAfterAttack, rewardedState, Arena.rewarded,
      hhealth, decide_true, hlethal]
    rfl
  · have hpos : ¬ max 0 (target.health - attackDamage) = 0 := hlethal
    simp only [hpos, if_false, playersAfterAttack, rewardedState, Arena.rewarded,
      decide_false, hlethal]
    rfl

/-- An attack that succeeds is of that kind. -/
theorem attackPlayer_inv {g : GameState} {attackerId targetId : Int32}
    {r : AttackResult × GameState} (h : g.attackPlayer attackerId targetId = .ok r) :
    ∃ attacker target, attackerId ≠ targetId ∧ g.players.lookup attackerId = some attacker ∧
      g.players.lookup targetId = some target ∧
      r = (⟨attackDamage, Arena.healthAfter target.standing,
          (Arena.rewarded attacker.standing target.standing).score,
          Arena.Lethal target.standing⟩,
        { g with
          players := playersAfterAttack attackerId targetId attacker target g.players
          totalKills := g.totalKills + if Arena.Lethal target.standing then 1 else 0 }) := by
  by_cases hself : attackerId = targetId
  · rw [attackPlayer, if_pos hself] at h
    cases h
  cases hattacker : g.players.lookup attackerId with
  | none => simp [attackPlayer, hself, hattacker] at h
  | some attacker =>
    cases htarget : g.players.lookup targetId with
    | none => simp [attackPlayer, hself, hattacker, htarget] at h
    | some target =>
      rw [attackPlayer_of_lookup hself hattacker htarget] at h
      exact ⟨attacker, target, hself, rfl, rfl, (Except.ok.inj h).symm⟩

theorem arena_playersAfterAttack {g : GameState} {attackerId targetId : Int32}
    {attacker target : PlayerState} (hatt : g.players.lookup attackerId = some attacker)
    (htgt : g.players.lookup targetId = some target) :
    ({ g with
      players := playersAfterAttack attackerId targetId attacker target g.players } :
        GameState).arena.player =
      Function.update (Function.update g.arena.player attackerId
        (some (Arena.rewarded attacker.standing target.standing))) targetId
        (Arena.struck target.standing) := by
  have hrewarded : (rewardedState attacker target).standing =
      Arena.rewarded attacker.standing target.standing := rfl
  have hmem : targetId ∈ g.players.replace attackerId (rewardedState attacker target) :=
    (AList.mem_replace).mpr (KeyedMap.mem_of_lookup htgt)
  have hreplace := arena_replace g (KeyedMap.mem_of_lookup hatt) (rewardedState attacker target)
  unfold playersAfterAttack Arena.struck
  by_cases hlethal : Arena.Lethal target.standing
  · rw [if_pos hlethal, if_pos hlethal, ← hrewarded, ← hreplace]
    exact arena_erase { g with players := _ } targetId
  · rw [if_neg hlethal, if_neg hlethal, ← hrewarded, ← hreplace]
    exact arena_replace { g with players := _ } hmem _

theorem arena_attackPlayer (attackerId targetId : Int32) (g : GameState) :
    (g.attackPlayer attackerId targetId).map (Prod.map id arena) =
      g.arena.attackPlayer attackerId targetId := by
  by_cases hself : attackerId = targetId
  · rw [attackPlayer, Arena.attackPlayer, if_pos hself, if_pos hself]
    rfl
  cases hatt : g.players.lookup attackerId with
  | none => simp [attackPlayer, Arena.attackPlayer, hself, hatt, Except.map]
  | some attacker =>
    cases htgt : g.players.lookup targetId with
    | none => simp [attackPlayer, Arena.attackPlayer, hself, hatt, htgt, Except.map]
    | some target =>
      rw [attackPlayer_of_lookup hself hatt htgt, Arena.attackPlayer, if_neg hself, arena_player,
        arena_player, hatt, htgt]
      simp only [Option.map_some, Except.map, Prod.map, id_eq]
      exact congrArg _ (congrArg _ (Arena.ext (arena_playersAfterAttack hatt htgt) rfl rfl))

end GameState
end MultiPlayerGame
