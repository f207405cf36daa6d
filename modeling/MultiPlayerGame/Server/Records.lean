import MultiPlayerGame.Server.Reachable

/-!
# What a request does to the records of the players

The rules of the arena say how a player stands.  A record has two fields more, the id under which
it was made and the time at which the player joined.  This file says what requests do to whole
records: of the records that a command changes, `Changes` says which fields, and `apply_changes`
that no other record is touched.

Two facts about every reachable state follow.  A record is kept under its own id (`Keyed`), and a
record that is still there is of the same session (`kept_of_changes`).

## Why the records and not the standings

For most results a standing is enough, and `Server.Arena` works with these.  Two questions are about
the other two fields.  Whether a player who was in the game and still is has joined again in between
is answered by the time at which it joined.  And a snapshot shows a player under the id that is
stored in the record, so whoever reads one relies on the two ids being the same.  Both fields are
set by `addPlayer` and by nothing else, which is what `Changes` says, method by method; the two
facts about reachable states follow from it.
-/

namespace MultiPlayerGame
namespace Records

open Program (Runs Served)
open RequestHandler

/-! ## What a command changes -/

/-- **What a command may do to the record of a player**, from `before` to `after`.  A player who
joins has a new record, and one who is there keeps its id and the time at which it joined. -/
def Changes (p : Int32) (before after : Option PlayerState) : Command → Prop
  | .join playerId => p = playerId ∧ before = none ∧
      ∃ joinedAt, after = some { playerId, joinedAt }
  | .move playerId _ _ => p = playerId ∧
      ∃ s x y, before = some s ∧ after = some { s with x, y }
  | .attack playerId targetId =>
      (p = playerId ∧ ∃ s score kills, before = some s ∧ after = some { s with score, kills }) ∨
      (p = targetId ∧ ∃ s, before = some s ∧
        (after = none ∨ ∃ health, after = some { s with health }))
  | .chat .. => False
  | .updateScore playerId _ => p = playerId ∧
      ∃ s score, before = some s ∧ after = some { s with score }
  | .leave playerId => p = playerId ∧ ∃ s, before = some s ∧ after = none

theorem lookup_modifyPlayer {g g' : GameState} {playerId : Int32} {f : PlayerState → PlayerState}
    (h : g.modifyPlayer playerId f = .ok g') : ∃ s, g.players.lookup playerId = some s ∧
      ∀ p, g'.players.lookup p = if p = playerId then some (f s) else g.players.lookup p := by
  obtain ⟨s, hs, rfl⟩ := GameState.modifyPlayer_inv h
  refine ⟨s, hs, fun p => ?_⟩
  by_cases hp : p = playerId
  · rw [if_pos hp, hp]
    exact KeyedMap.lookup_replace (KeyedMap.mem_of_lookup hs) _
  · rw [if_neg hp]
    exact KeyedMap.lookup_replace_ne hp _

theorem lookup_addPlayer {g g' : GameState} {playerId : Int32} {now : Nat → Int}
    (h : g.addPlayer playerId now = .ok g') : g.players.lookup playerId = none ∧
      g'.players = g.players.insert playerId { playerId, joinedAt := now 0 } := by
  obtain ⟨habsent, rfl⟩ := GameState.addPlayer_inv h
  exact ⟨AList.lookup_eq_none.mpr habsent, rfl⟩

/-- The records after an attack. -/
theorem lookup_playersAfterAttack {g : GameState} {playerId targetId : Int32}
    {attacker target : PlayerState} (hne : playerId ≠ targetId)
    (hatt : g.players.lookup playerId = some attacker)
    (htgt : g.players.lookup targetId = some target) (p : Int32) :
    let players := GameState.playersAfterAttack playerId targetId attacker target g.players
    players.lookup p = g.players.lookup p ∨
      Changes p (g.players.lookup p) (players.lookup p) (.attack playerId targetId) := by
  have hmem := KeyedMap.mem_of_lookup hatt
  have htarget : targetId ∈
      g.players.replace playerId (GameState.rewardedState attacker target) :=
    AList.mem_replace.mpr (KeyedMap.mem_of_lookup htgt)
  simp only [GameState.playersAfterAttack]
  split
  · by_cases hpt : p = targetId
    · subst hpt
      exact Or.inr (Or.inr ⟨rfl, target, htgt, Or.inl (AList.lookup_erase _ _)⟩)
    rw [AList.lookup_erase_ne hpt]
    by_cases hp : p = playerId
    · subst hp
      exact Or.inr (Or.inl ⟨rfl, attacker, _, _, hatt, KeyedMap.lookup_replace hmem _⟩)
    · exact Or.inl (KeyedMap.lookup_replace_ne hp _)
  · by_cases hpt : p = targetId
    · subst hpt
      exact Or.inr (Or.inr ⟨rfl, target, htgt, Or.inr ⟨_, KeyedMap.lookup_replace htarget _⟩⟩)
    rw [KeyedMap.lookup_replace_ne hpt]
    by_cases hp : p = playerId
    · subst hp
      exact Or.inr (Or.inl ⟨rfl, attacker, _, _, hatt, KeyedMap.lookup_replace hmem _⟩)
    · exact Or.inl (KeyedMap.lookup_replace_ne hp _)

/-- **A command changes the records of the players it names, and of these only what it should.** -/
theorem apply_changes {c : Command} {now : Nat → Int} {g g' : GameState} {out : Bytes × Json}
    (h : c.apply now g = .ok (out, g')) (p : Int32) :
    g'.players.lookup p = g.players.lookup p ∨
      Changes p (g.players.lookup p) (g'.players.lookup p) c := by
  cases c with
  | join playerId =>
    obtain ⟨g₁, hadd, heq⟩ := map_eq_ok h
    cases heq
    obtain ⟨habsent, hplayers⟩ := lookup_addPlayer hadd
    rw [hplayers]
    by_cases hp : p = playerId
    · subst hp
      exact Or.inr ⟨rfl, habsent, now 0, AList.lookup_insert _⟩
    · exact Or.inl (AList.lookup_insert_ne hp)
  | move playerId x y =>
    obtain ⟨g₁, hmove, heq⟩ := map_eq_ok h
    cases heq
    obtain ⟨s, hs, hlookup⟩ := lookup_modifyPlayer hmove
    rw [hlookup]
    by_cases hp : p = playerId
    · subst hp
      exact Or.inr ⟨rfl, s, _, _, hs, if_pos rfl⟩
    · exact Or.inl (if_neg hp)
  | attack playerId targetId =>
    obtain ⟨r, hattack, heq⟩ := map_eq_ok h
    cases heq
    obtain ⟨attacker, target, hne, hatt, htgt, rfl⟩ := GameState.attackPlayer_inv hattack
    exact lookup_playersAfterAttack hne hatt htgt p
  | chat playerId message =>
    rw [Command.apply] at h
    split at h
    · cases h
      exact Or.inl rfl
    · cases h
  | updateScore playerId score =>
    obtain ⟨g₁, hset, heq⟩ := map_eq_ok h
    cases heq
    obtain ⟨s, hs, hlookup⟩ := lookup_modifyPlayer hset
    rw [hlookup]
    by_cases hp : p = playerId
    · subst hp
      exact Or.inr ⟨rfl, s, _, hs, if_pos rfl⟩
    · exact Or.inl (if_neg hp)
  | leave playerId =>
    obtain ⟨r, hremove, heq⟩ := map_eq_ok h
    cases heq
    obtain ⟨s, hs, rfl⟩ := GameState.removePlayer_inv hremove
    rw [GameState.players_finishIfEmpty]
    by_cases hp : p = playerId
    · subst hp
      exact Or.inr ⟨rfl, s, hs, AList.lookup_erase _ _⟩
    · exact Or.inl (AList.lookup_erase_ne hp)

/-! ## Requests -/

section Serve

variable {cfg : Config} {fp : Doubles} {unreadable : Prop}

/-- **A request changes the records of the players it names, and of these only what it should.** -/
theorem responds_changes {q : Request} {g g' : GameState} {r : Json}
    (h : Responds fp unreadable q g r g') (p : Int32) :
    g'.players.lookup p = g.players.lookup p ∨
      ∃ c, q = .command c ∧ Changes p (g.players.lookup p) (g'.players.lookup p) c := by
  cases h with
  | done c now _ g₁ data r timestamp happly =>
    exact (apply_changes happly p).imp id fun hchanges => ⟨c, rfl, hchanges⟩
  | _ => exact Or.inl rfl

/-! ## Reachable states -/

/-- Every record is kept under its own id. -/
def Keyed (g : GameState) : Prop := ∀ p s, g.players.lookup p = some s → s.playerId = p

/-- A record that is changed is that of a player who has just joined, or it keeps its id and the
time at which its player joined. -/
theorem kept_of_changes {p : Int32} {before after : Option PlayerState} {c : Command}
    (h : Changes p before after c) {t : PlayerState} (ht : after = some t) :
    (before = none ∧ t.playerId = p) ∨
      ∃ s, before = some s ∧ t.playerId = s.playerId ∧ t.joinedAt = s.joinedAt := by
  cases c with
  | join playerId =>
    obtain ⟨rfl, hbefore, joinedAt, hafter⟩ := h
    rw [hafter] at ht
    cases ht
    exact Or.inl ⟨hbefore, rfl⟩
  | move =>
    obtain ⟨-, s, x, y, hbefore, hafter⟩ := h
    rw [hafter] at ht
    cases ht
    exact Or.inr ⟨s, hbefore, rfl, rfl⟩
  | attack =>
    rcases h with ⟨-, s, score, kills, hbefore, hafter⟩ | ⟨-, s, hbefore, hafter | ⟨health, hafter⟩⟩
    · rw [hafter] at ht
      cases ht
      exact Or.inr ⟨s, hbefore, rfl, rfl⟩
    · rw [hafter] at ht
      cases ht
    · rw [hafter] at ht
      cases ht
      exact Or.inr ⟨s, hbefore, rfl, rfl⟩
  | chat => exact h.elim
  | updateScore =>
    obtain ⟨-, s, score, hbefore, hafter⟩ := h
    rw [hafter] at ht
    cases ht
    exact Or.inr ⟨s, hbefore, rfl, rfl⟩
  | leave =>
    obtain ⟨-, s, -, hafter⟩ := h
    rw [hafter] at ht
    cases ht

theorem Keyed.of_lookup {g g' : GameState} (hg : Keyed g)
    (h : ∀ p t, g'.players.lookup p = some t →
      t.playerId = p ∨ ∃ s, g.players.lookup p = some s ∧ t.playerId = s.playerId) : Keyed g' := by
  intro p t ht
  rcases h p t ht with hid | ⟨s, hs, hid⟩
  · exact hid
  · exact hid.trans (hg p s hs)

theorem Keyed.modifyPlayer {g g' : GameState} {playerId : Int32} {f : PlayerState → PlayerState}
    (hg : Keyed g) (hf : ∀ s, (f s).playerId = s.playerId)
    (h : g.modifyPlayer playerId f = .ok g') : Keyed g' := by
  obtain ⟨s, hs, hlookup⟩ := lookup_modifyPlayer h
  refine hg.of_lookup fun p t ht => Or.inr ?_
  rw [hlookup] at ht
  split at ht
  · rename_i hp
    cases ht
    exact ⟨s, hp ▸ hs, hf s⟩
  · exact ⟨t, ht, rfl⟩

theorem Keyed.attackPlayer {g : GameState} {playerId targetId : Int32}
    {r : AttackResult × GameState} (hg : Keyed g) (h : g.attackPlayer playerId targetId = .ok r) :
    Keyed r.2 := by
  obtain ⟨attacker, target, hne, hatt, htgt, rfl⟩ := GameState.attackPlayer_inv h
  refine hg.of_lookup fun p t ht => ?_
  rcases lookup_playersAfterAttack hne hatt htgt p with hsame | hchanges
  · exact Or.inr ⟨t, hsame.symm.trans ht, rfl⟩
  · rcases kept_of_changes hchanges ht with ⟨-, hid⟩ | ⟨s, hs, hid, -⟩
    · exact Or.inl hid
    · exact Or.inr ⟨s, hs, hid⟩

theorem Keyed.attempt {α : Type} {w : World} {r : Except Bytes (α × GameState)}
    (hw : Keyed w.game) (h : ∀ r', r = .ok r' → Keyed r'.2) : Keyed (w.attempt r).2.game := by
  cases r with
  | error err => exact hw
  | ok r => exact h r rfl

theorem Keyed.attemptUnit {w : World} {r : Except Bytes GameState}
    (hw : Keyed w.game) (h : ∀ g, r = .ok g → Keyed g) : Keyed (w.attemptUnit r).2.game := by
  cases r with
  | error err => exact hw
  | ok g => exact h g rfl

/-- **Every step keeps every record under its own id.**  The only step that makes a record stores
the id that it is stored under. -/
theorem keyed_exec (fp : Doubles) (c : Call) (e : Env) (w : World) (hw : Keyed w.game) :
    Keyed (c.exec fp e w).2.game := by
  cases c with
  | addPlayer playerId =>
    refine hw.attemptUnit fun g hadd => hw.of_lookup fun p t ht => ?_
    obtain ⟨-, hplayers⟩ := lookup_addPlayer hadd
    rw [hplayers] at ht
    by_cases hp : p = playerId
    · subst hp
      rw [AList.lookup_insert] at ht
      cases ht
      exact Or.inl rfl
    · rw [AList.lookup_insert_ne hp] at ht
      exact Or.inr ⟨t, ht, rfl⟩
  | removePlayer playerId =>
    refine hw.attempt fun r hremove => ?_
    obtain ⟨s, -, rfl⟩ := GameState.removePlayer_inv hremove
    refine hw.of_lookup fun p t ht => Or.inr ⟨t, ?_, rfl⟩
    rw [GameState.players_finishIfEmpty] at ht
    by_cases hp : p = playerId
    · subst hp
      rw [AList.lookup_erase] at ht
      cases ht
    · rwa [AList.lookup_erase_ne hp] at ht
  | movePlayer playerId x y =>
    exact hw.attemptUnit fun g hmove => hw.modifyPlayer (fun _ => (by rfl)) hmove
  | attackPlayer attackerId targetId =>
    exact hw.attempt fun r hattack => hw.attackPlayer hattack
  | setScore playerId score =>
    exact hw.attemptUnit fun g hset => hw.modifyPlayer (fun _ => (by rfl)) hset
  | _ => exact hw

theorem keyed_of_performed {w₀ w : World} {log : List (Σ c : Call, c.Ans)} (hfresh : w₀.Fresh)
    (h : Program.Performed (Call.exec fp) w₀ log w) : Keyed w.game := by
  obtain ⟨matchStart, hgame⟩ := hfresh
  induction h with
  | nil =>
    intro p s hs
    rw [hgame] at hs
    cases hs
  | snoc _ c e ih => exact keyed_exec fp c e _ ih

/-- **In every reachable state, every record is kept under its own id.**  A server starts with no
records at all. -/
theorem keyed_of_reachable {w : World} (hw : w.Reachable cfg fp) : Keyed w.game := by
  obtain ⟨w₀, history, hfresh, hserved⟩ := hw
  obtain ⟨log, hperformed⟩ := hserved.performed
  exact keyed_of_performed hfresh hperformed

end Serve

end Records
end MultiPlayerGame
