import MultiPlayerGame.Library.Since
import MultiPlayerGame.Server.Deeds

/-!
# The stored record of a player is the ledger of its session

What a client has been told suffices to know how every player stands.  The session of a player is
what has been done since it joined last; from it the ledger computes the hits it has taken, its
place, its kills and its score.  `Entry` says that a standing agrees with the ledger, and
`entry_changed` that every deed keeps every entry right, of whichever role a player has in it.

Kills and scores are stored in 32 bits.  The ledger counts without bound, so the agreement is modulo
`2 ^ 32`, and an equation as soon as the number fits.

## Why it holds

The deeds are what clients have been told: that a player joined, moved, was hit, was eliminated, had
its score set, left.  `did_player` says of each deed how the standings of all players change with
it.  For a single player this is one of a few things (`Changed`), among which it can be hit, and it
can have hit another, and these are two roles in the same deed.  `entry_changed` goes through them
for one player and its ledger, and since every entry is kept right whichever role the player has,
all entries are right after every run.

The entry has one more component than is asked for: a player who is in the game has been hit at most
three times in its session.  The fourth hit finds a health of 25, is lethal, and removes the player,
which ends the session.  So the number of hits is known from the health, and with it when the next
one is lethal.

## Why the kills are only right up to a multiple

The count of kills is an `int` that is incremented without a look.  Two players are enough to get it
beyond its range, without ever having a great score, for the score can be set back.  This is
`kills_ne_ledger`, and the run is described by its round, since nobody can write down so many
requests: the state after `n` rounds is known by induction (`exists_state`).
-/

namespace MultiPlayerGame
namespace Ledger

open Bytes (ascii)
open Since (since latest since_concat_of since_concat_of_not latest_concat)
open GameState (clamp mapMin mapMax)
open Program (Served)

/-! ## The ledger -/

/-- The session of a player: what has been done since it joined. -/
def session (p : Int32) (ds : List Deed) : List Deed := since (fun d => d = .joined p) ds

/-- Is this an attack against the player? -/
def hitsPlayer (p : Int32) : Deed → Bool
  | .attacked _ targetId _ => targetId = p
  | _ => false

/-- Is this an attack by which the player eliminated another? -/
def killedBy (p : Int32) : Deed → Bool
  | .attacked playerId _ eliminated => playerId = p && eliminated
  | _ => false

/-- Where the player moved to. -/
def movedTo (p : Int32) : Deed → Option (Int32 × Int32)
  | .moved playerId x y => if playerId = p then some (x, y) else none
  | _ => none

/-- The score that was set for the player. -/
def scoreSet (p : Int32) : Deed → Option Int32
  | .scored playerId score => if playerId = p then some score else none
  | _ => none

/-- What the player earned.  It is 100 for an elimination and 10 for any other hit, since its score
was set last. -/
def points (p : Int32) : Deed → Int
  | .attacked playerId _ eliminated => if playerId = p then if eliminated then 100 else 10 else 0
  | _ => 0

/-- How often the player has been hit.  Only those of the current session count. -/
def hits (p : Int32) (ds : List Deed) : Nat := (session p ds).countP (hitsPlayer p)

/-- How many others the player has eliminated.  A session begins with 0 of them, whatever the player
has done in an earlier one. -/
def kills (p : Int32) (ds : List Deed) : Nat := (session p ds).countP (killedBy p)

/-- A coordinate as the map takes it. -/
def onMap (v : Int32) : Int := min 1000 (max 0 v.toInt)

/-- Where the player is.  Where it moved to last, clamped to the map, or where it was put when it
joined. -/
def position (p : Int32) (ds : List Deed) : Int × Int :=
  match latest (movedTo p) (session p ds) with
  | none => (500, 500)
  | some (x, y) => (onMap x, onMap y)

/-- The score of the player: the one that was set last, and what was earned since. -/
def score (p : Int32) (ds : List Deed) : Int :=
  ((latest (scoreSet p) (session p ds)).map Int32.toInt).getD 0 +
    ((since (fun d => (scoreSet p d).isSome) (session p ds)).map (points p)).sum

/-! ## One more deed -/

section Concat

variable {p : Int32} {d : Deed} {ds : List Deed}

theorem session_joined (p : Int32) (ds : List Deed) : session p (ds ++ [.joined p]) = [] :=
  since_concat_of (by simp) ds

theorem session_concat (hd : d ≠ .joined p) : session p (ds ++ [d]) = session p ds ++ [d] :=
  since_concat_of_not (by simp [hd]) ds

theorem hits_concat (hd : d ≠ .joined p) :
    hits p (ds ++ [d]) = hits p ds + if hitsPlayer p d then 1 else 0 := by
  rw [hits, session_concat hd, List.countP_append, List.countP_singleton, hits]

theorem kills_concat (hd : d ≠ .joined p) :
    kills p (ds ++ [d]) = kills p ds + if killedBy p d then 1 else 0 := by
  rw [kills, session_concat hd, List.countP_append, List.countP_singleton, kills]

theorem position_concat (hd : d ≠ .joined p) :
    position p (ds ++ [d]) =
      match movedTo p d with
      | none => position p ds
      | some (x, y) => (onMap x, onMap y) := by
  rw [position, session_concat hd, latest_concat, position]
  cases movedTo p d with
  | none => rfl
  | some xy => rfl

theorem score_concat (hd : d ≠ .joined p) :
    score p (ds ++ [d]) = ((scoreSet p d).map Int32.toInt).getD (score p ds + points p d) := by
  rw [score, session_concat hd, latest_concat]
  cases hset : scoreSet p d with
  | none =>
    rw [since_concat_of_not (by simp [hset]), List.map_append, List.sum_append, score]
    simp [Int.add_assoc]
  | some n =>
    rw [since_concat_of (by simp [hset])]
    simp

/-- A score is never negative if none has been set to a negative value. -/
theorem points_nonneg (p : Int32) (d : Deed) : 0 ≤ points p d := by
  unfold points
  split
  · split
    · split
      · omega
      · omega
    · omega
  · omega

end Concat

/-! ## The standing of a player agrees with the ledger -/

/-- **A standing is what the ledger says.**  Its numbers are those of the ledger, modulo `2 ^ 32`
where they can be large; and nobody in the game has been hit more than three times. -/
structure Entry (p : Int32) (ds : List Deed) (s : Standing) : Prop where
  hits_le : hits p ds ≤ 3
  health : s.health = Int32.ofInt (100 - 25 * hits p ds)
  position : (s.x.toInt, s.y.toInt) = position p ds
  kills : s.kills = Int32.ofInt (kills p ds)
  score : s.score = Int32.ofInt (score p ds)
  score_nonneg : 0 ≤ Ledger.score p ds

theorem toInt_clamp (v : Int32) : (clamp v mapMin mapMax).toInt = onMap v := by
  have hmin : mapMin.toInt = 0 := rfl
  have hmax : mapMax.toInt = 1000 := rfl
  unfold clamp onMap
  split
  · rename_i h
    rw [Int32.lt_iff_toInt_lt] at h
    omega
  split
  · rename_i h h'
    rw [Int32.lt_iff_toInt_lt] at h h'
    omega
  · rename_i h h'
    rw [Int32.lt_iff_toInt_lt] at h h'
    omega

theorem entry_joined (p : Int32) (ds : List Deed) : Entry p (ds ++ [.joined p]) .initial := by
  constructor <;>
    simp [hits, kills, position, score, session_joined, Standing.initial]

/-- How a deed changes the standing of a player who is there before and after. -/
structure Changed (p : Int32) (d : Deed) (s s' : Standing) : Prop where
  health : s'.health = if hitsPlayer p d then Arena.healthAfter s else s.health
  survives : hitsPlayer p d = true → ¬ Arena.Lethal s
  position : (s'.x, s'.y) =
    match movedTo p d with
    | none => (s.x, s.y)
    | some (x, y) => (clamp x mapMin mapMax, clamp y mapMin mapMax)
  kills : s'.kills = s.kills + if killedBy p d then 1 else 0
  score : s'.score = (scoreSet p d).getD (s.score + Int32.ofInt (points p d))

theorem Changed.refl {p : Int32} {d : Deed} {s : Standing} (hhit : hitsPlayer p d = false)
    (hmoved : movedTo p d = none) (hkilled : killedBy p d = false) (hset : scoreSet p d = none)
    (hpoints : points p d = 0) : Changed p d s s := by
  constructor <;> simp [*]

/-- **Whoever is there after a deed has just joined, or was there before and was changed by it.** -/
theorem did_player {d : Deed} {a a' : Arena} {p : Int32} {s' : Standing} (hdid : d.Did a a')
    (hs' : a'.player p = some s') :
    (d = .joined p ∧ s' = .initial) ∨
      (d ≠ .joined p ∧ ∃ s, a.player p = some s ∧ Changed p d s s') := by
  cases hdid with
  | joined playerId status absent =>
    simp only at hs'
    by_cases hp : p = playerId
    · subst hp
      rw [Function.update_self] at hs'
      exact Or.inl ⟨rfl, (Option.some.inj hs').symm⟩
    · rw [Function.update_of_ne hp] at hs'
      exact Or.inr ⟨by simp [Ne.symm hp], s', hs', .refl rfl rfl rfl rfl rfl⟩
  | moved playerId x y s present =>
    simp only at hs'
    refine Or.inr ⟨by simp, ?_⟩
    by_cases hp : p = playerId
    · subst hp
      rw [Function.update_self] at hs'
      cases hs'
      exact ⟨s, present, by constructor <;> simp [hitsPlayer, movedTo, killedBy, scoreSet, points]⟩
    · rw [Function.update_of_ne hp] at hs'
      exact ⟨s', hs', .refl rfl (by simp [movedTo, Ne.symm hp]) rfl rfl rfl⟩
  | attacked playerId targetId attacker target ne present targetPresent =>
    simp only at hs'
    refine Or.inr ⟨by simp, ?_⟩
    by_cases ht : p = targetId
    · -- the role of the target
      subst ht
      rw [Function.update_self, Arena.struck] at hs'
      by_cases hlethal : Arena.Lethal target
      · rw [if_pos hlethal] at hs'
        cases hs'
      · rw [if_neg hlethal] at hs'
        cases hs'
        refine ⟨target, targetPresent, ?_⟩
        constructor <;> simp [hitsPlayer, movedTo, killedBy, scoreSet, points, ne, hlethal]
    rw [Function.update_of_ne ht] at hs'
    by_cases hp : p = playerId
    · -- the role of the attacker
      subst hp
      rw [Function.update_self] at hs'
      cases hs'
      refine ⟨attacker, present, ?_⟩
      by_cases hlethal : Arena.Lethal target
      · constructor <;>
          simp [hitsPlayer, movedTo, killedBy, scoreSet, points, Ne.symm ne, hlethal,
            Arena.rewarded]
      · constructor <;>
          simp [hitsPlayer, movedTo, killedBy, scoreSet, points, Ne.symm ne, hlethal,
            Arena.rewarded]
    · rw [Function.update_of_ne hp] at hs'
      exact ⟨s', hs', .refl (by simp [hitsPlayer, Ne.symm ht]) rfl (by simp [killedBy, Ne.symm hp])
        rfl (by simp [points, Ne.symm hp])⟩
  | scored playerId score s present =>
    simp only at hs'
    refine Or.inr ⟨by simp, ?_⟩
    by_cases hp : p = playerId
    · subst hp
      rw [Function.update_self] at hs'
      cases hs'
      exact ⟨s, present, by constructor <;> simp [hitsPlayer, movedTo, killedBy, scoreSet]⟩
    · rw [Function.update_of_ne hp] at hs'
      exact ⟨s', hs', .refl rfl rfl rfl (by simp [scoreSet, Ne.symm hp]) rfl⟩
  | left playerId status s present =>
    simp only at hs'
    refine Or.inr ⟨by simp, ?_⟩
    by_cases hp : p = playerId
    · subst hp
      rw [Function.update_self] at hs'
      cases hs'
    · rw [Function.update_of_ne hp] at hs'
      exact ⟨s', hs', .refl rfl rfl rfl rfl rfl⟩

/-- A player who has been hit `n ≤ 3` times dies of the next hit exactly when it is the fourth. -/
theorem lethal_iff {s : Standing} {n : Nat} (hn : n ≤ 3)
    (hs : s.health = Int32.ofInt (100 - 25 * n)) : Arena.Lethal s ↔ n = 3 := by
  have hall : ∀ n : Nat, n ≤ 3 →
      (GameState.max 0 (Int32.ofInt (100 - 25 * n) - GameState.attackDamage) = 0 ↔ n = 3) := by
    decide
  rw [Arena.Lethal, Arena.healthAfter, hs]
  exact hall n hn

/-- A hit that is not lethal takes 25 of the health. -/
theorem healthAfter_eq {s : Standing} {n : Nat} (hn : n ≤ 2)
    (hs : s.health = Int32.ofInt (100 - 25 * n)) :
    Arena.healthAfter s = Int32.ofInt (100 - 25 * (n + 1 : Nat)) := by
  have hall : ∀ n : Nat, n ≤ 2 →
      GameState.max 0 (Int32.ofInt (100 - 25 * n) - GameState.attackDamage) =
        Int32.ofInt (100 - 25 * (n + 1 : Nat)) := by
    decide
  rw [Arena.healthAfter, hs]
  exact hall n hn

/-- **Every deed keeps the entry of a player right.**  What the deed does to the standing is what
one more deed does to the ledger, in each of the roles that the player can have in it. -/
theorem entry_changed {p : Int32} {d : Deed} {ds : List Deed} {s s' : Standing}
    (hd : d ≠ .joined p) (hs : Entry p ds s) (hchanged : Changed p d s s')
    (hset : ∀ n ∈ scoreSet p d, 0 ≤ n.toInt) : Entry p (ds ++ [d]) s' := by
  have hhits : hits p (ds ++ [d]) ≤ 3 ∧
      s'.health = Int32.ofInt (100 - 25 * hits p (ds ++ [d])) := by
    rw [hits_concat hd, hchanged.health]
    cases hhit : hitsPlayer p d with
    | false =>
      simp only [Bool.false_eq_true, if_false, Nat.add_zero]
      exact ⟨hs.hits_le, hs.health⟩
    | true =>
      simp only [if_true]
      have hne : hits p ds ≠ 3 := fun h =>
        hchanged.survives hhit ((lethal_iff hs.hits_le hs.health).mpr h)
      have hle := hs.hits_le
      exact ⟨by omega, healthAfter_eq (by omega) hs.health⟩
  have hposition : (s'.x.toInt, s'.y.toInt) = position p (ds ++ [d]) := by
    have h := hchanged.position
    rw [position_concat hd]
    cases hmoved : movedTo p d with
    | none =>
      rw [hmoved] at h
      obtain ⟨hx, hy⟩ := Prod.mk.inj h
      rw [hx, hy]
      exact hs.position
    | some xy =>
      rw [hmoved] at h
      obtain ⟨hx, hy⟩ := Prod.mk.inj h
      rw [hx, hy, toInt_clamp, toInt_clamp]
  refine ⟨hhits.1, hhits.2, hposition, ?_, ?_, ?_⟩
  · rw [hchanged.kills, kills_concat hd, hs.kills]
    cases killedBy p d with
    | false => simp
    | true => simp [Int32.ofInt_add]
  · rw [hchanged.score, score_concat hd, hs.score]
    cases scoreSet p d with
    | none => simp [Int32.ofInt_add]
    | some n => simp
  · rw [score_concat hd]
    have hnonneg := hs.score_nonneg
    have hpoints := points_nonneg p d
    cases hn : scoreSet p d with
    | none => simp only [Option.map_none, Option.getD_none]; omega
    | some n => exact hset n hn

/-! ## Whole runs -/

section Run

variable {cfg : Config} {fp : Doubles} {w₀ w : World} {history : List (Bytes × Json)}

theorem nonneg_of_scoreSet {e : Bytes × Json} {d : Deed} {p : Int32} (he : deed? e = some d) :
    ∀ n ∈ scoreSet p d, 0 ≤ n.toInt := by
  intro n hn
  cases d with
  | scored playerId score =>
    simp only [scoreSet] at hn
    split at hn
    · cases hn
      exact nonneg_of_deed? he
    · cases hn
  | _ => cases hn

/-- **Every player is entered rightly at every moment of every run.**  By induction on the run, with
`entry_changed` for a request that has a deed. -/
theorem entry_of_served (hfresh : w₀.Fresh)
    (h : Served (RequestHandler.reply cfg fp) (Call.exec fp) w₀ history w) (p : Int32)
    (s : Standing) (hs : w.game.arena.player p = some s) : Entry p (deeds history) s := by
  induction h generalizing p s with
  | nil =>
    rw [hfresh.player] at hs
    cases hs
  | snoc before last ih =>
    rename_i past t u raw r
    have hdeed := reply_deed last
    cases he : deed? (raw, r) with
    | none =>
      rw [he] at hdeed
      rw [hdeed] at hs
      rw [deeds_concat_of_none he]
      exact ih p s hs
    | some d =>
      rw [he] at hdeed
      rw [deeds_concat_of_some he]
      rcases did_player hdeed hs with ⟨rfl, rfl⟩ | ⟨hne, s₀, hs₀, hchanged⟩
      · exact entry_joined p _
      · exact entry_changed hne (ih p s₀ hs₀) hchanged (nonneg_of_scoreSet he)

/-- **The stored record of a player is the ledger of its session**, and a player is removed by the
fourth hit it takes in a session and by no other. -/
theorem record_eq_ledger (hfresh : w₀.Fresh)
    (h : Served (RequestHandler.reply cfg fp) (Call.exec fp) w₀ history w) :
    (∀ p st, w.game.players.lookup p = some st →
      st.health.toInt = 100 - 25 * hits p (deeds history) ∧ hits p (deeds history) ≤ 3 ∧
      (st.x.toInt, st.y.toInt) = position p (deeds history) ∧
      (kills p (deeds history) ≤ 2 ^ 31 - 1 → st.kills.toInt = kills p (deeds history)) ∧
      (score p (deeds history) ≤ 2 ^ 31 - 1 → st.score.toInt = score p (deeds history))) ∧
    ∀ past e attacker p eliminated, history = past ++ [e] →
      deed? e = some (.attacked attacker p eliminated) →
      (p ∉ w.game.players ↔ hits p (deeds history) = 4) := by
  constructor
  · intro p st hst
    have hentry := entry_of_served hfresh h p st.standing (by simp [hst])
    have hnonneg := hentry.score_nonneg
    refine ⟨?_, hentry.hits_le, hentry.position, fun hkills => ?_, fun hscore => ?_⟩
    · have hle := hentry.hits_le
      have hhealth : st.health = Int32.ofInt (100 - 25 * hits p (deeds history)) := hentry.health
      rw [hhealth, Int32.toInt_ofInt_of_le (by omega) (by omega)]
    · have heq : st.kills = Int32.ofInt (kills p (deeds history)) := hentry.kills
      rw [heq, Int32.toInt_ofInt_of_le (by omega) (by omega)]
    · have heq : st.score = Int32.ofInt (score p (deeds history)) := hentry.score
      rw [heq, Int32.toInt_ofInt_of_le (by omega) (by omega)]
  · rintro past e attacker p eliminated rfl he
    obtain ⟨t, hpast, hlast⟩ := h.snoc_inv
    have hdid := reply_deed hlast
    rw [he] at hdid
    rw [deeds_concat_of_some he, hits_concat (by simp)]
    have hentry := fun s hs => entry_of_served hfresh hpast p s hs
    generalize ha : w.game.arena = a at hdid
    cases hdid with
    | attacked _ _ att tgt ne present targetPresent =>
      have hlethal :=
        lethal_iff (hentry tgt targetPresent).hits_le (hentry tgt targetPresent).health
      have hgone : w.game.arena.player p = Arena.struck tgt := by
        rw [ha]
        exact Function.update_self _ _ _
      have hmem : p ∉ w.game.players ↔ Arena.struck tgt = none := by
        rw [← hgone, GameState.arena_player, Option.map_eq_none_iff, AList.lookup_eq_none]
      rw [hmem, Arena.struck]
      simp [hitsPlayer, hlethal]

end Run

/-! ### An assault -/

/-- Player 1 joins, moves, has its score set and is hit three times. -/
def assault : List Bytes :=
  [joinZero, Skirmish.joinOne, Skirmish.moveOne, Skirmish.scoreOne, Skirmish.attackOne,
    Skirmish.attackOne, Skirmish.attackOne]

/-- The assault and one more hit. -/
def lethal : List Bytes := assault ++ [Skirmish.attackOne]

/-- What the ledgers of the assault say: the victim is still in the game after the third hit.  With
the fourth it is gone, and the other one has a kill. -/
theorem record_eq_ledger_assault :
    (∃ st, (leftBy ⟨false, false⟩ {} assault).game.players.lookup 1 = some st ∧
      st.health.toInt = 25 ∧ (st.x.toInt, st.y.toInt) = (0, 250) ∧ st.score.toInt = 130) ∧
    (∃ st, (leftBy ⟨false, false⟩ {} lethal).game.players.lookup 0 = some st ∧
      st.kills.toInt = 1 ∧ st.score.toInt = 130) ∧
    1 ∉ (leftBy ⟨false, false⟩ {} lethal).game.players := by
  have hthree := record_eq_ledger World.started_fresh (served_repliesTo ⟨false, false⟩ {} assault)
  have hfour := record_eq_ledger World.started_fresh (served_repliesTo ⟨false, false⟩ {} lethal)
  have hdeeds : deeds (repliesTo ⟨false, false⟩ {} assault) =
      [.joined 0, .joined 1, .moved 1 (-7) 250, .scored 1 130, .attacked 0 1 false,
        .attacked 0 1 false, .attacked 0 1 false] := by decide +kernel
  have hdeeds' : deeds (repliesTo ⟨false, false⟩ {} lethal) =
      [.joined 0, .joined 1, .moved 1 (-7) 250, .scored 1 130, .attacked 0 1 false,
        .attacked 0 1 false, .attacked 0 1 false, .attacked 0 1 true] := by decide +kernel
  have hvictim : ((leftBy ⟨false, false⟩ {} assault).game.players.lookup 1).isSome := by
    decide +kernel
  have hkiller : ((leftBy ⟨false, false⟩ {} lethal).game.players.lookup 0).isSome := by
    decide +kernel
  have hne : repliesTo ⟨false, false⟩ {} lethal ≠ [] := by decide +kernel
  refine ⟨?_, ?_, ?_⟩
  · obtain ⟨st, hst⟩ := Option.isSome_iff_exists.mp hvictim
    obtain ⟨hhealth, -, hposition, -, hscore⟩ := hthree.1 1 st hst
    rw [hdeeds] at hhealth hposition hscore
    exact ⟨st, hst, hhealth, hposition, hscore (by decide)⟩
  · obtain ⟨st, hst⟩ := Option.isSome_iff_exists.mp hkiller
    obtain ⟨-, -, -, hkills, hscore⟩ := hfour.1 0 st hst
    rw [hdeeds'] at hkills hscore
    exact ⟨st, hst, hkills (by decide), hscore (by decide)⟩
  · refine (hfour.2 _ _ 0 1 true (List.dropLast_append_getLast hne).symm
      (by decide +kernel +revert)).mpr ?_
    rw [hdeeds']
    decide

/-! ## More kills than an `int` holds

Two players suffice: one joins again and again, the other kills it each time and then has its own
score set back to 0.  No score ever exceeds 130, and after `2 ^ 31` rounds the number of kills no
longer fits. -/

namespace Climb

def joinVictim : Bytes := ascii "\x7b\"action\":\"JOIN\",\"player_id\":1\x7d"

def attack : Bytes := ascii "\x7b\"action\":\"ATTACK\",\"player_id\":0,\"target_id\":1\x7d"

def resetScore : Bytes := ascii "\x7b\"action\":\"UPDATE_SCORE\",\"player_id\":0,\"score\":0\x7d"

/-- One round. -/
def round : List Bytes := [joinVictim, attack, attack, attack, attack, resetScore]

/-- The killer joins and plays `n` rounds. -/
def rounds : Nat → List Bytes
  | 0 => [joinZero]
  | n + 1 => rounds n ++ round

/-- How far a run has come: the killer is in the game with `k` kills and the score `n`, and no score
has ever been above 130. -/
structure State (qs : List Bytes) (k : Nat) (n : Int) (history : List (Bytes × Json)) (w : World) :
    Prop where
  requests : history.map Prod.fst = qs
  served : Served (RequestHandler.reply ⟨false, false⟩ .zero) (Call.exec .zero) .started history w
  killer : w.game.arena.player 0 ≠ none
  kills : kills 0 (deeds history) = k
  score : score 0 (deeds history) = n
  others : ∀ p, p ≠ 0 → Ledger.score p (deeds history) = 0
  low : ∀ past, past <+: history → ∀ p, Ledger.score p (deeds past) ≤ 130

/-- One more request, whose deed is known. -/
theorem State.snoc {qs : List Bytes} {k : Nat} {n : Int} {history : List (Bytes × Json)}
    {w w' : World} {rawJson : Bytes} {r : Json} {d : Deed} (h : State qs k n history w)
    (hlast : Program.Runs (Call.exec .zero) (RequestHandler.reply ⟨false, false⟩ .zero rawJson)
      w r w')
    (hdeed : deed? (rawJson, r) = some d) (hkiller : w'.game.arena.player 0 ≠ none)
    (hd : d ≠ .joined 0) (hset : ∀ p, p ≠ 0 → scoreSet p d = none)
    (hpoints : ∀ p, p ≠ 0 → points p d = 0)
    (hlow : ((scoreSet 0 d).map Int32.toInt).getD (n + points 0 d) ≤ 130) :
    State (qs ++ [rawJson]) (k + if killedBy 0 d then 1 else 0)
      (((scoreSet 0 d).map Int32.toInt).getD (n + points 0 d)) (history ++ [(rawJson, r)]) w' := by
  have hscore : Ledger.score 0 (deeds (history ++ [(rawJson, r)])) =
      ((scoreSet 0 d).map Int32.toInt).getD (n + points 0 d) := by
    rw [deeds_concat_of_some hdeed, score_concat hd, h.score]
  have hothers : ∀ p, p ≠ 0 → Ledger.score p (deeds (history ++ [(rawJson, r)])) = 0 := by
    intro p hp
    rw [deeds_concat_of_some hdeed]
    by_cases hjoined : d = .joined p
    · rw [hjoined, Ledger.score, session_joined]
      rfl
    · rw [score_concat hjoined, hset p hp, hpoints p hp, h.others p hp]
      rfl
  refine ⟨?_, h.served.snoc hlast, hkiller, ?_, hscore, hothers, ?_⟩
  · rw [List.map_append, h.requests]
    rfl
  · rw [deeds_concat_of_some hdeed, kills_concat hd, h.kills]
  · intro past hpast p
    rcases List.prefix_concat_iff.mp hpast with rfl | hpast
    · by_cases hp : p = 0
      · rw [hp, hscore]
        exact hlow
      · rw [hothers p hp]
        omega
    · exact h.low past hpast p

section Steps

variable {qs : List Bytes} {k : Nat} {n : Int} {history : List (Bytes × Json)} {w : World}

theorem runs_reply (rawJson : Bytes) (w : World) :
    ∃ r w', Program.Runs (Call.exec .zero) (RequestHandler.reply ⟨false, false⟩ .zero rawJson)
      w r w' :=
  Program.exists_runs _ _ w

/-- The victim joins. -/
theorem State.join (h : State qs k n history w) (hn : n ≤ 130)
    (hvictim : w.game.arena.player 1 = none) :
    ∃ history' w', State (qs ++ [joinVictim]) k n history' w' ∧
      w'.game.arena.player 1 ≠ none ∧ hits 1 (deeds history') = 0 := by
  obtain ⟨r, w', hlast⟩ := runs_reply joinVictim w
  have hrule : ∃ out a, (Command.join 1).rule w.game.arena = .ok (out, a) ∧
      a.player = Function.update w.game.arena.player 1 (some .initial) := by
    rw [Command.rule, Arena.addPlayer, if_neg (not_not.mpr hvictim)]
    exact ⟨_, _, rfl, rfl⟩
  obtain ⟨out, a, hrule, ha⟩ := hrule
  obtain ⟨hdeed, rfl⟩ := reply_of_rule rfl hrule hlast
  have hkiller : w'.game.arena.player 0 ≠ none := by
    rw [ha, Function.update_of_ne (by decide)]
    exact h.killer
  have hnext := h.snoc hlast hdeed hkiller (by simp) (fun _ _ => rfl) (fun _ _ => rfl)
    (by simpa [scoreSet, points] using hn)
  refine ⟨_, w', by simpa [killedBy, scoreSet, points] using hnext, ?_, ?_⟩
  · rw [ha, Function.update_self]
    exact Option.some_ne_none _
  · rw [deeds_concat_of_some hdeed, hits, session_joined]
    rfl

/-- The killer hits the victim, which is lethal the fourth time. -/
theorem State.attack (h : State qs k n history w) (hn : n ≤ 30)
    (hvictim : w.game.arena.player 1 ≠ none) :
    ∃ history' w',
      State (qs ++ [Climb.attack]) (k + if hits 1 (deeds history) = 3 then 1 else 0)
        (n + if hits 1 (deeds history) = 3 then 100 else 10) history' w' ∧
      hits 1 (deeds history') = hits 1 (deeds history) + 1 ∧
      (w'.game.arena.player 1 = none ↔ hits 1 (deeds history) = 3) := by
  obtain ⟨r, w', hlast⟩ := runs_reply Climb.attack w
  obtain ⟨killer, hkiller⟩ := Option.ne_none_iff_exists'.mp h.killer
  obtain ⟨victim, hvictim⟩ := Option.ne_none_iff_exists'.mp hvictim
  have hentry := entry_of_served World.started_fresh h.served 1 victim hvictim
  have hlethal := lethal_iff hentry.hits_le hentry.health
  have hrule : ∃ out a, (Command.attack 0 1).rule w.game.arena = .ok (out, a) ∧
      (Command.attack 0 1).deed out.2 = some (.attacked 0 1 (Arena.Lethal victim)) ∧
      a.player = Function.update (Function.update w.game.arena.player 0
        (some (Arena.rewarded killer victim))) 1 (Arena.struck victim) := by
    rw [Command.rule, Arena.attackPlayer, if_neg (by decide), hkiller, hvictim]
    exact ⟨_, _, rfl, by rw [Command.deed, eliminated_attackResponse], rfl⟩
  obtain ⟨out, a, hrule, hout, ha⟩ := hrule
  obtain ⟨hdeed, rfl⟩ := reply_of_rule rfl hrule hlast
  rw [hout] at hdeed
  have hstays : w'.game.arena.player 0 ≠ none := by
    rw [ha, Function.update_of_ne (by decide), Function.update_self]
    exact Option.some_ne_none _
  have hpoints : points 0 (.attacked 0 1 (Arena.Lethal victim)) =
      if hits 1 (deeds history) = 3 then 100 else 10 := by
    simp [points, hlethal]
  have hnext := h.snoc hlast hdeed hstays (by simp) (fun _ _ => rfl)
    (fun p hp => if_neg (Ne.symm hp)) (by
      rw [hpoints]
      simp only [scoreSet, Option.map_none, Option.getD_none]
      split <;> omega)
  refine ⟨history ++ [(Climb.attack, r)], w', ?_, ?_, ?_⟩
  · rw [hpoints] at hnext
    simpa [killedBy, scoreSet, hlethal] using hnext
  · rw [deeds_concat_of_some hdeed, hits_concat (by simp)]
    rfl
  · rw [ha, Function.update_self, Arena.struck, ← hlethal]
    simp

/-- The killer has its score set to 0. -/
theorem State.reset (h : State qs k n history w) :
    ∃ history' w', State (qs ++ [resetScore]) k 0 history' w' ∧
      w'.game.arena.player 1 = w.game.arena.player 1 := by
  obtain ⟨r, w', hlast⟩ := runs_reply resetScore w
  obtain ⟨killer, hkiller⟩ := Option.ne_none_iff_exists'.mp h.killer
  have hrule : ∃ out a, (Command.updateScore 0 0).rule w.game.arena = .ok (out, a) ∧
      a.player = Function.update w.game.arena.player 0 (some { killer with score := 0 }) := by
    rw [Command.rule, Arena.setScore, Arena.modifyPlayer, hkiller]
    exact ⟨_, _, rfl, rfl⟩
  obtain ⟨out, a, hrule, ha⟩ := hrule
  obtain ⟨hdeed, rfl⟩ := reply_of_rule rfl hrule hlast
  have hstays : w'.game.arena.player 0 ≠ none := by
    rw [ha, Function.update_self]
    exact Option.some_ne_none _
  have hnext := h.snoc hlast hdeed hstays (by simp) (fun p hp => if_neg (Ne.symm hp))
    (fun _ _ => rfl) (by simp [scoreSet])
  refine ⟨_, w', by simpa [killedBy, scoreSet] using hnext, ?_⟩
  rw [ha, Function.update_of_ne (by decide)]

/-- **A round adds a kill.**  The victim joins, is hit four times, and the score of the killer is
set back. -/
theorem State.round (h : State qs k 0 history w) (hvictim : w.game.arena.player 1 = none) :
    ∃ history' w', State (qs ++ Climb.round) (k + 1) 0 history' w' ∧
      w'.game.arena.player 1 = none := by
  obtain ⟨h₁, w₁, hstate₁, hvictim₁, hhits₁⟩ := h.join (by omega) hvictim
  obtain ⟨h₂, w₂, hstate₂, hhits₂, hvictim₂⟩ := hstate₁.attack (by omega) hvictim₁
  rw [hhits₁] at hstate₂ hhits₂ hvictim₂
  obtain ⟨h₃, w₃, hstate₃, hhits₃, hvictim₃⟩ :=
    hstate₂.attack (by simp) (hvictim₂.not.mpr (by omega))
  rw [hhits₂] at hstate₃ hhits₃ hvictim₃
  obtain ⟨h₄, w₄, hstate₄, hhits₄, hvictim₄⟩ :=
    hstate₃.attack (by simp) (hvictim₃.not.mpr (by omega))
  rw [hhits₃] at hstate₄ hhits₄ hvictim₄
  obtain ⟨h₅, w₅, hstate₅, -, hvictim₅⟩ := hstate₄.attack (by simp) (hvictim₄.not.mpr (by omega))
  rw [hhits₄] at hstate₅ hvictim₅
  obtain ⟨h₆, w₆, hstate₆, hvictim₆⟩ := hstate₅.reset
  refine ⟨h₆, w₆, by simpa [Climb.round] using hstate₆, ?_⟩
  rw [hvictim₆]
  exact hvictim₅.mpr rfl

theorem state_start : ∃ history w, State (rounds 0) 0 0 history w ∧
    w.game.arena.player 1 = none := by
  obtain ⟨r, w, hserved, -, hdeeds, ha⟩ := served_joinZero
  have hscore : ∀ p, score p [.joined 0] = 0 := by
    intro p
    by_cases hp : p = 0
    · subst hp
      rfl
    · rw [show [Deed.joined 0] = [] ++ [.joined 0] from rfl, score_concat (by simp [Ne.symm hp])]
      rfl
  refine ⟨[(joinZero, r)], w, ⟨rfl, hserved, ?_, ?_, ?_, ?_, ?_⟩, ?_⟩
  · rw [ha, Function.update_self]
    exact Option.some_ne_none _
  · rw [hdeeds]
    rfl
  · rw [hdeeds, hscore]
  · intro p _
    rw [hdeeds, hscore]
  · intro past hpast p
    have hpast' : past <+: [] ++ [(joinZero, r)] := hpast
    rcases List.prefix_concat_iff.mp hpast' with rfl | hpast
    · change score p (deeds [(joinZero, r)]) ≤ 130
      rw [hdeeds, hscore]
      omega
    · rw [List.prefix_nil.mp hpast]
      change (0 : Int) ≤ 130
      omega
  · rw [ha]
    rfl

end Steps

theorem exists_state (n : Nat) : ∃ history w, State (rounds n) n 0 history w ∧
    w.game.arena.player 1 = none := by
  induction n with
  | zero => exact state_start
  | succ n ih =>
    obtain ⟨history, w, hstate, hvictim⟩ := ih
    exact hstate.round hvictim

end Climb

/-- **The number of kills need not be the stored one**, though no score is ever large: after
`2 ^ 31` rounds it does not fit. -/
theorem kills_ne_ledger : ∃ history w,
    history.map Prod.fst = Climb.rounds (2 ^ 31) ∧
    Served (RequestHandler.reply ⟨false, false⟩ .zero) (Call.exec .zero) .started history w ∧
    (∀ past, past <+: history → ∀ p, score p (deeds past) ≤ 2 ^ 31 - 1) ∧
    ∃ st, w.game.players.lookup 0 = some st ∧ st.kills.toInt ≠ kills 0 (deeds history) := by
  obtain ⟨history, w, hstate, -⟩ := Climb.exists_state (2 ^ 31)
  obtain ⟨s, hs⟩ := Option.ne_none_iff_exists'.mp hstate.killer
  have hentry := entry_of_served World.started_fresh hstate.served 0 s hs
  obtain ⟨st, hst, rfl⟩ := Option.map_eq_some_iff.mp hs
  refine ⟨history, w, hstate.requests, hstate.served, fun past hpast p => ?_, st, hst, ?_⟩
  · have := hstate.low past hpast p
    omega
  · have hkills : st.kills = Int32.ofInt (kills 0 (deeds history)) := hentry.kills
    have hlt := Int32.toInt_lt st.kills
    rw [hstate.kills]
    omega

end Ledger
end MultiPlayerGame
