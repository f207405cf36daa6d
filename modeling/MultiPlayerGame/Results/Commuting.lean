import MultiPlayerGame.Library.Footprint
import MultiPlayerGame.Results.Errors
import MultiPlayerGame.Results.Failover
import MultiPlayerGame.Server.Records

/-!
# Requests about different players commute

A command reads and writes the records of the players that it names, and the total of the kills,
which it can only raise.  `rule_local` says that nothing else decides about it, and `apply_changes`
that it changes nothing else, and of these records only what it should.  So the players that a
request names are its footprint, and requests that name different players can be served in either
order (`commute`).

The status of the match is left out: `JOIN` and `LEAVE` do not commute on it.

## Why it holds

Two requests commute if neither reads what the other one writes.  That is a general fact
(`Library.Footprint`), and the work is to show what a request reads and writes.  Reading: two arenas
in which the players named by a command stand alike let it go in the same way (`rule_local`), so
nothing but these players decides.  Writing: of all other players the arena says the same
afterwards.  Both are shown rule by rule, and the six rules come down to two shapes, since `MOVE`
and `UPDATE_SCORE` modify one record, and `JOIN` and `LEAVE` add or remove one.

The number of kills is a footprint that every `ATTACK` shares.  It is harmless because no rule reads
it and all that is ever done to it is adding: the two orders add the same numbers.

What is compared of a player who joins is everything but the time at which it joined.  That is read
from the clock, and in the other order the clock may say something else.  If the time of the player
was set before the two requests, it is the same in both orders (`joinedAt_of_disjoint`).
-/

namespace MultiPlayerGame
namespace Commuting

open Bytes (ascii)
open Program (Runs Served)
open RequestHandler
open Errors (records)
open Records (Changes responds_changes kept_of_changes)

/-! ## The players a request names -/

/-- The players that a command names. -/
def named : Command → Set Int32
  | .attack playerId targetId => {playerId, targetId}
  | c => {c.playerId}

/-- The players that a request names; a request that is refused before it reaches the game state
names nobody, and neither does one that only looks. -/
def namedBy : Request → Set Int32
  | .command c => named c
  | _ => ∅

/-- The players in the fields `player_id` and `target_id` of a payload. -/
def ids (rawJson : Bytes) : Set Int32 :=
  {p | ∃ req key, Parser.parse rawJson = some req ∧ (key = "player_id" ∨ key = "target_id") ∧
    requireInt req key = .ok p}

/-- Whoever a request names stands in its payload. -/
theorem namedBy_subset (rawJson : Bytes) : namedBy (Request.decode rawJson) ⊆ ids rawJson := by
  intro p hp
  cases hq : Request.decode rawJson with
  | command c =>
    rw [hq] at hp
    obtain ⟨req, hparse, -, hdecode⟩ :=
      Request.decode_action (a := c.action) (by rw [hq]; rfl)
    rw [hq] at hdecode
    have hplayer : requireInt req "player_id" = .ok c.playerId ∧
        ∀ playerId targetId, c = .attack playerId targetId →
          requireInt req "target_id" = .ok targetId := by
      cases c with
      | join | leave =>
        obtain ⟨n, hn, h⟩ := Request.check_eq_command hdecode.symm
        cases h
        exact ⟨hn, fun _ _ h => by cases h⟩
      | move =>
        obtain ⟨n, hn, h⟩ := Request.check_eq_command hdecode.symm
        obtain ⟨x, -, h⟩ := Request.check_eq_command h
        obtain ⟨y, -, h⟩ := Request.check_eq_command h
        cases h
        exact ⟨hn, fun _ _ h => by cases h⟩
      | attack =>
        obtain ⟨n, hn, h⟩ := Request.check_eq_command hdecode.symm
        obtain ⟨m, hm, h⟩ := Request.check_eq_command h
        cases h
        refine ⟨hn, fun _ _ h => ?_⟩
        cases h
        exact hm
      | chat =>
        obtain ⟨n, hn, h⟩ := Request.check_eq_command hdecode.symm
        obtain ⟨message, -, h⟩ := Request.check_eq_command h
        split at h
        · cases h
        split at h
        · cases h
        cases h
        exact ⟨hn, fun _ _ h => by cases h⟩
      | updateScore =>
        obtain ⟨n, hn, h⟩ := Request.check_eq_command hdecode.symm
        obtain ⟨score, -, h⟩ := Request.check_eq_command h
        split at h
        · cases h
        cases h
        exact ⟨hn, fun _ _ h => by cases h⟩
    cases c with
    | attack playerId targetId =>
      rcases hp with rfl | rfl
      · exact ⟨req, "player_id", hparse, Or.inl rfl, hplayer.1⟩
      · exact ⟨req, "target_id", hparse, Or.inr rfl, hplayer.2 _ _ rfl⟩
    | _ =>
      cases hp
      exact ⟨req, "player_id", hparse, Or.inl rfl, hplayer.1⟩
  | _ =>
    rw [hq] at hp
    exact hp.elim

/-! ## What decides about a command -/

/-- How a command goes in two arenas: refused with the same text, or carried out with the same
answer, the same standings of the players it names and the same number of new kills. -/
inductive Alike (N : Set Int32) (a b : Arena) :
    Except Bytes ((Bytes × Json) × Arena) → Except Bytes ((Bytes × Json) × Arena) → Prop where
  | refused (err : Bytes) : Alike N a b (.error err) (.error err)
  | done (out : Bytes × Json) (a' b' : Arena) (n : ℕ)
      (player : ∀ p ∈ N, a'.player p = b'.player p) (kills : a'.totalKills = a.totalKills + n)
      (kills' : b'.totalKills = b.totalKills + n) : Alike N a b (.ok (out, a')) (.ok (out, b'))

section Rule

variable {a b : Arena}

theorem modify_alike {p : Int32} (hp : a.player p = b.player p) (f : Standing → Standing)
    (out : Bytes × Json) : Alike {p} a b ((a.modifyPlayer p f).map fun a' => (out, a'))
      ((b.modifyPlayer p f).map fun b' => (out, b')) := by
  unfold Arena.modifyPlayer
  rw [hp]
  cases b.player p with
  | none => exact .refused _
  | some s =>
    refine .done _ _ _ 0 (fun q hq => ?_) rfl rfl
    cases hq
    simp

/-- **The players that a command names decide about it.**  In two arenas in which they stand alike
the command goes in the same way, whoever else is there and whatever the status of the match is. -/
theorem rule_local {c : Command} (hagree : ∀ p ∈ named c, a.player p = b.player p) :
    Alike (named c) a b (c.rule a) (c.rule b) := by
  cases c with
  | join playerId =>
    have hp : a.player playerId = b.player playerId := hagree _ rfl
    rw [Command.rule, Command.rule, Arena.addPlayer, Arena.addPlayer, hp]
    split
    · exact .refused _
    · refine .done _ _ _ 0 (fun q hq => ?_) rfl rfl
      cases hq
      simp [Command.playerId]
  | move playerId x y => exact modify_alike (hagree _ rfl) _ _
  | attack playerId targetId =>
    have hp : a.player playerId = b.player playerId := hagree _ (Or.inl rfl)
    have ht : a.player targetId = b.player targetId := hagree _ (Or.inr rfl)
    rw [Command.rule, Command.rule, Arena.attackPlayer, Arena.attackPlayer, hp, ht]
    split
    · exact .refused _
    · rename_i hne
      cases b.player playerId with
      | none => exact .refused _
      | some attacker =>
        cases b.player targetId with
        | none => exact .refused _
        | some target =>
          refine .done _ _ _ _ (fun q hq => ?_) rfl rfl
          rcases hq with rfl | rfl
          · simp [Function.update_of_ne hne]
          · simp
  | chat playerId message =>
    have hp : a.player playerId = b.player playerId := hagree _ rfl
    rw [Command.rule, Command.rule, hp]
    split
    · exact .done _ _ _ 0 hagree rfl rfl
    · exact .refused _
  | updateScore playerId score => exact modify_alike (hagree _ rfl) _ _
  | leave playerId =>
    have hp : a.player playerId = b.player playerId := hagree _ rfl
    rw [Command.rule, Command.rule, Arena.removePlayer, Arena.removePlayer, hp]
    cases b.player playerId with
    | none => exact .refused _
    | some s =>
      refine .done _ _ _ 0 (fun q hq => ?_) (Arena.totalKills_finishIfEmpty _)
        (Arena.totalKills_finishIfEmpty _)
      cases hq
      simp [Command.playerId]

end Rule

/-! ## One request -/

theorem mem_named_of_changes {p : Int32} {before after : Option PlayerState} {c : Command}
    (h : Changes p before after c) : p ∈ named c := by
  cases c with
  | attack => exact h.imp And.left And.left
  | chat => exact h.elim
  | _ => exact h.1

section Serve

variable {cfg : Config} {fp : Doubles} {unreadable : Prop}

/-- A request takes the standings `m` to `m'`, with a response and a number of new kills. -/
def Serves (fp : Doubles) (unreadable : Prop) (q : Request) (m : Int32 → Option Standing)
    (o : Json × ℕ) (m' : Int32 → Option Standing) : Prop :=
  ∃ g g', Responds fp unreadable q g o.1 g' ∧ g.arena.player = m ∧ g'.arena.player = m' ∧
    g'.totalKills = g.totalKills + o.2

theorem player_of_notMem {q : Request} {g g' : GameState} {r : Json}
    (h : Responds fp unreadable q g r g') {p : Int32} (hp : p ∉ namedBy q) :
    g'.players.lookup p = g.players.lookup p := by
  rcases responds_changes h p with hsame | ⟨c, rfl, hchanges⟩
  · exact hsame
  · exact absurd (mem_named_of_changes hchanges) hp

/-- **The footprint of a command are the players that it names.**  It depends on their standings
alone and changes no others. -/
theorem command_footprint (c : Command) :
    Footprint (namedBy (.command c)) (Serves fp unreadable (.command c)) where
  reads := by
    rintro m m' n n' ⟨r, j⟩ ⟨s, l⟩ ⟨g, g', hr, rfl, rfl, hj⟩ ⟨h, h', hs, rfl, rfl, hl⟩ hagree
    simp only at hr hs hj hl
    have halike := rule_local (c := c) hagree
    generalize hg : c.rule g.arena = x at halike
    generalize hh : c.rule h.arena = y at halike
    cases halike with
    | refused err =>
      obtain ⟨rfl, rfl⟩ := responds_of_refusal hg hr
      obtain ⟨rfl, rfl⟩ := responds_of_refusal hh hs
      have hjl : j = l := by omega
      exact ⟨by rw [hjl], hagree⟩
    | done out a' b' i player kills kills' =>
      obtain ⟨-, rfl, rfl⟩ := responds_of_rule hg hr
      obtain ⟨-, rfl, rfl⟩ := responds_of_rule hh hs
      simp only [GameState.arena_totalKills] at kills kills'
      have hjl : j = l := by omega
      exact ⟨by rw [hjl], player⟩
  writes := by
    rintro m m' ⟨r, j⟩ ⟨g, g', hr, rfl, rfl, -⟩ p hp
    rw [GameState.arena_player, GameState.arena_player, player_of_notMem hr hp]

theorem refused_footprint (message : Bytes) :
    Footprint (namedBy (.refused message)) (Serves fp unreadable (.refused message)) where
  reads := by
    rintro m m' n n' ⟨r, j⟩ ⟨s, l⟩ ⟨g, g', hr, rfl, rfl, hj⟩ ⟨h, h', hs, rfl, rfl, hl⟩ hagree
    simp only at hr hs hj hl
    cases hr
    cases hs
    have hjl : j = l := by omega
    exact ⟨by rw [hjl], hagree⟩
  writes := by
    rintro m m' ⟨r, j⟩ ⟨g, g', hr, rfl, rfl, -⟩ p hp
    rw [GameState.arena_player, GameState.arena_player, player_of_notMem hr hp]

/-- Is this a request for one of the actions on the game? -/
def OnGame (rawJson : Bytes) : Prop :=
  ∃ req a, Parser.parse rawJson = some req ∧ Request.action? req = some a ∧ records a = true

theorem OnGame.footprint {rawJson : Bytes} (h : OnGame rawJson) :
    Footprint (namedBy (Request.decode rawJson))
      (Serves fp unreadable (Request.decode rawJson)) := by
  obtain ⟨req, a, hparse, haction, hrecords⟩ := h
  have hdecode := Request.decode_of_action hparse haction
  have ha := Request.action_ofAction req a
  rw [← hdecode] at ha
  cases hq : Request.decode rawJson with
  | refused message => exact refused_footprint message
  | command c => exact command_footprint c
  | _ =>
    rw [hq] at ha
    rcases ha with ha | ha
    · cases ha
    · cases ha
      cases hrecords

/-- The number of kills can only grow. -/
theorem responds_serves {q : Request} {g g' : GameState} {r : Json}
    (h : Responds fp unreadable q g r g') :
    ∃ n, Serves fp unreadable q g.arena.player (r, n) g'.arena.player ∧
      g'.totalKills = g.totalKills + n := by
  have hkills : ∃ n, g'.totalKills = g.totalKills + n := by
    cases h with
    | done c now _ g₁ data r timestamp happly =>
      have hrule := c.arena_apply now g
      rw [happly] at hrule
      have halike := rule_local (a := g.arena) (b := g.arena) (c := c) fun _ _ => rfl
      rw [← hrule] at halike
      cases halike with
      | done _ _ _ n _ kills _ => exact ⟨n, kills⟩
    | _ => exact ⟨0, rfl⟩
  obtain ⟨n, hn⟩ := hkills
  exact ⟨n, ⟨g, g', h, rfl, rfl, hn⟩, hn⟩

end Serve

/-! ## Two requests -/

section Two

variable {cfg : Config} {fp : Doubles} {unreadable : Prop} {q₁ q₂ : Request}
  {g g₁ g₂ : GameState} {r₁ r₂ : Json}

/-- **A player who was in the game and still is has not joined again**, if the requests name
different players. -/
theorem joinedAt_of_disjoint (h₁ : Responds fp unreadable q₁ g r₁ g₁)
    (h₂ : Responds fp unreadable q₂ g₁ r₂ g₂) (hdisjoint : Disjoint (namedBy q₁) (namedBy q₂))
    {p : Int32} {s t : PlayerState} (hs : g.players.lookup p = some s)
    (ht : g₂.players.lookup p = some t) : t.joinedAt = s.joinedAt := by
  -- one request keeps the time of a record that survives it
  have hone : ∀ {q : Request} {g g' : GameState} {r : Json} {s t : PlayerState},
      Responds fp unreadable q g r g' → g.players.lookup p = some s →
      g'.players.lookup p = some t → t.joinedAt = s.joinedAt := by
    intro q g g' r s t h hs ht
    rcases responds_changes h p with hsame | ⟨c, -, hchanges⟩
    · rw [hsame, hs] at ht
      cases ht
      rfl
    · rcases kept_of_changes hchanges ht with ⟨hnone, -⟩ | ⟨s', hs', -, htime⟩
      · rw [hs] at hnone
        cases hnone
      · rw [hs] at hs'
        cases hs'
        exact htime
  cases hu : g₁.players.lookup p with
  | some u => exact (hone h₂ hu ht).trans (hone h₁ hs hu)
  | none =>
    -- the first request has taken the player out, so the second does not name it
    have hnamed : p ∈ namedBy q₁ := by
      by_contra hno
      rw [player_of_notMem h₁ hno, hs] at hu
      cases hu
    rw [player_of_notMem h₂ (Set.disjoint_left.mp hdisjoint hnamed), hu] at ht
    cases ht

theorem timeless_eq {s t : PlayerState} (hstanding : s.standing = t.standing)
    (hid : s.playerId = t.playerId) : s.timeless = t.timeless := by
  obtain ⟨id, x, y, health, score, kills, joinedAt⟩ := s
  obtain ⟨id', x', y', health', score', kills', joinedAt'⟩ := t
  cases hstanding
  cases hid
  rfl

theorem eq_of_timeless {s t : PlayerState} (htimeless : s.timeless = t.timeless)
    (htime : s.joinedAt = t.joinedAt) : s = t := by
  obtain ⟨id, x, y, health, score, kills, joinedAt⟩ := s
  obtain ⟨id', x', y', health', score', kills', joinedAt'⟩ := t
  cases htimeless
  cases htime
  rfl

/-- **Requests about different players commute.**  In every reachable state, two requests for
actions on the game that name different players get the same responses in either order and leave
the same records and the same number of kills; the one thing that depends on when a request is
served is the time in the record of a player who joins.  And a request changes no record but those
of the players it names, and of these only what its action may change. -/
theorem commute {w : World} (hw : w.Reachable cfg fp) :
    (∀ {q₁ q₂ : Bytes} {w₁ w₂ v₁ v₂ : World} {r₁ r₂ s₁ s₂ : Json}, OnGame q₁ → OnGame q₂ →
      Disjoint (namedBy (Request.decode q₁)) (namedBy (Request.decode q₂)) →
      Runs (Call.exec fp) (reply cfg fp q₁) w r₁ w₁ →
      Runs (Call.exec fp) (reply cfg fp q₂) w₁ r₂ w₂ →
      Runs (Call.exec fp) (reply cfg fp q₂) w s₂ v₁ →
      Runs (Call.exec fp) (reply cfg fp q₁) v₁ s₁ v₂ →
      s₁ = r₁ ∧ s₂ = r₂ ∧ v₂.game.totalKills = w₂.game.totalKills ∧
        ∀ p, (v₂.game.players.lookup p).map PlayerState.timeless =
            (w₂.game.players.lookup p).map PlayerState.timeless ∧
          (p ∈ w.game.players → v₂.game.players.lookup p = w₂.game.players.lookup p)) ∧
    ∀ {q : Bytes} {w' : World} {r : Json}, Runs (Call.exec fp) (reply cfg fp q) w r w' →
      ∀ p, (p ∉ namedBy (Request.decode q) →
          w'.game.players.lookup p = w.game.players.lookup p) ∧
        (w'.game.players.lookup p = w.game.players.lookup p ∨
          ∃ c, Request.decode q = .command c ∧
            Changes p (w.game.players.lookup p) (w'.game.players.lookup p) c) := by
  have hresponds : ∀ {q : Bytes} {w w' : World} {r : Json},
      Runs (Call.exec fp) (reply cfg fp q) w r w' →
      Responds fp (Unreadable (id : Env → Env)) (Request.decode q) w.game r w'.game := by
    intro q w w' r h
    have h' : Runs (Call.execVia fp id) (reply cfg fp q) w r w' := h
    exact (reply_responds h').1
  refine ⟨?_, fun h p => ⟨player_of_notMem (hresponds h), responds_changes (hresponds h) p⟩⟩
  intro q₁ q₂ w₁ w₂ v₁ v₂ r₁ r₂ s₁ s₂ hq₁ hq₂ hdisjoint h₁ h₂ h₂' h₁'
  obtain ⟨n₁, hn₁, hkills₁⟩ := responds_serves (hresponds h₁)
  obtain ⟨n₂, hn₂, hkills₂⟩ := responds_serves (hresponds h₂)
  obtain ⟨m₂, hm₂, hkills₂'⟩ := responds_serves (hresponds h₂')
  obtain ⟨m₁, hm₁, hkills₁'⟩ := responds_serves (hresponds h₁')
  obtain ⟨hr₁, hr₂, hplayer⟩ := hq₁.footprint.comm hq₂.footprint hdisjoint hn₁ hn₂ hm₂ hm₁
  obtain ⟨rfl, rfl⟩ := Prod.mk.inj hr₁
  obtain ⟨rfl, rfl⟩ := Prod.mk.inj hr₂
  have hkeyed₂ : Records.Keyed w₂.game :=
    Records.keyed_of_reachable (hw.served ((Served.one h₁).snoc h₂))
  have hkeyed₂' : Records.Keyed v₂.game :=
    Records.keyed_of_reachable (hw.served ((Served.one h₂').snoc h₁'))
  have htimeless : ∀ p, (v₂.game.players.lookup p).map PlayerState.timeless =
      (w₂.game.players.lookup p).map PlayerState.timeless := by
    intro p
    have hp : (v₂.game.players.lookup p).map PlayerState.standing =
      (w₂.game.players.lookup p).map PlayerState.standing := congrFun hplayer p
    cases hs : v₂.game.players.lookup p with
    | none =>
      rw [hs, Option.map_none, eq_comm, Option.map_eq_none_iff] at hp
      rw [hp]
    | some s =>
      rw [hs, Option.map_some, eq_comm, Option.map_eq_some_iff] at hp
      obtain ⟨t, ht, hstanding⟩ := hp
      rw [ht, Option.map_some, Option.map_some,
        timeless_eq hstanding ((hkeyed₂ p t ht).trans (hkeyed₂' p s hs).symm)]
  refine ⟨rfl, rfl, by omega, fun p => ⟨htimeless p, fun hp => ?_⟩⟩
  obtain ⟨u, hu⟩ := Option.isSome_iff_exists.mp (AList.lookup_isSome.mpr hp)
  have hmap := htimeless p
  cases hs : v₂.game.players.lookup p with
  | none =>
    rw [hs, Option.map_none, eq_comm, Option.map_eq_none_iff] at hmap
    rw [hmap]
  | some s =>
    rw [hs, Option.map_some, eq_comm, Option.map_eq_some_iff] at hmap
    obtain ⟨t, ht, heq⟩ := hmap
    have hsu := joinedAt_of_disjoint (hresponds h₂') (hresponds h₁') hdisjoint.symm hu hs
    have htu := joinedAt_of_disjoint (hresponds h₁) (hresponds h₂) hdisjoint hu ht
    rw [ht, eq_of_timeless heq (htu.trans hsu.symm)]

theorem onGame_of_action {rawJson : Bytes} {a : Action}
    (h : (Request.decode rawJson).action = some a) (ha : records a = true) : OnGame rawJson := by
  obtain ⟨req, hparse, haction, -⟩ := Request.decode_action h
  exact ⟨req, a, hparse, haction, ha⟩

/-- Two players join. -/
theorem commute_joins : ∃ (w v : World) (r₁ r₂ : Json),
    Served (reply ⟨false, false⟩ .zero) (Call.exec .zero) .started
      [(joinPayload 0, r₁), (joinPayload 1, r₂)] w ∧
    Served (reply ⟨false, false⟩ .zero) (Call.exec .zero) .started
      [(joinPayload 1, r₂), (joinPayload 0, r₁)] v ∧
    ∀ p, (v.game.players.lookup p).map PlayerState.timeless =
      (w.game.players.lookup p).map PlayerState.timeless := by
  have hruns := Program.exists_runs (Call.exec .zero)
    (α := Json)
  obtain ⟨r₁, w₁, h₁⟩ := hruns (reply ⟨false, false⟩ .zero (joinPayload 0)) .started
  obtain ⟨r₂, w₂, h₂⟩ := hruns (reply ⟨false, false⟩ .zero (joinPayload 1)) w₁
  obtain ⟨s₂, v₁, h₂'⟩ := hruns (reply ⟨false, false⟩ .zero (joinPayload 1)) .started
  obtain ⟨s₁, v₂, h₁'⟩ := hruns (reply ⟨false, false⟩ .zero (joinPayload 0)) v₁
  have hgame : ∀ p, OnGame (joinPayload p) := fun p =>
    onGame_of_action (a := .join) (by rw [decode_joinPayload]; rfl) rfl
  have hdisjoint : Disjoint (namedBy (Request.decode (joinPayload 0)))
      (namedBy (Request.decode (joinPayload 1))) := by
    rw [decode_joinPayload, decode_joinPayload]
    exact Set.disjoint_singleton.mpr (by decide)
  obtain ⟨rfl, rfl, -, hplayers⟩ := (commute World.started_fresh.reachable).1 (hgame 0) (hgame 1)
    hdisjoint h₁ h₂ h₂' h₁'
  exact ⟨w₂, v₂, s₁, s₂, (Served.one h₁).snoc h₂, (Served.one h₂').snoc h₁',
    fun p => (hplayers p).1⟩

end Two

end Commuting
end MultiPlayerGame
