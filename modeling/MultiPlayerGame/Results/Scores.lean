import MultiPlayerGame.Results.Ledger

/-!
# Scores that do not overflow

Two sources feed the score of a player: hits and kills add 10 and 100 to it, and `UPDATE_SCORE` sets
it to any number that is not negative.  `setScore` accepts the greatest `int`, and `attackPlayer`
adds to it without looking, so one hit later the score is negative.  The same happens to a kill
counter after enough kills.

What the requests alone determine is the game as it would be played with unbounded integers: for
each player in it the hits taken, the score and the kills (`Tally`).  The stored numbers agree with
the tallies modulo `2 ^ 32` in every run (`agrees_of_served`).  So the condition under which
nothing overflows is one on the requests: no tally ever exceeds the greatest `int`.
`sound_iff` says that this condition is exact.

## Why the condition is exact

Adding and setting are all that ever happens to a score, and both respect congruence modulo `2 ^
32`.  So `Agrees` is an invariant whether or not anything overflows: the standings show the tallies,
reduced.  A number that is shown reduced is the number itself exactly if it fits.  That gives both
directions for a single request.  If the tallies fit afterwards, the stored numbers are the tallies,
which are not negative and grow with a hit (`sound_of_fit`).  If they do not fit, then some number
has gone beyond the greatest `int` in this request, and what was stored is not the sum
(`Sound.fit`).

Nothing in the rules looks at scores or kills.  Which commands go through is decided by who is there
and by the health, and a tally has the hits, so the tallies know which requests count without
looking at the server (`Agrees.tally_of_refusal`).  This is why the condition can be put in terms of
the requests alone.

For whole runs the worlds on the way are listed, and the equivalence is one between all of them and
all tallies on the way: the first request at which the tallies stop fitting is the first that is
unsound.
-/

namespace MultiPlayerGame

open Bytes (ascii)
open RequestHandler
open Program (Runs Served ServedThrough Turn)

namespace Scores

/-! ## The game with unbounded integers -/

/-- A player, counted without bounds.  It follows from the requests alone, and the server has
nothing like it. -/
structure Tally where
  hits : Nat := 0
  score : Nat := 0
  kills : Nat := 0
  deriving DecidableEq

/-- The tallies of the players who are in the game. -/
abbrev Tallies := Int32 → Option Tally

/-- What a hit is worth. -/
def award (lethal : Bool) : Nat := if lethal then 100 else 10

/-- The fourth hit is lethal. -/
def Tally.lastHit (target : Tally) : Bool := target.hits = 3

def Tally.rewarded (attacker target : Tally) : Tally :=
  { attacker with
    score := attacker.score + award target.lastHit
    kills := attacker.kills + if target.lastHit then 1 else 0 }

def Tally.struck (target : Tally) : Option Tally :=
  if target.lastHit then none else some { target with hits := target.hits + 1 }

end Scores

open Scores in
/-- What a command does to the tallies; nothing if the rules refuse it. -/
def Command.tally (t : Tallies) : Command → Tallies
  | join playerId =>
    match t playerId with
    | none => Function.update t playerId (some {})
    | some _ => t
  | attack playerId targetId =>
    if playerId = targetId then t
    else match t playerId, t targetId with
      | some attacker, some target =>
        Function.update (Function.update t playerId (some (attacker.rewarded target))) targetId
          target.struck
      | _, _ => t
  | updateScore playerId score =>
    match t playerId with
    | none => t
    | some s => Function.update t playerId (some { s with score := score.toInt.toNat })
  | leave playerId => Function.update t playerId none
  | move .. => t
  | chat .. => t

open Scores in
def Request.tally (t : Tallies) : Request → Tallies
  | command c => c.tally t
  | _ => t

namespace Scores

/-- The tallies after some requests to a server that has just been started. -/
def tallies (requests : List Bytes) : Tallies :=
  requests.foldl (fun t rawJson => (Request.decode rawJson).tally t) fun _ => none

theorem tallies_concat (requests : List Bytes) (rawJson : Bytes) :
    tallies (requests ++ [rawJson]) = (Request.decode rawJson).tally (tallies requests) := by
  rw [tallies, List.foldl_append]
  rfl

/-- Every tally is one that an `int` holds.  What is then stored is exactly the tally. -/
def Fit (t : Tallies) : Prop :=
  ∀ p s, t p = some s → s.score ≤ 2 ^ 31 - 1 ∧ s.kills ≤ 2 ^ 31 - 1

theorem Fit.update {t : Tallies} (h : Fit t) (p : Int32) {o : Option Tally}
    (ho : ∀ s, o = some s → s.score ≤ 2 ^ 31 - 1 ∧ s.kills ≤ 2 ^ 31 - 1) :
    Fit (Function.update t p o) := by
  intro q s hs
  by_cases hq : q = p
  · subst hq
    rw [Function.update_self] at hs
    exact ho s hs
  · rw [Function.update_of_ne hq] at hs
    exact h q s hs

/-! ### Runs without `UPDATE_SCORE`

A hit is worth 100 at most, so it takes many requests to drive a tally beyond the greatest `int`,
unless the score is set. -/

/-- The request sets a score. -/
def Sets : Request → Bool
  | .command (.updateScore ..) => true
  | _ => false

/-- Nobody has more than `n` kills and what `n` hits can be worth. -/
def Within (n : ℕ) (t : Tallies) : Prop := ∀ p s, t p = some s → s.score ≤ 100 * n ∧ s.kills ≤ n

theorem Within.mono {n : ℕ} {t : Tallies} (h : Within n t) : Within (n + 1) t := fun p s hs => by
  have := h p s hs
  omega

theorem Within.update {n : ℕ} {t : Tallies} (h : Within n t) (p : Int32) {o : Option Tally}
    (ho : ∀ s, o = some s → s.score ≤ 100 * n ∧ s.kills ≤ n) :
    Within n (Function.update t p o) := by
  intro q s hs
  by_cases hq : q = p
  · subst hq
    rw [Function.update_self] at hs
    exact ho s hs
  · rw [Function.update_of_ne hq] at hs
    exact h q s hs

theorem Within.tally {n : ℕ} {t : Tallies} (h : Within n t) {q : Request} (hq : Sets q = false) :
    Within (n + 1) (q.tally t) := by
  have haward : ∀ lethal, award lethal ≤ 100 ∧ (if lethal then 1 else 0) ≤ 1 := by decide
  cases q with
  | command c =>
    cases c with
    | join p =>
      rw [Request.tally, Command.tally]
      split
      · exact h.mono.update p fun s hs => by
          cases hs
          exact ⟨Nat.zero_le _, Nat.zero_le _⟩
      · exact h.mono
    | attack p target =>
      rw [Request.tally, Command.tally]
      split
      · exact h.mono
      split
      · rename_i a b ha hb
        have hattacker := h p a ha
        have hworth := haward b.lastHit
        refine (h.mono.update p fun s hs => ?_).update target fun s hs => ?_
        · cases hs
          simp only [Tally.rewarded]
          omega
        · unfold Tally.struck at hs
          split at hs
          · cases hs
          · cases hs
            exact h.mono target b hb
      · exact h.mono
    | updateScore => cases hq
    | leave p => exact h.mono.update p fun s hs => by cases hs
    | move => exact h.mono
    | chat => exact h.mono
  | _ => exact h.mono

/-- **Short runs that set no score fit.**  By induction each request adds one hit at most, and `n`
hits are worth `100 * n` at most. -/
theorem fit_of_short {requests : List Bytes}
    (hsets : ∀ rawJson ∈ requests, Sets (Request.decode rawJson) = false)
    (hshort : 100 * requests.length ≤ 2 ^ 31 - 1) : Fit (tallies requests) := by
  have hwithin : Within requests.length (tallies requests) := by
    clear hshort
    induction requests using List.reverseRecOn with
    | nil => exact fun p s hs => by cases hs
    | append_singleton requests rawJson ih =>
      obtain ⟨hrequests, hlast⟩ := List.forall_mem_append.mp hsets
      rw [tallies_concat, List.length_append, List.length_singleton]
      exact (ih hrequests).tally (hlast rawJson (List.mem_singleton_self _))
  intro p s hs
  have := hwithin p s hs
  omega

/-! ## The stored numbers are the tallies modulo `2 ^ 32` -/

/-- A standing shows a tally. -/
structure Shows (t : Tally) (s : Standing) : Prop where
  hits_le : t.hits ≤ 3
  health : s.health = Int32.ofInt (100 - 25 * t.hits)
  score : s.score = Int32.ofInt t.score
  kills : s.kills = Int32.ofInt t.kills

/-- The players in the arena are those with a tally, and show it. -/
def Agrees (t : Tallies) (a : Arena) : Prop := ∀ p, Option.Rel Shows (t p) (a.player p)

theorem Agrees.some_of_player {t : Tallies} {a : Arena} (h : Agrees t a) {p : Int32} {s : Standing}
    (hs : a.player p = some s) : ∃ n, t p = some n ∧ Shows n s := by
  have hp := h p
  rw [hs] at hp
  cases hn : t p with
  | none =>
    rw [hn] at hp
    cases hp
  | some n =>
    rw [hn] at hp
    cases hp with
    | some hshows => exact ⟨n, rfl, hshows⟩

theorem Agrees.none_of_player {t : Tallies} {a : Arena} (h : Agrees t a) {p : Int32}
    (hs : a.player p = none) : t p = none := by
  have hp := h p
  rw [hs] at hp
  cases hn : t p with
  | none => rfl
  | some n =>
    rw [hn] at hp
    cases hp

theorem rel_update {t : Tallies} {player : Int32 → Option Standing}
    (h : ∀ p, Option.Rel Shows (t p) (player p)) (p : Int32) {o : Option Tally}
    {o' : Option Standing} (ho : Option.Rel Shows o o') (q : Int32) :
    Option.Rel Shows (Function.update t p o q) (Function.update player p o' q) := by
  by_cases hq : q = p
  · subst hq
    rw [Function.update_self, Function.update_self]
    exact ho
  · rw [Function.update_of_ne hq, Function.update_of_ne hq]
    exact h q

theorem Shows.lethal {t : Tally} {s : Standing} (h : Shows t s) :
    Arena.Lethal s ↔ t.lastHit = true := by
  rw [Ledger.lethal_iff h.hits_le h.health, Tally.lastHit, decide_eq_true_iff]

theorem Shows.rewarded {t t' : Tally} {s s' : Standing} (h : Shows t s) (h' : Shows t' s') :
    Shows (t.rewarded t') (Arena.rewarded s s') := by
  refine ⟨h.hits_le, h.health, ?_, ?_⟩
  · have hscore := h.score
    by_cases hlethal : Arena.Lethal s'
    · simp [Arena.rewarded, Tally.rewarded, award, hlethal, h'.lethal.mp hlethal, hscore,
        Int32.ofInt_add]
    · have hno : t'.lastHit = false := by simpa using h'.lethal.not.mp hlethal
      simp [Arena.rewarded, Tally.rewarded, award, hlethal, hno, hscore, Int32.ofInt_add]
  · have hkills := h.kills
    by_cases hlethal : Arena.Lethal s'
    · simp [Arena.rewarded, Tally.rewarded, hlethal, h'.lethal.mp hlethal, hkills,
        Int32.ofInt_add]
    · have hno : t'.lastHit = false := by simpa using h'.lethal.not.mp hlethal
      simp [Arena.rewarded, Tally.rewarded, hlethal, hno, hkills]

theorem Shows.struck {t : Tally} {s : Standing} (h : Shows t s) :
    Option.Rel Shows t.struck (Arena.struck s) := by
  by_cases hlethal : Arena.Lethal s
  · rw [Arena.struck, if_pos hlethal, Tally.struck, if_pos (h.lethal.mp hlethal)]
    exact .none
  · have hno := h.lethal.not.mp hlethal
    have hne : t.hits ≠ 3 := by simpa [Tally.lastHit] using hno
    have hle := h.hits_le
    rw [Arena.struck, if_neg hlethal, Tally.struck, if_neg hno]
    exact .some ⟨by simp only; omega, Ledger.healthAfter_eq (by omega) h.health, h.score, h.kills⟩

theorem Shows.initial : Shows {} .initial := by
  constructor <;> simp [Standing.initial]

theorem Int32.ofInt_toNat {n : Int32} (hn : ¬ n < 0) : Int32.ofInt n.toInt.toNat = n := by
  rw [Int32.lt_iff_toInt_lt] at hn
  have hzero : (0 : Int32).toInt = 0 := rfl
  rw [Int.toNat_of_nonneg (by omega), Int32.ofInt_toInt]

/-- **A command that the rules allow does to the arena what it does to the tallies.** -/
theorem Agrees.of_rule {t : Tallies} {a a' : Arena} {c : Command} {out : Bytes × Json}
    (h : Agrees t a) (hset : ∀ p n, c = .updateScore p n → ¬ n < 0)
    (h' : c.rule a = .ok (out, a')) : Agrees (c.tally t) a' := by
  cases Command.carriedOut_of_rule h' with
  | join playerId absent =>
    rw [Command.tally, h.none_of_player absent]
    exact rel_update h playerId (.some Shows.initial)
  | move playerId x y s present =>
    obtain ⟨n, hn, hshows⟩ := h.some_of_player present
    have hself : Function.update t playerId (some n) = t :=
      hn ▸ Function.update_eq_self playerId t
    rw [Command.tally, ← hself]
    exact rel_update h playerId
      (.some ⟨hshows.hits_le, hshows.health, hshows.score, hshows.kills⟩)
  | attack playerId targetId attacker target ne present targetPresent =>
    obtain ⟨n, hn, hshows⟩ := h.some_of_player present
    obtain ⟨m, hm, hshows'⟩ := h.some_of_player targetPresent
    rw [Command.tally, if_neg ne, hn, hm]
    exact rel_update (rel_update h playerId (.some (hshows.rewarded hshows'))) targetId
      hshows'.struck
  | chat playerId message _ => exact h
  | updateScore playerId score s present =>
    obtain ⟨n, hn, hshows⟩ := h.some_of_player present
    rw [Command.tally, hn]
    refine rel_update h playerId (.some ⟨hshows.hits_le, hshows.health, ?_, hshows.kills⟩)
    exact (Int32.ofInt_toNat (hset playerId score rfl)).symm
  | leave playerId s _ =>
    rw [Command.tally]
    unfold Arena.finishIfEmpty
    split
    · exact rel_update h playerId .none
    · exact rel_update h playerId .none

/-- **A command that the rules refuse does nothing to the tallies.**  The tallies know who is there
and who has been hit how often, and that is all the rules look at. -/
theorem Agrees.tally_of_refusal {t : Tallies} {a : Arena} {c : Command} {err : Bytes}
    (h : Agrees t a) (hrule : c.rule a = .error err) : c.tally t = t := by
  have hnone : ∀ p, a.player p = none → t p = none := fun p => h.none_of_player
  cases c with
  | join playerId =>
    rw [Command.tally]
    split
    · rename_i hplayer
      have hp := h playerId
      rw [hplayer] at hp
      cases hs : a.player playerId with
      | none => simp [Command.rule, Arena.addPlayer, hs, Except.map] at hrule
      | some s =>
        rw [hs] at hp
        cases hp
    · rfl
  | move playerId x y => rfl
  | attack playerId targetId =>
    rw [Command.tally]
    split
    · rfl
    rename_i hne
    cases hattacker : a.player playerId with
    | none => rw [hnone playerId hattacker]
    | some attacker =>
      cases htarget : a.player targetId with
      | none =>
        rw [hnone targetId htarget]
        cases t playerId <;> rfl
      | some target =>
        simp [Command.rule, Arena.attackPlayer, hne, hattacker, htarget, Except.map] at hrule
  | chat playerId message => rfl
  | updateScore playerId score =>
    cases hs : a.player playerId with
    | none => rw [Command.tally, hnone playerId hs]
    | some s =>
      simp [Command.rule, Arena.setScore, Arena.modifyPlayer, hs, Except.map] at hrule
  | leave playerId =>
    cases hs : a.player playerId with
    | none =>
      rw [Command.tally, ← hnone playerId hs, Function.update_eq_self]
    | some s => simp [Command.rule, Arena.removePlayer, hs, Except.map] at hrule

section Run

variable {cfg : Config} {fp : Doubles} {w₀ w w' : World} {history : List (Bytes × Json)}

/-- **One request.**  It does the same to both, or nothing to either. -/
theorem Agrees.reply {t : Tallies} {rawJson : Bytes} {r : Json} (h : Agrees t w.game.arena)
    (hlast : Runs (Call.exec fp) (RequestHandler.reply cfg fp rawJson) w r w') :
    Agrees ((Request.decode rawJson).tally t) w'.game.arena := by
  have hlast' : Runs (Call.execVia fp id) (RequestHandler.reply cfg fp rawJson) w r w' := hlast
  have hresponds := (reply_responds hlast').1
  have hset : ∀ p n, Request.decode rawJson = .command (.updateScore p n) → ¬ n < 0 :=
    fun p n => Request.nonneg_of_decode
  generalize Request.decode rawJson = q at hresponds hset ⊢
  generalize hg : w.game = g at hresponds h
  generalize w'.game = g' at hresponds ⊢
  cases hresponds with
  | rejected c now _ err happly =>
    have hrule := c.arena_apply now g
    rw [happly] at hrule
    rw [Request.tally, h.tally_of_refusal hrule.symm]
    exact h
  | done c now _ g₁ data r timestamp happly =>
    have hrule := c.arena_apply now g
    rw [happly] at hrule
    exact h.of_rule (fun p n hc => hset p n (congrArg Request.command hc)) hrule.symm
  | _ => exact h

theorem agrees_fresh (hfresh : w.Fresh) : Agrees (tallies []) w.game.arena := by
  intro p
  rw [hfresh.player]
  exact .none

/-- **The stored numbers agree with the tallies in every run.**  By induction, and whether or not
anything has overflown on the way. -/
theorem agrees_of_served (hfresh : w₀.Fresh)
    (h : Served (RequestHandler.reply cfg fp) (Call.exec fp) w₀ history w) :
    Agrees (tallies (history.map Prod.fst)) w.game.arena := by
  induction h with
  | nil => exact agrees_fresh hfresh
  | snoc before last ih =>
    rw [List.map_append]
    exact (congrArg (Agrees · _) (tallies_concat _ _)).mpr (ih.reply last)

end Run

/-! ## What should hold of one request -/

/-- The request is an attack that goes through. -/
structure Attacks (rawJson : Bytes) (g : GameState) (p q : Int32) (attacker target : PlayerState) :
    Prop where
  decode : Request.decode rawJson = .command (.attack p q)
  ne : p ≠ q
  attacker : g.players.lookup p = some attacker
  target : g.players.lookup q = some target

/-- What `attackPlayer` adds to the score. -/
def added (target : PlayerState) : Int32 := if Arena.Lethal target.standing then 100 else 10

/-- The scores in a response: that of a player who has joined, whose score has been set or who has
left, that of an attacker, and those of the players in a snapshot. -/
def scoresIn (response : Json) : List Json :=
  (["score", "attacker_score", "final_score"].filterMap fun key => response.field? (ascii key)) ++
    match response.field? (ascii "players") with
    | some (.array players) => players.filterMap (Json.field? (ascii "score"))
    | _ => []

/-- **Nothing overflows, no score is negative, and a successful attack raises the score.**  The sums
are compared with those of unbounded integers, before and after the request. -/
structure Sound (w : World) (rawJson : Bytes) (r : Json) (w' : World) : Prop where
  score_exact : ∀ p q attacker target, Attacks rawJson w.game p q attacker target →
    (attacker.score + added target).toInt = attacker.score.toInt + (added target).toInt
  kills_exact : ∀ p q attacker target, Attacks rawJson w.game p q attacker target →
    Arena.Lethal target.standing → (attacker.kills + 1).toInt = attacker.kills.toInt + 1
  stored : ∀ p st, w'.game.players.lookup p = some st → 0 ≤ st.score.toInt
  returned : ∀ v ∈ scoresIn r, ∃ n, v = .integer n ∧ 0 ≤ n
  rises : ∀ p q attacker target, Attacks rawJson w.game p q attacker target →
    ∃ st, w'.game.players.lookup p = some st ∧ attacker.score < st.score

section Step

variable {t : Tallies} {g : GameState} {rawJson : Bytes} {p q : Int32}
  {attacker target st : PlayerState}

theorem Agrees.of_lookup (h : Agrees t g.arena) (hst : g.players.lookup p = some st) :
    ∃ n, t p = some n ∧ Shows n st.standing :=
  h.some_of_player (by rw [GameState.arena_player, hst]; rfl)

theorem Agrees.lookup_of_some {n : Tally} (h : Agrees t g.arena) (hn : t p = some n) :
    ∃ st, g.players.lookup p = some st ∧ Shows n st.standing := by
  have hp := h p
  rw [hn, GameState.arena_player] at hp
  cases hst : g.players.lookup p with
  | none =>
    rw [hst] at hp
    cases hp
  | some st =>
    rw [hst] at hp
    cases hp with
    | some hshows => exact ⟨st, rfl, hshows⟩

theorem Shows.toInt_score {n : Tally} (h : Shows n st.standing) (hn : n.score ≤ 2 ^ 31 - 1) :
    st.score.toInt = n.score := by
  have hscore : st.score = Int32.ofInt n.score := h.score
  rw [hscore, Int32.toInt_ofInt_of_le (by omega) (by omega)]

theorem Shows.toInt_kills {n : Tally} (h : Shows n st.standing) (hn : n.kills ≤ 2 ^ 31 - 1) :
    st.kills.toInt = n.kills := by
  have hkills : st.kills = Int32.ofInt n.kills := h.kills
  rw [hkills, Int32.toInt_ofInt_of_le (by omega) (by omega)]

theorem Shows.toInt_added {n : Tally} (h : Shows n target.standing) :
    (added target).toInt = award n.lastHit := by
  by_cases hlethal : Arena.Lethal target.standing
  · rw [added, if_pos hlethal, h.lethal.mp hlethal]
    rfl
  · have hno : n.lastHit = false := by simpa using h.lethal.not.mp hlethal
    rw [added, if_neg hlethal, hno]
    rfl

/-- What an attack that goes through does to the tallies. -/
theorem Attacks.tally (h : Attacks rawJson g p q attacker target) (hagrees : Agrees t g.arena) :
    ∃ n m, t p = some n ∧ Shows n attacker.standing ∧ Shows m target.standing ∧
      (Request.decode rawJson).tally t =
        Function.update (Function.update t p (some (n.rewarded m))) q m.struck := by
  obtain ⟨n, hn, hshows⟩ := hagrees.of_lookup h.attacker
  obtain ⟨m, hm, hshows'⟩ := hagrees.of_lookup h.target
  refine ⟨n, m, hn, hshows, hshows', ?_⟩
  rw [h.decode, Request.tally, Command.tally, if_neg h.ne, hn, hm]

/-- Afterwards the attacker has what it earned. -/
theorem Attacks.rewarded (h : Attacks rawJson g p q attacker target) (hagrees : Agrees t g.arena)
    (hfit : Fit t) :
    ∃ n m, Shows n attacker.standing ∧ Shows m target.standing ∧
      attacker.score.toInt = n.score ∧ attacker.kills.toInt = n.kills ∧
      (Request.decode rawJson).tally t p = some (n.rewarded m) := by
  obtain ⟨n, m, hn, hshows, hshows', htally⟩ := h.tally hagrees
  obtain ⟨hscore, hkills⟩ := hfit p n hn
  refine ⟨n, m, hshows, hshows', hshows.toInt_score hscore, hshows.toInt_kills hkills, ?_⟩
  rw [htally, Function.update_of_ne h.ne, Function.update_self]

/-- A sum that fits is exact. -/
theorem toInt_add {a b : Int32} (ha : 0 ≤ a.toInt) (hb : 0 ≤ b.toInt) :
    (a + b).toInt = a.toInt + b.toInt ↔ a.toInt + b.toInt ≤ 2 ^ 31 - 1 := by
  constructor
  · intro h
    have hlt := Int32.toInt_lt (a + b)
    omega
  · intro h
    have hsum : a + b = Int32.ofInt (a.toInt + b.toInt) := by
      rw [Int32.ofInt_add, Int32.ofInt_toInt, Int32.ofInt_toInt]
    rw [hsum, Int32.toInt_ofInt_of_le (by omega) (by omega)]

/-! ### The tallies decide about overflows -/

variable {w w' : World} {r : Json} {cfg : Config} {fp : Doubles}

theorem Agrees.stored_nonneg (h : Agrees t g.arena) (hfit : Fit t)
    (hst : g.players.lookup p = some st) : 0 ≤ st.score.toInt := by
  obtain ⟨n, hn, hshows⟩ := h.of_lookup hst
  rw [hshows.toInt_score (hfit p n hn).1]
  omega

/-- **A request after which the tallies do not fit has overflown.**  If they fit before and not
after it, the sum that the server has stored is not the sum. -/
theorem Sound.fit (hsound : Sound w rawJson r w') (hagrees : Agrees t w.game.arena)
    (hfit : Fit t) : Fit ((Request.decode rawJson).tally t) := by
  generalize hq : Request.decode rawJson = request
  cases request with
  | command c =>
    cases c with
    | join playerId =>
      rw [Request.tally, Command.tally]
      split
      · exact hfit.update playerId fun s hs => by cases hs; exact ⟨by decide, by decide⟩
      · exact hfit
    | attack p q =>
      rw [Request.tally, Command.tally]
      split
      · exact hfit
      rename_i hne
      split
      · rename_i n m hn hm
        obtain ⟨attacker, hattacker, hshows⟩ := hagrees.lookup_of_some hn
        obtain ⟨target, htarget, hshows'⟩ := hagrees.lookup_of_some hm
        have hattacks : Attacks rawJson w.game p q attacker target := ⟨hq, hne, hattacker, htarget⟩
        obtain ⟨hscore, hkills⟩ := hfit p n hn
        have hadd := hsound.score_exact p q attacker target hattacks
        rw [hshows.toInt_score hscore, hshows'.toInt_added] at hadd
        have hlt := Int32.toInt_lt (attacker.score + added target)
        refine Fit.update (hfit.update p fun s hs => ?_) q fun s hs => ?_
        · cases hs
          refine ⟨by simp only [Tally.rewarded]; omega, ?_⟩
          cases hlast : m.lastHit with
          | false => simpa [Tally.rewarded, hlast] using hkills
          | true =>
            have hinc := hsound.kills_exact p q attacker target hattacks
              (hshows'.lethal.mpr hlast)
            rw [hshows.toInt_kills hkills] at hinc
            have hlt' := Int32.toInt_lt (attacker.kills + 1)
            simp only [Tally.rewarded, hlast, if_true]
            omega
        · unfold Tally.struck at hs
          split at hs
          · cases hs
          · cases hs
            exact hfit q m hm
      · exact hfit
    | updateScore playerId score =>
      rw [Request.tally, Command.tally]
      split
      · exact hfit
      · rename_i n hn
        refine hfit.update playerId fun s hs => ?_
        cases hs
        have hlt := Int32.toInt_lt score
        exact ⟨by simp only; omega, (hfit playerId n hn).2⟩
    | leave playerId => exact hfit.update playerId fun s hs => by cases hs
    | move => exact hfit
    | chat => exact hfit
  | _ => exact hfit

/-! ### The scores in a response -/

theorem scoresIn_errorResponse (message : Bytes) : scoresIn (errorResponse message) = [] := by
  simp +decide [scoresIn, errorResponse]

theorem field?_succeed (action : String) (fields : List (String × Json)) {k : Bytes}
    (hstatus : k ≠ ascii "status") (haction : k ≠ ascii "action") :
    (succeed action (Json.obj fields)).field? k = (Json.obj fields).field? k := by
  have hset := Json.field?_set_obj (ascii "status") (.string (ascii "ok")) fields k
  rw [if_neg hstatus] at hset
  rw [← hset]
  exact (Json.findField_setField _ _ _ k).trans (if_neg haction)

theorem scoresIn_succeed (action : String) (fields : List (String × Json)) :
    scoresIn (succeed action (Json.obj fields)) = scoresIn (Json.obj fields) := by
  have hfield : ∀ key : String, ascii key ≠ ascii "status" → ascii key ≠ ascii "action" →
      (succeed action (Json.obj fields)).field? (ascii key) =
        (Json.obj fields).field? (ascii key) := fun key => field?_succeed action fields
  simp only [scoresIn, List.filterMap_cons, List.filterMap_nil,
    hfield "score" (by decide) (by decide), hfield "attacker_score" (by decide) (by decide),
    hfield "final_score" (by decide) (by decide), hfield "players" (by decide) (by decide)]

theorem scoresIn_attackResponse (p q : Int32) (result : AttackResult) :
    scoresIn (attackResponse p q result) = [Json.int result.attackerScore] := by
  unfold attackResponse
  split
  · simp +decide [scoresIn, Json.field?_set_obj]
  · simp +decide [scoresIn]

/-- The scores in a snapshot are those of the players. -/
theorem mem_scoresIn_snapshot {now : Nat → Int} {v : Json}
    (hv : v ∈ scoresIn (succeed "GET_STATE" (g.snapshot fp now))) :
    ∃ p st, g.players.lookup p = some st ∧ v = Json.int st.score := by
  rw [GameState.snapshot, scoresIn_succeed] at hv
  simp +decide only [scoresIn, Json.field?_obj_cons, Json.field?_obj_nil, List.filterMap_cons,
    List.filterMap_nil, if_true, if_false, List.nil_append] at hv
  obtain ⟨player, hplayer, hscore⟩ := List.mem_filterMap.mp hv
  obtain ⟨i, hi, rfl⟩ := List.mem_mapIdx.mp hplayer
  refine ⟨g.players.entries[i].1, g.players.entries[i].2, ?_, ?_⟩
  · exact AList.mem_lookup_iff.mpr (List.getElem_mem hi)
  · simpa +decide [GameState.playerJson] using hscore.symm

/-- The score that `attackPlayer` reports is the one it stores. -/
theorem attackerScore_stored {result : AttackResult} {g' : GameState}
    (h : g.attackPlayer p q = .ok (result, g')) :
    ∃ st, g'.players.lookup p = some st ∧ st.score = result.attackerScore := by
  have hrule := GameState.arena_attackPlayer p q g
  rw [h] at hrule
  obtain ⟨attacker, target, hne, -, -, heq⟩ := Arena.attackPlayer_inv hrule.symm
  obtain ⟨hresult, harena⟩ := Prod.mk.inj heq
  have hplayer := congrFun (congrArg Arena.player harena) p
  simp only [id_eq, Function.update_of_ne hne, Function.update_self] at hresult hplayer
  obtain ⟨st, hst, hstanding⟩ := Option.map_eq_some_iff.mp hplayer
  refine ⟨st, hst, ?_⟩
  rw [hresult]
  exact congrArg Standing.score hstanding

/-- **If everything is right before and after a request, the scores in the response are right.** -/
theorem returned_nonneg {unreadable : Prop} {g' : GameState}
    (h : Responds fp unreadable (Request.decode rawJson) g r g')
    (hbefore : ∀ p st, g.players.lookup p = some st → 0 ≤ st.score.toInt)
    (hafter : ∀ p st, g'.players.lookup p = some st → 0 ≤ st.score.toInt) :
    ∀ v ∈ scoresIn r, ∃ n, v = .integer n ∧ 0 ≤ n := by
  have hset : ∀ p n, Request.decode rawJson = .command (.updateScore p n) → ¬ n < 0 :=
    fun p n => Request.nonneg_of_decode
  intro v hv
  generalize Request.decode rawJson = request at h hset
  cases h with
  | done c now _ g₁ data r timestamp happly =>
    cases c with
    | join playerId =>
      obtain ⟨g₂, -, heq⟩ := map_eq_ok happly
      cases heq
      rw [joinResponse] at hv
      simp +decide only [scoresIn, Json.field?_obj_cons, Json.field?_obj_nil, List.filterMap_cons,
        List.filterMap_nil, if_true, if_false, List.append_nil, List.mem_singleton] at hv
      exact ⟨_, hv, by decide⟩
    | move playerId x y =>
      obtain ⟨g₂, -, heq⟩ := map_eq_ok happly
      cases heq
      simp +decide [scoresIn, moveResponse] at hv
    | attack p q =>
      obtain ⟨⟨result, g₂⟩, hattack, heq⟩ := map_eq_ok happly
      cases heq
      obtain ⟨st, hst, hscore⟩ := attackerScore_stored hattack
      rw [scoresIn_attackResponse, List.mem_singleton, ← hscore] at hv
      exact ⟨_, hv, hafter p st hst⟩
    | chat playerId message =>
      rw [Command.apply] at happly
      split at happly
      · cases happly
        simp +decide [scoresIn, chatResponse] at hv
      · cases happly
    | updateScore playerId score =>
      obtain ⟨g₂, -, heq⟩ := map_eq_ok happly
      cases heq
      have hscore := hset playerId score rfl
      rw [Int32.lt_iff_toInt_lt] at hscore
      rw [updateScoreResponse] at hv
      simp +decide only [scoresIn, Json.field?_obj_cons, Json.field?_obj_nil, List.filterMap_cons,
        List.filterMap_nil, if_true, if_false, List.append_nil, List.mem_singleton] at hv
      exact ⟨_, hv, not_lt.mp hscore⟩
    | leave playerId =>
      obtain ⟨r, hremove, heq⟩ := map_eq_ok happly
      cases heq
      obtain ⟨st, hst, rfl⟩ := GameState.removePlayer_inv hremove
      rw [leaveResponse] at hv
      simp +decide only [scoresIn, Json.field?_obj_cons, Json.field?_obj_nil,
        List.filterMap_cons, List.filterMap_nil, if_true, if_false, List.append_nil,
        List.mem_singleton] at hv
      exact ⟨_, hv, hbefore playerId st hst⟩
  | state playerId now _ present =>
    obtain ⟨p, st, hst, rfl⟩ := mem_scoresIn_snapshot hv
    exact ⟨_, rfl, hbefore p st hst⟩
  | metrics m _ hexport =>
    obtain ⟨total, count, sum, activePlayers, successful, failed, hits, misses, operations, rfl⟩ :=
      hexport
    rw [MetricsRegistry.exported, scoresIn_succeed] at hv
    simp +decide [scoresIn] at hv
  | _ =>
    rw [scoresIn_errorResponse] at hv
    cases hv

/-! ### One request -/

/-- **A request after which the tallies fit has not overflown.**  The numbers that are stored are
the tallies then, and the tallies are never negative. -/
theorem sound_of_fit (hagrees : Agrees t w.game.arena) (hfit : Fit t)
    (hfit' : Fit ((Request.decode rawJson).tally t))
    (h : Runs (Call.exec fp) (reply cfg fp rawJson) w r w') : Sound w rawJson r w' := by
  have hagrees' := hagrees.reply h
  have hstored : ∀ p st, w'.game.players.lookup p = some st → 0 ≤ st.score.toInt :=
    fun p st => hagrees'.stored_nonneg hfit'
  have h' : Runs (Call.execVia fp id) (reply cfg fp rawJson) w r w' := h
  refine ⟨fun p q attacker target hattacks => ?_, fun p q attacker target hattacks hlethal => ?_,
    hstored, ?_, fun p q attacker target hattacks => ?_⟩
  · obtain ⟨n, m, hshows, hshows', hscore, -, hafter⟩ := hattacks.rewarded hagrees hfit
    have hle := (hfit' p _ hafter).1
    have hadded := hshows'.toInt_added
    simp only [Tally.rewarded] at hle
    exact (toInt_add (by omega) (by omega)).mpr (by omega)
  · obtain ⟨n, m, hshows, hshows', -, hkills, hafter⟩ := hattacks.rewarded hagrees hfit
    have hle := (hfit' p _ hafter).2
    have hone : (1 : Int32).toInt = 1 := rfl
    simp only [Tally.rewarded, hshows'.lethal.mp hlethal, if_true] at hle
    exact (toInt_add (by omega) (by omega)).mpr (by omega)
  · exact returned_nonneg (reply_responds h').1 (fun p st => hagrees.stored_nonneg hfit) hstored
  · obtain ⟨n, m, hshows, hshows', hscore, -, hafter⟩ := hattacks.rewarded hagrees hfit
    obtain ⟨st, hst, hshows''⟩ := hagrees'.lookup_of_some hafter
    refine ⟨st, hst, ?_⟩
    have hnow := hshows''.toInt_score (hfit' p _ hafter).1
    have hpos : 0 < award m.lastHit := by unfold award; split <;> omega
    simp only [Tally.rewarded] at hnow
    rw [Int32.lt_iff_toInt_lt]
    omega

end Step

/-! ## Whole runs -/

section Whole

variable {cfg : Config} {fp : Doubles} {w₀ w : World} {turns : List (Turn World Bytes Json)}

/-- The requests of a run, and the tallies after them. -/
theorem agrees_of_through (hfresh : w₀.Fresh)
    (h : ServedThrough (reply cfg fp) (Call.exec fp) w₀ turns w) :
    Agrees (tallies (turns.map Turn.request)) w.game.arena := by
  have hagrees := agrees_of_served hfresh h.served
  rwa [List.map_map] at hagrees

/-- **Nothing overflows in a run, no score is negative and every attack that goes through raises the
score of the attacker, if and only if the requests never drive a tally beyond the greatest
`int`.** -/
theorem sound_iff (hfresh : w₀.Fresh)
    (h : ServedThrough (reply cfg fp) (Call.exec fp) w₀ turns w) :
    (∀ e ∈ turns, Sound e.before e.request e.answer e.after) ↔
      ∀ past, past <+: turns.map Turn.request → Fit (tallies past) := by
  induction h with
  | nil =>
    refine iff_of_true (fun _ hno => by cases hno) fun past hpast => ?_
    rw [List.prefix_nil.mp hpast]
    exact fun p s hs => by cases hs
  | snoc before last ih =>
    rw [List.map_append, List.map_singleton, List.forall_mem_append, List.forall_mem_singleton, ih]
    have hagrees := agrees_of_through hfresh before
    constructor
    · rintro ⟨hfit, hsound⟩ past hpast
      rcases List.prefix_concat_iff.mp hpast with rfl | hpast
      · refine (congrArg Fit (tallies_concat _ _)).mpr ?_
        exact hsound.fit hagrees (hfit _ List.prefix_rfl)
      · exact hfit past hpast
    · intro hfit
      refine ⟨fun past hpast => hfit past (hpast.trans (List.prefix_append _ _)), ?_⟩
      refine sound_of_fit hagrees (hfit _ (List.prefix_append _ _)) ?_ last
      rw [← tallies_concat]
      exact hfit _ List.prefix_rfl

/-- Two players join, and one eliminates the other. -/
def duel : List Bytes :=
  [joinZero, Skirmish.joinOne] ++ List.replicate 4 Skirmish.attackOne

/-- Nothing overflows in the duel. -/
theorem sound_iff_duel : ∃ turns w, turns.map Turn.request = duel ∧
    ServedThrough (reply ⟨false, false⟩ .zero) (Call.exec .zero) .started turns w ∧
    w.game.totalKills = 1 ∧ ∀ e ∈ turns, Sound e.before e.request e.answer e.after := by
  have h := Program.servedThrough_serve (reply ⟨false, false⟩ .zero) (Call.exec .zero) {} duel
    .started
  have hrequests : (Program.serveThrough (reply ⟨false, false⟩ .zero)
    (fun c => Call.exec .zero c {})
      duel .started).map Turn.request = duel := by decide +kernel
  have hsets : ∀ rawJson ∈ duel, Sets (Request.decode rawJson) = false := by decide +kernel
  refine ⟨_, _, hrequests, h, by decide +kernel, (sound_iff World.started_fresh h).mpr ?_⟩
  rw [hrequests]
  intro past hpast
  have hlength : past.length ≤ 6 := hpast.length_le
  exact fit_of_short (fun rawJson hmem => hsets rawJson (hpast.subset hmem)) (by omega)

end Whole

/-! ## A score that overflows -/

namespace Overflow

/-- The greatest score that `UPDATE_SCORE` takes. -/
def setGreatest : Bytes :=
  ascii "\x7b\"action\":\"UPDATE_SCORE\",\"player_id\":0,\"score\":2147483647\x7d"

def requests : List Bytes := [joinZero, Skirmish.joinOne, setGreatest, Skirmish.attackOne]

/-- What becomes of the requests. -/
def turns : List (Turn World Bytes Json) :=
  Program.serveThrough (reply ⟨false, false⟩ .zero) (fun c => Call.exec .zero c {}) requests
    .started

/-- The world afterwards. -/
def after : World :=
  (Program.serve (reply ⟨false, false⟩ .zero) (fun c => Call.exec .zero c {}) requests .started).2

/-- The score of player 0 afterwards. -/
def finalScore : Option Int := (after.game.players.lookup 0).map fun st => st.score.toInt

end Overflow

/-- **One hit after the greatest score was set, the score is negative.**  `UPDATE_SCORE` takes the
greatest `int`, and the hit adds 10 to it. -/
theorem exists_overflow : Overflow.finalScore = some (-2147483639) ∧ ∃ turns w,
    turns.map Turn.request = Overflow.requests ∧
    ServedThrough (reply ⟨false, false⟩ .zero) (Call.exec .zero) .started turns w ∧
    ¬ ∀ e ∈ turns, Sound e.before e.request e.answer e.after := by
  have hfinal : Overflow.finalScore = some (-2147483639) := by decide +kernel
  have h : ServedThrough (reply ⟨false, false⟩ .zero) (Call.exec .zero) .started Overflow.turns
      Overflow.after := Program.servedThrough_serve _ (Call.exec .zero) {} _ _
  refine ⟨hfinal, _, _, by decide +kernel, h, fun hsound => ?_⟩
  obtain ⟨st, hst, hscore⟩ := Option.map_eq_some_iff.mp hfinal
  have hnonneg := h.invariant
    (I := fun w => ∀ p st, w.game.players.lookup p = some st → 0 ≤ st.score.toInt)
    (fun _ _ _ _ _ _ hsound => hsound.stored) (fun p st hst => by cases hst) hsound
  have hno := hnonneg 0 st hst
  omega

end Scores
end MultiPlayerGame
