import MultiPlayerGame.Results.Reports
import MultiPlayerGame.Results.Elimination

/-!
# When the cache agrees with the game

`JOIN`, `MOVE` and `LEAVE` change the game in one step and write to Redis in later ones, without a
lock in between.  So two commands for one key may reach Redis in the other order than the game.
`cache_right` says that this is all that can go wrong: if the commands on each key are sent in the
order in which their handlers changed the game, then whenever nothing is in progress there is a
session for exactly the players in the game, and the position of each is the one in the game.
`exists_wrong` is a `JOIN` and a `LEAVE` of the same player that cross.

The handlers of all actions but `ATTACK` may run beside each other; an elimination leaves the
session behind even when nothing overlaps.

## Why it holds

To Redis the game says the same thing that it says to its own map, a little later.  What is
outstanding is a queue of reports, in the order of the steps on the game that they are about.
Reports about different keys commute, so only the order on each key matters, and that is what the
condition speaks about.  `Library.Arrears` gives the conclusion: the cache brought up to date with
what is outstanding agrees with the players, and when nothing is in progress nothing is outstanding.

A `MOVE` of a player who has left by the time its position is written leaves a position behind, and
the statement is only about the positions of players in the game, so that does no harm; a `LEAVE`
deletes the session and keeps the position.
-/

namespace MultiPlayerGame
namespace CacheOrder

open Bytes (ascii)
open RequestHandler
open Reports
open CacheManager (sessionKey positionKey)
open GameState (clamp mapMin mapMax)
open Elimination (toString_injective sessionKey_injective sessionKey_ne_positionKey)
open Interleaving (Reachable Paced)
open Linearizability (Deciding)

/-- An action with a request object, for any action but `ATTACK`. -/
abbrev Query := {q : Action × Json // q.1 ≠ .attack}

/-- The handler of a query. -/
def handle (cfg : Config) (fp : Doubles) (q : Query) : Handler (Except Unit Json) :=
  dispatch cfg fp q.1.2 q.1.1

abbrev State := Interleaving.Config Call Call.Ans Query (Except Unit Json) World

/-- The commands of such queries. -/
def NoAttack (c : Command) : Prop := c.action ≠ .attack

/-- **The cache agrees with the game.**  There is a session for exactly the players in the game, and
what is stored as the position of each of them is where it is. -/
def CacheRight (w : World) : Prop :=
  ∀ id, (sessionKey id ∈ w.keys ↔ id ∈ w.game.players) ∧
    ∀ st, w.game.players.lookup id = some st →
      w.keys.lookup (positionKey id) = some (position st.x st.y)

/-- Reports about one key.  Two sessions of one player, or two positions of one player; others can
be made in any order. -/
def SameKey : Debt → Debt → Prop
  | .session p _, .session q _ => p = q
  | .position p .., .position q .. => p = q
  | _, _ => False

/-! ## The cache as a reported state -/

/-- What Redis says about each player. -/
@[ext] structure Cache where
  session : Int32 → Prop
  place : Int32 → Option Bytes

def cacheOf (keys : KeyedMap Bytes Bytes) : Cache where
  session p := sessionKey p ∈ keys
  place p := keys.lookup (positionKey p)

/-- The cache after a report. -/
def Cache.post (v : Cache) : Debt → Cache
  | .session p present => { v with session := Function.update v.session p (present = true) }
  | .position p x y => { v with place := Function.update v.place p (some (position x y)) }
  | .event .. => v

/-- The cache agrees with a map of players.  This is what the reports that are outstanding have
still to bring about. -/
def UpToDate (players : KeyedMap Int32 PlayerState) (v : Cache) : Prop :=
  ∀ id, (v.session id ↔ id ∈ players) ∧
    ∀ st, players.lookup id = some st → v.place id = some (position st.x st.y)

theorem post_comm (a d : Debt) (v : Cache) (h : ¬ SameKey a d) :
    (v.post a).post d = (v.post d).post a := by
  cases a with
  | session p present =>
    cases d with
    | session q present' =>
      have hne : p ≠ q := h
      simp only [Cache.post]
      rw [Function.update_comm hne]
    | _ => rfl
  | position p x y =>
    cases d with
    | position q x' y' =>
      have hne : p ≠ q := h
      simp only [Cache.post]
      rw [Function.update_comm hne]
    | _ => rfl
  | event => rfl

theorem positionKey_injective : Function.Injective positionKey := fun _ _ h =>
  toString_injective (List.append_cancel_left h)

/-- **A report reaches the cache.**  What Redis holds afterwards is what the report says, and for
all other keys what it held before. -/
theorem cacheOf_tells {c : Call} {d : Debt} (h : Tells c d) (fp : Doubles) {e : Env}
    (hexecuted : e.executed = true) (w : World) :
    cacheOf (c.exec fp e w).2.keys = (cacheOf w.keys).post d ∧
      (c.exec fp e w).2.game.players = w.game.players := by
  have hredis : ∀ command, ((Call.redis command).exec fp e w).2.keys = command.apply w.keys :=
    fun command => by simp only [Call.exec, hexecuted, if_true]
  cases h with
  | joined p session expireSeconds =>
    rw [hredis]
    refine ⟨Cache.ext (funext fun q => ?_) (funext fun q => ?_), rfl⟩
    · simp only [cacheOf, Cache.post, RedisCommand.apply, Function.update_apply, AList.mem_insert,
        sessionKey_injective.eq_iff, eq_iff_iff]
      split <;> simp [*]
    · change (w.keys.insert (sessionKey p) session).lookup (positionKey q) = _
      rw [AList.lookup_insert_ne (sessionKey_ne_positionKey p q).symm]
      rfl
  | left p =>
    rw [hredis]
    refine ⟨Cache.ext (funext fun q => ?_) (funext fun q => ?_), rfl⟩
    · simp only [cacheOf, Cache.post, RedisCommand.apply, Function.update_apply, AList.mem_erase,
        sessionKey_injective.ne_iff, eq_iff_iff]
      split <;> simp [*]
    · exact AList.lookup_erase_ne (sessionKey_ne_positionKey p q).symm
  | position p x y expireSeconds =>
    rw [hredis]
    refine ⟨Cache.ext (funext fun q => ?_) (funext fun q => ?_), rfl⟩
    · simp only [cacheOf, Cache.post, RedisCommand.apply, AList.mem_insert, eq_iff_iff]
      exact or_iff_right (sessionKey_ne_positionKey q p)
    · simp only [cacheOf, Cache.post, RedisCommand.apply, Function.update_apply]
      by_cases hq : q = p
      · rw [hq, if_pos rfl]
        exact AList.lookup_insert _
      · rw [if_neg hq]
        exact AList.lookup_insert_ne (positionKey_injective.ne hq)
  | event ev => exact ⟨rfl, rfl⟩

/-! ## What the steps do to the cache and the players -/

theorem spares_of_idle {c : Call} (hc : Idle c) : c.Spares false true false := by
  cases c with
  | redis => exact hc.elim
  | _ => trivial

theorem spares_of_deciding {c : Call} (hc : Deciding c) : c.Spares false true false := by
  cases c with
  | addPlayer | removePlayer | movePlayer | attackPlayer | setScore | hasPlayer => trivial
  | _ => exact hc.elim

theorem keys_of_spares {c : Call} (hc : c.Spares false true false) (fp : Doubles) (e : Env)
    (w : World) : (c.exec fp e w).2.keys = w.keys :=
  (Call.exec_spares fp hc e w).2.1 rfl

theorem players_of_idle {c : Call} (hc : Idle c) (fp : Doubles) (e : Env) (w : World) :
    (c.exec fp e w).2.game.players = w.game.players := by
  cases c <;> first | rfl | exact hc.elim

/-- **A command that succeeds calls for the reports that bring the cache up to date.**  They are
made in the world as it is later, but what they write was fixed by the answer of the step. -/
theorem upToDate_command {cfg : Config} (hcache : cfg.cacheEnabled = true) {c : Command}
    (hc : NoAttack c) {players players' : KeyedMap Int32 PlayerState} {v : Cache} (data : Bytes)
    (hv : UpToDate players v) (h : c.Players players players') :
    UpToDate players' ((reported cfg c data).foldl Cache.post v) := by
  have hreported : (reported cfg c data).foldl Cache.post v = (cached c).foldl Cache.post v := by
    rw [reported, if_pos hcache, List.foldl_append]
    rfl
  rw [hreported]
  intro id
  obtain ⟨hsession, hposition⟩ := hv id
  cases c with
  | join p =>
    obtain ⟨-, joinedAt, rfl⟩ := h
    simp only [cached, List.foldl, Cache.post, Function.update_apply, AList.mem_insert]
    by_cases hid : id = p
    · subst hid
      refine ⟨by simp, fun st hst => ?_⟩
      rw [AList.lookup_insert] at hst
      cases hst
      rw [if_pos rfl]
    · rw [if_neg hid, if_neg hid, AList.lookup_insert_ne hid, or_iff_right hid]
      exact ⟨hsession, hposition⟩
  | move p x y =>
    obtain ⟨old, hold, rfl⟩ := h
    simp only [cached, List.foldl, Cache.post, Function.update_apply, AList.mem_replace]
    refine ⟨hsession, fun st hst => ?_⟩
    by_cases hid : id = p
    · subst hid
      rw [KeyedMap.lookup_replace (KeyedMap.mem_of_lookup hold)] at hst
      cases hst
      rw [if_pos rfl]
    · rw [KeyedMap.lookup_replace_ne hid] at hst
      rw [if_neg hid]
      exact hposition st hst
  | attack => exact absurd rfl hc
  | chat =>
    obtain ⟨-, rfl⟩ := h
    exact ⟨hsession, hposition⟩
  | updateScore p score =>
    obtain ⟨old, hold, rfl⟩ := h
    simp only [cached, List.foldl, AList.mem_replace]
    refine ⟨hsession, fun st hst => ?_⟩
    by_cases hid : id = p
    · -- the score is not in the cache
      subst hid
      rw [KeyedMap.lookup_replace (KeyedMap.mem_of_lookup hold)] at hst
      cases hst
      exact hposition old hold
    · rw [KeyedMap.lookup_replace_ne hid] at hst
      exact hposition st hst
  | leave p =>
    obtain ⟨old, hold, rfl⟩ := h
    simp only [cached, List.foldl, Cache.post, Function.update_apply, AList.mem_erase]
    by_cases hid : id = p
    · subst hid
      refine ⟨by simp, fun st hst => ?_⟩
      rw [AList.lookup_erase] at hst
      cases hst
    · rw [if_neg hid, AList.lookup_erase_ne hid]
      exact ⟨hsession.trans (and_iff_right hid).symm, hposition⟩

/-! ## The theorem -/

section Theorem

variable {ε : Type} {env : ε → Env} {cfg : Config} {fp : Doubles} {w₀ : World} {x : State}
  {owed : List (ℕ × Debt)}

theorem noAttack_of_query (q : Query) {c : Command}
    (h : Request.ofAction q.1.2 q.1.1 = .command c) : NoAttack c := by
  intro hattack
  rcases Request.action_ofAction q.1.2 q.1.1 with hno | hown
  · rw [h] at hno
    cases hno
  · rw [h] at hown
    exact q.2 ((Option.some.inj hown).symm.trans hattack)

theorem handle_acting (q : Query) : (accounts cfg NoAttack).Acting (handle cfg fp q) :=
  dispatch_acting cfg fp fun _ => noAttack_of_query q

/-- **The cache agrees with the game whenever nothing is in progress**, if the commands on each key
reach Redis in the order of the steps on the game that they are about. -/
theorem cache_right (hcache : cfg.cacheEnabled = true) (hexecuted : ∀ e, (env e).executed = true)
    (hstart : CacheRight w₀)
    (hx : Paced (accounts cfg NoAttack) SameKey (handle cfg fp) (Call.execVia fp env) w₀ x owed)
    (hquiet : x.Quiet) : CacheRight x.shared := by
  have hsettled := hx.settled (fun w : World => cacheOf w.keys) Cache.post
    (fun (w : World) v => UpToDate w.game.players v) hstart
    (fun c e w v hc hv => by
      have hkeys := keys_of_spares (spares_of_idle hc) fp (env e) w
      have hplayers := players_of_idle hc fp (env e) w
      exact ⟨congrArg cacheOf hkeys, by rw [Call.execVia, hplayers]; exact hv⟩)
    (fun c e w v ds hc hdebts hv => by
      have hkeys := keys_of_spares (spares_of_deciding hc) fp (env e) w
      refine ⟨congrArg cacheOf hkeys, ?_⟩
      rcases deciding_step cfg fp hdebts with ⟨rfl, hworld⟩ |
        ⟨command, data, response, g, hnoAttack, rfl, happly, hworld⟩
      · rw [Call.execVia, hworld]
        exact hv
      · rw [Call.execVia, hworld]
        exact upToDate_command hcache hnoAttack data hv (players_of_apply happly))
    (fun c e w v d hc hv => by
      obtain ⟨hcacheOf, hplayers⟩ := cacheOf_tells hc fp (hexecuted e) w
      exact ⟨hcacheOf, by rw [Call.execVia, hplayers]; exact hv⟩)
    post_comm
  rw [hx.eq_nil_of_quiet handle_acting hquiet] at hsettled
  exact hsettled

end Theorem

/-- A Redis that executes every command. -/
def working (_ : Unit) : Env := { executed := true }

/-- With the cache and without the database. -/
def redisOnly : Config := ⟨true, false⟩

/-- A request about player 1. -/
def one : Json := Json.obj [("player_id", Json.int 1)]

def join : Query := ⟨(.join, one), by decide⟩

def leave : Query := ⟨(.leave, one), by decide⟩

/-- A `JOIN` and a `LEAVE` of the same player overlap.  The session is written before it is deleted,
as the player came before it left; that the position is written last is no conflict. -/
theorem cache_right_overlapped : ∃ (x : State) (r r' : Except Unit Json),
    Paced (accounts redisOnly NoAttack) SameKey (handle redisOnly .zero)
      (Call.execVia .zero working) .started x [] ∧
    x.history = [.invoke 0 join, .invoke 1 leave, .respond 0 r, .respond 1 r'] ∧
    CacheRight x.shared := by
  have h₀ : Paced (accounts redisOnly NoAttack) SameKey (handle redisOnly .zero)
      (Call.execVia .zero working) .started (.start .started) [] := .start
  have h₁ := h₀.invoke 0 join (by simp [Interleaving.Config.start])
  have h₂ := h₁.invoke 1 leave (by simp [Interleaving.Config.start])
  have h₃ := h₂.act 0 (.addPlayer 1) _ () rfl trivial _
    (Debts.done (c := .join 1) (by simp [NoAttack, Command.action]) rfl) (by
      exact .skip trivial fun _ => .skip trivial fun _ => .skip trivial fun _ =>
        .report (.joined 1 _ 300) fun _ => .report (.position 1 500 500 60) fun _ =>
          .skip trivial fun _ => .skip trivial fun _ => .report (.event _) fun _ => .ret _)
  have h₄ := h₃.quiet 0 .activePlayerCount _ () rfl trivial
  have h₅ := h₄.quiet 0 (.setActivePlayers _) _ () rfl trivial
  have h₆ := h₅.quiet 0 .time _ () rfl trivial
  have h₇ := Paced.report_head 0 h₆ (.redis _) _ () rfl (.joined 1 _ 300)
  -- the session is in Redis and the position is not: now the player leaves
  have h₈ := h₇.act 1 (.removePlayer 1) _ () rfl trivial _
    (Debts.done (c := .leave 1) (by simp [NoAttack, Command.action]) rfl) (by
      exact .skip trivial fun _ => .skip trivial fun _ => .report (.left 1) fun _ =>
        .skip trivial fun _ => .skip trivial fun _ => .report (.event _) fun _ => .ret _)
  have h₉ := h₈.quiet 1 .activePlayerCount _ () rfl trivial
  have h₁₀ := h₉.quiet 1 (.setActivePlayers _) _ () rfl trivial
  have howed : Paced (accounts redisOnly NoAttack) SameKey (handle redisOnly .zero)
      (Call.execVia .zero working) .started _ ([(0, .position 1 500 500),
        (0, .event 1 (ascii "JOIN") (ascii "\x7b\x7d"))] ++ (1, .session 1 false) :: [(1, _)]) :=
    h₁₀
  have h₁₁ := howed.report 1 (.redis _) _ () rfl (.left 1) (by simp) (by simp [SameKey])
  have h₁₂ := Paced.report_head 0 h₁₁ (.redis _) _ () rfl (.position 1 500 500 60)
  have h₁₃ := h₁₂.quiet 0 .fetchAddEventId _ () rfl trivial
  have h₁₄ := h₁₃.quiet 0 .systemClock _ () rfl trivial
  have h₁₅ := Paced.report_head 0 h₁₄ (.pushEvent _) _ () rfl (.event _)
  have h₁₆ := h₁₅.respond 0 _ rfl
  have h₁₇ := h₁₆.runs handle_acting 1 (by simp) rfl (Program.runs_run _ () _ _)
  have h₁₈ := h₁₇.respond 1 _ rfl
  refine ⟨_, _, _, h₁₈, rfl, cache_right rfl (fun _ => rfl) (fun id => ?_) h₁₈ fun id => ?_⟩
  · exact ⟨by simp [World.started], fun st hst => by cases hst⟩
  · by_cases hzero : id = 0
    · simp [hzero]
    · by_cases hone : id = 1
      · simp [hone]
      · simp [hzero, hone, Interleaving.Config.start]

/-- **A `JOIN` and a `LEAVE` cross.**  The player joins and leaves; the session is deleted before it
is written. -/
theorem exists_wrong : ∃ x : State,
    Reachable (handle redisOnly .zero) (Call.execVia .zero working) .started x ∧ x.Quiet ∧
      ¬ CacheRight x.shared := by
  have h₀ : Reachable (handle redisOnly .zero) (Call.execVia .zero working) .started
      (.start .started) := .refl
  have h₁ := h₀.tail (.invoke _ 0 join (by simp [Interleaving.Config.start]))
  have h₂ := h₁.tail (.invoke _ 1 leave (by simp [Interleaving.Config.start]))
  have h₃ := h₂.tail (.call _ 0 (.addPlayer 1) _ () rfl)
  have h₄ := Reachable.runs h₃ 1 (p := handle redisOnly .zero leave) rfl (Program.runs_run _ () _ _)
  have h₅ := h₄.tail (.respond _ 1 _ rfl)
  have h₆ := Reachable.runs h₅ 0 rfl (Program.runs_run _ () _ _)
  have h₇ := h₆.tail (.respond _ 0 _ rfl)
  refine ⟨_, h₇, fun id => ?_, fun hright => ?_⟩
  · by_cases hzero : id = 0
    · simp [hzero]
    by_cases hone : id = 1
    · simp [hone]
    · simp [hzero, hone, Interleaving.Config.start]
  · have hsession := (hright 1).1
    exact absurd (hsession.mp (by decide)) (by decide)

end CacheOrder
end MultiPlayerGame
