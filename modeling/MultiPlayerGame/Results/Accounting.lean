import MultiPlayerGame.Library.Counting
import MultiPlayerGame.Server.Deeds

/-!
# Request accounting balances

Every call of `RequestHandler::handle` counts itself once among the requests, once as a success or
a failure, and once in the latency histogram, where it falls into all the buckets from some bound
on.  It does so whichever way it goes: `answer_eq` brings the three exits into one form, and what
the handlers do in between counts other things (`serve_uncounted`).

So the share of a call in the counters of the requests is balanced when it is over, and
`Interleaving.Reachable.shares` adds the shares up.

## Why it holds

The counters are added to and never set, so it does not matter in which order concurrent calls add
to them.  What a call adds depends only on itself.  `Adds` follows a single call through its steps
with what it has added so far as the state, and says two things about it: what may be said at any
moment (`Begun`) and what must be true at the end (`Balanced`).  In between the books do not
balance.  A call that has counted itself among the requests has no outcome yet, and in the middle of
the histogram it is in some buckets and not yet in the others.

`Balanced` is closed under addition (`Balanced.sum`), and with that the statement about one call
becomes one about all of them: when nobody is in the middle of anything, every share is final and
the counters are their sum.  The monotone buckets are the part that needs the histogram: a duration
that is within a bound is within all greater ones, so each call adds more to a bucket the further up
it is.
-/

namespace MultiPlayerGame
namespace Accounting

open RequestHandler
open Interleaving (Adds Shares Reachable sent)

/-! ## The counters of the requests -/

/-- What a step adds to the counters of the requests. -/
def adds : Call → Counter → ℕ
  | .fetchAdd c, k => if c = k ∧ c.OfRequests = true then 1 else 0
  | _, _ => 0

/-- The counters of the requests; the others are left out. -/
def counted (w : World) (k : Counter) : ℕ :=
  if k.OfRequests = true then w.metrics.counters k else 0

theorem adds_of_uncounted {c : Call} (hc : c.Uncounted) : adds c = 0 := by
  funext k
  cases c with
  | fetchAdd c => exact if_neg fun h => by rw [hc] at h; cases h.2
  | _ => rfl

theorem metrics_attempt {α : Type} (w : World) (r : Except Bytes (α × GameState)) :
    (w.attempt r).2.metrics = w.metrics := by
  cases r with
  | error err => rfl
  | ok r => rfl

theorem counted_fetchAdd (m : MetricsRegistry) (c k : Counter) :
    (m.fetchAdd c).counters k = m.counters k + if c = k then 1 else 0 := by
  by_cases hk : k = c
  · simp [MetricsRegistry.fetchAdd, hk]
  · simp [MetricsRegistry.fetchAdd, hk, Ne.symm hk]

/-- **A step adds to the counters what `adds` says.**  All other counters are left out of what is
compared. -/
theorem counted_exec (fp : Doubles) (c : Call) (e : Env) (w : World) :
    counted (c.exec fp e w).2 = counted w + adds c := by
  have hsame : ∀ w' : World, w'.metrics.counters = w.metrics.counters →
      counted w' = counted w + 0 :=
    fun w' h => by
      rw [add_zero]
      funext k
      rw [counted, counted, h]
  have hattempt {α : Type} (r : Except Bytes (α × GameState)) :
      (w.attempt r).2.metrics.counters = w.metrics.counters :=
    congrArg MetricsRegistry.counters (metrics_attempt w r)
  cases c with
  | fetchAdd c =>
    funext k
    have hcount := counted_fetchAdd w.metrics c k
    simp only [counted, Call.exec, adds, Pi.add_apply] at hcount ⊢
    by_cases hk : k.OfRequests = true
    · rw [if_pos hk, if_pos hk, hcount]
      by_cases hc : c = k
      · rw [if_pos hc, if_pos ⟨hc, hc ▸ hk⟩]
      · rw [if_neg hc, if_neg fun h => hc h.1]
    · have hc : ¬ (c = k ∧ c.OfRequests = true) := fun h => hk (h.1 ▸ h.2)
      rw [if_neg hk, if_neg hk, if_neg hc]
  | addPlayer | movePlayer | setScore => exact hsame _ (hattempt _)
  | removePlayer | attackPlayer => exact hsame _ (hattempt _)
  | _ => exact hsame _ rfl

/-! ## Books that balance -/

/-- What the counters say after `N` requests. -/
structure Balanced (N : ℕ) (n : Counter → ℕ) : Prop where
  total : n .requestsTotal = N
  outcomes : n .successfulRequests + n .failedRequests = N
  count : n .latencyCount = N
  inf : n (.latencyBucketCounts 13) = N
  mono : ∀ i j : Fin 14, i ≤ j → n (.latencyBucketCounts i) ≤ n (.latencyBucketCounts j)

theorem Balanced.zero : Balanced 0 0 :=
  ⟨rfl, rfl, rfl, rfl, fun _ _ _ => le_rfl⟩

theorem Balanced.add {N M : ℕ} {n m : Counter → ℕ} (hn : Balanced N n) (hm : Balanced M m) :
    Balanced (N + M) (n + m) where
  total := congrArg₂ (· + ·) hn.total hm.total
  outcomes := by
    have hsum := congrArg₂ (· + ·) hn.outcomes hm.outcomes
    simp only [Pi.add_apply]
    omega
  count := congrArg₂ (· + ·) hn.count hm.count
  inf := congrArg₂ (· + ·) hn.inf hm.inf
  mono := fun i j hij => Nat.add_le_add (hn.mono i j hij) (hm.mono i j hij)

/-- The books of some requests are the sum of the books of each. -/
theorem Balanced.sum {ids : Finset ℕ} {share : ℕ → Counter → ℕ}
    (h : ∀ id ∈ ids, Balanced 1 (share id)) : Balanced ids.card (∑ id ∈ ids, share id) := by
  induction ids using Finset.induction_on with
  | empty => exact Balanced.zero
  | insert id ids hid ih =>
    rw [Finset.sum_insert hid, Finset.card_insert_of_notMem hid, Nat.add_comm]
    exact (h id (Finset.mem_insert_self id ids)).add
      (ih fun i hi => h i (Finset.mem_insert_of_mem hi))

/-- What holds of the share of a request at every moment. -/
structure Begun (n : Counter → ℕ) : Prop where
  outcomes_le : n .successfulRequests + n .failedRequests ≤ 1
  bucket_le : ∀ i, n (.latencyBucketCounts i) ≤ 1
  inf_le : n (.latencyBucketCounts 13) ≤ n .latencyCount

theorem Begun.zero : Begun 0 :=
  ⟨Nat.zero_le _, fun _ => Nat.zero_le _, le_rfl⟩

/-- The share of a request that has its response, but whose latency has not been recorded yet. -/
structure Answered (n : Counter → ℕ) : Prop where
  total : n .requestsTotal = 1
  outcomes : n .successfulRequests + n .failedRequests = 1
  count : n .latencyCount = 0
  bucket : ∀ i, n (.latencyBucketCounts i) = 0

theorem Answered.begun {n : Counter → ℕ} (h : Answered n) : Begun n :=
  ⟨h.outcomes.le, fun i => (h.bucket i).le.trans (Nat.zero_le 1), (h.bucket 13).le.trans
    (Nat.zero_le _)⟩

/-! ## The share of one request -/

theorem handler_uncounted (cfg : Config) (c : Command) :
    (c.handler cfg).Calls Call.Uncounted := by
  refine ⟨?_, fun x => ?_⟩
  · cases c <;> trivial
  · change (c.finish cfg x (c.outcome x)).Calls Call.Uncounted
    cases c.outcome x with
    | error err => trivial
    | ok out =>
      exact (c.effects_calls (fun _ _ hc => hc) cfg x).bind fun _ =>
        ⟨trivial, fun _ => ⟨trivial, fun _ => ⟨trivial, fun _ => trivial⟩⟩⟩

/-- Serving a request counts nothing that is about requests. -/
theorem serve_uncounted (cfg : Config) (fp : Doubles) (q : Request) :
    (q.serve cfg fp).Calls Call.Uncounted := by
  cases q with
  | command c => exact handler_uncounted cfg c
  | _ => exact serve_calls (fun _ _ hc => hc) cfg fp (by simp)

theorem answer_adds (cfg : Config) (fp : Doubles) (rawJson : Bytes) :
    Adds adds Begun Answered 0 (answer cfg fp rawJson) := by
  rw [Request.answer_eq]
  have hbegun : Begun (0 + adds (.fetchAdd .requestsTotal)) := by
    constructor <;> simp [adds]
  have hanswered : ∀ ok : Bool, Answered (0 + adds (.fetchAdd .requestsTotal) +
      adds (.fetchAdd (if ok then .successfulRequests else .failedRequests))) := fun ok => by
    cases ok <;> constructor <;> simp [adds, Counter.OfRequests]
  have hserve : ((Request.decode rawJson).serve cfg fp).Calls fun c => adds c = 0 :=
    (serve_uncounted cfg fp _).mono fun _ => adds_of_uncounted
  refine Adds.perform_bind .zero fun _ => Adds.quiet_bind hserve hbegun fun response => ?_
  exact Adds.perform_bind hbegun fun _ =>
    ⟨(hanswered (isOk response)).begun, hanswered (isOk response)⟩

/-! ### The histogram -/

/-- What the loop over some buckets adds. -/
def bucketAdds (duration : Int) : List (Fin 14 × Int) → Counter → ℕ
  | [] => 0
  | (i, bound) :: rest =>
    (if duration ≤ bound then adds (.fetchAdd (.latencyBucketCounts i)) else 0) +
      bucketAdds duration rest

theorem bucketAdds_of_ne {k : Counter} (hk : ∀ i, k ≠ .latencyBucketCounts i) (duration : Int)
    (buckets : List (Fin 14 × Int)) : bucketAdds duration buckets k = 0 := by
  induction buckets with
  | nil => rfl
  | cons b rest ih =>
    rw [bucketAdds, Pi.add_apply, ih]
    split
    · simp [adds, Ne.symm (hk b.1)]
    · rfl

theorem bucketAdds_of_notMem {i : Fin 14} {buckets : List (Fin 14 × Int)}
    (hi : i ∉ buckets.map Prod.fst) (duration : Int) :
    bucketAdds duration buckets (.latencyBucketCounts i) = 0 := by
  induction buckets with
  | nil => rfl
  | cons b rest ih =>
    rw [List.map_cons, List.mem_cons, not_or] at hi
    rw [bucketAdds, Pi.add_apply, ih hi.2]
    split
    · simp [adds, Ne.symm hi.1]
    · rfl

/-- A bucket counts the request exactly if the duration is within its bound. -/
theorem bucketAdds_of_mem {i : Fin 14} {bound : Int} {buckets : List (Fin 14 × Int)}
    (hkeys : (buckets.map Prod.fst).Nodup) (hi : (i, bound) ∈ buckets) (duration : Int) :
    bucketAdds duration buckets (.latencyBucketCounts i) = if duration ≤ bound then 1 else 0 := by
  induction buckets with
  | nil => cases hi
  | cons b rest ih =>
    obtain ⟨hb, hrest⟩ := List.nodup_cons.mp hkeys
    rw [bucketAdds, Pi.add_apply]
    rcases List.mem_cons.mp hi with rfl | hi
    · rw [bucketAdds_of_notMem hb]
      by_cases hle : duration ≤ bound
      · simp [hle, adds, Counter.OfRequests]
      · simp [hle]
    · have hne : b.1 ≠ i := fun heq => hb (heq ▸ List.mem_map_of_mem hi)
      rw [ih hrest hi]
      split
      · simp [adds, hne]
      · simp

theorem countBuckets_adds {bound final : (Counter → ℕ) → Prop} {n : Counter → ℕ}
    {duration : Int} {buckets : List (Fin 14 × Int)}
    (hbound : ∀ m, n ≤ m → m ≤ n + bucketAdds duration buckets → bound m)
    (hfinal : final (n + bucketAdds duration buckets)) :
    Adds adds bound final n (MetricsRegistry.countBuckets duration buckets) := by
  induction buckets generalizing n with
  | nil => exact ⟨hbound n le_rfl (by simp [bucketAdds]), by simpa [bucketAdds] using hfinal⟩
  | cons b rest ih =>
    obtain ⟨i, limit⟩ := b
    by_cases hle : duration ≤ limit
    · have hsum : n + bucketAdds duration ((i, limit) :: rest) =
          n + adds (.fetchAdd (.latencyBucketCounts i)) + bucketAdds duration rest := by
        rw [bucketAdds, if_pos hle, add_assoc]
      rw [MetricsRegistry.countBuckets, decide_eq_true hle]
      rw [hsum] at hbound hfinal
      have hge : n ≤ n + adds (.fetchAdd (.latencyBucketCounts i)) := le_self_add
      exact ⟨hbound n le_rfl (hge.trans le_self_add),
        fun _ => ih (fun m hm => hbound m (hge.trans hm)) hfinal⟩
    · have hsum : n + bucketAdds duration ((i, limit) :: rest) = n + bucketAdds duration rest := by
        rw [bucketAdds, if_neg hle, zero_add]
      rw [MetricsRegistry.countBuckets, decide_eq_false hle]
      rw [hsum] at hbound hfinal
      exact ih hbound hfinal

theorem finiteBuckets_nodup : (MetricsRegistry.finiteBuckets.map Prod.fst).Nodup := by
  decide

/-- The buckets are numbered by rising bounds. -/
theorem finiteBuckets_sorted : ∀ i : Fin 14, i ≠ 13 → ∀ j : Fin 14, j ≠ 13 → i ≤ j →
    ∃ a b, (i, a) ∈ MetricsRegistry.finiteBuckets ∧ (j, b) ∈ MetricsRegistry.finiteBuckets ∧
      a ≤ b := by
  have hall : ∀ i : Fin 14, i ≠ 13 → ∀ j : Fin 14, j ≠ 13 → i ≤ j →
      ∃ a ∈ MetricsRegistry.finiteBuckets, ∃ b ∈ MetricsRegistry.finiteBuckets,
        a.1 = i ∧ b.1 = j ∧ a.2 ≤ b.2 := by decide
  intro i hi j hj hij
  obtain ⟨a, ha, b, hb, rfl, rfl, hle⟩ := hall i hi j hj hij
  exact ⟨a.2, b.2, ha, hb, hle⟩

section Latency

variable {n : Counter → ℕ} (duration : Int)

theorem bucketAdds_mono (i j : Fin 14) (hi : i ≠ 13) (hj : j ≠ 13) (hij : i ≤ j) :
    bucketAdds duration MetricsRegistry.finiteBuckets (.latencyBucketCounts i) ≤
      bucketAdds duration MetricsRegistry.finiteBuckets (.latencyBucketCounts j) := by
  obtain ⟨a, b, ha, hb, hab⟩ := finiteBuckets_sorted i hi j hj hij
  rw [bucketAdds_of_mem finiteBuckets_nodup ha, bucketAdds_of_mem finiteBuckets_nodup hb]
  split <;> split <;> omega

theorem bucketAdds_inf :
    bucketAdds duration MetricsRegistry.finiteBuckets (.latencyBucketCounts 13) = 0 :=
  bucketAdds_of_notMem (by decide) duration

theorem bucketAdds_le (i : Fin 14) :
    bucketAdds duration MetricsRegistry.finiteBuckets (.latencyBucketCounts i) ≤ 1 := by
  by_cases hi : i = 13
  · rw [hi, bucketAdds_inf]
    omega
  · obtain ⟨a, -, ha, -, -⟩ := finiteBuckets_sorted i hi i hi le_rfl
    rw [bucketAdds_of_mem finiteBuckets_nodup ha]
    split <;> omega

/-- While the buckets are counted, a share differs from what it was in the finite buckets only. -/
theorem begun_of_buckets (h : Answered n) {m : Counter → ℕ}
    (hge : m ≤ n + adds (.fetchAdd .latencyCount) +
      bucketAdds duration MetricsRegistry.finiteBuckets) : Begun m := by
  have hother : ∀ k : Counter, (∀ i, k ≠ .latencyBucketCounts i) →
      m k ≤ n k + adds (.fetchAdd .latencyCount) k := fun k hk => by
    have hk' := hge k
    rw [Pi.add_apply, Pi.add_apply, bucketAdds_of_ne hk] at hk'
    exact hk'
  have hbucket : ∀ i, m (.latencyBucketCounts i) ≤
      bucketAdds duration MetricsRegistry.finiteBuckets (.latencyBucketCounts i) := fun i => by
    have hi := hge (.latencyBucketCounts i)
    simpa [adds, h.bucket i] using hi
  refine ⟨?_, fun i => (hbucket i).trans (bucketAdds_le duration i), ?_⟩
  · have hsuccessful := hother .successfulRequests (by simp)
    have hfailed := hother .failedRequests (by simp)
    have houtcomes := h.outcomes
    simp only [adds, reduceCtorEq, false_and, if_false] at hsuccessful hfailed
    omega
  · have hinf := hbucket 13
    rw [bucketAdds_inf] at hinf
    omega

/-- **Recording the latency balances the books of a request.**  The finite buckets are counted one
after another, from the bound of the duration on, and the one without a bound and the count always.
-/
theorem recordRequestLatency_adds (h : Answered n) :
    Adds adds Begun (Balanced 1) n (MetricsRegistry.recordRequestLatency duration) := by
  have hcounted : Begun (n + adds (.fetchAdd .latencyCount)) :=
    begun_of_buckets duration h le_self_add
  refine Adds.perform_bind h.begun fun _ => ?_
  refine Adds.quiet_bind (p := invoke (.addLatency duration)) ⟨rfl, fun _ => trivial⟩ hcounted
    fun _ => Adds.bind (countBuckets_adds (fun m _ => begun_of_buckets duration h) fun _ => ?_)
  have hbegun := begun_of_buckets duration h le_rfl
  have hvalue : ∀ k, (n + adds (.fetchAdd .latencyCount) +
      bucketAdds duration MetricsRegistry.finiteBuckets +
      adds (.fetchAdd (.latencyBucketCounts 13))) k =
      n k + adds (.fetchAdd .latencyCount) k +
        bucketAdds duration MetricsRegistry.finiteBuckets k +
        adds (.fetchAdd (.latencyBucketCounts 13)) k := fun _ => rfl
  have hother : ∀ k : Counter, (∀ i, k ≠ .latencyBucketCounts i) →
      bucketAdds duration MetricsRegistry.finiteBuckets k = 0 := fun k hk =>
    bucketAdds_of_ne hk duration _
  have hbalanced : Balanced 1 (n + adds (.fetchAdd .latencyCount) +
      bucketAdds duration MetricsRegistry.finiteBuckets +
      adds (.fetchAdd (.latencyBucketCounts 13))) := by
    refine ⟨?_, ?_, ?_, ?_, fun i j hij => ?_⟩
    · rw [hvalue, hother _ (by simp)]
      simp [adds, h.total]
    · rw [hvalue, hvalue, hother _ (by simp), hother _ (by simp)]
      simpa [adds] using h.outcomes
    · rw [hvalue, hother _ (by simp)]
      simp [adds, h.count, Counter.OfRequests]
    · rw [hvalue, bucketAdds_inf]
      simp [adds, h.bucket, Counter.OfRequests]
    · rw [hvalue, hvalue, h.bucket, h.bucket]
      by_cases hj : j = 13
      · -- the last bucket counts every request
        subst hj
        have hi := bucketAdds_le duration i
        by_cases hi' : i = 13
        · rw [hi']
        · simp [adds, Counter.OfRequests, Ne.symm hi', bucketAdds_inf, hi]
      · have hi : i ≠ 13 := fun hi => hj (le_antisymm (Fin.le_last j) (hi ▸ hij))
        have hmono := bucketAdds_mono duration i j hi hj hij
        simpa [adds, Ne.symm hi, Ne.symm hj] using hmono
  have hlast : Begun (n + adds (.fetchAdd .latencyCount) +
      bucketAdds duration MetricsRegistry.finiteBuckets +
      adds (.fetchAdd (.latencyBucketCounts 13))) :=
    ⟨hbalanced.outcomes.le, fun i => (hbalanced.mono i 13 (Fin.le_last i)).trans hbalanced.inf.le,
      (hbalanced.inf.trans hbalanced.count.symm).le⟩
  exact ⟨hbegun, fun _ => ⟨hlast, hbalanced⟩⟩

end Latency

theorem reply_adds (cfg : Config) (fp : Doubles) (rawJson : Bytes) :
    Adds adds Begun (Balanced 1) 0 (reply cfg fp rawJson) := by
  refine Adds.quiet_bind (p := invoke .clock) ⟨rfl, fun _ => trivial⟩ .zero fun start => ?_
  refine Adds.bind ((answer_adds cfg fp rawJson).mono fun m hbegun hanswered response => ?_)
  refine Adds.quiet_bind (p := invoke .clock) ⟨rfl, fun _ => trivial⟩ hbegun fun finish => ?_
  exact Adds.bind ((recordRequestLatency_adds _ hanswered).mono fun m hbegun hbalanced _ =>
    ⟨hbegun, hbalanced⟩)

/-- **A call of `handle` has balanced its books when it is over.**  It has one request and one
outcome to its account, and its duration is in the histogram once. -/
theorem handle_adds (cfg : Config) (fp : Doubles) (rawJson : Bytes) :
    Adds adds Begun (Balanced 1) 0 (handle cfg fp rawJson) :=
  Adds.bind ((reply_adds cfg fp rawJson).mono fun _ hbegun hbalanced _ => ⟨hbegun, hbalanced⟩)

/-! ## Any number of requests -/

/-- **Whenever no call of `handle` is in flight, the books balance**, however the updates of the
metrics by concurrent calls were mixed. -/
theorem balanced_of_quiet {cfg : Config} {fp : Doubles} {w : World}
    {x : Interleaving.Config Call Call.Ans Bytes (Option Bytes) World}
    (hzero : ∀ c, w.metrics.counters c = 0)
    (hx : Reachable (handle cfg fp) (Call.exec fp) w x) (hquiet : x.Quiet) :
    Balanced (sent x.history).card x.shared.metrics.counters := by
  have hshares : ∃ share, Shares adds counted (fun _ => Begun) (fun _ => Balanced 1) w x share :=
    hx.shares (counted_exec fp) (handle_adds cfg fp)
  obtain ⟨share, hshares⟩ := hshares
  have hstart : counted w = 0 := by
    funext k
    rw [counted, hzero, ite_self]
    rfl
  have hsum : Balanced (sent x.history).card (counted x.shared) := by
    rw [hshares.total, hstart, zero_add]
    refine Balanced.sum fun id hid => ?_
    obtain ⟨q, hq⟩ := Interleaving.mem_sent.mp hid
    exact (hshares.answered id q hq (hquiet id)).2
  exact ⟨hsum.total, hsum.outcomes, hsum.count, hsum.inf, hsum.mono⟩

/-- Two requests whose payloads are not JSON, the second inside the first. -/
theorem balanced_of_quiet_two :
    ∃ x : Interleaving.Config Call Call.Ans Bytes (Option Bytes) World,
      Reachable (handle ⟨false, false⟩ .zero) (Call.exec .zero) .started x ∧
      Balanced 2 x.shared.metrics.counters := by
  have h₀ : Reachable (handle ⟨false, false⟩ .zero) (Call.exec .zero) .started
      (Interleaving.Config.start .started) := .refl
  have h₁ := h₀.tail (.invoke _ 0 [] (by simp [Interleaving.Config.start]))
  have h₂ := h₁.tail (.call _ 0 .clock _ {} rfl)
  have h₃ := h₂.tail (.invoke _ 1 [] (by simp [Interleaving.Config.start]))
  have h₄ := Reachable.runs h₃ 1 (p := handle ⟨false, false⟩ .zero []) rfl
    (Program.runs_run _ {} _ _)
  have h₅ := h₄.tail (.respond _ 1 _ rfl)
  have h₆ := Reachable.runs h₅ 0 rfl (Program.runs_run _ {} _ _)
  have h₇ := h₆.tail (.respond _ 0 _ rfl)
  refine ⟨_, h₇, balanced_of_quiet (fun _ => rfl) h₇ fun id => ?_⟩
  by_cases hzero : id = 0
  · simp [hzero]
  by_cases hone : id = 1
  · simp [hone]
  · simp [hzero, hone, Interleaving.Config.start]

end Accounting
end MultiPlayerGame
