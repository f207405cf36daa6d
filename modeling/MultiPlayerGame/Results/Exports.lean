import Mathlib
import MultiPlayerGame.Results.Accounting
import MultiPlayerGame.Server.MetricsExport

/-!
# How consistent an export of the metrics is

An export loads some twenty atomics one after another, without a lock, while requests are being
counted.  So it is no snapshot, and its values need not fit together: a request may count itself as
failed between the load of `requests_total` and that of `failed_requests`, and a request halfway
through the histogram is in a low bucket and not yet in a high one.

How far the values can be apart is limited by the requests that overlap the export.  Those answered
before it started have balanced their books, and each of the others adds at most one to any counter
(`export_consistent`).  One relation holds in any case: the bucket without a bound is loaded before
the count, and every request adds to it after the count.

## How the bound is found

Let an export begin when the counters are `n` and end when they are `m`.  Every value that it loads
lies between the two, since the counters only grow.  In `n` all requests answered before are
complete, and complete requests are balanced.  What is in `m` beyond these was added by the requests
that overlap the export, and each of them adds at most one to any counter, so two values that would
be equal if the books balanced differ by at most their number.  The argument is the same for every
pair of values (`consistent_of_between`); it only uses which combination of counters is balanced.

The relation that holds in any case has another reason, the order of the steps on both sides.  A
request adds to the count before it adds to the bucket without a bound, and an export loads the
bucket before it loads the count.  So whatever was found in the bucket is found in the count.
-/

namespace MultiPlayerGame
namespace Exports

open Bytes (ascii)
open RequestHandler MetricsRegistry
open Accounting (adds counted counted_exec Begun Balanced)
open Interleaving (Adds Shares Reads Watched Reachable sent earlier started overlapping)

abbrev State := Interleaving.Config Call Call.Ans Query Answer World

/-! ## What the requests add -/

/-- The share of a query on the way.  A call of `handle` has begun its books, and an export adds
nothing. -/
def Bound : Query → (Counter → ℕ) → Prop
  | .handle _ => Begun
  | _ => (· = 0)

/-- The share of a query at its end.  A call of `handle` has balanced them. -/
def Final : Query → (Counter → ℕ) → Prop
  | .handle _ => Balanced 1
  | _ => (· = 0)

theorem loadBuckets_uncounted (is : List (Fin 14)) : (loadBuckets is).Calls Call.Uncounted := by
  induction is with
  | nil => trivial
  | cons i rest ih => exact ⟨trivial, fun _ => ih.bind fun _ => trivial⟩

theorem loadAll_uncounted : loadAll.Calls Call.Uncounted :=
  ⟨trivial, fun _ => ⟨trivial, fun _ => ⟨trivial, fun _ => ⟨trivial, fun _ =>
    (loadBuckets_uncounted _).bind fun _ => ⟨trivial, fun _ => ⟨trivial, fun _ => ⟨trivial, fun _ =>
      ⟨trivial, fun _ => ⟨trivial, fun _ => ⟨trivial, fun _ => trivial⟩⟩⟩⟩⟩⟩⟩⟩⟩⟩

theorem toPrometheusText_uncounted (fp : Doubles) :
    (toPrometheusText fp).Calls Call.Uncounted :=
  Program.Calls.bind loadAll_uncounted fun _ => trivial

theorem serve_adds (cfg : Config) (fp : Doubles) (q : Query) :
    Adds adds (Bound q) (Final q) 0 (q.serve cfg fp) := by
  have hquiet : ∀ {p : Handler Answer}, p.Calls Call.Uncounted →
      Adds adds (· = 0) (· = 0) 0 p := fun hp =>
    Adds.of_quiet (hp.mono fun _ => Accounting.adds_of_uncounted) rfl rfl
  cases q with
  | handle rawJson =>
    exact Adds.bind ((Accounting.handle_adds cfg fp rawJson).mono fun m hbegun hbalanced _ =>
      ⟨hbegun, hbalanced⟩)
  | prometheus => exact hquiet ((toPrometheusText_uncounted fp).bind fun _ => trivial)
  | json =>
    exact hquiet ((toJson_calls (fun _ => trivial) trivial trivial fp).bind fun _ => trivial)

/-! ## What the exports read -/

/-- What a load of a request counter is answered. -/
def Answers (m : Counter → ℕ) : (c : Call) → c.Ans → Prop
  | .load k, x => k.OfRequests = true → x = m k
  | _, _ => True

theorem answers_exec (fp : Doubles) (c : Call) (e : Env) (w : World) :
    Answers (counted w) c (c.exec fp e w).1 := by
  cases c with
  | load k => exact fun hk => (if_pos hk).symm
  | _ => trivial

/-- A request counts itself in the histogram before it counts itself in the bucket without a
bound. -/
def CountFirst (m : Counter → ℕ) : Prop :=
  m (.latencyBucketCounts (Fin.last 13)) ≤ m .latencyCount

/-- The values lie between what the counters were at the start, `n`, and at the end, `m`. -/
structure Between (n m : Counter → ℕ) (v : Scrape) : Prop where
  total : n .requestsTotal ≤ v.requestsTotal
  successful : v.successfulRequests ≤ m .successfulRequests
  failed : v.failedRequests ≤ m .failedRequests
  buckets : List.Forall₂
    (fun i c => n (.latencyBucketCounts i) ≤ c ∧ c ≤ m (.latencyBucketCounts i))
    (finiteBuckets.map Prod.fst ++ [13]) (v.latencyBuckets ++ [v.latencyInf])
  inf_le : v.latencyInf ≤ v.latencyCount

theorem Between.grow {n m m' : Counter → ℕ} {v : Scrape} (h : Between n m v) (hle : m ≤ m') :
    Between n m' v where
  total := h.total
  successful := h.successful.trans (hle _)
  failed := h.failed.trans (hle _)
  buckets := h.buckets.imp fun _ _ hc => ⟨hc.1, hc.2.trans (hle _)⟩
  inf_le := h.inf_le

/-- What holds of the answer to a query.  The values that an export has read lie between the
counters at its start and at its end. -/
def Right (fp : Doubles) : Query → (Counter → ℕ) → (Counter → ℕ) → Answer → Prop
  | .handle _, _, _, _ => True
  | .prometheus, n, m, r => ∃ v, r = .prometheus v (v.text fp) ∧ Between n m v
  | .json, n, m, r => ∃ total count sum activePlayers successful failed hits misses operations,
    r = .json (exported fp total count sum activePlayers successful failed hits misses
      operations) ∧ n .requestsTotal ≤ total ∧ successful ≤ m .successfulRequests ∧
      failed ≤ m .failedRequests

/-- The buckets that are loaded one after another. -/
theorem reads_loadBuckets {n n' : Counter → ℕ} (hle : n ≤ n') (is : List (Fin 14)) :
    Reads Answers CountFirst (fun m counts => n' ≤ m ∧ List.Forall₂
      (fun i c => n (.latencyBucketCounts i) ≤ c ∧ c ≤ m (.latencyBucketCounts i)) is counts) n'
      (loadBuckets is) := by
  induction is generalizing n' with
  | nil => exact Reads.of_pure fun m hm _ => ⟨hm, .nil⟩
  | cons i rest ih =>
    refine Reads.perform_bind fun m c hm _ hc => ?_
    have hc' : c = m (.latencyBucketCounts i) := hc rfl
    refine Reads.bind ((ih (hle.trans hm)).mono fun m' counts hcounts => ?_)
    refine Reads.of_pure fun m'' hm'' _ => ?_
    refine ⟨hm.trans (hcounts.1.trans hm''), .cons ⟨?_, ?_⟩ (hcounts.2.imp fun i c hc => ?_)⟩
    · rw [hc']
      exact (hle.trans hm) _
    · rw [hc']
      exact (hcounts.1.trans hm'') _
    · exact ⟨hc.1, hc.2.trans (hm'' _)⟩

theorem reads_loadAll (n : Counter → ℕ) :
    Reads Answers CountFirst (Between n) n loadAll := by
  refine Reads.perform_bind fun m₁ activePlayers h₁ _ _ => ?_
  refine Reads.perform_bind fun m₂ total h₂ _ htotal => ?_
  refine Reads.perform_bind fun m₃ successful h₃ _ hsuccessful => ?_
  refine Reads.perform_bind fun m₄ failed h₄ _ hfailed => ?_
  have hle₄ : n ≤ m₄ := h₁.trans (h₂.trans (h₃.trans h₄))
  refine Reads.bind ((reads_loadBuckets hle₄ _).mono fun m₅ buckets hbuckets => ?_)
  refine Reads.perform_bind fun m₆ inf h₆ hfirst hinf => ?_
  refine Reads.perform_bind fun m₇ sum h₇ _ _ => ?_
  refine Reads.perform_bind fun m₈ count h₈ _ hcount => ?_
  refine Reads.perform_bind fun m₉ hits h₉ _ _ => ?_
  refine Reads.perform_bind fun m₁₀ misses h₁₀ _ _ => ?_
  refine Reads.perform_bind fun m₁₁ operations h₁₁ _ _ => ?_
  refine Reads.of_pure fun m h _ => ?_
  have hle₆ : m₆ ≤ m := h₇.trans (h₈.trans (h₉.trans (h₁₀.trans (h₁₁.trans h))))
  have hle : m₄ ≤ m := hbuckets.1.trans (h₆.trans hle₆)
  have htotal' : total = m₂ .requestsTotal := htotal rfl
  have hsuccessful' : successful = m₃ .successfulRequests := hsuccessful rfl
  have hfailed' : failed = m₄ .failedRequests := hfailed rfl
  have hinf' : inf = m₆ (.latencyBucketCounts 13) := hinf rfl
  have hcount' : count = m₈ .latencyCount := hcount rfl
  refine ⟨?_, ?_, ?_, List.rel_append (hbuckets.2.imp fun i c hc => ?_) (.cons ⟨?_, ?_⟩ .nil), ?_⟩
  · rw [htotal']
    exact (h₁.trans h₂) _
  · rw [hsuccessful']
    exact (h₄.trans hle) _
  · rw [hfailed']
    exact hle _
  · exact ⟨hc.1, hc.2.trans ((h₆.trans hle₆) _)⟩
  · rw [hinf']
    exact (hle₄.trans (hbuckets.1.trans h₆)) _
  · rw [hinf']
    exact hle₆ _
  · rw [hinf', hcount']
    exact hfirst.trans ((h₇.trans h₈) _)

theorem reads_toPrometheusText (fp : Doubles) (n : Counter → ℕ) :
    Reads Answers CountFirst (fun m r => r.2 = r.1.text fp ∧ Between n m r.1) n
      (toPrometheusText fp) :=
  Reads.bind ((reads_loadAll n).mono fun _ _ hv =>
    Reads.of_pure fun _ hm' _ => ⟨rfl, hv.grow hm'⟩)

theorem reads_toJson (fp : Doubles) (n : Counter → ℕ) :
    Reads Answers CountFirst (fun m j => Right fp .json n m (.json j)) n (toJson fp) := by
  refine Reads.perform_bind fun m₁ total h₁ _ htotal => ?_
  refine Reads.perform_bind fun m₂ count h₂ _ _ => ?_
  refine Reads.perform_bind fun m₃ sum h₃ _ _ => ?_
  refine Reads.perform_bind fun m₄ activePlayers h₄ _ _ => ?_
  refine Reads.perform_bind fun m₅ successful h₅ _ hsuccessful => ?_
  refine Reads.perform_bind fun m₆ failed h₆ _ hfailed => ?_
  refine Reads.perform_bind fun m₇ hits h₇ _ _ => ?_
  refine Reads.perform_bind fun m₈ misses h₈ _ _ => ?_
  refine Reads.perform_bind fun m₉ operations h₉ _ _ => ?_
  refine Reads.of_pure fun m h _ => ?_
  have hle : m₆ ≤ m := h₇.trans (h₈.trans (h₉.trans h))
  have htotal' : total = m₁ .requestsTotal := htotal rfl
  have hsuccessful' : successful = m₅ .successfulRequests := hsuccessful rfl
  have hfailed' : failed = m₆ .failedRequests := hfailed rfl
  refine ⟨total, count, sum, activePlayers, successful, failed, hits, misses, operations, rfl, ?_,
    ?_,
    ?_⟩
  · rw [htotal']
    exact h₁ _
  · rw [hsuccessful']
    exact (h₆.trans hle) _
  · rw [hfailed']
    exact hle _

theorem serve_reads (cfg : Config) (fp : Doubles) (q : Query) (n : Counter → ℕ) :
    Reads Answers CountFirst (Right fp q n) n (q.serve cfg fp) := by
  cases q with
  | handle rawJson => exact Reads.of_post fun _ _ => trivial
  | prometheus =>
    refine Reads.bind ((reads_toPrometheusText fp n).mono fun m r hr => ?_)
    refine Reads.of_pure fun m' hm' _ => ?_
    exact ⟨r.1, congrArg (Answer.prometheus r.1) hr.1, hr.2.grow hm'⟩
  | json =>
    refine Reads.bind ((reads_toJson fp n).mono fun m j hj => ?_)
    refine Reads.of_pure fun m' hm' _ => ?_
    obtain ⟨total, count, sum, activePlayers, successful, failed, hits, misses, operations, hj,
      htotal, hsuccessful, hfailed⟩ := hj
    exact ⟨total, count, sum, activePlayers, successful, failed, hits, misses, operations, hj,
      htotal,
      hsuccessful.trans (hm' _), hfailed.trans (hm' _)⟩

/-! ## How far the values can be apart -/

open Classical in
/-- The calls of `handle` that overlap an export. -/
noncomputable def handlesDuring (history : List (Interleaving.Event Query Answer)) (id : ℕ) :
    Finset ℕ :=
  (overlapping history id).filter fun j => ∃ rawJson, .invoke j (.handle rawJson) ∈ history

/-- The values of an export are at most `N` requests apart. -/
structure Consistent (N : ℕ) (v : Scrape) : Prop where
  outcomes : v.successfulRequests + v.failedRequests ≤ v.requestsTotal + N
  buckets : (v.latencyBuckets ++ [v.latencyInf]).Pairwise fun a b => a ≤ b + N
  inf_le : v.latencyInf ≤ v.latencyCount

section Run

variable {cfg : Config} {fp : Doubles} {w : World} {x : State} {share : ℕ → Counter → ℕ} {id : ℕ}
  {n m : Counter → ℕ}

theorem final_of_before (hshares : Shares adds counted Bound Final w x share) {j : ℕ}
    (h : Interleaving.Before x.history j id) : Balanced 1 (share j) ∨ share j = 0 := by
  obtain ⟨r, hr⟩ := h.respond_mem
  obtain ⟨hnone, q, hq⟩ := hshares.responded j r hr
  have hfinal := (hshares.answered j q hq hnone).2
  cases q with
  | handle rawJson => exact Or.inl hfinal
  | _ => exact Or.inr hfinal

/-- What was added before the export is balanced. -/
theorem earlier_outcomes (hshares : Shares adds counted Bound Final w x share) :
    earlier x.history share id .successfulRequests + earlier x.history share id .failedRequests =
      earlier x.history share id .requestsTotal := by
  classical
  rw [earlier, earlier, ← Finset.sum_add_distrib]
  refine Finset.sum_congr rfl fun j hj => ?_
  rcases final_of_before hshares (Finset.mem_filter.mp hj).2 with hbalanced | hshare
  · rw [hbalanced.outcomes, hbalanced.total]
  · rw [hshare]
    rfl

theorem earlier_buckets (hshares : Shares adds counted Bound Final w x share) {i j : Fin 14}
    (hij : i ≤ j) : earlier x.history share id (.latencyBucketCounts i) ≤
      earlier x.history share id (.latencyBucketCounts j) := by
  classical
  refine Finset.sum_le_sum fun l hl => ?_
  rcases final_of_before hshares (Finset.mem_filter.mp hl).2 with hbalanced | hshare
  · exact hbalanced.mono i j hij
  · rw [hshare]
    exact le_rfl

/-- **Each overlapping call of `handle` has added at most one**, to whatever is counted.  Those that
do not handle a request, other exports among them, have added nothing. -/
theorem overlap_le (hshares : Shares adds counted Bound Final w x share)
    (value : (Counter → ℕ) → ℕ) (hvalue : ∀ n, Begun n → value n ≤ 1) (hzero : value 0 = 0) :
    ∑ j ∈ overlapping x.history id, value (share j) ≤ (handlesDuring x.history id).card := by
  classical
  rw [handlesDuring, Finset.card_filter]
  refine Finset.sum_le_sum fun j hj => ?_
  obtain ⟨q, hq⟩ := Interleaving.mem_sent.mp (Finset.mem_filter.mp hj).1
  have hbound := hshares.holds hq
  cases q with
  | handle rawJson =>
    rw [if_pos ⟨rawJson, hq⟩]
    exact hvalue _ hbound
  | _ =>
    have hshare : share j = 0 := hbound
    rw [hshare, hzero]
    exact Nat.zero_le _

theorem outcomes_le (hshares : Shares adds counted Bound Final w x share)
    (hn : earlier x.history share id ≤ n) (hm : m ≤ started x.history share id) :
    m .successfulRequests + m .failedRequests ≤
      n .requestsTotal + (handlesDuring x.history id).card := by
  have hoverlap : ∑ j ∈ overlapping x.history id,
      (share j .successfulRequests + share j .failedRequests) ≤ (handlesDuring x.history id).card :=
    overlap_le hshares (fun n => n .successfulRequests + n .failedRequests)
      (fun _ hbegun => hbegun.outcomes_le) rfl
  rw [Finset.sum_add_distrib] at hoverlap
  calc m .successfulRequests + m .failedRequests
      ≤ started x.history share id .successfulRequests +
          started x.history share id .failedRequests := Nat.add_le_add (hm _) (hm _)
    _ ≤ earlier x.history share id .successfulRequests +
          earlier x.history share id .failedRequests + (handlesDuring x.history id).card := by
        have hstarted : ∀ k, started x.history share id k ≤
            earlier x.history share id k + ∑ j ∈ overlapping x.history id, share j k :=
          Interleaving.started_le_earlier_add
        have hsuccessful := hstarted .successfulRequests
        have hfailed := hstarted .failedRequests
        omega
    _ ≤ n .requestsTotal + (handlesDuring x.history id).card := by
        rw [earlier_outcomes hshares]
        exact Nat.add_le_add_right (hn _) _

theorem bucket_le (hshares : Shares adds counted Bound Final w x share)
    (hn : earlier x.history share id ≤ n) (hm : m ≤ started x.history share id) {i j : Fin 14}
    (hij : i ≤ j) : m (.latencyBucketCounts i) ≤
      n (.latencyBucketCounts j) + (handlesDuring x.history id).card := by
  calc m (.latencyBucketCounts i)
      ≤ started x.history share id (.latencyBucketCounts i) := hm _
    _ ≤ earlier x.history share id (.latencyBucketCounts i) +
          ∑ l ∈ overlapping x.history id, share l (.latencyBucketCounts i) :=
        Interleaving.started_le_earlier_add _
    _ ≤ n (.latencyBucketCounts j) + (handlesDuring x.history id).card :=
        Nat.add_le_add ((earlier_buckets hshares hij).trans (hn _))
          (overlap_le hshares (fun n => n (.latencyBucketCounts i))
            (fun _ hbegun => hbegun.bucket_le i) rfl)

/-- A relation between the sources of the values holds between the values. -/
theorem pairwise_of_forall₂ {α β : Type} {R : α → β → Prop} {T : α → α → Prop} {S : β → β → Prop}
    (hS : ∀ i j a b, T i j → R i a → R j b → S a b) {is : List α} {vs : List β}
    (h : List.Forall₂ R is vs) (his : is.Pairwise T) : vs.Pairwise S := by
  induction h with
  | nil => exact .nil
  | cons hR hrest ih =>
    obtain ⟨hfirst, htail⟩ := List.pairwise_cons.mp his
    refine List.pairwise_cons.mpr ⟨fun b hb => ?_, ih htail⟩
    obtain ⟨k, hk, rfl⟩ := List.getElem_of_mem hb
    have hk' := hrest.length_eq ▸ hk
    exact hS _ _ _ _ (hfirst _ (List.getElem_mem hk')) hR (hrest.get hk' hk)

theorem consistent_of_between (hshares : Shares adds counted Bound Final w x share)
    (hn : earlier x.history share id ≤ n) (hm : m ≤ started x.history share id) {v : Scrape}
    (hv : Between n m v) : Consistent (handlesDuring x.history id).card v := by
  refine ⟨?_, ?_, hv.inf_le⟩
  · have hle := outcomes_le hshares hn hm
    have htotal := hv.total
    have hsuccessful := hv.successful
    have hfailed := hv.failed
    omega
  · have hsorted : (finiteBuckets.map Prod.fst ++ [13]).Pairwise (· ≤ ·) := by decide
    refine pairwise_of_forall₂ (fun i j a b hij ha hb => ?_) hv.buckets hsorted
    exact ha.2.trans ((bucket_le hshares hn hm hij).trans (Nat.add_le_add_right hb.1 _))

/-- **The values of an export are no further apart than there are calls of `handle` that overlap
it**; and the bucket without a bound never exceeds the count. -/
theorem export_consistent (hzero : ∀ c, w.metrics.counters c = 0)
    (hx : Reachable (Query.serve cfg fp) (Call.exec fp) w x) {r : Answer}
    (hr : .respond id r ∈ x.history) :
    (.invoke id .prometheus ∈ x.history → ∃ v, r = .prometheus v (v.text fp) ∧
      Consistent (handlesDuring x.history id).card v) ∧
    (.invoke id .json ∈ x.history →
      ∃ total count sum activePlayers successful failed hits misses operations,
        r = .json (exported fp total count sum activePlayers successful failed hits misses
          operations) ∧
        successful + failed ≤ total + (handlesDuring x.history id).card) := by
  have hstart : counted w = 0 := by
    funext k
    rw [counted, hzero, ite_self]
    rfl
  have hfirst : ∀ (y : State) share, Shares adds counted Bound Final w y share →
      CountFirst (counted y.shared) := by
    intro y share hshares
    rw [hshares.total, hstart, zero_add, CountFirst, Finset.sum_apply, Finset.sum_apply]
    refine Finset.sum_le_sum fun j hj => ?_
    obtain ⟨q, hq⟩ := Interleaving.mem_sent.mp hj
    have hbound := hshares.holds hq
    cases q with
    | handle rawJson => exact hbound.inf_le
    | _ =>
      have hshare : share j = 0 := hbound
      rw [hshare]
      exact le_rfl
  have hwatched : ∃ share, Shares adds counted Bound Final w x share ∧
      Watched counted Answers CountFirst (Right fp) x share :=
    hx.watched hstart (counted_exec fp) (answers_exec fp) (serve_adds cfg fp)
      (fun q n _ => serve_reads cfg fp q n) hfirst
  obtain ⟨share, hshares, hwatched⟩ := hwatched
  constructor
  · intro hq
    obtain ⟨n, m, hn, hm, v, rfl, hv⟩ := hwatched.answered id _ r hq hr
    exact ⟨v, rfl, consistent_of_between hshares hn hm hv⟩
  · intro hq
    obtain ⟨n, m, hn, hm, total, count, sum, activePlayers, successful, failed, hits, misses,
      operations, rfl, htotal, hsuccessful, hfailed⟩ := hwatched.answered id _ r hq hr
    have hle := outcomes_le hshares hn hm
    exact ⟨total, count, sum, activePlayers, successful, failed, hits, misses, operations, rfl,
      by omega⟩

end Run

/-! ## Exports that are not consistent -/

section Inconsistent

abbrev bare : Config := ⟨false, false⟩

theorem reachable_start : Reachable (Query.serve bare .zero) (Call.exec .zero) .started
    (.start .started) := .refl

/-- A request counts itself as failed after `requests_total` has been loaded. -/
theorem exists_more_outcomes : ∃ (x : State) (v : Scrape),
    Reachable (Query.serve bare .zero) (Call.exec .zero) .started x ∧
    .invoke 0 .prometheus ∈ x.history ∧ .respond 0 (.prometheus v (v.text .zero)) ∈ x.history ∧
    v.requestsTotal < v.successfulRequests + v.failedRequests := by
  have h₁ := reachable_start.tail (.invoke _ 0 .prometheus (by simp [Interleaving.Config.start]))
  have h₂ := h₁.tail (.call _ 0 .loadActivePlayers _ {} rfl)
  have h₃ := h₂.tail (.call _ 0 (.load .requestsTotal) _ {} rfl)
  have h₄ := h₃.tail (.invoke _ 1 (.handle []) (by simp [Interleaving.Config.start]))
  have h₅ := Reachable.runs h₄ 1 (p := Query.serve bare .zero (.handle [])) rfl
    (Program.runs_run _ {} _ _)
  have h₆ := Reachable.runs h₅ 0 rfl (Program.runs_run _ {} _ _)
  have h₇ := h₆.tail (.respond _ 0 _ rfl)
  exact ⟨_, _, h₇, by simp, List.mem_concat_self, by decide +kernel⟩

/-- In that run one call overlaps the export, and the outcomes are ahead by one. -/
theorem export_consistent_overlapped : ∃ (x : State) (v : Scrape),
    Reachable (Query.serve bare .zero) (Call.exec .zero) .started x ∧
    .respond 0 (.prometheus v (v.text .zero)) ∈ x.history ∧
    v.requestsTotal < v.successfulRequests + v.failedRequests ∧
    Consistent (handlesDuring x.history 0).card v := by
  obtain ⟨x, v, hx, hinvoke, hrespond, hmore⟩ := exists_more_outcomes
  obtain ⟨v', hv', hconsistent⟩ := (export_consistent (fun _ => rfl) hx hrespond).1 hinvoke
  cases hv'
  exact ⟨x, v, hx, hrespond, hmore, hconsistent⟩

theorem exists_more_outcomes_json : ∃ (x : State) (j : Json),
    Reachable (Query.serve bare .zero) (Call.exec .zero) .started x ∧
    .invoke 0 .json ∈ x.history ∧ .respond 0 (.json j) ∈ x.history ∧
    (j.field? (ascii "requests_total")).map Json.text = some (ascii "0") ∧
    (j.field? (ascii "failed_requests")).map Json.text = some (ascii "1") := by
  have h₁ := reachable_start.tail (.invoke _ 0 .json (by simp [Interleaving.Config.start]))
  have h₂ := h₁.tail (.call _ 0 (.load .requestsTotal) _ {} rfl)
  have h₃ := h₂.tail (.invoke _ 1 (.handle []) (by simp [Interleaving.Config.start]))
  have h₄ := Reachable.runs h₃ 1 (p := Query.serve bare .zero (.handle [])) rfl
    (Program.runs_run _ {} _ _)
  have h₅ := Reachable.runs h₄ 0 rfl (Program.runs_run _ {} _ _)
  have h₆ := h₅.tail (.respond _ 0 _ rfl)
  exact ⟨_, _, h₆, by simp, List.mem_concat_self, by decide +kernel, by decide +kernel⟩

/-- A request is in the first bucket and not yet in the second. -/
theorem exists_falling_buckets : ∃ (x : State) (v : Scrape),
    Reachable (Query.serve bare .zero) (Call.exec .zero) .started x ∧
    .invoke 0 .prometheus ∈ x.history ∧ .respond 0 (.prometheus v (v.text .zero)) ∈ x.history ∧
    ¬ (v.latencyBuckets ++ [v.latencyInf]).Pairwise (· ≤ ·) := by
  have h₁ := reachable_start.tail (.invoke _ 1 (.handle []) (by simp [Interleaving.Config.start]))
  have h₂ := h₁.tail (.call _ 1 .clock _ {} rfl)
  have h₃ := h₂.tail (.call _ 1 (.fetchAdd .requestsTotal) _ {} rfl)
  have h₄ := h₃.tail (.call _ 1 (.fetchAdd .failedRequests) _ {} rfl)
  have h₅ := h₄.tail (.call _ 1 .clock _ {} rfl)
  have h₆ := h₅.tail (.call _ 1 (.fetchAdd .latencyCount) _ {} rfl)
  have h₇ := h₆.tail (.call _ 1 (.addLatency 0) _ {} rfl)
  have h₈ := h₇.tail (.call _ 1 (.fetchAdd (.latencyBucketCounts 0)) _ {} rfl)
  have h₉ := h₈.tail (.invoke _ 0 .prometheus (by simp [Interleaving.Config.start]))
  have h₁₀ := Reachable.runs h₉ 0 (p := Query.serve bare .zero .prometheus) rfl
    (Program.runs_run _ {} _ _)
  have h₁₁ := h₁₀.tail (.respond _ 0 _ rfl)
  exact ⟨_, _, h₁₁, by simp, List.mem_concat_self, by decide +kernel⟩

/-- **An export is no snapshot**: the outcomes may exceed the requests, and the buckets may fall. -/
theorem exists_inconsistent :
    (∃ (x : State) (v : Scrape), Reachable (Query.serve bare .zero) (Call.exec .zero) .started x ∧
      .invoke 0 .prometheus ∈ x.history ∧ .respond 0 (.prometheus v (v.text .zero)) ∈ x.history ∧
      v.requestsTotal < v.successfulRequests + v.failedRequests) ∧
    (∃ (x : State) (v : Scrape), Reachable (Query.serve bare .zero) (Call.exec .zero) .started x ∧
      .invoke 0 .prometheus ∈ x.history ∧ .respond 0 (.prometheus v (v.text .zero)) ∈ x.history ∧
      ¬ (v.latencyBuckets ++ [v.latencyInf]).Pairwise (· ≤ ·)) ∧
    ∃ (x : State) (j : Json), Reachable (Query.serve bare .zero) (Call.exec .zero) .started x ∧
      .invoke 0 .json ∈ x.history ∧ .respond 0 (.json j) ∈ x.history ∧
      (j.field? (ascii "requests_total")).map Json.text = some (ascii "0") ∧
      (j.field? (ascii "failed_requests")).map Json.text = some (ascii "1") :=
  ⟨exists_more_outcomes, exists_falling_buckets, exists_more_outcomes_json⟩

end Inconsistent

end Exports
end MultiPlayerGame
