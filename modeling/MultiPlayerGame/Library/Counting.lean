import Mathlib
import MultiPlayerGame.Library.Interleaving

/-!
# Counters that every request adds to

Each call of an interleaving adds to some counters, and nothing else changes them.  Then a counter
is at every moment the sum of what the requests so far have added to it, each its own share.

`Adds` says of a program what its share may be on the way and what it is at the end, whatever it is
answered.  `Reachable.shares` carries this through every interleaving: the shares of the requests
that have been answered are final, so when none is being served the counters are sums of final
shares.

A request may also read counters while others add to them.  What it reads lies between the values
at its start and at its end.  The requests answered before it started have made all of their
contributions by then, and those sent after its answer have made none; so the two values differ by
what the requests that overlap it have added (`Watched`).

## How the proofs go

`Adds` is a predicate on programs, by recursion: for each call whatever it may be answered is
followed, with what has been added so far as an argument.  It needs no runs and no states.
`Reachable.shares` turns it into a fact about configurations.  There is one share for each request,
a call is charged to the request that makes it, and the counters are the sum of the shares.

For a reader the same is done with `Reads`, in which the counters may grow at every step by what the
others add.  The reader is `Watched` along the interleaving: its start is compared with what the
requests answered before have added, its end with what those sent before have added.  The difference
comes from the overlapping requests and from nobody else (`started_le_earlier_add`).

The counters are one function from their names to numbers.  So a single statement covers all of
them, and a relation between two counters is a predicate like any other.
-/

namespace MultiPlayerGame
namespace Interleaving

open Program

variable {C : Type} {Ans : C → Type} {Q ρ σ ε K : Type}

/-! ## What a program adds -/

/-- A program that has added `n` so far: its share always satisfies `bound`, and `final`
when it returns. -/
def Adds (adds : C → K → ℕ) (bound final : (K → ℕ) → Prop) (n : K → ℕ) : Program C Ans ρ → Prop
  | .ret _ => bound n ∧ final n
  | .call c k => bound n ∧ ∀ x, Adds adds bound final (n + adds c) (k x)

section Adds

variable {adds : C → K → ℕ} {bound final : (K → ℕ) → Prop} {n : K → ℕ} {α β : Type}
  {p : Program C Ans α} {f : α → Program C Ans β}

theorem Adds.holds (h : Adds adds bound final n p) : bound n := by
  cases p with
  | ret a => exact h.1
  | call c k => exact h.1

/-- One program after another. -/
theorem Adds.bind (h : Adds adds bound (fun m => ∀ a, Adds adds bound final m (f a)) n p) :
    Adds adds bound final n (p >>= f) := by
  induction p generalizing n with
  | ret a => exact h.2 a
  | call c k ih => exact ⟨h.1, fun x => ih x (h.2 x)⟩

theorem Adds.mono {final' : (K → ℕ) → Prop} (h : Adds adds bound final n p)
    (hfinal : ∀ m, bound m → final m → final' m) : Adds adds bound final' n p := by
  induction p generalizing n with
  | ret a => exact ⟨h.1, hfinal n h.1 h.2⟩
  | call c k ih => exact ⟨h.1, fun x => ih x (h.2 x)⟩

/-- One call, and then the rest. -/
theorem Adds.perform_bind {c : C} {f : Ans c → Program C Ans β} (hbound : bound n)
    (hf : ∀ x, Adds adds bound final (n + adds c) (f x)) :
    Adds adds bound final n (perform c >>= f) :=
  ⟨hbound, hf⟩

/-- A program that adds nothing. -/
theorem Adds.of_quiet (hp : p.Calls fun c => adds c = 0) (hbound : bound n) (hfinal : final n) :
    Adds adds bound final n p := by
  induction p with
  | ret a => exact ⟨hbound, hfinal⟩
  | call c k ih =>
    refine ⟨hbound, fun x => ?_⟩
    rw [hp.1, add_zero]
    exact ih x (hp.2 x)

/-- Nothing is added in front. -/
theorem Adds.quiet_bind (hp : p.Calls fun c => adds c = 0) (hbound : bound n)
    (hf : ∀ a, Adds adds bound final n (f a)) : Adds adds bound final n (p >>= f) :=
  Adds.bind (Adds.of_quiet hp hbound hf)

end Adds

/-! ## The requests so far -/

/-- The request that an event sends. -/
def Event.sent? : Event Q ρ → Option ℕ
  | .invoke id _ => some id
  | .respond .. => none

/-- The requests that have been sent. -/
def sent (history : List (Event Q ρ)) : Finset ℕ := (history.filterMap Event.sent?).toFinset

theorem mem_sent {history : List (Event Q ρ)} {id : ℕ} :
    id ∈ sent history ↔ ∃ q, .invoke id q ∈ history := by
  rw [sent, List.mem_toFinset, List.mem_filterMap]
  constructor
  · rintro ⟨ev, hev, hid⟩
    cases ev with
    | invoke i q =>
      cases hid
      exact ⟨q, hev⟩
    | respond => cases hid
  · rintro ⟨q, hq⟩
    exact ⟨_, hq, rfl⟩

theorem sent_invoke (history : List (Event Q ρ)) (id : ℕ) (q : Q) :
    sent (history ++ [.invoke id q]) = insert id (sent history) := by
  ext i
  rw [Finset.mem_insert, mem_sent, mem_sent]
  constructor
  · rintro ⟨q', hq'⟩
    rcases List.mem_append.mp hq' with hq' | hq'
    · exact Or.inr ⟨q', hq'⟩
    · cases List.mem_singleton.mp hq'
      exact Or.inl rfl
  · rintro (rfl | ⟨q', hq'⟩)
    · exact ⟨q, List.mem_append_right _ (List.mem_singleton_self _)⟩
    · exact ⟨q', List.mem_append_left _ hq'⟩

theorem sent_respond (history : List (Event Q ρ)) (id : ℕ) (r : ρ) :
    sent (history ++ [.respond id r]) = sent history := by
  rw [sent, List.filterMap_append]
  exact congrArg List.toFinset (List.append_nil _)

/-! ## The share of each request -/

section Shares

variable (adds : C → K → ℕ) (val : σ → K → ℕ) (bound final : Q → (K → ℕ) → Prop)

/-- The counters are what they were at the start and the shares of the requests. -/
structure Shares (s : σ) (x : Config C Ans Q ρ σ) (share : ℕ → K → ℕ) : Prop where
  total : val x.shared = val s + ∑ id ∈ sent x.history, share id
  once : ∀ id q q', .invoke id q ∈ x.history → .invoke id q' ∈ x.history → q = q'
  running : ∀ id p, x.inflight id = some p →
    ∃ q, .invoke id q ∈ x.history ∧ Adds adds (bound q) (final q) (share id) p
  responded : ∀ id r, .respond id r ∈ x.history →
    x.inflight id = none ∧ ∃ q, .invoke id q ∈ x.history
  answered : ∀ id q, .invoke id q ∈ x.history → x.inflight id = none →
    bound q (share id) ∧ final q (share id)

variable {adds val bound final} {prog : Q → Program C Ans ρ} {exec : (c : C) → ε → σ → Ans c × σ}
  {s : σ} {x : Config C Ans Q ρ σ} {share : ℕ → K → ℕ} {id : ℕ}

/-- A share always satisfies `bound`. -/
theorem Shares.holds (h : Shares adds val bound final s x share) {q : Q}
    (hq : .invoke id q ∈ x.history) : bound q (share id) := by
  cases hp : x.inflight id with
  | none => exact (h.answered id q hq hp).1
  | some p =>
    obtain ⟨q', hq', hadds⟩ := h.running id p hp
    cases h.once id q q' hq hq'
    exact hadds.holds

theorem Shares.start : Shares adds val bound final s (.start s : Config C Ans Q ρ σ) share where
  total := by simp [Config.start, sent]
  once := fun _ _ _ hmem => by cases hmem
  running := fun _ _ hrun => by cases hrun
  responded := fun _ _ hmem => by cases hmem
  answered := fun _ _ hmem => by cases hmem

/-- A request that has just been sent has added nothing. -/
theorem Shares.invoke (h : Shares adds val bound final s x share) {q : Q}
    (hprog : Adds adds (bound q) (final q) 0 (prog q)) (fresh : ∀ q', .invoke id q' ∉ x.history) :
    Shares adds val bound final s
      ⟨x.shared, Function.update x.inflight id (some (prog q)), x.history ++ [.invoke id q]⟩
      (Function.update share id 0) := by
  have hnot : id ∉ sent x.history := fun hmem => by
    obtain ⟨q', hq'⟩ := mem_sent.mp hmem
    exact fresh q' hq'
  have hne : ∀ {i q'}, .invoke i q' ∈ x.history → i ≠ id := fun hq' heq => fresh _ (heq ▸ hq')
  refine ⟨?_, ?_, ?_, ?_, ?_⟩
  · rw [sent_invoke, Finset.sum_insert hnot, Function.update_self, zero_add,
      Finset.sum_update_of_notMem hnot]
    exact h.total
  · intro i q₁ q₂ h₁ h₂
    rcases List.mem_append.mp h₁ with h₁ | h₁ <;> rcases List.mem_append.mp h₂ with h₂ | h₂
    · exact h.once i q₁ q₂ h₁ h₂
    · cases List.mem_singleton.mp h₂
      exact absurd h₁ (fresh q₁)
    · cases List.mem_singleton.mp h₁
      exact absurd h₂ (fresh q₂)
    · cases List.mem_singleton.mp h₁
      cases List.mem_singleton.mp h₂
      rfl
  · intro i p hp
    rcases update_some_cases hp with ⟨rfl, hv⟩ | ⟨hi, hp⟩
    · cases hv
      rw [Function.update_self]
      exact ⟨q, List.mem_append_right _ (List.mem_singleton_self _), hprog⟩
    · obtain ⟨q', hq', hadds⟩ := h.running i p hp
      rw [Function.update_of_ne hi]
      exact ⟨q', List.mem_append_left _ hq', hadds⟩
  · intro i r hr
    have hr' : .respond i r ∈ x.history := by simpa using hr
    obtain ⟨hnone, q', hq'⟩ := h.responded i r hr'
    refine ⟨?_, q', List.mem_append_left _ hq'⟩
    change Function.update x.inflight id (some (prog q)) i = none
    rwa [Function.update_of_ne (hne hq')]
  · intro i q' hq' hnone
    have hi : i ≠ id := fun heq => by
      rw [heq] at hnone
      exact update_self_ne_none hnone
    rcases List.mem_append.mp hq' with hq' | hq'
    · rw [Function.update_of_ne hi]
      refine h.answered i q' hq' ?_
      change Function.update x.inflight id (some (prog q)) i = none at hnone
      rwa [Function.update_of_ne hi] at hnone
    · cases List.mem_singleton.mp hq'
      exact absurd rfl hi

/-- A call is charged to the request that makes it. -/
theorem Shares.call (h : Shares adds val bound final s x share)
    (hval : ∀ c e s, val (exec c e s).2 = val s + adds c) {c : C} {k : Ans c → Program C Ans ρ}
    (e : ε) (running : x.inflight id = some (.call c k)) :
    Shares adds val bound final s
      ⟨(exec c e x.shared).2, Function.update x.inflight id (some (k (exec c e x.shared).1)),
        x.history⟩
      (Function.update share id (share id + adds c)) := by
  obtain ⟨q, hq, hadds⟩ := h.running id _ running
  have hmem : id ∈ sent x.history := mem_sent.mpr ⟨q, hq⟩
  refine ⟨?_, h.once, ?_, ?_, ?_⟩
  · rw [hval, h.total, Finset.sum_update_of_mem hmem,
      Finset.sum_eq_add_sum_sdiff_singleton_of_mem hmem share]
    ac_rfl
  · intro i p hp
    rcases update_some_cases hp with ⟨rfl, hv⟩ | ⟨hi, hp⟩
    · cases hv
      rw [Function.update_self]
      exact ⟨q, hq, hadds.2 _⟩
    · rw [Function.update_of_ne hi]
      exact h.running i p hp
  · intro i r hr
    obtain ⟨hnone, hinv⟩ := h.responded i r hr
    have hi : i ≠ id := fun heq => by
      rw [heq, running] at hnone
      cases hnone
    refine ⟨?_, hinv⟩
    change Function.update x.inflight id _ i = none
    rwa [Function.update_of_ne hi]
  · intro i q' hq' hnone
    have hi : i ≠ id := fun heq => by
      rw [heq] at hnone
      exact update_self_ne_none hnone
    rw [Function.update_of_ne hi]
    refine h.answered i q' hq' ?_
    change Function.update x.inflight id _ i = none at hnone
    rwa [Function.update_of_ne hi] at hnone

/-- The share of a request that is answered is final. -/
theorem Shares.respond (h : Shares adds val bound final s x share) {r : ρ}
    (done : x.inflight id = some (.ret r)) :
    Shares adds val bound final s
      ⟨x.shared, Function.update x.inflight id none, x.history ++ [.respond id r]⟩ share := by
  obtain ⟨q, hq, hadds⟩ := h.running id _ done
  have hinv : ∀ {i q'}, .invoke i q' ∈ x.history ++ [.respond id r] → .invoke i q' ∈ x.history :=
    fun hmem => by simpa using hmem
  refine ⟨?_, ?_, ?_, ?_, ?_⟩
  · rw [sent_respond]
    exact h.total
  · exact fun i q₁ q₂ h₁ h₂ => h.once i q₁ q₂ (hinv h₁) (hinv h₂)
  · intro i p hp
    rcases update_some_cases hp with ⟨-, hv⟩ | ⟨-, hp⟩
    · cases hv
    · obtain ⟨q', hq', hadds'⟩ := h.running i p hp
      exact ⟨q', List.mem_append_left _ hq', hadds'⟩
  · intro i r' hr'
    change Function.update x.inflight id none i = none ∧ _
    by_cases hi : i = id
    · rw [hi, Function.update_self]
      exact ⟨rfl, q, List.mem_append_left _ hq⟩
    · rw [Function.update_of_ne hi]
      rcases List.mem_append.mp hr' with hr' | hr'
      · obtain ⟨hnone, q', hq'⟩ := h.responded i r' hr'
        exact ⟨hnone, q', List.mem_append_left _ hq'⟩
      · cases List.mem_singleton.mp hr'
        exact absurd rfl hi
  · intro i q' hq' hnone
    by_cases hi : i = id
    · subst hi
      cases h.once i q q' hq (hinv hq')
      exact hadds
    · change Function.update x.inflight id none i = none at hnone
      rw [Function.update_of_ne hi] at hnone
      exact h.answered i q' (hinv hq') hnone

/-- **At every moment the counters are the sums of the shares.**  The shares of the requests that
have been answered are final, and those of the others are within their bound. -/
theorem Reachable.shares (hval : ∀ c e s, val (exec c e s).2 = val s + adds c)
    (hprog : ∀ q, Adds adds (bound q) (final q) 0 (prog q)) (hx : Reachable prog exec s x) :
    ∃ share, Shares adds val bound final s x share := by
  induction hx with
  | refl => exact ⟨fun _ => 0, .start⟩
  | tail _ hstep ih =>
    obtain ⟨share, hshares⟩ := ih
    cases hstep with
    | invoke id q fresh => exact ⟨_, hshares.invoke (hprog q) fresh⟩
    | call id c k e running => exact ⟨_, hshares.call hval e running⟩
    | respond id r done => exact ⟨_, hshares.respond done⟩

end Shares

/-! ## Reading while others add -/

/-- A program that reads.  The counters have reached `n`; however they grow within `inv` from now
on, and whatever it is answered then, `post` holds of what they have reached at the end and of what
it returns. -/
def Reads (answers : (K → ℕ) → (c : C) → Ans c → Prop) (inv : (K → ℕ) → Prop)
    (post : (K → ℕ) → ρ → Prop) (n : K → ℕ) : Program C Ans ρ → Prop
  | .ret r => ∀ m, n ≤ m → inv m → post m r
  | .call c k => ∀ m x, n ≤ m → inv m → answers m c x → Reads answers inv post m (k x)

section Reads

variable {answers : (K → ℕ) → (c : C) → Ans c → Prop} {inv : (K → ℕ) → Prop} {n : K → ℕ}
  {α β : Type} {post : (K → ℕ) → β → Prop}

theorem Reads.of_pure {r : β} (h : ∀ m, n ≤ m → inv m → post m r) :
    Reads answers inv post n (pure r : Program C Ans β) := h

/-- The counters need not have grown yet. -/
theorem Reads.of_later {p : Program C Ans β}
    (h : ∀ m, n ≤ m → inv m → Reads answers inv post m p) : Reads answers inv post n p := by
  cases p with
  | ret r => exact fun m hle hm => h m hle hm m le_rfl hm
  | call c k => exact fun m x hle hm hx => h m hle hm m x le_rfl hm hx

/-- Nothing is asked of what is read. -/
theorem Reads.of_post {p : Program C Ans β} (h : ∀ m r, post m r) :
    Reads answers inv post n p := by
  induction p generalizing n with
  | ret r => exact fun m _ _ => h m r
  | call c k ih => exact fun m x _ _ _ => ih x

theorem Reads.mono {post' : (K → ℕ) → β → Prop} {p : Program C Ans β}
    (h : Reads answers inv post n p) (hpost : ∀ m r, post m r → post' m r) :
    Reads answers inv post' n p := by
  induction p generalizing n with
  | ret r => exact fun m hle hm => hpost m r (h m hle hm)
  | call c k ih => exact fun m x hle hm hx => ih x (h m x hle hm hx)

theorem Reads.grow {m : K → ℕ} {p : Program C Ans β} (h : Reads answers inv post n p)
    (hle : n ≤ m) : Reads answers inv post m p := by
  cases p with
  | ret r => exact fun m' hle' hm' => h m' (hle.trans hle') hm'
  | call c k => exact fun m' x hle' hm' hx => h m' x (hle.trans hle') hm' hx

theorem Reads.bind {p : Program C Ans α} {f : α → Program C Ans β}
    (h : Reads answers inv (fun m a => Reads answers inv post m (f a)) n p) :
    Reads answers inv post n (p >>= f) := by
  induction p generalizing n with
  | ret a => exact Reads.of_later h
  | call c k ih => exact fun m x hle hm hx => ih x (h m x hle hm hx)

/-- One call, and then the rest. -/
theorem Reads.perform_bind {c : C} {f : Ans c → Program C Ans β}
    (hf : ∀ m x, n ≤ m → inv m → answers m c x → Reads answers inv post m (f x)) :
    Reads answers inv post n (perform c >>= f) :=
  hf

end Reads

/-! ### The requests that overlap -/

section Overlap

variable {history history' : List (Event Q ρ)} {share share' : ℕ → K → ℕ} {id : ℕ}

open Classical in
/-- What the requests answered before `id` was sent have added. -/
noncomputable def earlier (history : List (Event Q ρ)) (share : ℕ → K → ℕ) (id : ℕ) (k : K) : ℕ :=
  ∑ j ∈ (sent history).filter fun j => Before history j id, share j k

open Classical in
/-- What the requests not sent after `id` was answered have added. -/
noncomputable def started (history : List (Event Q ρ)) (share : ℕ → K → ℕ) (id : ℕ) (k : K) : ℕ :=
  ∑ j ∈ (sent history).filter fun j => ¬ Before history id j, share j k

open Classical in
/-- The requests that overlap `id`: neither was answered before the other was sent. -/
noncomputable def overlapping (history : List (Event Q ρ)) (id : ℕ) : Finset ℕ :=
  (sent history).filter fun j => ¬ Before history j id ∧ ¬ Before history id j

theorem earlier_le (h : ∀ j ∈ sent history', Before history' j id →
    j ∈ sent history ∧ Before history j id ∧ share' j ≤ share j) :
    earlier history' share' id ≤ earlier history share id := by
  classical
  intro k
  calc ∑ j ∈ (sent history').filter (fun j => Before history' j id), share' j k
      ≤ ∑ j ∈ (sent history').filter (fun j => Before history' j id), share j k :=
        Finset.sum_le_sum fun j hj => by
          obtain ⟨hmem, hbefore⟩ := Finset.mem_filter.mp hj
          exact (h j hmem hbefore).2.2 k
    _ ≤ ∑ j ∈ (sent history).filter (fun j => Before history j id), share j k :=
        Finset.sum_le_sum_of_subset fun j hj => by
          obtain ⟨hmem, hbefore⟩ := Finset.mem_filter.mp hj
          obtain ⟨hmem', hbefore', -⟩ := h j hmem hbefore
          exact Finset.mem_filter.mpr ⟨hmem', hbefore'⟩

theorem started_le (h : ∀ j ∈ sent history, ¬ Before history id j →
    j ∈ sent history' ∧ ¬ Before history' id j ∧ share j ≤ share' j) :
    started history share id ≤ started history' share' id := by
  classical
  intro k
  calc ∑ j ∈ (sent history).filter (fun j => ¬ Before history id j), share j k
      ≤ ∑ j ∈ (sent history).filter (fun j => ¬ Before history id j), share' j k :=
        Finset.sum_le_sum fun j hj => by
          obtain ⟨hmem, hbefore⟩ := Finset.mem_filter.mp hj
          exact (h j hmem hbefore).2.2 k
    _ ≤ ∑ j ∈ (sent history').filter (fun j => ¬ Before history' id j), share' j k :=
        Finset.sum_le_sum_of_subset fun j hj => by
          obtain ⟨hmem, hbefore⟩ := Finset.mem_filter.mp hj
          obtain ⟨hmem', hbefore', -⟩ := h j hmem hbefore
          exact Finset.mem_filter.mpr ⟨hmem', hbefore'⟩

/-- **What has been added beyond the earlier requests comes from those that overlap.**  A request
that had started by the end of the reader and was not answered before its start overlaps it. -/
theorem started_le_earlier_add (k : K) : started history share id k ≤
    earlier history share id k + ∑ j ∈ overlapping history id, share j k := by
  classical
  have hsplit : (sent history).filter (fun j => ¬ Before history id j) ⊆
      (sent history).filter (fun j => Before history j id) ∪ overlapping history id := by
    intro j hj
    obtain ⟨hmem, hbefore⟩ := Finset.mem_filter.mp hj
    by_cases hj' : Before history j id
    · exact Finset.mem_union_left _ (Finset.mem_filter.mpr ⟨hmem, hj'⟩)
    · exact Finset.mem_union_right _ (Finset.mem_filter.mpr ⟨hmem, hj', hbefore⟩)
  have hdisjoint : Disjoint ((sent history).filter fun j => Before history j id)
      (overlapping history id) := by
    rw [Finset.disjoint_left]
    intro j hj hj'
    exact (Finset.mem_filter.mp hj').2.1 (Finset.mem_filter.mp hj).2
  calc started history share id k
      ≤ ∑ j ∈ (sent history).filter (fun j => Before history j id) ∪ overlapping history id,
          share j k := Finset.sum_le_sum_of_subset hsplit
    _ = earlier history share id k + ∑ j ∈ overlapping history id, share j k :=
        Finset.sum_union hdisjoint

end Overlap

/-! ### Readers in an interleaving -/

section Watched

variable {adds : C → K → ℕ} {val : σ → K → ℕ} {bound final : Q → (K → ℕ) → Prop}
  {answers : (K → ℕ) → (c : C) → Ans c → Prop} {inv : (K → ℕ) → Prop}
  {post : Q → (K → ℕ) → (K → ℕ) → ρ → Prop} {prog : Q → Program C Ans ρ}
  {exec : (c : C) → ε → σ → Ans c × σ} {s : σ} {x : Config C Ans Q ρ σ} {share : ℕ → K → ℕ}
  {id : ℕ}

/-- Every request started when the counters were at some `n`, with all that was added by the
requests answered before; and what it reads, or has read, is right for `n` and for what the counters
were when it was answered. -/
structure Watched (val : σ → K → ℕ) (answers : (K → ℕ) → (c : C) → Ans c → Prop)
    (inv : (K → ℕ) → Prop) (post : Q → (K → ℕ) → (K → ℕ) → ρ → Prop) (x : Config C Ans Q ρ σ)
    (share : ℕ → K → ℕ) : Prop where
  running : ∀ id q p, .invoke id q ∈ x.history → x.inflight id = some p →
    ∃ n, earlier x.history share id ≤ n ∧ Reads answers inv (post q n) (val x.shared) p
  answered : ∀ id q r, .invoke id q ∈ x.history → .respond id r ∈ x.history →
    ∃ n m, earlier x.history share id ≤ n ∧ m ≤ started x.history share id ∧ post q n m r

theorem Watched.start : Watched val answers inv post (.start s : Config C Ans Q ρ σ) share where
  running := fun _ _ _ hmem => by cases hmem
  answered := fun _ _ _ hmem => by cases hmem

theorem Before.of_respond {history : List (Event Q ρ)} {i j : ℕ} {r : ρ}
    (h : Before (history ++ [.respond id r]) i j) : Before history i j := by
  rcases h.of_snoc with h | ⟨q, hev, -⟩
  · exact h
  · cases hev

theorem Before.of_invoke {history : List (Event Q ρ)} {i j : ℕ} {q : Q}
    (h : Before (history ++ [.invoke id q]) i j) (hj : j ≠ id) : Before history i j := by
  rcases h.of_snoc with h | ⟨q', hev, -⟩
  · exact h
  · cases hev
    exact absurd rfl hj

/-- At the start of a request the counters hold what the requests answered before have added. -/
theorem Watched.invoke (h : Watched val answers inv post x share)
    (hshares : Shares adds val bound final s x share) (hzero : val s = 0) {q : Q}
    (fresh : ∀ q', .invoke id q' ∉ x.history) (hinv : inv (val x.shared))
    (hprog : ∀ n, inv n → Reads answers inv (post q n) n (prog q)) :
    Watched val answers inv post
      ⟨x.shared, Function.update x.inflight id (some (prog q)), x.history ++ [.invoke id q]⟩
      (Function.update share id 0) := by
  have hne : ∀ {i}, i ∈ sent x.history → i ≠ id := fun hi heq => by
    obtain ⟨q', hq'⟩ := mem_sent.mp hi
    exact fresh q' (heq ▸ hq')
  have hresponded : ∀ {i j}, Before (x.history ++ [.invoke id q]) i j → i ∈ sent x.history :=
    fun hbefore => by
      obtain ⟨r, hr⟩ := hbefore.respond_mem
      exact mem_sent.mpr (hshares.responded _ r (by simpa using hr)).2
  have hshare : ∀ {j}, j ∈ sent x.history → Function.update share id 0 j = share j :=
    fun hj => Function.update_of_ne (hne hj) _ _
  have hold : ∀ {i}, i ≠ id → earlier (x.history ++ [.invoke id q]) (Function.update share id 0) i ≤
      earlier x.history share i := fun hi => earlier_le fun j _ hbefore =>
    ⟨hresponded hbefore, hbefore.of_invoke hi, (hshare (hresponded hbefore)).le⟩
  constructor
  · intro i q' p hq' hp
    rcases update_some_cases hp with ⟨rfl, hv⟩ | ⟨hi, hp⟩
    · cases hv
      have hq : q' = q := by
        rcases List.mem_append.mp hq' with hq' | hq'
        · exact absurd hq' (fresh q')
        · cases List.mem_singleton.mp hq'
          rfl
      subst hq
      refine ⟨val x.shared, fun k => ?_, hprog _ hinv⟩
      classical
      calc earlier (x.history ++ [.invoke i q']) (Function.update share i 0) i k
          ≤ ∑ j ∈ sent x.history, Function.update share i 0 j k :=
            Finset.sum_le_sum_of_subset fun j hj => hresponded (Finset.mem_filter.mp hj).2
        _ = ∑ j ∈ sent x.history, share j k :=
            Finset.sum_congr rfl fun j hj => by rw [hshare hj]
        _ = val x.shared k := by
            rw [hshares.total, hzero, zero_add, Finset.sum_apply]
    · have hq'' : .invoke i q' ∈ x.history := by
        rcases List.mem_append.mp hq' with hq' | hq'
        · exact hq'
        · cases List.mem_singleton.mp hq'
          exact absurd rfl hi
      obtain ⟨n, hle, hreads⟩ := h.running i q' p hq'' hp
      exact ⟨n, (hold hi).trans hle, hreads⟩
  · intro i q' r hq' hr
    have hr' : .respond i r ∈ x.history := by simpa using hr
    obtain ⟨-, hsent⟩ := hshares.responded i r hr'
    have hi : i ≠ id := hne (mem_sent.mpr hsent)
    have hq'' : .invoke i q' ∈ x.history := by
      rcases List.mem_append.mp hq' with hq' | hq'
      · exact hq'
      · cases List.mem_singleton.mp hq'
        exact absurd rfl hi
    obtain ⟨n, m, hle, hge, hpost⟩ := h.answered i q' r hq'' hr'
    refine ⟨n, m, (hold hi).trans hle, hge.trans (started_le fun j hj hnot => ?_), hpost⟩
    refine ⟨?_, fun hbefore => hnot (hbefore.of_invoke (hne hj)), (hshare hj).ge⟩
    rw [sent_invoke]
    exact Finset.mem_insert_of_mem hj

/-- A call lets the counters grow. -/
theorem Watched.call (h : Watched val answers inv post x share)
    (hshares : Shares adds val bound final s x share)
    (hval : ∀ c e s, val (exec c e s).2 = val s + adds c)
    (hanswers : ∀ c e s, answers (val s) c (exec c e s).1) (hinv : inv (val x.shared)) {c : C}
    {k : Ans c → Program C Ans ρ} (e : ε) (running : x.inflight id = some (.call c k)) :
    Watched val answers inv post
      ⟨(exec c e x.shared).2, Function.update x.inflight id (some (k (exec c e x.shared).1)),
        x.history⟩
      (Function.update share id (share id + adds c)) := by
  have hgrow : val x.shared ≤ val (exec c e x.shared).2 := by
    rw [hval]
    exact fun k => Nat.le_add_right _ _
  have hshare : share ≤ Function.update share id (share id + adds c) := by
    intro j
    by_cases hj : j = id
    · rw [hj, Function.update_self]
      exact fun k => Nat.le_add_right _ _
    · rw [Function.update_of_ne hj]
  have hold : ∀ i, earlier x.history (Function.update share id (share id + adds c)) i ≤
      earlier x.history share i := fun i => earlier_le fun j hj hbefore => by
    obtain ⟨r, hr⟩ := hbefore.respond_mem
    have hne : j ≠ id := fun heq => by
      have hnone := (hshares.responded j r hr).1
      rw [heq, running] at hnone
      cases hnone
    exact ⟨hj, hbefore, (Function.update_of_ne hne _ _).le⟩
  constructor
  · intro i q p hq hp
    rcases update_some_cases hp with ⟨rfl, hv⟩ | ⟨-, hp⟩
    · cases hv
      obtain ⟨n, hle, hreads⟩ := h.running i q _ hq running
      exact ⟨n, (hold i).trans hle,
        Reads.grow (hreads _ _ le_rfl hinv (hanswers c e x.shared)) hgrow⟩
    · obtain ⟨n, hle, hreads⟩ := h.running i q p hq hp
      exact ⟨n, (hold i).trans hle, hreads.grow hgrow⟩
  · intro i q r hq hr
    obtain ⟨n, m, hle, hge, hpost⟩ := h.answered i q r hq hr
    exact ⟨n, m, (hold i).trans hle,
      hge.trans (started_le fun j hj hnot => ⟨hj, hnot, hshare j⟩), hpost⟩

/-- When a request is answered, the counters hold nothing of requests sent later. -/
theorem Watched.respond (h : Watched val answers inv post x share)
    (hshares : Shares adds val bound final s x share) (hzero : val s = 0)
    (hinv : inv (val x.shared)) {r : ρ} (done : x.inflight id = some (.ret r)) :
    Watched val answers inv post
      ⟨x.shared, Function.update x.inflight id none, x.history ++ [.respond id r]⟩ share := by
  have hold : ∀ i, earlier (x.history ++ [.respond id r]) share i ≤ earlier x.history share i :=
    fun i => earlier_le fun j hj hbefore => by
      rw [sent_respond] at hj
      exact ⟨hj, hbefore.of_respond, le_rfl⟩
  have hnew : ∀ i, started x.history share i ≤ started (x.history ++ [.respond id r]) share i :=
    fun i => started_le fun j hj hnot => by
      rw [sent_respond]
      exact ⟨hj, fun hbefore => hnot hbefore.of_respond, le_rfl⟩
  have hsent : ∀ {i q}, .invoke i q ∈ x.history ++ [.respond id r] → .invoke i q ∈ x.history :=
    fun hmem => by simpa using hmem
  constructor
  · intro i q p hq hp
    rcases update_some_cases hp with ⟨-, hv⟩ | ⟨-, hp⟩
    · cases hv
    · obtain ⟨n, hle, hreads⟩ := h.running i q p (hsent hq) hp
      exact ⟨n, (hold i).trans hle, hreads⟩
  · intro i q r' hq hr'
    rcases List.mem_append.mp hr' with hr' | hr'
    · obtain ⟨n, m, hle, hge, hpost⟩ := h.answered i q r' (hsent hq) hr'
      exact ⟨n, m, (hold i).trans hle, hge.trans (hnew i), hpost⟩
    · cases List.mem_singleton.mp hr'
      obtain ⟨n, hle, hreads⟩ := h.running id q _ (hsent hq) done
      refine ⟨n, val x.shared, (hold id).trans hle, fun k => ?_, hreads _ le_rfl hinv⟩
      rw [hshares.total, hzero, zero_add, Finset.sum_apply]
      classical
      refine Finset.sum_le_sum_of_subset fun j hj => Finset.mem_filter.mpr ⟨?_, fun hbefore => ?_⟩
      · rw [sent_respond]
        exact hj
      · -- nothing has been sent after the last event
        obtain ⟨r'', hr''⟩ := hbefore.of_respond.respond_mem
        have hnone := (hshares.responded id r'' hr'').1
        rw [done] at hnone
        cases hnone

/-- **What a request has read lies between what the earlier requests added and what those that had
started by its end have added.** -/
theorem Reachable.watched (hzero : val s = 0)
    (hval : ∀ c e s, val (exec c e s).2 = val s + adds c)
    (hanswers : ∀ c e s, answers (val s) c (exec c e s).1)
    (hprog : ∀ q, Adds adds (bound q) (final q) 0 (prog q))
    (hreads : ∀ q n, inv n → Reads answers inv (post q n) n (prog q))
    (hinv : ∀ (y : Config C Ans Q ρ σ) share, Shares adds val bound final s y share →
      inv (val y.shared))
    (hx : Reachable prog exec s x) :
    ∃ share, Shares adds val bound final s x share ∧ Watched val answers inv post x share := by
  induction hx with
  | refl => exact ⟨fun _ => 0, .start, .start⟩
  | tail _ hstep ih =>
    obtain ⟨share, hshares, hwatched⟩ := ih
    have hnow := hinv _ _ hshares
    cases hstep with
    | invoke id q fresh =>
      exact ⟨_, hshares.invoke (hprog q) fresh,
        hwatched.invoke hshares hzero fresh hnow (hreads q)⟩
    | call id c k e running =>
      exact ⟨_, hshares.call hval e running, hwatched.call hshares hval hanswers hnow e running⟩
    | respond id r done =>
      exact ⟨share, hshares.respond done, hwatched.respond hshares hzero hnow done⟩

end Watched

-- a program of many calls would otherwise be run through wherever `Reads` is looked at
attribute [irreducible] Reads

end Interleaving
end MultiPlayerGame
