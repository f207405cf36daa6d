import MultiPlayerGame.Library.Interleaving

/-!
# Reports that lag behind

A request *acts* on the shared state in one call and *reports* what it did in later ones: it writes
a log, a cache, a second table.  In between, other requests act and report.  So the reports of a run
are always in arrears, and they may be made in another order than the acts they are about.

`Accounts` says which calls act, what is to be reported after an act, and which calls make which
reports.  A program is `Acting` if it acts at most once and then makes the reports that it owes.  A
run is `Paced` if no report overtakes an outstanding one that it conflicts with; the queue of what
is outstanding, in the order of the acts, is carried along.

Two facts make this useful.

* `Paced.settled`: if reports that do not conflict commute, then the reported state, brought up to
  date with what is outstanding, agrees with the acts at every moment.
* `Paced.eq_nil_of_quiet`: nothing is outstanding when no request is being served, so then the
  reported state itself agrees.

## Why the queue

What the reports have made so far and what is still owed, taken together in the order of the acts,
is what the acts have done.  An act puts its reports at the end of the queue.  A report takes itself
out, from the middle if it overtakes others, and if it conflicts with none of these it can as well
be made first (`foldl_in_turn`).  So both keep the sum of what is reported and what is outstanding,
up to the order of reports that commute.

What a single request owes is the part of the queue that is its own, and it makes these reports in
their order (`Booked`).  Several requests may have parts that are mixed in any way.  When no request
is being served nobody owes anything, and the queue is empty.
-/

namespace MultiPlayerGame
namespace Interleaving

open Program

variable {C : Type} {Ans : C → Type} {Q ρ σ ε D V : Type}

/-- What calls are to each other: those that act, the reports an act calls for by its answer, and
the calls that make a report.  `quiet` calls are neither. -/
structure Accounts (C : Type) (Ans : C → Type) (D : Type) where
  quiet : C → Prop
  acts : C → Prop
  debts : (c : C) → Ans c → List D → Prop
  reports : C → D → Prop
  not_acts_of_quiet : ∀ {c}, quiet c → ¬ acts c
  not_reports_of_quiet : ∀ {c d}, quiet c → ¬ reports c d
  not_reports_of_acts : ∀ {c d}, acts c → ¬ reports c d

namespace Accounts

variable (A : Accounts C Ans D)

/-- A program that has acted: it makes the reports `ds`, in this order, whatever it is answered. -/
inductive Owing : List D → Program C Ans ρ → Prop where
  | ret (r : ρ) : Owing [] (.ret r)
  | skip {ds : List D} {c : C} {k : Ans c → Program C Ans ρ} (quiet : A.quiet c)
      (rest : ∀ x, Owing ds (k x)) : Owing ds (.call c k)
  | report {d : D} {ds : List D} {c : C} {k : Ans c → Program C Ans ρ} (reports : A.reports c d)
      (rest : ∀ x, Owing ds (k x)) : Owing (d :: ds) (.call c k)

/-- A program that has not acted: if it does, it owes what the answer calls for. -/
inductive Acting : Program C Ans ρ → Prop where
  | ret (r : ρ) : Acting (.ret r)
  | skip {c : C} {k : Ans c → Program C Ans ρ} (quiet : A.quiet c) (rest : ∀ x, Acting (k x)) :
      Acting (.call c k)
  | act {c : C} {k : Ans c → Program C Ans ρ} (acts : A.acts c)
      (rest : ∀ x, ∃ ds, A.debts c x ds ∧ A.Owing ds (k x)) : Acting (.call c k)

variable {A} {β : Type}

/-! ## Putting programs together -/

theorem Owing.bind {ds ds' : List D} {p : Program C Ans ρ} {f : ρ → Program C Ans β}
    (hp : A.Owing ds p) (hf : ∀ a, A.Owing ds' (f a)) : A.Owing (ds ++ ds') (p >>= f) := by
  induction hp with
  | ret r => exact hf r
  | skip quiet _ ih => exact .skip quiet ih
  | report reports _ ih => exact .report reports ih

theorem Owing.of_quiet {p : Program C Ans ρ} (hp : p.Calls A.quiet) : A.Owing [] p := by
  induction p with
  | ret r => exact .ret r
  | call c k ih => exact .skip hp.1 fun x => ih x (hp.2 x)

/-- Quiet calls in front. -/
theorem Owing.quiet_bind {ds : List D} {p : Program C Ans ρ} {f : ρ → Program C Ans β}
    (hp : p.Calls A.quiet) (hf : ∀ a, A.Owing ds (f a)) : A.Owing ds (p >>= f) :=
  (Owing.of_quiet hp).bind hf

/-- Quiet calls behind. -/
theorem Owing.bind_quiet {ds : List D} {p : Program C Ans ρ} {f : ρ → Program C Ans β}
    (hp : A.Owing ds p) (hf : ∀ a, (f a).Calls A.quiet) : A.Owing ds (p >>= f) := by
  rw [← List.append_nil ds]
  exact hp.bind fun a => Owing.of_quiet (hf a)

theorem Acting.of_quiet {p : Program C Ans ρ} (hp : p.Calls A.quiet) : A.Acting p := by
  induction p with
  | ret r => exact .ret r
  | call c k ih => exact .skip hp.1 fun x => ih x (hp.2 x)

theorem Acting.bind_quiet {p : Program C Ans ρ} {f : ρ → Program C Ans β} (hp : A.Acting p)
    (hf : ∀ a, (f a).Calls A.quiet) : A.Acting (p >>= f) := by
  induction hp with
  | ret r => exact Acting.of_quiet (hf r)
  | skip quiet _ ih => exact .skip quiet ih
  | act acts rest =>
    refine .act acts fun x => ?_
    obtain ⟨ds, hdebts, howing⟩ := rest x
    exact ⟨ds, hdebts, howing.bind_quiet hf⟩

end Accounts

/-! ## Paced runs -/

section Paced

variable (A : Accounts C Ans D) (conflict : D → D → Prop) (prog : Q → Program C Ans ρ)
  (exec : (c : C) → ε → σ → Ans c × σ) (s : σ)

/-- Runs in which no report overtakes one that it conflicts with.  The list is what is outstanding:
who owes it, and what; in the order of the acts. -/
inductive Paced : Config C Ans Q ρ σ → List (ℕ × D) → Prop where
  | start : Paced (.start s) []
  | invoke {x : Config C Ans Q ρ σ} {owed : List (ℕ × D)} (before : Paced x owed) (id : ℕ) (q : Q)
      (fresh : ∀ q', .invoke id q' ∉ x.history) :
      Paced ⟨x.shared, Function.update x.inflight id (some (prog q)),
        x.history ++ [.invoke id q]⟩ owed
  | quiet {x : Config C Ans Q ρ σ} {owed : List (ℕ × D)} (before : Paced x owed) (id : ℕ) (c : C)
      (k : Ans c → Program C Ans ρ) (e : ε) (running : x.inflight id = some (.call c k))
      (quiet : A.quiet c) :
      Paced ⟨(exec c e x.shared).2,
        Function.update x.inflight id (some (k (exec c e x.shared).1)), x.history⟩ owed
  | act {x : Config C Ans Q ρ σ} {owed : List (ℕ × D)} (before : Paced x owed) (id : ℕ) (c : C)
      (k : Ans c → Program C Ans ρ) (e : ε) (running : x.inflight id = some (.call c k))
      (acts : A.acts c) (ds : List D) (debts : A.debts c (exec c e x.shared).1 ds)
      (owing : A.Owing ds (k (exec c e x.shared).1)) :
      Paced ⟨(exec c e x.shared).2,
        Function.update x.inflight id (some (k (exec c e x.shared).1)), x.history⟩
        (owed ++ ds.map fun d => (id, d))
  | report {x : Config C Ans Q ρ σ} {earlier later : List (ℕ × D)} {d : D} (id : ℕ)
      (before : Paced x (earlier ++ (id, d) :: later)) (c : C) (k : Ans c → Program C Ans ρ) (e : ε)
      (running : x.inflight id = some (.call c k)) (reports : A.reports c d)
      (first : ∀ b ∈ earlier, b.1 ≠ id) (inTurn : ∀ b ∈ earlier, ¬ conflict b.2 d) :
      Paced ⟨(exec c e x.shared).2,
        Function.update x.inflight id (some (k (exec c e x.shared).1)), x.history⟩
        (earlier ++ later)
  | respond {x : Config C Ans Q ρ σ} {owed : List (ℕ × D)} (before : Paced x owed) (id : ℕ) (r : ρ)
      (done : x.inflight id = some (.ret r)) :
      Paced ⟨x.shared, Function.update x.inflight id none, x.history ++ [.respond id r]⟩ owed

end Paced

section Facts

variable {A : Accounts C Ans D} {conflict : D → D → Prop} {prog : Q → Program C Ans ρ}
  {exec : (c : C) → ε → σ → Ans c × σ} {s : σ} {x : Config C Ans Q ρ σ} {owed : List (ℕ × D)}

theorem Paced.reachable (hx : Paced A conflict prog exec s x owed) : Reachable prog exec s x := by
  induction hx with
  | start => exact .refl
  | invoke _ id q fresh ih => exact ih.tail (.invoke _ id q fresh)
  | quiet _ id c k e running _ ih => exact ih.tail (.call _ id c k e running)
  | act _ id c k e running _ _ _ _ ih => exact ih.tail (.call _ id c k e running)
  | report id _ c k e running _ _ _ ih => exact ih.tail (.call _ id c k e running)
  | respond _ id r done ih => exact ih.tail (.respond _ id r done)

/-! ### What each request owes -/

/-- What is outstanding from one request. -/
def owedBy (owed : List (ℕ × D)) (id : ℕ) : List D :=
  owed.filterMap fun b => if b.1 = id then some b.2 else none

theorem owedBy_append (owed owed' : List (ℕ × D)) (id : ℕ) :
    owedBy (owed ++ owed') id = owedBy owed id ++ owedBy owed' id :=
  List.filterMap_append

theorem owedBy_map (ds : List D) (i id : ℕ) :
    owedBy (ds.map fun d => (i, d)) id = if i = id then ds else [] := by
  unfold owedBy
  induction ds with
  | nil => simp
  | cons d ds ih =>
    rw [List.map_cons, List.filterMap_cons, ih]
    by_cases hi : i = id
    · simp [hi]
    · simp [hi]

theorem owedBy_eq_nil {owed : List (ℕ × D)} {id : ℕ} (h : ∀ b ∈ owed, b.1 ≠ id) :
    owedBy owed id = [] := by
  unfold owedBy
  rw [List.filterMap_eq_nil_iff]
  exact fun b hb => if_neg (h b hb)

/-- The request whose report stands behind reports of others only. -/
theorem owedBy_of_first {earlier later : List (ℕ × D)} {id : ℕ} {d : D}
    (first : ∀ b ∈ earlier, b.1 ≠ id) :
    owedBy (earlier ++ (id, d) :: later) id = d :: owedBy (earlier ++ later) id := by
  rw [owedBy_append, owedBy_append, owedBy_eq_nil first]
  simp [owedBy]

theorem owedBy_of_ne {earlier later : List (ℕ × D)} {i id : ℕ} {d : D} (hne : id ≠ i) :
    owedBy (earlier ++ (i, d) :: later) id = owedBy (earlier ++ later) id := by
  rw [owedBy_append, owedBy_append]
  simp [owedBy, Ne.symm hne]

/-- The first report that a request owes, with what stands before and behind it. -/
theorem exists_first {owed : List (ℕ × D)} {id : ℕ} {d : D} {ds : List D}
    (h : owedBy owed id = d :: ds) :
    ∃ earlier later, owed = earlier ++ (id, d) :: later ∧ ∀ b ∈ earlier, b.1 ≠ id := by
  induction owed with
  | nil => cases h
  | cons b owed ih =>
    by_cases hb : b.1 = id
    · rw [owedBy, List.filterMap_cons, if_pos hb] at h
      obtain ⟨hd, -⟩ := List.cons.inj h
      refine ⟨[], owed, ?_, fun _ hmem => by cases hmem⟩
      rw [← hb, ← hd]
      rfl
    · rw [owedBy, List.filterMap_cons, if_neg hb] at h
      obtain ⟨earlier, later, rfl, first⟩ := ih h
      refine ⟨b :: earlier, later, rfl, fun a ha => ?_⟩
      rcases List.mem_cons.mp ha with rfl | ha
      · exact hb
      · exact first a ha

/-- Where a request being served stands: it has yet to act and owes nothing, or it owes what is
outstanding from it. -/
def Stands (A : Accounts C Ans D) (p : Program C Ans ρ) (ds : List D) : Prop :=
  A.Acting p ∧ ds = [] ∨ A.Owing ds p

theorem Stands.of_ret {r : ρ} {ds : List D} (h : Stands A (.ret r : Program C Ans ρ) ds) :
    ds = [] := by
  rcases h with ⟨-, hds⟩ | howing
  · exact hds
  · cases howing
    rfl

theorem Stands.of_quiet {c : C} {k : Ans c → Program C Ans ρ} {ds : List D}
    (h : Stands A (.call c k) ds) (hc : A.quiet c) (a : Ans c) : Stands A (k a) ds := by
  rcases h with ⟨hacting, hds⟩ | howing
  · cases hacting with
    | skip _ rest => exact Or.inl ⟨rest a, hds⟩
    | act acts _ => exact absurd acts (A.not_acts_of_quiet hc)
  · cases howing with
    | skip _ rest => exact Or.inr (rest a)
    | report reports _ => exact absurd reports (A.not_reports_of_quiet hc)

/-- A request that acts owes nothing yet. -/
theorem Stands.of_acts {c : C} {k : Ans c → Program C Ans ρ} {ds : List D}
    (h : Stands A (.call c k) ds) (hc : A.acts c) :
    ds = [] ∧ ∀ a, ∃ ds', A.debts c a ds' ∧ A.Owing ds' (k a) := by
  rcases h with ⟨hacting, hds⟩ | howing
  · cases hacting with
    | skip quiet _ => exact absurd hc (A.not_acts_of_quiet quiet)
    | act _ rest => exact ⟨hds, rest⟩
  · cases howing with
    | skip quiet _ => exact absurd hc (A.not_acts_of_quiet quiet)
    | report reports _ => exact absurd reports (A.not_reports_of_acts hc)

theorem Stands.of_reports {c : C} {k : Ans c → Program C Ans ρ} {ds : List D} {d : D}
    (h : Stands A (.call c k) ds) (hc : A.reports c d) :
    ∃ d' ds', ds = d' :: ds' ∧ A.reports c d' ∧ ∀ a, A.Owing ds' (k a) := by
  rcases h with ⟨hacting, -⟩ | howing
  · cases hacting with
    | skip quiet _ => exact absurd hc (A.not_reports_of_quiet quiet)
    | act acts _ => exact absurd hc (A.not_reports_of_acts acts)
  · cases howing with
    | skip quiet _ => exact absurd hc (A.not_reports_of_quiet quiet)
    | report reports rest => exact ⟨_, _, rfl, reports, rest⟩

/-- Every call of a request is of one of the three kinds. -/
theorem Stands.kind {c : C} {k : Ans c → Program C Ans ρ} {ds : List D}
    (h : Stands A (.call c k) ds) : A.quiet c ∨ A.acts c ∨ ∃ d, A.reports c d := by
  rcases h with ⟨hacting, -⟩ | howing
  · cases hacting with
    | skip quiet _ => exact Or.inl quiet
    | act acts _ => exact Or.inr (Or.inl acts)
  · cases howing with
    | skip quiet _ => exact Or.inl quiet
    | report reports _ => exact Or.inr (Or.inr ⟨_, reports⟩)

/-- **Where everybody stands.**  A request that is served either has yet to act, or owes what is
outstanding from it; the others owe nothing. -/
structure Booked (A : Accounts C Ans D) (x : Config C Ans Q ρ σ) (owed : List (ℕ × D)) : Prop where
  running : ∀ id p, x.inflight id = some p → Stands A p (owedBy owed id)
  idle : ∀ id, x.inflight id = none → owedBy owed id = []

/-- One request moves, and what it owes with it. -/
theorem Booked.update (hbooked : Booked A x owed) {owed' : List (ℕ × D)} (id : ℕ)
    {v : Option (Program C Ans ρ)} {t : σ} {history : List (Event Q ρ)}
    (hself : (∀ p, v = some p → Stands A p (owedBy owed' id)) ∧ (v = none → owedBy owed' id = []))
    (hother : ∀ i ≠ id, owedBy owed' i = owedBy owed i) :
    Booked A ⟨t, Function.update x.inflight id v, history⟩ owed' where
  running := fun i p hp => by
    rcases update_some_cases hp with ⟨rfl, hv⟩ | ⟨hne, hp⟩
    · exact hself.1 p hv
    · rw [hother i hne]
      exact hbooked.running i p hp
  idle := fun i hi => by
    change Function.update x.inflight id v i = none at hi
    by_cases hne : i = id
    · subst hne
      rw [Function.update_self] at hi
      exact hself.2 hi
    · rw [Function.update_of_ne hne] at hi
      rw [hother i hne]
      exact hbooked.idle i hi

theorem Paced.booked (hprog : ∀ q, A.Acting (prog q)) (hx : Paced A conflict prog exec s x owed) :
    Booked A x owed := by
  induction hx with
  | start => exact ⟨fun _ _ hp => (by cases hp), fun _ _ => rfl⟩
  | @invoke x owed before id q fresh ih =>
    refine ih.update id ⟨fun p hp => ?_, fun h => by cases h⟩ fun _ _ => rfl
    cases hp
    refine Or.inl ⟨hprog q, ih.idle id ?_⟩
    cases hrun : x.inflight id with
    | none => rfl
    | some p =>
      obtain ⟨q', hq'⟩ := before.reachable.invoked hrun
      exact absurd hq' (fresh q')
  | quiet before id c k e running quiet ih =>
    refine ih.update id ⟨fun p hp => ?_, fun h => by cases h⟩ fun _ _ => rfl
    cases hp
    exact (ih.running id _ running).of_quiet quiet _
  | act before id c k e running acts ds debts owing ih =>
    obtain ⟨hnothing, -⟩ := (ih.running id _ running).of_acts acts
    refine ih.update id ⟨fun p hp => ?_, fun h => by cases h⟩ fun i hi => ?_
    · cases hp
      rw [owedBy_append, hnothing, owedBy_map, if_pos rfl]
      exact Or.inr owing
    · rw [owedBy_append, owedBy_map, if_neg (Ne.symm hi), List.append_nil]
  | report id before c k e running reports first inTurn ih =>
    have hstands := ih.running id _ running
    rw [owedBy_of_first first] at hstands
    obtain ⟨d', ds', hds, -, hrest⟩ := hstands.of_reports reports
    obtain ⟨-, hds⟩ := List.cons.inj hds
    refine ih.update id ⟨fun p hp => ?_, fun h => by cases h⟩ fun i hi => (owedBy_of_ne hi).symm
    cases hp
    rw [hds]
    exact Or.inr (hrest _)
  | respond before id r done ih =>
    refine ih.update id ⟨fun p hp => (by cases hp), fun _ => ?_⟩ fun _ _ => rfl
    exact (ih.running id _ done).of_ret

/-- **Nothing is outstanding when no request is being served.**  Whatever is outstanding is owed by
somebody who is still being served. -/
theorem Paced.eq_nil_of_quiet (hprog : ∀ q, A.Acting (prog q))
    (hx : Paced A conflict prog exec s x owed) (hquiet : x.Quiet) : owed = [] := by
  rw [List.eq_nil_iff_forall_not_mem]
  rintro ⟨id, d⟩ hmem
  have hnone := (hx.booked hprog).idle id (hquiet id)
  have hd : d ∈ owedBy owed id := List.mem_filterMap.mpr ⟨_, hmem, if_pos rfl⟩
  rw [hnone] at hd
  cases hd

/-- The report that has been outstanding longest is in turn. -/
theorem Paced.report_head {later : List (ℕ × D)} {d : D} (id : ℕ)
    (hx : Paced A conflict prog exec s x ((id, d) :: later)) (c : C) (k : Ans c → Program C Ans ρ)
    (e : ε) (running : x.inflight id = some (.call c k)) (reports : A.reports c d) :
    Paced A conflict prog exec s ⟨(exec c e x.shared).2,
      Function.update x.inflight id (some (k (exec c e x.shared).1)), x.history⟩ later := by
  have hx' : Paced A conflict prog exec s x ([] ++ (id, d) :: later) := hx
  exact .report id hx' c k e running reports (List.forall_mem_nil _) (List.forall_mem_nil _)

/-- A request that runs to its end while nobody else owes anything is in turn all the way. -/
theorem Paced.runs (hprog : ∀ q, A.Acting (prog q)) (hx : Paced A conflict prog exec s x owed)
    (id : ℕ) (hown : ∀ b ∈ owed, b.1 = id) {p : Program C Ans ρ} (hp : x.inflight id = some p)
    {r : ρ} {t : σ} (h : Runs exec p x.shared r t) :
    Paced A conflict prog exec s ⟨t, Function.update x.inflight id (some (.ret r)), x.history⟩
      [] := by
  obtain ⟨shared, inflight, history⟩ := x
  change Runs exec p shared r t at h
  change inflight id = some p at hp
  induction h generalizing inflight owed with
  | ret r s =>
    have hnothing := ((hx.booked hprog).running id _ hp).of_ret
    have howed : owed = [] := by
      rw [List.eq_nil_iff_forall_not_mem]
      intro b hb
      have hmem : b.2 ∈ owedBy owed id := List.mem_filterMap.mpr ⟨b, hb, if_pos (hown b hb)⟩
      rw [hnothing] at hmem
      cases hmem
    rw [← hp, Function.update_eq_self, ← howed]
    exact hx
  | call c k e s r t _ ih =>
    have hself := Function.update_self id (some (k (exec c e s).1)) inflight
    have hstands := (hx.booked hprog).running id _ hp
    suffices hrest : Paced A conflict prog exec _ ⟨t, Function.update (Function.update inflight id
        (some (k (exec c e s).1))) id (some (.ret r)), history⟩ [] by
      rwa [Function.update_idem] at hrest
    rcases hstands.kind with hquiet | hacts | ⟨d, hreports⟩
    · exact ih hown _ (hx.quiet id c k e hp hquiet) hself
    · obtain ⟨-, hrest⟩ := hstands.of_acts hacts
      obtain ⟨ds, hdebts, howing⟩ := hrest (exec c e s).1
      refine ih (fun b hb => ?_) _ (hx.act id c k e hp hacts ds hdebts howing) hself
      rcases List.mem_append.mp hb with hb | hb
      · exact hown b hb
      · obtain ⟨d, -, rfl⟩ := List.mem_map.mp hb
        rfl
    · obtain ⟨d', ds', hds, hreports', -⟩ := hstands.of_reports hreports
      obtain ⟨earlier, later, rfl, first⟩ := exists_first hds
      -- nobody else owes anything, so nothing stands in front
      have hempty : earlier = [] := by
        rw [List.eq_nil_iff_forall_not_mem]
        exact fun b hb => first b hb (hown b (List.mem_append_left _ hb))
      subst hempty
      exact ih (fun b hb => hown b (List.mem_cons_of_mem _ hb)) _
        (.report_head id hx c k e hp hreports') hself

/-! ## Settling what is outstanding -/

/-- A report that conflicts with nothing before it can be made first. -/
theorem foldl_in_turn {post : V → D → V} {conflict : D → D → Prop}
    (hcommute : ∀ a d v, ¬ conflict a d → post (post v a) d = post (post v d) a)
    {earlier : List (ℕ × D)} (later : List (ℕ × D)) {id : ℕ} {d : D}
    (inTurn : ∀ b ∈ earlier, ¬ conflict b.2 d) (v : V) :
    ((earlier ++ (id, d) :: later).map Prod.snd).foldl post v =
      ((earlier ++ later).map Prod.snd).foldl post (post v d) := by
  induction earlier generalizing v with
  | nil => rfl
  | cons b earlier ih =>
    simp only [List.cons_append, List.map_cons, List.foldl_cons]
    rw [ih (fun a ha => inTurn a (List.mem_cons_of_mem _ ha)),
      hcommute b.2 d v (inTurn b List.mem_cons_self)]

/-- **The reported state and what is outstanding agree with the acts.**  `view` is the reported
state, which only reports change, by `post`; `Agree` says of a reported state that it is up to
date. -/
theorem Paced.settled (view : σ → V) (post : V → D → V) (Agree : σ → V → Prop)
    (hstart : Agree s (view s))
    (hquiet : ∀ c e t v, A.quiet c → Agree t v →
      view (exec c e t).2 = view t ∧ Agree (exec c e t).2 v)
    (hact : ∀ c e t v ds, A.acts c → A.debts c (exec c e t).1 ds → Agree t v →
      view (exec c e t).2 = view t ∧ Agree (exec c e t).2 (ds.foldl post v))
    (hreport : ∀ c e t v d, A.reports c d → Agree t v →
      view (exec c e t).2 = post (view t) d ∧ Agree (exec c e t).2 v)
    (hcommute : ∀ a d v, ¬ conflict a d → post (post v a) d = post (post v d) a)
    (hx : Paced A conflict prog exec s x owed) :
    Agree x.shared ((owed.map Prod.snd).foldl post (view x.shared)) := by
  induction hx with
  | start => exact hstart
  | invoke _ _ _ _ ih => exact ih
  | respond _ _ _ _ ih => exact ih
  | quiet before id c k e running quiet ih =>
    obtain ⟨hview, hagree⟩ := hquiet c e _ _ quiet ih
    simp only [hview]
    exact hagree
  | act before id c k e running acts ds debts owing ih =>
    obtain ⟨hview, hagree⟩ := hact c e _ _ ds acts debts ih
    have hmap : (ds.map fun d => (id, d)).map Prod.snd = ds := by
      rw [List.map_map]
      exact List.map_id ds
    simp only [hview, List.map_append, hmap, List.foldl_append]
    exact hagree
  | @report x earlier later d id before c k e running reports first inTurn ih =>
    rw [foldl_in_turn hcommute later inTurn] at ih
    obtain ⟨hview, hagree⟩ := hreport c e _ _ d reports ih
    simp only [hview]
    exact hagree

end Facts

end Interleaving
end MultiPlayerGame
