import Mathlib.Data.Fintype.EquivFin
import MultiPlayerGame.Library.Abstraction

/-!
# Sessions: clients that send one request after another

A client is a program too.  Its calls are requests, and what it sends next may depend on the answers
so far (`Script`).  Put in the place of each request the program that serves it, and the client and
its server are one program (`expand`).

Any number of such sessions may be interleaved, call by call.  `Reachable.requests` says that this
is an interleaving of the single requests: the same shared state is reached when the requests are
sent one by one, each session's in the order of the session, the next one when the last one has been
answered.  So what has been proved of interleaved requests holds of interleaved sessions.

A request is sent right before its first call and answered right after its last one, so that as few
requests as possible overlap.  The proof carries along where each client is (`Client`).

## How the proof goes

`Simulated` relates an interleaving of sessions to one of single requests.  The session of a client
is the expansion of what is left of its script behind what is left of the request it waits for, and
both have the same shared state.  One call of a session is one call of that request.  If it was the
last call, the request is answered, the client goes on, and the next request is sent in the same
breath (`Simulated.settle`); scripts may send many requests that make no call, and all of them are
settled at once.  So one step of the sessions is some steps of the requests (`Simulated.step`), and
the relation is kept along the run.

Only one client moves in a step.  That the others stay related is the same argument each time, and
`Simulated.update` makes it once.

## Names

Requests in an interleaving have numbers, and two sessions may well choose the same.  In the proof a
request carries the number of its session with it (`named`), which makes the owner of an event part
of the event.  `Reachable.unnamed` forgets the names again.

## Orders

A linearization of the requests is an order that respects the time of each.  The requests of one
session follow each other in time, so they stand in the order in the way they were sent, and
filtering the order by the owner gives back what the client did (`session_of_linearization`).  One
request of a session may be in the order without having been answered: it has taken effect, and the
answer is still on its way.  `Decided` is about this one.
-/

namespace MultiPlayerGame
namespace Sessions

open Interleaving (Config Event Step Reachable Entry update_some_cases update_self_ne_none)

variable {C : Type} {Ans : C → Type} {Q ρ α σ ε : Type}

/-- A client that sends requests and in the end has a result. -/
abbrev Script (Q ρ α : Type) : Type := Program Q (fun _ => ρ) α

/-- A client together with what serves its requests.  Each request is replaced by the program that
serves it, and the client goes on with its answer. -/
def expand (prog : Q → Program C Ans ρ) : Script Q ρ α → Program C Ans α
  | .ret a => .ret a
  | .call q k => prog q >>= fun r => expand prog (k r)

theorem expand_bind {β : Type} (prog : Q → Program C Ans ρ) (s : Script Q ρ α)
    (f : α → Script Q ρ β) :
    expand prog (s >>= f) = expand prog s >>= fun a => expand prog (f a) := by
  induction s with
  | ret a => rfl
  | call q k ih =>
    show (prog q >>= fun r => expand prog (k r >>= f)) = _
    simp only [ih]
    exact (Program.bind_bind (prog q) _ _).symm

/-- What a client always has as its result it has with a server too. -/
theorem returns_expand {R : α → Prop} (prog : Q → Program C Ans ρ) {s : Script Q ρ α}
    (h : s.Returns R) : (expand prog s).Returns R := by
  induction s with
  | ret a => exact h
  | call q k ih =>
    exact (Program.returns_of_forall (fun _ => trivial) (prog q)).bind fun r _ => ih r (h r)

/-- `Follows s exchanges t`: with these answers to its requests, the client `s` has become `t`. -/
inductive Follows (s : Script Q ρ α) : List (Q × ρ) → Script Q ρ α → Prop where
  | nil : Follows s [] s
  | snoc {past : List (Q × ρ)} {q : Q} {k : ρ → Script Q ρ α} (before : Follows s past (.call q k))
      (r : ρ) : Follows s (past ++ [(q, r)]) (k r)

theorem Follows.ret_inv {a : α} {past : List (Q × ρ)} {t : Script Q ρ α}
    (h : Follows (.ret a) past t) : past = [] ∧ t = .ret a := by
  induction h with
  | nil => exact ⟨rfl, rfl⟩
  | snoc _ r ih => cases ih.2

/-- The first request and its answer, and what follows. -/
theorem Follows.call_inv {q : Q} {k : ρ → Script Q ρ α} {past : List (Q × ρ)} {t : Script Q ρ α}
    (h : Follows (.call q k) past t) : (past = [] ∧ t = .call q k) ∨
      ∃ r later, past = (q, r) :: later ∧ Follows (k r) later t := by
  induction h with
  | nil => exact Or.inl ⟨rfl, rfl⟩
  | snoc _ r ih =>
    rcases ih with ⟨rfl, heq⟩ | ⟨r', later, rfl, hlater⟩
    · cases heq
      exact Or.inr ⟨r, [], rfl, .nil⟩
    · exact Or.inr ⟨r', _, rfl, hlater.snoc r⟩

theorem Follows.cons {q : Q} {k : ρ → Script Q ρ α} {r : ρ} {past : List (Q × ρ)}
    {t : Script Q ρ α} (h : Follows (k r) past t) : Follows (.call q k) ((q, r) :: past) t := by
  induction h with
  | nil => exact Follows.nil.snoc r
  | snoc _ r' ih => exact ih.snoc r'

/-- Two stages in a row. -/
theorem Follows.bind_inv {β : Type} {p : Script Q ρ α} {f : α → Script Q ρ β} {b : β}
    {past : List (Q × ρ)} (h : Follows (p >>= f) past (.ret b)) : ∃ a early late,
      past = early ++ late ∧ Follows p early (.ret a) ∧ Follows (f a) late (.ret b) := by
  induction p generalizing past with
  | ret a => exact ⟨a, [], past, rfl, .nil, h⟩
  | call q k ih =>
    rcases h.call_inv with ⟨-, heq⟩ | ⟨r, later, rfl, hlater⟩
    · cases heq
    · obtain ⟨a, early, late, rfl, hearly, hlate⟩ := ih r hlater
      exact ⟨a, (q, r) :: early, late, rfl, hearly.cons, hlate⟩

/-- What is done with the result comes after all requests. -/
theorem Follows.bind_ret {β : Type} {p : Script Q ρ α} {past : List (Q × ρ)} {a : α}
    (h : Follows p past (.ret a)) (f : α → β) :
    Follows (p >>= fun a => .ret (f a)) past (.ret (f a)) := by
  generalize ht : (Program.ret a : Script Q ρ α) = t at h
  have hall : Follows (p >>= fun a => .ret (f a)) past (t >>= fun a => .ret (f a)) := by
    clear ht
    induction h with
    | nil => exact .nil
    | snoc _ r ih => exact ih.snoc r
  subst ht
  exact hall

/-- What is done with the result in the end does not matter for the requests. -/
theorem Follows.of_bind_ret {β : Type} {p : Script Q ρ α} {f : α → β} {past : List (Q × ρ)}
    {t : Script Q ρ β} (h : Follows (p >>= fun a => .ret (f a)) past t) :
    ∃ t', Follows p past t' := by
  induction p generalizing past with
  | ret a => exact ⟨.ret a, h.ret_inv.1 ▸ .nil⟩
  | call q k ih =>
    rcases h.call_inv with ⟨rfl, -⟩ | ⟨r, later, rfl, hlater⟩
    · exact ⟨_, .nil⟩
    · obtain ⟨t', ht'⟩ := ih r hlater
      exact ⟨t', ht'.cons⟩

/-- Requests that carry the name of their session. -/
def named (prog : Q → Program C Ans ρ) (t : ℕ × Q) : Program C Ans (ℕ × ρ) :=
  prog t.2 >>= fun r => .ret (t.1, r)

/-- The session of an event. -/
def owner : Event (ℕ × Q) (ℕ × ρ) → ℕ
  | .invoke _ t => t.1
  | .respond _ t => t.1

/-- What happens to the requests of a session.  The events of the others are left out, and the order
stays. -/
def eventsOf (i : ℕ) (history : List (Event (ℕ × Q) (ℕ × ρ))) : List (Event (ℕ × Q) (ℕ × ρ)) :=
  history.filter fun ev => owner ev = i

/-- One request after another, each sent and answered. -/
def told (i : ℕ) (entries : List (Entry Q ρ)) : List (Event (ℕ × Q) (ℕ × ρ)) :=
  entries.flatMap fun a => [.invoke a.id (i, a.request), .respond a.id (i, a.answer)]

/-- A request that has been sent and not answered, if there is one. -/
def waiting (i : ℕ) (last : Option (ℕ × Q)) : List (Event (ℕ × Q) (ℕ × ρ)) :=
  last.toList.map fun t => .invoke t.1 (i, t.2)

/-- The requests and answers of some entries. -/
def exchanges (entries : List (Entry Q ρ)) : List (Q × ρ) :=
  entries.map fun a => (a.request, a.answer)

section Events

variable {i i' : ℕ} {history : List (Event (ℕ × Q) (ℕ × ρ))} {ev : Event (ℕ × Q) (ℕ × ρ)}

theorem eventsOf_snoc_self (i : ℕ) (ev : Event (ℕ × Q) (ℕ × ρ)) (hev : owner ev = i) :
    eventsOf i (history ++ [ev]) = eventsOf i history ++ [ev] := by
  simp [eventsOf, hev]

theorem eventsOf_snoc_of_ne (hev : owner ev ≠ i) :
    eventsOf i (history ++ [ev]) = eventsOf i history := by
  simp [eventsOf, hev]

theorem mem_of_mem_eventsOf (h : ev ∈ eventsOf i history) : ev ∈ history :=
  (List.mem_filter.mp h).1

theorem told_snoc (a : Entry Q ρ) (entries : List (Entry Q ρ)) :
    told i (entries ++ [a]) =
      told i entries ++ [.invoke a.id (i, a.request)] ++ [.respond a.id (i, a.answer)] := by
  simp [told]

theorem exchanges_snoc (a : Entry Q ρ) (entries : List (Entry Q ρ)) :
    exchanges (entries ++ [a]) = exchanges entries ++ [(a.request, a.answer)] := by
  simp [exchanges]

/-- There is always a name for another request. -/
theorem exists_fresh (history : List (Event (ℕ × Q) (ℕ × ρ))) :
    ∃ j, ∀ t, .invoke j t ∉ history := by
  obtain ⟨j, hj⟩ := Infinite.exists_notMem_finset (history.map fun
    | .invoke id _ => id
    | .respond id _ => id).toFinset
  refine ⟨j, fun t ht => hj (List.mem_toFinset.mpr ?_)⟩
  exact List.mem_map.mpr ⟨_, ht, rfl⟩

end Events

/-! ## Where the clients are -/

/-- Where a client is: about to go on, or waiting for the answer to a request.  Of the request there
are its name, what is left of it, and how the client goes on. -/
inductive Position (C : Type) (Ans : C → Type) (Q ρ α : Type) where
  | idle (rest : Script Q ρ α)
  | busy (j : ℕ) (q : Q) (m : Program C Ans ρ) (k : ρ → Script Q ρ α)

/-- A client that has begun, with the requests that have been answered. -/
structure Client (C : Type) (Ans : C → Type) (Q ρ α : Type) where
  script : Script Q ρ α
  entries : List (Entry Q ρ)
  position : Position C Ans Q ρ α

/-- What is left of the session. -/
def Position.program (prog : Q → Program C Ans ρ) : Position C Ans Q ρ α → Program C Ans α
  | .idle rest => expand prog rest
  | .busy _ _ m k => m >>= fun r => expand prog (k r)

/-- The requests of a client and what has become of them. -/
def Client.Told (i : ℕ) (y : Config C Ans (ℕ × Q) (ℕ × ρ) σ) (cl : Client C Ans Q ρ α) : Prop :=
  match cl.position with
  | .idle rest => Follows cl.script (exchanges cl.entries) rest ∧
      eventsOf i y.history = told i cl.entries
  | .busy j q m k => Follows cl.script (exchanges cl.entries) (.call q k) ∧
      eventsOf i y.history = told i cl.entries ++ [.invoke j (i, q)] ∧
      y.inflight j = some (m >>= fun r => .ret (i, r))

/-- A session is in progress, or it is over and the client has its result. -/
def Client.Running (prog : Q → Program C Ans ρ) (i : ℕ) (x : Config C Ans (Script Q ρ α) α σ)
    (cl : Client C Ans Q ρ α) : Prop :=
  x.inflight i = some (cl.position.program prog) ∨
    x.inflight i = none ∧ ∃ a, cl.position = .idle (.ret a) ∧ .respond i a ∈ x.history

/-- The sessions `x` are the requests `y`, with the clients where `clients` says. -/
structure Simulated (prog : Q → Program C Ans ρ) (x : Config C Ans (Script Q ρ α) α σ)
    (y : Config C Ans (ℕ × Q) (ℕ × ρ) σ) (clients : ℕ → Option (Client C Ans Q ρ α)) : Prop where
  shared : y.shared = x.shared
  present : ∀ i cl, clients i = some cl →
    .invoke i cl.script ∈ x.history ∧ cl.Told i y ∧ cl.Running prog i x
  absent : ∀ i, clients i = none →
    x.inflight i = none ∧ eventsOf i y.history = [] ∧ ∀ script, .invoke i script ∉ x.history
  owned : ∀ j m, y.inflight j = some m → ∃ i cl q m' k, clients i = some cl ∧
    cl.position = .busy j q m' k ∧ x.inflight i ≠ none

section Simulation

variable {prog : Q → Program C Ans ρ} {exec : (c : C) → ε → σ → Ans c × σ} {s : σ}
  {x x' : Config C Ans (Script Q ρ α) α σ} {y y' : Config C Ans (ℕ × Q) (ℕ × ρ) σ}
  {clients : ℕ → Option (Client C Ans Q ρ α)} {i : ℕ}

/-- Nothing has happened to the requests of this client. -/
theorem Client.Told.frame {cl : Client C Ans Q ρ α} (h : cl.Told i y)
    (hevents : eventsOf i y'.history = eventsOf i y.history)
    (hinflight : ∀ j q, .invoke j (i, q) ∈ y.history → y'.inflight j = y.inflight j) :
    cl.Told i y' := by
  unfold Told at h ⊢
  cases hpos : cl.position with
  | idle rest =>
    rw [hpos] at h
    exact ⟨h.1, hevents.trans h.2⟩
  | busy j q m k =>
    rw [hpos] at h
    obtain ⟨hfollows, htold, hm⟩ := h
    have hmem : .invoke j (i, q) ∈ y.history := mem_of_mem_eventsOf (i := i) (by simp [htold])
    exact ⟨hfollows, hevents.trans htold, (hinflight j q hmem).trans hm⟩

/-- A client that is served has sent its request. -/
theorem Client.Told.invoked {cl : Client C Ans Q ρ α} (h : cl.Told i y) {j : ℕ} {q : Q}
    {m : Program C Ans ρ} {k : ρ → Script Q ρ α} (hpos : cl.position = .busy j q m k) :
    .invoke j (i, q) ∈ y.history := by
  unfold Told at h
  rw [hpos] at h
  exact mem_of_mem_eventsOf (i := i) (by simp [h.2.1])

/-- **One client moves on**, and with it its request: the other clients stay where they are. -/
theorem Simulated.update (h : Simulated prog x y clients) {cl cl' : Client C Ans Q ρ α}
    (hcl : clients i = some cl) (hshared : y'.shared = x'.shared)
    (hscript : cl'.script = cl.script) (hhistory : ∀ ev, ev ∈ x.history → ev ∈ x'.history)
    (hinvoked : ∀ i' script, .invoke i' script ∈ x'.history → .invoke i' script ∈ x.history)
    (hother : ∀ i' ≠ i, x'.inflight i' = x.inflight i')
    (hevents : ∀ i' ≠ i, eventsOf i' y'.history = eventsOf i' y.history)
    (hinflight : ∀ i' ≠ i, ∀ j q, .invoke j (i', q) ∈ y.history → y'.inflight j = y.inflight j)
    (htold : cl'.Told i y') (hrunning : cl'.Running prog i x')
    (howned : ∀ j m, y'.inflight j = some m →
      (∃ q m' k, cl'.position = .busy j q m' k ∧ x'.inflight i ≠ none) ∨
        y.inflight j = some m ∧ ∀ q m' k, cl.position ≠ .busy j q m' k) :
    Simulated prog x' y' (Function.update clients i (some cl')) where
  shared := hshared
  present := by
    intro i' cl'' hcl''
    rcases update_some_cases hcl'' with ⟨rfl, hsome⟩ | ⟨hne, hcl''⟩
    · cases hsome
      rw [hscript]
      exact ⟨hhistory _ (h.present i' cl hcl).1, htold, hrunning⟩
    · obtain ⟨hinv, htold'', hrunning''⟩ := h.present i' cl'' hcl''
      refine ⟨hhistory _ hinv, htold''.frame (hevents i' hne) (hinflight i' hne), ?_⟩
      unfold Client.Running at hrunning'' ⊢
      rw [hother i' hne]
      exact hrunning''.imp_right fun ⟨hnone, a, ha, hresp⟩ => ⟨hnone, a, ha, hhistory _ hresp⟩
  absent := by
    intro i' hnone
    by_cases hi : i' = i
    · subst hi
      rw [Function.update_self] at hnone
      cases hnone
    · rw [Function.update_of_ne hi] at hnone
      obtain ⟨hinflight', hevents', hno⟩ := h.absent i' hnone
      exact ⟨(hother i' hi).trans hinflight', (hevents i' hi).trans hevents',
        fun script hmem => hno script (hinvoked i' script hmem)⟩
  owned := by
    intro j m hj
    rcases howned j m hj with ⟨q, m', k, hpos, hrun⟩ | ⟨hy, hnot⟩
    · exact ⟨i, cl', q, m', k, Function.update_self .., hpos, hrun⟩
    · obtain ⟨i', cl'', q, m', k, hcl'', hpos, hrun⟩ := h.owned j m hy
      have hi : i' ≠ i := by
        rintro rfl
        rw [hcl] at hcl''
        cases hcl''
        exact hnot q m' k hpos
      exact ⟨i', cl'', q, m', k, by rwa [Function.update_of_ne hi], hpos, by rwa [hother i' hi]⟩

/-- A client sends its next request. -/
theorem Simulated.send (h : Simulated prog x y clients) {cl : Client C Ans Q ρ α}
    (hcl : clients i = some cl) {q : Q} {k : ρ → Script Q ρ α}
    (hpos : cl.position = .idle (.call q k))
    (hrun : x.inflight i ≠ none) {j : ℕ} (fresh : ∀ t, .invoke j t ∉ y.history) :
    Simulated prog x
      ⟨y.shared, Function.update y.inflight j (some (named prog (i, q))),
        y.history ++ [.invoke j (i, q)]⟩
      (Function.update clients i (some ⟨cl.script, cl.entries, .busy j q (prog q) k⟩)) := by
  obtain ⟨-, htold, hrunning⟩ := h.present i cl hcl
  unfold Client.Told at htold
  rw [hpos] at htold
  obtain ⟨hfollows, hevents⟩ := htold
  refine h.update hcl h.shared rfl (fun _ hev => hev) (fun _ _ hev => hev) (fun _ _ => rfl)
    (fun i' hi => eventsOf_snoc_of_ne (Ne.symm hi)) ?_ ⟨hfollows, ?_, Function.update_self ..⟩ ?_ ?_
  · intro i' _ j' q' hj'
    have hne : j' ≠ j := fun heq => fresh (i', q') (heq ▸ hj')
    exact Function.update_of_ne hne _ _
  · refine (eventsOf_snoc_self i (.invoke j (i, q)) rfl).trans ?_
    rw [hevents]
  · rcases hrunning with hp | ⟨hnone, -⟩
    · rw [hpos] at hp
      exact Or.inl hp
    · exact absurd hnone hrun
  · intro j' m hm
    rcases update_some_cases hm with ⟨rfl, -⟩ | ⟨-, hm⟩
    · exact Or.inl ⟨q, prog q, k, rfl, hrun⟩
    · refine Or.inr ⟨hm, fun q' m' k' hbusy => ?_⟩
      rw [hpos] at hbusy
      cases hbusy

/-- A client receives the answer to its request. -/
theorem Simulated.answer (h : Simulated prog x y clients) {cl : Client C Ans Q ρ α}
    (hcl : clients i = some cl) {j : ℕ} {q : Q} {r : ρ} {k : ρ → Script Q ρ α}
    (hpos : cl.position = .busy j q (.ret r) k) (hrun : x.inflight i ≠ none)
    (honce : ∀ t, .invoke j t ∈ y.history → t = (i, q)) :
    y.inflight j = some (.ret (i, r)) ∧
      Simulated prog x
        ⟨y.shared, Function.update y.inflight j none, y.history ++ [.respond j (i, r)]⟩
        (Function.update clients i
          (some ⟨cl.script, cl.entries ++ [⟨j, q, r⟩], .idle (k r)⟩)) := by
  obtain ⟨-, htold, hrunning⟩ := h.present i cl hcl
  unfold Client.Told at htold
  rw [hpos] at htold
  obtain ⟨hfollows, hevents, hj⟩ := htold
  refine ⟨hj, h.update hcl h.shared rfl (fun _ hev => hev) (fun _ _ hev => hev) (fun _ _ => rfl)
    (fun i' hi => eventsOf_snoc_of_ne (Ne.symm hi)) ?_ ⟨?_, ?_⟩ ?_ ?_⟩
  · intro i' hi j' q' hj'
    have hne : j' ≠ j := by
      rintro rfl
      exact hi (congrArg Prod.fst (honce _ hj'))
    exact Function.update_of_ne hne _ _
  · rw [exchanges_snoc]
    exact hfollows.snoc r
  · refine (eventsOf_snoc_self i (.respond j (i, r)) rfl).trans ?_
    rw [hevents, told_snoc]
  · rcases hrunning with hp | ⟨hnone, -⟩
    · rw [hpos] at hp
      exact Or.inl hp
    · exact absurd hnone hrun
  · intro j' m hm
    rcases update_some_cases hm with ⟨-, hv⟩ | ⟨hne, hm⟩
    · cases hv
    · refine Or.inr ⟨hm, fun q' m' k' hbusy => ?_⟩
      rw [hpos] at hbusy
      cases hbusy
      exact hne rfl

/-- A client catches up with what it has been served: it has sent all requests that are answered
without a call, and if its session goes on it waits for the answer to a request that makes one. -/
theorem Simulated.settle_idle (hy : Reachable (named prog) exec s y)
    (h : Simulated prog x y clients)
    {cl : Client C Ans Q ρ α} (hcl : clients i = some cl) {rest : Script Q ρ α}
    (hpos : cl.position = .idle rest) (hrun : x.inflight i ≠ none) :
    ∃ y' clients' cl', Reachable (named prog) exec s y' ∧ Simulated prog x y' clients' ∧
      clients' i = some cl' ∧
      ((∃ a, cl'.position = .idle (.ret a)) ∨
        ∃ j q c m k, cl'.position = .busy j q (.call c m) k) := by
  induction rest generalizing y clients cl with
  | ret a => exact ⟨y, clients, cl, hy, h, hcl, Or.inl ⟨a, hpos⟩⟩
  | call q k ih =>
    obtain ⟨j, fresh⟩ := exists_fresh y.history
    have hy' := hy.tail (.invoke y j (i, q) fresh)
    have h' := h.send hcl hpos hrun fresh
    generalize hm : prog q = m at h'
    cases m with
    | call c m =>
      exact ⟨_, _, _, hy', h', Function.update_self .., Or.inr ⟨j, q, c, m, k, rfl⟩⟩
    | ret r =>
      -- answered at once: on to the next request
      obtain ⟨hj, h''⟩ := h'.answer (Function.update_self ..) rfl hrun fun t ht =>
        Reachable.invoked_once hy' ht (List.mem_append_right _ (List.mem_singleton_self _))
      exact ih r (hy'.tail (.respond _ j (i, r) hj)) h'' (Function.update_self ..) rfl

theorem Simulated.settle (hy : Reachable (named prog) exec s y) (h : Simulated prog x y clients)
    {cl : Client C Ans Q ρ α} (hcl : clients i = some cl) (hrun : x.inflight i ≠ none) :
    ∃ y' clients' cl', Reachable (named prog) exec s y' ∧ Simulated prog x y' clients' ∧
      clients' i = some cl' ∧
      ((∃ a, cl'.position = .idle (.ret a)) ∨
        ∃ j q c m k, cl'.position = .busy j q (.call c m) k) := by
  cases hpos : cl.position with
  | idle rest => exact h.settle_idle hy hcl hpos hrun
  | busy j q m k =>
    cases m with
    | call c m => exact ⟨y, clients, cl, hy, h, hcl, Or.inr ⟨j, q, c, m, k, hpos⟩⟩
    | ret r =>
      have hinvoked := (h.present i cl hcl).2.1.invoked hpos
      obtain ⟨hj, h'⟩ := h.answer hcl hpos hrun fun t ht => Reachable.invoked_once hy ht hinvoked
      exact h'.settle_idle (hy.tail (.respond _ j (i, r) hj)) (Function.update_self ..) rfl hrun

/-- A new client. -/
theorem Simulated.invoke (h : Simulated prog x y clients) {script : Script Q ρ α}
    (fresh : ∀ script', .invoke i script' ∉ x.history) :
    Simulated prog
      ⟨x.shared, Function.update x.inflight i (some (expand prog script)),
        x.history ++ [.invoke i script]⟩ y
      (Function.update clients i (some ⟨script, [], .idle script⟩)) := by
  have hno : clients i = none := by
    cases hcl : clients i with
    | none => rfl
    | some cl => exact absurd (h.present i cl hcl).1 (fresh _)
  refine ⟨h.shared, ?_, ?_, ?_⟩
  · intro i' cl hcl
    rcases update_some_cases hcl with ⟨rfl, hsome⟩ | ⟨hi, hcl⟩
    · cases hsome
      exact ⟨List.mem_append_right _ (List.mem_singleton_self _), ⟨.nil, (h.absent i' hno).2.1⟩,
        Or.inl (Function.update_self ..)⟩
    · obtain ⟨hinv, htold, hrunning⟩ := h.present i' cl hcl
      refine ⟨List.mem_append_left _ hinv, htold, ?_⟩
      have hsame := Function.update_of_ne hi (some (expand prog script)) x.inflight
      exact hrunning.imp hsame.trans fun ⟨hnone, a, ha, hresp⟩ =>
        ⟨hsame.trans hnone, a, ha, List.mem_append_left _ hresp⟩
  · intro i' hnone
    by_cases hi : i' = i
    · subst hi
      rw [Function.update_self] at hnone
      cases hnone
    · rw [Function.update_of_ne hi] at hnone
      obtain ⟨hinflight, hevents, hnever⟩ := h.absent i' hnone
      refine ⟨(Function.update_of_ne hi _ _).trans hinflight, hevents, fun script' hmem => ?_⟩
      rcases List.mem_append.mp hmem with hmem | hmem
      · exact hnever script' hmem
      · cases List.mem_singleton.mp hmem
        exact hi rfl
  · intro j m hj
    obtain ⟨i', cl, q, m', k, hcl, hpos, hrun⟩ := h.owned j m hj
    have hi : i' ≠ i := by
      rintro rfl
      rw [hno] at hcl
      cases hcl
    refine ⟨i', cl, q, m', k, by rwa [Function.update_of_ne hi], hpos, ?_⟩
    change Function.update x.inflight i _ i' ≠ none
    rwa [Function.update_of_ne hi]

/-- The request a client waits for makes a call. -/
theorem Simulated.call (h : Simulated prog x y clients) {cl : Client C Ans Q ρ α}
    (hcl : clients i = some cl) {j : ℕ} {q : Q} {c : C} {m : Ans c → Program C Ans ρ}
    {k : ρ → Script Q ρ α} (hpos : cl.position = .busy j q (.call c m) k)
    (honce : ∀ t, .invoke j t ∈ y.history → t = (i, q)) (a : Ans c) (t : σ) :
    y.inflight j = some (.call c fun a => m a >>= fun r => .ret (i, r)) ∧
      Simulated prog
        ⟨t, Function.update x.inflight i (some (m a >>= fun r => expand prog (k r))), x.history⟩
        ⟨t, Function.update y.inflight j (some (m a >>= fun r => .ret (i, r))), y.history⟩
        (Function.update clients i (some ⟨cl.script, cl.entries, .busy j q (m a) k⟩)) := by
  obtain ⟨-, htold, -⟩ := h.present i cl hcl
  unfold Client.Told at htold
  rw [hpos] at htold
  obtain ⟨hfollows, hevents, hj⟩ := htold
  refine ⟨hj, h.update hcl rfl rfl (fun _ hev => hev) (fun _ _ hev => hev)
    (fun i' hi => Function.update_of_ne hi _ _) (fun _ _ => rfl) ?_
    ⟨hfollows, hevents, Function.update_self ..⟩ (Or.inl (Function.update_self ..)) ?_⟩
  · intro i' hi j' q' hj'
    have hne : j' ≠ j := by
      rintro rfl
      exact hi (congrArg Prod.fst (honce _ hj'))
    exact Function.update_of_ne hne _ _
  · intro j' m' hm'
    rcases update_some_cases hm' with ⟨rfl, -⟩ | ⟨hne, hm'⟩
    · exact Or.inl ⟨q, m a, k, rfl, update_self_ne_none⟩
    · refine Or.inr ⟨hm', fun q' m'' k' hbusy => ?_⟩
      rw [hpos] at hbusy
      cases hbusy
      exact hne rfl

/-- A session is over. -/
theorem Simulated.respond (h : Simulated prog x y clients) {cl : Client C Ans Q ρ α}
    (hcl : clients i = some cl) {a : α} (hpos : cl.position = .idle (.ret a)) :
    Simulated prog
      ⟨x.shared, Function.update x.inflight i none, x.history ++ [.respond i a]⟩ y
      (Function.update clients i (some cl)) := by
  obtain ⟨-, htold, -⟩ := h.present i cl hcl
  refine h.update hcl h.shared rfl (fun _ hev => List.mem_append_left _ hev)
    (fun i' script hev => by simpa using hev) (fun i' hi => Function.update_of_ne hi _ _)
    (fun _ _ => rfl) (fun _ _ _ _ _ => rfl) htold
    (Or.inr ⟨Function.update_self .., a, hpos,
      List.mem_append_right _ (List.mem_singleton_self _)⟩) ?_
  intro j m hm
  refine Or.inr ⟨hm, fun q m' k hbusy => ?_⟩
  rw [hpos] at hbusy
  cases hbusy

/-- **One step** of the sessions is some steps of the requests.  These are the call itself, and the
answers and new requests that it makes possible. -/
theorem Simulated.step (hy : Reachable (named prog) exec s y) (h : Simulated prog x y clients)
    (hstep : Step (expand prog) exec x x') :
    ∃ y' clients', Reachable (named prog) exec s y' ∧ Simulated prog x' y' clients' := by
  -- a session that is in progress has a client, who catches up first
  have hsettle : ∀ {i : ℕ} {p : Program C Ans α}, x.inflight i = some p →
      ∃ y' clients' cl, Reachable (named prog) exec s y' ∧ Simulated prog x y' clients' ∧
        clients' i = some cl ∧ p = cl.position.program prog ∧
        ((∃ a, cl.position = .idle (.ret a)) ∨
          ∃ j q c m k, cl.position = .busy j q (.call c m) k) := by
    intro i p hp
    have hrun : x.inflight i ≠ none := by
      rw [hp]
      exact Option.some_ne_none p
    cases hcl : clients i with
    | none => exact absurd (h.absent i hcl).1 hrun
    | some cl =>
      obtain ⟨y', clients', cl', hy', h', hcl', hpos⟩ := h.settle hy hcl hrun
      refine ⟨y', clients', cl', hy', h', hcl', ?_, hpos⟩
      rcases (h'.present i cl' hcl').2.2 with hp' | ⟨hnone, -⟩
      · exact Option.some.inj (hp.symm.trans hp')
      · exact absurd hnone hrun
  cases hstep with
  | invoke i script fresh => exact ⟨y, _, hy, h.invoke fresh⟩
  | call i c k e running =>
    obtain ⟨y', clients', cl, hy', h', hcl, hprogram, hpos | hpos⟩ := hsettle running
    · obtain ⟨a, hpos⟩ := hpos
      rw [hpos] at hprogram
      cases hprogram
    · obtain ⟨j, q, c', m, k', hpos⟩ := hpos
      rw [hpos] at hprogram
      cases hprogram
      have hinvoked := (h'.present i cl hcl).2.1.invoked hpos
      obtain ⟨hj, h''⟩ := h'.call hcl hpos (fun t ht => Reachable.invoked_once hy' ht hinvoked)
        (exec c e x.shared).1 (exec c e x.shared).2
      have hnext := hy'.tail (.call y' j c _ e hj)
      rw [h'.shared] at hnext
      exact ⟨_, _, hnext, h''⟩
  | respond i a done =>
    obtain ⟨y', clients', cl, hy', h', hcl, hprogram, hpos | hpos⟩ := hsettle done
    · obtain ⟨a', hpos⟩ := hpos
      rw [hpos] at hprogram
      cases hprogram
      exact ⟨y', _, hy', h'.respond hcl hpos⟩
    · obtain ⟨j, q, c', m, k', hpos⟩ := hpos
      rw [hpos] at hprogram
      cases hprogram

/-- What sessions say about the requests they are made of. -/
structure AsRequests (x : Config C Ans (Script Q ρ α) α σ) (y : Config C Ans (ℕ × Q) (ℕ × ρ) σ) :
    Prop where
  shared : y.shared = x.shared
  /-- The requests of a session were sent one by one, as its client sends them, and all but the last
  one have been answered. -/
  begun : ∀ i script, .invoke i script ∈ x.history → ∃ entries last rest,
    Follows script (exchanges entries) rest ∧ (∀ t ∈ last, ∃ k, rest = .call t.2 k) ∧
      eventsOf i y.history = told i entries ++ waiting i last
  /-- Those of a session that is over have all been answered, and its result is the client's. -/
  finished : ∀ i script a, .invoke i script ∈ x.history → .respond i a ∈ x.history → ∃ entries,
    Follows script (exchanges entries) (.ret a) ∧ eventsOf i y.history = told i entries
  /-- No other requests were sent. -/
  owned : ∀ j i q, .invoke j (i, q) ∈ y.history → ∃ script, .invoke i script ∈ x.history
  quiet : x.Quiet → y.Quiet

/-- Wherever the sessions are, there are clients and requests that are there too. -/
theorem exists_simulated (hx : Reachable (expand prog) exec s x) :
    ∃ y clients, Reachable (named prog) exec s y ∧ Simulated prog x y clients := by
  induction hx with
  | refl =>
    refine ⟨.start s, fun _ => none, .refl, rfl, ?_, ?_, ?_⟩
    · intro i cl hcl
      cases hcl
    · exact fun i _ => ⟨rfl, rfl, fun script hmem => by cases hmem⟩
    · intro j m hj
      cases hj
  | tail _ hstep ih =>
    obtain ⟨y, clients, hy, h⟩ := ih
    exact h.step hy hstep

/-- The client of a session. -/
theorem Simulated.exists_client (h : Simulated prog x y clients)
    (hx : Reachable (expand prog) exec s x) {script : Script Q ρ α}
    (hinv : .invoke i script ∈ x.history) : ∃ cl, clients i = some cl ∧ cl.script = script := by
  cases hcl : clients i with
  | none => exact absurd hinv ((h.absent i hcl).2.2 script)
  | some cl => exact ⟨cl, rfl, Reachable.invoked_once hx (h.present i cl hcl).1 hinv⟩

/-- **Sessions are interleavings of single requests.**  The shared state is the same, and each
session has sent its requests one by one. -/
theorem Reachable.requests (hx : Reachable (expand prog) exec s x) :
    ∃ y, Reachable (named prog) exec s y ∧ AsRequests x y := by
  obtain ⟨y, clients, hy, h⟩ := exists_simulated hx
  refine ⟨y, hy, h.shared, ?_, ?_, ?_, ?_⟩
  · intro i script hinv
    obtain ⟨cl, hcl, rfl⟩ := h.exists_client hx hinv
    have htold := (h.present i cl hcl).2.1
    unfold Client.Told at htold
    cases hpos : cl.position with
    | idle rest =>
      rw [hpos] at htold
      exact ⟨cl.entries, none, rest, htold.1, fun t ht => (by cases ht),
        htold.2.trans (List.append_nil _).symm⟩
    | busy j q m k =>
      rw [hpos] at htold
      refine ⟨cl.entries, some (j, q), .call q k, htold.1, fun t ht => ?_, htold.2.1⟩
      cases ht
      exact ⟨k, rfl⟩
  · intro i script a hinv hresp
    obtain ⟨cl, hcl, rfl⟩ := h.exists_client hx hinv
    obtain ⟨-, htold, hrunning⟩ := h.present i cl hcl
    rcases hrunning with hp | ⟨-, a', hpos, hresp'⟩
    · cases hp.symm.trans (Reachable.done_of_answered hx hresp)
    · cases Reachable.answered_once hx hresp hresp'
      unfold Client.Told at htold
      rw [hpos] at htold
      exact ⟨cl.entries, htold⟩
  · intro j i q hinv
    cases hcl : clients i with
    | none =>
      have hmem : .invoke j (i, q) ∈ eventsOf i y.history :=
        List.mem_filter.mpr ⟨hinv, decide_eq_true rfl⟩
      rw [(h.absent i hcl).2.1] at hmem
      cases hmem
    | some cl => exact ⟨cl.script, (h.present i cl hcl).1⟩
  · intro hquiet j
    cases hj : y.inflight j with
    | none => rfl
    | some m =>
      obtain ⟨i, cl, q, m', k, -, -, hrun⟩ := h.owned j m hj
      exact absurd (hquiet i) hrun

end Simulation

/-- **The names may be left out.**  What a request does and is answered does not depend on the
session that has sent it. -/
theorem Reachable.unnamed {prog : Q → Program C Ans ρ} {exec : (c : C) → ε → σ → Ans c × σ} {s : σ}
    {y : Config C Ans (ℕ × Q) (ℕ × ρ) σ} (hy : Reachable (named prog) exec s y) :
    ∃ z, Reachable prog exec s z ∧ z.shared = y.shared ∧
      z.history = y.history.map (Event.map Prod.snd Prod.snd) := by
  have hprog : ∀ t : ℕ × Q,
      Program.Abstracts Program.plainly Prod.snd (named prog t) (prog t.2) := by
    intro t
    have h := Program.abstracts_result (named prog t) Prod.snd
    rw [named, Program.bind_bind] at h
    have hret : (prog t.2 >>= fun r => Program.ret (t.1, r) >>= fun a => .ret a.2) = prog t.2 :=
      Program.bind_ret _
    rwa [hret] at h
  obtain ⟨z, hz, habs⟩ :=
    Interleaving.Reachable.abstracts (Interleaving.refines_plainly exec) hprog hy
  exact ⟨z, hz, habs.shared, habs.history⟩

/-- The same for requests that are served one at a time. -/
theorem served_unnamed {prog : Q → Program C Ans ρ} {exec : (c : C) → ε → σ → Ans c × σ} {s t : σ}
    {past : List ((ℕ × Q) × (ℕ × ρ))} (h : Program.Served (named prog) exec s past t) :
    Program.Served prog exec s (past.map fun e => (e.1.2, e.2.2)) t := by
  induction h with
  | nil => exact .nil
  | snoc _ last ih =>
    obtain ⟨r, u, hrun, hret⟩ := Program.runs_bind.mp last
    obtain ⟨rfl, rfl⟩ := Program.runs_ret.mp hret
    rw [List.map_append]
    exact ih.snoc hrun

/-! ## The requests of a session, in an order of all requests -/

section Order

open Interleaving (Before IsLinearization Atomic)

variable {history : List (Event Q ρ)} {i j : ℕ}

/-- A request that makes no more calls than one of the class is of the class. -/
theorem atomic_named {seen : C → Prop} {prog : Q → Program C Ans ρ} {t : ℕ × Q}
    (h : Atomic seen (prog t.2)) : Atomic seen (named prog t) := by
  rcases h with ⟨r, hr⟩ | ⟨c, f, hc, hf⟩
  · exact Or.inl ⟨(t.1, r), hr.bind fun _ => .ret _⟩
  · exact Or.inr ⟨c, fun x => (t.1, f x), hc, hf.bind fun _ => .ret _⟩

theorem not_before_self {prog : Q → Program C Ans ρ} {exec : (c : C) → ε → σ → Ans c × σ} {s : σ}
    {x : Config C Ans Q ρ σ} (hx : Reachable prog exec s x) : ¬ Before x.history i i := by
  induction hx with
  | refl =>
    intro h
    obtain ⟨r, hr⟩ := h.respond_mem
    cases hr
  | tail hbefore hstep ih =>
    cases hstep with
    | invoke id q fresh =>
      intro h
      rcases h.of_snoc with h | ⟨q', hev, r, hr⟩
      · exact ih h
      · cases hev
        obtain ⟨q'', hq''⟩ := Reachable.invoked_of_respond hbefore hr
        exact fresh q'' hq''
    | call => exact ih
    | respond id r done =>
      intro h
      rcases h.of_snoc with h | ⟨q', hev, -⟩
      · exact ih h
      · cases hev

/-- No two requests precede each other. -/
theorem Before.asymm {history : List (Event Q ρ)} (hself : ∀ i, ¬ Before history i i)
    (h : Before history i j) : ¬ Before history j i := by
  intro h'
  obtain ⟨past, future, rfl, hi, hj⟩ := h
  obtain ⟨past', future', heq, ⟨r, hr⟩, q, hq⟩ := h'
  rcases List.append_eq_append_iff.mp heq with ⟨mid, rfl, rfl⟩ | ⟨mid, rfl, rfl⟩
  · exact hself i ⟨past, mid ++ future', rfl, hi, q, List.mem_append_right _ hq⟩
  · exact hself j ⟨past' ++ mid, future, rfl, ⟨r, List.mem_append_left _ hr⟩, hj⟩

/-- The requests of a session precede each other as they were sent. -/
theorem pairwise_before {history : List (Event (ℕ × Q) (ℕ × ρ))} {entries : List (Entry Q ρ)}
    {rest : List (Event (ℕ × Q) (ℕ × ρ))} (h : eventsOf i history = told i entries ++ rest) :
    entries.Pairwise fun a b => Before history a.id b.id := by
  induction entries generalizing history with
  | nil => exact .nil
  | cons a entries ih =>
    obtain ⟨past, future, rfl, hpast, hfuture⟩ := List.filter_eq_append_iff.mp
      (h.trans (show _ = [.invoke a.id (i, a.request), .respond a.id (i, a.answer)] ++
        (told i entries ++ rest) from rfl))
    refine .cons (fun b hb => ⟨past, future, rfl, ⟨(i, a.answer), ?_⟩, (i, b.request), ?_⟩)
      ((ih hfuture).imp fun {b c} hbc => ?_)
    · refine mem_of_mem_eventsOf (i := i) ?_
      rw [eventsOf, hpast]
      simp
    · refine mem_of_mem_eventsOf (i := i) ?_
      rw [eventsOf, hfuture]
      exact List.mem_append_left _ (List.mem_flatMap.mpr ⟨b, hb, by simp⟩)
    · obtain ⟨past', future', rfl, ⟨r, hr⟩, hq⟩ := hbc
      exact ⟨past ++ past', future', by simp, ⟨r, List.mem_append_right _ hr⟩, hq⟩

/-- Those that have been answered precede the one that has not. -/
theorem before_waiting {history : List (Event (ℕ × Q) (ℕ × ρ))} {entries : List (Entry Q ρ)}
    {t : ℕ × Q} (h : eventsOf i history = told i entries ++ waiting i (some t)) {a : Entry Q ρ}
    (ha : a ∈ entries) : Before history a.id t.1 := by
  obtain ⟨past, future, rfl, hpast, hfuture⟩ := List.filter_eq_append_iff.mp h
  refine ⟨past, future, rfl, ⟨(i, a.answer), ?_⟩, (i, t.2), ?_⟩
  · refine mem_of_mem_eventsOf (i := i) ?_
    rw [eventsOf, hpast]
    exact List.mem_flatMap.mpr ⟨a, ha, by simp⟩
  · refine mem_of_mem_eventsOf (i := i) ?_
    rw [eventsOf, hfuture]
    exact List.mem_singleton_self _

/-- An entry with the name of its session. -/
def tagged (i : ℕ) (a : Entry Q ρ) : Entry (ℕ × Q) (ℕ × ρ) := ⟨a.id, (i, a.request), (i, a.answer)⟩

section Linearization

variable {prog : Q → Program C Ans ρ} {exec : (c : C) → ε → σ → Ans c × σ} {s : σ} {τ : Type}
  {abs : σ → τ} {y : Config C Ans (ℕ × Q) (ℕ × ρ) σ} {K : ℕ × Q → Prop}
  {order : List (Entry (ℕ × Q) (ℕ × ρ))} {entries : List (Entry Q ρ)}

/-- The answers carry the name of the session that has asked. -/
theorem name_of_served {t : σ} {past : List ((ℕ × Q) × (ℕ × ρ))}
    (h : Program.Served (named prog) exec s past t) : ∀ e ∈ past, e.2.1 = e.1.1 := by
  induction h with
  | nil => exact fun e he => by cases he
  | snoc _ last ih =>
    intro e he
    rcases List.mem_append.mp he with he | he
    · exact ih e he
    · rw [List.mem_singleton.mp he]
      obtain ⟨r, u, -, hret⟩ := Program.runs_bind.mp last
      rw [(Program.runs_ret.mp hret).1]

/-- What a linearization says about the request that has not been answered: nothing, or what its
answer will be. -/
def Decided (i : ℕ) (order : List (Entry (ℕ × Q) (ℕ × ρ))) (last : Option (ℕ × Q))
    (decided : Option (Entry Q ρ)) : Prop :=
  ∀ b : Entry Q ρ, decided = some b ↔ tagged i b ∈ order ∧ last = some (b.id, b.request)

theorem exists_decided (hnodup : (order.map Entry.id).Nodup) (i : ℕ) (last : Option (ℕ × Q)) :
    ∃ decided, Decided (ρ := ρ) i order last decided := by
  by_cases hin : ∃ b : Entry Q ρ, tagged i b ∈ order ∧ last = some (b.id, b.request)
  swap
  · exact ⟨none, fun b => iff_of_false (fun h => by cases h) fun h => hin ⟨b, h⟩⟩
  obtain ⟨b, hb, hlast⟩ := hin
  refine ⟨some b, fun b' => ⟨fun h => by cases h; exact ⟨hb, hlast⟩, fun ⟨hb', hlast'⟩ => ?_⟩⟩
  have hid : b.id = b'.id := congrArg Prod.fst (Option.some.inj (hlast.symm.trans hlast'))
  have hsame : tagged i b = tagged i b' := List.inj_on_of_nodup_map hnodup hb hb' hid
  obtain ⟨id, q, r⟩ := b
  obtain ⟨id', q', r'⟩ := b'
  cases hsame
  rfl

variable {last : Option (ℕ × Q)} {decided : Option (Entry Q ρ)}

/-- Of a session a linearization contains the requests of the class that have been answered, and the
one that has been decided. -/
theorem mem_session_iff (hlin : IsLinearization (named prog) K exec s abs y order)
    (hevents : eventsOf i y.history = told i entries ++ waiting i last)
    (hdecided : Decided i order last decided) (a : Entry (ℕ × Q) (ℕ × ρ)) :
    a ∈ order ∧ a.request.1 = i ↔
      a ∈ (entries ++ decided.toList).map (tagged i) ∧ K a.request := by
  have hlisted : ∀ b ∈ entries, K (i, b.request) → tagged i b ∈ order := by
    intro b hb hK
    have hmem : ∀ ev ∈ told i [b], ev ∈ y.history := by
      intro ev hev
      refine mem_of_mem_eventsOf (i := i) ?_
      rw [hevents]
      rw [told, List.flatMap_singleton] at hev
      exact List.mem_append_left _ (List.mem_flatMap.mpr ⟨b, hb, hev⟩)
    exact hlin.complete b.id (i, b.request) (i, b.answer) (hmem _ (by simp [told]))
      (hmem _ (by simp [told])) hK
  constructor
  · rintro ⟨ha, hi⟩
    obtain ⟨hK, hinv, -⟩ := hlin.sound a ha
    have hown : .invoke a.id a.request ∈ eventsOf i y.history :=
      List.mem_filter.mpr ⟨hinv, decide_eq_true hi⟩
    rw [hevents] at hown
    rw [List.map_append]
    refine ⟨List.mem_append.mpr ((List.mem_append.mp hown).imp (fun hown => ?_) fun hown => ?_), hK⟩
    · obtain ⟨b, hb, hev⟩ := List.mem_flatMap.mp hown
      rcases List.mem_cons.mp hev with hev | hev
      · obtain ⟨hid, hrequest⟩ := Event.invoke.inj hev
        rw [hrequest] at hK
        -- the two have the same name, so they are one
        have hsame := List.inj_on_of_nodup_map hlin.nodup ha (hlisted b hb hK) hid
        rw [hsame]
        exact List.mem_map_of_mem hb
      · cases List.mem_singleton.mp hev
    · obtain ⟨t, ht, hev⟩ := List.mem_map.mp hown
      obtain ⟨hid, hrequest⟩ := Event.invoke.inj hev
      obtain ⟨u, hserved, -⟩ := hlin.served
      have hname := name_of_served hserved _ (List.mem_map_of_mem ha)
      have htagged : a = tagged i ⟨a.id, a.request.2, a.answer.2⟩ := by
        obtain ⟨id, ⟨j, q⟩, j', r⟩ := a
        cases hi
        cases hname
        rfl
      refine List.mem_map.mpr ⟨⟨a.id, a.request.2, a.answer.2⟩, ?_, htagged.symm⟩
      rw [Option.mem_toList]
      refine (hdecided _).mpr ⟨htagged ▸ ha, ?_⟩
      rw [Option.mem_toList.mp ht, ← hid, ← hrequest]
  · rintro ⟨ha, hK⟩
    obtain ⟨b, hb, rfl⟩ := List.mem_map.mp ha
    rcases List.mem_append.mp hb with hb | hb
    · exact ⟨hlisted b hb hK, rfl⟩
    · exact ⟨((hdecided b).mp (Option.mem_toList.mp hb)).1, rfl⟩

theorem decided_none (i : ℕ) (order : List (Entry (ℕ × Q) (ℕ × ρ))) :
    Decided (ρ := ρ) i order none none := fun _ =>
  iff_of_false (fun h => by cases h) fun h => by cases h.2

/-- **A linearization keeps the order of every session**: it has the requests of the class that have
been answered, as they were sent, and after them perhaps the one that has not been. -/
theorem session_of_linearization [DecidablePred K] (hy : Reachable (named prog) exec s y)
    (hlin : IsLinearization (named prog) K exec s abs y order)
    (hevents : eventsOf i y.history = told i entries ++ waiting i last)
    (hdecided : Decided i order last decided) :
    order.filter (fun a => a.request.1 = i) =
      ((entries ++ decided.toList).map (tagged i)).filter fun a => K a.request := by
  have hself : ∀ j, ¬ Before y.history j j := fun j => not_before_self hy
  have hbefore : ((entries ++ decided.toList).map (tagged i)).Pairwise
      fun a b => Before y.history a.id b.id := by
    refine List.pairwise_map.mpr (List.pairwise_append.mpr ⟨pairwise_before hevents, ?_, ?_⟩)
    · cases decided with
      | none => exact .nil
      | some b => exact List.pairwise_singleton _ _
    · intro a ha b hb
      have hlast := ((hdecided b).mp (Option.mem_toList.mp hb)).2
      rw [hlast] at hevents
      exact before_waiting hevents ha
  have hmem : ∀ a, a ∈ order.filter (fun a => a.request.1 = i) ↔
      a ∈ ((entries ++ decided.toList).map (tagged i)).filter fun a => K a.request := by
    intro a
    rw [List.mem_filter, List.mem_filter, decide_eq_true_iff, decide_eq_true_iff]
    exact mem_session_iff hlin hevents hdecided a
  have hnodup : ((entries ++ decided.toList).map (tagged i)).Nodup := by
    refine List.Pairwise.imp (fun {a b} hab heq => ?_) hbefore
    rw [heq] at hab
    exact hself b.id hab
  have hleft : (order.filter fun a => a.request.1 = i).Pairwise
      fun a b => ¬ Before y.history b.id a.id := hlin.realTime.filter _
  have hright : (((entries ++ decided.toList).map (tagged i)).filter fun a => K a.request).Pairwise
      fun a b => ¬ Before y.history b.id a.id :=
    (hbefore.imp fun hab => Before.asymm hself hab).filter _
  refine List.Perm.eq_of_pairwise ?_ hleft hright ((List.perm_ext_iff_of_nodup
    ((List.Nodup.of_map _ hlin.nodup).filter _) (hnodup.filter _)).mpr hmem)
  intro a b ha hb hba hab
  have ha' := (List.mem_filter.mp ((hmem a).mp ha)).1
  have hb' := (List.mem_filter.mp hb).1
  by_contra hne
  have hsymm : Std.Symm fun a b : Entry (ℕ × Q) (ℕ × ρ) =>
      Before y.history a.id b.id ∨ Before y.history b.id a.id := ⟨fun _ _ h => h.symm⟩
  have hordered : ((entries ++ decided.toList).map (tagged i)).Pairwise fun a b =>
      Before y.history a.id b.id ∨ Before y.history b.id a.id := hbefore.imp Or.inl
  exact (hordered.forall ha' hb' hne).elim hab hba

end Linearization

end Order

end Sessions
end MultiPlayerGame
