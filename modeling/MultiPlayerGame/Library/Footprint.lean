import Mathlib

/-!
# Operations on a map that have a footprint

An operation on a map of keys to values may read and write only a part of it.  `Footprint N R` says
that the keys in `N` are that part: what is there before decides about the output and about what is
there afterwards, and nothing else is changed.  The operation is a relation, so it may also depend
on things outside the map, as long as these decide neither.

Two operations whose footprints are disjoint can be done in either order (`Footprint.comm`).  The
proof compares the two outcomes key by key.
-/

namespace MultiPlayerGame

variable {κ ν ο ο' : Type*}

/-- `R` reads and writes the keys in `N` only: `R m o m'` says that the operation can take the map
`m` to `m'` with the output `o`. -/
structure Footprint (N : Set κ) (R : (κ → ν) → ο → (κ → ν) → Prop) : Prop where
  reads : ∀ {m m' n n' : κ → ν} {o p : ο}, R m o m' → R n p n' → (∀ k ∈ N, m k = n k) →
    o = p ∧ ∀ k ∈ N, m' k = n' k
  writes : ∀ {m m' : κ → ν} {o : ο}, R m o m' → ∀ k ∉ N, m' k = m k

namespace Footprint

variable {N M : Set κ} {R : (κ → ν) → ο → (κ → ν) → Prop} {S : (κ → ν) → ο' → (κ → ν) → Prop}

/-- An operation does not notice one that has a disjoint footprint. -/
theorem agree (hS : Footprint M S) (hNM : Disjoint N M) {m n : κ → ν} {o : ο'} (h : S m o n) :
    ∀ k ∈ N, m k = n k :=
  fun k hk => (hS.writes h k (Set.disjoint_left.mp hNM hk)).symm

/-- **Operations with disjoint footprints commute.** -/
theorem comm (hR : Footprint N R) (hS : Footprint M S) (hNM : Disjoint N M)
    {m m₁ m₂ n₁ n₂ : κ → ν} {r r' : ο} {s s' : ο'} (h₁ : R m r m₁) (h₂ : S m₁ s m₂)
    (h₁' : S m s' n₁) (h₂' : R n₁ r' n₂) : r' = r ∧ s' = s ∧ n₂ = m₂ := by
  obtain ⟨hr, hN⟩ := hR.reads h₁ h₂' (hS.agree hNM h₁')
  obtain ⟨hs, hM⟩ := hS.reads h₂ h₁' fun k hk => (hR.agree hNM.symm h₁ k hk).symm
  refine ⟨hr.symm, hs.symm, funext fun k => ?_⟩
  by_cases hkN : k ∈ N
  · have hkM : k ∉ M := Set.disjoint_left.mp hNM hkN
    rw [← hN k hkN, hS.writes h₂ k hkM]
  by_cases hkM : k ∈ M
  · rw [hR.writes h₂' k hkN, ← hM k hkM]
  · rw [hR.writes h₂' k hkN, hS.writes h₁' k hkM, hS.writes h₂ k hkM, hR.writes h₁ k hkN]

end Footprint
end MultiPlayerGame
