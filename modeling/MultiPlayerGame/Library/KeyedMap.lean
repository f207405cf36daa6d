import Mathlib

/-!
# Keyed maps with a size and a total

A hash map with unique keys is Mathlib's `AList`, read at a constant value type (`KeyedMap`).
Mathlib has the lookup laws of insertion and erasure; a program that also counts its entries, walks
over them and updates values in place needs four more groups:

* `lookup_replace` and `lookup_replace_ne`: an update in place;
* `map`: a function applied to every value, with which the operations commute;
* `perm_cons_erase`: an entry that is present, taken out in front of the others, and from it what
  each operation does to the number of entries (`size_insert`, `size_erase`, `size_replace`);
* `total`: the sum of a quantity over the entries, again operation by operation.
-/

namespace MultiPlayerGame

/-- A finite map from keys to values, listed in some order. -/
abbrev KeyedMap (α β : Type*) := AList fun _ : α => β

namespace KeyedMap

variable {α β : Type*} [DecidableEq α]

/-- The number of entries. -/
def size (m : KeyedMap α β) : ℕ := m.entries.length

/-- The sum of a quantity over the entries. -/
def total (f : β → ℤ) (m : KeyedMap α β) : ℤ := (m.entries.map fun e => f e.2).sum

/-! ## An update in place -/

theorem kreplace_cons_self (a : α) (b v : β) (l : List (Σ _ : α, β)) :
    List.kreplace a b (⟨a, v⟩ :: l) = ⟨a, b⟩ :: l :=
  List.lookmap_cons_some _ _ (if_pos rfl)

theorem kreplace_cons_ne {a k : α} (hk : a ≠ k) (b v : β) (l : List (Σ _ : α, β)) :
    List.kreplace a b (⟨k, v⟩ :: l) = ⟨k, v⟩ :: List.kreplace a b l :=
  List.lookmap_cons_none _ _ (if_neg hk)

theorem dlookup_kreplace (a : α) (b : β) (l : List (Σ _ : α, β)) (c : α) :
    (l.kreplace a b).dlookup c = if c = a ∧ a ∈ l.keys then some b else l.dlookup c := by
  induction l with
  | nil => simp [List.kreplace]
  | cons e l ih =>
    obtain ⟨k, v⟩ := e
    by_cases hk : a = k
    · subst hk
      rw [kreplace_cons_self]
      by_cases hc : c = a
      · subst hc
        simp
      · simp [hc]
    · rw [kreplace_cons_ne hk]
      by_cases hc : c = k
      · subst hc
        rw [List.dlookup_cons_eq, List.dlookup_cons_eq, if_neg fun h => hk h.1.symm]
      · rw [List.dlookup_cons_ne _ _ hc, List.dlookup_cons_ne _ _ hc, ih]
        simp [hk]

theorem lookup_replace {m : KeyedMap α β} {a : α} (ha : a ∈ m) (b : β) :
    (m.replace a b).lookup a = some b := by
  rw [AList.lookup, AList.replace, dlookup_kreplace, if_pos ⟨rfl, AList.mem_keys.mp ha⟩]

theorem lookup_replace_ne {m : KeyedMap α β} {a c : α} (hc : c ≠ a) (b : β) :
    (m.replace a b).lookup c = m.lookup c := by
  rw [AList.lookup, AList.replace, dlookup_kreplace, if_neg fun h => hc h.1, AList.lookup]

theorem mem_of_lookup {m : KeyedMap α β} {a : α} {b : β} (h : m.lookup a = some b) : a ∈ m := by
  rw [← AList.lookup_isSome, h]
  rfl

theorem mem_entries_of_lookup {m : KeyedMap α β} {a : α} {b : β} (h : m.lookup a = some b) :
    (⟨a, b⟩ : Σ _ : α, β) ∈ m.entries :=
  List.of_mem_dlookup h

theorem lookup_of_mem_entries {m : KeyedMap α β} {e : Σ _ : α, β} (h : e ∈ m.entries) :
    m.lookup e.1 = some e.2 :=
  List.mem_dlookup m.nodupKeys h

/-! ## Changing every value -/

omit [DecidableEq α] in
theorem keys_map {γ : Type*} (f : β → γ) (l : List (Σ _ : α, β)) :
    (l.map fun e => (⟨e.1, f e.2⟩ : Σ _ : α, γ)).keys = l.keys := by
  rw [List.keys, List.keys, List.map_map]
  rfl

/-- Apply a function to every value. -/
def map {γ : Type*} (f : β → γ) (m : KeyedMap α β) : KeyedMap α γ :=
  ⟨m.entries.map fun e => ⟨e.1, f e.2⟩, by
    rw [List.NodupKeys, keys_map]
    exact m.nodupKeys⟩

section Map

variable {γ : Type*} (f : β → γ) (m : KeyedMap α β) (a : α)

omit [DecidableEq α] in
@[simp] theorem entries_map : (m.map f).entries = m.entries.map fun e => ⟨e.1, f e.2⟩ := rfl

omit [DecidableEq α] in
@[simp] theorem size_map : size (m.map f) = size m := List.length_map _

omit [DecidableEq α] in
@[simp] theorem mem_map : a ∈ m.map f ↔ a ∈ m := by
  change a ∈ (m.entries.map fun e => (⟨e.1, f e.2⟩ : Σ _ : α, γ)).keys ↔ a ∈ m.entries.keys
  rw [keys_map]

@[simp] theorem lookup_map : (m.map f).lookup a = (m.lookup a).map f :=
  List.dlookup_map₂ (f := fun _ : α => f) a

theorem map_erase : map f (m.erase a) = (m.map f).erase a := by
  refine AList.ext ?_
  change (m.entries.kerase a).map _ = List.kerase a (m.entries.map _)
  rw [List.kerase, List.kerase, List.eraseP_map]
  rfl

theorem map_insert (b : β) : map f (m.insert a b) = (m.map f).insert a (f b) := by
  refine AList.ext ?_
  rw [entries_map, AList.entries_insert, AList.entries_insert, List.map_cons]
  exact congrArg _ (congrArg AList.entries (map_erase f m a))

theorem map_replace (b : β) : map f (m.replace a b) = (m.map f).replace a (f b) := by
  refine AList.ext ?_
  change (m.entries.kreplace a b).map (fun e => (⟨e.1, f e.2⟩ : Σ _ : α, γ)) =
    (m.entries.map fun e => (⟨e.1, f e.2⟩ : Σ _ : α, γ)).kreplace a (f b)
  induction m.entries with
  | nil => rfl
  | cons e l ih =>
    obtain ⟨k, v⟩ := e
    rw [List.map_cons]
    by_cases hk : a = k
    · subst hk
      rw [kreplace_cons_self, kreplace_cons_self, List.map_cons]
    · rw [kreplace_cons_ne hk, kreplace_cons_ne hk, List.map_cons, ih]

end Map

/-! ## Taking one entry out -/

/-- An entry that is present, in front of the others. -/
theorem perm_cons_erase {m : KeyedMap α β} {a : α} {b : β} (h : m.lookup a = some b) :
    m.entries.Perm (⟨a, b⟩ :: (m.erase a).entries) := by
  obtain ⟨b', l₁, l₂, -, hentries, herase⟩ :=
    List.exists_of_kerase (AList.mem_keys.mp (mem_of_lookup h))
  have hmem : (⟨a, b'⟩ : Σ _ : α, β) ∈ m.entries := by
    rw [hentries]
    exact List.mem_append_right _ List.mem_cons_self
  have hb : b' = b := by
    have := lookup_of_mem_entries hmem
    rw [h] at this
    exact (Option.some.inj this).symm
  change m.entries.Perm (⟨a, b⟩ :: m.entries.kerase a)
  rw [herase, hentries, hb]
  exact List.perm_middle

theorem erase_replace (m : KeyedMap α β) (a : α) (b : β) :
    ((m.replace a b).erase a).entries = (m.erase a).entries := by
  change (List.kreplace a b m.entries).kerase a = m.entries.kerase a
  induction m.entries with
  | nil => rfl
  | cons e l ih =>
    obtain ⟨k, v⟩ := e
    by_cases hk : a = k
    · subst hk
      have herase : ∀ c : β, List.kerase a ((⟨a, c⟩ : Σ _ : α, β) :: l) = l := fun _ =>
        List.kerase_cons_eq rfl
      rw [kreplace_cons_self, herase, herase]
    · rw [kreplace_cons_ne hk, List.kerase_cons_ne hk, List.kerase_cons_ne hk, ih]

/-- The entries after an update, with the updated one in front. -/
theorem perm_replace_cons {m : KeyedMap α β} {a : α} (ha : a ∈ m) (b : β) :
    (m.replace a b).entries.Perm (⟨a, b⟩ :: (m.erase a).entries) := by
  have h := perm_cons_erase (lookup_replace ha b)
  rwa [erase_replace] at h

/-! ## Sizes and totals -/

omit [DecidableEq α] in
@[simp] theorem size_empty : size (∅ : KeyedMap α β) = 0 := rfl

theorem size_insert {m : KeyedMap α β} {a : α} (ha : a ∉ m) (b : β) :
    size (m.insert a b) = size m + 1 := by
  rw [size, AList.entries_insert_of_notMem ha, List.length_cons, size]

theorem size_erase {m : KeyedMap α β} {a : α} (ha : a ∈ m) :
    size (m.erase a) + 1 = size m := by
  obtain ⟨b, hb⟩ := Option.isSome_iff_exists.mp (AList.lookup_isSome.mpr ha)
  rw [size, size, (perm_cons_erase hb).length_eq, List.length_cons]

theorem size_replace (m : KeyedMap α β) (a : α) (b : β) : size (m.replace a b) = size m := by
  have h := congrArg List.length (AList.keys_replace a b m)
  simpa [AList.keys, List.keys, size] using h

theorem size_eq_zero_iff {m : KeyedMap α β} : size m = 0 ↔ ∀ a, m.lookup a = none := by
  constructor
  · intro h a
    rw [AList.lookup, List.length_eq_zero_iff.mp h]
    rfl
  · intro h
    rcases hm : m.entries with _ | ⟨e, l⟩
    · rw [size, hm]
      rfl
    · have hmem : e ∈ m.entries := by simp [hm]
      have := lookup_of_mem_entries hmem
      rw [h] at this
      cases this

theorem size_pos_of_lookup {m : KeyedMap α β} {a : α} {b : β} (h : m.lookup a = some b) :
    0 < size m :=
  List.length_pos_of_mem (mem_entries_of_lookup h)

variable (f : β → ℤ)

omit [DecidableEq α] in
@[simp] theorem total_empty : total f (∅ : KeyedMap α β) = 0 := rfl

theorem total_insert {m : KeyedMap α β} {a : α} (ha : a ∉ m) (b : β) :
    total f (m.insert a b) = f b + total f m := by
  rw [total, AList.entries_insert_of_notMem ha, List.map_cons, List.sum_cons, total]

theorem total_erase {m : KeyedMap α β} {a : α} {b : β} (h : m.lookup a = some b) :
    f b + total f (m.erase a) = total f m := by
  rw [total, total, ((perm_cons_erase h).map _).sum_eq, List.map_cons, List.sum_cons]

theorem total_replace {m : KeyedMap α β} {a : α} {b : β} (h : m.lookup a = some b) (c : β) :
    total f (m.replace a c) + f b = f c + total f m := by
  rw [total, ((perm_replace_cons (mem_of_lookup h) c).map _).sum_eq, List.map_cons,
    List.sum_cons, ← total_erase f h, total]
  simp only []
  omega

omit [DecidableEq α] in
theorem total_le_total {f g : β → ℤ} (h : ∀ b, f b ≤ g b) (m : KeyedMap α β) :
    total f m ≤ total g m := by
  unfold total
  induction m.entries with
  | nil => exact Int.le_refl _
  | cons e l ih =>
    rw [List.map_cons, List.sum_cons, List.map_cons, List.sum_cons]
    exact Int.add_le_add (h e.2) ih

end KeyedMap
end MultiPlayerGame
