import Mathlib.Data.List.Sort
import Mathlib.Algebra.Order.Floor.Semiring
import Mathlib.Algebra.Order.Field.Basic
import Mathlib.Tactic.Linarith

/-!
# Order statistics

The entry of rank `i` of a list is the one at index `i` when the list is put in order.  What can be
said of it is how many entries are at most it, and how many are below: `lt_countP_le_ofRank` and
`countP_lt_ofRank_le`.  Ties do no harm to either.

So if the rank is taken as the integer part of a fraction of the length, and the last index if that
is no index, the entry is a quantile: at least the fraction of the entries are at most it, and at
most the fraction are below.  That is `isQuantile_ofRank`, and a monotone map carries it along
(`IsQuantile.map`).
-/

namespace MultiPlayerGame
namespace OrderStatistics

variable {α β K : Type*} [LinearOrder α] [LinearOrder β]

/-! ## Ranks -/

/-- The entries in order. -/
def sorted (l : List α) : List α := l.mergeSort (· ≤ ·)

theorem sorted_perm (l : List α) : (sorted l).Perm l := List.mergeSort_perm l _

theorem sortedLE_sorted (l : List α) : (sorted l).SortedLE := List.sortedLE_mergeSort

@[simp] theorem length_sorted (l : List α) : (sorted l).length = l.length := List.length_mergeSort l

/-- **The order in which the entries come is lost.**  Two lists with the same entries have the same
order statistics. -/
theorem sorted_congr {l l' : List α} (h : l.Perm l') : sorted l = sorted l' :=
  List.Perm.eq_of_sortedLE (sortedLE_sorted l) (sortedLE_sorted l')
    ((sorted_perm l).trans (h.trans (sorted_perm l').symm))

/-- The entry of rank `i`. -/
def ofRank (l : List α) (i : ℕ) (hi : i < l.length) : α :=
  (sorted l).get ⟨i, hi.trans_eq (length_sorted l).symm⟩

section Ranks

variable {l : List α} {i j : ℕ} {hi : i < l.length} {hj : j < l.length}

theorem ofRank_mem : ofRank l i hi ∈ l := (sorted_perm l).mem_iff.mp (List.get_mem _ _)

theorem ofRank_mono (h : i ≤ j) : ofRank l i hi ≤ ofRank l j hj := sortedLE_sorted l h

theorem le_ofRank_of_mem_take {a : α} (ha : a ∈ (sorted l).take (i + 1)) : a ≤ ofRank l i hi := by
  obtain ⟨j, hj, rfl⟩ := List.mem_take_iff_getElem.mp ha
  exact sortedLE_sorted l (show j ≤ i by omega)

theorem ofRank_le_of_mem_drop {a : α} (ha : a ∈ (sorted l).drop i) : ofRank l i hi ≤ a := by
  obtain ⟨j, hj, rfl⟩ := List.mem_drop_iff_getElem.mp ha
  exact sortedLE_sorted l (show i ≤ i + j by omega)

/-- **More than `i` entries are at most the one of rank `i`.**  These are the entries up to its
place in the sorted list. -/
theorem lt_countP_le_ofRank : i < l.countP (· ≤ ofRank l i hi) := by
  have htake : ((sorted l).take (i + 1)).countP (· ≤ ofRank l i hi) = i + 1 := by
    rw [List.countP_eq_length.mpr fun a ha => decide_eq_true (le_ofRank_of_mem_take ha),
      List.length_take, length_sorted]
    omega
  calc i < ((sorted l).take (i + 1)).countP (· ≤ ofRank l i hi) := by omega
    _ ≤ (sorted l).countP (· ≤ ofRank l i hi) := (List.take_sublist _ _).countP_le
    _ = l.countP (· ≤ ofRank l i hi) := (sorted_perm l).countP_eq _

/-- **At most `i` entries are below it.**  Whatever is below it stands in front of it in the sorted
list. -/
theorem countP_lt_ofRank_le : l.countP (· < ofRank l i hi) ≤ i := by
  have hdrop : ((sorted l).drop i).countP (· < ofRank l i hi) = 0 :=
    List.countP_eq_zero.mpr fun a ha hlt =>
      absurd (ofRank_le_of_mem_drop ha) (not_le_of_gt (of_decide_eq_true hlt))
  calc l.countP (· < ofRank l i hi)
      = (sorted l).countP (· < ofRank l i hi) := ((sorted_perm l).countP_eq _).symm
    _ = ((sorted l).take i).countP (· < ofRank l i hi) := by
      conv_lhs => rw [← List.take_append_drop i (sorted l), List.countP_append, hdrop, add_zero]
    _ ≤ ((sorted l).take i).length := List.countP_le_length
    _ ≤ i := List.length_take_le i _

end Ranks

/-! ## Quantiles -/

variable [Field K] [LinearOrder K] [IsStrictOrderedRing K]

/-- `x` is an entry, at least the fraction `q` of the entries are at most `x`, and at most this
fraction are below. -/
structure IsQuantile (q : K) (l : List α) (x : α) : Prop where
  mem : x ∈ l
  le_countP : q * l.length ≤ l.countP (· ≤ x)
  countP_le : (l.countP (· < x) : K) ≤ q * l.length

/-- The same of the images under a monotone map. -/
theorem IsQuantile.map {q : K} {l : List α} {x : α} (h : IsQuantile q l x) {f : α → β}
    (hf : Monotone f) : IsQuantile q (l.map f) (f x) := by
  refine ⟨List.mem_map_of_mem h.mem, ?_, ?_⟩
  · rw [List.length_map, List.countP_map]
    refine h.le_countP.trans (Nat.cast_le.mpr (List.countP_mono_left fun a _ ha => ?_))
    exact decide_eq_true (hf (of_decide_eq_true ha))
  · rw [List.length_map, List.countP_map]
    refine (Nat.cast_le.mpr (List.countP_mono_left fun a _ ha => ?_)).trans h.countP_le
    exact decide_eq_true (hf.reflect_lt (of_decide_eq_true ha))

variable [FloorSemiring K]

/-- The rank of a fraction of `n` entries. -/
def rank (q : K) (n : ℕ) : ℕ := min ⌊q * n⌋₊ (n - 1)

omit [IsStrictOrderedRing K] in
theorem rank_lt (q : K) {n : ℕ} (hn : n ≠ 0) : rank q n < n := by
  have hle : rank q n ≤ n - 1 := min_le_right _ _
  omega

theorem rank_mono {q r : K} (h : q ≤ r) (n : ℕ) : rank q n ≤ rank r n := by
  refine min_le_min_right _ (Nat.floor_mono ?_)
  gcongr

/-- **The entry of this rank is the quantile.**  Both halves of the definition are bounds on how
many entries are on either side of it. -/
theorem isQuantile_ofRank {q : K} (hq : 0 ≤ q) (hq' : q ≤ 1) {l : List α}
    (hi : rank q l.length < l.length) : IsQuantile q l (ofRank l (rank q l.length) hi) := by
  have hn : (0 : K) ≤ l.length := Nat.cast_nonneg _
  refine ⟨ofRank_mem, ?_, ?_⟩
  · have hcount : rank q l.length + 1 ≤ l.countP (· ≤ ofRank l (rank q l.length) hi) :=
      lt_countP_le_ofRank
    refine le_trans ?_ (Nat.cast_le.mpr hcount)
    -- either the rank is the integer part, or the last index
    rcases min_choice ⌊q * l.length⌋₊ (l.length - 1) with hfloor | hlast
    · rw [rank, hfloor, Nat.cast_add, Nat.cast_one]
      exact (Nat.lt_floor_add_one _).le
    · rw [rank, hlast, Nat.sub_add_cancel (by omega)]
      exact mul_le_of_le_one_left hn hq'
  · calc (l.countP (· < ofRank l (rank q l.length) hi) : K)
        ≤ rank q l.length := Nat.cast_le.mpr countP_lt_ofRank_le
      _ ≤ ⌊q * l.length⌋₊ := Nat.cast_le.mpr (min_le_left _ _)
      _ ≤ q * l.length := Nat.floor_le (mul_nonneg hq hn)

end OrderStatistics
end MultiPlayerGame
