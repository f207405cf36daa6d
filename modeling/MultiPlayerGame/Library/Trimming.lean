import Mathlib.Data.List.Basic
import Mathlib.Data.List.DropRight

/-!
# Lists up to blanks, and lists ended by a separator

Some of the letters of an alphabet are blank, and what is asked of a text is often asked up to the
blanks at its two ends.  `trim p l` is `l` without them.  What can be said about `trim p l` without
looking at where it begins and ends is that it has the same letters that are not blank
(`filter_trim`), and that blanks put at either end make no difference.

`terminated sep xs` is the lists of `xs` one after another, each with a separator put at its end.
If no member of `xs` has the separator in it, the text determines them; `terminated_cancel` is one
step of reading them back, and allows for a remainder without a separator.

* `filter_trim`, `mem_trim`, `trim_append_blank`, `trim_blank_append`.
* `terminated_cancel`, `terminated_eq_nil_of_notMem`.
-/

namespace MultiPlayerGame
namespace Trimming

variable {α : Type*}

section Trim

variable {p : α → Bool}

/-- A list without the blanks at its ends. -/
def trim (p : α → Bool) (l : List α) : List α := (l.dropWhile p).rdropWhile p

/-- A list of blanks has no other letter. -/
theorem filter_eq_nil_iff {l : List α} : l.filter (fun a => !p a) = [] ↔ ∀ a ∈ l, p a = true := by
  simp [List.filter_eq_nil_iff]

theorem filter_dropWhile (l : List α) :
    (l.dropWhile p).filter (fun a => !p a) = l.filter fun a => !p a := by
  have hblank : (l.takeWhile p).filter (fun a => !p a) = [] :=
    filter_eq_nil_iff.mpr fun a ha => List.mem_takeWhile_imp ha
  calc (l.dropWhile p).filter (fun a => !p a)
      = (l.takeWhile p ++ l.dropWhile p).filter fun a => !p a := by
        rw [List.filter_append, hblank, List.nil_append]
    _ = l.filter fun a => !p a := by rw [List.takeWhile_append_dropWhile]

/-- **Trimming takes away blanks only.**  What is left of the list without its blanks is the same
before and after. -/
theorem filter_trim (l : List α) :
    (trim p l).filter (fun a => !p a) = l.filter fun a => !p a := by
  rw [trim, List.rdropWhile, List.filter_reverse, filter_dropWhile, ← List.filter_reverse,
    List.reverse_reverse, filter_dropWhile]

/-- A letter that is not blank stays. -/
theorem mem_trim {a : α} (ha : p a = false) {l : List α} : a ∈ trim p l ↔ a ∈ l := by
  have hmem (m : List α) : a ∈ m ↔ a ∈ m.filter fun a => !p a := by simp [ha]
  rw [hmem, filter_trim, ← hmem]

theorem dropWhile_blank_append {blank : List α} (hblank : ∀ a ∈ blank, p a = true) (l : List α) :
    (blank ++ l).dropWhile p = l.dropWhile p := by
  rw [List.dropWhile_append, List.dropWhile_eq_nil_iff.mpr hblank, List.isEmpty_nil, if_pos rfl]

theorem trim_blank_append {blank : List α} (hblank : ∀ a ∈ blank, p a = true) (l : List α) :
    trim p (blank ++ l) = trim p l := by
  rw [trim, dropWhile_blank_append hblank, trim]

theorem rdropWhile_append_blank {blank : List α} (hblank : ∀ a ∈ blank, p a = true) (l : List α) :
    (l ++ blank).rdropWhile p = l.rdropWhile p := by
  rw [List.rdropWhile, List.reverse_append,
    dropWhile_blank_append fun a ha => hblank a (List.mem_reverse.mp ha), List.rdropWhile]

theorem trim_append_blank {blank : List α} (hblank : ∀ a ∈ blank, p a = true) (l : List α) :
    trim p (l ++ blank) = trim p l := by
  by_cases hl : l.dropWhile p = []
  · -- there are only blanks, and nothing is left on either side
    have hall : ∀ a ∈ l, p a = true := List.dropWhile_eq_nil_iff.mp hl
    rw [trim_blank_append hall, trim, trim, hl, List.dropWhile_eq_nil_iff.mpr hblank]
  · rw [trim, List.dropWhile_append, if_neg (by simpa using hl), rdropWhile_append_blank hblank,
      trim]

end Trim

section Terminated

variable {sep : α}

/-- Lists one after another, each ended by the separator. -/
def terminated (sep : α) (xs : List (List α)) : List α := xs.flatMap (· ++ [sep])

@[simp] theorem terminated_nil : terminated sep [] = [] := rfl

@[simp] theorem terminated_cons (x : List α) (xs : List (List α)) :
    terminated sep (x :: xs) = x ++ sep :: terminated sep xs := by
  simp [terminated]

/-- Without a separator there is no member. -/
theorem terminated_eq_nil_of_notMem {xs : List (List α)} {l rest : List α} (hl : sep ∉ l)
    (heq : l = terminated sep xs ++ rest) : xs = [] := by
  rcases xs with _ | ⟨x, xs⟩
  · rfl
  · exact absurd (by simp [heq]) hl

/-- The first separator of a list is in one place. -/
theorem append_sep_inj {x y l m : List α} (hx : sep ∉ x) (hy : sep ∉ y)
    (heq : x ++ sep :: l = y ++ sep :: m) : x = y ∧ l = m := by
  rcases List.append_eq_append_iff.mp heq with ⟨c, rfl, hc⟩ | ⟨c, rfl, hc⟩ <;>
    rcases c with _ | ⟨a, c⟩
  · exact ⟨(List.append_nil x).symm, (List.cons.inj hc).2⟩
  · exact absurd (by simp [(List.cons.inj hc).1]) hy
  · exact ⟨List.append_nil y, (List.cons.inj hc).2.symm⟩
  · exact absurd (by simp [(List.cons.inj hc).1]) hx

/-- **The first separator ends the first member.**  The members have no separator in them, so the
first one in the concatenation is where the first member ends. -/
theorem terminated_cancel {xs : List (List α)} {x l rest : List α} (hx : sep ∉ x)
    (hxs : ∀ y ∈ xs, sep ∉ y) (hrest : sep ∉ rest)
    (heq : x ++ sep :: l = terminated sep xs ++ rest) :
    ∃ ys, xs = x :: ys ∧ l = terminated sep ys ++ rest := by
  rcases xs with _ | ⟨y, ys⟩
  · rw [terminated_nil, List.nil_append] at heq
    exact absurd (by simp [← heq]) hrest
  · rw [terminated_cons, List.append_assoc, List.cons_append] at heq
    obtain ⟨rfl, hl⟩ := append_sep_inj hx (hxs y List.mem_cons_self) heq
    exact ⟨ys, rfl, hl⟩

end Terminated

end Trimming
end MultiPlayerGame
