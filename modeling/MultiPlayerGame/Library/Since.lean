import Mathlib.Data.List.DropRight

/-!
# The part of a history since something happened

A history is a list, oldest entry first.  `since p l` is the part of `l` after the last entry that
satisfies `p`, and `latest f l` is the last value that `f` reads from an entry of `l`.  Both are
characterised by what one more entry does to them, which is what an induction along a run needs.
-/

namespace MultiPlayerGame
namespace Since

variable {α β : Type*}

/-- The entries after the last one that satisfies `p`; all of them if none does. -/
def since (p : α → Bool) (l : List α) : List α := l.rtakeWhile fun a => !p a

/-- The last value that `f` reads. -/
def latest (f : α → Option β) (l : List α) : Option β := (l.filterMap f).getLast?

@[simp] theorem since_nil (p : α → Bool) : since p [] = [] := rfl

theorem since_concat_of {p : α → Bool} {a : α} (ha : p a = true) (l : List α) :
    since p (l ++ [a]) = [] :=
  List.rtakeWhile_concat_neg _ _ _ (by simp [ha])

theorem since_concat_of_not {p : α → Bool} {a : α} (ha : p a = false) (l : List α) :
    since p (l ++ [a]) = since p l ++ [a] :=
  List.rtakeWhile_concat_pos _ _ _ (by simp [ha])

@[simp] theorem latest_nil (f : α → Option β) : latest f [] = none := rfl

/-- **One more entry.**  It is the latest one itself if it counts, and otherwise leaves the latest
one as it was. -/
theorem latest_concat (f : α → Option β) (l : List α) (a : α) :
    latest f (l ++ [a]) = (f a).or (latest f l) := by
  rw [latest, List.filterMap_append]
  cases ha : f a with
  | none => simp [ha, latest]
  | some b => simp [ha]

end Since
end MultiPlayerGame
