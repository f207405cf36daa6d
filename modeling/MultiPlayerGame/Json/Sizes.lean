import MultiPlayerGame.Json.Value

/-!
# How long the text of a JSON value is

The serializer puts a comma between every two fields and a brace behind the last one, so a field
takes the same number of bytes wherever it stands (`fieldLength`).  Hence the length of the text of
an object does not depend on the order of its fields, which is not the order in which they were
written: it is what the fields take together, and one byte for the opening brace (`length_obj`).
The same goes for the elements of an array (`length_array`).

The text of a string may be longer than the string, by a factor of six at most
(`escapedLength_le`); the text of a number is short (`length_int_le`).
-/

namespace MultiPlayerGame

open Bytes (ascii decimal digits)

namespace Bytes

theorem length_decimal_le {n : Int} {k : Nat} (hk : 0 < k) (hn : n.natAbs < 10 ^ k) :
    (decimal n).length ≤ k + 1 := by
  rcases n with n | n
  · have hdigits : (digits n).length ≤ k := (length_digits_le_iff hk).mpr hn
    exact hdigits.trans (Nat.le_succ k)
  · have hdigits : (digits (n + 1)).length ≤ k := (length_digits_le_iff hk).mpr hn
    exact Nat.succ_le_succ hdigits

end Bytes

namespace Json

/-! ## Strings -/

/-- How many bytes the serializer writes for a string between the quotes. -/
def escapedLength (s : Bytes) : Nat := (s.flatMap escape).length

theorem length_escape_le (b : UInt8) : (escape b).length ≤ 6 := by
  unfold escape
  repeat' split
  all_goals simp

theorem length_quote (s : Bytes) : (quote s).length = escapedLength s + 2 := by
  simp [quote, escapedLength]

@[simp] theorem escapedLength_append (s t : Bytes) :
    escapedLength (s ++ t) = escapedLength s + escapedLength t := by
  simp [escapedLength]

theorem escapedLength_le (s : Bytes) : escapedLength s ≤ 6 * s.length := by
  induction s with
  | nil => exact Nat.le_refl 0
  | cons b s ih =>
    have hb := length_escape_le b
    rw [escapedLength, List.flatMap_cons, List.length_append, List.length_cons]
    rw [escapedLength] at ih
    omega

/-! ## Objects -/

/-- What a field takes in the text of an object: the key in its quotes, a colon, the value, and the
comma or the brace behind it. -/
def fieldLength (f : Bytes × Json) : Nat := (quote f.1).length + f.2.text.length + 2

/-- What some fields take. -/
def fieldsLength (fields : List (Bytes × Json)) : Nat := (fields.map fieldLength).sum

theorem length_textFields : ∀ {fields : List (Bytes × Json)}, fields ≠ [] →
    (textFields fields).length + 1 = fieldsLength fields
  | [], h => absurd rfl h
  | [(k, v)], _ => by
    simp only [textFields, fieldsLength, fieldLength, List.map_cons, List.map_nil, List.sum_cons,
      List.sum_nil, List.length_append, List.length_cons]
    omega
  | (k, v) :: f :: rest, _ => by
    have ih := length_textFields (List.cons_ne_nil f rest)
    rw [fieldsLength, List.map_cons, List.sum_cons, ← fieldsLength, ← ih, textFields, fieldLength]
    simp only [List.length_append, List.length_cons]
    omega

theorem length_object {fields : List (Bytes × Json)} (h : fields ≠ []) :
    (object fields).text.length = 1 + fieldsLength fields := by
  have := length_textFields h
  simp only [text, List.length_append, List.length_cons, List.length_nil]
  omega

theorem setField_ne_nil (key : Bytes) (value : Json) (fields : List (Bytes × Json)) :
    setField key value fields ≠ [] := by
  unfold setField
  repeat' split
  all_goals exact List.cons_ne_nil _ _

/-- A new field takes its place, and an old one gives way to it. -/
theorem fieldsLength_setField_le (key : Bytes) (value : Json) (fields : List (Bytes × Json)) :
    fieldsLength (setField key value fields) ≤ fieldLength (key, value) + fieldsLength fields := by
  induction fields with
  | nil => exact Nat.le_refl _
  | cons f rest ih =>
    obtain ⟨k, v⟩ := f
    simp only [fieldsLength] at ih ⊢
    unfold setField
    split
    · simp only [List.map_cons, List.sum_cons, Nat.le_refl]
    split
    · simp only [List.map_cons, List.sum_cons]
      omega
    · simp only [List.map_cons, List.sum_cons]
      omega

theorem fieldsLength_setField {key : Bytes} {fields : List (Bytes × Json)}
    (hkey : findField key fields = none) (value : Json) :
    fieldsLength (setField key value fields) = fieldLength (key, value) + fieldsLength fields := by
  induction fields with
  | nil => rfl
  | cons f rest ih =>
    obtain ⟨k, v⟩ := f
    rw [findField] at hkey
    split at hkey
    · cases hkey
    · rename_i hne
      have ih := ih hkey
      simp only [fieldsLength] at ih ⊢
      rw [setField, if_neg (c := key = k) fun h => hne h.symm]
      split
      · simp only [List.map_cons, List.sum_cons]
      · simp only [List.map_cons, List.sum_cons, ih]
        omega

/-- What keys take, with the quotes, the colon, and the comma or the brace. -/
def keysLength (keys : List String) : Nat :=
  (keys.map fun key => (quote (ascii key)).length + 2).sum

/-- What values take. -/
def valuesLength (values : List Json) : Nat := (values.map fun v => v.text.length).sum

/-- What the fields of an initializer list take. -/
def initLength (fields : List (String × Json)) : Nat :=
  keysLength (fields.map Prod.fst) + valuesLength (fields.map Prod.snd)

theorem initLength_cons (f : String × Json) (fields : List (String × Json)) :
    initLength (f :: fields) = fieldLength (ascii f.1, f.2) + initLength fields := by
  simp only [initLength, keysLength, valuesLength, fieldLength, List.map_cons, List.sum_cons]
  omega

theorem field?_obj_of_notMem {key : Bytes} {fields : List (String × Json)}
    (hkey : key ∉ fields.map fun f => ascii f.1) : (obj fields).field? key = none := by
  induction fields with
  | nil => rfl
  | cons f rest ih =>
    rw [List.map_cons, List.mem_cons, not_or] at hkey
    rw [field?_obj_cons, if_neg hkey.1, ih hkey.2]

/-- The fields that an initializer list makes. -/
def initFields (fields : List (String × Json)) : List (Bytes × Json) :=
  fields.foldr (fun f fs => setField (ascii f.1) f.2 fs) []

theorem obj_eq (fields : List (String × Json)) : obj fields = object (initFields fields) := rfl

theorem initFields_ne_nil (f : String × Json) (rest : List (String × Json)) :
    initFields (f :: rest) ≠ [] := setField_ne_nil _ _ _

theorem fieldsLength_initFields {fields : List (String × Json)}
    (hkeys : (fields.map fun f => ascii f.1).Nodup) :
    fieldsLength (initFields fields) = initLength fields := by
  induction fields with
  | nil => rfl
  | cons f rest ih =>
    rw [List.map_cons, List.nodup_cons] at hkeys
    rw [initFields, List.foldr_cons, fieldsLength_setField (field?_obj_of_notMem hkeys.1),
      ← initFields, ih hkeys.2, initLength_cons]

theorem fieldsLength_initFields_le (fields : List (String × Json)) :
    fieldsLength (initFields fields) ≤ initLength fields := by
  induction fields with
  | nil => exact Nat.le_refl 0
  | cons f rest ih =>
    rw [initFields, List.foldr_cons, ← initFields, initLength_cons]
    exact (fieldsLength_setField_le _ _ _).trans (Nat.add_le_add_left ih _)

/-- **The length of an object**, if it is not empty and its keys are distinct.  It is one byte and
what the fields take, in whatever order they are written. -/
theorem length_obj {fields : List (String × Json)} {keys : List String}
    (hkeys : keys ≠ [] ∧ (keys.map ascii).Nodup) (hfields : fields.map Prod.fst = keys) :
    (obj fields).text.length = 1 + (keysLength keys + valuesLength (fields.map Prod.snd)) := by
  subst hfields
  obtain ⟨hne, hnodup⟩ := hkeys
  rw [List.map_map] at hnodup
  rcases fields with _ | ⟨f, rest⟩
  · exact absurd rfl hne
  · rw [obj_eq, length_object (initFields_ne_nil f rest), fieldsLength_initFields hnodup,
      initLength]

/-- At most what the fields take, in any case. -/
theorem length_obj_le (f : String × Json) (rest : List (String × Json)) :
    (obj (f :: rest)).text.length ≤ 1 + initLength (f :: rest) := by
  rw [obj_eq, length_object (initFields_ne_nil f rest)]
  exact Nat.add_le_add_left (fieldsLength_initFields_le _) 1

/-- One more field. -/
theorem length_set {fields : List (Bytes × Json)} (hfields : fields ≠ []) {key : Bytes}
    (hkey : findField key fields = none) (value : Json) :
    ((object fields).set key value).text.length =
      fieldLength (key, value) + (object fields).text.length := by
  rw [set, length_object (setField_ne_nil _ _ _), fieldsLength_setField hkey,
    length_object hfields]
  omega

theorem length_set_le {fields : List (Bytes × Json)} (hfields : fields ≠ []) (key : Bytes)
    (value : Json) :
    ((object fields).set key value).text.length ≤
      fieldLength (key, value) + (object fields).text.length := by
  have := fieldsLength_setField_le key value fields
  rw [set, length_object (setField_ne_nil _ _ _), length_object hfields]
  omega

theorem length_obj_set_le (f : String × Json) (rest : List (String × Json)) (key : Bytes)
    (value : Json) :
    ((obj (f :: rest)).set key value).text.length ≤
      fieldLength (key, value) + (obj (f :: rest)).text.length :=
  length_set_le (initFields_ne_nil f rest) key value

/-! ## Arrays -/

/-- What an array takes whose elements take these numbers of bytes. -/
def listed (lengths : List Nat) : Nat := max 2 (1 + (lengths.map (· + 1)).sum)

theorem length_textItems : ∀ {items : List Json}, items ≠ [] →
    (textItems items).length + 1 = (items.map fun v => v.text.length + 1).sum
  | [], h => absurd rfl h
  | [v], _ => by simp [textItems]
  | v :: w :: rest, _ => by
    have ih := length_textItems (List.cons_ne_nil w rest)
    rw [List.map_cons, List.sum_cons, ← ih, textItems, List.length_append, List.length_cons]
    omega

/-- **The length of an array.**  An empty one takes two bytes, and otherwise every element takes one
byte more than its text. -/
theorem length_array (items : List Json) :
    (array items).text.length = listed (items.map fun v => v.text.length) := by
  rw [listed, List.map_map, text, List.length_append, List.length_cons, List.length_singleton]
  rcases items with _ | ⟨v, rest⟩
  · rfl
  · have h := length_textItems (List.cons_ne_nil v rest)
    rw [Function.comp_def, ← h]
    omega

/-! ## Numbers -/

theorem length_int_le (n : Int32) : (int n).text.length ≤ 11 := by
  have hle := n.le_toInt
  have hlt := n.toInt_lt
  exact Bytes.length_decimal_le (by omega) (by omega)

theorem length_integer_le {n : Nat} (hn : n < 10 ^ 20) :
    (integer (n : Int)).text.length ≤ 20 :=
  (Bytes.length_digits_le_iff (by omega)).mpr hn

end Json
end MultiPlayerGame
