import MultiPlayerGame.Library.Utf8

/-!
# JSON values and their text

The part of the vendored `nlohmann::json` that builds values and prints them.  An object is a
`std::map` from keys to values, so its fields are kept in the order of their keys; the two integer
types of the library compare by value and are one constructor here.

A floating-point number is kept as text.  No code of the server looks at its value: it is read from
a request and ignored, or computed from a clock and printed.  The source keeps a `double`.  So what
the source prints for a number that it has parsed is not known here, and nothing is said about it.

`dump` is the serializer with its default arguments: no indentation, characters above ASCII copied
as they are, an exception on a string that is not UTF-8.

## What is proved here

Three kinds of facts, each of them stated once for all values.  Looking a field up after an
assignment (`findField_setField`), from which what a response says in a field is found by rewriting.
What holds of all strings, integers and numbers in a value (`every`), which assignments and
initializer lists keep; the different notions of a good value are instances of it.  And that `dump`
succeeds exactly on values whose strings are UTF-8.
-/

namespace MultiPlayerGame

open Bytes (ascii decimal)

inductive Json where
  | null
  | boolean (b : Bool)
  | integer (n : Int)
  | float (text : Bytes)
  | string (s : Bytes)
  | array (items : List Json)
  | object (fields : List (Bytes × Json))
  deriving Repr

namespace Json

/-! ## Objects -/

/-- `operator[]` on the left of an assignment: overwrite the field or insert it at its place. -/
def setField (key : Bytes) (value : Json) : List (Bytes × Json) → List (Bytes × Json)
  | [] => [(key, value)]
  | (k, v) :: rest =>
    if key < k then (key, value) :: (k, v) :: rest
    else if key = k then (key, value) :: rest
    else (k, v) :: setField key value rest

/-- The object with the given fields, written in any order. -/
def ofFields (fields : List (Bytes × Json)) : Json :=
  object (fields.foldl (fun fs f => setField f.1 f.2 fs) [])

/-- An initializer list of fields.  It is built with `emplace`, so the first of two equal keys would
stay; the keys are string literals. -/
def obj (fields : List (String × Json)) : Json :=
  object (fields.foldr (fun f fs => setField (ascii f.1) f.2 fs) [])

/-- An `int` as a JSON value. -/
def int (n : Int32) : Json := integer n.toInt

/-- `operator[]` and `find`: the value of a field. -/
def findField (key : Bytes) : List (Bytes × Json) → Option Json
  | [] => none
  | (k, v) :: rest => if k = key then some v else findField key rest

/-- The field of a value; a value that is no object has none. -/
def field? (key : Bytes) : Json → Option Json
  | object fields => findField key fields
  | _ => none

/-- `j[key] = value` on an object. -/
def set (j : Json) (key : Bytes) (value : Json) : Json :=
  match j with
  | object fields => object (setField key value fields)
  | j => j

/-- `j.value(key, dflt)` for a string. -/
def stringValue (key dflt : Bytes) (j : Json) : Bytes :=
  match j.field? key with
  | some (string s) => s
  | _ => dflt

/-- `get<int>()`: a cast to 32 bits.  There is no check of the range: the low 32 bits are kept, with
their sign. -/
def toInt32 (n : Int) : Int32 := Int32.ofInt n

theorem findField_setField (key : Bytes) (value : Json) (fields : List (Bytes × Json))
    (k : Bytes) :
    findField k (setField key value fields) =
      if k = key then some value else findField k fields := by
  induction fields with
  | nil => simp [setField, findField, eq_comm]
  | cons f rest ih =>
    obtain ⟨k', v⟩ := f
    unfold setField
    split
    · simp only [findField, eq_comm]
    split
    · rename_i hkey
      subst hkey
      by_cases hk : k = key
      · simp [findField, hk]
      · simp [findField, hk, Ne.symm hk]
    · rename_i hne
      simp only [findField, ih]
      by_cases hk : k' = k
      · subst hk
        simp [Ne.symm hne]
      · simp [hk]

@[simp] theorem field?_obj_nil (k : Bytes) : (obj []).field? k = none := rfl

@[simp] theorem field?_obj_cons (f : String × Json) (fields : List (String × Json)) (k : Bytes) :
    (obj (f :: fields)).field? k = if k = ascii f.1 then some f.2 else (obj fields).field? k :=
  findField_setField (ascii f.1) f.2 _ k

theorem field?_set_obj (key : Bytes) (value : Json) (fields : List (String × Json)) (k : Bytes) :
    ((obj fields).set key value).field? k =
      if k = key then some value else (obj fields).field? k :=
  findField_setField key value _ k

/-! ## The serializer -/

/-- A hexadecimal digit, lower case. -/
def hexDigit (n : Nat) : UInt8 := UInt8.ofNat (if n < 10 then 0x30 + n else 0x57 + n)

/-- What `dump_escaped` writes for one byte.  The bytes of longer characters are all above ASCII and
are copied. -/
def escape (b : UInt8) : Bytes :=
  if b = 0x08 then [0x5C, 0x62]
  else if b = 0x09 then [0x5C, 0x74]
  else if b = 0x0A then [0x5C, 0x6E]
  else if b = 0x0C then [0x5C, 0x66]
  else if b = 0x0D then [0x5C, 0x72]
  else if b = 0x22 then [0x5C, 0x22]
  else if b = 0x5C then [0x5C, 0x5C]
  else if b ≤ 0x1F then
    [0x5C, 0x75, 0x30, 0x30, hexDigit (b.toNat / 16), hexDigit (b.toNat % 16)]
  else [b]

/-- A string in quotes. -/
def quote (s : Bytes) : Bytes := 0x22 :: s.flatMap escape ++ [0x22]

mutual

/-- The characters written for a value.  Nothing is checked here; whether `dump` writes it is a
matter of the strings. -/
def text : Json → Bytes
  | null => ascii "null"
  | boolean true => ascii "true"
  | boolean false => ascii "false"
  | integer n => decimal n
  | float t => t
  | string s => quote s
  | array items => 0x5B :: textItems items ++ [0x5D]
  | object fields => 0x7B :: textFields fields ++ [0x7D]

/-- The elements of an array, a comma between every two. -/
def textItems : List Json → Bytes
  | [] => []
  | [v] => text v
  | v :: w :: rest => text v ++ 0x2C :: textItems (w :: rest)

/-- The fields of an object, a comma between every two. -/
def textFields : List (Bytes × Json) → Bytes
  | [] => []
  | [(k, v)] => quote k ++ 0x3A :: text v
  | (k, v) :: f :: rest => quote k ++ 0x3A :: text v ++ 0x2C :: textFields (f :: rest)

end

mutual

/-- Do all strings and keys satisfy `p`, all integers `q` and all floating-point numbers `r`? -/
def every (p : Bytes → Bool) (q : Int → Bool) (r : Bytes → Bool) : Json → Bool
  | string s => p s
  | integer n => q n
  | float t => r t
  | array items => everyItem p q r items
  | object fields => everyField p q r fields
  | _ => true

def everyItem (p : Bytes → Bool) (q : Int → Bool) (r : Bytes → Bool) : List Json → Bool
  | [] => true
  | v :: rest => every p q r v && everyItem p q r rest

def everyField (p : Bytes → Bool) (q : Int → Bool) (r : Bytes → Bool) :
    List (Bytes × Json) → Bool
  | [] => true
  | (k, v) :: rest => p k && every p q r v && everyField p q r rest

end

section Every

variable {p : Bytes → Bool} {q : Int → Bool} {r : Bytes → Bool}

theorem everyItem_iff {items : List Json} :
    everyItem p q r items = true ↔ ∀ v ∈ items, v.every p q r = true := by
  induction items with
  | nil => simp [everyItem]
  | cons v rest ih => simp [everyItem, ih]

theorem everyField_iff {fields : List (Bytes × Json)} :
    everyField p q r fields = true ↔
      ∀ f ∈ fields, p f.1 = true ∧ f.2.every p q r = true := by
  induction fields with
  | nil => simp [everyField]
  | cons f rest ih => simp [everyField, ih, and_assoc]

theorem mem_setField {key : Bytes} {value : Json} {fields : List (Bytes × Json)}
    {f : Bytes × Json} (hf : f ∈ setField key value fields) : f = (key, value) ∨ f ∈ fields := by
  induction fields with
  | nil => exact Or.inl (List.mem_singleton.mp hf)
  | cons g rest ih =>
    obtain ⟨k, v⟩ := g
    unfold setField at hf
    split at hf
    · rcases List.mem_cons.mp hf with hf | hf
      · exact Or.inl hf
      · exact Or.inr hf
    split at hf
    · rcases List.mem_cons.mp hf with hf | hf
      · exact Or.inl hf
      · exact Or.inr (List.mem_cons_of_mem _ hf)
    · rcases List.mem_cons.mp hf with hf | hf
      · exact Or.inr (hf ▸ List.mem_cons_self)
      · exact (ih hf).imp_right (List.mem_cons_of_mem _)

theorem everyField_setField {key : Bytes} {value : Json} {fields : List (Bytes × Json)}
    (hkey : p key = true) (hvalue : value.every p q r = true)
    (hfields : everyField p q r fields = true) :
    everyField p q r (setField key value fields) = true := by
  rw [everyField_iff] at hfields ⊢
  intro f hf
  rcases mem_setField hf with rfl | hf
  · exact ⟨hkey, hvalue⟩
  · exact hfields f hf

theorem every_obj {fields : List (String × Json)}
    (hfields : ∀ f ∈ fields, p (ascii f.1) = true ∧ f.2.every p q r = true) :
    (obj fields).every p q r = true := by
  induction fields with
  | nil => rfl
  | cons f rest ih =>
    have hf := hfields f List.mem_cons_self
    exact everyField_setField hf.1 hf.2 (ih fun g hg => hfields g (List.mem_cons_of_mem _ hg))

theorem every_set {key : Bytes} {value j : Json} (hkey : p key = true)
    (hvalue : value.every p q r = true) (hj : j.every p q r = true) :
    (j.set key value).every p q r = true := by
  cases j with
  | object fields => exact everyField_setField hkey hvalue hj
  | _ => exact hj

theorem every_of_findField {key : Bytes} {v : Json} {fields : List (Bytes × Json)}
    (hfields : everyField p q r fields = true) (hv : findField key fields = some v) :
    v.every p q r = true := by
  induction fields with
  | nil => cases hv
  | cons f rest ih =>
    rw [everyField, Bool.and_eq_true, Bool.and_eq_true] at hfields
    rw [findField] at hv
    split at hv
    · cases hv
      exact hfields.1.2
    · exact ih hfields.2 hv

/-- What holds throughout an object holds throughout each of its fields. -/
theorem every_of_field? {key : Bytes} {j v : Json} (hj : j.every p q r = true)
    (hv : j.field? key = some v) : v.every p q r = true := by
  cases j with
  | object fields => exact every_of_findField hj hv
  | _ => cases hv

variable {p' : Bytes → Bool} {q' : Int → Bool} {r' : Bytes → Bool}

mutual

theorem every_mono (hp : ∀ s, p s = true → p' s = true) (hq : ∀ n, q n = true → q' n = true)
    (hr : ∀ t, r t = true → r' t = true) :
    ∀ j : Json, j.every p q r = true → j.every p' q' r' = true
  | string s, h => hp s h
  | integer n, h => hq n h
  | float t, h => hr t h
  | array items, h => everyItem_mono hp hq hr items h
  | object fields, h => everyField_mono hp hq hr fields h
  | null, _ | boolean _, _ => rfl

theorem everyItem_mono (hp : ∀ s, p s = true → p' s = true) (hq : ∀ n, q n = true → q' n = true)
    (hr : ∀ t, r t = true → r' t = true) :
    ∀ items : List Json, everyItem p q r items = true → everyItem p' q' r' items = true
  | [], _ => rfl
  | v :: rest, h => by
    rw [everyItem, Bool.and_eq_true] at h ⊢
    exact ⟨every_mono hp hq hr v h.1, everyItem_mono hp hq hr rest h.2⟩

theorem everyField_mono (hp : ∀ s, p s = true → p' s = true) (hq : ∀ n, q n = true → q' n = true)
    (hr : ∀ t, r t = true → r' t = true) :
    ∀ fields : List (Bytes × Json),
      everyField p q r fields = true → everyField p' q' r' fields = true
  | [], _ => rfl
  | (k, v) :: rest, h => by
    rw [everyField, Bool.and_eq_true, Bool.and_eq_true] at h ⊢
    exact ⟨⟨hp k h.1.1, every_mono hp hq hr v h.1.2⟩, everyField_mono hp hq hr rest h.2⟩

end

end Every

/-- Are all keys and strings well-formed UTF-8?  This is what `dump_escaped` checks as it goes. -/
def utf8 (j : Json) : Bool :=
  j.every (fun s => decide (Utf8.Valid s)) (fun _ => true) fun _ => true

/-- `dump()`: the text of a value; `none` is the exception thrown on a string that is not UTF-8. -/
def dump (j : Json) : Option Bytes := if j.utf8 then some j.text else none

theorem dump_of_utf8 {j : Json} (h : j.utf8 = true) : j.dump = some j.text := if_pos h

end Json
end MultiPlayerGame
