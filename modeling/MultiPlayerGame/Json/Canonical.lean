import MultiPlayerGame.Json.RoundTrip

/-!
# Values with their fields in order

The fields of an object are a `std::map` in the source, so they are in the order of their keys and
no key occurs twice.  The type `Json` also has other values; `Canonical` says that a value is not
one of them.  The values that the server builds are canonical, and so are the ones it has parsed.

A canonical value whose strings and numbers can be read is read back as it was written
(`Parser.parse_text_canonical`), and parsing gives no other values.  So what has been parsed
survives another round (`Parser.parse_text_of_parse`).  There this is said of values without
floating-point numbers only.  The source keeps such a number as a `double` and prints it in its own
way, `1e5` as `100000.0`; here it is a text, and that this text does not change would say nothing
about the source.

## How it is used

Canonical is what comes out of the constructors that the server uses: an object is built by
assignments to an empty one, and each assignment puts its field in its place
(`sortedKeys_setField`).  So for a value that is written down field by field nothing has to be
compared.  The parser builds its objects with the same assignments, and all parts of a document that
it keeps between two tokens are canonical too (`step_canonical`).

With both, reading and writing are inverse to each other on canonical values whose numbers are
integers, and every value that was parsed is one.  For values with floating-point numbers there is
only the statement that a text which is one token is read as that token.
-/

namespace MultiPlayerGame

open Bytes (ascii)

/-! ## The order of the keys -/

theorem Bytes.lt_trans {a b c : Bytes} (hab : a < b) (hbc : b < c) : a < c := List.lt_trans hab hbc

theorem Bytes.lt_of_not_lt {a b : Bytes} (hlt : ¬ a < b) (hne : a ≠ b) : b < a := by
  rcases Std.lt_trichotomy a b with h | h | h
  · exact absurd h hlt
  · exact absurd h hne
  · exact h

namespace Json

/-- The fields in the order of their keys, each key once. -/
def SortedKeys (fields : List (Bytes × Json)) : Prop := fields.Pairwise fun f g => f.1 < g.1

/-- A new key behind all others. -/
theorem setField_concat {key : Bytes} {fields : List (Bytes × Json)}
    (h : ∀ f ∈ fields, f.1 < key) (value : Json) :
    setField key value fields = fields ++ [(key, value)] := by
  induction fields with
  | nil => rfl
  | cons f rest ih =>
    obtain ⟨k, v⟩ := f
    have hlt : k < key := h _ List.mem_cons_self
    have hnot : ¬ key < k := fun hgt => List.lt_irrefl _ (Bytes.lt_trans hlt hgt)
    have hne : key ≠ k := by
      rintro rfl
      exact List.lt_irrefl _ hlt
    rw [setField, if_neg hnot, if_neg hne, ih fun g hg => h g (List.mem_cons_of_mem _ hg)]
    rfl

theorem key_of_mem_setField {key k : Bytes} {value : Json} {fields : List (Bytes × Json)}
    (h : ∀ f ∈ fields, k < f.1) (hk : k < key) : ∀ f ∈ setField key value fields, k < f.1 := by
  intro f hf
  rcases mem_setField hf with rfl | hf
  · exact hk
  · exact h f hf

/-- **An assignment keeps the fields in order.**  The new field goes in front of the first greater
key, or takes the place of an equal one. -/
theorem sortedKeys_setField {key : Bytes} {fields : List (Bytes × Json)}
    (h : SortedKeys fields) (value : Json) : SortedKeys (setField key value fields) := by
  induction fields with
  | nil => exact List.pairwise_singleton _ _
  | cons f rest ih =>
    obtain ⟨k, v⟩ := f
    obtain ⟨hfirst, hrest⟩ := List.pairwise_cons.mp h
    unfold setField
    split
    · rename_i hlt
      refine List.pairwise_cons.mpr ⟨fun g hg => ?_, h⟩
      rcases List.mem_cons.mp hg with rfl | hg
      · exact hlt
      · exact Bytes.lt_trans hlt (hfirst g hg)
    split
    · rename_i heq
      subst heq
      exact List.pairwise_cons.mpr ⟨hfirst, hrest⟩
    · rename_i hnot hne
      have hlt := Bytes.lt_of_not_lt hnot hne
      exact List.pairwise_cons.mpr ⟨key_of_mem_setField hfirst hlt, ih hrest⟩

/-- **Fields in order are not moved.**  Each of them is inserted behind all that are there already.
-/
theorem ofFields_of_sorted {fields : List (Bytes × Json)} (h : SortedKeys fields) :
    ofFields fields = object fields := by
  suffices hfold : ∀ acc, SortedKeys (acc ++ fields) →
      fields.foldl (fun fs f => setField f.1 f.2 fs) acc = acc ++ fields from
    congrArg object (hfold [] h)
  clear h
  induction fields with
  | nil => exact fun acc _ => (List.append_nil acc).symm
  | cons f rest ih =>
    intro acc hacc
    have hlast : ∀ g ∈ acc, g.1 < f.1 := fun g hg =>
      (List.pairwise_append.mp hacc).2.2 g hg f List.mem_cons_self
    rw [List.foldl_cons, setField_concat hlast, ih _ (by rwa [List.append_assoc]),
      List.append_assoc]
    rfl

/-! ## Canonical values -/

mutual

/-- The fields of every object are in order. -/
def Canonical : Json → Prop
  | array items => CanonicalItems items
  | object fields => SortedKeys fields ∧ CanonicalFields fields
  | _ => True

def CanonicalItems : List Json → Prop
  | [] => True
  | v :: rest => Canonical v ∧ CanonicalItems rest

def CanonicalFields : List (Bytes × Json) → Prop
  | [] => True
  | (_, v) :: rest => Canonical v ∧ CanonicalFields rest

end

theorem canonicalItems_iff {items : List Json} :
    CanonicalItems items ↔ ∀ v ∈ items, v.Canonical := by
  induction items with
  | nil => simp [CanonicalItems]
  | cons v rest ih => simp [CanonicalItems, ih]

theorem canonicalFields_iff {fields : List (Bytes × Json)} :
    CanonicalFields fields ↔ ∀ f ∈ fields, f.2.Canonical := by
  induction fields with
  | nil => simp [CanonicalFields]
  | cons f rest ih => simp [CanonicalFields, ih]

theorem canonical_array {items : List Json} (h : ∀ v ∈ items, v.Canonical) :
    (array items).Canonical :=
  canonicalItems_iff.mpr h

theorem canonical_setField {key : Bytes} {value : Json} {fields : List (Bytes × Json)}
    (hvalue : value.Canonical) (h : (object fields).Canonical) :
    (object (setField key value fields)).Canonical := by
  refine ⟨sortedKeys_setField h.1 value, canonicalFields_iff.mpr fun f hf => ?_⟩
  rcases mem_setField hf with rfl | hf
  · exact hvalue
  · exact canonicalFields_iff.mp h.2 f hf

theorem canonical_empty : (object []).Canonical := ⟨List.Pairwise.nil, trivial⟩

theorem canonical_obj {fields : List (String × Json)} (h : ∀ f ∈ fields, f.2.Canonical) :
    (obj fields).Canonical := by
  induction fields with
  | nil => exact canonical_empty
  | cons f rest ih =>
    exact canonical_setField (h f List.mem_cons_self)
      (ih fun g hg => h g (List.mem_cons_of_mem _ hg))

theorem canonical_set {key : Bytes} {value j : Json} (hvalue : value.Canonical)
    (hj : j.Canonical) : (j.set key value).Canonical := by
  cases j with
  | object fields => exact canonical_setField hvalue hj
  | _ => exact hj

mutual

/-- **Nothing is moved in a canonical value.**  Putting the fields in order has nothing to do, in
the value and in all of its parts. -/
theorem canon_of_canonical : ∀ j : Json, j.Canonical → j.canon = j
  | .array items, h => congrArg array (canonItems_of_canonical items h)
  | .object fields, h => by
    rw [canon, canonFields_of_canonical fields h.2, ofFields_of_sorted h.1]
  | .null, _ | .boolean _, _ | .integer _, _ | .float _, _ | .string _, _ => rfl

theorem canonItems_of_canonical : ∀ items : List Json, CanonicalItems items →
    canonItems items = items
  | [], _ => rfl
  | v :: rest, h => by
    rw [canonItems, canon_of_canonical v h.1, canonItems_of_canonical rest h.2]

theorem canonFields_of_canonical : ∀ fields : List (Bytes × Json), CanonicalFields fields →
    canonFields fields = fields
  | [], _ => rfl
  | (k, v) :: rest, h => by
    rw [canonFields, canon_of_canonical v h.1, canonFields_of_canonical rest h.2]

end

@[simp] theorem canonical_int (n : Int32) : (int n).Canonical := trivial

@[simp] theorem canonical_integer (n : Int) : (integer n).Canonical := trivial

@[simp] theorem canonical_string (s : Bytes) : (string s).Canonical := trivial

@[simp] theorem canonical_boolean (b : Bool) : (boolean b).Canonical := trivial

@[simp] theorem canonical_float (t : Bytes) : (float t).Canonical := trivial

/-! ## Strings and numbers -/

section Every

variable {p p' : Bytes → Bool} {q q' : Int → Bool} {r r' : Bytes → Bool}

mutual

theorem every_and : ∀ j : Json, j.every p q r = true → j.every p' q' r' = true →
    j.every (fun s => p s && p' s) (fun n => q n && q' n) (fun t => r t && r' t) = true
  | string _, h, h' | integer _, h, h' | float _, h, h' => Bool.and_eq_true_iff.mpr ⟨h, h'⟩
  | array items, h, h' => everyItem_and items h h'
  | object fields, h, h' => everyField_and fields h h'
  | null, _, _ | boolean _, _, _ => rfl

theorem everyItem_and : ∀ items : List Json, everyItem p q r items = true →
    everyItem p' q' r' items = true →
    everyItem (fun s => p s && p' s) (fun n => q n && q' n) (fun t => r t && r' t) items = true
  | [], _, _ => rfl
  | v :: rest, h, h' => by
    rw [everyItem, Bool.and_eq_true] at h h' ⊢
    exact ⟨every_and v h.1 h'.1, everyItem_and rest h.2 h'.2⟩

theorem everyField_and : ∀ fields : List (Bytes × Json), everyField p q r fields = true →
    everyField p' q' r' fields = true →
    everyField (fun s => p s && p' s) (fun n => q n && q' n) (fun t => r t && r' t) fields = true
  | [], _, _ => rfl
  | (k, v) :: rest, h, h' => by
    rw [everyField, Bool.and_eq_true, Bool.and_eq_true] at h h' ⊢
    exact ⟨⟨Bool.and_eq_true_iff.mpr ⟨h.1.1, h'.1.1⟩, every_and v h.1.2 h'.1.2⟩,
      everyField_and rest h.2 h'.2⟩

end

end Every

/-- No floating-point number: every number is written without a fraction and an exponent, and has at
most 64 bits. -/
def integral (j : Json) : Bool := j.every (fun _ => true) (fun _ => true) fun _ => false

theorem plain_of_sound {j : Json} (h : j.sound = true) (h' : j.integral = true) : j.plain = true :=
  every_mono (fun _ hs => (Bool.and_eq_true_iff.mp hs).1)
    (fun _ hn => (Bool.and_eq_true_iff.mp hn).1) (fun _ ht => (Bool.and_eq_true_iff.mp ht).2) j
    (every_and j h h')

/-- All integers within 64 bits, and all floating-point numbers what they should be. -/
def numeric (j : Json) : Bool :=
  j.every (fun _ => true) (fun n => decide (-2 ^ 63 ≤ n ∧ n < 2 ^ 64)) isDouble

theorem readable_of_utf8 {j : Json} (h : j.utf8 = true) (h' : j.numeric = true) :
    j.readable = true :=
  every_mono (fun _ hs => (Bool.and_eq_true_iff.mp hs).1) (fun _ hn => hn)
    (fun _ ht => ht) j (every_and j h h')

@[simp] theorem numeric_int (n : Int32) : (int n).numeric = true := plain_int n

@[simp] theorem numeric_string (s : Bytes) : (string s).numeric = true := rfl

@[simp] theorem numeric_boolean (b : Bool) : (boolean b).numeric = true := rfl

theorem numeric_float {text : Bytes} (h : isDouble text = true) : (float text).numeric = true := by
  rw [numeric, every]
  exact h

theorem numeric_natural {n : ℕ} (h : n < 2 ^ 64) : (integer n).numeric = true := by
  rw [numeric, every, decide_eq_true_iff]
  omega

theorem numeric_array {items : List Json} (h : ∀ v ∈ items, v.numeric = true) :
    (array items).numeric = true :=
  everyItem_iff.mpr h

theorem numeric_obj {fields : List (String × Json)} (h : ∀ f ∈ fields, f.2.numeric = true) :
    (obj fields).numeric = true :=
  every_obj fun f hf => ⟨rfl, h f hf⟩

theorem numeric_set {key : Bytes} {value j : Json} (hvalue : value.numeric = true)
    (hj : j.numeric = true) : (j.set key value).numeric = true :=
  every_set rfl hvalue hj

end Json

/-! ## Parsing -/

namespace Parser

open Lexer (tokens)

/-- **What is written is read.**  The text of a value whose fields are in order and whose strings
and numbers can be read gives the value itself. -/
theorem parse_text_canonical {j : Json} (hcanonical : j.Canonical) (hj : j.readable = true) :
    parse j.text = some j := by
  rw [parse_text_readable hj, Json.canon_of_canonical j hcanonical]

/-- The open parts of a document are canonical. -/
def Frame.Canonical : Frame → Prop
  | .array items => ∀ v ∈ items, v.Canonical
  | .object fields _ => (Json.object fields).Canonical

/-- All parts of the document that are kept at a point are canonical. -/
def Point.Canonical : Point → Prop
  | .value stack | .arrayOpen stack | .objectOpen stack => ∀ f ∈ stack, f.Canonical
  | .item stack items => (∀ f ∈ stack, f.Canonical) ∧ ∀ v ∈ items, v.Canonical
  | .key stack fields | .field stack fields | .colon stack fields _ =>
    (∀ f ∈ stack, f.Canonical) ∧ (Json.object fields).Canonical
  | .finished document | .accepted document => document.Canonical
  | .failed => True

theorem complete_canonical {v : Json} (hv : v.Canonical) {stack : List Frame}
    (hstack : ∀ f ∈ stack, f.Canonical) : (complete v stack).Canonical := by
  cases stack with
  | nil => exact hv
  | cons f stack =>
    obtain ⟨hf, hrest⟩ := List.forall_mem_cons.mp hstack
    cases f with
    | array items =>
      exact ⟨hrest, List.forall_mem_append.mpr ⟨hf, List.forall_mem_singleton.mpr hv⟩⟩
    | object fields key => exact ⟨hrest, Json.canonical_setField hv hf⟩

theorem begin_canonical {stack : List Frame} (hstack : ∀ f ∈ stack, f.Canonical) (t : Token) :
    (begin stack t).Canonical := by
  cases t with
  | beginObject | beginArray => exact hstack
  | valueFloat text =>
    cases hfinite : isFinite text with
    | true =>
      rw [begin_float hfinite]
      exact complete_canonical (by trivial) hstack
    | false =>
      rw [begin, hfinite]
      trivial
  | valueInteger | valueString | literalTrue | literalFalse | literalNull =>
    exact complete_canonical (by trivial) hstack
  | _ => trivial

theorem step_canonical {x : Point} (hx : x.Canonical) (t : Token) : (step x t).Canonical := by
  fun_cases step x t with
  | case1 stack => exact begin_canonical hx _
  | case2 stack => exact complete_canonical (by trivial) hx
  | case3 stack =>
    have hopen : (Frame.array []).Canonical := fun v hv => by cases hv
    exact begin_canonical (List.forall_mem_cons.mpr ⟨hopen, hx⟩) _
  | case4 stack items => exact List.forall_mem_cons.mpr ⟨hx.2, hx.1⟩
  | case5 stack items => exact complete_canonical (Json.canonical_array hx.2) hx.1
  | case6 stack => exact complete_canonical Json.canonical_empty hx
  | case7 stack key => exact ⟨hx, Json.canonical_empty⟩
  | case8 stack fields key => exact hx
  | case9 stack fields key => exact List.forall_mem_cons.mpr ⟨hx.2, hx.1⟩
  | case10 stack fields => exact hx
  | case11 stack fields => exact complete_canonical hx.2 hx.1
  | case12 document => exact hx
  | case13 => trivial

theorem advance_canonical {x : Point} (hx : x.Canonical) (ts : List Token) :
    (advance x ts).Canonical := by
  induction ts generalizing x with
  | nil => exact hx
  | cons t ts ih => exact ih (step_canonical hx t)

/-- **A parsed value is canonical.**  The parser builds its objects by assignments, and all it keeps
between two tokens is canonical. -/
theorem parse_canonical {s : Bytes} {j : Json} (h : parse s = some j) : j.Canonical := by
  have hend := advance_canonical (x := .value []) (fun _ hf => by cases hf) (tokens s)
  rw [parse] at h
  split at h
  · rename_i document hdocument
    cases h
    rw [hdocument] at hend
    exact hend
  · cases h

/-- **Parsing, writing and parsing again gives the same value**, if no floating-point number occurs
in it. -/
theorem parse_text_of_parse {s : Bytes} {j : Json} (h : parse s = some j)
    (hintegral : j.integral = true) : parse j.text = some j :=
  parse_text_canonical (parse_canonical h)
    (Json.readable_of_plain (Json.plain_of_sound (parse_sound h) hintegral))

/-- **An object of an initializer list is read as it was written.**  Nothing is asked of the order
of the fields, for the list has been put in order when the object was made. -/
theorem parse_text_obj {fields : List (String × Json)}
    (h : ∀ f ∈ fields, Utf8.Valid (ascii f.1) ∧ f.2.readable = true ∧ f.2.Canonical) :
    parse (Json.obj fields).text = some (.obj fields) :=
  parse_text_canonical (Json.canonical_obj fun f hf => (h f hf).2.2)
    (Json.every_obj fun f hf => ⟨decide_eq_true (h f hf).1, (h f hf).2.1⟩)

end Parser
end MultiPlayerGame
