import MultiPlayerGame.Json.Lexer

/-!
# The JSON parser

`parser::sax_parse_internal` with the handler that builds the document.  The source keeps a stack of
the open arrays and objects and loops over tokens; here the loop is a fold, and `Point` is where the
parser stands between two tokens, with the parts of the document that are still open.

A field that occurs twice keeps its last value.  A floating-point number that overflows is an
error, as in the source.  `json::parse` is `parse`, with `none` for the exception.

## Invariants of the document

What the parser keeps between two tokens is in its `Point`: finished elements and fields, and the
frames of what is still open.  A property that values have if their parts have it is therefore kept
by every step, as soon as it holds of what the tokens carry (`step_every`), and `parse_every` is the
conclusion for a whole text.  It is used with different properties: that strings are UTF-8, that
integers fit 64 bits, that no string is longer than the text.

Whether a number overflows is decided on its digits and not by computing a double.  A decimal number
is rounded to infinity from halfway between the greatest double and the next power of two on, and a
comparison of integers, suitably scaled, is enough to tell (`isFinite`).
-/

namespace MultiPlayerGame

open Bytes (readDigits isDigit)

namespace Parser

open Lexer (tokens)

/-! ## Floating-point numbers that overflow -/

/-- The digits of a number behind its sign, and the power of ten that scales them. -/
def scaled (text : Bytes) : Nat × Int :=
  let t := if text.head? = some 0x2D then text.tail else text
  let whole := t.takeWhile isDigit
  let behind := t.dropWhile isDigit
  let frac := if behind.head? = some 0x2E then behind.tail.takeWhile isDigit else []
  let power := if behind.head? = some 0x2E then behind.tail.dropWhile isDigit else behind
  let exponent : Int :=
    match power with
    | _ :: 0x2D :: ds => -(readDigits 0 ds : Int)
    | _ :: 0x2B :: ds => readDigits 0 ds
    | _ :: ds => readDigits 0 ds
    | [] => 0
  (readDigits 0 (whole ++ frac), exponent - frac.length)

/-- Does the nearest double exist?  Numbers from halfway between the largest one and `2 ^ 1024` on
are rounded to infinity. -/
def isFinite (text : Bytes) : Bool :=
  let (digits, power) := scaled text
  digits * 10 ^ power.toNat < (2 ^ 1024 - 2 ^ 970) * 10 ^ (-power).toNat

/-! ## The automaton -/

/-- An array or object that is open around the current value. -/
inductive Frame where
  | array (items : List Json)
  | object (fields : List (Bytes × Json)) (key : Bytes)

/-- Where the parser stands between two tokens. -/
inductive Point where
  /-- a value is expected -/
  | value (stack : List Frame)
  /-- behind `[` -/
  | arrayOpen (stack : List Frame)
  /-- behind an element -/
  | item (stack : List Frame) (items : List Json)
  /-- behind an opening brace -/
  | objectOpen (stack : List Frame)
  /-- behind the comma of an object: a key is expected -/
  | key (stack : List Frame) (fields : List (Bytes × Json))
  /-- behind a key: a colon is expected -/
  | colon (stack : List Frame) (fields : List (Bytes × Json)) (key : Bytes)
  /-- behind a field -/
  | field (stack : List Frame) (fields : List (Bytes × Json))
  /-- behind the document: the end of the input is expected -/
  | finished (document : Json)
  | accepted (document : Json)
  | failed

/-- A value is complete. -/
def complete (v : Json) : List Frame → Point
  | [] => .finished v
  | .array items :: stack => .item stack (items ++ [v])
  | .object fields key :: stack => .field stack (Json.setField key v fields)

/-- The token where a value is expected. -/
def begin (stack : List Frame) : Token → Point
  | .beginObject => .objectOpen stack
  | .beginArray => .arrayOpen stack
  | .valueFloat text => if isFinite text then complete (.float text) stack else .failed
  | .literalFalse => complete (.boolean false) stack
  | .literalNull => complete .null stack
  | .literalTrue => complete (.boolean true) stack
  | .valueInteger n => complete (.integer n) stack
  | .valueString s => complete (.string s) stack
  | _ => .failed

/-- One token. -/
def step : Point → Token → Point
  | .value stack, t => begin stack t
  | .arrayOpen stack, .endArray => complete (.array []) stack
  | .arrayOpen stack, t => begin (.array [] :: stack) t
  | .item stack items, .valueSeparator => .value (.array items :: stack)
  | .item stack items, .endArray => complete (.array items) stack
  | .objectOpen stack, .endObject => complete (.object []) stack
  | .objectOpen stack, .valueString k => .colon stack [] k
  | .key stack fields, .valueString k => .colon stack fields k
  | .colon stack fields k, .nameSeparator => .value (.object fields k :: stack)
  | .field stack fields, .valueSeparator => .key stack fields
  | .field stack fields, .endObject => complete (.object fields) stack
  | .finished document, .endOfInput => .accepted document
  | _, _ => .failed

/-- Where the parser stands after some tokens.  The fold of `step` over them, so that tokens can be
split anywhere. -/
def advance (p : Point) (ts : List Token) : Point := ts.foldl step p

/-- `json::parse`.  The whole input has to be one value, with nothing behind it but white space. -/
def parse (s : Bytes) : Option Json :=
  match advance (.value []) (tokens s) with
  | .accepted document => some document
  | _ => none

@[simp] theorem advance_nil (p : Point) : advance p [] = p := rfl

@[simp] theorem advance_cons (p : Point) (t : Token) (ts : List Token) :
    advance p (t :: ts) = advance (step p t) ts := rfl

theorem advance_append (p : Point) (ts us : List Token) :
    advance p (ts ++ us) = advance (advance p ts) us :=
  List.foldl_append

end Parser

/-! ## What a parsed document contains -/

namespace Parser

open Lexer (tokens)

section Every

variable (p : Bytes → Bool) (q : Int → Bool) (r : Bytes → Bool)

/-- Does what a token carries satisfy what is asked of values of its kind? -/
def Allowed : Token → Prop
  | .valueString s => p s = true
  | .valueInteger n => q n = true
  | .valueFloat text => r text = true
  | _ => True

/-- The open parts of a document satisfy it.  These are the elements and fields that have been
finished, and the keys. -/
def Frame.Every : Frame → Prop
  | .array items => ∀ v ∈ items, v.every p q r = true
  | .object fields key => (Json.object fields).every p q r = true ∧ p key = true

/-- All parts of the document that are kept at a point satisfy it. -/
def Point.Every : Point → Prop
  | .value stack | .arrayOpen stack | .objectOpen stack => ∀ f ∈ stack, f.Every p q r
  | .item stack items => (∀ f ∈ stack, f.Every p q r) ∧ ∀ v ∈ items, v.every p q r = true
  | .key stack fields | .field stack fields =>
    (∀ f ∈ stack, f.Every p q r) ∧ (Json.object fields).every p q r = true
  | .colon stack fields k =>
    (∀ f ∈ stack, f.Every p q r) ∧ (Json.object fields).every p q r = true ∧ p k = true
  | .finished document | .accepted document => document.every p q r = true
  | .failed => True

variable {p : Bytes → Bool} {q : Int → Bool} {r : Bytes → Bool}

theorem every_array {items : List Json} (h : ∀ v ∈ items, v.every p q r = true) :
    (Json.array items).every p q r = true :=
  Json.everyItem_iff.mpr h

theorem complete_every {v : Json} (hv : v.every p q r = true) {stack : List Frame}
    (hstack : ∀ f ∈ stack, f.Every p q r) : (complete v stack).Every p q r := by
  cases stack with
  | nil => exact hv
  | cons f stack =>
    have hf := hstack f List.mem_cons_self
    have hrest : ∀ g ∈ stack, g.Every p q r := fun g hg => hstack g (List.mem_cons_of_mem _ hg)
    cases f with
    | array items =>
      refine ⟨hrest, fun w hw => ?_⟩
      rcases List.mem_append.mp hw with hw | hw
      · exact hf w hw
      · rw [List.mem_singleton.mp hw]
        exact hv
    | object fields key => exact ⟨hrest, Json.everyField_setField hf.2 hv hf.1⟩

theorem begin_every {t : Token} (ht : Allowed p q r t) {stack : List Frame}
    (hstack : ∀ f ∈ stack, f.Every p q r) : (begin stack t).Every p q r := by
  cases t with
  | beginObject => exact hstack
  | beginArray => exact hstack
  | valueFloat text =>
    cases hfinite : isFinite text
    · rw [begin, hfinite]
      trivial
    · rw [begin, hfinite]
      exact complete_every (v := .float text) ht hstack
  | valueInteger n => exact complete_every (v := .integer n) ht hstack
  | valueString s => exact complete_every (v := .string s) ht hstack
  | literalTrue => exact complete_every rfl hstack
  | literalFalse => exact complete_every rfl hstack
  | literalNull => exact complete_every rfl hstack
  | _ => trivial

theorem step_every {x : Point} (hx : x.Every p q r) {t : Token} (ht : Allowed p q r t) :
    (step x t).Every p q r := by
  have hnil : (Json.object []).every p q r = true := rfl
  fun_cases step x t with
  | case1 stack => exact begin_every ht hx
  | case2 stack => exact complete_every rfl hx
  | case3 stack =>
    refine begin_every ht fun f hf => ?_
    rcases List.mem_cons.mp hf with rfl | hf
    · exact fun v hv => by cases hv
    · exact hx f hf
  | case4 stack items =>
    intro f hf
    rcases List.mem_cons.mp hf with rfl | hf
    · exact hx.2
    · exact hx.1 f hf
  | case5 stack items => exact complete_every (every_array hx.2) hx.1
  | case6 stack => exact complete_every hnil hx
  | case7 stack key => exact ⟨hx, hnil, ht⟩
  | case8 stack fields key => exact ⟨hx.1, hx.2, ht⟩
  | case9 stack fields key =>
    intro f hf
    rcases List.mem_cons.mp hf with rfl | hf
    · exact hx.2
    · exact hx.1 f hf
  | case10 stack fields => exact hx
  | case11 stack fields => exact complete_every hx.2 hx.1
  | case12 document => exact hx
  | case13 => trivial

theorem advance_every {x : Point} (hx : x.Every p q r) {ts : List Token}
    (hts : ∀ t ∈ ts, Allowed p q r t) : (advance x ts).Every p q r := by
  induction ts generalizing x with
  | nil => exact hx
  | cons t ts ih =>
    exact ih (step_every hx (hts t List.mem_cons_self))
      fun u hu => hts u (List.mem_cons_of_mem t hu)

/-- **What holds of all tokens holds throughout the document.**  The property is one of strings,
integers and floating-point numbers, and the parser only puts together what the tokens carry. -/
theorem parse_every {s : Bytes} (hs : ∀ t ∈ tokens s, Allowed p q r t) {j : Json}
    (h : parse s = some j) : j.every p q r = true := by
  have hstart : (Point.value []).Every p q r := fun _ hf => by cases hf
  have hevery := advance_every hstart hs
  rw [parse] at h
  split at h
  · rename_i document hdocument
    cases h
    rw [hdocument] at hevery
    exact hevery
  · cases h

end Every

end Parser

/-- Are all strings UTF-8, and do all integers fit 64 bits, signed or unsigned? -/
def Json.sound (j : Json) : Bool :=
  j.every (fun s => decide (Utf8.Valid s)) (fun n => decide (-2 ^ 63 ≤ n ∧ n < 2 ^ 64))
    fun _ => true

theorem Json.utf8_of_sound {j : Json} (h : j.sound = true) : j.utf8 = true :=
  Json.every_mono (fun _ h => h) (fun _ _ => rfl) (fun _ h => h) j h

namespace Parser

open Lexer (tokens)

/-- **A document that was accepted is sound.**  Its strings are UTF-8 and its integers fit 64 bits,
because those of the tokens do. -/
theorem parse_sound {s : Bytes} {j : Json} (h : parse s = some j) : j.sound = true := by
  refine parse_every (fun t ht => ?_) h
  have hgood := Lexer.good_of_mem_tokens ht
  cases t with
  | valueString k => exact decide_eq_true hgood
  | valueInteger n => exact decide_eq_true hgood
  | valueFloat text => rfl
  | _ => trivial

/-- **No string in a document is longer than its text.**  So what a request repeats is never longer
than the request. -/
theorem parse_short {s : Bytes} {j : Json} (h : parse s = some j) :
    j.every (fun k => decide (k.length ≤ s.length)) (fun _ => true) (fun _ => true) = true := by
  refine parse_every (fun t ht => ?_) h
  have hshort := Lexer.short_of_mem_tokens ht
  cases t with
  | valueString k => exact decide_eq_true (hshort k rfl)
  | valueInteger n => rfl
  | valueFloat text => rfl
  | _ => trivial

end Parser
end MultiPlayerGame
