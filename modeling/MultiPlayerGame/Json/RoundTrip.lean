import MultiPlayerGame.Json.Parser

/-!
# Printing a value and parsing it back

`parse_text`: the text of a value without floating-point numbers parses, and the result is the value
with the fields of its objects put in order (`canon`).  Text that the program puts together itself,
without going through a value, is covered as soon as it is the `text` of *some* value, and there the
order of the fields matters.

The proof has two halves that meet at the token list `tokensOf`: the scanner reads the text as these
tokens (`tokenList_text`), and the parser builds the value from them (`advance_tokensOf`).

## Scanning

A string is the token that takes work.  The serializer escapes it byte by byte, and the scanner
accepts a character only as a whole.  The two meet in the state of the scanner: it says which
continuation bytes the character that has begun still owes, and `Utf8.run` goes through the same
states.  So `scanString_flatMap` starts from any such state and goes along the bytes, and for one
byte there is one lemma for each way of escaping it.

A numeral ends where something comes that does not continue it.  It is read back only in front of
such a byte (`Stops`), and a comma, a bracket and the end of the input are all that ever follows.  A
floating-point number keeps its text, and nothing here prints one: that its text is one token
(`isFloat`) is asked of a `readable` value and not proved.

## Parsing

The parser that meets the tokens of a value may be in the middle of other values, whose frames are
on its stack.  `advance_tokensOf` is therefore about every stack: the tokens of a value lead from a
place where a value is expected to the place after that value.  Objects are where `canon` comes in,
since the fields go into a map that is sorted and keeps the last of two values.
-/

namespace MultiPlayerGame

open Bytes (ascii decimal digits readDigits isDigit)

namespace Json

/-- No floating-point number, all strings UTF-8, and all integers within 64 bits. -/
def plain (j : Json) : Bool :=
  j.every (fun s => decide (Utf8.Valid s)) (fun n => decide (-2 ^ 63 ≤ n ∧ n < 2 ^ 64))
    fun _ => false

theorem plain_integer {n : Int} (h : -2 ^ 63 ≤ n ∧ n < 2 ^ 64) : (integer n).plain = true :=
  decide_eq_true h

/-- An integer of the source's `int` is within the 64 bits of the parser. -/
theorem plain_int (n : Int32) : (int n).plain = true := by
  have hle := n.le_toInt
  have hlt := n.toInt_lt
  exact plain_integer ⟨by omega, by omega⟩

mutual

/-- The value with the fields of its objects in order, a repeated one at its last value. -/
def canon : Json → Json
  | array items => array (canonItems items)
  | object fields => ofFields (canonFields fields)
  | j => j

def canonItems : List Json → List Json
  | [] => []
  | v :: rest => canon v :: canonItems rest

def canonFields : List (Bytes × Json) → List (Bytes × Json)
  | [] => []
  | (k, v) :: rest => (k, canon v) :: canonFields rest

end

mutual

/-- The tokens of a value. -/
def tokensOf : Json → List Token
  | null => [.literalNull]
  | boolean true => [.literalTrue]
  | boolean false => [.literalFalse]
  | integer n => [.valueInteger n]
  | float t => [.valueFloat t]
  | string s => [.valueString s]
  | array items => .beginArray :: tokensOfItems items ++ [.endArray]
  | object fields => .beginObject :: tokensOfFields fields ++ [.endObject]

def tokensOfItems : List Json → List Token
  | [] => []
  | [v] => tokensOf v
  | v :: w :: rest => tokensOf v ++ .valueSeparator :: tokensOfItems (w :: rest)

def tokensOfFields : List (Bytes × Json) → List Token
  | [] => []
  | [(k, v)] => .valueString k :: .nameSeparator :: tokensOf v
  | (k, v) :: f :: rest =>
    .valueString k :: .nameSeparator :: tokensOf v ++ .valueSeparator :: tokensOfFields (f :: rest)

end

end Json

namespace Lexer

/-! ## Scanning one token back -/

/-- A byte that neither ends a string nor starts an escape in it is read as itself. -/
theorem scanString_owed {r : Utf8.Range} {owed : List Utf8.Range} {b : UInt8}
    (hb : r.contains b = true) (buffer s : Bytes) :
    scanString (.char (r :: owed)) buffer (b :: s) = scanString (.char owed) (buffer ++ [b]) s := by
  have hne : ¬ (StringPoint.char (r :: owed) = .char [] ∧ b = 0x22) := fun h => by cases h.1
  rw [scanString, if_neg hne, stringStep, if_pos hb]

theorem scanString_plain {b : UInt8} {owed : List Utf8.Range} (hlow : 0x1F < b) (hquote : b ≠ 0x22)
    (hslash : b ≠ 0x5C) (hlead : Utf8.lead b = some owed) (buffer s : Bytes) :
    scanString (.char []) buffer (b :: s) = scanString (.char owed) (buffer ++ [b]) s := by
  have hne : ¬ (StringPoint.char [] = .char [] ∧ b = 0x22) := fun h => hquote h.2
  rw [scanString, if_neg hne, stringStep, if_neg hslash, if_neg (UInt8.not_le.mpr hlow), hlead]
  rfl

/-- One step of the scanner that does not end the string. -/
theorem scanString_step {p q : StringPoint} {b : UInt8} {added : Bytes} (hb : b ≠ 0x22)
    (hstep : stringStep p b = some (q, added)) (buffer s : Bytes) :
    scanString p buffer (b :: s) = scanString q (buffer ++ added) s := by
  rw [scanString, if_neg fun h => hb h.2, hstep]

/-- An escape of a single character. -/
theorem scanString_escape {b c : UInt8} (hquote : b ≠ 0x75) (hb : unescape b = some c)
    (buffer s : Bytes) :
    scanString (.char []) buffer (0x5C :: b :: s) = scanString (.char []) (buffer ++ [c]) s := by
  have hslash : stringStep (.char []) 0x5C = some (.escape, []) := rfl
  rw [scanString_step (by decide) hslash]
  have hescape : stringStep .escape b = some (.char [], [c]) := by
    rw [stringStep, if_neg hquote, hb]
    rfl
  have hne : ¬ (StringPoint.escape = .char [] ∧ b = 0x22) := fun h => by cases h.1
  rw [scanString, if_neg hne, hescape, List.append_nil]

theorem hexValue_hexDigit : ∀ n < 16, hexValue (Json.hexDigit n) = some n := by decide

theorem hexDigit_ne_quote : ∀ n < 16, Json.hexDigit n ≠ 0x22 := by decide

/-- The escape of a control character. -/
theorem scanString_control {b : UInt8} (hb : b ≤ 0x1F) (buffer s : Bytes) :
    scanString (.char []) buffer
        (0x5C :: 0x75 :: 0x30 :: 0x30 :: Json.hexDigit (b.toNat / 16) ::
          Json.hexDigit (b.toNat % 16) :: s) =
      scanString (.char []) (buffer ++ [b]) s := by
  have hb : b.toNat ≤ 0x1F := UInt8.le_iff_toNat_le.mp hb
  have hhigh : stringStep (.hex none 2 0) (Json.hexDigit (b.toNat / 16)) =
      some (.hex none 1 (b.toNat / 16), []) := by
    rw [stringStep, hexValue_hexDigit _ (by omega), Option.bind_some, if_neg (by omega),
      Nat.mul_zero, Nat.zero_add]
  have hlow : stringStep (.hex none 1 (b.toNat / 16)) (Json.hexDigit (b.toNat % 16)) =
      some (.char [], [b]) := by
    rw [stringStep, hexValue_hexDigit _ (by omega), Option.bind_some, if_pos (Nat.le_refl 1),
      Nat.div_add_mod, codePoint, if_neg (by omega), if_neg (by omega), Utf8.encode,
      if_pos (by omega), UInt8.ofNat_toNat]
  have hslash : stringStep (.char []) 0x5C = some (.escape, []) := rfl
  have hu : stringStep .escape 0x75 = some (.hex none 4 0, []) := rfl
  have hzero₁ : stringStep (.hex none 4 0) 0x30 = some (.hex none 3 0, []) := rfl
  have hzero₂ : stringStep (.hex none 3 0) 0x30 = some (.hex none 2 0, []) := rfl
  rw [scanString_step (by decide) hslash, scanString_step (by decide) hu,
    scanString_step (by decide) hzero₁, scanString_step (by decide) hzero₂,
    scanString_step (hexDigit_ne_quote _ (by omega)) hhigh,
    scanString_step (hexDigit_ne_quote _ (by omega)) hlow]
  simp only [List.append_nil]

/-- What the serializer writes for a byte at the start of a character is read back as that byte. -/
theorem scanString_escape_lead {b : UInt8} {owed : List Utf8.Range}
    (hlead : Utf8.lead b = some owed) (buffer s : Bytes) :
    scanString (.char []) buffer (Json.escape b ++ s) =
      scanString (.char owed) (buffer ++ [b]) s := by
  have hascii : b ≤ 0x7F → owed = [] := fun hb => by
    rw [Utf8.lead_of_le hb] at hlead
    exact (Option.some.inj hlead).symm
  unfold Json.escape
  split
  · subst b
    rw [hascii (by decide)]
    exact scanString_escape (by decide) rfl buffer s
  split
  · subst b
    rw [hascii (by decide)]
    exact scanString_escape (by decide) rfl buffer s
  split
  · subst b
    rw [hascii (by decide)]
    exact scanString_escape (by decide) rfl buffer s
  split
  · subst b
    rw [hascii (by decide)]
    exact scanString_escape (by decide) rfl buffer s
  split
  · subst b
    rw [hascii (by decide)]
    exact scanString_escape (by decide) rfl buffer s
  split
  · subst b
    rw [hascii (by decide)]
    exact scanString_escape (by decide) rfl buffer s
  split
  · subst b
    rw [hascii (by decide)]
    exact scanString_escape (by decide) rfl buffer s
  split
  · rename_i hlow
    rw [hascii (UInt8.le_trans hlow (by decide))]
    exact scanString_control hlow buffer s
  · rename_i hquote hslash hlow
    exact scanString_plain (UInt8.not_le.mp hlow) hquote hslash hlead buffer s

/-- All ranges that a character can owe lie above ASCII. -/
theorem lead_above {b : UInt8} {owed : List Utf8.Range} (h : Utf8.lead b = some owed) :
    ∀ r ∈ owed, 0x80 ≤ r.lo := by
  unfold Utf8.lead at h
  repeat' split at h
  all_goals first
    | cases h; decide
    | cases h

theorem escape_of_contains {r : Utf8.Range} {b : UInt8} (hr : 0x80 ≤ r.lo)
    (hb : r.contains b = true) : Json.escape b = [b] := by
  rw [Utf8.Range.contains, Bool.and_eq_true, decide_eq_true_eq] at hb
  have hge : 0x80 ≤ b.toNat := Nat.le_trans (UInt8.le_iff_toNat_le.mp hr)
    (UInt8.le_iff_toNat_le.mp hb.1)
  have hne : ∀ c : UInt8, c.toNat < 0x80 → b ≠ c := fun c hc heq => by
    rw [heq] at hge
    omega
  have hlow : ¬ b ≤ 0x1F := by
    rw [UInt8.le_iff_toNat_le]
    have h1f : (0x1F : UInt8).toNat = 0x1F := rfl
    omega
  unfold Json.escape
  rw [if_neg (hne _ (by decide)), if_neg (hne _ (by decide)), if_neg (hne _ (by decide)),
    if_neg (hne _ (by decide)), if_neg (hne _ (by decide)), if_neg (hne _ (by decide)),
    if_neg (hne _ (by decide)), if_neg hlow]

/-- **A string in quotes is read back.**  The induction is along the bytes, with what the character
that has begun still owes as the state. -/
theorem scanString_flatMap {s : Bytes} {owed : List Utf8.Range} (habove : ∀ r ∈ owed, 0x80 ≤ r.lo)
    (hs : Utf8.run owed s = some []) (buffer rest : Bytes) :
    scanString (.char owed) buffer (s.flatMap Json.escape ++ 0x22 :: rest) =
      (.valueString (buffer ++ s), rest) := by
  induction s generalizing owed buffer with
  | nil =>
    cases hs
    rw [List.flatMap_nil, List.nil_append, scanString, if_pos ⟨rfl, rfl⟩, List.append_nil]
  | cons b s ih =>
    rw [Utf8.run_cons] at hs
    obtain ⟨next, hstep, hrest⟩ := Option.bind_eq_some_iff.mp hs
    rw [List.flatMap_cons, List.append_assoc]
    cases owed with
    | nil =>
      rw [scanString_escape_lead hstep, ih (lead_above hstep) hrest, List.append_assoc]
      rfl
    | cons r owed =>
      rw [Utf8.step] at hstep
      split at hstep
      · rename_i hb
        cases hstep
        rw [escape_of_contains (habove r List.mem_cons_self) hb, List.singleton_append,
          scanString_owed hb, ih (fun q hq => habove q (List.mem_cons_of_mem _ hq)) hrest,
          List.append_assoc]
        rfl
      · cases hstep

theorem scan_quote {s : Bytes} (hs : Utf8.Valid s) (rest : Bytes) :
    scan (Json.quote s ++ rest) = (.valueString s, rest) := by
  have hshape : Json.quote s ++ rest = 0x22 :: (s.flatMap Json.escape ++ 0x22 :: rest) := by
    simp [Json.quote]
  rw [hshape]
  exact scanString_flatMap (fun _ hr => by cases hr) hs [] rest

/-- What may follow a number: a byte that does not continue it. -/
def Stops (rest : Bytes) : Prop :=
  ∀ b ∈ rest.head?, isDigit b = false ∧ b ≠ 0x2E ∧ b ≠ 0x65 ∧ b ≠ 0x45

theorem stops_cons {b : UInt8} (rest : Bytes)
    (hb : isDigit b = false ∧ b ≠ 0x2E ∧ b ≠ 0x65 ∧ b ≠ 0x45) : Stops (b :: rest) := fun c hc => by
  cases hc
  exact hb

theorem stops_nil : Stops [] := fun _ h => by cases h

theorem scanNumber_stops {rest : Bytes} (hrest : Stops rest) {st : NumberState}
    (hst : st = .zero ∨ st = .any1) (buffer : Bytes) :
    scanNumber st buffer rest = (numberToken st buffer, rest) := by
  have hdone : numberDone st buffer rest = (numberToken st buffer, rest) := by
    rw [numberDone, if_pos (hst.imp_right Or.inl)]
  cases rest with
  | nil => exact hdone
  | cons b rest =>
    obtain ⟨hdigit, hpoint, he, hE⟩ := hrest b rfl
    have hnext : st.next b = none := by
      rcases hst with rfl | rfl <;>
        simp [NumberState.next, hdigit, hpoint, he, hE]
    rw [scanNumber, hnext]
    exact hdone

theorem scanNumber_digits {ds rest : Bytes} (hds : ∀ b ∈ ds, isDigit b = true)
    (hrest : Stops rest) (buffer : Bytes) :
    scanNumber .any1 buffer (ds ++ rest) = (numberToken .any1 (buffer ++ ds), rest) := by
  induction ds generalizing buffer with
  | nil => rw [List.nil_append, List.append_nil, scanNumber_stops hrest (Or.inr rfl)]
  | cons b ds ih =>
    have hnext : NumberState.any1.next b = some .any1 := if_pos (hds b List.mem_cons_self)
    rw [List.cons_append, scanNumber, hnext]
    change scanNumber .any1 (buffer ++ [b]) (ds ++ rest) = _
    rw [ih fun c hc => hds c (List.mem_cons_of_mem b hc), List.append_assoc]
    rfl

/-- The numeral of a number: a zero, or a digit that is none and more digits. -/
theorem digits_cases (n : Nat) :
    digits n = [0x30] ∧ n = 0 ∨ ∃ b ds, digits n = b :: ds ∧ b ≠ 0x30 ∧
      ∀ c ∈ b :: ds, isDigit c = true := by
  rcases Nat.eq_zero_or_pos n with rfl | hpos
  · exact Or.inl ⟨rfl, rfl⟩
  · rcases hdigits : digits n with _ | ⟨b, ds⟩
    · exact absurd hdigits (Bytes.digits_ne_nil n)
    · refine Or.inr ⟨b, ds, rfl, fun hb => ?_, fun c hc => ?_⟩
      · have hhead := Bytes.head?_digits (show n ≠ 0 by omega)
        rw [hdigits, hb] at hhead
        exact hhead rfl
      · rw [← hdigits] at hc
        exact Bytes.isDigit_of_mem_digits hc

/-- The bytes that `scanAt` tests before it asks for a digit. -/
theorem scanAt_digit {b : UInt8} (hb : isDigit b = true) (hzero : b ≠ 0x30) (rest : Bytes) :
    scanAt b rest = scanNumber .any1 [b] rest := by
  have hrange := Bytes.isDigit_iff.mp hb
  have hne : ∀ c : UInt8, c.toNat < 0x30 ∨ 0x39 < c.toNat → b ≠ c := fun c hc heq => by
    rw [heq] at hrange
    omega
  unfold scanAt
  rw [if_neg (hne _ (by decide)), if_neg (hne _ (by decide)), if_neg (hne _ (by decide)),
    if_neg (hne _ (by decide)), if_neg (hne _ (by decide)), if_neg (hne _ (by decide)),
    if_neg (hne _ (by decide)), if_neg (hne _ (by decide)), if_neg (hne _ (by decide)),
    if_neg (hne _ (by decide)), if_neg (hne _ (by decide)), if_neg hzero, if_pos hb]

theorem scan_of_not_space {b : UInt8} (hb : isSpace b = false) (rest : Bytes) :
    scan (b :: rest) = scanAt b rest := by
  rw [scan, hb]
  rfl

theorem isSpace_of_isDigit {b : UInt8} (hb : isDigit b = true) : isSpace b = false := by
  have hrange := Bytes.isDigit_iff.mp hb
  have hne : ∀ c : UInt8, c.toNat < 0x30 → b ≠ c := fun c hc heq => by
    rw [heq] at hrange
    omega
  simp [isSpace, hne 0x20 (by decide), hne 0x09 (by decide), hne 0x0A (by decide),
    hne 0x0D (by decide)]

theorem numberToken_unsigned {b : UInt8} {ds : Bytes} (hb : b ≠ 0x2D) {st : NumberState}
    (hst : st = .zero ∨ st = .any1) (hrange : readDigits 0 (b :: ds) < 2 ^ 64) :
    numberToken st (b :: ds) = .valueInteger (readDigits 0 (b :: ds)) := by
  unfold numberToken
  rw [if_pos hst]
  split
  · rename_i heq
    exact absurd (List.cons.inj heq).1 hb
  · exact if_pos hrange

/-- **An integer is read back.**  It must be followed by a byte that does not continue it, or by the
end of the input. -/
theorem scan_decimal {n : Int} (hlo : -2 ^ 63 ≤ n) (hhi : n < 2 ^ 64) {rest : Bytes}
    (hrest : Stops rest) : scan (decimal n ++ rest) = (.valueInteger n, rest) := by
  cases n with
  | ofNat n =>
    have hread := Bytes.readDigits_digits n
    have hlt : n < 2 ^ 64 := by
      rw [Int.ofNat_eq_natCast] at hhi
      omega
    rcases digits_cases n with ⟨hdigits, rfl⟩ | ⟨b, ds, hdigits, hzero, hall⟩
    · change scan (0x30 :: rest) = _
      rw [scan_of_not_space rfl]
      change scanNumber .zero [0x30] rest = _
      rw [scanNumber_stops hrest (Or.inl rfl)]
      rfl
    · rw [hdigits] at hread
      have hb := hall b List.mem_cons_self
      have hminus : b ≠ 0x2D := fun heq => by
        rw [heq] at hb
        cases hb
      change scan (digits n ++ rest) = _
      rw [hdigits, List.cons_append, scan_of_not_space (isSpace_of_isDigit hb),
        scanAt_digit hb hzero, scanNumber_digits (fun c hc => hall c (List.mem_cons_of_mem b hc))
          hrest, List.singleton_append, numberToken_unsigned hminus (Or.inr rfl) (by omega), hread]
      rfl
  | negSucc n =>
    have hread := Bytes.readDigits_digits (n + 1)
    have hle : readDigits 0 (digits (n + 1)) ≤ 2 ^ 63 := by
      rw [hread]
      omega
    have htoken : ∀ st : NumberState, st = .zero ∨ st = .any1 →
        numberToken st (0x2D :: digits (n + 1)) = .valueInteger (.negSucc n) := fun st hst => by
      rw [numberToken, if_pos hst, if_pos hle, hread]
      rfl
    change scan (0x2D :: (digits (n + 1) ++ rest)) = _
    rw [scan_of_not_space rfl]
    change scanNumber .minus [0x2D] (digits (n + 1) ++ rest) = _
    rcases digits_cases (n + 1) with ⟨-, hno⟩ | ⟨b, ds, hdigits, hzero, hall⟩
    · cases hno
    · have hnext : NumberState.minus.next b = some .any1 := by
        rw [NumberState.next, if_neg hzero, if_pos (hall b List.mem_cons_self)]
      have htoken := htoken .any1 (Or.inr rfl)
      rw [hdigits] at htoken
      rw [hdigits, List.cons_append, scanNumber, hnext]
      change scanNumber .any1 [0x2D, b] (ds ++ rest) = _
      rw [scanNumber_digits (fun c hc => hall c (List.mem_cons_of_mem b hc)) hrest]
      exact Prod.ext htoken rfl

/-! ## Scanning a value back -/

/-- Is this the text of a floating-point number, read as one token? -/
def isFloat (text : Bytes) : Bool := decide (scan text = (.valueFloat text, []))

theorem scanNumber_append {st : NumberState} {buffer s text rest : Bytes}
    (h : scanNumber st buffer s = (.valueFloat text, [])) (hrest : Stops rest) :
    scanNumber st buffer (s ++ rest) = (.valueFloat text, rest) := by
  induction s generalizing st buffer with
  | nil =>
    rw [scanNumber, numberDone] at h
    split at h
    · rename_i hst
      have hdone : numberDone st buffer rest = (.valueFloat text, rest) := by
        rw [numberDone, if_pos hst, (Prod.mk.inj h).1]
      cases rest with
      | nil => exact hdone
      | cons b rest =>
        obtain ⟨hdigit, hpoint, hlower, hupper⟩ := hrest b rfl
        have hnext : st.next b = none := by
          rcases hst with rfl | rfl | rfl | rfl <;>
            simp [NumberState.next, hdigit, hpoint, hlower, hupper]
        rw [List.nil_append, scanNumber, hnext]
        exact hdone
    · cases h
  | cons b s ih =>
    rw [List.cons_append, scanNumber]
    rw [scanNumber] at h
    split at h
    · exact ih h
    · rw [numberDone] at h
      split at h
      · cases (Prod.mk.inj h).2
      · cases h

/-- Neither a literal nor a string is a floating-point number. -/
theorem scanLiteral_ne_float {t : Token} (ht : t.Plain) (expected s text : Bytes) :
    (scanLiteral t expected s).1 ≠ .valueFloat text := by
  induction expected generalizing s with
  | nil =>
    rintro rfl
    exact ht
  | cons c expected ih =>
    cases s with
    | nil => exact Token.noConfusion
    | cons b s =>
      rw [scanLiteral]
      split
      · exact ih s
      · exact Token.noConfusion

theorem scanString_ne_float (p : StringPoint) (buffer s text : Bytes) :
    (scanString p buffer s).1 ≠ .valueFloat text := by
  induction s generalizing p buffer with
  | nil => exact Token.noConfusion
  | cons b s ih =>
    rw [scanString]
    split
    · exact Token.noConfusion
    split
    · exact ih _ _
    · exact Token.noConfusion

/-- A floating-point number starts like a number. -/
theorem scanAt_of_float {b : UInt8} {s text : Bytes} (h : (scanAt b s).1 = .valueFloat text) :
    ∃ st, ∀ s', scanAt b s' = scanNumber st [b] s' := by
  by_cases hminus : b = 0x2D
  · subst hminus
    exact ⟨.minus, fun _ => rfl⟩
  by_cases hzero : b = 0x30
  · subst hzero
    exact ⟨.zero, fun _ => rfl⟩
  by_cases hdigit : isDigit b = true
  · exact ⟨.any1, scanAt_digit hdigit hzero⟩
  let motive : Token × Bytes → Prop := fun r => r.1 ≠ .valueFloat text
  have hliteral : ∀ (t : Token) (expected : Bytes), t.Plain → motive (scanLiteral t expected s) :=
    fun t expected ht => scanLiteral_ne_float ht expected s text
  refine absurd h (?_ : motive (scanAt b s))
  simp only [scanAt, hminus, hzero, hdigit, if_false, Bool.false_eq_true]
  repeat' refine iteInduction (motive := motive) (fun _ => ?_) fun _ => ?_
  all_goals first
    | exact Token.noConfusion
    | exact hliteral _ _ trivial
    | exact scanString_ne_float _ _ _ _

theorem scan_append {s text rest : Bytes} (h : scan s = (.valueFloat text, []))
    (hrest : Stops rest) : scan (s ++ rest) = (.valueFloat text, rest) := by
  induction s with
  | nil => cases h
  | cons b s ih =>
    rw [List.cons_append, scan]
    rw [scan] at h
    by_cases hspace : isSpace b = true
    · rw [if_pos hspace] at h ⊢
      exact ih h
    · rw [if_neg hspace] at h ⊢
      obtain ⟨st, hst⟩ := scanAt_of_float (congrArg Prod.fst h)
      rw [hst] at h ⊢
      exact scanNumber_append h hrest

/-- **A floating-point number is read back.**  That it is one token is what `isFloat` says; here it
is shown to be the same token in front of other bytes. -/
theorem scan_isFloat {text rest : Bytes} (h : isFloat text = true) (hrest : Stops rest) :
    scan (text ++ rest) = (.valueFloat text, rest) :=
  scan_append (of_decide_eq_true h) hrest

/-- All tokens of an input, from a place that is not its start. -/
def tokenList (s : Bytes) : List Token := tokensUpTo (s.length + 1) s

theorem tokenList_scan {s rest : Bytes} {t : Token} (hscan : scan s = (t, rest))
    (ht : ¬ Final t) : tokenList s = t :: tokenList rest := by
  have hfst : (scan s).1 = t := by rw [hscan]
  have hsnd : (scan s).2 = rest := by rw [hscan]
  have hlt := length_scan_lt (s := s) (by rwa [hfst])
  rw [tokenList, tokensUpTo, hfst, if_neg ht, hsnd, tokenList]
  rw [hsnd] at hlt
  exact congrArg _ (tokensUpTo_eq (by omega) (by omega))

end Lexer

/-- Is this the text of a finite floating-point number? -/
def isDouble (text : Bytes) : Bool := Lexer.isFloat text && Parser.isFinite text

theorem isDouble_iff {text : Bytes} :
    isDouble text = true ↔ Lexer.isFloat text = true ∧ Parser.isFinite text = true := by
  rw [isDouble, Bool.and_eq_true]

/-- All strings UTF-8, all integers within 64 bits, and all floating-point numbers what they should
be. -/
def Json.readable (j : Json) : Bool :=
  j.every (fun s => decide (Utf8.Valid s)) (fun n => decide (-2 ^ 63 ≤ n ∧ n < 2 ^ 64)) isDouble

theorem Json.readable_of_plain {j : Json} (h : j.plain = true) : j.readable = true :=
  Json.every_mono (fun _ h => h) (fun _ h => h) (fun _ h => by cases h) j h

namespace Lexer

mutual

/-- **The scanner reads the text of a value as the tokens of the value.**  The induction is along
the value, and the tokens of what follows come behind. -/
theorem tokenList_text : ∀ (j : Json) (rest : Bytes), j.readable = true → Stops rest →
    tokenList (j.text ++ rest) = j.tokensOf ++ tokenList rest
  | .null, rest, _, _ => tokenList_scan rfl (by decide)
  | .boolean true, rest, _, _ => tokenList_scan rfl (by decide)
  | .boolean false, rest, _, _ => tokenList_scan rfl (by decide)
  | .integer n, rest, hn, hrest => by
    have hn : -2 ^ 63 ≤ n ∧ n < 2 ^ 64 := of_decide_eq_true hn
    exact tokenList_scan (scan_decimal hn.1 hn.2 hrest) (by simp [Final])
  | .float t, rest, ht, hrest =>
    tokenList_scan (scan_isFloat (isDouble_iff.mp ht).1 hrest) (by simp [Final])
  | .string s, rest, hs, _ =>
    tokenList_scan (scan_quote (of_decide_eq_true hs) rest) (by simp [Final])
  | .array items, rest, hitems, _ => by
    have hshape : (Json.array items).text ++ rest =
        0x5B :: (Json.textItems items ++ 0x5D :: rest) := by simp [Json.text]
    have hclose : tokenList (0x5D :: rest) = .endArray :: tokenList rest :=
      tokenList_scan rfl (by decide)
    rw [hshape, tokenList_scan (t := .beginArray) rfl (by decide),
      tokenList_textItems items _ hitems (stops_cons rest (by decide)), hclose, Json.tokensOf]
    simp
  | .object fields, rest, hfields, _ => by
    have hshape : (Json.object fields).text ++ rest =
        0x7B :: (Json.textFields fields ++ 0x7D :: rest) := by simp [Json.text]
    have hclose : tokenList (0x7D :: rest) = .endObject :: tokenList rest :=
      tokenList_scan rfl (by decide)
    rw [hshape, tokenList_scan (t := .beginObject) rfl (by decide),
      tokenList_textFields fields _ hfields (stops_cons rest (by decide)), hclose, Json.tokensOf]
    simp

theorem tokenList_textItems : ∀ (items : List Json) (rest : Bytes),
    Json.everyItem (fun s => decide (Utf8.Valid s))
      (fun n => decide (-2 ^ 63 ≤ n ∧ n < 2 ^ 64)) isDouble items = true → Stops rest →
    tokenList (Json.textItems items ++ rest) = Json.tokensOfItems items ++ tokenList rest
  | [], _, _, _ => rfl
  | [v], rest, h, hrest => by
    rw [Json.everyItem, Bool.and_eq_true] at h
    exact tokenList_text v rest h.1 hrest
  | v :: w :: items, rest, h, hrest => by
    rw [Json.everyItem, Bool.and_eq_true] at h
    have hcomma : ∀ s, tokenList (0x2C :: s) = .valueSeparator :: tokenList s := fun s =>
      tokenList_scan rfl (by decide)
    rw [Json.textItems, List.append_assoc, List.cons_append,
      tokenList_text v _ h.1 (stops_cons _ (by decide)), hcomma,
      tokenList_textItems (w :: items) rest h.2 hrest, Json.tokensOfItems, List.append_assoc,
      List.cons_append]

theorem tokenList_textFields : ∀ (fields : List (Bytes × Json)) (rest : Bytes),
    Json.everyField (fun s => decide (Utf8.Valid s))
      (fun n => decide (-2 ^ 63 ≤ n ∧ n < 2 ^ 64)) isDouble fields = true → Stops rest →
    tokenList (Json.textFields fields ++ rest) = Json.tokensOfFields fields ++ tokenList rest
  | [], _, _, _ => rfl
  | [(k, v)], rest, h, hrest => by
    rw [Json.everyField, Bool.and_eq_true, Bool.and_eq_true] at h
    have hcolon : ∀ s, tokenList (0x3A :: s) = .nameSeparator :: tokenList s := fun s =>
      tokenList_scan rfl (by decide)
    rw [Json.textFields, List.append_assoc, List.cons_append,
      tokenList_scan (scan_quote (of_decide_eq_true h.1.1) _) (by simp [Final]), hcolon,
      tokenList_text v rest h.1.2 hrest, Json.tokensOfFields]
    rfl
  | (k, v) :: f :: fields, rest, h, hrest => by
    rw [Json.everyField, Bool.and_eq_true, Bool.and_eq_true] at h
    have hcolon : ∀ s, tokenList (0x3A :: s) = .nameSeparator :: tokenList s := fun s =>
      tokenList_scan rfl (by decide)
    have hcomma : ∀ s, tokenList (0x2C :: s) = .valueSeparator :: tokenList s := fun s =>
      tokenList_scan rfl (by decide)
    rw [Json.textFields, List.append_assoc, List.append_assoc, List.cons_append,
      tokenList_scan (scan_quote (of_decide_eq_true h.1.1) _) (by simp [Final]), hcolon,
      List.cons_append, tokenList_text v _ h.1.2 (stops_cons _ (by decide)), hcomma,
      tokenList_textFields (f :: fields) rest h.2 hrest, Json.tokensOfFields]
    simp

end

end Lexer

namespace Parser

/-! ## Parsing a value back -/

theorem begin_float {t : Bytes} (ht : isFinite t = true) (stack : List Frame) :
    begin stack (.valueFloat t) = complete (.float t) stack := by
  simp only [begin, ht, if_true]

/-- Where a value is expected and where the first element of an array is, a value begins alike. -/
theorem advance_arrayOpen (stack : List Frame) (j : Json) (ts : List Token) :
    advance (.arrayOpen stack) (j.tokensOf ++ ts) =
      advance (.value (.array [] :: stack)) (j.tokensOf ++ ts) := by
  cases j with
  | boolean b => cases b <;> rfl
  | _ => rfl

mutual

/-- **The parser builds a value from its tokens.**  The stack has the frames of what is open around
the value, and is left alone. -/
theorem advance_tokensOf : ∀ (j : Json) (stack : List Frame), j.readable = true →
    advance (.value stack) j.tokensOf = complete j.canon stack
  | .null, _, _ | .boolean true, _, _ | .boolean false, _, _ | .integer _, _, _
  | .string _, _, _ => rfl
  | .float t, stack, h => by
    rw [Json.tokensOf, advance_cons, advance_nil]
    exact begin_float (isDouble_iff.mp h).2 stack
  | .array [], _, _ => rfl
  | .array (v :: items), stack, h => by
    have hstart : advance (.value stack) (Json.array (v :: items)).tokensOf =
        advance (.value (.array [] :: stack))
          (Json.tokensOfItems (v :: items) ++ [.endArray]) := by
      cases items with
      | nil => exact advance_arrayOpen stack v _
      | cons w items =>
        have hopen := advance_arrayOpen stack v
          (.valueSeparator :: (Json.tokensOfItems (w :: items) ++ [.endArray]))
        simpa [Json.tokensOf, Json.tokensOfItems, step, begin] using hopen
    rw [hstart, advance_tokensOfItems (v :: items) [] stack (List.cons_ne_nil _ _) h,
      List.nil_append]
    rfl
  | .object [], _, _ => rfl
  | .object ((k, v) :: fields), stack, h => by
    have hstart : advance (.value stack) (Json.object ((k, v) :: fields)).tokensOf =
        advance (.key stack [])
          (Json.tokensOfFields ((k, v) :: fields) ++ [.endObject]) := by
      cases fields <;> rfl
    rw [hstart, advance_tokensOfFields ((k, v) :: fields) [] stack (List.cons_ne_nil _ _) h]
    rfl

theorem advance_tokensOfItems : ∀ (items acc : List Json) (stack : List Frame), items ≠ [] →
    Json.everyItem (fun s => decide (Utf8.Valid s))
      (fun n => decide (-2 ^ 63 ≤ n ∧ n < 2 ^ 64)) isDouble items = true →
    advance (.value (.array acc :: stack)) (Json.tokensOfItems items ++ [.endArray]) =
      complete (.array (acc ++ Json.canonItems items)) stack
  | [], _, _, hne, _ => absurd rfl hne
  | [v], acc, stack, _, h => by
    rw [Json.everyItem, Bool.and_eq_true] at h
    rw [Json.tokensOfItems, advance_append, advance_tokensOf v _ h.1]
    rfl
  | v :: w :: items, acc, stack, _, h => by
    rw [Json.everyItem, Bool.and_eq_true] at h
    have hnext := advance_tokensOfItems (w :: items) (acc ++ [v.canon]) stack
      (List.cons_ne_nil _ _) h.2
    rw [Json.tokensOfItems, List.append_assoc, advance_append, advance_tokensOf v _ h.1,
      List.cons_append, advance_cons, Json.canonItems]
    change advance (.value (.array (acc ++ [v.canon]) :: stack)) _ = _
    rw [hnext, List.append_assoc]
    rfl

theorem advance_tokensOfFields : ∀ (fields acc : List (Bytes × Json)) (stack : List Frame),
    fields ≠ [] →
    Json.everyField (fun s => decide (Utf8.Valid s))
      (fun n => decide (-2 ^ 63 ≤ n ∧ n < 2 ^ 64)) isDouble fields = true →
    advance (.key stack acc) (Json.tokensOfFields fields ++ [.endObject]) =
      complete (.object ((Json.canonFields fields).foldl
        (fun fs f => Json.setField f.1 f.2 fs) acc)) stack
  | [], _, _, hne, _ => absurd rfl hne
  | [(k, v)], acc, stack, _, h => by
    rw [Json.everyField, Bool.and_eq_true, Bool.and_eq_true] at h
    change advance (.value (.object acc k :: stack)) (v.tokensOf ++ [.endObject]) = _
    rw [advance_append, advance_tokensOf v _ h.1.2]
    rfl
  | (k, v) :: f :: fields, acc, stack, _, h => by
    rw [Json.everyField, Bool.and_eq_true, Bool.and_eq_true] at h
    have hnext := advance_tokensOfFields (f :: fields) (Json.setField k v.canon acc) stack
      (List.cons_ne_nil _ _) h.2
    have hshape : Json.tokensOfFields ((k, v) :: f :: fields) ++ [.endObject] =
        .valueString k :: .nameSeparator :: (v.tokensOf ++
          .valueSeparator :: (Json.tokensOfFields (f :: fields) ++ [.endObject])) := by
      simp [Json.tokensOfFields]
    rw [hshape]
    change advance (.value (.object acc k :: stack)) _ = _
    rw [advance_append, advance_tokensOf v _ h.1.2]
    exact hnext

end

/-- No value starts with a byte order mark. -/
theorem skipBom_text {j : Json} (hj : j.readable = true) : Lexer.skipBom j.text = some j.text := by
  suffices h : ∃ b s, j.text = b :: s ∧ b ≠ 0xEF by
    obtain ⟨b, s, htext, hb⟩ := h
    rw [htext]
    unfold Lexer.skipBom
    split
    · rename_i heq
      exact absurd (List.cons.inj heq).1 hb
    · rename_i heq
      exact absurd (List.cons.inj heq).1 hb
    · rfl
  cases j with
  | null => exact ⟨_, _, rfl, by decide⟩
  | boolean b => cases b <;> exact ⟨_, _, rfl, by decide⟩
  | integer n =>
    cases n with
    | ofNat n =>
      rcases Lexer.digits_cases n with ⟨hdigits, -⟩ | ⟨b, ds, hdigits, -, hall⟩
      · exact ⟨_, _, hdigits, by decide⟩
      · refine ⟨b, ds, hdigits, fun hb => ?_⟩
        have := hall b List.mem_cons_self
        rw [hb] at this
        cases this
    | negSucc n => exact ⟨_, _, rfl, by decide⟩
  | float t =>
    have hscan : Lexer.scan t = (.valueFloat t, []) :=
      of_decide_eq_true (isDouble_iff.mp hj).1
    cases t with
    | nil => cases hscan
    | cons b s =>
      refine ⟨b, s, rfl, ?_⟩
      rintro rfl
      cases hscan
  | string s => exact ⟨_, _, rfl, by decide⟩
  | array items => exact ⟨_, _, rfl, by decide⟩
  | object fields => exact ⟨_, _, rfl, by decide⟩

/-- **The text of a value parses, up to the order of the fields.**  The scanner gives the tokens of
the value, and the parser builds the value from them. -/
theorem parse_text_readable {j : Json} (hj : j.readable = true) : parse j.text = some j.canon := by
  have htokens : Lexer.tokens j.text = j.tokensOf ++ [.endOfInput] := by
    rw [Lexer.tokens, skipBom_text hj]
    have h := Lexer.tokenList_text j [] hj Lexer.stops_nil
    rwa [List.append_nil] at h
  rw [parse, htokens, advance_append, advance_tokensOf j [] hj]
  rfl

theorem parse_text {j : Json} (hj : j.plain = true) : parse j.text = some j.canon :=
  parse_text_readable (Json.readable_of_plain hj)

/-- A flat object: its fields can be written in any order. -/
theorem parse_text_object {fields : List (Bytes × Json)}
    (h : ∀ f ∈ fields, Utf8.Valid f.1 ∧ f.2.plain = true ∧ f.2.canon = f.2) :
    parse (Json.object fields).text = some (.ofFields fields) := by
  have hplain : (Json.object fields).plain = true :=
    Json.everyField_iff.mpr fun f hf => ⟨decide_eq_true (h f hf).1, (h f hf).2.1⟩
  have hcanon : Json.canonFields fields = fields := by
    clear hplain
    induction fields with
    | nil => rfl
    | cons f rest ih =>
      obtain ⟨k, v⟩ := f
      rw [Json.canonFields, (h _ List.mem_cons_self).2.2,
        ih fun f hf => h f (List.mem_cons_of_mem _ hf)]
  rw [parse_text hplain, Json.canon, hcanon]

end Parser
end MultiPlayerGame
