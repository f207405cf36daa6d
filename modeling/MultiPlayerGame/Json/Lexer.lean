import MultiPlayerGame.Json.Value

/-!
# The JSON scanner

`lexer::scan` of the vendored library: from the bytes that are left to the next token.  The two
scanners that loop, for strings and for numbers, are automata over single bytes, so both are
structural on the input; their states are the places between two calls of `get()` in the source.

Three habits of the source are kept.  A NUL byte between tokens ends the input, whatever follows it.
An integer that does not fit 64 bits is rescanned as a floating-point number.  A byte order mark is
skipped, but only in front of the first token.

What the parser needs to know of a token is proved here: its string is UTF-8 and its integer fits
64 bits (`scan_good`), a string is no longer than the input (`short_of_mem_tokens`), and unless it
ends the input it took at least one byte (`length_scan_lt`).

## Automata instead of loops

The source scans with a current character, a buffer and a switch inside a loop.  Here the place in
the loop is a state, and one byte takes it to the next one or is an error.  `stringStep` is the
switch of `scan_string`, and `NumberState.next` has one case for each label of `scan_number`.  The
loops are recursions on the bytes that are left, which need no measure, so that the kernel can run
them on a concrete payload.

Scanning all tokens does need one: `tokensUpTo` counts down, and every token that does not end the
input takes a byte (`length_scan_lt`), so the number of bytes is enough and more changes nothing
(`tokensUpTo_eq`).

## Invariants of the string scanner

That an accepted string is UTF-8 is an invariant of the automaton (`StringPoint.Fits`): what stands
in the buffer is whole characters, followed by the start of one if the state says so.  An escape
adds a whole character, and a pair of surrogates adds one too, but only when the second half has
been read.  The length of the buffer is compared with the bytes read in the same way
(`StringPoint.ahead`), for no escape is shorter than what it stands for.
-/

namespace MultiPlayerGame

open Bytes (ascii readDigits isDigit)

/-- `token_type`.  The signed and the unsigned integer token are one. -/
inductive Token where
  | literalTrue
  | literalFalse
  | literalNull
  | valueString (s : Bytes)
  | valueInteger (n : Int)
  | valueFloat (text : Bytes)
  | beginArray
  | beginObject
  | endArray
  | endObject
  | nameSeparator
  | valueSeparator
  | parseError
  | endOfInput
  deriving DecidableEq, Repr

/-- A token that carries no value.  So nothing has to be said about it when something is said of all
tokens. -/
def Token.Plain : Token → Prop
  | .valueString _ | .valueInteger _ | .valueFloat _ => False
  | _ => True

/-- What holds of every token: strings are UTF-8, integers fit 64 bits, signed or unsigned. -/
def Token.Good : Token → Prop
  | .valueString s => Utf8.Valid s
  | .valueInteger n => -2 ^ 63 ≤ n ∧ n < 2 ^ 64
  | _ => True

theorem Token.Plain.good {t : Token} (ht : t.Plain) : t.Good := by
  cases t <;> trivial

namespace Lexer

/-! ## Strings -/

/-- Where `scan_string` is between two bytes.  A `high` is the first half of a surrogate pair. -/
inductive StringPoint where
  /-- at a character, or inside one that still owes these bytes -/
  | char (owed : List Utf8.Range)
  /-- behind a backslash -/
  | escape
  /-- behind `\u`, with `left` digits to come -/
  | hex (high : Option Nat) (left : Nat) (code : Nat)
  /-- behind the first half of a surrogate pair, a backslash to come -/
  | lowSlash (high : Nat)
  /-- the same, a `u` to come -/
  | lowU (high : Nat)
  deriving DecidableEq, Repr

/-- The value of a hexadecimal digit of either case. -/
def hexValue (b : UInt8) : Option Nat :=
  if 0x30 ≤ b ∧ b ≤ 0x39 then some (b.toNat - 0x30)
  else if 0x41 ≤ b ∧ b ≤ 0x46 then some (b.toNat - 0x37)
  else if 0x61 ≤ b ∧ b ≤ 0x66 then some (b.toNat - 0x57)
  else none

/-- What a single-character escape stands for. -/
def unescape (b : UInt8) : Option UInt8 :=
  if b = 0x22 then some 0x22
  else if b = 0x5C then some 0x5C
  else if b = 0x2F then some 0x2F
  else if b = 0x62 then some 0x08
  else if b = 0x66 then some 0x0C
  else if b = 0x6E then some 0x0A
  else if b = 0x72 then some 0x0D
  else if b = 0x74 then some 0x09
  else none

/-- What a complete `\uXXXX` adds to the string, and where the scanner goes from there. -/
def codePoint : Option Nat → Nat → Option (StringPoint × Bytes)
  | none, code =>
    if 0xD800 ≤ code ∧ code ≤ 0xDBFF then some (.lowSlash code, [])
    else if 0xDC00 ≤ code ∧ code ≤ 0xDFFF then none
    else some (.char [], Utf8.encode code)
  | some high, code =>
    if 0xDC00 ≤ code ∧ code ≤ 0xDFFF then
      some (.char [], Utf8.encode (high * 1024 + code - 0x35FDC00))
    else none

/-- One byte of a string that does not end it: the next point and the bytes added; `none` is an
error. -/
def stringStep : StringPoint → UInt8 → Option (StringPoint × Bytes)
  | .char [], b =>
    if b = 0x5C then some (.escape, [])
    else if b ≤ 0x1F then none
    else (Utf8.lead b).map fun owed => (.char owed, [b])
  | .char (r :: owed), b => if r.contains b then some (.char owed, [b]) else none
  | .escape, b =>
    if b = 0x75 then some (.hex none 4 0, [])
    else (unescape b).map fun c => (.char [], [c])
  | .hex high left code, b =>
    (hexValue b).bind fun v =>
      if left ≤ 1 then codePoint high (16 * code + v)
      else some (.hex high (left - 1) (16 * code + v), [])
  | .lowSlash high, b => if b = 0x5C then some (.lowU high, []) else none
  | .lowU high, b => if b = 0x75 then some (.hex (some high) 4 0, []) else none

/-- `scan_string`, behind the opening quote and with `buffer` read so far. -/
def scanString (p : StringPoint) (buffer : Bytes) : Bytes → Token × Bytes
  | [] => (.parseError, [])
  | b :: rest =>
    if p = .char [] ∧ b = 0x22 then (.valueString buffer, rest)
    else match stringStep p b with
      | some (q, added) => scanString q (buffer ++ added) rest
      | none => (.parseError, rest)

/-! ## Numbers -/

/-- The labels of `scan_number`: what was read last.  Each is a place of the source from which the
next character is looked at. -/
inductive NumberState where
  | minus
  | zero
  | any1
  | decimal1
  | decimal2
  | exponent
  | sign
  | any2
  deriving DecidableEq, Repr

/-- One more byte of a number; `none` is the `default` branch of the source. -/
def NumberState.next (st : NumberState) (b : UInt8) : Option NumberState :=
  match st with
  | .minus => if b = 0x30 then some .zero else if isDigit b then some .any1 else none
  | .zero =>
    if b = 0x2E then some .decimal1 else if b = 0x65 ∨ b = 0x45 then some .exponent else none
  | .any1 =>
    if isDigit b then some .any1
    else if b = 0x2E then some .decimal1
    else if b = 0x65 ∨ b = 0x45 then some .exponent
    else none
  | .decimal1 => if isDigit b then some .decimal2 else none
  | .decimal2 =>
    if isDigit b then some .decimal2 else if b = 0x65 ∨ b = 0x45 then some .exponent else none
  | .exponent =>
    if b = 0x2B ∨ b = 0x2D then some .sign else if isDigit b then some .any2 else none
  | .sign => if isDigit b then some .any2 else none
  | .any2 => if isDigit b then some .any2 else none

/-- The conversion at `scan_number_done`: an integer if it has no fraction and no exponent and fits
64 bits, else a floating-point number. -/
def numberToken (st : NumberState) (buffer : Bytes) : Token :=
  if st = .zero ∨ st = .any1 then
    match buffer with
    | 0x2D :: ds =>
      if readDigits 0 ds ≤ 2 ^ 63 then .valueInteger (-(readDigits 0 ds : Int))
      else .valueFloat buffer
    | ds => if readDigits 0 ds < 2 ^ 64 then .valueInteger (readDigits 0 ds) else .valueFloat buffer
  else .valueFloat buffer

/-- The token of a number that ends here.  The byte that does not continue it is left in front of
the rest, as `unget` does in the source. -/
def numberDone (st : NumberState) (buffer rest : Bytes) : Token × Bytes :=
  if st = .zero ∨ st = .any1 ∨ st = .decimal2 ∨ st = .any2 then (numberToken st buffer, rest)
  else (.parseError, rest)

/-- `scan_number`, in state `st` and with `buffer` read so far. -/
def scanNumber (st : NumberState) (buffer : Bytes) : Bytes → Token × Bytes
  | [] => numberDone st buffer []
  | b :: rest =>
    match st.next b with
    | some st' => scanNumber st' (buffer ++ [b]) rest
    | none => numberDone st buffer (b :: rest)

/-! ## Tokens -/

/-- `scan_literal`, with `expected` still to come. -/
def scanLiteral (t : Token) : Bytes → Bytes → Token × Bytes
  | [], s => (t, s)
  | _ :: _, [] => (.parseError, [])
  | c :: expected, b :: rest => if b = c then scanLiteral t expected rest else (.parseError, rest)

def isSpace (b : UInt8) : Bool := b = 0x20 || b = 0x09 || b = 0x0A || b = 0x0D

/-- `scan` from a byte that is no white space. -/
def scanAt (b : UInt8) (rest : Bytes) : Token × Bytes :=
  if b = 0x5B then (.beginArray, rest)
  else if b = 0x5D then (.endArray, rest)
  else if b = 0x7B then (.beginObject, rest)
  else if b = 0x7D then (.endObject, rest)
  else if b = 0x3A then (.nameSeparator, rest)
  else if b = 0x2C then (.valueSeparator, rest)
  else if b = 0x74 then scanLiteral .literalTrue (ascii "rue") rest
  else if b = 0x66 then scanLiteral .literalFalse (ascii "alse") rest
  else if b = 0x6E then scanLiteral .literalNull (ascii "ull") rest
  else if b = 0x22 then scanString (.char []) [] rest
  else if b = 0x2D then scanNumber .minus [b] rest
  else if b = 0x30 then scanNumber .zero [b] rest
  else if isDigit b then scanNumber .any1 [b] rest
  else if b = 0x00 then (.endOfInput, rest)
  else (.parseError, rest)

/-- The ways a token starts. -/
theorem scanAt_induction {motive : Token × Bytes → Prop} (b : UInt8) (rest : Bytes)
    (hplain : ∀ t : Token, t.Plain → motive (t, rest))
    (hliteral : ∀ (t : Token) (expected : Bytes), t.Plain → motive (scanLiteral t expected rest))
    (hstring : motive (scanString (.char []) [] rest))
    (hnumber : ∀ st, motive (scanNumber st [b] rest)) : motive (scanAt b rest) := by
  unfold scanAt
  repeat' refine iteInduction (motive := motive) (fun _ => ?_) fun _ => ?_
  all_goals first
    | exact hplain _ trivial
    | exact hliteral _ _ trivial
    | exact hstring
    | exact hnumber _

/-- `scan`: the next token and what is left behind it. -/
def scan : Bytes → Token × Bytes
  | [] => (.endOfInput, [])
  | b :: rest => if isSpace b then scan rest else scanAt b rest

/-- Does the scanner stop at this token?  The end of the input and an error are the two at which it
does. -/
def Final (t : Token) : Prop := t = .parseError ∨ t = .endOfInput

instance (t : Token) : Decidable (Final t) := inferInstanceAs (Decidable (_ ∨ _))

/-- The tokens of an input up to the final one, at most `fuel` of them. -/
def tokensUpTo : Nat → Bytes → List Token
  | 0, _ => []
  | fuel + 1, s =>
    if Final (scan s).1 then [(scan s).1] else (scan s).1 :: tokensUpTo fuel (scan s).2

/-- `skip_bom`. -/
def skipBom : Bytes → Option Bytes
  | 0xEF :: 0xBB :: 0xBF :: rest => some rest
  | 0xEF :: _ => none
  | s => some s

/-- All tokens of an input.  A byte order mark in front is skipped, and half of one is an error. -/
def tokens (s : Bytes) : List Token :=
  match skipBom s with
  | some s => tokensUpTo (s.length + 1) s
  | none => [.parseError]

/-! ## Strings are UTF-8 -/

/-- What the buffer looks like at each point: characters, and the start of one inside a
character. -/
def StringPoint.Fits (p : StringPoint) (buffer : Bytes) : Prop :=
  match p with
  | .char owed => Utf8.run [] buffer = some owed
  | .hex high left code =>
    Utf8.Valid buffer ∧ 1 ≤ left ∧ left ≤ 4 ∧ code < 16 ^ (4 - left) ∧
      ∀ h ∈ high, 0xD800 ≤ h ∧ h ≤ 0xDBFF
  | .lowSlash high | .lowU high => Utf8.Valid buffer ∧ 0xD800 ≤ high ∧ high ≤ 0xDBFF
  | .escape => Utf8.Valid buffer

theorem hexValue_lt {b : UInt8} {v : Nat} (h : hexValue b = some v) : v < 16 := by
  unfold hexValue at h
  simp only [UInt8.le_iff_toNat_le] at h
  have h39 : (0x39 : UInt8).toNat = 0x39 := rfl
  have h46 : (0x46 : UInt8).toNat = 0x46 := rfl
  have h66 : (0x66 : UInt8).toNat = 0x66 := rfl
  split at h
  · cases h
    omega
  split at h
  · cases h
    omega
  split at h
  · cases h
    omega
  · cases h

theorem unescape_le {b c : UInt8} (h : unescape b = some c) : c ≤ 0x7F := by
  unfold unescape at h
  repeat' split at h
  all_goals cases h <;> decide

/-- The step lemma of the string scanner. -/
theorem codePoint_fits {high : Option Nat} {code : Nat} {buffer added : Bytes} {q : StringPoint}
    (hcode : code < 65536) (hhigh : ∀ h ∈ high, 0xD800 ≤ h ∧ h ≤ 0xDBFF)
    (hbuffer : Utf8.Valid buffer) (h : codePoint high code = some (q, added)) :
    q.Fits (buffer ++ added) := by
  unfold codePoint at h
  split at h
  · split at h
    · cases h
      rw [List.append_nil]
      exact ⟨hbuffer, by assumption⟩
    split at h
    · cases h
    · cases h
      exact hbuffer.append (Utf8.valid_encode (by omega) (by omega))
  · split at h
    · cases h
      have := hhigh _ rfl
      exact hbuffer.append (Utf8.valid_encode (by omega) (by omega))
    · cases h

theorem stringStep_fits {p q : StringPoint} {b : UInt8} {buffer added : Bytes}
    (hp : p.Fits buffer) (h : stringStep p b = some (q, added)) : q.Fits (buffer ++ added) := by
  cases p with
  | char owed =>
    have hrun : Utf8.run [] (buffer ++ [b]) = Utf8.step owed b := by
      rw [Utf8.run_append, hp]
      cases hstep : Utf8.step owed b <;> simp [hstep]
    cases owed with
    | nil =>
      rw [stringStep] at h
      split at h
      · cases h
        rw [List.append_nil]
        exact hp
      split at h
      · cases h
      · obtain ⟨owed, hlead, heq⟩ := Option.map_eq_some_iff.mp h
        cases heq
        exact hrun.trans hlead
    | cons r owed =>
      rw [stringStep] at h
      split at h
      · rename_i hr
        cases h
        exact hrun.trans (if_pos hr)
      · cases h
  | escape =>
    rw [stringStep] at h
    split at h
    · cases h
      rw [List.append_nil]
      exact ⟨hp, by omega, by omega, by omega, fun _ hno => by cases hno⟩
    · obtain ⟨c, hc, heq⟩ := Option.map_eq_some_iff.mp h
      cases heq
      have hchar : Utf8.Valid [c] := Utf8.valid_of_ascii fun d hd =>
        List.mem_singleton.mp hd ▸ unescape_le hc
      exact Utf8.Valid.append hp hchar
  | hex high left code =>
    obtain ⟨hbuffer, hpos, hle, hcode, hhigh⟩ := hp
    obtain ⟨v, hv, hnext⟩ := Option.bind_eq_some_iff.mp h
    have hv := hexValue_lt hv
    have hpow : 16 ^ (4 - left + 1) = 16 * 16 ^ (4 - left) := by rw [Nat.pow_succ, Nat.mul_comm]
    split at hnext
    · have hleft : left = 1 := by omega
      subst hleft
      exact codePoint_fits (by omega) hhigh hbuffer hnext
    · cases hnext
      rw [List.append_nil]
      refine ⟨hbuffer, by omega, by omega, ?_, hhigh⟩
      have hsub : 4 - (left - 1) = 4 - left + 1 := by omega
      rw [hsub, hpow]
      omega
  | lowSlash high =>
    rw [stringStep] at h
    split at h
    · cases h
      rw [List.append_nil]
      exact hp
    · cases h
  | lowU high =>
    rw [stringStep] at h
    split at h
    · cases h
      rw [List.append_nil]
      exact ⟨hp.1, by omega, by omega, by omega, fun h hh => by cases hh; exact hp.2⟩
    · cases h

theorem scanString_good {s : Bytes} {p : StringPoint} {buffer : Bytes} (hp : p.Fits buffer) :
    (scanString p buffer s).1.Good := by
  induction s generalizing p buffer with
  | nil => trivial
  | cons b s ih =>
    rw [scanString]
    split
    · rename_i hend
      rw [hend.1] at hp
      exact hp
    · split
      · rename_i q added hstep
        exact ih (stringStep_fits hp hstep)
      · trivial

/-! ## Integers fit 64 bits -/

theorem numberToken_good (st : NumberState) (buffer : Bytes) : (numberToken st buffer).Good := by
  unfold numberToken
  split
  · split
    · split
      · exact ⟨by omega, by omega⟩
      · trivial
    · split
      · exact ⟨by omega, by omega⟩
      · trivial
  · trivial

theorem numberDone_good (st : NumberState) (buffer rest : Bytes) :
    (numberDone st buffer rest).1.Good := by
  rw [numberDone]
  split
  · exact numberToken_good st buffer
  · trivial

theorem scanNumber_good {s : Bytes} (st : NumberState) (buffer : Bytes) :
    (scanNumber st buffer s).1.Good := by
  induction s generalizing st buffer with
  | nil => exact numberDone_good st buffer []
  | cons b s ih =>
    rw [scanNumber]
    split
    · exact ih _ _
    · exact numberDone_good st buffer (b :: s)

/-! ## Every token -/

theorem scanLiteral_good {t : Token} (ht : t.Good) (expected s : Bytes) :
    (scanLiteral t expected s).1.Good := by
  induction expected generalizing s with
  | nil => exact ht
  | cons c expected ih =>
    cases s with
    | nil => trivial
    | cons b s =>
      rw [scanLiteral]
      split
      · exact ih s
      · trivial

theorem scanAt_good (b : UInt8) (rest : Bytes) : (scanAt b rest).1.Good :=
  scanAt_induction (motive := fun r => r.1.Good) b rest (fun _ ht => ht.good)
    (fun _ expected ht => scanLiteral_good ht.good expected rest)
    (scanString_good (p := .char []) Utf8.valid_nil) fun st => scanNumber_good st [b]

/-- **The strings among the tokens are UTF-8 and the integers fit 64 bits.**  This is all that the
parser needs to know about tokens, whichever way they have been scanned. -/
theorem scan_good (s : Bytes) : (scan s).1.Good := by
  induction s with
  | nil => trivial
  | cons b rest ih =>
    rw [scan]
    split
    · exact ih
    · exact scanAt_good b rest

theorem good_of_mem_tokensUpTo {fuel : Nat} {s : Bytes} {t : Token} (ht : t ∈ tokensUpTo fuel s) :
    t.Good := by
  induction fuel generalizing s with
  | zero => cases ht
  | succ fuel ih =>
    rw [tokensUpTo] at ht
    split at ht
    · rw [List.mem_singleton.mp ht]
      exact scan_good s
    · rcases List.mem_cons.mp ht with rfl | ht
      · exact scan_good s
      · exact ih ht

theorem good_of_mem_tokens {s : Bytes} {t : Token} (ht : t ∈ tokens s) : t.Good := by
  rw [tokens] at ht
  split at ht
  · exact good_of_mem_tokensUpTo ht
  · rw [List.mem_singleton.mp ht]
    trivial

/-! ## Every token takes a byte -/

theorem length_scanString_le (s : Bytes) (p : StringPoint) (buffer : Bytes) :
    (scanString p buffer s).2.length ≤ s.length := by
  induction s generalizing p buffer with
  | nil => exact Nat.le_refl _
  | cons b s ih =>
    rw [scanString, List.length_cons]
    split
    · exact Nat.le_succ _
    · split
      · exact Nat.le_succ_of_le (ih _ _)
      · exact Nat.le_succ _

theorem numberDone_snd (st : NumberState) (buffer rest : Bytes) :
    (numberDone st buffer rest).2 = rest := by
  rw [numberDone]
  split <;> rfl

theorem length_scanNumber_le (s : Bytes) (st : NumberState) (buffer : Bytes) :
    (scanNumber st buffer s).2.length ≤ s.length := by
  induction s generalizing st buffer with
  | nil => exact Nat.le_of_eq (congrArg _ (numberDone_snd st buffer []))
  | cons b s ih =>
    rw [scanNumber]
    split
    · exact Nat.le_succ_of_le (ih _ _)
    · exact Nat.le_of_eq (congrArg _ (numberDone_snd st buffer (b :: s)))

theorem length_scanLiteral_le (t : Token) (expected s : Bytes) :
    (scanLiteral t expected s).2.length ≤ s.length := by
  induction expected generalizing s with
  | nil => exact Nat.le_refl _
  | cons c expected ih =>
    cases s with
    | nil => exact Nat.le_refl _
    | cons b s =>
      rw [scanLiteral]
      split
      · exact Nat.le_succ_of_le (ih s)
      · exact Nat.le_succ _

theorem length_scanAt_le (b : UInt8) (rest : Bytes) : (scanAt b rest).2.length ≤ rest.length :=
  scanAt_induction (motive := fun r => r.2.length ≤ rest.length) b rest
    (fun _ _ => Nat.le_refl _) (fun t expected _ => length_scanLiteral_le t expected rest)
    (length_scanString_le rest _ _) fun st => length_scanNumber_le rest st _

theorem length_scan_lt {s : Bytes} (hs : ¬ Final (scan s).1) :
    (scan s).2.length < s.length := by
  induction s with
  | nil => exact absurd (Or.inr rfl) hs
  | cons b rest ih =>
    rw [scan] at hs ⊢
    split at hs
    · rename_i hspace
      rw [if_pos hspace]
      exact Nat.lt_succ_of_lt (ih hs)
    · rename_i hspace
      rw [if_neg hspace]
      exact Nat.lt_succ_of_le (length_scanAt_le b rest)

/-! ## A string is no longer than its spelling -/

/-- How many bytes have at least been read that are not in the buffer. -/
def StringPoint.ahead : StringPoint → Nat
  | .char _ => 0
  | .escape => 1
  | .hex _ left _ => 6 - left
  | .lowSlash _ | .lowU _ => 4

theorem length_encode_le (code : Nat) : (Utf8.encode code).length ≤ 4 := by
  unfold Utf8.encode
  split
  · exact Nat.le_add_left 1 3
  split
  · exact Nat.le_add_left 2 2
  split
  · exact Nat.le_succ 3
  · exact Nat.le_refl 4

theorem codePoint_ahead {high : Option Nat} {code : Nat} {q : StringPoint} {added : Bytes}
    (h : codePoint high code = some (q, added)) : added.length + q.ahead ≤ 4 := by
  unfold codePoint at h
  split at h
  · split at h
    · cases h
      exact Nat.le_refl 4
    split at h
    · cases h
    · cases h
      exact length_encode_le code
  · split at h
    · obtain ⟨rfl, rfl⟩ := Prod.mk.inj (Option.some.inj h)
      rw [StringPoint.ahead, Nat.add_zero]
      exact length_encode_le _
    · cases h

/-- The step lemma. -/
theorem stringStep_ahead {p q : StringPoint} {b : UInt8} {added : Bytes}
    (h : stringStep p b = some (q, added)) : added.length + q.ahead ≤ p.ahead + 1 := by
  cases p with
  | char owed =>
    cases owed with
    | nil =>
      rw [stringStep] at h
      split at h
      · cases h
        exact Nat.le_refl 1
      split at h
      · cases h
      · obtain ⟨owed, -, heq⟩ := Option.map_eq_some_iff.mp h
        cases heq
        exact Nat.le_refl 1
    | cons r owed =>
      rw [stringStep] at h
      split at h
      · cases h
        exact Nat.le_refl 1
      · cases h
  | escape =>
    rw [stringStep] at h
    split at h
    · cases h
      exact Nat.le_refl 2
    · obtain ⟨c, -, heq⟩ := Option.map_eq_some_iff.mp h
      cases heq
      exact Nat.le_succ 1
  | hex high left code =>
    obtain ⟨v, -, hnext⟩ := Option.bind_eq_some_iff.mp h
    show added.length + q.ahead ≤ 6 - left + 1
    split at hnext
    · have := codePoint_ahead hnext
      omega
    · cases hnext
      show 0 + (6 - (left - 1)) ≤ 6 - left + 1
      omega
  | lowSlash high =>
    rw [stringStep] at h
    split at h
    · cases h
      exact Nat.le_succ 4
    · cases h
  | lowU high =>
    rw [stringStep] at h
    split at h
    · cases h
      show 0 + 2 ≤ 4 + 1
      omega
    · cases h

theorem length_scanString_add {s k : Bytes} {p : StringPoint} {buffer : Bytes}
    (h : (scanString p buffer s).1 = .valueString k) :
    k.length ≤ buffer.length + p.ahead + s.length := by
  induction s generalizing p buffer with
  | nil => cases h
  | cons b s ih =>
    rw [scanString] at h
    rw [List.length_cons]
    split at h
    · cases h
      omega
    · split at h
      · rename_i q added hstep
        have hadded := stringStep_ahead hstep
        have hrest := ih h
        rw [List.length_append] at hrest
        omega
      · cases h

/-- Is this token no string, or a string of at most `n` bytes? -/
def Short (n : Nat) (t : Token) : Prop := ∀ k, t = .valueString k → k.length ≤ n

theorem Short.mono {n m : Nat} {t : Token} (h : Short n t) (hle : n ≤ m) : Short m t :=
  fun k hk => (h k hk).trans hle

theorem short_of_plain {t : Token} (ht : t.Plain) (n : Nat) : Short n t := by
  rintro k rfl
  exact ht.elim

theorem scanLiteral_short {t : Token} (ht : t.Plain) (expected s : Bytes) (n : Nat) :
    Short n (scanLiteral t expected s).1 := by
  induction expected generalizing s with
  | nil => exact short_of_plain ht n
  | cons c expected ih =>
    cases s with
    | nil => exact short_of_plain (t := .parseError) trivial n
    | cons b s =>
      rw [scanLiteral]
      split
      · exact ih s
      · exact short_of_plain (t := .parseError) trivial n

theorem numberDone_short (st : NumberState) (buffer rest : Bytes) (n : Nat) :
    Short n (numberDone st buffer rest).1 := by
  intro k hk
  unfold numberDone numberToken at hk
  repeat' split at hk
  all_goals cases hk

theorem scanNumber_short (st : NumberState) (buffer s : Bytes) (n : Nat) :
    Short n (scanNumber st buffer s).1 := by
  induction s generalizing st buffer with
  | nil => exact numberDone_short st buffer [] n
  | cons b s ih =>
    rw [scanNumber]
    split
    · exact ih _ _
    · exact numberDone_short st buffer (b :: s) n

theorem scan_short (s : Bytes) : Short s.length (scan s).1 := by
  induction s with
  | nil => exact short_of_plain (t := .endOfInput) trivial 0
  | cons b rest ih =>
    rw [scan]
    split
    · exact ih.mono (Nat.le_succ _)
    · refine Short.mono ?_ (Nat.le_succ rest.length)
      refine scanAt_induction (motive := fun r => Short rest.length r.1) b rest
        (fun t ht => short_of_plain ht _)
        (fun t expected ht => scanLiteral_short ht expected rest _) (fun k hk => ?_)
        fun st => scanNumber_short st [b] rest _
      simpa [StringPoint.ahead] using length_scanString_add hk

theorem short_of_mem_tokensUpTo {fuel : Nat} {s : Bytes} {t : Token}
    (ht : t ∈ tokensUpTo fuel s) : Short s.length t := by
  induction fuel generalizing s with
  | zero => cases ht
  | succ fuel ih =>
    rw [tokensUpTo] at ht
    split at ht
    · rw [List.mem_singleton.mp ht]
      exact scan_short s
    · rename_i hfinal
      rcases List.mem_cons.mp ht with rfl | ht
      · exact scan_short s
      · exact (ih ht).mono (length_scan_lt hfinal).le

theorem length_skipBom_le {s s' : Bytes} (h : skipBom s = some s') : s'.length ≤ s.length := by
  unfold skipBom at h
  split at h
  · cases h
    exact Nat.le_add_right _ 3
  · cases h
  · cases h
    exact Nat.le_refl _

/-- **No string among the tokens is longer than the input.**  What the scanner has put into its
buffer took at least as many bytes to spell. -/
theorem short_of_mem_tokens {s : Bytes} {t : Token} (ht : t ∈ tokens s) : Short s.length t := by
  rw [tokens] at ht
  split at ht
  · rename_i s' hbom
    exact (short_of_mem_tokensUpTo ht).mono (length_skipBom_le hbom)
  · rw [List.mem_singleton.mp ht]
    exact short_of_plain (t := .parseError) trivial _

/-! ## Fuel -/

/-- More fuel than bytes changes nothing. -/
theorem tokensUpTo_eq {n m : Nat} {s : Bytes} (hn : s.length < n) (hm : s.length < m) :
    tokensUpTo n s = tokensUpTo m s := by
  induction n generalizing m s with
  | zero => omega
  | succ n ih =>
    obtain ⟨m, rfl⟩ : ∃ k, m = k + 1 := ⟨m - 1, by omega⟩
    rw [tokensUpTo, tokensUpTo]
    by_cases hfinal : Final (scan s).1
    · rw [if_pos hfinal, if_pos hfinal]
    · have := length_scan_lt hfinal
      rw [if_neg hfinal, if_neg hfinal, ih (m := m) (by omega) (by omega)]

end Lexer
end MultiPlayerGame
