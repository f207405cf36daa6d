import Mathlib

/-!
# Byte strings and decimal numerals

Text in the program is a `std::string`, that is, a finite sequence of bytes, and every number it
writes into one goes through `std::to_string` or an output stream.  This file fixes both: `Bytes`,
the spelling `ascii` of a literal, and the decimal numeral `decimal n` of an integer.

The numerals are core's `Nat.toDigits`; what is added is how they are read back
(`readDigits_digits`) and how long they get (`length_digits_le_iff`), which is what a parser and a
size bound need.
-/

namespace MultiPlayerGame

/-- A byte string: the contents of a `std::string` or of a byte buffer. -/
abbrev Bytes := List UInt8

namespace Bytes

/-- The bytes of ASCII characters. -/
def chars (cs : List Char) : Bytes := cs.map fun c => UInt8.ofNat c.toNat

/-- The bytes of a string literal. -/
def ascii (s : String) : Bytes := chars s.toList

/-- The decimal numeral of a natural number. -/
def digits (n : Nat) : Bytes := chars (Nat.toDigits 10 n)

/-- The decimal numeral of an integer, as `std::to_string` writes it. -/
def decimal : Int → Bytes
  | .ofNat n => digits n
  | .negSucc n => 0x2D :: digits (n + 1)

/-- Is this byte one of `0` to `9`? -/
def isDigit (b : UInt8) : Bool := 0x30 ≤ b && b ≤ 0x39

/-- The number a run of digits denotes, continuing from the digits already read. -/
def readDigits (acc : Nat) (bs : Bytes) : Nat :=
  bs.foldl (fun n b => 10 * n + (b.toNat - 0x30)) acc

@[simp] theorem chars_nil : chars [] = [] := rfl

@[simp] theorem chars_append (cs ds : List Char) : chars (cs ++ ds) = chars cs ++ chars ds :=
  List.map_append

@[simp] theorem length_chars (cs : List Char) : (chars cs).length = cs.length :=
  List.length_map _

@[simp] theorem readDigits_nil (acc : Nat) : readDigits acc [] = acc := rfl

@[simp] theorem readDigits_append (acc : Nat) (bs cs : Bytes) :
    readDigits acc (bs ++ cs) = readDigits (readDigits acc bs) cs :=
  List.foldl_append

/-! ## Reading a numeral back -/

/-- The ten digit characters, and their bytes. -/
theorem chars_digitChar {d : Nat} (hd : d < 10) :
    chars [Nat.digitChar d] = [UInt8.ofNat (0x30 + d)] := by
  have hall : ∀ d < 10, chars [Nat.digitChar d] = [UInt8.ofNat (0x30 + d)] := by decide
  exact hall d hd

theorem digits_of_lt {n : Nat} (hn : n < 10) : digits n = [UInt8.ofNat (0x30 + n)] := by
  rw [digits, Nat.toDigits_of_lt_base hn, chars_digitChar hn]

theorem digits_of_le {n : Nat} (hn : 10 ≤ n) :
    digits n = digits (n / 10) ++ [UInt8.ofNat (0x30 + n % 10)] := by
  rw [digits, Nat.toDigits_of_base_le (by omega) hn, chars_append,
    chars_digitChar (Nat.mod_lt _ (by omega)), digits]

theorem digits_ne_nil (n : Nat) : digits n ≠ [] := by
  simp [digits, chars]

@[simp] theorem toNat_digit {d : Nat} (hd : d < 10) :
    (UInt8.ofNat (0x30 + d)).toNat = 0x30 + d := by
  rw [UInt8.toNat_ofNat']
  omega

theorem isDigit_iff {b : UInt8} : isDigit b = true ↔ 0x30 ≤ b.toNat ∧ b.toNat ≤ 0x39 := by
  simp [isDigit, UInt8.le_iff_toNat_le]

/-- A numeral consists of digits. -/
theorem isDigit_of_mem_digits {n : Nat} {b : UInt8} (hb : b ∈ digits n) : isDigit b = true := by
  induction n using Nat.strongRecOn with
  | _ n ih =>
    rcases Nat.lt_or_ge n 10 with hn | hn
    · rw [digits_of_lt hn, List.mem_singleton] at hb
      rw [isDigit_iff, hb, toNat_digit hn]
      omega
    · rw [digits_of_le hn, List.mem_append, List.mem_singleton] at hb
      rcases hb with hb | hb
      · exact ih (n / 10) (by omega) hb
      · rw [isDigit_iff, hb, toNat_digit (Nat.mod_lt _ (by omega))]
        omega

/-- **A numeral reads back as its number.**  Its last digit is the remainder by ten, and the
induction is on the digits in front of it. -/
theorem readDigits_digits (n : Nat) : readDigits 0 (digits n) = n := by
  induction n using Nat.strongRecOn with
  | _ n ih =>
    rcases Nat.lt_or_ge n 10 with hn | hn
    · rw [digits_of_lt hn]
      simp only [readDigits, List.foldl_cons, List.foldl_nil, toNat_digit hn]
      omega
    · rw [digits_of_le hn, readDigits_append, ih (n / 10) (by omega)]
      simp only [readDigits, List.foldl_cons, List.foldl_nil,
        toNat_digit (Nat.mod_lt n (show 0 < 10 by omega))]
      omega

theorem digits_injective : Function.Injective digits := fun m n h => by
  rw [← readDigits_digits m, h, readDigits_digits]

/-- A sign is no digit. -/
theorem digits_ne_sign (n : Nat) (bs : Bytes) : digits n ≠ 0x2D :: bs := by
  intro h
  have hdigit : isDigit 0x2D = true := by
    refine isDigit_of_mem_digits (n := n) ?_
    rw [h]
    exact List.mem_cons_self
  cases hdigit

/-- **Different integers have different numerals.**  A sign is no digit, and the digits give the
number back. -/
theorem decimal_injective : Function.Injective decimal := by
  intro m n h
  cases m with
  | ofNat m =>
    cases n with
    | ofNat n => rw [digits_injective h]
    | negSucc n => exact absurd h (digits_ne_sign m _)
  | negSucc m =>
    cases n with
    | ofNat n => exact absurd h.symm (digits_ne_sign n _)
    | negSucc n =>
      have hsucc := digits_injective (List.cons.inj h).2
      rw [Nat.succ.inj hsucc]

/-- A numeral of more than one digit does not start with a zero. -/
theorem head?_digits {n : Nat} (hn : n ≠ 0) : (digits n).head? ≠ some 0x30 := by
  induction n using Nat.strongRecOn with
  | _ n ih =>
    rcases Nat.lt_or_ge n 10 with hlt | hge
    · rw [digits_of_lt hlt, List.head?_cons]
      intro h
      have hd := congrArg UInt8.toNat (Option.some.inj h)
      rw [toNat_digit hlt] at hd
      have h30 : (0x30 : UInt8).toNat = 0x30 := rfl
      omega
    · rw [digits_of_le hge, List.head?_append_of_ne_nil _ (digits_ne_nil _)]
      exact ih (n / 10) (by omega) (by omega)

/-! ## How long a numeral is -/

theorem length_digits_le_iff {n k : Nat} (hk : 0 < k) : (digits n).length ≤ k ↔ n < 10 ^ k := by
  rw [digits, length_chars]
  exact Nat.length_toDigits_le_iff (by omega) hk

end Bytes
end MultiPlayerGame
