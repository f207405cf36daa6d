import MultiPlayerGame.Library.Bytes

/-!
# UTF-8, one byte at a time

A decoder reads a byte string from left to right and, between two bytes, owes the ranges that the
rest of the current character has to fall in.  `lead` lists them for each first byte --- the rows of
the table of well-formed byte sequences --- and `run` follows a whole string.  A string is
well-formed UTF-8 exactly when `run` ends owing nothing (`Valid`).

Strings are built up from the right by appending bytes, so the lemmas are about `run` after an
append, and about the byte sequences `encode` writes for a code point (`valid_encode`).
-/

namespace MultiPlayerGame
namespace Utf8

/-- An inclusive range of bytes. -/
structure Range where
  lo : UInt8
  hi : UInt8
  deriving DecidableEq, Repr

def Range.contains (r : Range) (b : UInt8) : Bool := r.lo ≤ b && b ≤ r.hi

/-- The range of an ordinary continuation byte. -/
def tail : Range := ⟨0x80, 0xBF⟩

/-- The ranges that the bytes after a first byte `b` must fall in; `none` if no character starts
with `b`. -/
def lead (b : UInt8) : Option (List Range) :=
  if b ≤ 0x7F then some []
  else if b < 0xC2 then none
  else if b ≤ 0xDF then some [tail]
  else if b = 0xE0 then some [⟨0xA0, 0xBF⟩, tail]
  else if b = 0xED then some [⟨0x80, 0x9F⟩, tail]
  else if b ≤ 0xEF then some [tail, tail]
  else if b = 0xF0 then some [⟨0x90, 0xBF⟩, tail, tail]
  else if b ≤ 0xF3 then some [tail, tail, tail]
  else if b = 0xF4 then some [⟨0x80, 0x8F⟩, tail, tail]
  else none

/-- One byte, from the ranges owed before it to the ranges owed after it. -/
def step : List Range → UInt8 → Option (List Range)
  | [], b => lead b
  | r :: owed, b => if r.contains b then some owed else none

/-- The ranges owed after a string; `none` if a byte of it fits nowhere. -/
def run (owed : List Range) (s : Bytes) : Option (List Range) := s.foldlM step owed

/-- A string is well-formed when it ends between characters. -/
def Valid (s : Bytes) : Prop := run [] s = some []

instance (s : Bytes) : Decidable (Valid s) := inferInstanceAs (Decidable (_ = _))

@[simp] theorem run_nil (owed : List Range) : run owed [] = some owed := rfl

@[simp] theorem run_cons (owed : List Range) (b : UInt8) (s : Bytes) :
    run owed (b :: s) = (step owed b).bind fun q => run q s := rfl

theorem run_append (owed : List Range) (s t : Bytes) :
    run owed (s ++ t) = (run owed s).bind fun q => run q t :=
  List.foldlM_append

@[simp] theorem valid_nil : Valid [] := rfl

theorem Valid.append {s t : Bytes} (hs : Valid s) (ht : Valid t) : Valid (s ++ t) := by
  rw [Valid, run_append, hs]
  exact ht

theorem lead_of_le {b : UInt8} (hb : b ≤ 0x7F) : lead b = some [] := if_pos hb

/-- ASCII text is well-formed. -/
theorem valid_of_ascii {s : Bytes} (hs : ∀ b ∈ s, b ≤ 0x7F) : Valid s := by
  induction s with
  | nil => rfl
  | cons b s ih =>
    rw [Valid, run_cons, step, lead_of_le (hs b List.mem_cons_self)]
    exact ih fun c hc => hs c (List.mem_cons_of_mem b hc)

/-- A numeral is ASCII. -/
theorem valid_decimal (n : Int) : Valid (Bytes.decimal n) := by
  have hdigits : ∀ n : Nat, ∀ b ∈ Bytes.digits n, b ≤ 0x7F := fun n b hb => by
    have := Bytes.isDigit_iff.mp (Bytes.isDigit_of_mem_digits hb)
    rw [UInt8.le_iff_toNat_le]
    exact Nat.le_trans this.2 (by decide)
  cases n with
  | ofNat n => exact valid_of_ascii (hdigits n)
  | negSucc n =>
    refine valid_of_ascii fun b hb => ?_
    rcases List.mem_cons.mp hb with rfl | hb
    · decide
    · exact hdigits (n + 1) b hb

/-! ## The bytes of a code point -/

/-- The one to four bytes of a code point. -/
def encode (code : Nat) : Bytes :=
  if code < 0x80 then [UInt8.ofNat code]
  else if code ≤ 0x7FF then
    [UInt8.ofNat (0xC0 + code / 64), UInt8.ofNat (0x80 + code % 64)]
  else if code ≤ 0xFFFF then
    [UInt8.ofNat (0xE0 + code / 4096), UInt8.ofNat (0x80 + code / 64 % 64),
      UInt8.ofNat (0x80 + code % 64)]
  else
    [UInt8.ofNat (0xF0 + code / 262144), UInt8.ofNat (0x80 + code / 4096 % 64),
      UInt8.ofNat (0x80 + code / 64 % 64), UInt8.ofNat (0x80 + code % 64)]

/-- A range, read on numbers. -/
theorem Range.contains_ofNat {r : Range} {n : Nat} (hn : n < 256) :
    r.contains (UInt8.ofNat n) = true ↔ r.lo.toNat ≤ n ∧ n ≤ r.hi.toNat := by
  have hn : (UInt8.ofNat n).toNat = n := UInt8.toNat_ofNat_of_lt' hn
  rw [contains, Bool.and_eq_true, decide_eq_true_eq, decide_eq_true_eq, UInt8.le_iff_toNat_le,
    UInt8.le_iff_toNat_le, hn]

theorem step_tail {owed : List Range} (n : Nat) :
    step (tail :: owed) (UInt8.ofNat (0x80 + n % 64)) = some owed := by
  have h : tail.contains (UInt8.ofNat (0x80 + n % 64)) = true :=
    (Range.contains_ofNat (by omega)).mpr
      ⟨by simp only [tail]; exact Nat.le_add_right _ _, by
        have hhi : tail.hi.toNat = 0xBF := rfl
        omega⟩
  rw [step, if_pos h]

theorem lead_two : ∀ k < 32, 2 ≤ k → lead (UInt8.ofNat (0xC0 + k)) = some [tail] := by
  decide

theorem lead_three : ∀ k < 16, lead (UInt8.ofNat (0xE0 + k)) = some
    (if k = 0 then [⟨0xA0, 0xBF⟩, tail] else if k = 13 then [⟨0x80, 0x9F⟩, tail]
      else [tail, tail]) := by
  decide

theorem lead_four : ∀ k < 5, lead (UInt8.ofNat (0xF0 + k)) = some
    (if k = 0 then [⟨0x90, 0xBF⟩, tail, tail] else if k = 4 then [⟨0x80, 0x8F⟩, tail, tail]
      else [tail, tail, tail]) := by
  decide

/-- A continuation byte in the narrower range that some first bytes ask for. -/
theorem step_narrow {owed : List Range} {lo hi : UInt8} {n : Nat}
    (hlo : lo.toNat ≤ 0x80 + n % 64) (hhi : 0x80 + n % 64 ≤ hi.toNat) :
    step (⟨lo, hi⟩ :: owed) (UInt8.ofNat (0x80 + n % 64)) = some owed := by
  have h : Range.contains ⟨lo, hi⟩ (UInt8.ofNat (0x80 + n % 64)) = true :=
    (Range.contains_ofNat (by omega)).mpr ⟨hlo, hhi⟩
  rw [step, if_pos h]

/-- **A code point that is not a surrogate is encoded as a character.**  The four lengths are
treated one by one, the first byte and then what it owes. -/
theorem valid_encode {code : Nat} (hmax : code ≤ 0x10FFFF)
    (hsur : code < 0xD800 ∨ 0xDFFF < code) : Valid (encode code) := by
  have h80 : (0x80 : UInt8).toNat = 0x80 := rfl
  have h8f : (0x8F : UInt8).toNat = 0x8F := rfl
  have h90 : (0x90 : UInt8).toNat = 0x90 := rfl
  have h9f : (0x9F : UInt8).toNat = 0x9F := rfl
  have ha0 : (0xA0 : UInt8).toNat = 0xA0 := rfl
  have hbf : (0xBF : UInt8).toNat = 0xBF := rfl
  unfold encode Valid
  split
  · refine valid_of_ascii fun b hb => ?_
    rw [List.mem_singleton.mp hb, UInt8.le_iff_toNat_le, UInt8.toNat_ofNat']
    have h7f : (0x7F : UInt8).toNat = 0x7F := rfl
    omega
  split
  · rw [run_cons, step, lead_two _ (by omega) (by omega), Option.bind_some, run_cons,
      step_tail, Option.bind_some, run_nil]
  split
  · rw [run_cons, step, lead_three _ (by omega), Option.bind_some, run_cons]
    have hsecond : ∀ k, k = code / 4096 → step
        (if k = 0 then [⟨0xA0, 0xBF⟩, tail] else if k = 13 then [⟨0x80, 0x9F⟩, tail]
          else [tail, tail]) (UInt8.ofNat (0x80 + code / 64 % 64)) = some [tail] := by
      intro k hk
      split
      · exact step_narrow (by omega) (by omega)
      split
      · exact step_narrow (by omega) (by omega)
      · exact step_tail _
    rw [hsecond _ rfl, Option.bind_some, run_cons, step_tail, Option.bind_some, run_nil]
  · rw [run_cons, step, lead_four _ (by omega), Option.bind_some, run_cons]
    have hsecond : ∀ k, k = code / 262144 → step
        (if k = 0 then [⟨0x90, 0xBF⟩, tail, tail] else if k = 4 then [⟨0x80, 0x8F⟩, tail, tail]
          else [tail, tail, tail]) (UInt8.ofNat (0x80 + code / 4096 % 64)) =
            some [tail, tail] := by
      intro k hk
      split
      · exact step_narrow (by omega) (by omega)
      split
      · exact step_narrow (by omega) (by omega)
      · exact step_tail _
    rw [hsecond _ rfl, Option.bind_some, run_cons, step_tail, Option.bind_some, run_cons,
      step_tail, Option.bind_some, run_nil]

end Utf8
end MultiPlayerGame
