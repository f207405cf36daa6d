import MultiPlayerGame.Library.Bytes
import MultiPlayerGame.Library.Framing

/-!
# The framing of messages

A message on the wire is its length, four bytes in little-endian order, and its bytes.  `encode` and
`decode` are those of `MessageFramer`; `decode` works on the buffer and the output string it is
given, so its result has both of them, next to what it returns or throws.  `readExact` and
`writeAll` are the loops around `recv` and `send`.

The arithmetic of the header is done once, in `toNat_readU32LE` and `toNat_byte`; with it the two
conversions turn out to be inverse to each other.

## Why every buffer is one of three

`decode` compares two numbers: how many bytes there are, and how many the header announces.
Whatever is in the buffer, one of three things is the case (`front_cases`): it is `Incomplete`, its
header is `TooLarge`, or a whole message is there (`Complete`).  For each there is one lemma that
says what `decode` returns and what it leaves in the buffer, and nothing after them unfolds
`decode`.  In the third case the buffer is the encoding of the message in front of the rest
(`eq_encode_of_complete`), so decoding and encoding are inverse to each other on everything that is
accepted, and not only on what was encoded.

## Streams

`readExact` is about a stream that comes in pieces.  It does not matter how it is cut
(`readExact_of_le`), except at its end: with too few bytes it waits, or fails if a piece is empty,
which is how a `recv` that fails is written.  Partial sends are a list of what the calls of `send`
return, in which a number that is not positive is a failure.
-/

namespace MultiPlayerGame
namespace MessageFramer

open Bytes (ascii digits)

/-- 1 MiB. -/
def maxMessageSize : UInt32 := 1 * 1024 * 1024

def headerSize : Nat := 4

def readU32LE (p : Bytes) : UInt32 :=
  (p.getD 0 0).toUInt32 ||| (p.getD 1 0).toUInt32 <<< 8 ||| (p.getD 2 0).toUInt32 <<< 16 |||
    (p.getD 3 0).toUInt32 <<< 24

def writeU32LE (v : UInt32) : Bytes :=
  [(v &&& 0xFF).toUInt8, ((v >>> 8) &&& 0xFF).toUInt8, ((v >>> 16) &&& 0xFF).toUInt8,
    ((v >>> 24) &&& 0xFF).toUInt8]

/-- The length is cast to 32 bits, and as many bytes are copied. -/
def encode (payload : Bytes) : Bytes :=
  let len := UInt32.ofNat payload.length
  writeU32LE len ++ payload.take len.toNat

/-- How a call of `decode` ends.  It returns `true` with a message, or `false` without one, or it
throws. -/
inductive Ending where
  | returned (complete : Bool)
  | threw (what : Bytes)
  deriving DecidableEq, Repr

/-- What a call of `decode` leaves behind. -/
structure Decoded where
  ending : Ending
  buffer : Bytes
  out : Bytes
  deriving DecidableEq, Repr

def decode (buffer out : Bytes) : Decoded :=
  if buffer.length < headerSize then ⟨.returned false, buffer, out⟩
  else
    let payloadLen := readU32LE buffer
    if maxMessageSize < payloadLen then
      ⟨.threw (ascii "Message too large: " ++ digits payloadLen.toNat ++ ascii " bytes"), buffer,
        out⟩
    else
      let totalNeeded := headerSize + payloadLen.toNat
      if buffer.length < totalNeeded then ⟨.returned false, buffer, out⟩
      else ⟨.returned true, buffer.drop totalNeeded, (buffer.drop headerSize).take payloadLen.toNat⟩

/-- How a call of `readExact` ends: it waits for bytes that nobody sends, or a `recv` fails, or it
has all bytes.  What is left of the stream stays with it. -/
inductive Read where
  | waits
  | failed (stream : List Bytes)
  | done (bytes : Bytes) (stream : List Bytes)
  deriving DecidableEq, Repr

/-- The stream comes in pieces, and a `recv` takes from the first piece what it can.  An empty piece
is a `recv` that fails. -/
def readExact : Nat → List Bytes → Read
  | 0, stream => .done [] stream
  | _ + 1, [] => .waits
  | n + 1, piece :: stream =>
    if piece = [] then .failed stream
    else if piece.length ≤ n + 1 then
      match readExact (n + 1 - piece.length) stream with
      | .done bytes stream => .done (piece ++ bytes) stream
      | ending => ending
    else .done (piece.take (n + 1)) (piece.drop (n + 1) :: stream)

/-- With `remaining` bytes to write, and what the calls of `send` return. -/
def writeAll : Nat → List Int → Bool
  | 0, _ => true
  | _ + 1, [] => false
  | n + 1, w :: sends => if w ≤ 0 then false else writeAll (n + 1 - w.toNat) sends

/-- How many bytes `writeAll` has got rid of when it returns. -/
def sentBytes : Nat → List Int → Nat
  | 0, _ => 0
  | _ + 1, [] => 0
  | n + 1, w :: sends =>
    if w ≤ 0 then 0 else min (n + 1) w.toNat + sentBytes (n + 1 - w.toNat) sends

/-! ## The header -/

/-- Disjoint bits: `|` is addition. -/
theorem or_shiftLeft {a b i : Nat} (ha : a < 2 ^ i) : a ||| b <<< i = a + 2 ^ i * b := by
  rw [Nat.or_comm, ← Nat.shiftLeft_add_eq_or_of_lt ha, Nat.shiftLeft_eq]
  ring

/-- A byte shifted within 32 bits. -/
theorem toNat_shift (b : UInt8) {i : UInt32} (hi : i.toNat ≤ 24) :
    (b.toUInt32 <<< i).toNat = b.toNat <<< i.toNat := by
  have hb := b.toNat_lt
  rw [UInt32.toNat_shiftLeft, UInt8.toNat_toUInt32, Nat.mod_eq_of_lt (by omega : i.toNat < 32)]
  refine Nat.mod_eq_of_lt ?_
  rw [Nat.shiftLeft_eq]
  calc b.toNat * 2 ^ i.toNat < 2 ^ 8 * 2 ^ i.toNat :=
        Nat.mul_lt_mul_of_pos_right hb (by positivity)
    _ ≤ 2 ^ 8 * 2 ^ 24 := Nat.mul_le_mul_left _ (Nat.pow_le_pow_right (by omega) hi)
    _ = 2 ^ 32 := by norm_num

theorem toNat_readU32LE (b₀ b₁ b₂ b₃ : UInt8) (rest : Bytes) :
    (readU32LE (b₀ :: b₁ :: b₂ :: b₃ :: rest)).toNat =
      b₀.toNat + 2 ^ 8 * b₁.toNat + 2 ^ 16 * b₂.toNat + 2 ^ 24 * b₃.toNat := by
  have h₀ := b₀.toNat_lt
  have h₁ := b₁.toNat_lt
  have h₂ := b₂.toNat_lt
  simp only [readU32LE, List.getD_cons_zero, List.getD_cons_succ, UInt32.toNat_or,
    UInt8.toNat_toUInt32]
  rw [toNat_shift b₁ (i := 8) (by decide), toNat_shift b₂ (i := 16) (by decide),
    toNat_shift b₃ (i := 24) (by decide)]
  change b₀.toNat ||| b₁.toNat <<< 8 ||| b₂.toNat <<< 16 ||| b₃.toNat <<< 24 = _
  rw [or_shiftLeft (a := b₀.toNat) (by omega),
    or_shiftLeft (a := b₀.toNat + 2 ^ 8 * b₁.toNat) (by omega), or_shiftLeft (by omega)]

/-- A byte of the header. -/
theorem toNat_byte (v : UInt32) {i : UInt32} (hi : i.toNat < 32) :
    ((v >>> i) &&& 0xFF).toUInt8.toNat = v.toNat / 2 ^ i.toNat % 256 := by
  have hmask := Nat.and_two_pow_sub_one_eq_mod (v.toNat / 2 ^ i.toNat) 8
  rw [UInt32.toNat_toUInt8, UInt32.toNat_and, UInt32.toNat_shiftRight, Nat.mod_eq_of_lt hi,
    Nat.shiftRight_eq_div_pow]
  change (v.toNat / 2 ^ i.toNat &&& (2 ^ 8 - 1)) % 2 ^ 8 = _
  rw [hmask, Nat.mod_mod]

/-- The four bytes of a length. -/
theorem toNat_bytes (v : UInt32) :
    (v &&& 0xFF).toUInt8.toNat = v.toNat % 256 ∧
      ((v >>> 8) &&& 0xFF).toUInt8.toNat = v.toNat / 2 ^ 8 % 256 ∧
      ((v >>> 16) &&& 0xFF).toUInt8.toNat = v.toNat / 2 ^ 16 % 256 ∧
      ((v >>> 24) &&& 0xFF).toUInt8.toNat = v.toNat / 2 ^ 24 % 256 := by
  have hzero := toNat_byte v (i := 0) (by decide)
  rw [UInt32.shiftRight_zero] at hzero
  refine ⟨?_, toNat_byte v (by decide), toNat_byte v (by decide), toNat_byte v (by decide)⟩
  rw [hzero]
  change v.toNat / 2 ^ 0 % 256 = _
  rw [pow_zero, Nat.div_one]

/-- **A length that has been written is read back.**  Each byte is a digit of the number in base
256. -/
theorem readU32LE_writeU32LE (v : UInt32) (rest : Bytes) :
    readU32LE (writeU32LE v ++ rest) = v := by
  have hv := v.toNat_lt
  obtain ⟨h₀, h₁, h₂, h₃⟩ := toNat_bytes v
  rw [← UInt32.toNat_inj]
  simp only [writeU32LE, List.cons_append, List.nil_append]
  rw [toNat_readU32LE, h₀, h₁, h₂, h₃]
  omega

/-- **And the other way round.**  So a header is determined by the length that it announces. -/
theorem writeU32LE_readU32LE (b₀ b₁ b₂ b₃ : UInt8) (rest : Bytes) :
    writeU32LE (readU32LE (b₀ :: b₁ :: b₂ :: b₃ :: rest)) = [b₀, b₁, b₂, b₃] := by
  have h₀ := b₀.toNat_lt
  have h₁ := b₁.toNat_lt
  have h₂ := b₂.toNat_lt
  have h₃ := b₃.toNat_lt
  have hread := toNat_readU32LE b₀ b₁ b₂ b₃ rest
  obtain ⟨e₀, e₁, e₂, e₃⟩ := toNat_bytes (readU32LE (b₀ :: b₁ :: b₂ :: b₃ :: rest))
  simp only [writeU32LE, List.cons.injEq, and_true, ← UInt8.toNat_inj, e₀, e₁, e₂, e₃, hread]
  omega

@[simp] theorem length_writeU32LE (v : UInt32) : (writeU32LE v).length = headerSize := rfl

theorem exists_header {buffer : Bytes} (h : headerSize ≤ buffer.length) :
    ∃ b₀ b₁ b₂ b₃ rest, buffer = b₀ :: b₁ :: b₂ :: b₃ :: rest := by
  rcases buffer with _ | ⟨b₀, _ | ⟨b₁, _ | ⟨b₂, _ | ⟨b₃, rest⟩⟩⟩⟩
  · simp [headerSize] at h
  · simp [headerSize] at h
  · simp [headerSize] at h
  · simp [headerSize] at h
  · exact ⟨b₀, b₁, b₂, b₃, rest, rfl⟩

/-- The header of a buffer that is long enough to have one. -/
theorem writeU32LE_front {buffer : Bytes} (h : headerSize ≤ buffer.length) :
    writeU32LE (readU32LE buffer) = buffer.take headerSize := by
  obtain ⟨b₀, b₁, b₂, b₃, rest, rfl⟩ := exists_header h
  exact writeU32LE_readU32LE b₀ b₁ b₂ b₃ rest

/-- The header is a matter of the first four bytes. -/
theorem readU32LE_append {buffer : Bytes} (h : headerSize ≤ buffer.length) (more : Bytes) :
    readU32LE (buffer ++ more) = readU32LE buffer := by
  obtain ⟨b₀, b₁, b₂, b₃, rest, rfl⟩ := exists_header h
  rfl

/-! ## The three ways `decode` goes -/

section Decode

variable {buffer : Bytes} (out : Bytes)

/-- More is needed, for the header or for the bytes that it announces. -/
def Incomplete (buffer : Bytes) : Prop :=
  buffer.length < headerSize ∨
    ¬ maxMessageSize < readU32LE buffer ∧ buffer.length < headerSize + (readU32LE buffer).toNat

/-- The header announces too much.  The message itself need not be there: `decode` throws as soon as
it sees the header. -/
def TooLarge (buffer : Bytes) : Prop :=
  headerSize ≤ buffer.length ∧ maxMessageSize < readU32LE buffer

/-- A whole message is there.  There may be more behind it, which `decode` leaves in the buffer. -/
def Complete (buffer : Bytes) : Prop :=
  ¬ maxMessageSize < readU32LE buffer ∧ headerSize + (readU32LE buffer).toNat ≤ buffer.length

theorem decode_of_incomplete (h : Incomplete buffer) :
    decode buffer out = ⟨.returned false, buffer, out⟩ := by
  unfold decode
  rcases h with h | ⟨hlarge, hshort⟩
  · rw [if_pos h]
  · by_cases hheader : buffer.length < headerSize
    · rw [if_pos hheader]
    · rw [if_neg hheader]
      simp only
      rw [if_neg hlarge, if_pos hshort]

theorem decode_of_tooLarge (h : TooLarge buffer) : ∃ what,
    decode buffer out = ⟨.threw what, buffer, out⟩ := by
  unfold decode
  rw [if_neg (Nat.not_lt.mpr h.1)]
  simp only
  rw [if_pos h.2]
  exact ⟨_, rfl⟩

theorem decode_of_complete (h : Complete buffer) :
    decode buffer out = ⟨.returned true, buffer.drop (headerSize + (readU32LE buffer).toNat),
      (buffer.drop headerSize).take (readU32LE buffer).toNat⟩ := by
  unfold decode
  have hheader : ¬ buffer.length < headerSize := by
    have := h.2
    omega
  rw [if_neg hheader]
  simp only
  rw [if_neg h.1, if_neg (Nat.not_lt.mpr h.2)]

/-- One of the three is the case. -/
theorem front_cases (buffer : Bytes) : Incomplete buffer ∨ TooLarge buffer ∨ Complete buffer := by
  by_cases hheader : buffer.length < headerSize
  · exact Or.inl (Or.inl hheader)
  by_cases hlarge : maxMessageSize < readU32LE buffer
  · exact Or.inr (Or.inl ⟨Nat.not_lt.mp hheader, hlarge⟩)
  by_cases hshort : buffer.length < headerSize + (readU32LE buffer).toNat
  · exact Or.inl (Or.inr ⟨hlarge, hshort⟩)
  · exact Or.inr (Or.inr ⟨hlarge, Nat.not_lt.mp hshort⟩)

end Decode

/-! ## What `decode` delivers has been encoded -/

theorem encode_of_length_lt {payload : Bytes} (h : payload.length < 2 ^ 32) :
    encode payload = writeU32LE (UInt32.ofNat payload.length) ++ payload ∧
      (UInt32.ofNat payload.length).toNat = payload.length := by
  have hlen : (UInt32.ofNat payload.length).toNat = payload.length := UInt32.toNat_ofNat_of_lt' h
  refine ⟨?_, hlen⟩
  rw [encode, hlen, List.take_length]

theorem encode_of_length_le (payload : Bytes) (h : payload.length ≤ maxMessageSize.toNat) :
    encode payload = writeU32LE (UInt32.ofNat payload.length) ++ payload ∧
      (UInt32.ofNat payload.length).toNat = payload.length := by
  have hmax : maxMessageSize.toNat = 1048576 := rfl
  exact encode_of_length_lt (by omega)

/-- **What has been encoded is decoded**, whatever follows it.  The message must not be longer than
what a header is allowed to announce. -/
theorem decode_encode {payload : Bytes} (h : payload.length ≤ maxMessageSize.toNat)
    (rest out : Bytes) : decode (encode payload ++ rest) out = ⟨.returned true, rest, payload⟩ := by
  obtain ⟨hencode, hlen⟩ := encode_of_length_le payload h
  have hread : readU32LE (encode payload ++ rest) = UInt32.ofNat payload.length := by
    rw [hencode, List.append_assoc, readU32LE_writeU32LE]
  have hcomplete : Complete (encode payload ++ rest) := by
    refine ⟨?_, ?_⟩
    · rw [hread, UInt32.lt_iff_toNat_lt, hlen]
      exact Nat.not_lt.mpr h
    · rw [hread, hlen, hencode]
      simp only [List.length_append, length_writeU32LE]
      omega
  rw [decode_of_complete out hcomplete, hread, hlen, hencode, List.append_assoc]
  have hdrop : ∀ n, (writeU32LE (UInt32.ofNat payload.length) ++ (payload ++ rest)).drop
      (headerSize + n) = (payload ++ rest).drop n := fun n => by
    rw [← length_writeU32LE (UInt32.ofNat payload.length), List.drop_append,
      List.drop_of_length_le (by omega)]
    simp
  have hzero := hdrop 0
  rw [Nat.add_zero, List.drop_zero] at hzero
  rw [hdrop, hzero, List.drop_left, List.take_left]

/-- **A buffer that `decode` takes a message from is the encoding of it and what is left.** -/
theorem eq_encode_of_complete {buffer : Bytes} (out : Bytes) (h : Complete buffer) :
    buffer = encode (decode buffer out).out ++ (decode buffer out).buffer := by
  obtain ⟨hlarge, hlength⟩ := h
  have hpayload : ((buffer.drop headerSize).take (readU32LE buffer).toNat).length =
      (readU32LE buffer).toNat := by
    rw [List.length_take, List.length_drop]
    omega
  have hsize : (readU32LE buffer).toNat ≤ maxMessageSize.toNat :=
    Nat.not_lt.mp fun hlt => hlarge (UInt32.lt_iff_toNat_lt.mpr hlt)
  have hencode := (encode_of_length_le _ (hpayload.trans_le hsize)).1
  rw [decode_of_complete out ⟨hlarge, hlength⟩]
  simp only
  rw [hencode, hpayload, UInt32.ofNat_toNat, writeU32LE_front (by omega), List.append_assoc,
    ← List.drop_drop, List.take_append_drop, List.take_append_drop]

/-! ## Reading from a stream -/

/-- **However the stream is cut**, `readExact` takes the next bytes, if there are enough of them and
no `recv` fails. -/
theorem readExact_of_le {n : Nat} {stream : List Bytes} (hfails : [] ∉ stream)
    (hn : n ≤ stream.flatten.length) : ∃ rest, [] ∉ rest ∧
      readExact n stream = .done (stream.flatten.take n) rest ∧
        rest.flatten = stream.flatten.drop n := by
  induction stream generalizing n with
  | nil =>
    obtain rfl : n = 0 := Nat.le_zero.mp hn
    exact ⟨[], hfails, rfl, rfl⟩
  | cons piece stream ih =>
    obtain _ | n := n
    · exact ⟨piece :: stream, hfails, rfl, rfl⟩
    have hpiece : piece ≠ [] := fun heq => hfails (heq ▸ List.mem_cons_self)
    have hstream : [] ∉ stream := fun hmem => hfails (List.mem_cons_of_mem _ hmem)
    rw [List.flatten_cons, List.length_append] at hn
    by_cases hlength : piece.length ≤ n + 1
    · obtain ⟨rest, hrest, hread, hflatten⟩ := ih hstream (n := n + 1 - piece.length) (by omega)
      refine ⟨rest, hrest, ?_, ?_⟩
      · rw [readExact, if_neg hpiece, if_pos hlength, hread, List.flatten_cons, List.take_append,
          List.take_of_length_le hlength]
      · rw [hflatten, List.flatten_cons, List.drop_append, List.drop_of_length_le hlength,
          List.nil_append]
    · refine ⟨piece.drop (n + 1) :: stream, ?_, ?_, ?_⟩
      · refine List.not_mem_cons_of_ne_of_not_mem (fun heq => ?_) hstream
        have hempty := congrArg List.length heq
        rw [List.length_drop, List.length_nil] at hempty
        omega
      · rw [readExact, if_neg hpiece, if_neg hlength, List.flatten_cons, List.take_append,
          Nat.sub_eq_zero_of_le (by omega), List.take_zero, List.append_nil]
      · rw [List.flatten_cons, List.flatten_cons, List.drop_append,
          Nat.sub_eq_zero_of_le (by omega), List.drop_zero]

/-- How a `recv` helps to read: it takes a whole piece, or the last bytes that are needed. -/
theorem readExact_cons_done {n : Nat} {piece bytes : Bytes} {stream rest : List Bytes} :
    readExact (n + 1) (piece :: stream) = .done bytes rest ↔ piece ≠ [] ∧
      (piece.length ≤ n + 1 ∧ (∃ later, readExact (n + 1 - piece.length) stream = .done later rest ∧
          bytes = piece ++ later) ∨
        n + 1 < piece.length ∧ bytes = piece.take (n + 1) ∧
          rest = piece.drop (n + 1) :: stream) := by
  rw [readExact]
  by_cases hpiece : piece = []
  · simp [hpiece]
  rw [if_neg hpiece]
  by_cases hlength : piece.length ≤ n + 1
  · rw [if_pos hlength]
    rcases readExact (n + 1 - piece.length) stream with _ | _ | ⟨later, rest'⟩
    · simp [hlength, Nat.not_lt.mpr hlength]
    · simp [hlength, Nat.not_lt.mpr hlength]
    · simp [hpiece, hlength, Nat.not_lt.mpr hlength, and_comm, eq_comm]
  · rw [if_neg hlength]
    simp [hpiece, hlength, Nat.not_le.mp hlength, eq_comm]

/-- Bytes that are there are read without looking behind them. -/
theorem readExact_append {n : Nat} {stream rest : List Bytes} {bytes : Bytes}
    (h : readExact n stream = .done bytes rest) (more : List Bytes) :
    readExact n (stream ++ more) = .done bytes (rest ++ more) := by
  induction stream generalizing n bytes with
  | nil =>
    obtain _ | n := n
    · cases h
      rw [readExact]
    · cases h
  | cons piece stream ih =>
    obtain _ | n := n
    · cases h
      rfl
    obtain ⟨hpiece, ⟨hlength, later, hread, rfl⟩ | ⟨hlength, rfl, rfl⟩⟩ :=
      readExact_cons_done.mp h
    · exact readExact_cons_done.mpr ⟨hpiece, Or.inl ⟨hlength, later, ih hread, rfl⟩⟩
    · exact readExact_cons_done.mpr ⟨hpiece, Or.inr ⟨hlength, rfl, rfl⟩⟩

/-- What has been read was at the front. -/
theorem flatten_of_readExact {n : Nat} {stream rest : List Bytes} {bytes : Bytes}
    (h : readExact n stream = .done bytes rest) :
    bytes.length = n ∧ stream.flatten = bytes ++ rest.flatten := by
  induction stream generalizing n bytes with
  | nil =>
    obtain _ | n := n
    · cases h
      exact ⟨rfl, rfl⟩
    · cases h
  | cons piece stream ih =>
    obtain _ | n := n
    · cases h
      exact ⟨rfl, rfl⟩
    obtain ⟨-, ⟨hlength, later, hread, rfl⟩ | ⟨hlength, rfl, rfl⟩⟩ := readExact_cons_done.mp h
    · obtain ⟨hlater, hflatten⟩ := ih hread
      refine ⟨?_, ?_⟩
      · rw [List.length_append, hlater]
        omega
      · rw [List.flatten_cons, hflatten, List.append_assoc]
    · refine ⟨?_, ?_⟩
      · rw [List.length_take]
        omega
      · rw [List.flatten_cons, List.flatten_cons, ← List.append_assoc, List.take_append_drop]

/-- If there are not enough bytes, `readExact` waits for more, or fails when the other side has
closed the stream. -/
theorem readExact_of_lt {n : Nat} {stream : List Bytes} (hfails : [] ∉ stream)
    (hn : stream.flatten.length < n) :
    readExact n stream = .waits ∧ readExact n (stream ++ [[]]) = .failed [] := by
  induction stream generalizing n with
  | nil =>
    obtain _ | n := n
    · cases hn
    · exact ⟨rfl, rfl⟩
  | cons piece stream ih =>
    obtain _ | n := n
    · cases hn
    have hpiece : piece ≠ [] := fun heq => hfails (heq ▸ List.mem_cons_self)
    rw [List.flatten_cons, List.length_append] at hn
    obtain ⟨hwaits, hfailed⟩ := ih (fun hmem => hfails (List.mem_cons_of_mem _ hmem))
      (n := n + 1 - piece.length) (by omega)
    refine ⟨?_, ?_⟩
    · rw [readExact, if_neg hpiece, if_pos (by omega), hwaits]
    · rw [List.cons_append, readExact, if_neg hpiece, if_pos (by omega), hfailed]

/-- One `send` may take it all. -/
theorem writeAll_whole (n : Nat) : writeAll n [(n : Int)] = true := by
  cases n with
  | zero => rfl
  | succ n =>
    rw [writeAll, if_neg (by omega), Int.toNat_natCast, Nat.sub_self]
    rfl

end MessageFramer
end MultiPlayerGame
