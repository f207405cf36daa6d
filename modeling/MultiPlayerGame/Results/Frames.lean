import MultiPlayerGame.Server.MessageFramer

/-!
# Frames survive the stream

`MessageFramer::decode` is a decoder in the sense of `Library.Framing`: it takes a message away from
the front of the buffer, and neither a message nor a header that announces too much is undone by
what comes later.  So a receiver that decodes after every piece it receives gets what was sent,
however the stream was cut (`frames_received`).

## Why it holds

A decoder that works on a growing buffer must not change its mind: once it has found a message at
the front, more bytes behind it may not turn it into another one, or into an error.  `decode` looks
at the header and at as many bytes as the header says, and at nothing behind them, which is
`message_append` and `malformed_append`.  With these two laws `Library.Framing` does the rest, by
induction on the pieces.  The buffer of the receiver is at any moment what has been received less
what has been delivered.

A header that announces too much is an error as soon as its fourth byte is there, however the bytes
are cut, and everything delivered before it stays delivered.
-/

namespace MultiPlayerGame
namespace Frames

open Bytes (ascii)
open MessageFramer
open Framing (Front Decoder Drained)

/-- What `decode` finds at the front of a buffer. -/
def front (buffer : Bytes) : Front Bytes UInt8 :=
  let d := decode buffer []
  match d.ending with
  | .returned true => .message d.out d.buffer
  | .returned false => .incomplete
  | .threw _ => .malformed

section Front

variable {buffer : Bytes}

theorem front_of_incomplete (h : Incomplete buffer) : front buffer = .incomplete := by
  rw [front, decode_of_incomplete [] h]

theorem front_of_tooLarge (h : TooLarge buffer) : front buffer = .malformed := by
  obtain ⟨what, hdecode⟩ := decode_of_tooLarge [] h
  rw [front, hdecode]

theorem front_of_complete (h : Complete buffer) : front buffer =
    .message ((buffer.drop headerSize).take (readU32LE buffer).toNat)
      (buffer.drop (headerSize + (readU32LE buffer).toNat)) := by
  rw [front, decode_of_complete [] h]

theorem complete_of_message {a rest : Bytes} (h : front buffer = .message a rest) :
    Complete buffer := by
  rcases front_cases buffer with hincomplete | hlarge | hcomplete
  · rw [front_of_incomplete hincomplete] at h
    cases h
  · rw [front_of_tooLarge hlarge] at h
    cases h
  · exact hcomplete

theorem tooLarge_of_malformed (h : front buffer = .malformed) : TooLarge buffer := by
  rcases front_cases buffer with hincomplete | hlarge | hcomplete
  · rw [front_of_incomplete hincomplete] at h
    cases h
  · exact hlarge
  · rw [front_of_complete hcomplete] at h
    cases h

theorem complete_append (h : Complete buffer) (more : Bytes) : Complete (buffer ++ more) := by
  obtain ⟨hlarge, hlength⟩ := h
  unfold Complete
  rw [readU32LE_append (by omega), List.length_append]
  exact ⟨hlarge, by omega⟩

end Front

section Decoder

variable {buffer : Bytes}

theorem length_of_message {a rest : Bytes} (h : front buffer = .message a rest) :
    rest.length < buffer.length := by
  have hcomplete := complete_of_message h
  have hlength := hcomplete.2
  rw [front_of_complete hcomplete] at h
  cases h
  rw [List.length_drop]
  have hheader : 0 < headerSize := by decide
  omega

theorem message_append {a rest : Bytes} (h : front buffer = .message a rest) (more : Bytes) :
    front (buffer ++ more) = .message a (rest ++ more) := by
  have hcomplete := complete_of_message h
  have hlength := hcomplete.2
  rw [front_of_complete hcomplete] at h
  cases h
  have hheader : headerSize ≤ buffer.length := by omega
  rw [front_of_complete (complete_append hcomplete more), readU32LE_append hheader,
    List.drop_append_of_le_length hlength, List.drop_append_of_le_length hheader,
    List.take_append_of_le_length (by rw [List.length_drop]; omega)]

theorem malformed_append (h : front buffer = .malformed) (more : Bytes) :
    front (buffer ++ more) = .malformed := by
  obtain ⟨hlength, hlarge⟩ := tooLarge_of_malformed h
  refine front_of_tooLarge ⟨?_, ?_⟩
  · rw [List.length_append]
    omega
  · rwa [readU32LE_append hlength]

end Decoder

/-- **The decoder.**  It takes a message from the front, and what it has found does not change when
more bytes arrive. -/
def decoder : Decoder Bytes UInt8 where
  front := front
  shrinks := length_of_message
  message_append more h := message_append h more
  malformed_append more h := malformed_append h more

theorem front_encode {payload : Bytes} (h : payload.length ≤ maxMessageSize.toNat) (rest : Bytes) :
    decoder.front (encode payload ++ rest) = .message payload rest := by
  change front (encode payload ++ rest) = _
  rw [front, decode_encode h]

theorem front_nil : decoder.front [] = .incomplete := rfl

/-- **Frames survive the stream.**  However the frames are cut into pieces, a receiver that decodes
after each piece gets the payloads in order, nothing is thrown and nothing is left.  And on any
buffer at all, a call of `decode` that does not deliver a message changes nothing, and one that does
takes the encoding of it away from the front. -/
theorem frames_received {payloads : List Bytes}
    (hsize : ∀ p ∈ payloads, p.length ≤ maxMessageSize.toNat) {pieces : List Bytes}
    (hcut : pieces.flatten = (payloads.map encode).flatten) :
    decoder.feed [] pieces = ⟨payloads, [], false⟩ ∧
      ∀ buffer out : Bytes,
        ((decode buffer out).ending ≠ .returned true →
          (decode buffer out).buffer = buffer ∧ (decode buffer out).out = out) ∧
        ((decode buffer out).ending = .returned true →
          buffer = encode (decode buffer out).out ++ (decode buffer out).buffer) := by
  constructor
  · have hdrain : decoder.drain ([] ++ pieces.flatten) = ⟨payloads, [], false⟩ := by
      have hframes := decoder.drain_encoded (fun p hp => front_encode (hsize p hp)) []
      rw [List.append_nil, Decoder.drain_of_incomplete front_nil] at hframes
      rw [List.nil_append, hcut, hframes, Drained.after, List.append_nil]
    rw [Decoder.feed_eq_drain front_nil pieces (by rw [hdrain]), hdrain]
  · intro buffer out
    rcases front_cases buffer with hincomplete | hlarge | hcomplete
    · rw [decode_of_incomplete out hincomplete]
      exact ⟨fun _ => ⟨rfl, rfl⟩, fun h => by cases h⟩
    · obtain ⟨what, hdecode⟩ := decode_of_tooLarge out hlarge
      rw [hdecode]
      exact ⟨fun _ => ⟨rfl, rfl⟩, fun h => by cases h⟩
    · refine ⟨fun h => absurd ?_ h, fun _ => eq_encode_of_complete out hcomplete⟩
      rw [decode_of_complete out hcomplete]

/-- Two frames, cut inside a header, inside a payload and between an empty payload's bytes. -/
theorem frames_received_cut :
    decoder.feed [] [[2], [0, 0, 0, 0x61], [0x62, 0, 0], [0, 0]] =
      ⟨[ascii "ab", []], [], false⟩ := by
  have hsize : ∀ p ∈ [ascii "ab", []], p.length ≤ maxMessageSize.toNat := by decide
  exact (frames_received hsize (by decide)).1

end Frames
end MultiPlayerGame
