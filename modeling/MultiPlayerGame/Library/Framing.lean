import Mathlib.Data.List.Basic
import Mathlib.Tactic.Common

/-!
# Cutting messages out of a byte stream

A stream has no boundaries of its own: what one side sends as messages the other side receives in
pieces that were cut anywhere.  A `Decoder` looks at what has been received and either finds that
the front of it is a message, or that it needs more, or that it can never be one.  Its three fields
are what makes this work whatever the pieces are: a message uses something up, and neither a message
nor a malformed front is undone by what comes later.

`drain` calls the decoder until it stops.  `feed` does so after every piece.  `feed_eq_drain` says
that the pieces do not matter: what is delivered, and what is left, is as if all had come at once.
-/

namespace MultiPlayerGame
namespace Framing

variable {α β : Type}

/-- What the front of a buffer is.  There is a message, with what is behind it, or there is not
enough for one yet, or there will never be one. -/
inductive Front (α β : Type) where
  | incomplete
  | malformed
  | message (a : α) (rest : List β)

/-- A decoder for a stream of messages.  Its laws say that what it has found at the front does not
change when more arrives. -/
structure Decoder (α β : Type) where
  front : List β → Front α β
  shrinks : ∀ {b a rest}, front b = .message a rest → rest.length < b.length
  message_append : ∀ {b a rest} (more : List β), front b = .message a rest →
    front (b ++ more) = .message a (rest ++ more)
  malformed_append : ∀ {b} (more : List β), front b = .malformed → front (b ++ more) = .malformed

/-- What has been delivered, what is left in the buffer, and whether the decoder gave up. -/
structure Drained (α β : Type) where
  messages : List α
  rest : List β
  failed : Bool
  deriving DecidableEq

/-- Something delivered before the rest. -/
def Drained.after (as : List α) (r : Drained α β) : Drained α β :=
  { r with messages := as ++ r.messages }

@[simp] theorem Drained.after_nil (r : Drained α β) : r.after [] = r := rfl

theorem Drained.after_after (as bs : List α) (r : Drained α β) :
    (r.after bs).after as = r.after (as ++ bs) := by
  simp [Drained.after]

namespace Decoder

variable (d : Decoder α β)

/-- Call the decoder until it needs more or gives up. -/
def drain (b : List β) : Drained α β :=
  match h : d.front b with
  | .incomplete => ⟨[], b, false⟩
  | .malformed => ⟨[], b, true⟩
  | .message a rest => (drain rest).after [a]
termination_by b.length
decreasing_by exact d.shrinks h

variable {d} {b : List β}

theorem drain_of_incomplete (h : d.front b = .incomplete) : d.drain b = ⟨[], b, false⟩ := by
  rw [drain]
  split
  · rfl
  · rename_i h'
    rw [h] at h'
    cases h'
  · rename_i h'
    rw [h] at h'
    cases h'

theorem drain_of_malformed (h : d.front b = .malformed) : d.drain b = ⟨[], b, true⟩ := by
  rw [drain]
  split
  · rename_i h'
    rw [h] at h'
    cases h'
  · rfl
  · rename_i h'
    rw [h] at h'
    cases h'

theorem drain_of_message {a : α} {rest : List β} (h : d.front b = .message a rest) :
    d.drain b = (d.drain rest).after [a] := by
  rw [drain]
  split
  · rename_i h'
    rw [h] at h'
    cases h'
  · rename_i h'
    rw [h] at h'
    cases h'
  · rename_i h'
    rw [h] at h'
    cases h'
    rfl

/-- **More bytes.**  A decoder that has given up stays there; one that needs more goes on where it
stopped. -/
theorem drain_append (b more : List β) :
    d.drain (b ++ more) = if (d.drain b).failed
      then ⟨(d.drain b).messages, (d.drain b).rest ++ more, true⟩
      else (d.drain ((d.drain b).rest ++ more)).after (d.drain b).messages := by
  induction hn : b.length using Nat.strongRecOn generalizing b with
  | ind n ih =>
    cases h : d.front b with
    | incomplete =>
      rw [drain_of_incomplete h]
      rfl
    | malformed =>
      rw [drain_of_malformed h, drain_of_malformed (d.malformed_append more h)]
      rfl
    | message a rest =>
      have hrest := ih rest.length (hn ▸ d.shrinks h) rest rfl
      rw [drain_of_message h, drain_of_message (d.message_append more h), hrest]
      cases hfailed : (d.drain rest).failed with
      | false => simp [Drained.after, hfailed]
      | true => simp [Drained.after, hfailed]

/-- Append each piece to the buffer and drain it; nothing more is read once the decoder has given
up. -/
def feed (b : List β) : List (List β) → Drained α β
  | [] => ⟨[], b, false⟩
  | piece :: pieces =>
    let r := d.drain (b ++ piece)
    if r.failed then r else (feed r.rest pieces).after r.messages

/-- A buffer that has been drained has no message at its front. -/
theorem front_drain (b : List β) (h : (d.drain b).failed = false) :
    d.front (d.drain b).rest = .incomplete := by
  induction hn : b.length using Nat.strongRecOn generalizing b with
  | ind n ih =>
    cases hfront : d.front b with
    | incomplete =>
      rw [drain_of_incomplete hfront]
      exact hfront
    | malformed =>
      rw [drain_of_malformed hfront] at h
      cases h
    | message a rest =>
      rw [drain_of_message hfront] at h ⊢
      exact ih rest.length (hn ▸ d.shrinks hfront) rest h rfl

/-- **The pieces do not matter**, as long as the decoder does not give up on all of them. -/
theorem feed_eq_drain (hb : d.front b = .incomplete) (pieces : List (List β))
    (h : (d.drain (b ++ pieces.flatten)).failed = false) :
    d.feed b pieces = d.drain (b ++ pieces.flatten) := by
  induction pieces generalizing b with
  | nil =>
    rw [feed, List.flatten_nil, List.append_nil, drain_of_incomplete hb]
  | cons piece pieces ih =>
    rw [List.flatten_cons, ← List.append_assoc] at h ⊢
    rw [drain_append] at h ⊢
    cases hfailed : (d.drain (b ++ piece)).failed with
    | true =>
      rw [hfailed] at h
      cases h
    | false =>
      rw [hfailed] at h
      have hrest : (d.drain ((d.drain (b ++ piece)).rest ++ pieces.flatten)).failed = false := h
      rw [feed, hfailed, ih (front_drain _ hfailed) hrest]
      rfl

/-! ## What an encoder sends -/

/-- **A stream of encoded messages is decoded to these messages.**  What is left of it is what was
behind the last message. -/
theorem drain_encoded {encode : α → List β} {as : List α}
    (hfront : ∀ a ∈ as, ∀ rest, d.front (encode a ++ rest) = .message a rest) (rest : List β) :
    d.drain ((as.map encode).flatten ++ rest) = (d.drain rest).after as := by
  induction as with
  | nil => rfl
  | cons a as ih =>
    obtain ⟨ha, has⟩ := List.forall_mem_cons.mp hfront
    rw [List.map_cons, List.flatten_cons, List.append_assoc, drain_of_message (ha _), ih has,
      Drained.after_after]
    rfl

end Decoder

end Framing
end MultiPlayerGame
