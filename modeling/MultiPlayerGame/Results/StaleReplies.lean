import Mathlib.Logic.Relation
import MultiPlayerGame.Server.RedisCommands

/-!
# Replies that are left behind

The connections of the pool against a server that answers each command with one reply, over sockets
whose `recv`s may fail while bytes are still under way.  A connection is `Settled` if it is closed
or everything has arrived.  Closing it is what the readers do on every failure but one: `hgetall`
keeps it if the failing `recv` is that of a type byte.  It also keeps it when it gives up at an
element that is no string, and the other commands read one line of a reply that may have more.

`Aligned` says when none of this happens, and then a command leaves its connection settled
(`receive_settled`); in a run of such commands every connection of the pool always is
(`never_stale`).  Without it a later command reads the rest of an earlier reply
(`exists_stale_reply`).

## Why it holds

Two things can be wrong with a connection that is put back: bytes that belong to an earlier reply
have arrived, or are still to arrive.  A `RedisConnection` does not tell the two apart, since what
the network will deliver is one list, with the failing `recv`s in it at their places.  `arriving` is
the list without these.  So a connection on which nothing is left behind is one with `arriving =
[]`, and this is what the lemmas about the readers follow: a reader takes a part from the front
(`Reads`), and either it took the whole of what it reads, or a `recv` failed before (`Cut`) and it
has closed the connection.

The loop of `hgetall` is the place where this fails.  It reads a type byte and then the rest of the
element; a failure at the type byte ends the loop without `disconnect`, and so does an element of
another type.  `Walks` follows the loop along the elements that the reply really has.  It forbids
the first, and allows the second only where the element is the end of the reply.

## The run

The pool may have any number of holders.  `Clean` is kept by each of the three steps: `acquire`
hands out a connection that was clean or a new one, `release` puts back what a command has left, and
a command on a fresh connection leaves it fresh (`perform_fresh`), whatever it was asked and
answered.  The condition is on the steps of the run only, never on what the pool has come to.
-/

namespace MultiPlayerGame
namespace StaleReplies

open Bytes (ascii digits decimal)
open RedisConnection (bulkTail takeBytes takeLine received wire)
open Redis (Request Answer)

/-! ## Replies -/

/-- A reply. -/
inductive Resp where
  | simple (line : Bytes)
  | error (line : Bytes)
  | integer (n : Int)
  | bulk (s : Bytes)
  | null
  | array (items : List Resp)
  | nullArray

namespace Resp

/-- The type byte. -/
def type : Resp → UInt8
  | simple _ => 0x2B
  | error _ => 0x2D
  | integer _ => 0x3A
  | bulk _ | null => 0x24
  | array _ | nullArray => 0x2A

/-- What stands between the type byte and the end of the first line. -/
def head : Resp → Bytes
  | simple line | error line => line
  | integer n => decimal n
  | bulk s => digits s.length
  | array items => digits items.length
  | null | nullArray => ascii "-1"

mutual

/-- What comes after the first line. -/
def body : Resp → Bytes
  | bulk s => s ++ ascii "\r\n"
  | array items => bytesAll items
  | _ => []

/-- Several replies, one after another. -/
def bytesAll : List Resp → Bytes
  | [] => []
  | r :: rs => r.type :: r.head ++ ascii "\r\n" ++ body r ++ bytesAll rs

end

/-- The reply as it is sent. -/
def bytes (r : Resp) : Bytes := r.type :: r.head ++ ascii "\r\n" ++ r.body

mutual

/-- No line has a line break in it.  So a reader that looks for the end of a line finds the end of
this one. -/
def WellFormed : Resp → Prop
  | simple line | error line => 0x0D ∉ line ∧ 0x0A ∉ line
  | array items => WellFormedAll items
  | _ => True

def WellFormedAll : List Resp → Prop
  | [] => True
  | r :: rs => WellFormed r ∧ WellFormedAll rs

end

theorem WellFormed.cr_notMem_head {r : Resp} (h : r.WellFormed) : 0x0D ∉ r.head := by
  have hdigits := RedisConnection.cr_notMem_digits
  cases r with
  | simple line | error line =>
    rw [WellFormed] at h
    exact h.1
  | integer n =>
    rw [head]
    unfold Bytes.decimal
    split
    · exact hdigits _
    · exact List.not_mem_cons_of_ne_of_not_mem (by decide) (hdigits _)
  | bulk s => exact hdigits _
  | array items => exact hdigits _
  | null | nullArray => rw [head]; decide

end Resp

/-! ## What arrives -/

/-- The bytes that arrive, failing `recv`s or not.  They are what will be found on the connection
sooner or later, by this reader or by the next one. -/
def arriving (arrivals : List (Option UInt8)) : Bytes := arrivals.filterMap id

@[simp] theorem arriving_nil : arriving [] = [] := rfl

@[simp] theorem arriving_append (l l' : List (Option UInt8)) :
    arriving (l ++ l') = arriving l ++ arriving l' := List.filterMap_append

@[simp] theorem arriving_map (bs : Bytes) : arriving (bs.map some) = bs := by
  simp [arriving, List.filterMap_map]

/-- A `recv` fails before the bytes have been read. -/
def Cut (block : Bytes) (arrivals : List (Option UInt8)) : Prop :=
  ∃ before after later, block = before ++ after ∧ after ≠ [] ∧
    arrivals = before.map some ++ none :: later

/-- Bytes that are going to arrive are read, or a `recv` fails before. -/
theorem cut_or_read {block more : Bytes} {arrivals : List (Option UInt8)}
    (h : arriving arrivals = block ++ more) : Cut block arrivals ∨
      ∃ later, arrivals = block.map some ++ later ∧ arriving later = more := by
  induction block generalizing arrivals with
  | nil => exact Or.inr ⟨arrivals, rfl, h⟩
  | cons b block ih =>
    cases arrivals with
    | nil => cases h
    | cons found arrivals =>
      cases found with
      | none => exact Or.inl ⟨[], b :: block, arrivals, rfl, List.cons_ne_nil _ _, rfl⟩
      | some b' =>
        obtain ⟨hb, hrest⟩ := List.cons.inj h
        subst hb
        rcases ih hrest with
          ⟨before, after, later, hblock, hafter, harrivals⟩ | ⟨later, hlater, hmore⟩
        · exact Or.inl ⟨b' :: before, after, later, by rw [hblock]; rfl, hafter,
            by rw [harrivals]; rfl⟩
        · exact Or.inr ⟨later, by rw [hlater]; rfl, hmore⟩

theorem cut_append {a b : Bytes} {arrivals : List (Option UInt8)} (h : Cut (a ++ b) arrivals) :
    Cut a arrivals ∨ ∃ later, arrivals = a.map some ++ later ∧ Cut b later := by
  obtain ⟨before, after, later, hblock, hafter, rfl⟩ := h
  rcases List.append_eq_append_iff.mp hblock with ⟨c, rfl, rfl⟩ | ⟨c, rfl, rfl⟩
  · exact Or.inr ⟨c.map some ++ none :: later, by simp, c, after, later, rfl, hafter, rfl⟩
  · cases c with
    | nil =>
      exact Or.inr ⟨none :: later, by simp, [], b, later, rfl, by simpa using hafter, rfl⟩
    | cons x c => exact Or.inl ⟨before, x :: c, later, rfl, List.cons_ne_nil _ _, rfl⟩

theorem takeBytes_cut {block : Bytes} {arrivals : List (Option UInt8)} (h : Cut block arrivals) :
    (takeBytes block.length arrivals).1 = none := by
  obtain ⟨before, after, later, rfl, hafter, rfl⟩ := h
  obtain ⟨b, bs, rfl⟩ := List.exists_cons_of_ne_nil hafter
  induction before with
  | nil => rfl
  | cons b' before ih =>
    rw [List.cons_append, List.length_cons, List.map_cons, List.cons_append, takeBytes]
    rcases hrest : takeBytes (before ++ b :: bs).length (before.map some ++ none :: later) with
      ⟨_ | out, rest⟩
    · rfl
    · rw [hrest] at ih
      cases ih

theorem takeLine_cut {line : Bytes} {arrivals : List (Option UInt8)}
    (h : Cut (line ++ ascii "\r\n") arrivals) (hline : 0x0D ∉ line) (before : Bytes) :
    (takeLine before arrivals).1 = none := by
  have hcrlf : ascii "\r\n" = [0x0D, 0x0A] := by decide
  rw [hcrlf] at h
  induction line generalizing arrivals before with
  | nil =>
    obtain ⟨bs, after, later, hblock, hafter, rfl⟩ := h
    rcases bs with _ | ⟨b, _ | ⟨b', bs⟩⟩
    · rfl
    · cases hblock
      rfl
    · injection hblock with _ hblock
      injection hblock with _ hblock
      exact absurd (List.append_eq_nil_iff.mp hblock.symm).2 hafter
  | cons c line ih =>
    have hc : c ≠ 0x0D := fun heq => hline (heq ▸ List.mem_cons_self)
    obtain ⟨bs, after, later, hblock, hafter, rfl⟩ := h
    cases bs with
    | nil => rfl
    | cons b bs =>
      obtain ⟨rfl, hrest⟩ := List.cons.inj hblock
      rw [List.map_cons, List.cons_append, RedisConnection.takeLine_byte hc]
      exact ih ⟨bs, after, later, hrest, hafter, rfl⟩
        (fun hmem => hline (List.mem_cons_of_mem _ hmem)) _

/-! ## What a reader leaves -/

/-- The connection is closed or everything has arrived. -/
def Settled (c : RedisConnection) : Prop := c.connected = false ∨ arriving c.arrivals = []

/-- A reader may close the connection and takes what it reads from the front. -/
def Reads (c c' : RedisConnection) : Prop :=
  (c.connected = false → c'.connected = false) ∧ c'.arrivals <:+ c.arrivals

theorem Reads.refl (c : RedisConnection) : Reads c c := ⟨id, List.suffix_rfl⟩

theorem Reads.trans {c c' c'' : RedisConnection} (h : Reads c c') (h' : Reads c' c'') :
    Reads c c'' := ⟨fun hc => h'.1 (h.1 hc), h'.2.trans h.2⟩

theorem Settled.of_reads {c c' : RedisConnection} (h : Settled c) (hreads : Reads c c') :
    Settled c' := by
  refine h.imp hreads.1 fun hnone => ?_
  obtain ⟨l, hl⟩ := hreads.2
  rw [← hl, arriving_append] at hnone
  exact (List.append_eq_nil_iff.mp hnone).2

theorem suffix_takeBytes (n : ℕ) (arrivals : List (Option UInt8)) :
    (takeBytes n arrivals).2 <:+ arrivals := by
  induction n generalizing arrivals with
  | zero => exact List.suffix_rfl
  | succ n ih =>
    rcases arrivals with _ | ⟨_ | b, arrivals⟩
    · exact List.suffix_rfl
    · exact List.suffix_cons _ _
    · have hrest := ih arrivals
      rw [takeBytes]
      generalize takeBytes n arrivals = r at hrest ⊢
      obtain ⟨_ | out, rest⟩ := r
      · exact hrest.trans (List.suffix_cons _ _)
      · exact hrest.trans (List.suffix_cons _ _)

theorem suffix_takeLine (before : Bytes) (arrivals : List (Option UInt8)) :
    (takeLine before arrivals).2 <:+ arrivals := by
  induction arrivals generalizing before with
  | nil => exact List.suffix_rfl
  | cons found arrivals ih =>
    rcases found with _ | c
    · exact List.suffix_cons _ _
    · by_cases hc : c = 0x0D
      · subst hc
        rw [RedisConnection.takeLine_cr]
        split
        · exact (List.suffix_cons _ _).trans (List.suffix_cons _ _)
        · exact (List.suffix_cons _ _).trans (List.suffix_cons _ _)
        · exact List.suffix_cons _ _
      · rw [RedisConnection.takeLine_byte hc]
        exact (ih _).trans (List.suffix_cons _ _)

section Readers

variable {c : RedisConnection}

theorem received_reads {α : Type} {r : Option α × List (Option UInt8)}
    (h : r.2 <:+ c.arrivals) : Reads c (received r c).2 := by
  rcases r with ⟨_ | a, rest⟩
  · exact ⟨fun _ => rfl, h⟩
  · exact ⟨id, h⟩

theorem readLine_reads (c : RedisConnection) : Reads c c.readLine.2 :=
  received_reads (suffix_takeLine _ _)

/-- What `readBulkString` does after its line. -/
theorem readBulkString_after {line : Bytes} {c₁ : RedisConnection}
    (h : c.readLine = (some line, c₁)) : Reads c₁ c.readBulkString.2 := by
  rw [RedisConnection.readBulkString, h]
  simp only
  rcases stoi line with _ | len
  · exact Reads.refl c₁
  simp only
  split
  · exact Reads.refl c₁
  have hbody : Reads c₁ (received (takeBytes len.toInt.toNat c₁.arrivals) c₁).2 :=
    received_reads (suffix_takeBytes _ _)
  generalize received (takeBytes len.toInt.toNat c₁.arrivals) c₁ = r at hbody ⊢
  obtain ⟨_ | out, c₂⟩ := r
  · exact hbody
  have hcrlf : Reads c₁ (received (takeBytes 2 c₂.arrivals) c₂).2 :=
    hbody.trans (received_reads (suffix_takeBytes _ _))
  simp only
  generalize received (takeBytes 2 c₂.arrivals) c₂ = r at hcrlf ⊢
  obtain ⟨_ | _, c₃⟩ := r
  · exact hcrlf
  · exact hcrlf

theorem readBulkString_reads (c : RedisConnection) : Reads c c.readBulkString.2 := by
  have hline := readLine_reads c
  rcases hread : c.readLine with ⟨_ | line, c₁⟩
  · rw [hread] at hline
    rw [RedisConnection.readBulkString, hread]
    exact hline
  · rw [hread] at hline
    exact hline.trans (readBulkString_after hread)

theorem readElement_reads (c : RedisConnection) : Reads c c.readElement.2 := by
  have hsuffix := suffix_takeBytes 1 c.arrivals
  unfold RedisConnection.readElement
  generalize takeBytes 1 c.arrivals = r at hsuffix ⊢
  obtain ⟨_ | _, rest⟩ := r
  · exact ⟨id, hsuffix⟩
  · have htype : Reads c { c with arrivals := rest } := ⟨id, hsuffix⟩
    exact htype.trans (readBulkString_reads _)

theorem readPairs_reads (n : ℕ) (outMap : KeyedMap Bytes Bytes) (c : RedisConnection) :
    Reads c (RedisConnection.readPairs n outMap c).2 := by
  induction n generalizing outMap c with
  | zero => exact Reads.refl c
  | succ n ih =>
    have hkey := readElement_reads c
    unfold RedisConnection.readPairs
    generalize c.readElement = r at hkey ⊢
    obtain ⟨_ | _ | k, c₁⟩ := r
    · exact hkey
    · exact hkey
    have hvalue : Reads c c₁.readElement.2 := hkey.trans (readElement_reads c₁)
    simp only
    generalize c₁.readElement = r at hvalue ⊢
    obtain ⟨_ | _ | v, c₂⟩ := r
    · exact hvalue
    · exact hvalue
    · exact hvalue.trans (ih _ _)

/-- What the loop does after its first element, and after its second. -/
theorem readPairs_after (n : ℕ) (outMap : KeyedMap Bytes Bytes) (c : RedisConnection) :
    Reads c.readElement.2 (RedisConnection.readPairs (n + 1) outMap c).2 := by
  unfold RedisConnection.readPairs
  rcases c.readElement with ⟨_ | _ | k, c₁⟩
  · exact Reads.refl c₁
  · exact Reads.refl c₁
  have hvalue := readElement_reads c₁
  simp only
  generalize c₁.readElement = r at hvalue ⊢
  obtain ⟨_ | _ | v, c₂⟩ := r
  · exact hvalue
  · exact hvalue
  · exact hvalue.trans (readPairs_reads _ _ _)

theorem readPairs_after_key {n : ℕ} {outMap : KeyedMap Bytes Bytes} {k : Bytes}
    {c₁ : RedisConnection} (h : c.readElement = (.ok (some k), c₁)) :
    Reads c₁.readElement.2 (RedisConnection.readPairs (n + 1) outMap c).2 := by
  rw [RedisConnection.readPairs, h]
  simp only
  rcases c₁.readElement with ⟨_ | _ | v, c₂⟩
  · exact Reads.refl c₂
  · exact Reads.refl c₂
  · exact readPairs_reads _ _ _

/-- A line that is cut closes the connection. -/
theorem readLine_cut {line : Bytes} (h : Cut (line ++ ascii "\r\n") c.arrivals)
    (hline : 0x0D ∉ line) : c.readLine.1 = none ∧ c.readLine.2.connected = false := by
  have hnone := takeLine_cut h hline []
  unfold RedisConnection.readLine
  generalize takeLine [] c.arrivals = r at hnone ⊢
  obtain ⟨_ | l, rest⟩ := r
  · exact ⟨rfl, rfl⟩
  · cases hnone

theorem readBulkString_head_cut {line : Bytes} (h : Cut (line ++ ascii "\r\n") c.arrivals)
    (hline : 0x0D ∉ line) : c.readBulkString.2.connected = false := by
  obtain ⟨hnone, hclosed⟩ := readLine_cut h hline
  unfold RedisConnection.readBulkString
  rcases hread : c.readLine with ⟨_ | l, c₁⟩
  · rw [hread] at hclosed
    exact hclosed
  · rw [hread] at hnone
    cases hnone

/-- A string that is cut closes the connection. -/
theorem readBulkString_cut {s : Bytes} (hs : s.length < 2 ^ 31)
    (h : Cut (bulkTail s) c.arrivals) : c.readBulkString.2.connected = false := by
  have hcr := RedisConnection.cr_notMem_digits s.length
  have hlen := RedisConnection.toInt_ofInt hs
  have hnonneg : ¬ Int32.ofInt s.length < 0 := by
    rw [Int32.lt_iff_toInt_lt, hlen]
    simp
  rw [bulkTail, List.append_assoc] at h
  rcases cut_append h with hline | ⟨later, harrivals, h⟩
  · exact readBulkString_head_cut hline hcr
  rw [RedisConnection.readBulkString, RedisConnection.readLine_line hcr harrivals]
  simp only [RedisConnection.stoi_digits hs, hnonneg, if_false, hlen, Int.toNat_natCast]
  rcases cut_append h with hbody | ⟨later, rfl, hcrlf⟩
  · have hnone := takeBytes_cut hbody
    generalize takeBytes s.length later = r at hnone ⊢
    obtain ⟨_ | out, rest⟩ := r
    · rfl
    · cases hnone
  · have hnone : (takeBytes 2 later).1 = none := takeBytes_cut hcrlf
    rw [RedisConnection.takeBytes_append]
    simp only [received]
    generalize takeBytes 2 later = r at hnone ⊢
    obtain ⟨_ | out, rest⟩ := r
    · rfl
    · cases hnone

end Readers

/-! ## When a command leaves nothing behind -/

/-- The elements of an array, and what `recv` finds of them.  If there are elements left, the type
byte of the next one is found.  After it a `recv` fails in the rest of the first line of the
element, whatever kind of element it is; or the element is a string, and a `recv` fails in its text
or all of it is found and the elements after it go on in the same way; or the element has one line
only, and it is the last. -/
def Walks : List Resp → List (Option UInt8) → Prop
  | [], _ => True
  | item :: items, arrivals => ∃ found, arrivals = some item.type :: found ∧
    (Cut (item.head ++ ascii "\r\n") found ∨ match item with
      | .bulk s => s.length < 2 ^ 31 ∧ (Cut (bulkTail s) found ∨
          ∃ later, found = (bulkTail s).map some ++ later ∧ Walks items later)
      | item => item.body = [] ∧ items = [])

/-- When a command gets its reply in such a way that it closes the connection or reads the reply to
its end: a `recv` fails in the first line, or the reply has only one line, or it is a string and the
command expects one, or it is an array, all of whose first line is found, the command is `HGETALL`,
and its loop gets through the elements or stops at one where the connection is closed (`Walks`). -/
def Aligned (r : Request) (reply : Resp) (arrivals : List (Option UInt8)) : Prop :=
  Cut (reply.type :: reply.head ++ ascii "\r\n") arrivals ∨ reply.body = [] ∨
    match r, reply with
    | .get _, .bulk s | .hget _ _, .bulk s => s.length < 2 ^ 31
    | .hgetall _, .array items => items.length < 2 ^ 31 ∧
        ∃ later, arrivals = (reply.type :: reply.head ++ ascii "\r\n").map some ++ later ∧
          Walks items later
    | _, _ => False

section Command

variable {c : RedisConnection} {r : Request} {reply : Resp}

/-- The first byte is the type byte, and the rest of the line comes after it. -/
theorem type_of_cut (h : Cut (reply.type :: reply.head ++ ascii "\r\n") c.arrivals) :
    (∃ later, c.arrivals = none :: later) ∨
      ∃ found, c.arrivals = some reply.type :: found ∧ Cut (reply.head ++ ascii "\r\n") found := by
  obtain ⟨before, after, later, hblock, hafter, harrivals⟩ := h
  cases before with
  | nil => exact Or.inl ⟨later, harrivals⟩
  | cons b before =>
    obtain ⟨rfl, hrest⟩ := List.cons.inj hblock
    exact Or.inr ⟨_, harrivals, before, after, later, hrest, hafter, rfl⟩

theorem cr_notMem_line (hwf : reply.WellFormed) : 0x0D ∉ reply.type :: reply.head := by
  refine List.not_mem_cons_of_ne_of_not_mem (fun h => ?_) hwf.cr_notMem_head
  cases reply with
  | _ => cases h

/-- **A first line that is cut closes the connection**, whatever the command.  Every reader gives
the connection up if a `recv` fails in its first line. -/
theorem receive_cut (hwf : reply.WellFormed)
    (h : Cut (reply.type :: reply.head ++ ascii "\r\n") c.arrivals) :
    (r.receive c).2.connected = false := by
  have hline := (readLine_cut h (cr_notMem_line hwf)).2
  have htyped : ∀ found, Cut (reply.head ++ ascii "\r\n") found →
      ({ c with arrivals := found } : RedisConnection).readBulkString.2.connected = false ∧
      ({ c with arrivals := found } : RedisConnection).readLine.2.connected = false :=
    fun found hcut => ⟨readBulkString_head_cut hcut hwf.cr_notMem_head,
      (readLine_cut hcut hwf.cr_notMem_head).2⟩
  cases r with
  | ping | set | del | hset => exact hline
  | get | hget =>
    rw [Request.receive]
    rcases type_of_cut h with ⟨later, harrivals⟩ | ⟨found, harrivals, hcut⟩
    · rw [harrivals]
      rfl
    · obtain ⟨hbulk, hrest⟩ := htyped found hcut
      rw [harrivals]
      simp only [takeBytes, received]
      split
      · exact hbulk
      · exact hrest
  | hgetall =>
    rw [Request.receive]
    rcases type_of_cut h with ⟨later, harrivals⟩ | ⟨found, harrivals, hcut⟩
    · rw [harrivals]
      rfl
    · obtain ⟨hnone, hrest⟩ := readLine_cut (c := { c with arrivals := found }) hcut
        hwf.cr_notMem_head
      rw [harrivals]
      simp only [takeBytes, received]
      split
      · exact hrest
      · rcases hread : ({ c with arrivals := found } : RedisConnection).readLine with ⟨_ | l, c₁⟩
        · rw [hread] at hrest
          exact hrest
        · rw [hread] at hnone
          cases hnone

/-- **A command reads at least the first line.**  None of them returns before it has read that far,
unless it has closed the connection. -/
theorem receive_first (hwf : reply.WellFormed) {later : List (Option UInt8)}
    (h : c.arrivals = (reply.type :: reply.head ++ ascii "\r\n").map some ++ later) :
    Reads { c with arrivals := later } (r.receive c).2 := by
  have hline := RedisConnection.readLine_line (cr_notMem_line hwf) h
  have harrivals : c.arrivals =
      some reply.type :: ((reply.head ++ ascii "\r\n").map some ++ later) := h
  have hrest := RedisConnection.readLine_line
    (c := { c with arrivals := (reply.head ++ ascii "\r\n").map some ++ later })
    hwf.cr_notMem_head rfl
  have hwhole : Reads { c with arrivals := later } c.readLine.2 := by
    rw [hline]
    exact Reads.refl _
  cases r with
  | ping | set | del | hset => exact hwhole
  | get | hget =>
    rw [Request.receive, harrivals]
    simp only [takeBytes, received]
    split
    · exact readBulkString_after hrest
    · rw [hrest]
      exact Reads.refl _
  | hgetall =>
    rw [Request.receive, harrivals]
    simp only [takeBytes, received]
    split
    · rw [hrest]
      exact Reads.refl _
    · rw [hrest]
      simp only
      rcases stoi reply.head with _ | count
      · exact Reads.refl _
      simp only
      split
      · exact Reads.refl _
      · exact readPairs_reads _ _ _

/-- A string is read to its end, or the connection is closed. -/
theorem readBulkString_settled {s : Bytes} (hs : s.length < 2 ^ 31)
    (h : arriving c.arrivals = bulkTail s) : Settled c.readBulkString.2 := by
  rcases cut_or_read (h.trans (List.append_nil _).symm) with hcut | ⟨later, hlater, hnone⟩
  · exact Or.inl (readBulkString_cut hs hcut)
  · rw [RedisConnection.readBulkString_bulk hs hlater]
    exact Or.inr hnone

/-- **One element of an array.**  It is read to its end if it is a string that arrives, and
otherwise the loop ends with it. -/
theorem readElement_walks {item : Resp} {items : List Resp} (hwf : item.WellFormed)
    (harriving : arriving c.arrivals = Resp.bytesAll (item :: items))
    (h : Walks (item :: items) c.arrivals) : Settled c.readElement.2 ∨
      ∃ s later, c.readElement = (.ok (some s), { c with arrivals := later }) ∧
        arriving later = Resp.bytesAll items ∧ Walks items later := by
  obtain ⟨found, harrivals, h⟩ := h
  have helement : c.readElement = RedisConnection.readBulkString { c with arrivals := found } := by
    rw [RedisConnection.readElement, harrivals]
    rfl
  have hfound : arriving found =
      item.head ++ ascii "\r\n" ++ (item.body ++ Resp.bytesAll items) := by
    rw [harrivals, Resp.bytesAll] at harriving
    have htail := (List.cons.inj harriving).2
    rw [← List.append_assoc]
    exact htail
  rw [helement]
  rcases h with hcut | h
  · exact Or.inl (Or.inl (readBulkString_head_cut hcut hwf.cr_notMem_head))
  have hlast : item.body = [] → items = [] → Settled
      ({ c with arrivals := found } : RedisConnection).readBulkString.2 := by
    intro hbody hitems
    rcases cut_or_read hfound with hcut | ⟨later, hlater, hmore⟩
    · exact Or.inl (readBulkString_head_cut hcut hwf.cr_notMem_head)
    · have hnone : arriving later = [] := by
        rw [hmore, hbody, hitems]
        rfl
      have hsettled : Settled { c with arrivals := later } := Or.inr hnone
      exact hsettled.of_reads
        (readBulkString_after (RedisConnection.readLine_line hwf.cr_notMem_head hlater))
  cases item with
  | bulk s =>
    obtain ⟨hs, hcut | ⟨later, hlater, hrest⟩⟩ := h
    · exact Or.inl (Or.inl (readBulkString_cut hs hcut))
    · refine Or.inr ⟨s, later, RedisConnection.readBulkString_bulk hs hlater, ?_, hrest⟩
      rw [hlater, arriving_append, arriving_map] at hfound
      have hall : bulkTail s ++ arriving later = bulkTail s ++ Resp.bytesAll items := by
        rw [hfound]
        simp [bulkTail, Resp.head, Resp.body]
      exact List.append_cancel_left hall
  | _ => exact Or.inl (hlast h.1 h.2)

/-- **The loop of `hgetall`.**  By induction on the pairs to come, two elements at a time. -/
theorem readPairs_settled (n : ℕ) (outMap : KeyedMap Bytes Bytes) {items : List Resp}
    (hn : n = (items.length + 1) / 2) (hwf : Resp.WellFormedAll items)
    (harriving : arriving c.arrivals = Resp.bytesAll items) (h : Walks items c.arrivals) :
    Settled (RedisConnection.readPairs n outMap c).2 := by
  induction n generalizing items outMap c with
  | zero =>
    cases items with
    | nil => exact Or.inr harriving
    | cons item items =>
      rw [List.length_cons] at hn
      omega
  | succ n ih =>
    cases items with
    | nil => cases hn
    | cons item items =>
      rw [Resp.WellFormedAll] at hwf
      rcases readElement_walks hwf.1 harriving h with hsettled | ⟨k, later, hkey, hlater, hwalks⟩
      · exact hsettled.of_reads (readPairs_after n outMap c)
      have hafter : Reads _ (RedisConnection.readPairs (n + 1) outMap c).2 :=
        readPairs_after_key hkey
      cases items with
      | nil =>
        have hsettled : Settled { c with arrivals := later } := Or.inr hlater
        exact (hsettled.of_reads (readElement_reads _)).of_reads hafter
      | cons item' items =>
        have hwf' := hwf.2
        rw [Resp.WellFormedAll] at hwf'
        rcases readElement_walks (c := { c with arrivals := later }) hwf'.1 hlater hwalks with
          hsettled | ⟨v, later', hvalue, hlater', hwalks'⟩
        · exact hsettled.of_reads hafter
        · rw [RedisConnection.readPairs, hkey]
          simp only [hvalue]
          have hcount : n = (items.length + 1) / 2 := by
            rw [List.length_cons, List.length_cons] at hn
            omega
          exact ih _ hcount hwf'.2 hlater' hwalks'

/-- **What a command leaves behind.**  The connection is closed, or the whole reply has been read.
-/
theorem receive_settled (hwf : reply.WellFormed) (harriving : arriving c.arrivals = reply.bytes)
    (h : Aligned r reply c.arrivals) : Settled (r.receive c).2 := by
  rcases cut_or_read harriving with hcut | ⟨later, hlater, hbody⟩
  · exact Or.inl (receive_cut hwf hcut)
  rcases h with hcut | hone | hspecial
  · exact Or.inl (receive_cut hwf hcut)
  · have hsettled : Settled { c with arrivals := later } := Or.inr (hbody.trans hone)
    exact hsettled.of_reads (receive_first hwf hlater)
  -- a string that is expected, or the array of `HGETALL`
  have hstring : ∀ s : Bytes, s.length < 2 ^ 31 → reply = .bulk s →
      Settled ((Request.get []).receive c).2 := by
    rintro s hs rfl
    have hdollar : ascii "$" = [0x24] := by decide
    have harrivals : c.arrivals =
        some 0x24 :: ((digits s.length ++ ascii "\r\n").map some ++ later) := hlater
    have htail : arriving ((digits s.length ++ ascii "\r\n").map some ++ later) = bulkTail s := by
      rw [harrivals] at harriving
      have htail := (List.cons.inj harriving).2
      refine htail.trans ?_
      simp [bulkTail, Resp.head, Resp.body]
    rw [Request.receive, harrivals]
    simp only [takeBytes, received, hdollar, if_true]
    exact readBulkString_settled hs htail
  cases r with
  | get key =>
    cases reply with
    | bulk s => exact hstring s hspecial rfl
    | _ => exact False.elim hspecial
  | hget key field =>
    cases reply with
    | bulk s => exact hstring s hspecial rfl
    | _ => exact False.elim hspecial
  | hgetall key =>
    cases reply with
    | array items =>
      obtain ⟨hcount, later, hlater, hwalks⟩ := hspecial
      have hstar : ascii "*" = [0x2A] := by decide
      have harrivals : c.arrivals =
          some 0x2A :: ((digits items.length ++ ascii "\r\n").map some ++ later) := hlater
      have hitems : arriving later = Resp.bytesAll items := by
        rw [hlater, arriving_append, arriving_map] at harriving
        exact List.append_cancel_left harriving
      have hline := RedisConnection.readLine_line
        (c := { c with arrivals := (digits items.length ++ ascii "\r\n").map some ++ later })
        (RedisConnection.cr_notMem_digits _) rfl
      have hlen := RedisConnection.toInt_ofInt hcount
      rw [Resp.WellFormed] at hwf
      rw [Request.receive, harrivals]
      simp only [takeBytes, received, hstar, ne_eq, not_true_eq_false, if_false, hline,
        RedisConnection.stoi_digits hcount]
      split
      · rename_i hle
        rw [Int32.le_iff_toInt_le, hlen] at hle
        have hnil : items = [] := List.length_eq_zero_iff.mp (by simpa using hle)
        refine Or.inr (hitems.trans ?_)
        rw [hnil]
        rfl
      · rw [hlen, Int.toNat_natCast]
        exact readPairs_settled _ _ rfl hwf hitems hwalks
    | _ => exact False.elim hspecial
  | _ => exact False.elim hspecial

end Command

/-! ## The pool -/

/-- A connection, and the bytes that are still to arrive on it. -/
structure Pooled where
  connected : Bool := false
  unread : Bytes := []

/-- What is left of a connection when a command has returned. -/
def pooled (c : RedisConnection) : Pooled :=
  ⟨c.connected, if c.connected then arriving c.arrivals else []⟩

/-- The connections at rest, and those that have been acquired. -/
structure Pool where
  available : List Pooled := []
  inUse : ℕ → Option Pooled := fun _ => none

/-- What `net` does while a command with this reply runs on a connection: bytes that are under way
arrive first, on a new socket only the reply. -/
structure Serves (conn : Pooled) (reply : Resp) (net : RedisConnection) : Prop where
  wellFormed : reply.WellFormed
  connected : net.connected = conn.connected
  arriving : arriving net.arrivals = (if conn.connected then conn.unread else []) ++ reply.bytes

/-- **One step**: `acquire`, which may or may not succeed to connect, a command that meets the
condition, and the end of a `PooledConnection`. -/
inductive Step (m_poolSize : ℕ) (Condition : Request → Resp → RedisConnection → Prop) :
    Pool → Pool → Prop where
  | acquire (p : Pool) (id : ℕ) (connects : Bool) (free : p.inUse id = none) :
      Step m_poolSize Condition p
        { available := p.available.dropLast
          inUse := Function.update p.inUse id
            (some (if (p.available.getLast?.getD {}).connected then p.available.getLast?.getD {}
              else { connected := connects })) }
  | command (p : Pool) (id : ℕ) {conn : Pooled} (r : Request) {reply : Resp}
      {net : RedisConnection} (acquired : p.inUse id = some conn) (serves : Serves conn reply net)
      (holds : Condition r reply net) :
      Step m_poolSize Condition p
        { p with inUse := Function.update p.inUse id (some (pooled (r.perform net).2)) }
  | release (p : Pool) (id : ℕ) {conn : Pooled} (acquired : p.inUse id = some conn) :
      Step m_poolSize Condition p
        { available := if p.available.length < m_poolSize then p.available ++ [conn]
            else p.available
          inUse := Function.update p.inUse id none }

/-- Pools that a run can come to. -/
def Reachable (m_poolSize : ℕ) (Condition : Request → Resp → RedisConnection → Prop) (p : Pool) :
    Prop := Relation.ReflTransGen (Step m_poolSize Condition) {} p

/-- If the command could be sent, its reply is aligned with its readers. -/
def SentAligned (r : Request) (reply : Resp) (net : RedisConnection) : Prop :=
  (net.sendCommand r.args).1 = true → Aligned r reply net.arrivals

/-- The connection is closed, or nothing is under way. -/
def Fresh (conn : Pooled) : Prop := conn.connected = false ∨ conn.unread = []

/-- Every connection is fresh.  Those at rest and those that somebody holds. -/
structure Clean (p : Pool) : Prop where
  available : ∀ conn ∈ p.available, Fresh conn
  inUse : ∀ id, ∀ conn ∈ p.inUse id, Fresh conn

theorem sendCommand_cases (args : List Bytes) (c : RedisConnection) :
    (c.sendCommand args).1 = false ∧ (c.sendCommand args).2.connected = false ∨
      (c.sendCommand args).1 = true ∧ (c.sendCommand args).2.arrivals = c.arrivals := by
  have harrivals := c.connect_fields.2
  have hclosed : c.connect.1 = false → c.connect.2.connected = false := by
    unfold RedisConnection.connect
    split
    · intro h
      cases h
    · rename_i hno
      split
      · exact id
      · exact fun _ => by simpa using hno
  unfold RedisConnection.sendCommand
  generalize c.connect = r at harrivals hclosed ⊢
  obtain ⟨_ | _, c₁⟩ := r
  · exact Or.inl ⟨rfl, hclosed rfl⟩
  · simp only
    split
    · exact Or.inr ⟨rfl, harrivals⟩
    · exact Or.inl ⟨rfl, rfl⟩

/-- **A command on a fresh connection leaves it fresh.**  If nothing is sent the connection is
closed, and if something is, its reply is read or cut. -/
theorem perform_fresh {conn : Pooled} {r : Request} {reply : Resp} {net : RedisConnection}
    (hserves : Serves conn reply net) (hfresh : Fresh conn) (h : SentAligned r reply net) :
    Fresh (pooled (r.perform net).2) := by
  have hbytes : arriving net.arrivals = reply.bytes := by
    rw [hserves.arriving]
    rcases hfresh with hclosed | hnone
    · rw [hclosed]
      rfl
    · rw [hnone, ite_self, List.nil_append]
  have hsettled : Settled (r.perform net).2 := by
    rw [Request.perform_eq]
    rcases sendCommand_cases r.args net with ⟨hfailed, hclosed⟩ | ⟨hsent, harrivals⟩
    · generalize net.sendCommand r.args = sent at hfailed hclosed ⊢
      obtain ⟨_ | _, c⟩ := sent
      · exact Or.inl hclosed
      · cases hfailed
    · have haligned := h hsent
      rw [← harrivals] at haligned hbytes
      generalize net.sendCommand r.args = sent at hsent haligned hbytes ⊢
      obtain ⟨_ | _, c⟩ := sent
      · cases hsent
      · exact receive_settled hserves.wellFormed hbytes haligned
  rcases hsettled with hclosed | hnone
  · exact Or.inl hclosed
  · refine Or.inr ?_
    rw [pooled, hnone, ite_self]

/-- **One step.**  A connection that is handed out was clean or is new, and what is put back is what
a command has left. -/
theorem clean_step {m_poolSize : ℕ} {p q : Pool} (h : Clean p)
    (hstep : Step m_poolSize SentAligned p q) : Clean q := by
  have hupdate : ∀ (id : ℕ) (v : Option Pooled), (∀ conn ∈ v, Fresh conn) →
      ∀ i, ∀ conn ∈ Function.update p.inUse id v i, Fresh conn := by
    intro id v hv i conn hconn
    by_cases hi : i = id
    · subst hi
      rw [Function.update_self] at hconn
      exact hv conn hconn
    · rw [Function.update_of_ne hi] at hconn
      exact h.inUse i conn hconn
  cases hstep with
  | acquire id connects free =>
    refine ⟨fun conn hconn => h.available conn (List.mem_of_mem_dropLast hconn), hupdate id _ ?_⟩
    rintro conn ⟨⟩
    split
    · cases hlast : p.available.getLast? with
      | none => exact Or.inl rfl
      | some last => exact h.available last (List.mem_of_getLast? hlast)
    · exact Or.inr rfl
  | command id r acquired serves holds =>
    refine ⟨h.available, hupdate id _ ?_⟩
    rintro conn ⟨⟩
    exact perform_fresh serves (h.inUse id _ acquired) holds
  | release id acquired =>
    refine ⟨fun conn hconn => ?_, hupdate id none fun conn hconn => by cases hconn⟩
    split at hconn
    · rcases List.mem_append.mp hconn with hconn | hconn
      · exact h.available conn hconn
      · cases List.mem_singleton.mp hconn
        exact h.inUse id _ acquired
    · exact h.available conn hconn

/-- **No reply is left behind**: in a run of commands that meet their replies aligned, every
connection, at rest or not, is closed or has nothing under way, so that a command that is sent on it
finds its own reply and nothing before it. -/
theorem never_stale {m_poolSize : ℕ} {p : Pool} (hp : Reachable m_poolSize SentAligned p) :
    Clean p ∧ ∀ id conn reply net, p.inUse id = some conn → Serves conn reply net →
      arriving net.arrivals = reply.bytes := by
  have hclean : Clean p := by
    induction hp with
    | refl => exact ⟨fun _ hconn => (by cases hconn), fun _ _ hconn => (by cases hconn)⟩
    | tail _ hstep ih => exact clean_step ih hstep
  refine ⟨hclean, fun id conn reply net hconn hserves => ?_⟩
  rw [hserves.arriving]
  rcases hclean.inUse id conn hconn with hclosed | hnone
  · rw [hclosed]
    rfl
  · rw [hnone, ite_self, List.nil_append]


/-- What the network does if it takes a whole command and delivers this. -/
def delivers (r : Request) (arrivals : List (Option UInt8)) : RedisConnection where
  connected := true
  sends := [((wire r.args).length : ℤ)]
  arrivals := arrivals

/-- A string is read on a connection, which is put back. -/
theorem never_stale_get : ∃ p, Reachable 64 SentAligned p ∧ p.available.length = 1 ∧ Clean p := by
  have h₁ : Relation.ReflTransGen (Step 64 SentAligned) {} _ := .single (.acquire {} 0 true rfl)
  have hserves : Serves { connected := true } (.bulk (ascii "v"))
      (delivers (.get []) ((ascii "$1\r\nv\r\n").map some)) :=
    ⟨trivial, rfl, rfl⟩
  have h₂ := h₁.tail (.command _ 0 (.get []) rfl hserves fun _ => Or.inr (Or.inr (by decide)))
  have h₃ := h₂.tail (.release _ 0 rfl)
  exact ⟨_, h₃, rfl, (never_stale h₃).1⟩

/-- The reply to an `HGETALL` of a hash with one field, where the `recv` of the second type byte
times out. -/
def interrupted : List (Option UInt8) :=
  (ascii "*2\r\n$1\r\na\r\n").map some ++ none :: (ascii "$1\r\nb\r\n").map some

/-- **A reply is answered with the rest of another one.**  `hgetall` gives up without closing the
connection, which is put back; the next `get` on it, to which the server replies that there is no
such key, returns the value of the hash. -/
theorem exists_stale_reply : ∃ p, Reachable 64 (fun _ _ _ => True) p ∧ ∃ conn ∈ p.available,
    conn.connected = true ∧ conn.unread ≠ [] ∧
    ∃ net, Serves conn .null net ∧
      ((Request.get (ascii "k")).perform net).1 = .value (.ok (some (ascii "b"))) := by
  have h₁ : Relation.ReflTransGen (Step 64 fun _ _ _ => True) {} _ :=
    .single (.acquire {} 0 true rfl)
  have hserves : Serves { connected := true } (.array [.bulk (ascii "a"), .bulk (ascii "b")])
      (delivers (.hgetall []) interrupted) :=
    ⟨⟨trivial, trivial, trivial⟩, rfl, by decide +kernel⟩
  have h₂ := h₁.tail (.command _ 0 (.hgetall []) rfl hserves trivial)
  have h₃ := h₂.tail (.release _ 0 rfl)
  have hpooled : pooled ((Request.hgetall []).perform (delivers (.hgetall []) interrupted)).2 =
      ⟨true, ascii "$1\r\nb\r\n"⟩ := rfl
  refine ⟨_, h₃, _, List.mem_append_right _ (List.mem_singleton.mpr rfl), rfl, ?_,
    delivers (.get (ascii "k")) ((ascii "$1\r\nb\r\n$-1\r\n").map some), ⟨trivial, rfl, ?_⟩, rfl⟩
  · rw [hpooled]
    decide
  · rw [hpooled]
    decide +kernel

end StaleReplies
end MultiPlayerGame
