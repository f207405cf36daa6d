import MultiPlayerGame.Server.Schema
import MultiPlayerGame.Library.Trimming

/-!
# The statements of a schema

A schema is a sequence of statements, each ended by a semicolon, in any layout, with comment lines
in between.  The loop of `initSchema` is meant to pass the statements on one by one, but it cuts the
text at the ends of lines: at a line with a semicolon it passes on all that it has gathered, the
rest of the line included.  So two statements on a line go out in one call, and a statement that
begins behind the semicolon of another is torn apart.

Call a line *tidy* if nothing but white space follows its first semicolon and no zero byte is in it.
`initSchema_passes_iff`: the statements are passed on one by one exactly if every line that is not a
comment is tidy.  Both directions go through the lines with the same invariant.  What is gathered
and what is still to come are together, up to white space in front, the statements that have not
been passed on (`Pending`), so the line with the next semicolon begins with the end of the next
statement (`Pending.flush`).
-/

namespace MultiPlayerGame
namespace Schema

open Bytes (ascii)
open Trimming

/-- White space, to the server that executes the statements. -/
def isSpace (b : UInt8) : Bool := b = 0x20 || 0x09 ≤ b && b ≤ 0x0D

/-- The lines that are not comments, with their newlines. -/
def uncommented (lines : List Bytes) : Bytes :=
  (lines.filter fun line => !isComment line).flatMap (· ++ ascii "\n")

/-- `text` is a sequence of statements ended by semicolons, without another semicolon in it, laid
out in any way with comment lines in between. -/
structure IsSchema (text : Bytes) (statements : List Bytes) : Prop where
  semicolon : ∀ s ∈ statements, 0x3B ∉ s
  layout : ∃ blank : Bytes, (∀ b ∈ blank, isSpace b = true) ∧
    uncommented (getlines [] text) = terminated 0x3B statements ++ blank

/-- The texts passed on are the statements, each by itself and in order, up to white space at the
ends, and nothing is dropped but comment lines and white space. -/
structure Passes (passed : List Bytes) (text : Bytes) (statements : List Bytes) : Prop where
  each : passed.map (trim isSpace) = statements.map fun s => trim isSpace (s ++ [0x3B])
  all : passed.flatten.filter (fun b => !isSpace b) =
    (uncommented (getlines [] text)).filter fun b => !isSpace b

/-- Nothing but white space follows the first semicolon, and there is no zero byte. -/
def Tidy (line : Bytes) : Prop :=
  0 ∉ line ∧ ∀ b ∈ (line.dropWhile (· ≠ 0x3B)).tail, isSpace b = true

instance instDecidableTidy (line : Bytes) : Decidable (Tidy line) :=
  inferInstanceAs (Decidable (_ ∧ _))

/-! ## Lines -/

@[simp] theorem uncommented_nil : uncommented [] = [] := rfl

theorem uncommented_comment {line : Bytes} (hline : isComment line = true) (lines : List Bytes) :
    uncommented (line :: lines) = uncommented lines := by
  simp [uncommented, hline]

theorem uncommented_cons {line : Bytes} (hline : isComment line = false) (lines : List Bytes) :
    uncommented (line :: lines) = line ++ ascii "\n" ++ uncommented lines := by
  simp [uncommented, hline]

theorem isSpace_newline : ∀ b ∈ ascii "\n", isSpace b = true := by
  have hnl : ascii "\n" = [0x0A] := by decide
  rw [hnl, List.forall_mem_singleton]
  decide

theorem notMem_newline : 0x3B ∉ ascii "\n" := by decide

theorem notMem_of_isSpace {blank : Bytes} (hblank : ∀ b ∈ blank, isSpace b = true) :
    0x3B ∉ blank := by
  intro h
  exact absurd (hblank 0x3B h) (by decide)

/-- Before the first semicolon there is nothing to be cut off. -/
theorem dropWhile_of_notMem {body : Bytes} (hbody : 0x3B ∉ body) :
    body.dropWhile (· ≠ 0x3B) = [] :=
  List.dropWhile_eq_nil_iff.mpr fun b hb => by
    have hne : b ≠ 0x3B := fun h => hbody (h ▸ hb)
    simpa using hne

/-- A line with a semicolon, cut at the first one. -/
theorem exists_cut {line : Bytes} (hsemi : 0x3B ∈ line) :
    ∃ body rest, 0x3B ∉ body ∧ line = body ++ 0x3B :: rest ∧
      (line.dropWhile (· ≠ 0x3B)).tail = rest := by
  obtain ⟨body, rest, rfl, hbody⟩ := List.eq_append_cons_of_mem hsemi
  refine ⟨body, rest, hbody, rfl, ?_⟩
  rw [List.dropWhile_append, dropWhile_of_notMem hbody]
  simp

/-- A line without a semicolon only has to be free of zero bytes. -/
theorem tidy_of_notMem {line : Bytes} (hzero : 0 ∉ line) (hsemi : 0x3B ∉ line) : Tidy line := by
  refine ⟨hzero, fun b hb => ?_⟩
  rw [dropWhile_of_notMem hsemi] at hb
  exact absurd hb List.not_mem_nil

theorem zero_notMem_gather {statement line : Bytes} (hstatement : 0 ∉ statement)
    (hline : 0 ∉ line) : 0 ∉ statement ++ (line ++ ascii "\n") := by
  have hnl : ascii "\n" = [0x0A] := by decide
  simp [hnl, hstatement, hline]

theorem uncommented_eq {lines : List Bytes} (h : ∀ line ∈ lines, isComment line = false) :
    uncommented lines = lines.flatMap (· ++ ascii "\n") := by
  rw [uncommented, List.filter_eq_self.mpr fun line hmem => by rw [h line hmem, Bool.not_false]]

/-- Without comment lines, a schema is statements in any layout; its last line may or may not end
with a newline. -/
theorem isSchema_of_no_comment {text blank : Bytes} {statements : List Bytes}
    (hsemi : ∀ s ∈ statements, 0x3B ∉ s) (hblank : ∀ b ∈ blank, isSpace b = true)
    (heq : text = terminated 0x3B statements ++ blank)
    (hlines : ∀ line ∈ getlines [] text, isComment line = false) : IsSchema text statements := by
  refine ⟨hsemi, ?_⟩
  rw [uncommented_eq hlines]
  rcases flatMap_getlines text [] with hend | hend
  · exact ⟨blank, hblank, by rw [hend, List.nil_append, heq]⟩
  · refine ⟨blank ++ ascii "\n", List.forall_mem_append.mpr ⟨hblank, isSpace_newline⟩, ?_⟩
    rw [hend, List.nil_append, heq, List.append_assoc]

/-! ## What is still to be passed on -/

/-- `statement` has been gathered, and `statements` are still to be passed on; `lead` is the white
space that went out at the end of the last call. -/
structure Pending (lead statement : Bytes) (lines statements : List Bytes) : Prop where
  space : ∀ b ∈ lead, isSpace b = true
  gathered : 0x3B ∉ statement
  semicolon : ∀ s ∈ statements, 0x3B ∉ s
  layout : ∃ blank : Bytes, (∀ b ∈ blank, isSpace b = true) ∧
    lead ++ statement ++ uncommented lines = terminated 0x3B statements ++ blank

namespace Pending

variable {lead statement line : Bytes} {lines statements : List Bytes}

theorem start {text : Bytes} (h : IsSchema text statements) :
    Pending [] [] (getlines [] text) statements where
  space := by simp
  gathered := List.not_mem_nil
  semicolon := h.semicolon
  layout := by simpa using h.layout

/-- At the end of the text there is nothing to be passed on. -/
theorem done (h : Pending lead statement [] statements) : statements = [] := by
  obtain ⟨blank, -, heq⟩ := h.layout
  have hnone : 0x3B ∉ lead ++ statement ++ uncommented [] := by
    simp [notMem_of_isSpace h.space, h.gathered]
  exact terminated_eq_nil_of_notMem hnone heq

theorem comment (h : Pending lead statement (line :: lines) statements)
    (hline : isComment line = true) : Pending lead statement lines statements where
  space := h.space
  gathered := h.gathered
  semicolon := h.semicolon
  layout := uncommented_comment hline lines ▸ h.layout

theorem gather (h : Pending lead statement (line :: lines) statements)
    (hline : isComment line = false) (hsemi : 0x3B ∉ line) :
    Pending lead (statement ++ (line ++ ascii "\n")) lines statements where
  space := h.space
  gathered := by simp [h.gathered, hsemi, notMem_newline]
  semicolon := h.semicolon
  layout := by
    obtain ⟨blank, hblank, heq⟩ := h.layout
    refine ⟨blank, hblank, ?_⟩
    rw [← heq, uncommented_cons hline]
    simp only [List.append_assoc]

/-- **The line with the next semicolon.**  It begins with the end of the next statement. -/
theorem flush {body rest : Bytes} (h : Pending lead statement (line :: lines) statements)
    (hline : isComment line = false) (hbody : 0x3B ∉ body) (hcut : line = body ++ 0x3B :: rest) :
    ∃ others, statements = (lead ++ statement ++ body) :: others ∧
      ((∀ b ∈ rest, isSpace b = true) → Pending (rest ++ ascii "\n") [] lines others) := by
  obtain ⟨blank, hblank, heq⟩ := h.layout
  have hfirst : 0x3B ∉ lead ++ statement ++ body := by
    simp [notMem_of_isSpace h.space, h.gathered, hbody]
  have heq' : lead ++ statement ++ body ++ 0x3B :: (rest ++ ascii "\n" ++ uncommented lines) =
      terminated 0x3B statements ++ blank := by
    rw [← heq, uncommented_cons hline, hcut]
    simp only [List.append_assoc, List.cons_append]
  obtain ⟨others, rfl, hrest⟩ :=
    terminated_cancel hfirst h.semicolon (notMem_of_isSpace hblank) heq'
  refine ⟨others, rfl, fun hspace => ⟨?_, List.not_mem_nil, ?_, blank, hblank, ?_⟩⟩
  · exact List.forall_mem_append.mpr ⟨hspace, isSpace_newline⟩
  · exact fun s hs => h.semicolon s (List.mem_cons_of_mem _ hs)
  · rw [List.append_nil, hrest]

end Pending

/-! ## One call -/

/-- What goes out at the line with the next semicolon, up to white space, if that line is tidy. -/
theorem trim_flush {lead statement body rest : Bytes} (hlead : ∀ b ∈ lead, isSpace b = true)
    (hrest : ∀ b ∈ rest, isSpace b = true) :
    trim isSpace (statement ++ (body ++ 0x3B :: rest ++ ascii "\n")) =
      trim isSpace (lead ++ statement ++ body ++ [0x3B]) := by
  have hblank : ∀ b ∈ rest ++ ascii "\n", isSpace b = true :=
    List.forall_mem_append.mpr ⟨hrest, isSpace_newline⟩
  calc trim isSpace (statement ++ (body ++ 0x3B :: rest ++ ascii "\n"))
      = trim isSpace (statement ++ body ++ [0x3B] ++ (rest ++ ascii "\n")) := by simp
    _ = trim isSpace (statement ++ body ++ [0x3B]) := trim_append_blank hblank _
    _ = trim isSpace (lead ++ (statement ++ body ++ [0x3B])) := (trim_blank_append hlead _).symm
    _ = trim isSpace (lead ++ statement ++ body ++ [0x3B]) := by simp only [List.append_assoc]

/-- If the next statement goes out, then nothing goes out behind it. -/
theorem isSpace_of_trim_flush {lead statement body rest : Bytes}
    (hlead : ∀ b ∈ lead, isSpace b = true)
    (heq : trim isSpace (statement ++ (body ++ 0x3B :: rest ++ ascii "\n")) =
      trim isSpace (lead ++ statement ++ body ++ [0x3B])) : ∀ b ∈ rest, isSpace b = true := by
  have hfilter := congrArg (List.filter fun b => !isSpace b) heq
  have hsemi : ∀ l : Bytes, (0x3B :: l).filter (fun b => !isSpace b) =
      0x3B :: l.filter fun b => !isSpace b := fun l => by
    rw [List.filter_cons_of_pos (by decide)]
  rw [filter_trim, filter_trim] at hfilter
  simp only [List.filter_append, hsemi, filter_eq_nil_iff.mpr hlead,
    filter_eq_nil_iff.mpr isSpace_newline, List.nil_append, List.append_nil, List.append_assoc,
    List.append_cancel_left_eq, List.filter_nil, List.cons.injEq, true_and] at hfilter
  exact filter_eq_nil_iff.mp hfilter

/-! ## The whole run -/

/-- If all lines are tidy, the statements that are pending go out one by one. -/
theorem each_of_tidy (lines : List Bytes) :
    ∀ {lead statement : Bytes} {statements : List Bytes}, Pending lead statement lines statements →
      0 ∉ statement → (∀ line ∈ lines, isComment line = false → Tidy line) →
      (queries statement lines).map (trim isSpace) =
        statements.map fun s => trim isSpace (s ++ [0x3B]) := by
  induction lines with
  | nil =>
    intro lead statement statements h _ _
    rw [h.done]
    rfl
  | cons line lines ih =>
    intro lead statement statements h hzero htidy
    have htidy' : ∀ l ∈ lines, isComment l = false → Tidy l := fun l hl =>
      htidy l (List.mem_cons_of_mem _ hl)
    by_cases hline : isComment line = true
    · rw [queries_comment hline]
      exact ih (h.comment hline) hzero htidy'
    · rw [Bool.not_eq_true] at hline
      obtain ⟨hnonzero, htail⟩ := htidy line List.mem_cons_self hline
      have hzero' := zero_notMem_gather hzero hnonzero
      by_cases hsemi : 0x3B ∈ line
      · obtain ⟨body, rest, hbody, hcut, hrest⟩ := exists_cut hsemi
        rw [hrest] at htail
        obtain ⟨others, rfl, hothers⟩ := h.flush hline hbody hcut
        rw [queries_flush hline hsemi, cstr_eq_self hzero', List.map_cons, List.map_cons,
          ih (hothers htail) List.not_mem_nil htidy', hcut, trim_flush h.space htail]
      · rw [queries_gather hline hsemi]
        exact ih (h.gather hline hsemi) hzero' htidy'

/-- If the statements that are pending go out one by one and there is no zero byte, then nothing
but white space follows a semicolon on its line. -/
theorem tidy_of_each (lines : List Bytes) :
    ∀ {lead statement : Bytes} {statements : List Bytes}, Pending lead statement lines statements →
      0 ∉ statement → (∀ line ∈ lines, isComment line = false → 0 ∉ line) →
      (queries statement lines).map (trim isSpace) =
        statements.map (fun s => trim isSpace (s ++ [0x3B])) →
      ∀ line ∈ lines, isComment line = false → Tidy line := by
  induction lines with
  | nil =>
    intro lead statement statements _ _ _ _ line hmem
    exact absurd hmem List.not_mem_nil
  | cons line lines ih =>
    intro lead statement statements h hzero hnonzero heach
    have hnonzero' : ∀ l ∈ lines, isComment l = false → 0 ∉ l := fun l hl =>
      hnonzero l (List.mem_cons_of_mem _ hl)
    rw [List.forall_mem_cons]
    by_cases hline : isComment line = true
    · rw [queries_comment hline] at heach
      exact ⟨fun hfalse => absurd hline (Bool.eq_false_iff.mp hfalse),
        ih (h.comment hline) hzero hnonzero' heach⟩
    · rw [Bool.not_eq_true] at hline
      have hzero_line := hnonzero line List.mem_cons_self hline
      have hzero' := zero_notMem_gather hzero hzero_line
      by_cases hsemi : 0x3B ∈ line
      · obtain ⟨body, rest, hbody, hcut, hrest⟩ := exists_cut hsemi
        obtain ⟨others, rfl, hothers⟩ := h.flush hline hbody hcut
        rw [queries_flush hline hsemi, cstr_eq_self hzero', List.map_cons, List.map_cons,
          List.cons.injEq] at heach
        have hspace : ∀ b ∈ rest, isSpace b = true :=
          isSpace_of_trim_flush h.space (hcut ▸ heach.1)
        exact ⟨fun _ => ⟨hzero_line, hrest ▸ hspace⟩,
          ih (hothers hspace) List.not_mem_nil hnonzero' heach.2⟩
      · rw [queries_gather hline hsemi] at heach
        exact ⟨fun _ => tidy_of_notMem hzero_line hsemi,
          ih (h.gather hline hsemi) hzero' hnonzero' heach⟩

/-- A zero byte is never passed on, so no statement has one. -/
theorem zero_notMem_of_each {text : Bytes} {statements : List Bytes} (h : IsSchema text statements)
    (heach : (queries [] (getlines [] text)).map (trim isSpace) =
      statements.map fun s => trim isSpace (s ++ [0x3B])) :
    0 ∉ uncommented (getlines [] text) := by
  obtain ⟨blank, hblank, heq⟩ := h.layout
  rw [heq]
  intro hzero
  rcases List.mem_append.mp hzero with hmem | hmem
  · obtain ⟨s, hs, hmem⟩ := List.mem_flatMap.mp hmem
    have hsent : trim isSpace (s ++ [0x3B]) ∈ (queries [] (getlines [] text)).map (trim isSpace) :=
      heach ▸ List.mem_map_of_mem hs
    obtain ⟨q, hq, hqs⟩ := List.mem_map.mp hsent
    have hzero_q : 0 ∈ trim isSpace q := hqs ▸ (mem_trim (by decide)).mpr hmem
    exact zero_notMem_of_mem_queries _ [] q hq ((mem_trim (by decide)).mp hzero_q)
  · exact absurd (hblank 0 hmem) (by decide)

theorem notMem_line_of_uncommented {b : UInt8} {lines : List Bytes} (h : b ∉ uncommented lines) :
    ∀ line ∈ lines, isComment line = false → b ∉ line := by
  intro line hmem hline hb
  refine h (List.mem_flatMap.mpr ⟨line, List.mem_filter.mpr ⟨hmem, ?_⟩, List.mem_append_left _ hb⟩)
  rw [hline, Bool.not_false]

/-- What has been passed on up to white space at the ends has the same letters. -/
theorem filter_flatten_of_each {passed statements : List Bytes}
    (heach : passed.map (trim isSpace) = statements.map fun s => trim isSpace (s ++ [0x3B])) :
    passed.flatten.filter (fun b => !isSpace b) =
      (terminated 0x3B statements).filter fun b => !isSpace b := by
  have hletters := congrArg (List.map (List.filter fun b => !isSpace b)) heach
  simp only [List.map_map, Function.comp_def, filter_trim] at hletters
  rw [terminated, List.flatMap_def, List.filter_flatten, List.filter_flatten, hletters,
    List.map_map, Function.comp_def]

theorem all_of_each {text : Bytes} {passed statements : List Bytes} (h : IsSchema text statements)
    (heach : passed.map (trim isSpace) = statements.map fun s => trim isSpace (s ++ [0x3B])) :
    Passes passed text statements := by
  obtain ⟨blank, hblank, heq⟩ := h.layout
  refine ⟨heach, ?_⟩
  rw [filter_flatten_of_each heach, heq, List.filter_append, filter_eq_nil_iff.mpr hblank,
    List.append_nil]

/-- **The loop passes the statements on one by one if and only if every line that is not a comment
is tidy.** -/
theorem queries_passes_iff {text : Bytes} {statements : List Bytes}
    (h : IsSchema text statements) :
    Passes (queries [] (getlines [] text)) text statements ↔
      ∀ line ∈ getlines [] text, isComment line = false → Tidy line := by
  constructor
  · intro hpasses
    have hzero := notMem_line_of_uncommented (zero_notMem_of_each h hpasses.each)
    exact tidy_of_each _ (Pending.start h) List.not_mem_nil hzero hpasses.each
  · intro htidy
    exact all_of_each h (each_of_tidy _ (Pending.start h) List.not_mem_nil htidy)

/-- **Once the database is open, the statements of a schema are passed on one by one if and only if,
on every line that is not a comment, only white space follows the first semicolon and there is no
zero byte.** -/
theorem initSchema_passes_iff {text : Bytes} {statements : List Bytes}
    (h : IsSchema text statements) {sql : Sql} {db : Database} (hopen : (db.open sql).1 = true) :
    Passes (initSchema sql (some text) db).1.2 text statements ↔
      ∀ line ∈ getlines [] text, isComment line = false → Tidy line := by
  rw [initSchema_of_open hopen]
  exact queries_passes_iff h

/-- A table is set up in a schema with a comment and with a statement that is several lines long. -/
theorem initSchema_passes_players :
    Passes (initSchema {} (some (ascii
        "-- Players;\nUSE game_server;\n\nCREATE TABLE players (\n  player_id INT\n);\n")) {}).1.2
      (ascii "-- Players;\nUSE game_server;\n\nCREATE TABLE players (\n  player_id INT\n);\n")
      [ascii "USE game_server", ascii "\n\nCREATE TABLE players (\n  player_id INT\n)"] := by
  refine (initSchema_passes_iff ⟨by decide +kernel, ascii "\n", ?_⟩ rfl).mpr (by decide +kernel)
  exact ⟨isSpace_newline, by decide +kernel⟩

/-- Two statements on one line. -/
def oneLine : Bytes := ascii "DROP TABLE players; CREATE TABLE players (player_id INT);"

/-- What stands between the semicolons of `oneLine`. -/
def oneLineStatements : List Bytes :=
  [ascii "DROP TABLE players", ascii " CREATE TABLE players (player_id INT)"]

/-- A line ends a statement only with its last semicolon, so `oneLine` goes out in one call and its
two statements are not passed on one by one. -/
theorem oneLine_not_passed : IsSchema oneLine oneLineStatements ∧
    ¬ Passes (initSchema {} (some oneLine) {}).1.2 oneLine oneLineStatements := by
  refine ⟨isSchema_of_no_comment (by decide +kernel) (List.forall_mem_nil _) (by decide +kernel)
    (by decide +kernel), fun h => ?_⟩
  have hlength := congrArg List.length h.each
  rw [initSchema_of_open rfl, List.length_map, List.length_map] at hlength
  exact absurd hlength (by decide +kernel)

end Schema
end MultiPlayerGame
