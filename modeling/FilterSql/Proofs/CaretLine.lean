import Mathlib.Data.List.DropRight
import Mathlib.Data.List.TakeWhile
import FilterSql.Proofs.FirstFault

/-! The line that is shown with an error is the one that the error's place lies in, and the caret stands under the
character at that place. -/
namespace FilterSql

namespace Source

/-- A line of a source: all between two line feeds, or between one and an end of the source. -/
structure Line (source before line behind : List Char) : Prop where
  split : source = before ++ line ++ behind
  unbroken : '\n' ∉ line
  begins : before = [] ∨ before.getLast? = some '\n'
  ends : behind = [] ∨ behind.head? = some '\n'

section Lines

def above (before : List Char) : List Char := before.rdropWhile (· ≠ '\n')

def lead (before : List Char) : List Char := before.rtakeWhile (· ≠ '\n')

theorem above_append_lead (before : List Char) : above before ++ lead before = before :=
  List.rdropWhile_append_rtakeWhile

theorem not_mem_lead (before : List Char) : '\n' ∉ lead before := by
  intro hmem
  simpa using List.mem_rtakeWhile_imp hmem

theorem above_ends (before : List Char) : above before = [] ∨ (above before).getLast? = some '\n' := by
  by_cases hnil : above before = []
  · exact .inl hnil
  · have hlast := List.rdropWhile_last_not _ before hnil
    right
    rw [List.getLast?_eq_getLast_of_ne_nil hnil]
    simpa [above] using hlast

theorem length_lead (before : List Char) : (lead before).length = columnAfter before - 1 := by
  rw [lead, List.rtakeWhile, List.length_reverse, columnAfter, Nat.add_sub_cancel_left]

theorem count_above (before : List Char) : (above before).count '\n' = before.count '\n' := by
  conv_rhs => rw [← above_append_lead before]
  rw [List.count_append, List.count_eq_zero.mpr (not_mem_lead before), Nat.add_zero]

theorem afterLines_append {front : List Char} (h : front = [] ∨ front.getLast? = some '\n') (rest : List Char) :
    afterLines (front.count '\n') (front ++ rest) = rest := by
  induction front with
  | nil => simp [afterLines]
  | cons c cs ih =>
    have hlast : cs = [] ∨ cs.getLast? = some '\n' := by
      cases cs with
      | nil => exact .inl rfl
      | cons => simpa using h
    by_cases hc : c = '\n'
    · rw [hc, List.count_cons_self, List.cons_append, afterLines, if_pos rfl, ih hlast]
    · have hmem : '\n' ∈ cs := by
        rcases hlast with rfl | hlast
        · simp [hc] at h
        · exact List.mem_of_getLast? hlast
      obtain ⟨n, hn⟩ := Nat.exists_eq_add_one_of_ne_zero (List.count_pos_iff.mpr hmem).ne'
      rw [List.count_cons_of_ne hc, hn, List.cons_append, afterLines, if_neg hc, ← hn, ih hlast]

end Lines

section Snippets

theorem dropReturn_eq (line : List Char) : dropReturn line = line ∨ dropReturn line ++ ['\r'] = line := by
  unfold dropReturn
  split
  case isTrue hlast => exact .inr (List.dropLast_append_getLast? _ hlast)
  case isFalse => exact .inl rfl

theorem getElem?_dropReturn (front more : List Char) {c : Char} (hc : c ≠ '\r') :
    (dropReturn (front ++ c :: more))[front.length]? = some c := by
  have hwhole : (front ++ c :: more)[front.length]? = some c := by simp
  rcases dropReturn_eq (front ++ c :: more) with heq | heq
  · rw [heq, hwhole]
  · rw [← heq, List.getElem?_append] at hwhole
    split at hwhole
    case isTrue => exact hwhole
    case isFalse =>
      have hmem := List.mem_of_getElem? hwhole
      exact absurd (List.mem_singleton.mp hmem) hc

theorem line_around {before rest : List Char} {c : Char} (hc : c ≠ '\n') :
    Line (before ++ c :: rest) (above before) (lead before ++ c :: rest.takeWhile (· ≠ '\n'))
      (rest.dropWhile (· ≠ '\n')) where
  split := by
    conv_lhs => rw [← above_append_lead before, ← List.takeWhile_append_dropWhile (p := (· ≠ '\n')) (l := rest)]
    simp
  unbroken := by
    rw [List.mem_append, List.mem_cons, not_or, not_or]
    refine ⟨not_mem_lead before, Ne.symm hc, fun hmem => ?_⟩
    simpa using List.mem_takeWhile_imp hmem
  begins := above_ends before
  ends := by
    have hhead := List.head?_dropWhile_not (· ≠ '\n') rest
    cases hrest : rest.dropWhile (· ≠ '\n') with
    | nil => exact .inl rfl
    | cons d more =>
      rw [hrest] at hhead
      exact .inr (by simpa using hhead)

theorem lineText_eq (before rest : List Char) {c : Char} (hc : c ≠ '\n') :
    let line := lead before ++ c :: rest.takeWhile (· ≠ '\n')
    lineText (before.count '\n') (before ++ c :: rest) = line ∨
      lineText (before.count '\n') (before ++ c :: rest) = dropReturn line := by
  intro line
  have hrest : afterLines (before.count '\n') (before ++ c :: rest) = lead before ++ c :: rest := by
    have hpassed := afterLines_append (above_ends before) (lead before ++ c :: rest)
    rwa [count_above, ← List.append_assoc, above_append_lead] at hpassed
  have hline : (lead before ++ c :: rest).takeWhile (· ≠ '\n') = line := by
    rw [List.takeWhile_append_of_pos, List.takeWhile_cons_of_pos (by simpa using hc)]
    intro d hd
    rw [decide_eq_true_eq]
    rintro rfl
    exact not_mem_lead before hd
  unfold lineText
  rw [hrest]
  dsimp only
  rw [hline]
  split
  · exact .inl rfl
  · exact .inr rfl

/-- The character behind `before` stands in the text that is shown for its line, at the column of its place. -/
theorem getElem?_lineText (before rest : List Char) {c : Char} (hc : c ≠ '\n') (hreturn : c ≠ '\r') :
    (lineText (before.count '\n') (before ++ c :: rest))[columnAfter before - 1]? = some c := by
  rw [← length_lead]
  rcases lineText_eq before rest hc with heq | heq
  · rw [heq]
    simp
  · rw [heq]
    exact getElem?_dropReturn _ _ hreturn

end Snippets

end Source

namespace Lexeme

theorem Fault.exists_head {sound part tail behind : List Char} {report : Span → LexError}
    (h : Fault sound part tail behind report) : ∃ c more, part = c :: more ∧ c ≠ '\n' ∧ c ≠ '\r' := by
  cases h with
  | unclosed => exact ⟨'"', _, rfl, by decide, by decide⟩
  | number hshaped =>
    obtain ⟨sign, digit, more, rfl, hsign, hdigit, -⟩ := hshaped
    rcases hsign with rfl | rfl
    · refine ⟨digit, more, rfl, ?_, ?_⟩ <;> rintro rfl <;> cases hdigit
    · exact ⟨'-', digit :: more, rfl, by decide, by decide⟩
  | stray hstray =>
    refine ⟨_, [], rfl, ?_, ?_⟩ <;> rintro rfl <;> cases hstray.blank
  | nul => exact ⟨'\x00', [], rfl, by decide, by decide⟩
  | escape _ _ hhead =>
    obtain ⟨more, rfl⟩ := List.head?_eq_some_iff.mp hhead
    exact ⟨'\\', more, rfl, by decide, by decide⟩

end Lexeme

open Source

theorem place_of_lexError {source : String} {e : LexError} (h : tokenize source = .error e) :
    ∃ before c behind, source.toList = before ++ c :: behind ∧ c ≠ '\n' ∧ c ≠ '\r' ∧
      e.span.start = Text.byteLength before ∧ e.span.line = lineAfter before ∧
      e.span.column = columnAfter before := by
  obtain ⟨before, c, lexeme, behind, shape, ts, hsource, hc, hbefore, hcut, hkind⟩ :=
    lexed_before_error (tokenize_eq_error.mp h)
  obtain ⟨sound, part, tail, report, hlexeme, hfault, he⟩ := Lexeme.fault_of_kind hc hcut hkind
  obtain ⟨d, more, rfl, hline, hreturn⟩ := hfault.exists_head
  rw [start_after, after_place] at he
  refine ⟨before ++ sound, d, more ++ tail ++ behind, ?_, hline, hreturn, ?_⟩
  · rw [hsource, hlexeme]
    simp
  · rw [he, hfault.span_report]
    exact ⟨rfl, rfl, rfl⟩

/-- An error is shown with the line of the source that its span starts in, up to a carriage return at the end of
the line, and the caret stands under the first character of the span. -/
theorem caret_points_at_fault {source : String} {e : LexError} (h : tokenize source = .error e) :
    ∃ before c behind front line rest snippet,
      source.toList = before ++ c :: behind ∧ Text.byteLength before = e.span.start ∧
      Line source.toList front line rest ∧ Text.byteLength front ≤ e.span.start ∧
      e.span.start < Text.byteLength (front ++ line) ∧ (snippet = line ∨ snippet ++ ['\r'] = line) ∧
      e.shownIn source = e.message ++ "\n" ++ String.ofList snippet ++ "\n" ++
        Text.copies (e.span.column - 1) " " ++ "^" ∧
      1 ≤ e.span.column ∧ e.span.column - 1 < snippet.length ∧ snippet[e.span.column - 1]? = some c := by
  obtain ⟨before, c, behind, hsource, hline, hreturn, hstart, hnumber, hcolumn⟩ := place_of_lexError h
  have hbytes : Text.byteLength (above before) + Text.byteLength (lead before) = Text.byteLength before := by
    rw [← Text.byteLength_append, above_append_lead]
  have hc := c.utf8Size_pos
  have hat := getElem?_lineText before behind hline hreturn
  rw [← hcolumn] at hat
  refine ⟨before, c, behind, above before, lead before ++ c :: behind.takeWhile (· ≠ '\n'),
    behind.dropWhile (· ≠ '\n'), lineText (before.count '\n') (before ++ c :: behind), hsource, hstart.symm,
    ?_, ?_, ?_, ?_, ?_, ?_, ?_, hat⟩
  · rw [hsource]
    exact line_around hline
  · omega
  · simp only [Text.byteLength_append, Text.byteLength_cons]
    omega
  · rcases lineText_eq before behind hline with heq | heq
    · exact .inl heq
    · rw [heq]
      exact dropReturn_eq _
  · rw [LexError.shownIn, underlined, hsource, hnumber, lineAfter, Nat.add_sub_cancel_left]
  · rw [hcolumn]
    exact Nat.le_add_right 1 _
  · exact (List.getElem?_eq_some_iff.mp hat).1

def brokenNote : String := "x == 1 &&\r\n\ttag == \"é\\q\"\r\n|| y"

theorem caret_points_at_fault_note :
    let e : LexError := .invalidEscape "\\q" ⟨22, 24, 2, 11⟩
    let shown := "\ttag == \"é\\q\"".toList
    tokenize brokenNote = .error e ∧
      e.shownIn brokenNote = e.message ++ "\n" ++ String.ofList shown ++ "\n          ^" ∧
      (∃ front line rest, Line brokenNote.toList front line rest ∧ (shown = line ∨ shown ++ ['\r'] = line)) ∧
      shown[10]? = some '\\' := by
  intro e shown
  have h : tokenize brokenNote = .error e := by decide +kernel
  have hspaces : Text.copies (e.span.column - 1) " " = "          " := by decide +kernel
  have hshown : e.shownIn brokenNote = e.message ++ "\n" ++ String.ofList shown ++ "\n          ^" := by
    have htext : lineText (e.span.line - 1) brokenNote.toList = shown := by decide +kernel
    rw [LexError.shownIn, underlined, htext, hspaces]
    simp [String.append_assoc]
  obtain ⟨before, c, behind, front, line, rest, snippet, -, -, hline, -, -, hsnippet, htext, -⟩ :=
    caret_points_at_fault h
  obtain rfl : shown = snippet := by
    rw [hshown, hspaces] at htext
    have hchars := congrArg String.toList htext
    simp only [String.toList_append, List.append_assoc, List.append_cancel_left_eq] at hchars
    simpa using List.append_cancel_right hchars
  exact ⟨h, hshown, ⟨front, line, rest, hline, hsnippet⟩, rfl⟩

end FilterSql
