import FilterSql.Source.Span

/-! Places of a text, step by step and by counting. Going through a text character by character leads to the
place that its bytes, its line feeds and the characters since the last of them give. -/
namespace FilterSql

namespace Text

theorem byteLength_foldl (cs : List Char) (n : Nat) :
    cs.foldl (fun n c => n + c.utf8Size) n = n + byteLength cs := by
  induction cs generalizing n with
  | nil => rfl
  | cons c cs ih =>
    have hone := ih (0 + c.utf8Size)
    rw [byteLength, List.foldl_cons, List.foldl_cons, ih, hone]
    omega

@[simp] theorem byteLength_cons (c : Char) (cs : List Char) :
    byteLength (c :: cs) = c.utf8Size + byteLength cs := by
  rw [byteLength, List.foldl_cons, byteLength_foldl, Nat.zero_add]

theorem byteLength_append (cs ds : List Char) : byteLength (cs ++ ds) = byteLength cs + byteLength ds := by
  induction cs with
  | nil => exact (Nat.zero_add _).symm
  | cons c cs ih => rw [List.cons_append, byteLength_cons, byteLength_cons, ih, Nat.add_assoc]

end Text

namespace Source

theorem columnAfter_cons (c : Char) {cs : List Char} (h : '\n' ∈ cs) : columnAfter (c :: cs) = columnAfter cs := by
  obtain ⟨last, more, hcs, hlast⟩ := List.eq_append_cons_of_mem (List.mem_reverse.mpr h)
  have hline : ∀ d ∈ last, decide (d ≠ '\n') = true := by
    intro d hd
    exact decide_eq_true fun heq => hlast (heq ▸ hd)
  rw [columnAfter, columnAfter, List.reverse_cons, hcs, List.append_assoc, List.takeWhile_append_of_pos hline,
    List.takeWhile_append_of_pos hline]
  simp

theorem columnAfter_break {cs : List Char} (h : '\n' ∉ cs) : columnAfter ('\n' :: cs) = 1 + cs.length := by
  have hline : ∀ d ∈ cs.reverse, decide (d ≠ '\n') = true := by
    intro d hd
    exact decide_eq_true fun heq => h (heq ▸ List.mem_reverse.mp hd)
  rw [columnAfter, List.reverse_cons, List.takeWhile_append_of_pos hline]
  simp

end Source

namespace Position

theorem after_append (p : Position) (cs ds : List Char) : p.after (cs ++ ds) = (p.after cs).after ds :=
  List.foldl_append

theorem offset_after (p : Position) (cs : List Char) : (p.after cs).offset = p.offset + Text.byteLength cs := by
  induction cs generalizing p with
  | nil => rfl
  | cons c cs ih =>
    have hstep : (p.step c).offset = p.offset + c.utf8Size := by
      unfold step
      split <;> rfl
    rw [after, List.foldl_cons, ← after, ih, hstep, Text.byteLength_cons]
    omega

theorem line_after (p : Position) (cs : List Char) : (p.after cs).line = p.line + cs.count '\n' := by
  induction cs generalizing p with
  | nil => rfl
  | cons c cs ih =>
    rw [after, List.foldl_cons, ← after, ih, step]
    split
    case isTrue hc =>
      rw [hc, List.count_cons_self]
      exact Nat.add_right_comm ..
    case isFalse hc => rw [List.count_cons_of_ne hc]

theorem column_after (p : Position) (cs : List Char) :
    (p.after cs).column = if '\n' ∈ cs then Source.columnAfter cs else p.column + cs.length := by
  induction cs generalizing p with
  | nil => rfl
  | cons c cs ih =>
    rw [after, List.foldl_cons, ← after, ih, step]
    by_cases hbreak : '\n' ∈ cs
    · rw [if_pos hbreak, if_pos (List.mem_cons_of_mem c hbreak), Source.columnAfter_cons c hbreak]
    · rw [if_neg hbreak]
      split
      case isTrue hc =>
        rw [hc, if_pos List.mem_cons_self, Source.columnAfter_break hbreak]
      case isFalse hc =>
        rw [if_neg (by simp [hbreak, Ne.symm hc]), List.length_cons]
        dsimp only
        omega

/-- Counting through a lexeme from its start leads to the same place as going through it. -/
theorem span_inner (p : Position) (lexeme before part : List Char) :
    (p.span lexeme).inner before part = (p.after before).span part := by
  rw [Span.inner, span, span, offset_after, line_after, column_after]

end Position

namespace Source

theorem step_place (before : List Char) (c : Char) : (place before).step c = place (before ++ [c]) := by
  have hbytes : Text.byteLength (before ++ [c]) = Text.byteLength before + c.utf8Size := by
    rw [Text.byteLength_append, Text.byteLength_cons]
    rfl
  unfold place Position.step
  rw [hbytes]
  split
  case isTrue hc =>
    simp [lineAfter, columnAfter, hc]
    omega
  case isFalse hc =>
    simp [lineAfter, columnAfter, hc]
    omega

theorem after_place (before cs : List Char) : (place before).after cs = place (before ++ cs) := by
  induction cs generalizing before with
  | nil => rw [List.append_nil]; rfl
  | cons c cs ih =>
    rw [Position.after, List.foldl_cons, ← Position.after, step_place, ih, List.append_assoc]
    rfl

theorem start_after (cs : List Char) : Position.start.after cs = place cs := after_place [] cs

end Source

end FilterSql
