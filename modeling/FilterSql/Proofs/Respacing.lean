import FilterSql.Proofs.LexemeEnds
import FilterSql.Proofs.Tiling

/-! Blanks between tokens mean nothing. The lexemes of a text can be set apart by other blanks, and set apart
where they were not, and are read as the same tokens; only two lexemes that were apart have to stay so, and a
call its parenthesis. -/
namespace FilterSql

/-- Tokens written one behind the other, each behind a gap of its own. The last gap is that before the mark of
the end, which has no text. -/
def respaced : List String → List Token → String
  | gap :: gaps, t :: ts => gap ++ t.lexeme ++ respaced gaps ts
  | _, _ => ""

def Token.isCall (t : Token) : Bool :=
  match t.kind with
  | .call _ => true
  | _ => false

/-- Gaps that tokens may be given: blanks, some between two tokens that were apart, and none behind the name of
a call. -/
structure Spacing (tokens : List Token) (gaps : List String) : Prop where
  length : gaps.length = tokens.length
  blank : ∀ gap ∈ gaps, ∀ c ∈ gap.toList, c = ' ' ∨ c = '\t' ∨ c = '\r' ∨ c = '\n'
  apart : ∀ i < tokens.length, ∀ a ∈ tokens[i]?, ∀ b ∈ tokens[i + 1]?, ∀ gap ∈ gaps[i + 1]?,
    a.span.stop < b.span.start → gap ≠ ""
  call : ∀ i < tokens.length, ∀ a ∈ tokens[i]?, ∀ gap ∈ gaps[i + 1]?, a.isCall = true → gap = ""

namespace Spacing

variable {t : Token} {ts : List Token} {gap : String} {gaps : List String}

theorem exists_cons (h : Spacing (t :: ts) gaps) : ∃ gap gaps', gaps = gap :: gaps' := by
  refine List.exists_cons_of_ne_nil ?_
  rintro rfl
  cases h.length

theorem tail (h : Spacing (t :: ts) (gap :: gaps)) : Spacing ts gaps where
  length := Nat.succ.inj h.length
  blank := (List.forall_mem_cons.mp h.blank).2
  apart i hi := h.apart (i + 1) (Nat.succ_lt_succ hi)
  call i hi := h.call (i + 1) (Nat.succ_lt_succ hi)

theorem isBlank (h : Spacing (t :: ts) (gap :: gaps)) : ∀ c ∈ gap.toList, Text.isBlank c = true := by
  intro c hc
  simpa [Text.isBlank, or_assoc] using (List.forall_mem_cons.mp h.blank).1 c hc

end Spacing

namespace Lexed

variable {p : Position} {cs : List Char} {ts : List Token}

theorem head?_eq {t : Token} (h : Lexed p cs (t :: ts)) :
    (∃ b, cs.head? = some b ∧ Text.isBlank b = true ∧ p.offset < t.span.start) ∨
      ∀ gaps, cs.head? = (t.lexeme ++ FilterSql.respaced gaps ts).toList.head? := by
  have hlater : ∀ (b : Char) (blanks : List Char), p.offset < (p.after (b :: blanks)).offset := by
    intro b blanks
    have := b.utf8Size_pos
    rw [Position.offset_after, Text.byteLength_cons]
    omega
  cases h with
  | finish hblanks =>
    cases cs with
    | nil => exact .inr fun gaps => by cases gaps <;> rfl
    | cons b blanks => exact .inl ⟨b, rfl, hblanks b List.mem_cons_self, hlater b blanks⟩
  | @token blanks c lexeme rest shape k _ _ hblanks =>
    cases blanks with
    | nil => exact .inr fun gaps => by simp
    | cons b blanks => exact .inl ⟨b, rfl, hblanks b List.mem_cons_self, hlater b blanks⟩

/-- Behind a token, the tokens with their new gaps may come in the place of the text they were read from. -/
theorem replaces {t : Token} {gap : String} {gaps : List String} (h : Lexed p cs ts)
    (hgaps : Spacing (t :: ts) (gap :: gaps)) (hstop : t.span.stop = p.offset) :
    Lexeme.Replaces (FilterSql.respaced gaps ts).toList cs ∧
      (t.isCall = true → cs.head? = some '(' → (FilterSql.respaced gaps ts).toList.head? = some '(') := by
  obtain ⟨next, ts, rfl⟩ := List.exists_cons_of_ne_nil h.ne_nil
  obtain ⟨gap', gaps, rfl⟩ := hgaps.tail.exists_cons
  have htext : (FilterSql.respaced (gap' :: gaps) (next :: ts)).toList =
      gap'.toList ++ (next.lexeme ++ FilterSql.respaced gaps ts).toList := by
    simp [FilterSql.respaced]
  rw [htext]
  by_cases hgap : gap' = ""
  · -- No gap now, so there was none: both texts begin with the next token.
    rcases h.head?_eq with ⟨b, -, -, hlt⟩ | hsame
    · exact absurd hgap (hgaps.apart 0 (Nat.zero_lt_succ _) t rfl next rfl gap' rfl (by omega))
    · subst hgap
      rw [String.toList_empty, List.nil_append]
      exact ⟨.of_head? (hsame gaps).symm, fun _ hopen => (hsame gaps).symm.trans hopen⟩
  · have hne : gap'.toList ≠ [] := fun hempty => hgap (String.toList_eq_nil_iff.mp hempty)
    refine ⟨.of_blank hne hgaps.tail.isBlank, fun hcall => absurd ?_ hgap⟩
    exact hgaps.call 0 (Nat.zero_lt_succ _) t rfl gap' rfl hcall

theorem respaced (h : Lexed p cs ts) {gaps : List String} (hgaps : Spacing ts gaps) (q : Position) :
    ∃ us, Lexed q (FilterSql.respaced gaps ts).toList us ∧ us.map Token.kind = ts.map Token.kind ∧
      us.map Token.lexeme = ts.map Token.lexeme := by
  induction h generalizing gaps q with
  | @finish blanks p _ =>
    obtain ⟨gap, gaps, rfl⟩ := hgaps.exists_cons
    have htext : (FilterSql.respaced (gap :: gaps) [Token.finish ((p.after blanks).span [])]).toList =
        gap.toList := by
      cases gaps <;> simp [FilterSql.respaced, Token.finish]
    rw [htext]
    exact ⟨_, .finish hgaps.isBlank, rfl, rfl⟩
  | @token blanks c cs rest shape k ts p _ hc hcut hkind hrest ih =>
    obtain ⟨gap, gaps, rfl⟩ := hgaps.exists_cons
    obtain ⟨us, hus, hkinds, hlexemes⟩ := ih hgaps.tail ((q.after gap.toList).after (c :: cs))
    have hsame := Lexeme.kind_elsewhere (Lexeme.shaped_of_cut hcut) hkind (q.after gap.toList)
    have hcut' : Lexeme.cut (c :: cs ++ (FilterSql.respaced gaps ts).toList) = (shape, (c :: cs).length) := by
      obtain ⟨hreplaces, hcall⟩ := hrest.replaces hgaps (Position.offset_after _ _).symm
      refine Lexeme.cut_replaced hcut hkind hreplaces (fun _ => hrest.head?_ne_dot) ?_
      rintro rfl
      obtain ⟨-, hopen⟩ : _ ∧ rest.head? = some '(' := Lexeme.shaped_of_cut hcut
      cases hkind
      exact hcall rfl hopen
    have htoken := Lexed.token hgaps.isBlank hc hcut' hsame hus
    have htext : (FilterSql.respaced (gap :: gaps)
        (⟨k, String.ofList (c :: cs), (p.after blanks).span (c :: cs)⟩ :: ts)).toList =
          gap.toList ++ (c :: cs ++ (FilterSql.respaced gaps ts).toList) := by
      simp [FilterSql.respaced]
    rw [htext]
    exact ⟨_, htoken, congrArg (List.cons k) hkinds, congrArg (List.cons _) hlexemes⟩

end Lexed

/-- The tokens of a text are those of every text in which its lexemes stand in the same order with blanks
between them, if two that were apart are still apart and no call is parted from its parenthesis. -/
theorem tokenize_respaced {source : String} {tokens : List Token} (h : tokenize source = .ok tokens)
    {gaps : List String} (hgaps : Spacing tokens gaps) :
    ∃ tokens', tokenize (respaced gaps tokens) = .ok tokens' ∧
      tokens'.map Token.kind = tokens.map Token.kind ∧ tokens'.map Token.lexeme = tokens.map Token.lexeme := by
  obtain ⟨tokens', hread, hkinds, hlexemes⟩ := (tokenize_eq_ok_iff.mp h).respaced hgaps .start
  exact ⟨tokens', tokenize_eq_ok_iff.mpr hread, hkinds, hlexemes⟩

/-- The tokens of `f(a.b(-1) )`. -/
def callTokens : List Token :=
  [⟨.call "f", "f", ⟨0, 1, 1, 1⟩⟩, ⟨.symbol .leftParen, "(", ⟨1, 2, 1, 2⟩⟩, ⟨.name "a.b", "a.b", ⟨2, 5, 1, 3⟩⟩,
    ⟨.symbol .leftParen, "(", ⟨5, 6, 1, 6⟩⟩, ⟨.literal (.integer (-1)), "-1", ⟨6, 8, 1, 7⟩⟩,
    ⟨.symbol .rightParen, ")", ⟨8, 9, 1, 9⟩⟩, ⟨.symbol .rightParen, ")", ⟨10, 11, 1, 11⟩⟩,
    .finish ⟨11, 11, 1, 12⟩]

theorem tokenize_respaced_call :
    tokenize "f(a.b(-1) )" = .ok callTokens ∧
    Spacing callTokens ["", "", " ", "\t", "\n", "", "\r\n", " "] ∧
    ∃ tokens, tokenize "f( a.b\t(\n-1)\r\n) " = .ok tokens ∧
      tokens.map Token.kind = callTokens.map Token.kind ∧
      tokens.map Token.lexeme = callTokens.map Token.lexeme := by
  have hread : tokenize "f(a.b(-1) )" = .ok callTokens := by decide +kernel
  have hgaps : Spacing callTokens ["", "", " ", "\t", "\n", "", "\r\n", " "] :=
    ⟨rfl, by simp, by decide, by decide⟩
  have htext : respaced ["", "", " ", "\t", "\n", "", "\r\n", " "] callTokens = "f( a.b\t(\n-1)\r\n) " := by
    decide
  obtain ⟨tokens, hagain, hkinds, hlexemes⟩ := tokenize_respaced hread hgaps
  rw [htext] at hagain
  exact ⟨hread, hgaps, tokens, hagain, hkinds, hlexemes⟩

end FilterSql
