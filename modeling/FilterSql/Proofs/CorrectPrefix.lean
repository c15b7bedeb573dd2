import FilterSql.Proofs.ParserVerdict
import FilterSql.Proofs.TokenLayout

/-! Where a parse error points. The token that it names is the first that no sentence has in this place: what
stands before it can be carried on to a sentence, and with it that can no longer be done. An error at the end of
a stream says that the whole stream is the beginning of a sentence and not yet one. -/
namespace FilterSql

namespace Grammar

open FilterSql.Parser

def Sentence (ts : List Token) : Prop := ∃ e, Spells .disjunction ts e

/-- Some sentence begins so. -/
def Viable (ts : List Token) : Prop := ∃ us, Sentence (ts ++ us)

/-- Some longer sentence begins so, but this is none. -/
def Unfinished (ts : List Token) : Prop := (∃ us, us ≠ [] ∧ Sentence (ts ++ us)) ∧ ¬Sentence ts

theorem Sentence.ne_nil (h : Sentence ts) : ts ≠ [] := by
  obtain ⟨e, d, hd⟩ := h
  obtain ⟨t, us, rfl, -⟩ := hd.head
  simp

theorem Sentence.ne_finish (h : Sentence ts) : ∀ t ∈ ts, t.kind ≠ .finish := by
  obtain ⟨e, d, hd⟩ := h
  exact hd.ne_finish

theorem unfinished_nil : Unfinished [] :=
  ⟨⟨_, by simp, _, spells_name.disjunction_of_primary⟩, fun h => h.ne_nil rfl⟩

theorem Sentence.read (h : Sentence ts) :
    ∃ e d, ∀ limit room, d ≤ room → ∀ eof : Token, eof.kind = .finish →
      (level limit room).orExpr (ts ++ [eof]) = .ok (e, [eof]) := by
  obtain ⟨e, d, hd⟩ := h
  refine ⟨e, d, fun limit room hle eof heof => ?_⟩
  exact accepted_of_derives limit hd room [eof] hle (ends_of_finish heof [])

/-- The span is that of the token at `p` alone, and this is the first token that no sentence has in its place. -/
structure Misfit (tokens : List Token) (p : Nat) (span : Span) : Prop where
  place : ∀ q, tokens[q]?.map Token.span = some span ↔ q = p
  before : Viable (tokens.take p)
  behind : ¬Viable (tokens.take (p + 1))

end Grammar

theorem Token.Laid.eq_of_span {tokens : List Token} (h : Laid start tokens) {p q : Nat} {t u : Token}
    (ht : tokens[p]? = some t) (hu : tokens[q]? = some u) (hspan : u.span = t.span) : q = p := by
  obtain ⟨hp, rfl⟩ := List.getElem?_eq_some_iff.mp ht
  obtain ⟨hq, rfl⟩ := List.getElem?_eq_some_iff.mp hu
  have hbefore := List.pairwise_iff_getElem.mp h.pairwise_start
  rcases Nat.lt_trichotomy q p with hlt | heq | hlt
  · exact absurd (hbefore q p hq hp hlt) (by rw [hspan]; exact Nat.lt_irrefl _)
  · exact heq
  · exact absurd (hbefore p q hp hq hlt) (by rw [hspan]; exact Nat.lt_irrefl _)

namespace Parser

open Grammar

theorem Begun.ne_finish {us : List Token} (h : Begun (Spells p) us) : ∀ t ∈ us, t.kind ≠ .finish := by
  obtain ⟨vs, e, -, d, hd⟩ := h
  exact fun t ht => hd.ne_finish t (List.mem_append_left vs ht)

section Reading

variable {depth room : Nat} {stream rest : List Token} {e : Expr} {err : ParseError}

/-- What a level reads is a sentence, and the next token does not go on with it. -/
theorem sentence_of_read (h : (level depth room).orExpr stream = .ok (e, rest)) :
    ∃ us, stream = us ++ rest ∧ Sentence us ∧ ∀ ws, ¬Sentence (us ++ peek rest :: ws) := by
  obtain ⟨us, d, rfl, hd, -⟩ := (level_sound depth room).orExpr h
  refine ⟨us, rfl, ⟨e, d, hd⟩, fun ws hsentence => ?_⟩
  -- A level with room for the longer sentence would read all of it, but decides as this one does.
  obtain ⟨f, b, hread⟩ := hsentence.read
  have hlonger := hread depth (max room b) (Nat.le_max_right room b) (.bare .finish) rfl
  have hverdict := (level_decides depth depth (Nat.le_max_left room b)).orExpr (us ++ rest)
  rw [h] at hverdict
  cases hverdict with
  | read vs _ _ hts _ hsame =>
    obtain rfl : us = vs := List.append_cancel_right hts
    have hagain := hsame (peek rest :: (ws ++ [.bare .finish])) rfl
    rw [List.append_assoc, List.cons_append, hagain] at hlonger
    simp at hlonger

/-- A level that complains has read the beginning of a sentence, and no sentence goes on with the token that it
stopped at. -/
theorem begun_of_error (h : (level depth room).orExpr stream = .error err) (herr : err.isTooComplex = false)
    (hvs : Sentence vs) :
    ∃ us rest, stream = us ++ rest ∧ Begun (Spells .disjunction) us ∧ Blames us (peek rest) err ∧
      ∀ ws eof, eof.kind = .finish → peek (ws ++ [eof]) = peek rest → vs ≠ us ++ ws := by
  obtain ⟨f, b, hread⟩ := hvs.read
  have hverdict := (level_decides depth depth (Nat.le_max_left room b)).orExpr stream
  rw [h] at hverdict
  cases hverdict with
  | stuck us rest _ hts hbegun hblames hsame =>
    refine ⟨us, rest, hts, hbegun, hblames, ?_⟩
    rintro ws eof heof hpeek rfl
    have hwhole := hread depth (max room b) (Nat.le_max_right room b) eof heof
    rw [List.append_assoc, hsame _ hpeek] at hwhole
    cases hwhole
  | refused us rest limit hts hk => cases herr

end Reading

section Stream

variable {ts us rest : List Token} {eof last : Token}

theorem cut_of_stream (heof : eof.kind = .finish) (hus : ∀ t ∈ us, t.kind ≠ .finish)
    (h : ts ++ [eof, last] = us ++ rest) :
    (ts ++ [eof]).take us.length = us ∧ (ts ++ [eof])[us.length]? = some (peek rest) := by
  have hsplit : (ts ++ [eof]) ++ [last] = us ++ rest := by simpa using h
  rcases List.append_eq_append_iff.mp hsplit with ⟨vs, rfl, -⟩ | ⟨vs, hvs, rfl⟩
  · exact absurd heof (hus eof (by simp))
  · cases vs with
    | nil =>
      rw [List.append_nil] at hvs
      exact absurd heof (hus eof (by simp [← hvs]))
    | cons v vs => simp [hvs]

theorem eq_of_stream (hts : ∀ t ∈ ts, t.kind ≠ .finish) (heof : eof.kind = .finish)
    (hus : ∀ t ∈ us, t.kind ≠ .finish) (h : ts ++ [eof, last] = us ++ rest) (hk : (peek rest).kind = .finish) :
    us = ts ∧ peek rest = eof := by
  obtain ⟨htake, hget⟩ := cut_of_stream heof hus h
  have hlength : us.length = ts.length := by
    have hbound : us.length < (ts ++ [eof]).length := (List.getElem?_eq_some_iff.mp hget).1
    rw [List.length_append, List.length_singleton] at hbound
    by_cases hlt : us.length < ts.length
    · rw [List.getElem?_append_left hlt] at hget
      exact absurd hk (hts _ (List.mem_of_getElem? hget))
    · omega
  rw [hlength, List.take_left] at htake
  rw [hlength, List.getElem?_concat_length] at hget
  exact ⟨htake.symm, (Option.some.inj hget).symm⟩

theorem misfit_of_stream (hlaid : Token.Laid start (ts ++ [eof])) (heof : eof.kind = .finish)
    (hus : ∀ t ∈ us, t.kind ≠ .finish) (h : ts ++ [eof, last] = us ++ rest) (hviable : Viable us)
    (hno : ∀ ws, ¬Sentence (us ++ peek rest :: ws)) :
    Misfit (ts ++ [eof]) us.length (peek rest).span := by
  obtain ⟨htake, hget⟩ := cut_of_stream heof hus h
  refine ⟨fun q => ⟨fun hq => ?_, ?_⟩, by rwa [htake], ?_⟩
  · obtain ⟨u, hu, hspan⟩ := Option.map_eq_some_iff.mp hq
    exact hlaid.eq_of_span hget hu hspan
  · rintro rfl
    rw [hget, Option.map_some]
  · rintro ⟨ws, hws⟩
    rw [List.take_add_one, htake, hget, Option.toList_some, List.append_assoc] at hws
    exact hno ws hws

/-- How a stream fails: it is empty or too long, or the reader complains, or it stops before the end. -/
theorem ofTokens_eq_error {limits : Limits} {err : ParseError} (hts : ∀ t ∈ ts, t.kind ≠ .finish)
    (heof : eof.kind = .finish) (h : Expr.ofTokens limits (ts ++ [eof]) = .error err) :
    (ts = [] ∧ err = .empty) ∨
    (∃ t ∈ ts, err = .tooComplex (.tokens ts.length limits.maxTokens) t.span) ∨
    ∃ last, last.kind = .finish ∧
      ((level limits.effectiveDepth limits.effectiveDepth).orExpr (ts ++ [eof, last]) = .error err ∨
      ∃ e rest, (level limits.effectiveDepth limits.effectiveDepth).orExpr (ts ++ [eof, last]) = .ok (e, rest) ∧
        (err = .unmatchedParen (peek rest).span ∨ err = unexpected (peek rest) .operatorOrEnd)) := by
  by_cases hpos : 1 ≤ ts.length
  · by_cases hmax : ts.length ≤ limits.maxTokens
    · rw [ofTokens_stream hts heof hpos hmax, bind_eq_error] at h
      refine .inr (.inr ⟨_, streamEnd_kind (ts ++ [eof]), h.imp id ?_⟩)
      rintro ⟨⟨e, rest⟩, hread, hrest⟩
      refine ⟨e, rest, hread, ?_⟩
      dsimp only at hrest
      split at hrest
      · cases hrest
      · exact .inl (Except.error.inj hrest).symm
      · exact .inr (Except.error.inj hrest).symm
    · have hlt : limits.maxTokens < ts.length := by omega
      refine .inr (.inl ⟨ts[limits.maxTokens], List.getElem_mem hlt, ?_⟩)
      unfold Expr.ofTokens at h
      simp only [tokenCount_stream hts heof] at h
      rw [if_neg (by omega), if_pos hlt, List.getElem?_append_left hlt, List.getElem?_eq_getElem hlt] at h
      exact (Except.error.inj h).symm
  · obtain rfl : ts = [] := List.length_eq_zero_iff.mp (by omega)
    unfold Expr.ofTokens at h
    rw [tokenCount_stream hts heof] at h
    exact .inl ⟨rfl, (Except.error.inj h).symm⟩

section Error

variable {depth room : Nat} {err : ParseError}

theorem unfinished_of_error (hts : ∀ t ∈ ts, t.kind ≠ .finish) (heof : eof.kind = .finish)
    (h : (level depth room).orExpr (ts ++ [eof, last]) = .error err) (herr : err.isTooComplex = false)
    (hend : ∀ us t, Blames us t err → t.kind = .finish) :
    Unfinished ts ∧ ∃ t, Blames ts t err := by
  have hstop : ∀ {vs}, Sentence vs → Begun (Spells .disjunction) ts ∧ (∃ t, Blames ts t err) ∧ vs ≠ ts := by
    intro vs hvs
    obtain ⟨us, rest, heq, hbegun, hblames, hno⟩ := begun_of_error h herr hvs
    obtain ⟨rfl, hpeek⟩ := eq_of_stream hts heof hbegun.ne_finish heq (hend _ _ hblames)
    exact ⟨hbegun, ⟨_, hblames⟩, by simpa using hno [] eof heof hpeek.symm⟩
  obtain ⟨⟨vs, e, hne, hvs⟩, hblames, -⟩ := hstop ⟨_, spells_name.disjunction_of_primary⟩
  exact ⟨⟨⟨vs, hne, e, hvs⟩, fun hsentence => (hstop hsentence).2.2 rfl⟩, hblames⟩

theorem misfit_of_error (hlaid : Token.Laid start (ts ++ [eof])) (heof : eof.kind = .finish)
    (h : (level depth room).orExpr (ts ++ [eof, last]) = .error (.unexpectedToken found expected span)) :
    ∃ p, Misfit (ts ++ [eof]) p span := by
  have hstop : ∀ {vs}, Sentence vs → _ := fun hvs => begun_of_error h rfl hvs
  obtain ⟨us, rest, heq, hbegun, ⟨-, rfl⟩, -⟩ := hstop ⟨_, spells_name.disjunction_of_primary⟩
  obtain ⟨htake, hget⟩ := cut_of_stream heof hbegun.ne_finish heq
  refine ⟨us.length, misfit_of_stream hlaid heof hbegun.ne_finish heq ?_ fun ws hws => ?_⟩
  · obtain ⟨vs, e, -, hvs⟩ := hbegun
    exact ⟨vs, e, hvs⟩
  · -- Whatever the room, the complaint names one token, so it is raised at one place.
    obtain ⟨us', rest', heq', hbegun', ⟨-, hspan⟩, hno⟩ := hstop hws
    obtain ⟨htake', hget'⟩ := cut_of_stream heof hbegun'.ne_finish heq'
    have hlength := hlaid.eq_of_span hget hget' hspan.symm
    have hus : us' = us := by rw [← htake', hlength, htake]
    have hpeek : peek rest' = peek rest := by rw [hlength, hget] at hget'; exact (Option.some.inj hget').symm
    exact hno (peek rest :: ws) eof heof hpeek.symm (by rw [hus])

end Error

end Stream

end Parser

open FilterSql.Parser FilterSql.Grammar

/-- Parse errors keep to the correct prefix. An unexpected token and an unmatched parenthesis are the first token
that no sentence has in its place, and before the latter stands a sentence; every other complaint but that of a
limit says that the text is the beginning of a sentence and not one itself, and an unclosed parenthesis is the
innermost of those left open. -/
theorem ofTokens_error_correct_prefix {source : String} {tokens : List Token} {limits : Limits}
    {err : ParseError} (htokens : tokenize source = .ok tokens) (herr : Expr.ofTokens limits tokens = .error err) :
    ∃ ts eof, tokens = ts ++ [eof] ∧ (∀ t ∈ ts, t.kind ≠ .finish) ∧ eof.kind = .finish ∧
      match err with
      | .empty => Unfinished ts
      | .unexpectedEnd _ _ => Unfinished ts
      | .unclosedParen span => Unfinished ts ∧
          ∃ opening ∈ ts, opening.kind = .symbol .leftParen ∧ (unclosed ts).head? = some opening ∧
            opening.span = span
      | .unexpectedToken _ _ span => ∃ p, Misfit tokens p span
      | .unmatchedParen span => ∃ p, Misfit tokens p span ∧ Sentence (tokens.take p)
      | .tooComplex _ _ => True := by
  have hlaid := laid_of_tokenize htokens
  obtain ⟨ts, eof, rfl, hts, heof⟩ := hlaid.exists_finish
  refine ⟨ts, eof, rfl, hts, heof, ?_⟩
  rcases ofTokens_eq_error hts heof herr with
    ⟨rfl, rfl⟩ | ⟨t, -, rfl⟩ | ⟨last, -, hread | ⟨e, rest, hread, hrest⟩⟩
  · exact unfinished_nil
  · trivial
  · cases err with
    | empty =>
      obtain ⟨-, t, hblames⟩ := unfinished_of_error hts heof hread rfl fun _ _ h => h.elim
      exact hblames.elim
    | unexpectedEnd expected span => exact (unfinished_of_error hts heof hread rfl fun _ _ h => h.1).1
    | unclosedParen span =>
      obtain ⟨hunfinished, t, -, opening, hopening, hspan⟩ :=
        unfinished_of_error hts heof hread rfl fun _ _ h => h.1
      exact ⟨hunfinished, opening, hopening.mem, hopening.kind, hopening.top [], hspan⟩
    | unexpectedToken found expected span => exact misfit_of_error hlaid heof hread
    | unmatchedParen span =>
      obtain ⟨-, t, hblames⟩ := unfinished_of_error hts heof hread rfl fun _ _ h => h.elim
      exact hblames.elim
    | tooComplex guard span => trivial
  · obtain ⟨us, heq, hus, hno⟩ := sentence_of_read hread
    have hmisfit := misfit_of_stream hlaid heof hus.ne_finish heq ⟨[], by simpa using hus⟩ hno
    rcases hrest with rfl | rfl
    · exact ⟨_, hmisfit, by rwa [(cut_of_stream heof hus.ne_finish heq).1]⟩
    · exact ⟨_, hmisfit⟩

theorem ofTokens_error_correct_prefix_nested :
    ∃ tokens, tokenize "(a && f(b" = .ok tokens ∧
      Expr.ofTokens ⟨8, 64⟩ tokens = .error (.unclosedParen ⟨7, 8, 1, 8⟩) ∧
      ∃ ts eof, tokens = ts ++ [eof] ∧ Unfinished ts ∧
        (unclosed ts).head?.map Token.span = some ⟨7, 8, 1, 8⟩ := by
  have h : (tokenize "(a && f(b").map (Expr.ofTokens ⟨8, 64⟩) = .ok (.error (.unclosedParen ⟨7, 8, 1, 8⟩)) := by
    with_unfolding_all rfl
  cases htokens : tokenize "(a && f(b" with
  | error e =>
    rw [htokens] at h
    cases h
  | ok tokens =>
    rw [htokens] at h
    have herr := Except.ok.inj h
    obtain ⟨ts, eof, heq, -, -, hunfinished, opening, -, -, hhead, hspan⟩ :=
      ofTokens_error_correct_prefix htokens herr
    exact ⟨tokens, rfl, herr, ts, eof, heq, hunfinished, by rw [hhead, Option.map_some, hspan]⟩

end FilterSql
