import FilterSql.Proofs.ParserComplete

/-! Which token streams are expressions. The parser accepts exactly the sentences of the grammar whose
length and whose demand are within the limits, and gives each the one expression it derives. -/
namespace FilterSql.Grammar

open FilterSql.Parser

theorem Derives.unique (he : Derives .disjunction ts e d) (hf : Derives .disjunction ts f b) :
    e = f ∧ d = b := by
  have hends : Ends .disjunction [] := by
    unfold Ends
    decide
  have haccept : ∀ {e d}, Derives .disjunction ts e d → ∀ room, d ≤ room →
      (level 0 room).orExpr (ts ++ []) = .ok (e, []) := fun h room hle =>
    accepted_of_derives 0 h room [] hle hends
  have hrefuse : ∀ {e d}, Derives .disjunction ts e d → ∀ room, room < d →
      ∃ span, (level 0 room).orExpr (ts ++ []) = .error (.tooComplex (.depth 0) span) :=
    fun h room hlt => refused_of_derives 0 h room [] hlt hends
  constructor
  · have h₁ := haccept he (max d b) (by omega)
    rw [haccept hf (max d b) (by omega)] at h₁
    cases h₁
    rfl
  · -- The demand is the least room with which the sentence is read.
    rcases Nat.lt_trichotomy d b with hlt | heq | hlt
    · obtain ⟨span, h⟩ := hrefuse hf d hlt
      rw [haccept he d (by omega)] at h
      cases h
    · exact heq
    · obtain ⟨span, h⟩ := hrefuse he b hlt
      rw [haccept hf b (by omega)] at h
      cases h

theorem countP_of_ne_finish {ts : List Token} (h : ∀ t ∈ ts, t.kind ≠ .finish) :
    ts.countP (fun t => t.kind ≠ .finish) = ts.length := by
  rw [List.countP_eq_length]
  intro t ht
  simpa using h t ht

/-- Whatever stream is accepted, a sentence of the grammar stands at its front, and what follows is the
end of the stream. -/
theorem derives_of_ofTokens {limits : Limits} {tokens : List Token}
    (h : Expr.ofTokens limits tokens = .ok e) :
    ∃ us rest d, tokens ++ [Expr.streamEnd tokens] = us ++ rest ∧ (peek rest).kind = .finish ∧
      Derives .disjunction us e d ∧ d ≤ limits.effectiveDepth ∧
      1 ≤ Expr.tokenCount tokens ∧ Expr.tokenCount tokens ≤ limits.maxTokens := by
  unfold Expr.ofTokens at h
  dsimp only at h
  split at h
  · cases h
  rename_i hcount
  split at h
  · cases h
  rename_i hmax
  obtain ⟨⟨f, rest⟩, hread, hend⟩ := bind_eq_ok.mp h
  obtain ⟨us, d, hts, hd, hle⟩ := (level_sound _ limits.effectiveDepth).orExpr hread
  dsimp only at hend
  split at hend
  · rename_i hk
    cases hend
    exact ⟨us, rest, d, hts, hk, hd, hle, by omega, by omega⟩
  · cases hend
  · cases hend

theorem streamEnd_kind (tokens : List Token) : (Expr.streamEnd tokens).kind = .finish := rfl

theorem Derives.length_le_tokenCount (h : Derives p us e d) {tokens rest : List Token}
    (heq : tokens ++ [Expr.streamEnd tokens] = us ++ rest) : us.length ≤ Expr.tokenCount tokens := by
  have hcount := congrArg (List.countP fun t : Token => t.kind ≠ .finish) heq
  rw [List.countP_append, List.countP_append, countP_of_ne_finish h.ne_finish] at hcount
  have hlast : [Expr.streamEnd tokens].countP (fun t => t.kind ≠ .finish) = 0 := by
    simp [streamEnd_kind]
  rw [hlast] at hcount
  unfold Expr.tokenCount
  omega

section Stream

variable {limits : Limits} {ts : List Token} {eof : Token}

theorem tokenCount_stream (hts : ∀ t ∈ ts, t.kind ≠ .finish) (heof : eof.kind = .finish) :
    Expr.tokenCount (ts ++ [eof]) = ts.length := by
  rw [Expr.tokenCount, List.countP_append, countP_of_ne_finish hts]
  simp [heof]

theorem eq_of_append_finish {us rest rest' : List Token} {t t' : Token}
    (hts : ∀ t ∈ ts, t.kind ≠ .finish) (hus : ∀ t ∈ us, t.kind ≠ .finish)
    (ht : t.kind = .finish) (ht' : t'.kind = .finish) (heq : ts ++ t :: rest = us ++ t' :: rest') :
    ts = us := by
  rcases List.append_eq_append_iff.mp heq with ⟨vs, rfl, hvs⟩ | ⟨vs, rfl, hvs⟩
  · cases vs with
    | nil => simp
    | cons v vs =>
      cases hvs
      exact absurd ht (hus _ (by simp))
  · cases vs with
    | nil => simp
    | cons v vs =>
      cases hvs
      exact absurd ht' (hts _ (by simp))

theorem ofTokens_stream (hts : ∀ t ∈ ts, t.kind ≠ .finish) (heof : eof.kind = .finish)
    (hpos : 1 ≤ ts.length) (hmax : ts.length ≤ limits.maxTokens) :
    Expr.ofTokens limits (ts ++ [eof]) =
      (level limits.effectiveDepth limits.effectiveDepth).orExpr
          (ts ++ [eof, Expr.streamEnd (ts ++ [eof])]) >>= fun (e, rest) =>
        match (peek rest).kind with
        | .finish => .ok e
        | .symbol .rightParen => .error (.unmatchedParen (peek rest).span)
        | _ => .error (unexpected (peek rest) .operatorOrEnd) := by
  unfold Expr.ofTokens
  simp only [tokenCount_stream hts heof, List.append_assoc, List.cons_append, List.nil_append]
  exact (if_neg (by omega)).trans (if_neg (by omega))

theorem ends_of_finish (heof : eof.kind = .finish) (rest : List Token) :
    Ends .disjunction (eof :: rest) := by
  simp [Ends, reach, looseness, heof]

theorem ofTokens_of_derives (hts : ∀ t ∈ ts, t.kind ≠ .finish) (heof : eof.kind = .finish)
    (hmax : ts.length ≤ limits.maxTokens) (h : Derives .disjunction ts e d)
    (hle : d ≤ limits.effectiveDepth) : Expr.ofTokens limits (ts ++ [eof]) = .ok e := by
  have hpos : 1 ≤ ts.length := by
    obtain ⟨t, us, rfl, -⟩ := h.head
    simp
  have hread : (level limits.effectiveDepth limits.effectiveDepth).orExpr
      (ts ++ [eof, Expr.streamEnd (ts ++ [eof])]) = .ok (e, [eof, Expr.streamEnd (ts ++ [eof])]) :=
    accepted_of_derives _ h _ _ hle (ends_of_finish heof _)
  rw [ofTokens_stream hts heof hpos hmax, hread, ok_bind]
  simp only [peek_cons, heof]

theorem derives_of_ofTokens_stream (hts : ∀ t ∈ ts, t.kind ≠ .finish) (heof : eof.kind = .finish)
    (h : Expr.ofTokens limits (ts ++ [eof]) = .ok e) :
    (1 ≤ ts.length ∧ ts.length ≤ limits.maxTokens) ∧
      ∃ d, Derives .disjunction ts e d ∧ d ≤ limits.effectiveDepth := by
  obtain ⟨us, rest, d, heq, hk, hd, hle, hpos, hmax⟩ := derives_of_ofTokens h
  rw [tokenCount_stream hts heof] at hpos hmax
  have hne : rest ≠ [] := by
    rintro rfl
    have hmem : Expr.streamEnd (ts ++ [eof]) ∈ us := by
      rw [← List.append_nil us, ← heq]
      simp
    exact hd.ne_finish _ hmem rfl
  obtain ⟨t, rest, rfl⟩ := List.exists_cons_of_ne_nil hne
  rw [List.append_assoc, List.singleton_append] at heq
  have hus : ts = us := eq_of_append_finish hts hd.ne_finish heof hk heq
  subst hus
  exact ⟨⟨hpos, hmax⟩, d, hd, hle⟩

end Stream

end FilterSql.Grammar
