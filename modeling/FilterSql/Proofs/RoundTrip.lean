import FilterSql.Proofs.Acceptance
import FilterSql.Proofs.Written

/-! Reading undoes writing. The tokens of a written expression derive the expression that was written, up to
the places of its parts, and demand the nesting that it has. -/
namespace FilterSql

section Deriving

open FilterSql.Expr FilterSql.Grammar FilterSql.Parser

theorem Path.ofText_text {path : Path} (hne : path.segments ≠ [])
    (h : ∀ word ∈ path.segments, Text.isIdentifier word.toList = true) : Path.ofText path.text = path := by
  have hdot : ∀ word ∈ path.segments, '.' ∉ word.toList := by
    intro word hword hmem
    exact absurd (Text.isNamePart_of_isIdentifier (h word hword) '.' hmem) (by decide)
  have hsplit : path.text.toList.splitOn '.' = path.segments.map String.toList := Text.splitOn_join hne hdot
  rw [Path.ofText, hsplit]
  simp [Function.comp_def]

def DerivesAs (p : Phrase) (ts : List Token) (e : Expr) (d : Nat) : Prop :=
  ∃ e', Derives p ts e' d ∧ e'.unplaced = e.unplaced

theorem DerivesAs.ofPrimary (h : DerivesAs .primary ts e d) : DerivesAs .disjunction ts e d := by
  obtain ⟨e', hd, he⟩ := h
  exact ⟨e', .ofUnary (.positive (.alone hd)), he⟩

theorem DerivesAs.enclosed (h : ∀ us, us.map Token.kind = ks → DerivesAs .disjunction us e d)
    (hts : ts.map Token.kind = enclosedKinds ks) : DerivesAs .primary ts e (1 + d) := by
  obtain ⟨opening, us, rfl, hopening, hus⟩ := List.map_eq_cons_iff.mp hts
  obtain ⟨vs, ws, rfl, hvs, hws⟩ := List.map_eq_append_iff.mp hus
  obtain ⟨closing, ws, rfl, hclosing, hws⟩ := List.map_eq_cons_iff.mp hws
  obtain rfl := List.map_eq_nil_iff.mp hws
  obtain ⟨e', hd, he⟩ := h vs hvs
  exact ⟨e', .group hopening hclosing hd, he⟩

theorem DerivesAs.separated {es : List Expr}
    (h : ∀ e ∈ es, ∀ us, us.map Token.kind = e.kinds → DerivesAs .disjunction us e e.depth)
    (hts : ts.map Token.kind = kindsListed es) :
    ∃ args, Separated args ts ∧ (∀ a ∈ args, Derives .disjunction a.tokens a.expr a.demand) ∧
      (args.map Argument.expr).map unplaced = es.map unplaced ∧ deepest args = depthOfAll es := by
  induction es generalizing ts with
  | nil =>
    obtain rfl := List.map_eq_nil_iff.mp hts
    exact ⟨[], .none, by simp, rfl, rfl⟩
  | cons e es ih =>
    obtain ⟨he, hes⟩ := List.forall_mem_cons.mp h
    cases es with
    | nil =>
      obtain ⟨e', hd, hunplaced⟩ := he ts hts
      refine ⟨[⟨ts, e', e.depth⟩], .last ⟨ts, e', e.depth⟩, ?_, ?_, rfl⟩
      · simpa using hd
      · simpa using hunplaced
    | cons f es =>
      obtain ⟨us, vs, rfl, hus, hvs⟩ := List.map_eq_append_iff.mp hts
      obtain ⟨comma, vs, rfl, hcomma, hvs⟩ := List.map_eq_cons_iff.mp hvs
      obtain ⟨e', hd, hunplaced⟩ := he us hus
      obtain ⟨args, hseparated, hargs, hexprs, hdeepest⟩ := ih hes hvs
      cases args with
      | nil => cases hexprs
      | cons b args =>
        refine ⟨⟨us, e', e.depth⟩ :: b :: args, .more ⟨us, e', e.depth⟩ hcomma hseparated, ?_, ?_, ?_⟩
        · exact List.forall_mem_cons.mpr ⟨hd, hargs⟩
        · simpa [hunplaced] using hexprs
        · exact congrArg (max e.depth) hdeepest

theorem DerivesAs.connect (connective : Connective)
    (hleft : ∀ us, us.map Token.kind = l.kinds → DerivesAs .disjunction us l l.depth)
    (hright : ∀ us, us.map Token.kind = r.kinds → DerivesAs .disjunction us r r.depth) {s : Span}
    (hts : ts.map Token.kind = (Expr.connect connective l r s).kinds) :
    DerivesAs .disjunction ts (.connect connective l r s) (Expr.connect connective l r s).depth := by
  obtain ⟨us, vs, rfl, hus, hvs⟩ := List.map_eq_append_iff.mp hts
  obtain ⟨sign, vs, rfl, hsign, hvs⟩ := List.map_eq_cons_iff.mp hvs
  obtain ⟨l', hl, hlunplaced⟩ := DerivesAs.enclosed hleft hus
  obtain ⟨r', hr, hrunplaced⟩ := DerivesAs.enclosed hright hvs
  refine ⟨.join connective l' r', ?_, ?_⟩
  · -- A chain of one connective; of the two, `&&` stands inside a chain of `||` that has none.
    cases connective with
    | and =>
      have hl : Derives .unary us l' _ := .positive (.alone hl)
      have hr : Derives .unary vs r' _ := .positive (.alone hr)
      exact .disjunction (.first (.conjunction (.next hsign (.first hl) hr)))
    | or =>
      have hl : Derives .conjunction us l' _ := .conjunction (.first (.positive (.alone hl)))
      have hr : Derives .conjunction vs r' _ := .conjunction (.first (.positive (.alone hr)))
      exact .disjunction (.next hsign (.first hl) hr)
  · rw [join, unplaced, unplaced, hlunplaced, hrunplaced]

/-- The tokens of a written expression derive it, with the nesting that it has. -/
theorem Expr.Writable.derivesAs {e : Expr} (h : e.Writable) (ts : List Token)
    (hts : ts.map Token.kind = e.kinds) : DerivesAs .disjunction ts e e.depth := by
  induction h generalizing ts with
  | boolean | integer | text =>
    obtain ⟨token, us, rfl, htoken, hus⟩ := List.map_eq_cons_iff.mp hts
    obtain rfl := List.map_eq_nil_iff.mp hus
    exact .ofPrimary ⟨_, .literal htoken, rfl⟩
  | field hne hall =>
    obtain ⟨token, us, rfl, htoken, hus⟩ := List.map_eq_cons_iff.mp hts
    obtain rfl := List.map_eq_nil_iff.mp hus
    refine .ofPrimary ⟨_, .name htoken, ?_⟩
    rw [Path.ofText_text hne hall]
    rfl
  | connect _ _ ihl ihr => exact .connect _ ihl ihr hts
  | not _ ih =>
    obtain ⟨sign, us, rfl, hsign, hus⟩ := List.map_eq_cons_iff.mp hts
    obtain ⟨e', hd, he⟩ := DerivesAs.enclosed ih hus
    refine ⟨_, .ofUnary (.not hsign (.positive (.alone hd))), ?_⟩
    rw [unplaced, unplaced, he]
  | compare _ _ ihl ihr =>
    obtain ⟨us, vs, rfl, hus, hvs⟩ := List.map_eq_append_iff.mp hts
    obtain ⟨sign, vs, rfl, hsign, hvs⟩ := List.map_eq_cons_iff.mp hvs
    obtain ⟨l', hl, hlunplaced⟩ := DerivesAs.enclosed ihl hus
    obtain ⟨r', hr, hrunplaced⟩ := DerivesAs.enclosed ihr hvs
    refine ⟨_, .ofUnary (.positive (.compare hsign hl hr)), ?_⟩
    rw [unplaced, unplaced, hlunplaced, hrunplaced]
  | call _ _ _ _ ih =>
    obtain ⟨name, us, rfl, hname, hus⟩ := List.map_eq_cons_iff.mp hts
    obtain ⟨opening, us, rfl, hopening, hus⟩ := List.map_eq_cons_iff.mp hus
    obtain ⟨vs, ws, rfl, hvs, hws⟩ := List.map_eq_append_iff.mp hus
    obtain ⟨closing, ws, rfl, hclosing, hws⟩ := List.map_eq_cons_iff.mp hws
    obtain rfl := List.map_eq_nil_iff.mp hws
    obtain ⟨args, hseparated, hargs, hexprs, hdeepest⟩ := DerivesAs.separated ih hvs
    have hcall := Derives.call hname hopening hclosing hseparated hargs
    rw [hdeepest] at hcall
    refine .ofPrimary ⟨_, hcall, ?_⟩
    rw [unplaced, unplaced, unplacedAll_eq_map, unplacedAll_eq_map, hexprs]

end Deriving

namespace Grammar

open FilterSql.Parser

variable {limits : Limits} {ts : List Token} {eof : Token}

theorem ofTokens_tooMany (hts : ∀ t ∈ ts, t.kind ≠ .finish) (heof : eof.kind = .finish)
    (hmax : limits.maxTokens < ts.length) :
    ∃ span, Expr.ofTokens limits (ts ++ [eof]) =
      .error (.tooComplex (.tokens ts.length limits.maxTokens) span) := by
  unfold Expr.ofTokens
  simp only [tokenCount_stream hts heof]
  rw [if_neg (by omega), if_pos hmax]
  exact ⟨_, rfl⟩

theorem ofTokens_tooDeep (heof : eof.kind = .finish) (hmax : ts.length ≤ limits.maxTokens)
    (h : Derives .disjunction ts e d) (hdeep : limits.effectiveDepth < d) :
    ∃ span, Expr.ofTokens limits (ts ++ [eof]) =
      .error (.tooComplex (.depth limits.effectiveDepth) span) := by
  have hpos : 1 ≤ ts.length := by
    obtain ⟨t, us, rfl, -⟩ := h.head
    simp
  obtain ⟨span, hread⟩ := refused_of_derives limits.effectiveDepth h _
    [eof, Expr.streamEnd (ts ++ [eof])] hdeep (ends_of_finish heof _)
  refine ⟨span, ?_⟩
  rw [ofTokens_stream h.ne_finish heof hpos hmax]
  exact congrArg (· >>= _) hread

end Grammar

namespace Expr

theorem ofText_eq_of_tokenize {limits : Limits} {source : String} {tokens : List Token}
    (h : tokenize source = .ok tokens) : ofText limits source = (ofTokens limits tokens).mapError .parse := by
  rw [ofText, h]
  rfl

/-- Writing an expression down and reading the text gives the expression back, up to the places of its
parts, if the text has no more tokens and nests no deeper than the limits allow. Otherwise the text is
refused for having too many tokens or for nesting too deep, and for nothing else. -/
theorem ofText_written {gap : String} (hgap : ∀ c ∈ gap.toList, Text.isBlank c = true) {e : Expr}
    (h : e.Writable) (limits : Limits) :
    (e.kinds.length ≤ limits.maxTokens → e.depth ≤ limits.effectiveDepth →
      ∃ e', ofText limits (e.written gap) = .ok e' ∧ e'.unplaced = e.unplaced) ∧
    (limits.maxTokens < e.kinds.length → ∃ span, ofText limits (e.written gap) =
      .error (.parse (.tooComplex (.tokens e.kinds.length limits.maxTokens) span))) ∧
    (e.kinds.length ≤ limits.maxTokens → limits.effectiveDepth < e.depth →
      ∃ span, ofText limits (e.written gap) =
        .error (.parse (.tooComplex (.depth limits.effectiveDepth) span))) := by
  obtain ⟨ts, eof, htokens, hkinds, heof⟩ := h.tokenize hgap
  obtain ⟨e', hd, hunplaced⟩ := h.derivesAs ts hkinds
  have hlength : ts.length = e.kinds.length := by rw [← hkinds, List.length_map]
  rw [ofText_eq_of_tokenize htokens, ← hlength]
  refine ⟨?_, ?_, ?_⟩
  · intro hmax hdepth
    refine ⟨e', ?_, hunplaced⟩
    rw [Grammar.ofTokens_of_derives hd.ne_finish heof hmax hd hdepth]
    rfl
  · intro hmax
    obtain ⟨span, herror⟩ := Grammar.ofTokens_tooMany hd.ne_finish heof hmax
    exact ⟨span, by rw [herror]; rfl⟩
  · intro hmax hdepth
    obtain ⟨span, herror⟩ := Grammar.ofTokens_tooDeep heof hmax hd hdepth
    exact ⟨span, by rw [herror]; rfl⟩

def tangled : Expr :=
  .not (.connect .and
    (.compare .less (.literal (.integer (-9223372036854775808)) .nowhere) (.field ⟨["true", "_1"]⟩ .nowhere)
      .nowhere)
    (.call "f" [.literal (.text "\\\"\n") .nowhere, .literal (.boolean true) .nowhere] .nowhere)
    .nowhere) .nowhere

theorem ofText_tangled :
    tangled.written "" = "!(((-9223372036854775808)<(true._1))&&(f(\"\\\\\\\"\n\",true)))" ∧
    (∃ e, ofText ⟨5, 21⟩ (tangled.written "") = .ok e ∧ e.unplaced = tangled) ∧
    (∃ span, ofText ⟨4, 21⟩ (tangled.written "") = .error (.parse (.tooComplex (.depth 4) span))) := by
  have hwritable : tangled.Writable := by
    have hcall : (Expr.call "f" [.literal (.text "\\\"\n") .nowhere, .literal (.boolean true) .nowhere]
        .nowhere).Writable := by
      refine .call (by decide) (by decide) (by decide) ?_
      simp only [List.forall_mem_cons, List.not_mem_nil, false_implies, implies_true, and_true]
      exact ⟨.text (by decide), .boolean⟩
    have hwords : ∀ word ∈ ["true", "_1"], Text.isIdentifier word.toList = true := List.all_eq_true.mp rfl
    have hfield : (Expr.field ⟨["true", "_1"]⟩ .nowhere).Writable :=
      .field (List.cons_ne_nil _ _) hwords (by decide) (by decide)
    exact .not (.connect (.compare (.integer rfl) hfield) hcall)
  have hgap : ∀ c ∈ "".toList, Text.isBlank c = true := List.all_eq_true.mp rfl
  refine ⟨by decide, ?_, ?_⟩
  · exact (ofText_written hgap hwritable ⟨5, 21⟩).1 (by decide) (by decide)
  · exact (ofText_written hgap hwritable ⟨4, 21⟩).2.2 (by decide) (by decide)

end Expr

end FilterSql
