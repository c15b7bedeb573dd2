import FilterSql.Proofs.Binding
import FilterSql.Proofs.CorrectPrefix
import FilterSql.Proofs.KeptTokens
import FilterSql.Proofs.Tiling

/-! Where trees and errors say that they are. A node covers a part of the source from its first to its last kept
token. A parse error carries the span of a token, and an error of meaning that of a node or of the two operands
of a comparison, so each of them points at characters of the source. -/
namespace FilterSql

namespace Expr

theorem Node.trans (hab : Node a b) (hbc : Node b c) : Node a c := by
  induction hbc with
  | root => exact hab
  | left _ ih => exact .left ih
  | right _ ih => exact .right ih
  | operand _ ih => exact .operand ih
  | compareLeft _ ih => exact .compareLeft ih
  | compareRight _ ih => exact .compareRight ih
  | argument hmem _ ih => exact .argument hmem ih

/-- A span that an expression has somewhere: that of a node, or that over both operands of a comparison. -/
def Marked (e : Expr) (span : Span) : Prop :=
  (∃ a, Node a e ∧ a.span = span) ∨
    ∃ operator left right s, Node (.compare operator left right s) e ∧ left.span.cover right.span = span

theorem Node.marked (h : Node a e) : Marked e a.span := .inl ⟨a, h, rfl⟩

theorem Marked.of_node {s : Span} (h : Marked b s) (hb : Node b e) : Marked e s := by
  rcases h with ⟨a, ha, hspan⟩ | ⟨operator, left, right, outer, hnode, hspan⟩
  · exact .inl ⟨a, ha.trans hb, hspan⟩
  · exact .inr ⟨operator, left, right, outer, hnode.trans hb, hspan⟩

end Expr

namespace Predicate

open FilterSql.Expr

variable {catalog : Catalog} {err : SemanticError}

theorem span_of_resolve_error {path : Path} {span : Span} (h : resolve catalog path span = .error err) :
    err.span = span := by
  unfold resolve at h
  split at h
  · cases h
  · cases h
    rfl

theorem span_of_literalOperand_error {e : Expr} (h : literalOperand e = .error err) : err.span = e.span := by
  unfold literalOperand at h
  split at h
  · cases h
  · cases h
    rfl

theorem span_of_resolveOperand_error {e : Expr} (h : resolveOperand catalog e = .error err) :
    err.span = e.span := by
  unfold resolveOperand at h
  split at h
  case h_1 path span =>
    cases hresolve : resolve catalog path span with
    | ok f =>
      rw [hresolve] at h
      cases h
    | error err' =>
      rw [hresolve] at h
      cases h
      exact span_of_resolve_error hresolve
  case h_2 => cases h

theorem marked_of_bindComparison_error {operator : Comparison} {left right : Expr}
    (h : bindComparison catalog operator left right = .error err) (span : Span) :
    Marked (.compare operator left right span) err.span := by
  have hleft : Marked (.compare operator left right span) left.span := Node.marked (.compareLeft .root)
  have hright : Marked (.compare operator left right span) right.span := Node.marked (.compareRight .root)
  have hboth : Marked (.compare operator left right span) (left.span.cover right.span) :=
    .inr ⟨operator, left, right, span, .root, rfl⟩
  rcases bind_eq_error.mp h with h | ⟨leftField, -, h⟩
  · rwa [span_of_resolveOperand_error h]
  rcases bind_eq_error.mp h with h | ⟨rightField, -, h⟩
  · rwa [span_of_resolveOperand_error h]
  split at h
  case h_1 =>
    rwa [span_of_literalOperand_error (bind_ok_eq_error h)]
  case h_2 =>
    rwa [span_of_literalOperand_error (bind_ok_eq_error h)]
  case h_3 =>
    cases h
    exact hboth
  case h_4 =>
    cases h
    exact hboth

theorem marked_of_bindCall_error {name : String} {arguments : List Expr} {span : Span}
    (h : bindCall catalog name arguments span = .error err) : Marked (.call name arguments span) err.span := by
  have hcall : Marked (.call name arguments span) span := Node.marked .root
  have hargument : ∀ a ∈ arguments, Marked (.call name arguments span) a.span :=
    fun a ha => Node.marked (.argument ha .root)
  unfold bindCall at h
  split at h
  case h_1 =>
    cases h
    exact hcall
  case h_2 function _ =>
    split at h
    case h_1 path pathSpan needle =>
      rcases bind_eq_error.mp h with h | ⟨f, -, h⟩
      · rw [span_of_resolve_error h]
        exact hargument (.field path pathSpan) (by simp)
      · split at h
        case isTrue =>
          rw [span_of_literalOperand_error (bind_ok_eq_error h)]
          exact hargument needle (by simp)
        case isFalse =>
          cases h
          exact hcall
    case h_2 target needle _ =>
      cases h
      exact hargument target (by simp)
    case h_3 =>
      cases h
      exact hcall

theorem marked_of_bindField_error {path : Path} {span : Span} (h : bindField catalog path span = .error err) :
    Marked (.field path span) err.span := by
  have hfield : Marked (.field path span) span := Node.marked .root
  rcases bind_eq_error.mp h with h | ⟨f, -, h⟩
  · rwa [span_of_resolve_error h]
  · split at h
    case isTrue => cases h
    case isFalse =>
      cases h
      exact hfield

theorem marked_of_bindExpr_error {e : Expr} (h : bindExpr catalog e = .error err) : Marked e err.span := by
  fun_induction bindExpr catalog e with
  | case1 left right span ihl ihr =>
    rcases bind_bind_ok_eq_error h with h | h
    · exact (ihl h).of_node (.left .root)
    · exact (ihr h).of_node (.right .root)
  | case2 left right span ihl ihr =>
    rcases bind_bind_ok_eq_error h with h | h
    · exact (ihl h).of_node (.left .root)
    · exact (ihr h).of_node (.right .root)
  | case3 operand span ih => exact (ih (bind_ok_eq_error h)).of_node (.operand .root)
  | case4 operator left right span => exact marked_of_bindComparison_error h span
  | case5 name arguments span => exact marked_of_bindCall_error h
  | case6 path span => exact marked_of_bindField_error h
  | case7 value span =>
    cases h
    exact Node.marked .root

/-- An error of binding points at a node, or at the operands of a comparison. -/
theorem marked_of_bind_error {e : Expr} (h : Predicate.bind catalog e = .error err) : Marked e err.span := by
  rcases bind_eq_error.mp h with h | ⟨_, -, h⟩
  · unfold checkNames at h
    split at h
    case h_1 path span hfind =>
      cases h
      exact Node.marked (mem_names_iff.mp (List.mem_of_find?_eq_some hfind))
    case h_2 => cases h
  · exact marked_of_bindExpr_error h

def spans : Predicate α → List Span
  | and left right => left.spans ++ right.spans
  | or left right => left.spans ++ right.spans
  | not operand => operand.spans
  | compare _ _ _ span => [span]
  | search _ _ _ span => [span]

theorem mismatch_of_checkOperator_error {f : Field} {operator : Comparison} {span : Span}
    (h : checkOperator f operator span = .error err) : ∃ cause, err = .typeMismatch cause span := by
  unfold checkOperator at h
  split at h
  · cases h
    exact ⟨_, rfl⟩
  · cases h

theorem mismatch_of_coerce_error {f : Field} {literal : Literal} {span : Span}
    (h : coerce f literal span = .error err) : ∃ cause, err = .typeMismatch cause span := by
  have hmismatch : ∀ {cause : Mismatch}, (mismatch span cause : Except SemanticError Operand) = .error err →
      ∃ cause, err = .typeMismatch cause span := by
    intro cause h
    cases h
    exact ⟨cause, rfl⟩
  unfold coerce at h
  split at h
  case h_1 => cases h
  case h_2 => cases h
  case h_3 =>
    split at h
    · cases h
    · exact hmismatch h
  case h_4 => cases h
  case h_5 => cases h
  case h_6 => cases h
  case h_7 =>
    split at h
    · cases h
    · exact hmismatch h
  case h_8 => cases h
  case h_9 =>
    split at h
    · cases h
    · exact hmismatch h
  case h_10 => exact hmismatch h

theorem mismatch_of_needle_error {function : StringFunction} {literal : Literal} {span : Span}
    (h : needle function literal span = .error err) : ∃ cause, err = .typeMismatch cause span := by
  unfold needle at h
  split at h
  · cases h
  · cases h
    exact ⟨_, rfl⟩

theorem mismatch_of_check_error {p : Predicate Literal} (h : p.check = .error err) :
    err.span ∈ p.spans ∧ ∃ cause, err = .typeMismatch cause err.span := by
  fun_induction check p with
  | case1 left right ihl ihr =>
    rcases bind_bind_ok_eq_error h with h | h
    · exact (ihl h).imp_left (List.mem_append_left _)
    · exact (ihr h).imp_left (List.mem_append_right _)
  | case2 left right ihl ihr =>
    rcases bind_bind_ok_eq_error h with h | h
    · exact (ihl h).imp_left (List.mem_append_left _)
    · exact (ihr h).imp_left (List.mem_append_right _)
  | case3 operand ih => exact ih (bind_ok_eq_error h)
  | case4 f operator literal span =>
    have hmismatch : ∃ cause, err = .typeMismatch cause span := by
      rcases bind_eq_error.mp h with h | ⟨_, -, h⟩
      · exact mismatch_of_checkOperator_error h
      · exact mismatch_of_coerce_error (bind_ok_eq_error h)
    obtain ⟨cause, rfl⟩ := hmismatch
    exact ⟨List.mem_singleton_self span, cause, rfl⟩
  | case5 f function literal span =>
    obtain ⟨cause, rfl⟩ := mismatch_of_needle_error (bind_ok_eq_error h)
    exact ⟨List.mem_singleton_self span, cause, rfl⟩

theorem span_mem_of_check_error {p : Predicate Literal} (h : p.check = .error err) : err.span ∈ p.spans :=
  (mismatch_of_check_error h).1

theorem Bound.marked {e : Expr} {p : Predicate Literal} (h : Bound catalog e p) : ∀ s ∈ p.spans, Marked e s := by
  induction h with
  | and _ _ ihl ihr =>
    refine List.forall_mem_append.mpr ⟨fun s hs => ?_, fun s hs => ?_⟩
    · exact (ihl s hs).of_node (.left .root)
    · exact (ihr s hs).of_node (.right .root)
  | or _ _ ihl ihr =>
    refine List.forall_mem_append.mpr ⟨fun s hs => ?_, fun s hs => ?_⟩
    · exact (ihl s hs).of_node (.left .root)
    · exact (ihr s hs).of_node (.right .root)
  | not _ ih => exact fun s hs => (ih s hs).of_node (.operand .root)
  | field _ _ => exact List.forall_mem_singleton.mpr (Node.marked .root)
  | compare _ => exact List.forall_mem_singleton.mpr (Node.marked (.compareRight .root))
  | compareTurned _ => exact List.forall_mem_singleton.mpr (Node.marked (.compareLeft .root))
  | @call path s₁ value s₂ _ _ _ _ _ =>
    have hneedle : Expr.literal value s₂ ∈ [Expr.field path s₁, .literal value s₂] := by simp
    exact List.forall_mem_singleton.mpr (Node.marked (.argument hneedle .root))

end Predicate

namespace Parser

open Grammar

variable {ts : List Token} {eof : Token} {err : ParseError} {span : Span}

theorem Blames.span_mem {us : List Token} {t : Token} (h : Blames us t err) (hspan : err.span? = some span) :
    t.span = span ∨ ∃ u ∈ us, u.span = span := by
  cases err with
  | empty => exact h.elim
  | unexpectedToken found expected s =>
    cases hspan
    exact .inl h.2.symm
  | unexpectedEnd expected s =>
    cases hspan
    exact .inl h.2.symm
  | unclosedParen s =>
    cases hspan
    obtain ⟨-, opening, hopening, hs⟩ := h
    exact .inr ⟨opening, hopening.mem, hs⟩
  | unmatchedParen s => exact h.elim
  | tooComplex guard s => exact h.elim

theorem exists_token_of_error {limits : Limits} (hts : ∀ t ∈ ts, t.kind ≠ .finish) (heof : eof.kind = .finish)
    (h : Expr.ofTokens limits (ts ++ [eof]) = .error err) (hspan : err.span? = some span) :
    ∃ t ∈ ts ++ [eof], t.span = span := by
  rcases ofTokens_eq_error hts heof h with
    ⟨-, rfl⟩ | ⟨t, ht, rfl⟩ | ⟨last, hlast, hread | ⟨e, rest, hread, hrest⟩⟩
  · cases hspan
  · cases hspan
    exact ⟨t, List.mem_append_left _ ht, rfl⟩
  · have hverdict := (level_decides limits.effectiveDepth limits.effectiveDepth 
      (Nat.le_refl limits.effectiveDepth)).orExpr (ts ++ [eof, last])
    rw [hread] at hverdict
    cases hverdict with
    | stuck us rest _ heq hbegun hblames _ =>
      obtain ⟨htake, hget⟩ := cut_of_stream heof hbegun.ne_finish heq
      rcases hblames.span_mem hspan with hpeek | ⟨u, hu, hspan⟩
      · exact ⟨_, List.mem_of_getElem? hget, hpeek⟩
      · exact ⟨u, List.mem_of_mem_take (htake ▸ hu), hspan⟩
    | refused us rest limit heq hk =>
      -- A level is refused at a token that opens it, never at the end of the stream.
      cases hspan
      have hmem : peek rest ∈ ts ++ [eof, last] := by
        rw [heq, eq_cons_of_peek rest hk]
        simp
      simp only [List.mem_append, List.mem_cons, List.not_mem_nil, or_false] at hmem
      rcases hmem with hmem | hmem | hmem
      · exact ⟨_, List.mem_append_left _ hmem, rfl⟩
      · exact absurd heof (hmem ▸ hk)
      · exact absurd hlast (hmem ▸ hk)
  · obtain ⟨us, heq, hus, -⟩ := sentence_of_read hread
    obtain ⟨-, hget⟩ := cut_of_stream heof hus.ne_finish heq
    refine ⟨_, List.mem_of_getElem? hget, ?_⟩
    rcases hrest with rfl | rfl
    · exact Option.some.inj hspan
    · exact Option.some.inj hspan

end Parser

theorem Span.Covers.upTo {source p q : List Char} {first last : Span} (hfirst : first.Covers source p)
    (hlast : last.Covers source q) (h : first.start < last.stop) :
    ∃ part, part ≠ [] ∧ (first.upTo last).Covers source part := by
  obtain ⟨before, behind₁, hsource₁, hstart, -, hline, hcolumn⟩ := hfirst
  obtain ⟨before₂, behind, hsource₂, -, hstop, -, -⟩ := hlast
  rw [hstart, hstop] at h
  have hprefix₁ : before <+: source := ⟨p ++ behind₁, by rw [hsource₁, List.append_assoc]⟩
  have hprefix₂ : before₂ ++ q <+: source := ⟨behind, hsource₂.symm⟩
  rcases List.prefix_or_prefix_of_prefix hprefix₁ hprefix₂ with ⟨part, hpart⟩ | ⟨part, hpart⟩
  · refine ⟨part, ?_, before, behind, ?_, hstart, ?_, hline, hcolumn⟩
    · rintro rfl
      rw [List.append_nil] at hpart
      rw [hpart] at h
      exact Nat.lt_irrefl _ h
    · rw [hpart, hsource₂]
    · rw [hpart]
      exact hstop
  · rw [← hpart, Text.byteLength_append] at h
    omega

theorem Span.Covers.start_lt_stop {source part : List Char} {s : Span} (h : s.Covers source part)
    (hpart : part ≠ []) : s.start < s.stop := by
  obtain ⟨before, behind, -, hstart, hstop, -, -⟩ := h
  obtain ⟨c, part, rfl⟩ := List.exists_cons_of_ne_nil hpart
  have hc := c.utf8Size_pos
  rw [hstart, hstop, Text.byteLength_append, Text.byteLength_cons]
  omega

theorem Token.Laid.filled {tokens : List Token} (h : Laid start tokens) {t : Token} (ht : t ∈ tokens)
    (hk : t.kind ≠ .finish) : t.span.start < t.span.stop := by
  induction h with
  | finish _ =>
    cases List.mem_singleton.mp ht
    exact absurd rfl hk
  | token _ hlt _ _ ih =>
    rcases List.mem_cons.mp ht with rfl | ht
    · exact hlt
    · exact ih ht

theorem Token.Laid.apart {us : List Token} (h : Laid start (us ++ [eof])) (hus : ∀ t ∈ us, t.kind ≠ .finish) :
    Apart us where
  filled := fun t ht => h.filled (List.mem_append_left _ ht) (hus t ht)
  ordered := (h.pairwise_disjoint.sublist (List.sublist_append_left us [eof])).imp fun h => h.2

open FilterSql.Grammar FilterSql.Parser

/-- What a node says of where it is: its tokens stand in the source together, its span goes from the start of the
first one kept to the stop of the last one kept, its parts lie within it in their order, and its line and column
are those of its start. -/
structure Expr.Located (source : List Char) (tokens : List Token) (a : Expr) : Prop where
  spelled : ∃ us p, us <:+: tokens ∧ Spells p us a ∧ Frames (kept us) a.span
  nested : Nested a
  covers : ∃ part, part ≠ [] ∧ a.span.Covers source part

theorem Grammar.Derives.located {source : List Char} {tokens : List Token} (h : Derives p ts e d)
    (hts : ts <:+: tokens) (hapart : Token.Apart ts)
    (hcovers : ∀ t ∈ ts, t.span.Covers source t.lexeme.toList) (ha : Expr.Node a e) :
    a.Located source tokens := by
  obtain ⟨q, us, b, hus, hb⟩ := h.node ha
  have husApart := hapart.sublist hus.sublist
  have hframes := hb.frames husApart
  refine ⟨⟨us, q, hus.trans hts, ⟨b, hb⟩, hframes⟩, hb.nested husApart, ?_⟩
  obtain ⟨first, hfirst, last, hlast, hspan⟩ := hb.ends husApart
  have hlt := hframes.start_lt_stop (husApart.sublist (kept_sublist us))
  rw [hspan] at hlt ⊢
  exact (hcovers first (hus.subset hfirst)).upTo (hcovers last (hus.subset hlast)) hlt

theorem Expr.Marked.covers {source : List Char} {tokens : List Token} {e : Expr} {s : Span}
    (h : e.Marked s) (he : ∀ a, Expr.Node a e → a.Located source tokens) :
    ∃ part, part ≠ [] ∧ s.Covers source part := by
  rcases h with ⟨a, ha, rfl⟩ | ⟨operator, left, right, outer, hnode, rfl⟩
  · exact (he a ha).covers
  · -- The operands stand in their order, so what covers both goes from the one to the other.
    obtain ⟨p, hp, hleft⟩ := (he left ((Node.compareLeft .root).trans hnode)).covers
    obtain ⟨q, hq, hright⟩ := (he right ((Node.compareRight .root).trans hnode)).covers
    have hpair : [left, right].Pairwise fun a b => a.span.stop ≤ b.span.start := (he _ hnode).nested.ordered
    have hbefore := List.pairwise_pair.mp hpair
    have hl := hleft.start_lt_stop hp
    have hr := hright.start_lt_stop hq
    rw [Span.cover_eq_upTo (by omega) (by omega)]
    exact hleft.upTo hright (by omega)

/-- Spans are sound. Every node of a parsed tree goes from the start of its first to the stop of its last kept
token, holds its parts in their order, and has the line and column of its start. The span of a parse error is
that of a token; the span of an error in binding or checking is that of a node, or that over both operands of a
comparison; and each of them covers a part of the source. -/
theorem spans_point_into_source {source : String} {tokens : List Token} (htokens : tokenize source = .ok tokens)
    (limits : Limits) :
    (∀ e, Expr.ofTokens limits tokens = .ok e → ∀ a, Expr.Node a e → a.Located source.toList tokens) ∧
    (∀ err span, Expr.ofTokens limits tokens = .error err → err.span? = some span →
      (∃ t ∈ tokens, t.span = span) ∧ ∃ part, span.Covers source.toList part) ∧
    (∀ e catalog err, Expr.ofTokens limits tokens = .ok e →
      (Predicate.bind catalog e = .error err ∨
        ∃ p, Predicate.bind catalog e = .ok p ∧ p.check = .error err) →
      e.Marked err.span ∧ ∃ part, part ≠ [] ∧ err.span.Covers source.toList part) := by
  have hlaid := laid_of_tokenize htokens
  have hlexed : Lexed (Source.place []) source.toList tokens := tokenize_eq_ok_iff.mp htokens
  have hcovers := hlexed.covers
  obtain ⟨ts, eof, rfl, hts, heof⟩ := hlaid.exists_finish
  have hnode : ∀ e, Expr.ofTokens limits (ts ++ [eof]) = .ok e →
      ∀ a, Expr.Node a e → a.Located source.toList (ts ++ [eof]) := by
    intro e he a ha
    obtain ⟨-, d, hd, -⟩ := derives_of_ofTokens_stream hts heof he
    exact hd.located (List.prefix_append ts [eof]).isInfix (hlaid.apart hts)
      (fun t ht => hcovers t (List.mem_append_left _ ht)) ha
  refine ⟨hnode, ?_, ?_⟩
  · intro err span herr hspan
    obtain ⟨t, ht, rfl⟩ := exists_token_of_error hts heof herr hspan
    exact ⟨⟨t, ht, rfl⟩, _, hcovers t ht⟩
  · intro e catalog err he herr
    have hmarked : e.Marked err.span := by
      rcases herr with hbind | ⟨p, hbind, hcheck⟩
      · exact Predicate.marked_of_bind_error hbind
      · exact (Predicate.bind_eq_ok_iff.mp hbind).marked _ (Predicate.span_mem_of_check_error hcheck)
    exact ⟨hmarked, hmarked.covers (hnode e he)⟩

/-- The expression of `!(pinned) || (tag ==\n content)`. -/
def twoFields : Expr :=
  .connect .or (.not (.field ⟨["pinned"]⟩ ⟨2, 8, 1, 3⟩) ⟨0, 8, 1, 1⟩)
    (.compare .equal (.field ⟨["tag"]⟩ ⟨14, 17, 1, 15⟩) (.field ⟨["content"]⟩ ⟨22, 29, 2, 2⟩) ⟨14, 29, 1, 15⟩)
    ⟨0, 29, 1, 1⟩

theorem spans_point_into_source_twoFields :
    ∃ tokens, tokenize "!(pinned) || (tag ==\n content)" = .ok tokens ∧
      Expr.ofTokens ⟨8, 64⟩ tokens = .ok twoFields ∧
      twoFields.Located "!(pinned) || (tag ==\n content)".toList tokens ∧
      Predicate.bind (.standard .note) twoFields = .error (.typeMismatch .twoFields ⟨14, 29, 1, 15⟩) ∧
      twoFields.Marked ⟨14, 29, 1, 15⟩ ∧
      ∃ part, part ≠ [] ∧
        (⟨14, 29, 1, 15⟩ : Span).Covers "!(pinned) || (tag ==\n content)".toList part := by
  have hparse : (tokenize "!(pinned) || (tag ==\n content)").map (Expr.ofTokens ⟨8, 64⟩) =
      .ok (.ok twoFields) := by with_unfolding_all rfl
  have hbind : Predicate.bind (.standard .note) twoFields =
      .error (.typeMismatch .twoFields ⟨14, 29, 1, 15⟩) := by rfl
  cases htokens : tokenize "!(pinned) || (tag ==\n content)" with
  | error e =>
    rw [htokens] at hparse
    cases hparse
  | ok tokens =>
    rw [htokens] at hparse
    have hread := Except.ok.inj hparse
    obtain ⟨hnodes, -, herrors⟩ := spans_point_into_source htokens ⟨8, 64⟩
    exact ⟨tokens, rfl, hread, hnodes _ hread _ .root, hbind, herrors _ _ _ hread (.inl hbind)⟩

end FilterSql
