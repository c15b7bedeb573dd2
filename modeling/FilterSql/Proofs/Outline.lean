import FilterSql.Proofs.Acceptance

/-! What is left of an expression without the contents of its literals. Truth values stay, since they are
words of the language; texts and numbers become all one. The outline of an expression is read off the
outline of its tokens, so alike token streams have expressions of one outline. -/
namespace FilterSql

def Span.nowhere : Span := ⟨0, 0, 0, 0⟩

def Literal.isBoolean : Literal → Bool
  | .boolean _ => true
  | _ => false

def Literal.outline : Literal → Literal
  | .boolean b => .boolean b
  | _ => .text ""

namespace Token

/-- Kinds of tokens that may differ in the content of a text or number. -/
inductive Kind.Alike : Kind → Kind → Prop where
  | same (k : Kind) : Alike k k
  | literals : a.isBoolean = false → b.isBoolean = false → Alike (.literal a) (.literal b)

def Kind.outline : Kind → Kind
  | .literal value => .literal value.outline
  | kind => kind

def outline (t : Token) : Token := .bare t.kind.outline

theorem Kind.Alike.outline_eq {j k : Kind} (h : Alike j k) : j.outline = k.outline := by
  cases h with
  | same => rfl
  | @literals a b ha hb =>
    unfold Kind.outline
    cases a <;> cases b <;> simp_all [Literal.isBoolean, Literal.outline]

structure Alike (ts us : List Token) : Prop where
  length_eq : ts.length = us.length
  kinds : ∀ (i : Nat) (t u : Token), ts[i]? = some t → us[i]? = some u → t.kind.Alike u.kind

theorem Alike.nil : Alike [] [] := ⟨rfl, fun i t u h => by cases h⟩

theorem Alike.cons {t u : Token} {ts us : List Token} (h : t.kind.Alike u.kind) (hrest : Alike ts us) :
    Alike (t :: ts) (u :: us) := by
  refine ⟨congrArg (· + 1) hrest.length_eq, ?_⟩
  intro i t' u' ht hu
  cases i with
  | zero =>
    cases ht
    cases hu
    exact h
  | succ i => exact hrest.kinds i t' u' ht hu

theorem Alike.map_outline_eq {ts us : List Token} (h : Alike ts us) :
    ts.map outline = us.map outline := by
  apply List.ext_getElem
  · rw [List.length_map, List.length_map, h.length_eq]
  intro i hi hj
  rw [List.length_map] at hi hj
  have hkinds := h.kinds i _ _ (List.getElem?_eq_getElem hi) (List.getElem?_eq_getElem hj)
  rw [List.getElem_map, List.getElem_map, outline, outline, hkinds.outline_eq]

theorem outline_kind_eq {t : Token} {k : Kind} (h : t.kind = k) : t.outline.kind = k.outline := by
  rw [← h]
  rfl

theorem outline_finish (t : Token) : t.outline.kind = .finish ↔ t.kind = .finish := by
  unfold outline bare Kind.outline
  cases h : t.kind <;> simp

end Token

namespace Expr

mutual
def outline : Expr → Expr
  | literal value _ => .literal value.outline .nowhere
  | field path _ => .field path .nowhere
  | connect connective left right _ => .connect connective left.outline right.outline .nowhere
  | not operand _ => .not operand.outline .nowhere
  | compare operator left right _ => .compare operator left.outline right.outline .nowhere
  | call function arguments _ => .call function (outlineAll arguments) .nowhere

def outlineAll : List Expr → List Expr
  | [] => []
  | e :: es => e.outline :: outlineAll es
end

theorem outlineAll_eq_map (es : List Expr) : outlineAll es = es.map outline := by
  induction es with
  | nil => rfl
  | cons e es ih => rw [outlineAll, ih, List.map_cons]

theorem span_outline (e : Expr) : e.outline.span = .nowhere := by
  cases e <;> rfl

end Expr

namespace Grammar

def Argument.outline (a : Argument) : Argument := ⟨a.tokens.map Token.outline, a.expr.outline, a.demand⟩

theorem deepest_outline (args : List Argument) : deepest (args.map Argument.outline) = deepest args := by
  unfold deepest
  rw [List.map_map]
  rfl

theorem Separated.outline (h : Separated args listed) :
    Separated (args.map Argument.outline) (listed.map Token.outline) := by
  induction h with
  | none => exact .none
  | last a => exact .last a.outline
  | more a hcomma _ ih =>
    rw [List.map_append, List.map_cons]
    exact .more a.outline (Token.outline_kind_eq hcomma) ih

/-- The rules of the grammar do not look into texts and numbers. -/
theorem Derives.outline (h : Derives p ts e d) : Derives p (ts.map Token.outline) e.outline d := by
  induction h with
  | literal hk => exact .literal (Token.outline_kind_eq hk)
  | name hk => exact .name (Token.outline_kind_eq hk)
  | @call word args listed name opening closing hname hopen hclose hsep hargs ih =>
    have hcall := Derives.call (Token.outline_kind_eq hname) (Token.outline_kind_eq hopen)
      (Token.outline_kind_eq hclose) hsep.outline (fun a ha => by
        obtain ⟨b, hb, rfl⟩ := List.mem_map.mp ha
        exact ih b hb)
    rw [deepest_outline, List.map_map] at hcall
    rw [Expr.outline, Expr.outlineAll_eq_map, List.map_map, List.map_cons, List.map_cons, List.map_append]
    exact hcall
  | group hopen hclose _ ih =>
    rw [List.map_cons, List.map_append]
    exact .group (Token.outline_kind_eq hopen) (Token.outline_kind_eq hclose) ih
  | alone _ ih => exact .alone ih
  | compare hsign _ _ ihl ihr =>
    have hcompare := Derives.compare (Token.outline_kind_eq hsign) ihl ihr
    rw [Expr.span_outline, Expr.span_outline] at hcompare
    rw [List.map_append, List.map_cons]
    exact hcompare
  | not hsign _ ih =>
    have hnot := Derives.not (Token.outline_kind_eq hsign) ih
    rw [Expr.span_outline] at hnot
    exact hnot
  | positive _ ih => exact .positive ih
  | first _ ih => exact .first ih
  | next hsign _ _ ihl ihr =>
    have hnext := Derives.next (Token.outline_kind_eq hsign) ihl ihr
    rw [Expr.join, Expr.span_outline, Expr.span_outline] at hnext
    rw [List.map_append, List.map_cons]
    exact hnext
  | conjunction _ ih => exact .conjunction ih
  | disjunction _ ih => exact .disjunction ih

def sentence (ts : List Token) : List Token := ts.takeWhile fun t => t.kind ≠ .finish

theorem sentence_append {ts rest : List Token} (hts : ∀ t ∈ ts, t.kind ≠ .finish)
    (hrest : (Parser.peek rest).kind = .finish) : sentence (ts ++ rest) = ts := by
  unfold sentence
  rw [List.takeWhile_append_of_pos (fun t ht => decide_eq_true (hts t ht))]
  cases rest with
  | nil => exact List.append_nil ts
  | cons t rest =>
    rw [Parser.peek_cons] at hrest
    rw [List.takeWhile_cons_of_neg (by simp [hrest]), List.append_nil]

theorem sentence_end (ts : List Token) : sentence (ts ++ [Expr.streamEnd ts]) = sentence ts := by
  have hlast : [Expr.streamEnd ts].takeWhile (fun t => decide (t.kind ≠ .finish)) = [] := rfl
  unfold sentence
  rw [List.takeWhile_append, hlast, List.append_nil]
  split
  case isTrue hall => exact ((List.takeWhile_sublist _).eq_of_length hall).symm
  case isFalse => rfl

theorem sentence_outline (ts : List Token) :
    sentence (ts.map Token.outline) = (sentence ts).map Token.outline := by
  unfold sentence
  rw [List.takeWhile_map]
  congr
  funext t
  simp [Token.outline_finish]

theorem derives_sentence {limits : Limits} {ts : List Token} (h : Expr.ofTokens limits ts = .ok e) :
    ∃ d, Derives .disjunction (sentence ts) e d := by
  obtain ⟨us, rest, d, heq, hk, hd, -, -, -⟩ := derives_of_ofTokens h
  have hus := sentence_append hd.ne_finish hk
  rw [← heq, sentence_end] at hus
  exact ⟨d, hus ▸ hd⟩

theorem outline_eq_of_ofTokens {limits : Limits} {ts us : List Token}
    (h : ts.map Token.outline = us.map Token.outline) (he : Expr.ofTokens limits ts = .ok e)
    (hf : Expr.ofTokens limits us = .ok f) : e.outline = f.outline := by
  obtain ⟨d, hd⟩ := derives_sentence he
  obtain ⟨b, hb⟩ := derives_sentence hf
  have hd := hd.outline
  have hb := hb.outline
  rw [← sentence_outline] at hd hb
  rw [h] at hd
  exact (hd.unique hb).1

end Grammar

end FilterSql
