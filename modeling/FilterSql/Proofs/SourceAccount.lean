import Mathlib.Data.String.Basic
import FilterSql.Proofs.DialectAgreement
import FilterSql.Proofs.MeaningPreserved

/-! A statement accounts for its source. Its fields are the names in the source, and its parameters are those
of the predicates of the source, one for each and in their order: nothing is lost on the way, nothing comes
twice and nothing changes its place. -/
namespace FilterSql

def Token.atom? (t : Token) : Option (Token.Kind × Span) :=
  match t.kind with
  | .name word => some (.name word, t.span)
  | .literal value => some (.literal value, t.span)
  | _ => none

namespace Expr

mutual
def atoms : Expr → List (Token.Kind × Span)
  | literal value span => [(.literal value, span)]
  | field path span => [(.name path.text, span)]
  | connect _ left right _ => left.atoms ++ right.atoms
  | not operand _ => operand.atoms
  | compare _ left right _ => left.atoms ++ right.atoms
  | call _ arguments _ => atomsOfAll arguments

def atomsOfAll : List Expr → List (Token.Kind × Span)
  | [] => []
  | e :: es => e.atoms ++ atomsOfAll es
end

/-- The parts of an expression that connectives and negations join, from left to right. -/
def predicates : Expr → List Expr
  | connect _ left right _ => left.predicates ++ right.predicates
  | not operand _ => operand.predicates
  | e => [e]

theorem flatMap_predicates (e : Expr) : e.predicates.flatMap atoms = e.atoms := by
  fun_induction predicates e with
  | case1 _ left right _ ihl ihr => rw [List.flatMap_append, ihl, ihr, atoms]
  | case2 operand _ ih => rw [ih, atoms]
  | case3 e => rw [List.flatMap_singleton]

end Expr

inductive Literal.SentAs (d : Dialect) : FieldType → Literal → Value → Prop where
  | text : SentAs d .text (.text s) (.text s)
  | boolean : SentAs d .boolean (.boolean b) (d.encodeBool b)
  | int32 : -2147483648 ≤ n → n < 2147483648 → SentAs d (.number .int32) (.integer n) (.int32 n)
  | int64 : SentAs d (.number .int64) (.integer n) (.int64 n)
  | whole : SentAs d (.number .float64) (.integer n) (.float (.ofInt n))
  | decimal : SentAs d (.number .float64) (.decimal x) (.float x)
  /-- The first variant of that name, as the dialect stores it. -/
  | variant {type : EnumType} : type.resolve? s = some v → SentAs d (.enum type) (.text s) (.text (v.encoding d))
  | second : SentAs d .timestamp (.integer n) (.int64 n)
  | moment : Rfc3339.epochSecond s = .ok n → SentAs d .timestamp (.text s) (.int64 n)

/-- What is bound where a field is asked for a value: the status that it stands for if it is a status flag,
else the value. -/
def Field.parameter (f : Field) (value : Value) : Value :=
  match f.source with
  | .statusFlag _ status => .text status
  | _ => value

inductive Expr.Sends (catalog : Catalog) (d : Dialect) : Expr → Value → Prop where
  | field {f : Field} : catalog.lookup path.text = some f → f.type = .boolean →
      Sends catalog d (.field path s) (f.parameter (d.encodeBool true))
  | compare {f : Field} : catalog.lookup path.text = some f → Literal.SentAs d f.type value v →
      Sends catalog d (.compare operator (.field path s₁) (.literal value s₂) s) (f.parameter v)
  | compareTurned {f : Field} : catalog.lookup path.text = some f → Literal.SentAs d f.type value v →
      Sends catalog d (.compare operator (.literal value s₁) (.field path s₂) s) (f.parameter v)
  | call {f : Field} {function : StringFunction} : catalog.lookup path.text = some f →
      function ∈ f.functions →
      Sends catalog d (.call function.name [.field path s₁, .literal (.text needle) s₂] s)
        (.text (Sql.pattern d function needle))

namespace Grammar

theorem atom?_of_symbol {t : Token} {sign : Symbol} (h : t.kind = .symbol sign) : t.atom? = none := by
  rw [Token.atom?, h]

theorem Separated.atoms (h : Separated args listed)
    (hargs : ∀ a ∈ args, a.expr.atoms = a.tokens.filterMap Token.atom?) :
    Expr.atomsOfAll (args.map Argument.expr) = listed.filterMap Token.atom? := by
  induction h with
  | none => rfl
  | last a => simpa [Expr.atomsOfAll] using hargs a
  | more a hcomma _ ih =>
    rw [List.map_cons, Expr.atomsOfAll, ih fun b hb => hargs b (List.mem_cons_of_mem _ hb),
      hargs a List.mem_cons_self, List.filterMap_append, List.filterMap_cons, atom?_of_symbol hcomma]

theorem Derives.atoms (h : Derives p ts e d) : e.atoms = ts.filterMap Token.atom? := by
  induction h with
  | literal hk => simp [Expr.atoms, Token.atom?, hk]
  | name hk => simp [Expr.atoms, Token.atom?, hk, Path.text_ofText]
  | @call word args listed name opening closing hname hopen hclose hsep _ ih =>
    have hcall : name.atom? = none := by rw [Token.atom?, hname]
    rw [Expr.atoms, hsep.atoms ih]
    simp [hcall, atom?_of_symbol hopen, atom?_of_symbol hclose]
  | group hopen hclose _ ih => simp [ih, atom?_of_symbol hopen, atom?_of_symbol hclose]
  | alone _ ih => exact ih
  | compare hsign _ _ ihl ihr =>
    rw [List.filterMap_append, List.filterMap_cons, atom?_of_symbol hsign, ← ihl, ← ihr, Expr.atoms]
  | not hsign _ ih => rw [List.filterMap_cons, atom?_of_symbol hsign, ← ih, Expr.atoms]
  | positive _ ih => exact ih
  | first _ ih => exact ih
  | next hsign _ _ ihl ihr =>
    rw [List.filterMap_append, List.filterMap_cons, atom?_of_symbol hsign, ← ihl, ← ihr, Expr.join, Expr.atoms]
  | conjunction _ ih => exact ih
  | disjunction _ ih => exact ih

theorem atoms_of_ofTokens {limits : Limits} {source : String} {tokens : List Token} {e : Expr}
    (htokens : tokenize source = .ok tokens) (he : Expr.ofTokens limits tokens = .ok e) :
    e.atoms = tokens.filterMap Token.atom? := by
  obtain ⟨d, hd⟩ := derives_sentence he
  obtain ⟨us, eof, rfl, hus, heof⟩ := (laid_of_tokenize htokens).exists_finish
  have hsentence : sentence (us ++ [eof]) = us := sentence_append hus heof
  have hlast : eof.atom? = none := by rw [Token.atom?, heof]
  rw [hd.atoms, hsentence, List.filterMap_append]
  simp [hlast]

end Grammar

section Names

end Names

namespace Predicate

open Sql

variable {catalog : Catalog} {d : Dialect}

theorem parameter_compareLeaf (f : Field) (operator : Comparison) (operand : Operand) :
    (compareLeaf d f operator operand).parameter = f.parameter (operand.encode d) := by
  unfold compareLeaf Field.parameter
  cases f.source <;> rfl

theorem sentAs_of_coerce {f : Field} {value : Literal} {span : Span} {operand : Operand}
    (h : coerce f value span = .ok operand) : Literal.SentAs d f.type value (operand.encode d) := by
  have hdenotes := denotes_of_coerce h
  generalize htype : f.type = type at hdenotes
  cases hdenotes with
  | text => exact .text
  | boolean => exact .boolean
  | int32 hlow hhigh => exact .int32 hlow hhigh
  | int64 => exact .int64
  | whole => exact .whole
  | decimal => exact .decimal
  | @variant v type hmem =>
    -- Several variants may have the literal; it is the first of them that was found.
    simp only [coerce, htype] at h
    cases hfirst : type.resolve? v.literal with
    | none => simp [hfirst, mismatch] at h
    | some first =>
      simp only [hfirst, Except.ok.injEq, Operand.enum.injEq] at h
      exact .variant (h ▸ hfirst)
  | second => exact .second
  | moment hsecond => exact .moment hsecond

theorem values_compare {f : Field} {operator : Comparison} {value : Literal} {span : Span}
    {t : Predicate Operand} (h : (compare f operator value span).check = .ok t) :
    ∃ v, Literal.SentAs d f.type value v ∧ values (t.pieces d) = [f.parameter v] := by
  obtain ⟨_, -, h⟩ := bind_eq_ok.mp h
  obtain ⟨operand, hoperand, h⟩ := bind_eq_ok.mp h
  cases h
  refine ⟨operand.encode d, sentAs_of_coerce hoperand, ?_⟩
  rw [← parameter_compareLeaf f operator operand]
  rfl

theorem values_search {f : Field} {function : StringFunction} {value : Literal} {span : Span}
    {t : Predicate Operand} (h : (search f function value span).check = .ok t) :
    ∃ needle, value = .text needle ∧ values (t.pieces d) = [.text (pattern d function needle)] := by
  obtain ⟨operand, hoperand, h⟩ := bind_eq_ok.mp h
  cases h
  cases value with
  | text needle =>
    cases hoperand
    exact ⟨needle, rfl, rfl⟩
  | _ => cases hoperand

/-- The parameters of a bound predicate are those of the predicates of its expression. -/
theorem forall₂_sends {e : Expr} {p : Predicate Literal} {t : Predicate Operand} (hp : Bound catalog e p)
    (ht : p.check = .ok t) : List.Forall₂ (Expr.Sends catalog d) e.predicates (values (t.pieces d)) := by
  induction hp generalizing t with
  | and _ _ ihl ihr =>
    obtain ⟨l, hl, ht⟩ := bind_eq_ok.mp ht
    obtain ⟨r, hr, ht⟩ := bind_eq_ok.mp ht
    cases ht
    rw [Expr.predicates, pieces, values_connected]
    exact List.rel_append (ihl hl) (ihr hr)
  | or _ _ ihl ihr =>
    obtain ⟨l, hl, ht⟩ := bind_eq_ok.mp ht
    obtain ⟨r, hr, ht⟩ := bind_eq_ok.mp ht
    cases ht
    rw [Expr.predicates, pieces, values_connected]
    exact List.rel_append (ihl hl) (ihr hr)
  | not _ ih =>
    obtain ⟨operand, hoperand, ht⟩ := bind_eq_ok.mp ht
    cases ht
    have hsame : List.Forall₂ (Expr.Sends catalog d) _ (values (operand.pieces d)) := ih hoperand
    exact hsame
  | field hlookup htype =>
    obtain ⟨v, hv, hvalues⟩ := values_compare ht
    rw [htype] at hv
    cases hv
    rw [hvalues]
    exact .cons (.field hlookup htype) .nil
  | compare hlookup =>
    obtain ⟨v, hv, hvalues⟩ := values_compare ht
    rw [hvalues]
    exact .cons (.compare hlookup hv) .nil
  | compareTurned hlookup =>
    obtain ⟨v, hv, hvalues⟩ := values_compare ht
    rw [hvalues]
    exact .cons (.compareTurned hlookup hv) .nil
  | call hlookup hfunction =>
    obtain ⟨needle, rfl, hvalues⟩ := values_search ht
    rw [hvalues]
    exact .cons (.call hlookup hfunction) .nil

end Predicate

namespace Engine

end Engine

end FilterSql
