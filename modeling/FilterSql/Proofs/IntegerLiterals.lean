import Mathlib.Data.Fintype.Basic
import FilterSql.Proofs.SourceAccount
import FilterSql.Proofs.SourceSpans
import FilterSql.Proofs.WholeNumerals

/-! Whole numbers from the digits to the parameter. A number that a field is compared with is bound as it is or
refused, whether the comparison is a filter or stands in one: it never wraps, and no digit is lost. -/
namespace FilterSql

/-- The operator as it is asked of the field. -/
def NumeralTest.asked (t : NumeralTest) : Comparison := if t.turned then t.operator.flip else t.operator

open Grammar in
theorem NumeralTest.exists_bind_with (t : NumeralTest) {limits : Limits} {catalog : Catalog} {f : Field}
    {literal : String} {value : Literal} (h : ReadsLiteral literal value) (hmax : 3 ≤ limits.maxTokens)
    (hlookup : catalog.lookup t.name = some f) :
    ∃ tokens e s, tokenize (t.textWith literal) = .ok tokens ∧ Expr.ofTokens limits tokens = .ok e ∧
      Predicate.bind catalog e = .ok (.compare f t.asked value s) := by
  obtain ⟨ts, eof, htokens, heof, hkinds⟩ := t.exists_tokens_with h
  have hpath : catalog.lookup (Path.ofText t.name).text = some f := by rwa [Path.text_ofText]
  obtain ⟨first, sign, second, rfl⟩ : ∃ a b c, ts = [a, b, c] := by
    refine List.length_eq_three.mp ?_
    rw [← List.length_map Token.kind, hkinds, around]
    split <;> rfl
  have hread : ∀ {e}, Derives .comparison [first, sign, second] e 0 →
      Expr.ofTokens limits ([first, sign, second] ++ [eof]) = .ok e := by
    intro e hd
    exact ofTokens_of_derives hd.ne_finish heof hmax (.ofUnary (.positive hd)) (Nat.zero_le _)
  unfold around at hkinds
  unfold asked
  cases hturned : t.turned with
  | true =>
    simp only [hturned, if_true, List.nil_append, List.map_cons, List.map_nil, List.cons.injEq,
      and_true] at hkinds
    obtain ⟨hfirst, hsign, hsecond⟩ := hkinds
    have he := hread (.compare hsign (.literal hfirst) (.name hsecond))
    exact ⟨_, _, first.span, htokens, he, Predicate.bind_eq_ok_iff.mpr (.compareTurned hpath)⟩
  | false =>
    simp only [hturned, Bool.false_eq_true, if_false, List.cons_append, List.nil_append, List.map_cons,
      List.map_nil, List.cons.injEq, and_true] at hkinds
    obtain ⟨hfirst, hsign, hsecond⟩ := hkinds
    have he := hread (.compare hsign (.name hfirst) (.literal hsecond))
    exact ⟨_, _, second.span, htokens, he, Predicate.bind_eq_ok_iff.mpr (.compare hpath)⟩

def Field.Kept (f : Field) : Prop :=
  (∃ column, f.source = .column column) ∨ ∃ column path, f.source = .jsonScalar column path

theorem Field.Kept.parameter {f : Field} (h : f.Kept) (value : Value) : f.parameter value = value := by
  unfold Field.parameter
  rcases h with ⟨column, hsource⟩ | ⟨column, path, hsource⟩
  all_goals rw [hsource]

namespace Predicate

variable {f : Field} {v : Int} {s : Span}

theorem check_ordered (h : (∃ width, f.type = .number width) ∨ f.type = .timestamp) (operator : Comparison)
    (value : Literal) (s : Span) :
    (compare f operator value s).check =
      (coerce f value s >>= fun operand => .ok (.compare f operator operand s)) := by
  rw [check, checkOperator_eq_ok_iff.mpr fun _ => h]
  rfl

theorem coerce_int32 (h : f.type = .number .int32) (hv : Numeral.Within 32 v) :
    coerce f (.integer v) s = .ok (.int32 v) := by
  simp only [coerce, h]
  exact if_pos (Numeral.fitsInt32_iff_within.mpr hv)

theorem coerce_outOfRange (h : f.type = .number .int32) (hv : ¬ Numeral.Within 32 v) :
    coerce f (.integer v) s = .error (.typeMismatch (.outOfRange v f.name) s) := by
  simp only [coerce, h]
  exact if_neg fun hfits => hv (Numeral.fitsInt32_iff_within.mp hfits)

theorem coerce_wide (h : f.type = .number .int64 ∨ f.type = .timestamp) :
    ∃ operand, coerce f (.integer v) s = .ok operand ∧ ∀ d, operand.encode d = .int64 v := by
  rcases h with h | h
  · exact ⟨.int64 v, by simp only [coerce, h], fun _ => rfl⟩
  · exact ⟨.timestamp v, by simp only [coerce, h], fun _ => rfl⟩

end Predicate

inductive Expr.ComparesInteger (path : Path) (v : Int) (s : Span) : Expr → Prop where
  | field : ComparesInteger path v s (.compare operator (.field path s₁) (.literal (.integer v) s) s₂)
  | turned : ComparesInteger path v s (.compare operator (.literal (.integer v) s) (.field path s₁) s₂)

namespace Engine

open Sql

variable {limits : Limits} {catalog : Catalog} {d : Dialect} {offset : Nat} {source : String}

theorem compileFresh_of_lexError {e : LexError} (h : tokenize source = .error e) :
    compileFresh limits catalog d offset source none = .error (.syntactic (.lex e)) := by
  refine bind_eq_error.mpr (.inl (bind_eq_error.mpr (.inl ?_)))
  rw [h]
  rfl

section Bound

variable {tokens : List Token} {e : Expr} {bound : Predicate Literal}

theorem compileFresh_of_check_error {error : SemanticError} (htokens : tokenize source = .ok tokens)
    (he : Expr.ofTokens limits tokens = .ok e) (hbound : Predicate.bind catalog e = .ok bound)
    (hcheck : bound.check = .error error) :
    compileFresh limits catalog d offset source none = .error (.semantic error) := by
  refine bind_eq_error.mpr (.inl ?_)
  refine bind_eq_error.mpr (.inr ⟨tokens, mapError_eq_ok.mpr htokens, bind_eq_error.mpr (.inr ⟨(), rfl, ?_⟩)⟩)
  refine bind_eq_error.mpr (.inr ⟨e, mapError_eq_ok.mpr he, bind_eq_error.mpr (.inr ⟨(), rfl, ?_⟩)⟩)
  refine bind_eq_error.mpr (.inr ⟨bound, mapError_eq_ok.mpr hbound, bind_eq_error.mpr (.inl ?_)⟩)
  rw [hcheck]
  rfl

theorem compileFresh_of_check_compare {f : Field} {operator : Comparison} {operand : Operand} {s : Span}
    (hf : f.Kept) (hoffset : offset + 1 ≤ maxPlaceholder) (htokens : tokenize source = .ok tokens)
    (he : Expr.ofTokens limits tokens = .ok e) (hbound : Predicate.bind catalog e = .ok bound)
    (hcheck : bound.check = .ok (.compare f operator operand s)) :
    ∃ statement, compileFresh limits catalog d offset source none = .ok statement ∧
      statement.parameters = [operand.encode d] := by
  have hroom : offset + (Predicate.compare f operator operand s).fields.length ≤ maxPlaceholder := hoffset
  have hrender := (Predicate.compare f operator operand s).render_eq d offset
  rw [if_pos hroom] at hrender
  have hanalysed : Analysed limits catalog source (.compare f operator operand s) :=
    ⟨tokens, e, bound, htokens, he, hbound, hcheck⟩
  have hparameter : (compareLeaf d f operator operand).parameter = operand.encode d := by
    rw [Predicate.parameter_compareLeaf, hf.parameter]
  refine ⟨⟨_, _, _⟩, compileFresh_eq_ok_iff.mpr ⟨⟨_, hanalysed, hrender, rfl⟩, rfl⟩, ?_⟩
  exact congrArg (fun v => [v]) hparameter

end Bound

section Tests

variable {t : NumeralTest} {f : Field}

theorem compileFresh_test (hlookup : catalog.lookup t.name = some f) (hf : f.Kept)
    (htype : (∃ width, f.type = .number width) ∨ f.type = .timestamp) (hmax : 3 ≤ limits.maxTokens)
    (hoffset : offset + 1 ≤ maxPlaceholder) (h : Numeral.Within 64 t.numeral.value) :
    ∃ s, (∀ operand, Predicate.coerce f (.integer t.numeral.value) s = .ok operand →
        ∃ statement, compileFresh limits catalog d offset t.text none = .ok statement ∧
          statement.parameters = [operand.encode d]) ∧
      ∀ error, Predicate.coerce f (.integer t.numeral.value) s = .error error →
        compileFresh limits catalog d offset t.text none = .error (.semantic error) := by
  obtain ⟨tokens, e, s, htokens, he, hbound⟩ := t.exists_bind_with (Numeral.Whole.readsLiteral h) hmax hlookup
  have hcheck := Predicate.check_ordered htype t.asked (.integer t.numeral.value) s
  refine ⟨s, fun operand hoperand => ?_, fun error herror => ?_⟩
  · rw [hoperand] at hcheck
    exact compileFresh_of_check_compare hf hoffset htokens he hbound hcheck
  · rw [herror] at hcheck
    exact compileFresh_of_check_error htokens he hbound hcheck

structure TestExact (result : Except CompileError Statement) (f : Field) (n : Numeral.Whole) : Prop where
  invalid : ¬ Numeral.Within 64 n.value →
    ∃ span, result = .error (.syntactic (.lex (.invalidNumber n.text span)))
  int32 : Numeral.Within 64 n.value → f.type = .number .int32 →
    ((∃ statement, result = .ok statement ∧ statement.parameters = [.int32 n.value]) ↔
      Numeral.Within 32 n.value)
  mismatch : Numeral.Within 64 n.value → f.type = .number .int32 → ¬ Numeral.Within 32 n.value →
    ∃ span, result = .error (.semantic (.typeMismatch (.outOfRange n.value f.name) span))
  int64 : Numeral.Within 64 n.value → f.type = .number .int64 ∨ f.type = .timestamp →
    ∃ statement, result = .ok statement ∧ statement.parameters = [.int64 n.value]

theorem testExact_compileFresh (hlookup : catalog.lookup t.name = some f) (hf : f.Kept)
    (hmax : 3 ≤ limits.maxTokens) (hoffset : offset + 1 ≤ maxPlaceholder) :
    TestExact (compileFresh limits catalog d offset t.text none) f t.numeral where
  invalid h := by
    obtain ⟨span, htext⟩ := t.tokenize_refused h
    exact ⟨span, compileFresh_of_lexError htext⟩
  int32 h htype := by
    obtain ⟨s, hok, herror⟩ := compileFresh_test hlookup hf (.inl ⟨_, htype⟩) hmax hoffset h
    constructor
    · rintro ⟨statement, hresult, -⟩
      by_contra hv
      rw [herror _ (Predicate.coerce_outOfRange htype hv)] at hresult
      cases hresult
    · intro hv
      exact hok _ (Predicate.coerce_int32 htype hv)
  mismatch h htype hv := by
    obtain ⟨s, -, herror⟩ := compileFresh_test hlookup hf (.inl ⟨_, htype⟩) hmax hoffset h
    exact ⟨s, herror _ (Predicate.coerce_outOfRange htype hv)⟩
  int64 h htype := by
    obtain ⟨s, hok, -⟩ := compileFresh_test hlookup hf (htype.imp_left fun h => ⟨_, h⟩) hmax hoffset h
    obtain ⟨operand, hoperand, hencode⟩ := Predicate.coerce_wide htype
    rw [← hencode d]
    exact hok operand hoperand

end Tests

section Filters

variable {e : Expr} {path : Path} {v : Int} {s : Span} {f : Field} {i : Nat} {a : Expr}

structure PredicateExact (result : Except CompileError Statement) (source : String) (catalog : Catalog)
    (e : Expr) (i : Nat) (f : Field) (v : Int) (s : Span) : Prop where
  read : ∃ n : Numeral.Whole, n.value = v ∧ s.Covers source.toList n.text.toList
  int32 : ∀ statement, result = .ok statement → f.type = .number .int32 →
    Numeral.Within 32 v ∧ statement.parameters[i]? = some (.int32 v)
  int64 : ∀ statement, result = .ok statement → f.type = .number .int64 ∨ f.type = .timestamp →
    statement.parameters[i]? = some (.int64 v)
  mismatch : ∀ bound, Predicate.bind catalog e = .ok bound → f.type = .number .int32 → ¬ Numeral.Within 32 v →
    ∃ cause span, result = .error (.semantic (.typeMismatch cause span))

theorem exists_numeral {tokens : List Token} (htokens : tokenize source = .ok tokens)
    (he : Expr.ofTokens limits tokens = .ok e) (ha : a ∈ e.predicates) (h : a.ComparesInteger path v s) :
    ∃ n : Numeral.Whole, n.value = v ∧ s.Covers source.toList n.text.toList := by
  have hatom : (.literal (.integer v), s) ∈ tokens.filterMap Token.atom? := by
    rw [← Grammar.atoms_of_ofTokens htokens he, ← Expr.flatMap_predicates]
    refine List.mem_flatMap.mpr ⟨a, ha, ?_⟩
    cases h <;> simp [Expr.atoms]
  obtain ⟨t, ht, hatom⟩ := List.mem_filterMap.mp hatom
  obtain ⟨hkind, rfl⟩ : t.kind = .literal (.integer v) ∧ t.span = s := by
    unfold Token.atom? at hatom
    split at hatom
    case h_1 => cases hatom
    case h_2 value hkind =>
      cases hatom
      exact ⟨hkind, rfl⟩
    case h_3 => cases hatom
  have hlexed : Lexed (Source.place []) source.toList tokens := tokenize_eq_ok_iff.mp htokens
  have hcovers := hlexed.covers t ht
  obtain hfinish | ⟨q, lexeme, rest, shape, hshaped, hlexeme, htext⟩ := hlexed.lexeme_of_mem ht
  · rw [hkind] at hfinish
    cases hfinish
  · rw [hkind] at hlexeme
    obtain ⟨n, hn, hvalue⟩ := Numeral.whole_of_kind hshaped hlexeme
    rw [htext, String.toList_ofList, ← hn] at hcovers
    exact ⟨n, hvalue, hcovers⟩

theorem sentAs_of_sends {value : Value} (h : a.ComparesInteger path v s)
    (hlookup : catalog.lookup path.text = some f) (hf : f.Kept) (hsends : Expr.Sends catalog d a value) :
    Literal.SentAs d f.type (.integer v) value := by
  have hsame : ∀ {g : Field}, catalog.lookup path.text = some g → f = g :=
    fun hg => Option.some.inj (hlookup.symm.trans hg)
  cases h with
  | field =>
    cases hsends with
    | compare hg hsent =>
      cases hsame hg
      rwa [hf.parameter]
  | turned =>
    cases hsends with
    | compareTurned hg hsent =>
      cases hsame hg
      rwa [hf.parameter]

theorem within_of_sentAs {value : Value} (h : Literal.SentAs d (.number .int32) (.integer v) value) :
    Numeral.Within 32 v ∧ value = .int32 v := by
  cases h with
  | int32 hlow hhigh =>
    exact ⟨Numeral.fitsInt32_iff_within.mp (Numeral.fitsInt32_iff.mpr ⟨hlow, hhigh⟩), rfl⟩

/-- Once a filter is checked, what an integer in it is sent as is the parameter at the place of its predicate. -/
theorem exists_sent {bound : Predicate Literal} {typed : Predicate Operand} (d : Dialect)
    (hbound : Predicate.bind catalog e = .ok bound) (hcheck : bound.check = .ok typed)
    (ha : e.predicates[i]? = some a) (h : a.ComparesInteger path v s)
    (hlookup : catalog.lookup path.text = some f) (hf : f.Kept) :
    ∃ value, (values (typed.pieces d))[i]? = some value ∧ Literal.SentAs d f.type (.integer v) value := by
  have hsends : List.Forall₂ (Expr.Sends catalog d) e.predicates (values (typed.pieces d)) :=
    Predicate.forall₂_sends (Predicate.bind_eq_ok_iff.mp hbound) hcheck
  obtain ⟨hi, rfl⟩ := List.getElem?_eq_some_iff.mp ha
  have hi' : i < (values (typed.pieces d)).length := hsends.length_eq ▸ hi
  exact ⟨_, List.getElem?_eq_getElem hi', sentAs_of_sends h hlookup hf (hsends.get hi hi')⟩

theorem predicateExact_compileFresh {tokens : List Token} (htokens : tokenize source = .ok tokens)
    (he : Expr.ofTokens limits tokens = .ok e) (ha : e.predicates[i]? = some a)
    (h : a.ComparesInteger path v s) (hlookup : catalog.lookup path.text = some f) (hf : f.Kept) :
    PredicateExact (compileFresh limits catalog d offset source none) source catalog e i f v s := by
  have hsent : ∀ statement, compileFresh limits catalog d offset source none = .ok statement →
      ∃ value, statement.parameters[i]? = some value ∧ Literal.SentAs d f.type (.integer v) value := by
    intro statement hstatement
    obtain ⟨⟨typed, ⟨tokens', e', bound, htokens', he', hbound, hcheck⟩, hrender, -⟩, -⟩ :=
      compileFresh_eq_ok_iff.mp hstatement
    cases htokens.symm.trans htokens'
    cases he.symm.trans he'
    rw [Predicate.parameters_of_render hrender]
    exact exists_sent d hbound hcheck ha h hlookup hf
  refine ⟨exists_numeral htokens he (List.mem_of_getElem? ha) h, ?_, ?_, ?_⟩
  · intro statement hstatement htype
    obtain ⟨value, hvalue, hsent⟩ := hsent statement hstatement
    rw [htype] at hsent
    obtain ⟨hv, rfl⟩ := within_of_sentAs hsent
    exact ⟨hv, hvalue⟩
  · intro statement hstatement htype
    obtain ⟨value, hvalue, hsent⟩ := hsent statement hstatement
    rcases htype with htype | htype
    all_goals
      rw [htype] at hsent
      cases hsent
      exact hvalue
  · intro bound hbound htype hv
    cases hcheck : bound.check with
    | error error =>
      obtain ⟨-, cause, herror⟩ := Predicate.mismatch_of_check_error hcheck
      refine ⟨cause, error.span, ?_⟩
      rw [← herror]
      exact compileFresh_of_check_error htokens he hbound hcheck
    | ok typed =>
      obtain ⟨value, -, hsent⟩ := exists_sent d hbound hcheck ha h hlookup hf
      rw [htype] at hsent
      exact absurd (within_of_sentAs hsent).1 hv

end Filters

/-- Whole numbers are read, bound and sent as they are, or refused. A numeral is an integer literal of its value
if that has room in sixty-four bits, and invalid if not. A field that is compared with the literal, in either
order and by any operator, gets the value as its parameter, unless the field has only thirty-two bits and the
value more; and so it is for every such comparison in a larger filter. -/
theorem integer_literals_exact (config : Config) (catalogs : List Catalog) (history : List (Request × Signal))
    (request : Request) (d : Dialect) (catalog : Catalog)
    (h : (built config catalogs).admissible request = .ok (d, catalog)) :
    let result := (((built config catalogs).after history).compile request none).1.result
    (∀ n : Numeral.Whole,
      (kindsIn n.text = .ok [.literal (.integer n.value), .finish] ↔ Numeral.Within 64 n.value) ∧
      (¬ Numeral.Within 64 n.value → ∃ span, tokenize n.text = .error (.invalidNumber n.text span))) ∧
    (∀ (t : NumeralTest) (f : Field), request.source = t.text → catalog.lookup t.name = some f → f.Kept →
      3 ≤ config.maxTokens → request.offset + 1 ≤ maxPlaceholder → TestExact result f t.numeral) ∧
    ∀ e i a path v s (f : Field), Expr.ofText config.limits request.source = .ok e →
      e.predicates[i]? = some a → a.ComparesInteger path v s → catalog.lookup path.text = some f → f.Kept →
        PredicateExact result request.source catalog e i f v s := by
  have hlimits : (built config catalogs).limits = config.limits :=
    congrArg Engine.limits (built_frame config catalogs)
  intro result
  have hresult : result = compileFresh config.limits catalog d request.offset request.source none := by
    rw [← hlimits, ← fresh_of_admissible h]
    exact compile_after_eq_fresh config catalogs history request
  rw [hresult]
  refine ⟨fun n => ⟨?_, ?_⟩, ?_, ?_⟩
  · obtain ⟨c, cs, hchars, hblank, -⟩ := n.exists_cons_text
    have hcut : Lexeme.cut (n.text.toList ++ []) = _ := n.cut_text rfl
    rw [List.append_nil, hchars] at hcut
    rw [kindsIn_lexeme hchars hblank hcut, ← hchars, n.kind_text_eq_ok_iff]
    simp
  · intro hv
    have hempty : ReadAs [] [] (n.text.toList ++ []) := .blanks (List.forall_mem_nil _)
    obtain ⟨span, hread⟩ := hempty.refused hv rfl .start []
    exact ⟨span, tokenize_eq_error.mpr (by simpa using hread)⟩
  · intro t f hsource hlookup hf hmax hoffset
    rw [hsource]
    exact testExact_compileFresh hlookup hf hmax hoffset
  · intro e i a path v s f he ha hcompares hlookup hf
    obtain ⟨tokens, htokens, he⟩ := bind_eq_ok.mp he
    have htokens := mapError_eq_ok.mp htokens
    exact predicateExact_compileFresh htokens (mapError_eq_ok.mp he) ha hcompares hlookup hf

def readings : Catalog :=
  .of .note "reading" 1 [{ Field.ofColumn "count" (.number .int32) "count" with table := "reading" },
    { Field.ofJson "data.total" (.number .int64) "data" ["total"] with table := "reading" }]

def countTest (n : Numeral.Whole) : NumeralTest where
  name := "count"
  operator := .lessEqual
  numeral := n
  turned := true
  gap i := [" ", "", "\t", ""].get i
  dotted := rfl
  word := by decide
  blank i := by fin_cases i <;> simp

theorem integer_literals_exact_readings :
    let least : Request := ⟨.note, " -002147483648<=\tcount", some .sqlite, 0⟩
    let more : Request := ⟨.note, " 2147483648<=\tcount", some .sqlite, 0⟩
    (built {} [readings]).admissible least = .ok (.sqlite, readings) ∧
      (∃ statement, ((built {} [readings]).compile least none).1.result = .ok statement ∧
        statement.parameters = [.int32 (-2147483648)]) ∧
      (built {} [readings]).admissible more = .ok (.sqlite, readings) ∧
      ∃ span, ((built {} [readings]).compile more none).1.result =
        .error (.semantic (.typeMismatch (.outOfRange 2147483648 "count") span)) := by
  intro least more
  have hleast : (built {} [readings]).admissible least = .ok (.sqlite, readings) := rfl
  have hmore : (built {} [readings]).admissible more = .ok (.sqlite, readings) := rfl
  obtain ⟨-, hfirst, -⟩ := integer_literals_exact {} [readings] [] least .sqlite readings hleast
  obtain ⟨-, hsecond, -⟩ := integer_literals_exact {} [readings] [] more .sqlite readings hmore
  have hfield : readings.lookup "count" =
      some { Field.ofColumn "count" (.number .int32) "count" with table := "reading" } := rfl
  have htest := hfirst (countTest ⟨true, [0, 0, 2, 1, 4, 7, 4, 8, 3, 6, 4, 8], by decide⟩) _ (by decide) hfield
    (.inl ⟨_, rfl⟩) (by decide) (by decide)
  have hbeyond := hsecond (countTest ⟨false, [2, 1, 4, 7, 4, 8, 3, 6, 4, 8], by decide⟩) _ (by decide) hfield
    (.inl ⟨_, rfl⟩) (by decide) (by decide)
  refine ⟨hleast, ?_, hmore, ?_⟩
  · exact (htest.int32 (by decide) rfl).mpr (by decide)
  · exact hbeyond.mismatch (by decide) rfl (by decide)

end Engine

end FilterSql
