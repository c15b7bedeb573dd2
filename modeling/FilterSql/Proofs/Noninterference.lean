import FilterSql.Proofs.EngineRuns
import FilterSql.Proofs.Skeleton

/-! Nothing that a filter says in its texts and numbers reaches the text of a statement. Two filters that
differ in them alone are given one fragment and one list of fields, by every engine and at every time. -/
namespace FilterSql.Engine

theorem skeleton_eq_of_analysed {limits : Limits} {catalog : Catalog} {source₁ source₂ : String}
    {tokens₁ tokens₂ : List Token} {typed₁ typed₂ : Predicate Operand}
    (htokens₁ : tokenize source₁ = .ok tokens₁) (htokens₂ : tokenize source₂ = .ok tokens₂)
    (halike : Token.Alike tokens₁ tokens₂) (h₁ : Analysed limits catalog source₁ typed₁)
    (h₂ : Analysed limits catalog source₂ typed₂) :
    typed₁.skeleton Operand.isTrue = typed₂.skeleton Operand.isTrue := by
  obtain ⟨ts, e₁, bound₁, hts, he₁, hbound₁, hcheck₁⟩ := h₁
  cases htokens₁.symm.trans hts
  obtain ⟨us, e₂, bound₂, hus, he₂, hbound₂, hcheck₂⟩ := h₂
  cases htokens₂.symm.trans hus
  have houtline : e₁.outline = e₂.outline :=
    Grammar.outline_eq_of_ofTokens halike.map_outline_eq he₁ he₂
  obtain ⟨-, -, hbound₁⟩ := bind_eq_ok.mp hbound₁
  obtain ⟨-, -, hbound₂⟩ := bind_eq_ok.mp hbound₂
  obtain ⟨q₁, hq₁, hskeleton₁⟩ := Predicate.bindExpr_outline hbound₁
  obtain ⟨q₂, hq₂, hskeleton₂⟩ := Predicate.bindExpr_outline hbound₂
  have hsame : q₁ = q₂ := by
    rw [houtline, hq₂] at hq₁
    exact (Except.ok.inj hq₁).symm
  calc typed₁.skeleton Operand.isTrue
    _ = bound₁.skeleton Literal.isTrue := Predicate.check_skeleton hcheck₁
    _ = q₁.skeleton Literal.isTrue := hskeleton₁.symm
    _ = q₂.skeleton Literal.isTrue := by rw [hsame]
    _ = bound₂.skeleton Literal.isTrue := hskeleton₂
    _ = typed₂.skeleton Operand.isTrue := (Predicate.check_skeleton hcheck₂).symm

/-- Whatever an engine was built with and asked before, two filters with alike tokens that compile for one
entity, dialect and offset have the same fragment and the same fields; their texts and numbers show in the
parameters alone. -/
theorem compile_noninterference (config : Config) (catalogs : List Catalog)
    (history₁ history₂ : List (Request × Signal)) (entity : Entity) (dialect : Option Dialect)
    (offset : Nat) (source₁ source₂ : String) (signal₁ signal₂ : Signal) (tokens₁ tokens₂ : List Token)
    (statement₁ statement₂ : Statement)
    (htokens₁ : tokenize source₁ = .ok tokens₁) (htokens₂ : tokenize source₂ = .ok tokens₂)
    (halike : Token.Alike tokens₁ tokens₂)
    (h₁ : (((built config catalogs).after history₁).compile ⟨entity, source₁, dialect, offset⟩
      signal₁).1.result = .ok statement₁)
    (h₂ : (((built config catalogs).after history₂).compile ⟨entity, source₂, dialect, offset⟩
      signal₂).1.result = .ok statement₂) :
    statement₁.fragment = statement₂.fragment ∧
      statement₁.referencedFields = statement₂.referencedFields := by
  obtain ⟨d, catalog, hdialect, hcatalog, hfresh₁⟩ := fresh_of_compile_after h₁
  obtain ⟨d', catalog', hdialect', hcatalog', hfresh₂⟩ := fresh_of_compile_after h₂
  cases hdialect.symm.trans hdialect'
  cases hcatalog.symm.trans hcatalog'
  obtain ⟨⟨typed₁, hanalysed₁, hrender₁, hfields₁⟩, -⟩ := compileFresh_eq_ok_iff.mp hfresh₁
  obtain ⟨⟨typed₂, hanalysed₂, hrender₂, hfields₂⟩, -⟩ := compileFresh_eq_ok_iff.mp hfresh₂
  have hskeleton := skeleton_eq_of_analysed htokens₁ htokens₂ halike hanalysed₁ hanalysed₂
  constructor
  · rw [Predicate.fragment_of_render hrender₁, Predicate.fragment_of_render hrender₂]
    exact Predicate.textFrom_of_skeleton hskeleton d offset
  · rw [hfields₁, hfields₂]
    exact Predicate.referencedFields_of_skeleton hskeleton

def createdAfter (value : Literal) (lexeme : String) (length : Nat) : List Token :=
  [⟨.name "created_ts", "created_ts", ⟨0, 10, 1, 1⟩⟩, ⟨.symbol (.compare .greater), ">", ⟨10, 11, 1, 11⟩⟩,
    ⟨.literal value, lexeme, ⟨11, 11 + length, 1, 12⟩⟩,
    .finish ⟨11 + length, 11 + length, 1, 12 + length⟩]

theorem compile_noninterference_moments :
    let engine := built {} [.standard .note]
    let seconds : Request := ⟨.note, "created_ts>5", some .postgres, 2⟩
    let date : Request := ⟨.note, "created_ts>\"2024-05-01T00:00:00Z\"", some .postgres, 2⟩
    ∃ statement₁ statement₂,
      ((engine.after [(seconds, none)]).compile seconds none).1.result = .ok statement₁ ∧
      (engine.compile date none).1.result = .ok statement₂ ∧
      statement₁.fragment = statement₂.fragment ∧
      statement₁.referencedFields = statement₂.referencedFields ∧
      statement₁.parameters = [.int64 5] ∧ statement₂.parameters = [.int64 1714521600] := by
  intro engine seconds date
  have htokens₁ : tokenize seconds.source = .ok (createdAfter (.integer 5) "5" 1) := by decide +kernel
  have htokens₂ : tokenize date.source =
      .ok (createdAfter (.text "2024-05-01T00:00:00Z") "\"2024-05-01T00:00:00Z\"" 22) := by decide +kernel
  have halike : Token.Alike (createdAfter (.integer 5) "5" 1)
      (createdAfter (.text "2024-05-01T00:00:00Z") "\"2024-05-01T00:00:00Z\"" 22) :=
    .cons (.same _) (.cons (.same _) (.cons (.literals rfl rfl) (.cons (.same _) .nil)))
  have h₁ : ((engine.after [(seconds, none)]).compile seconds none).1.result =
      .ok ⟨"(\"memo\".\"created_ts\" > $3)", [.int64 5], ["created_ts"]⟩ := by decide +kernel
  have h₂ : ((engine.after []).compile date none).1.result =
      .ok ⟨"(\"memo\".\"created_ts\" > $3)", [.int64 1714521600], ["created_ts"]⟩ := by
    decide +kernel
  obtain ⟨hfragment, hfields⟩ := compile_noninterference {} [.standard .note] [(seconds, none)] [] .note
    (some .postgres) 2 _ _ none none _ _ _ _ htokens₁ htokens₂ halike h₁ h₂
  exact ⟨_, _, h₁, h₂, hfragment, hfields, rfl, rfl⟩

end FilterSql.Engine
