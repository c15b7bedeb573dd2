import Mathlib.Data.List.Forall2
import FilterSql.Proofs.Interleaving
import FilterSql.Proofs.Rendering
import FilterSql.Proofs.Typing

/-! One filter in two dialects. Both refuse it with one error, or both compile it, over the same fields and
with parameters that say the same: only the forms of truth values, of variants and of patterns are the
dialects' own. -/
namespace FilterSql

open FilterSql.Expr Sql

/-- Two values that stand in one place of a filter's statements for two dialects. -/
inductive Value.Corresponds (catalog : Catalog) (e : Expr) (d₁ d₂ : Dialect) : Value → Value → Prop where
  | same (v : Value) : Corresponds catalog e d₁ d₂ v v
  | truth (b : Bool) : d₁ = .postgres → d₂ ≠ .postgres →
      Corresponds catalog e d₁ d₂ (.boolean b) (.int32 (if b then 1 else 0))
  | truthTurned (b : Bool) : d₁ ≠ .postgres → d₂ = .postgres →
      Corresponds catalog e d₁ d₂ (.int32 (if b then 1 else 0)) (.boolean b)
  /-- A variant that the filter names, as either dialect stores it. -/
  | variant {f : Field} {type : EnumType} {v : Variant} : f ∈ catalog.fields → f.type = .enum type →
      v ∈ type.variants → Node (.literal (.text v.literal) s) e →
      Corresponds catalog e d₁ d₂ (.text (v.encoding d₁)) (.text (v.encoding d₂))
  /-- A text that the filter searches for, in the pattern of either dialect. -/
  | search {f : Field} {function : StringFunction} {needle : String} : f ∈ catalog.fields →
      function ∈ f.functions → Node (.literal (.text needle) s) e →
      Corresponds catalog e d₁ d₂ (.text (pattern d₁ function needle)) (.text (pattern d₂ function needle))

theorem Value.Corresponds.mono {catalog : Catalog} {part whole : Expr} {d₁ d₂ : Dialect} {v w : Value}
    (hpart : ∀ a, Node a part → Node a whole) (h : Corresponds catalog part d₁ d₂ v w) :
    Corresponds catalog whole d₁ d₂ v w := by
  cases h with
  | same => exact .same v
  | truth b h₁ h₂ => exact .truth b h₁ h₂
  | truthTurned b h₁ h₂ => exact .truthTurned b h₁ h₂
  | variant hf htype hv hnode => exact .variant hf htype hv (hpart _ hnode)
  | search hf hfunction hnode => exact .search hf hfunction (hpart _ hnode)

theorem Value.corresponds_encodeBool (catalog : Catalog) (e : Expr) (d₁ d₂ : Dialect) (b : Bool) :
    Corresponds catalog e d₁ d₂ (d₁.encodeBool b) (d₂.encodeBool b) := by
  cases d₁ with
  | postgres =>
    cases d₂ with
    | postgres => exact .same _
    | mysql | sqlite => exact .truth b rfl (by decide)
  | mysql | sqlite =>
    cases d₂ with
    | postgres => exact .truthTurned b (by decide) rfl
    | mysql | sqlite => exact .same _

namespace Predicate

variable {catalog : Catalog} {d₁ d₂ : Dialect}

theorem corresponds_encode {f : Field} (hf : f ∈ catalog.fields) {value : Literal} {operand : Operand}
    (h : Literal.Denotes f.type value operand) {e : Expr}
    (hnode : ∀ text, value = .text text → ∃ s, Node (.literal (.text text) s) e) :
    Value.Corresponds catalog e d₁ d₂ (operand.encode d₁) (operand.encode d₂) := by
  generalize htype : f.type = type at h
  cases h with
  | boolean => exact Value.corresponds_encodeBool catalog e d₁ d₂ _
  | variant hv =>
    obtain ⟨s, hliteral⟩ := hnode _ rfl
    exact .variant hf htype hv hliteral
  | _ => exact .same _

theorem corresponds_compareLeaf {f : Field} (hf : f ∈ catalog.fields) (operator : Comparison)
    {value : Literal} {operand : Operand} (h : Literal.Denotes f.type value operand) {e : Expr}
    (hnode : ∀ text, value = .text text → ∃ s, Node (.literal (.text text) s) e) :
    Value.Corresponds catalog e d₁ d₂ (compareLeaf d₁ f operator operand).parameter
      (compareLeaf d₂ f operator operand).parameter := by
  have hencode : Value.Corresponds catalog e d₁ d₂ (operand.encode d₁) (operand.encode d₂) :=
    corresponds_encode hf h hnode
  unfold compareLeaf
  split
  · exact hencode
  · exact .same _
  · exact hencode

theorem values_connected (before between behind : String) (ps qs : List Piece) :
    values ([.text before] ++ ps ++ [.text between] ++ qs ++ [.text behind]) = values ps ++ values qs := by
  simp [values]

theorem forall₂_values {e : Expr} {p : Predicate Literal} {t : Predicate Operand} (hp : Bound catalog e p)
    (ht : Typed p t) :
    List.Forall₂ (Value.Corresponds catalog e d₁ d₂) (values (t.pieces d₁)) (values (t.pieces d₂)) := by
  induction hp generalizing t with
  | and _ _ ihl ihr =>
    cases ht with
    | and hl hr =>
      simp only [pieces, values_connected]
      exact List.rel_append ((ihl hl).imp fun _ _ h => h.mono fun _ => .left)
        ((ihr hr).imp fun _ _ h => h.mono fun _ => .right)
  | or _ _ ihl ihr =>
    cases ht with
    | or hl hr =>
      simp only [pieces, values_connected]
      exact List.rel_append ((ihl hl).imp fun _ _ h => h.mono fun _ => .left)
        ((ihr hr).imp fun _ _ h => h.mono fun _ => .right)
  | not _ ih =>
    cases ht with
    | not h => exact (ih h).imp fun _ _ h => h.mono fun _ => .operand
  | field hlookup =>
    cases ht with
    | compare _ hvalue =>
      exact .cons (corresponds_compareLeaf (lookup_mem hlookup) _ hvalue (by simp)) .nil
  | compare hlookup =>
    cases ht with
    | compare _ hvalue =>
      refine .cons (corresponds_compareLeaf (lookup_mem hlookup) _ hvalue ?_) .nil
      rintro text rfl
      exact ⟨_, .compareRight .root⟩
  | compareTurned hlookup =>
    cases ht with
    | compare _ hvalue =>
      refine .cons (corresponds_compareLeaf (lookup_mem hlookup) _ hvalue ?_) .nil
      rintro text rfl
      exact ⟨_, .compareLeft .root⟩
  | call hlookup hfunction =>
    cases ht with
    | search text =>
      exact .cons (.search (lookup_mem hlookup) hfunction
        (.argument (List.mem_cons_of_mem _ List.mem_cons_self) .root)) .nil

end Predicate

namespace Engine

theorem CacheSound.compile_eq_fresh {engine : Engine} (hsound : engine.CacheSound) (request : Request) :
    (engine.compile request none).1.result = engine.fresh request := by
  have hpass : pass none .start = .ok () := rfl
  unfold Engine.compile
  cases hadmissible : engine.admissible request with
  | error e => exact (fresh_of_refused hadmissible).symm
  | ok chosen =>
    obtain ⟨dialect, catalog⟩ := chosen
    rw [fresh_of_admissible hadmissible]
    simp only [hpass]
    cases hget : engine.cache.bind (·.get? (keyOf request dialect catalog)) with
    | some statement =>
      obtain ⟨found, hfound, -, hfresh⟩ := hsound.fresh_of_get? hget
      cases hfound.symm.trans (admissible_eq_ok hadmissible).2
      exact hfresh.symm
    | none => cases compileFresh engine.limits catalog dialect request.offset request.source none <;> rfl

theorem built_frame (config : Config) (catalogs : List Catalog) :
    built config catalogs = { ofConfig config with catalogs := (built config catalogs).catalogs } := by
  have hfold : ∀ (catalogs : List Catalog) (engine : Engine), catalogs.foldl register engine =
      { engine with catalogs := (catalogs.foldl register engine).catalogs } := by
    intro catalogs
    induction catalogs with
    | nil => exact fun _ => rfl
    | cons catalog catalogs ih => exact fun engine => ih (engine.register catalog)
  exact hfold catalogs (ofConfig config)

/-- The answer of an engine, whatever it was asked before, by what it was built with. -/
theorem compile_after_eq_fresh (config : Config) (catalogs : List Catalog)
    (history : List (Request × Signal)) (request : Request) :
    (((built config catalogs).after history).compile request none).1.result =
      (built config catalogs).fresh request := by
  rw [((cacheSound_built config catalogs).after history).compile_eq_fresh, after_frame]
  rfl

theorem ofText_of_analysed {limits : Limits} {source : String} {tokens : List Token} {e : Expr}
    (htokens : tokenize source = .ok tokens) (he : Expr.ofTokens limits tokens = .ok e) :
    Expr.ofText limits source = .ok e := by
  rw [Expr.ofText, htokens]
  exact mapError_eq_ok.mpr he

/-- The dialects agree on a source text over one catalog. Only rendering looks at the dialect, and the
placeholders run out for all of them at once. -/
theorem compileFresh_dialects_agree (limits : Limits) (catalog : Catalog) (offset : Nat) (source : String)
    (d₁ d₂ : Dialect) :
    (∃ error, compileFresh limits catalog d₁ offset source none = .error error ∧
      compileFresh limits catalog d₂ offset source none = .error error) ∨
    ∃ e statement₁ statement₂, Expr.ofText limits source = .ok e ∧
      compileFresh limits catalog d₁ offset source none = .ok statement₁ ∧
      compileFresh limits catalog d₂ offset source none = .ok statement₂ ∧
      statement₁.referencedFields = statement₂.referencedFields ∧
      List.Forall₂ (Value.Corresponds catalog e d₁ d₂) statement₁.parameters statement₂.parameters := by
  unfold compileFresh
  cases hanalyse : analyse limits catalog source none with
  | error error => exact .inl ⟨error, rfl, rfl⟩
  | ok typed =>
    simp only [Parser.ok_bind, Predicate.render_eq]
    by_cases hfit : offset + typed.fields.length ≤ maxPlaceholder
    · obtain ⟨⟨tokens, e, bound, htokens, he, hbound, hcheck⟩, -⟩ := analyse_eq_ok_iff.mp hanalyse
      simp only [if_pos hfit]
      exact .inr ⟨e, _, _, ofText_of_analysed htokens he, rfl, rfl, rfl,
        Predicate.forall₂_values (Predicate.bind_eq_ok_iff.mp hbound) (Predicate.typed_of_check hcheck)⟩
    · simp only [if_neg hfit]
      exact .inl ⟨_, rfl, rfl⟩

theorem admissible_of_mem {engine : Engine} {d : Dialect} (h : d ∈ engine.dialects) (entity : Entity)
    (source : String) (offset : Nat) :
    engine.admissible ⟨entity, source, some d, offset⟩ =
      match engine.catalog? entity with
      | some catalog => .ok (d, catalog)
      | none => .error (.unknownEntity entity.name) :=
  if_pos h

/-- Compiling for two dialects that an engine has enabled gives one error, or two statements with the same
fields whose parameters correspond one by one. What was asked of the engine before has no part in it, so
the two may share its cache. -/
theorem compile_dialects_agree (config : Config) (catalogs : List Catalog)
    (history₁ history₂ : List (Request × Signal)) (entity : Entity) (source : String) (offset : Nat)
    (d₁ d₂ : Dialect) (h₁ : d₁ ∈ config.dialects) (h₂ : d₂ ∈ config.dialects) :
    let engine := built config catalogs
    let result₁ := ((engine.after history₁).compile ⟨entity, source, some d₁, offset⟩ none).1.result
    let result₂ := ((engine.after history₂).compile ⟨entity, source, some d₂, offset⟩ none).1.result
    (∃ error, result₁ = .error error ∧ result₂ = .error error) ∨
    ∃ catalog e statement₁ statement₂, engine.catalog? entity = some catalog ∧
      Expr.ofText config.limits source = .ok e ∧ result₁ = .ok statement₁ ∧ result₂ = .ok statement₂ ∧
      statement₁.referencedFields = statement₂.referencedFields ∧
      List.Forall₂ (Value.Corresponds catalog e d₁ d₂) statement₁.parameters statement₂.parameters := by
  intro engine result₁ result₂
  have hdialects : engine.dialects = config.dialects := congrArg Engine.dialects (built_frame config catalogs)
  have hlimits : engine.limits = config.limits := congrArg Engine.limits (built_frame config catalogs)
  have hresult₁ : result₁ = engine.fresh ⟨entity, source, some d₁, offset⟩ :=
    compile_after_eq_fresh config catalogs history₁ _
  have hresult₂ : result₂ = engine.fresh ⟨entity, source, some d₂, offset⟩ :=
    compile_after_eq_fresh config catalogs history₂ _
  have hadmissible₁ := admissible_of_mem (hdialects ▸ h₁ : d₁ ∈ engine.dialects) entity source offset
  have hadmissible₂ := admissible_of_mem (hdialects ▸ h₂ : d₂ ∈ engine.dialects) entity source offset
  rw [hresult₁, hresult₂]
  cases hcatalog : engine.catalog? entity with
  | none =>
    rw [hcatalog] at hadmissible₁ hadmissible₂
    exact .inl ⟨_, fresh_of_refused hadmissible₁, fresh_of_refused hadmissible₂⟩
  | some catalog =>
    rw [hcatalog] at hadmissible₁ hadmissible₂
    rw [fresh_of_admissible hadmissible₁, fresh_of_admissible hadmissible₂, hlimits]
    have hagree := compileFresh_dialects_agree config.limits catalog offset source d₁ d₂
    exact hagree.imp id fun ⟨e, statement₁, statement₂, h⟩ => ⟨catalog, e, statement₁, statement₂, rfl, h⟩

def tasks : Catalog :=
  .of .note "task" 1 [{ Field.ofColumn "done" .boolean "done" with table := "task" },
    { Field.ofColumn "state" (.enum (.ofSteps "state" [.variant "OPEN", .storedFor .sqlite "0"])) "state" with
      table := "task" },
    { Field.searchable "title" [.contains] with table := "task" }]

theorem compile_dialects_agree_tasks :
    let engine := built {} [tasks]
    let request : Dialect → Request := fun d =>
      ⟨.note, "done && state == \"OPEN\" && contains(title, \"a*\")", some d, 0⟩
    ∃ e statement₁ statement₂, Expr.ofText {} (request .postgres).source = .ok e ∧
      (engine.compile (request .postgres) none).1.result = .ok statement₁ ∧
      ((engine.after [(request .postgres, none)]).compile (request .sqlite) none).1.result = .ok statement₂ ∧
      statement₁.parameters = [.boolean true, .text "OPEN", .text "%a*%"] ∧
      statement₂.parameters = [.int32 1, .text "0", .text "*a[*]*"] ∧
      List.Forall₂ (Value.Corresponds tasks e .postgres .sqlite) statement₁.parameters
        statement₂.parameters := by
  intro engine request
  have hfirst : ((engine.after []).compile (request .postgres) none).1.result.map Statement.parameters =
      .ok [.boolean true, .text "OPEN", .text "%a*%"] := by
    decide +kernel
  have hsecond : ((engine.after [(request .postgres, none)]).compile (request .sqlite) none).1.result.map
      Statement.parameters = .ok [.int32 1, .text "0", .text "*a[*]*"] := by
    decide +kernel
  obtain ⟨error, herror, -⟩ | ⟨catalog, e, statement₁, statement₂, hcatalog, he, h₁, h₂, -, hagree⟩ :=
    compile_dialects_agree {} [tasks] [] [(request .postgres, none)] .note (request .postgres).source 0
      .postgres .sqlite (by decide) (by decide)
  · have hnone := (congrArg (Except.map Statement.parameters) herror).symm.trans hfirst
    cases hnone
  · obtain rfl : tasks = catalog := Option.some.inj hcatalog
    have hparameters₁ := (congrArg (Except.map Statement.parameters) h₁).symm.trans hfirst
    have hparameters₂ := (congrArg (Except.map Statement.parameters) h₂).symm.trans hsecond
    exact ⟨e, statement₁, statement₂, he, h₁, h₂, Except.ok.inj hparameters₁, Except.ok.inj hparameters₂,
      hagree⟩

end Engine

end FilterSql
