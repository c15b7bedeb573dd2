import FilterSql.Proofs.NeatLayout

/-! Rendered predicates read back. The parentheses of a rendered predicate match, and a reader that knows
the precedence of SQL and nothing of predicates finds its connectives and its leaves in it, also when the
text is put beside an `AND` of somebody else. -/
namespace FilterSql

open Sql Nested

namespace Sql

/-- A nesting that starts a leaf: what follows it keeps it from being an operand of `NOT` or a group. -/
def Nested.Leads (v : Nested) : Prop :=
  Uncut v.phrases ∧ ∀ ps : List Phrase, ps.any (!·.isBlank) = true →
    negated? (v.phrases ++ ps) = none ∧ (v.phrases ++ ps).dropWhile Phrase.isBlank = v.phrases ++ ps

theorem Nested.leads_part {p : Part} {t : Nested} (hblank : (Phrase.part p).isBlank = false)
    (hnot : (Phrase.part p).isKeyword "NOT" = false) (hcut : Uncut (part p t).phrases) :
    (part p t).Leads := by
  refine ⟨hcut, fun ps _ => ⟨?_, ?_⟩⟩
  · simp [phrases, negated?, hblank, hnot]
  · rw [phrases, List.cons_append, List.dropWhile_cons, hblank]
    rfl

theorem Nested.leads_enclosed (t : Nested) : (enclosed t).Leads := by
  refine ⟨rfl, fun ps hps => ⟨?_, rfl⟩⟩
  have hall : ps.all Phrase.isBlank = false := by
    rw [List.all_eq_not_any_not, hps]
    rfl
  simp [enclosed, phrases, negated?, hall]

theorem Nested.Leads.append {v t : Nested} (hv : v.Leads) (ht : Uncut t.phrases)
    (h : t.phrases.any (!·.isBlank) = true) : (v ++ t).Leads := by
  refine ⟨?_, fun ps _ => ?_⟩
  · rw [phrases_append]
    exact hv.1.append ht
  · rw [phrases_append, List.append_assoc]
    apply hv.2
    rw [List.any_append, h]
    rfl

theorem Nested.uncut_signs (s : String) : Uncut (signs s).phrases := by
  unfold signs
  induction s.toList with
  | nil => rfl
  | cons c cs ih => exact ih

theorem Nested.Leads.condition {v t : Nested} (hv : v.Leads) (ht : Uncut t.phrases) {p : Phrase}
    (hend : t.phrases.getLast? = some p) (hp : p.isBlank = false) :
    (v ++ t).condition = .leaf (v ++ t) := by
  obtain ⟨ps, hend⟩ := List.getLast?_eq_some_iff.mp hend
  have hsome : t.phrases.any (!·.isBlank) = true := by simp [hend, hp]
  obtain ⟨hnegated, hdrop⟩ := hv.2 t.phrases hsome
  apply condition_leaf
  · rw [phrases_append]
    exact hv.1.append ht
  · rw [phrases_append]
    exact hnegated
  · rw [phrases_append, trim, hdrop, hend, ← List.append_assoc]
    exact trimEnd_append hp

end Sql

namespace Dialect

theorem isBlank_mark (d : Dialect) (index : Nat) : (Phrase.part (d.mark index)).isBlank = false := by
  cases d <;> rfl

theorem uncut_mark (d : Dialect) (index : Nat) : Uncut [.part (d.mark index)] := by
  cases d with
  | postgres => simp [Uncut, mark, Phrase.isConnective, Phrase.isKeyword]
  | mysql => rfl
  | sqlite => rfl

theorem leads_columnLayout (d : Dialect) (table column : String) : (d.columnLayout table column).Leads :=
  leads_part rfl rfl rfl

theorem leads_scalarLayout (d : Dialect) (column : Nested) (path : List String) (type : FieldType) :
    (d.scalarLayout column path type).Leads := by
  unfold scalarLayout
  cases d with
  | mysql =>
    cases type with
    | boolean => exact leads_enclosed _
    | _ => exact leads_part rfl rfl rfl
  | sqlite =>
    cases type with
    | boolean => exact leads_enclosed _
    | _ => exact leads_part rfl rfl rfl
  | postgres =>
    cases type with
    | number width => cases width <;> exact leads_part rfl rfl rfl
    | timestamp => exact leads_part rfl rfl rfl
    | _ => exact leads_enclosed _

theorem leads_collated {d : Dialect} {value : Nested} (h : value.Leads) : (d.collated value).Leads := by
  cases d with
  | mysql => exact h.append rfl rfl
  | postgres => exact h
  | sqlite => exact h

theorem condition_containsLayout (d : Dialect) (column : Nested) (path : List String) (mark : Part) :
    (d.containsLayout column path mark).condition = .leaf (d.containsLayout column path mark) ∧
    (Nested.part (.word "NOT") (.part (.sign ' ') (d.containsLayout column path mark))).condition =
      .leaf (.part (.word "NOT") (.part (.sign ' ') (d.containsLayout column path mark))) := by
  cases d <;> exact ⟨condition_leaf rfl rfl rfl, condition_leaf rfl rfl rfl⟩

theorem condition_likeLayout {value : Nested} (h : value.Leads) (d : Dialect) (index : Nat) :
    (value ++ likeLayout (d.mark index)).condition = .leaf (value ++ likeLayout (d.mark index)) := by
  have hcut : Uncut (likeLayout (d.mark index)).phrases := by
    have hmark : Uncut (.part (d.mark index) :: (words ["ESCAPE"] ++
        .part (.sign ' ') (.part (.quoted '\x27' likeEscape.toString) .done)).phrases) :=
      (d.uncut_mark index).append rfl
    exact hmark
  exact h.condition hcut rfl rfl

theorem condition_matchesLayout {value : Nested} (h : value.Leads) (d : Dialect) (index : Nat) :
    (d.matchesLayout value (d.mark index)).condition = .leaf (d.matchesLayout value (d.mark index)) := by
  unfold matchesLayout
  cases d with
  | mysql => exact condition_likeLayout (leads_collated h) mysql index
  | postgres => exact condition_likeLayout h postgres index
  | sqlite => exact h.condition (sqlite.uncut_mark index) rfl (sqlite.isBlank_mark index)

end Dialect

theorem Field.leads_valueLayout (f : Field) (d : Dialect) : (f.valueLayout d).Leads := by
  unfold valueLayout
  split
  · exact d.leads_scalarLayout _ _ _
  · exact d.leads_columnLayout _ _

namespace Sql

theorem condition_comparison {value : Nested} (h : value.Leads) (s : String) (d : Dialect) (index : Nat) :
    (value ++ (signs s ++ .part (d.mark index) .done)).condition =
      .leaf (value ++ (signs s ++ .part (d.mark index) .done)) := by
  have hend : (signs s ++ .part (d.mark index) .done).phrases.getLast? = some (.part (d.mark index)) := by
    simp [phrases]
  refine h.condition ?_ hend (d.isBlank_mark index)
  rw [phrases_append]
  exact (uncut_signs s).append (d.uncut_mark index)

theorem condition_compareLayout (d : Dialect) (f : Field) (operator : Comparison) (operand : Operand)
    (index : Nat) :
    (compareLayout d f operator operand (d.mark index)).condition =
      .leaf (compareLayout d f operator operand (d.mark index)) := by
  unfold compareLayout
  split
  · split
    · exact (d.condition_containsLayout _ _ _).2
    · exact (d.condition_containsLayout _ _ _).1
  · exact condition_comparison (d.leads_columnLayout _ _) _ d index
  · apply condition_comparison
    split
    · exact Dialect.leads_collated (f.leads_valueLayout d)
    · exact f.leads_valueLayout d

theorem condition_searchLayout (d : Dialect) (f : Field) (index : Nat) :
    (searchLayout d f (d.mark index)).condition = .leaf (searchLayout d f (d.mark index)) :=
  Dialect.condition_matchesLayout (f.leads_valueLayout d) d index

end Sql

namespace Predicate

def reading (d : Dialect) (index : Nat) : Predicate Operand → Condition Nested
  | and left right => .and (left.reading d index) (right.reading d (index + left.fields.length))
  | or left right => .or (left.reading d index) (right.reading d (index + left.fields.length))
  | not operand => .not (operand.reading d index)
  | compare field operator operand _ => .leaf (compareLayout d field operator operand (d.mark index))
  | search field _ _ _ => .leaf (searchLayout d field (d.mark index))

theorem negated?_layout (p : Predicate Operand) (d : Dialect) (index : Nat) :
    Uncut (p.layout d index).phrases ∧
      negated? (p.layout d index).phrases = some (p.reading d index) := by
  have hgroup : ∀ t : Nested, negated? (enclosed t).phrases = some t.condition := fun _ => rfl
  induction p generalizing index with
  | and left right ihl ihr =>
    obtain ⟨hcutl, hl⟩ := ihl index
    obtain ⟨hcutr, hr⟩ := ihr (index + left.fields.length)
    refine ⟨rfl, ?_⟩
    rw [layout, hgroup, condition_and hcutl hcutr, factor, factor, hl, hr]
    rfl
  | or left right ihl ihr =>
    obtain ⟨hcutl, hl⟩ := ihl index
    obtain ⟨hcutr, hr⟩ := ihr (index + left.fields.length)
    refine ⟨rfl, ?_⟩
    rw [layout, hgroup, condition_or hcutl hcutr, factor, factor, hl, hr]
    rfl
  | not operand ih =>
    obtain ⟨hcut, h⟩ := ih index
    exact ⟨hcut, congrArg (Option.map Condition.not) h⟩
  | compare f operator operand span =>
    refine ⟨rfl, ?_⟩
    rw [layout, hgroup, condition_compareLayout, reading]
  | search f function operand span =>
    refine ⟨rfl, ?_⟩
    rw [layout, hgroup, condition_searchLayout, reading]

def condition (d : Dialect) (index : Nat) : Predicate Operand → Condition String
  | and left right => .and (left.condition d index) (right.condition d (index + left.fields.length))
  | or left right => .or (left.condition d index) (right.condition d (index + left.fields.length))
  | not operand => .not (operand.condition d index)
  | compare field operator operand _ =>
    .leaf ((compareLeaf d field operator operand).sql.fill (d.placeholder index))
  | search field function operand _ =>
    .leaf ((searchLeaf d field function operand).sql.fill (d.placeholder index))

def shape : Predicate α → Condition Unit
  | and left right => .and left.shape right.shape
  | or left right => .or left.shape right.shape
  | not operand => .not operand.shape
  | compare .. => .leaf ()
  | search .. => .leaf ()

theorem map_condition (p : Predicate Operand) (d : Dialect) (index : Nat) :
    (p.condition d index).map (fun _ => ()) = p.shape := by
  induction p generalizing index with
  | and left right ihl ihr | or left right ihl ihr => rw [condition, Condition.map, ihl, ihr, shape]
  | not operand ih => rw [condition, Condition.map, ih, shape]
  | compare => rfl
  | search => rfl

theorem map_reading {p : Predicate Operand} (h : ∀ f ∈ p.fields, f.overrides = []) (d : Dialect)
    (index : Nat) :
    (p.reading d index).map (fun leaf => String.ofList leaf.text) = p.condition d index := by
  induction p generalizing index with
  | and left right ihl ihr | or left right ihl ihr =>
    have hl := ihl (fun f hf => h f (List.mem_append_left _ hf)) index
    have hr := ihr (fun f hf => h f (List.mem_append_right _ hf)) (index + left.fields.length)
    rw [reading, Condition.map, hl, hr, condition]
  | not operand ih => rw [reading, Condition.map, ih h, condition]
  | compare f operator operand span =>
    rw [reading, Condition.map, text_compareLayout (h f (by simp [fields])), String.ofList_toList, condition]
  | search f function operand span =>
    rw [reading, Condition.map, text_searchLayout (h f (by simp [fields])) d function operand,
      String.ofList_toList, condition]

/-- The text of a predicate is an operand, which reads as the predicate. -/
theorem operand?_textFrom {p : Predicate Operand}
    (h : ∀ f ∈ p.fields, f.Quotable ∧ f.overrides = []) (d : Dialect) (index : Nat) :
    operand? (textFrom d index (p.pieces d)) = some (p.condition d index) := by
  have hneat := neat_layout (fun f hf => (h f hf).1) d index
  have htext := text_layout (fun f hf => (h f hf).2) d index
  obtain ⟨hcut, hnegated⟩ := negated?_layout p d index
  have hcut : (p.layout d index).phrases.any Phrase.isConnective = false := hcut
  rw [operand?, ← htext, nested?_text hneat.written, Option.bind_some, hcut, factor, hnegated,
    ← map_reading fun f hf => (h f hf).2]
  rfl

/-- Over a checked catalog without overrides, the text of a predicate has balanced parentheses and is read
by the precedence of SQL as the predicate: the same connectives, over the texts of its leaves in order. So
the text fixes the connectives of the predicate. In a chain of `AND` with other operands it stays one
operand, which is read as it is read alone. -/
theorem render_reads_back {entity : Entity} {table : String} {version : Nat} {fields : List Field}
    {catalog : Catalog} (hbuild : Catalog.build entity table version fields = .ok catalog)
    (hoverrides : ∀ f ∈ catalog.fields, f.overrides = []) (p : Predicate Operand)
    (hfields : ∀ f ∈ p.fields, f ∈ catalog.fields) (d : Dialect) (offset : Nat) (fragment : String)
    (parameters : List Value) (hrender : p.render d offset = some (fragment, parameters)) :
    BalancedParens fragment ∧
    read? fragment = some (p.condition d offset) ∧
    (∀ (q : Predicate Operand) (others : List Value), (∀ f ∈ q.fields, f ∈ catalog.fields) →
      q.render d offset = some (fragment, others) →
        q.shape = p.shape ∧ q.condition d offset = p.condition d offset) ∧
    ∀ before after lefts rights, before.mapM operand? = some lefts → after.mapM operand? = some rights →
      read? (" AND ".intercalate (before ++ fragment :: after)) =
        conjoin (lefts ++ p.condition d offset :: rights) := by
  have hplain : ∀ q : Predicate Operand, (∀ f ∈ q.fields, f ∈ catalog.fields) →
      ∀ f ∈ q.fields, f.Quotable ∧ f.overrides = [] := fun q hq f hf =>
    ⟨Field.quotable_of_build hbuild (hq f hf), hoverrides f (hq f hf)⟩
  have hoperand : operand? fragment = some (p.condition d offset) := by
    rw [fragment_of_render hrender]
    exact operand?_textFrom (hplain p hfields) d offset
  have hchain : ∀ before after lefts rights, before.mapM operand? = some lefts →
      after.mapM operand? = some rights →
      read? (" AND ".intercalate (before ++ fragment :: after)) =
        conjoin (lefts ++ p.condition d offset :: rights) := by
    intro before after lefts rights hlefts hrights
    apply read?_intercalate (by simp)
    simp [List.mapM_append, hlefts, hoperand, hrights]
  refine ⟨?_, ?_, ?_, hchain⟩
  · have hneat := neat_layout (fun f hf => (hplain p hfields f hf).1) d offset
    rw [BalancedParens, fragment_of_render hrender, ← text_layout fun f hf => (hplain p hfields f hf).2]
    exact hneat.openAfter
  · simpa [conjoin] using hchain [] [] [] [] rfl rfl
  · intro q others hq hrender'
    have hsame : operand? fragment = some (q.condition d offset) := by
      rw [fragment_of_render hrender']
      exact operand?_textFrom (hplain q hq) d offset
    have hcondition : q.condition d offset = p.condition d offset := by
      rw [hoperand] at hsame
      exact (Option.some_inj.mp hsame).symm
    refine ⟨?_, hcondition⟩
    rw [← map_condition q d offset, hcondition, map_condition]

def linkFields : List Field :=
  [.ofJson "link" .boolean "payload" ["property", "hasLink"], .ofJsonArray "tag" "payload" ["tags"]]

def linkedElsewhere : Predicate Operand :=
  .not (.or
    (.compare { Field.ofJson "link" .boolean "payload" ["property", "hasLink"] with table := "memo" }
      .notEqual (.boolean true) default)
    (.not (.compare { Field.ofJsonArray "tag" "payload" ["tags"] with table := "memo" }
      .notEqual (.text ") OR (") default)))

theorem render_reads_back_linked :
    let link := "(CAST((\"memo\".\"payload\" #>> '\x7bproperty,hasLink\x7d') AS BOOLEAN) IS TRUE) <> $4"
    let tag := "NOT COALESCE((\"memo\".\"payload\" #> '\x7btags\x7d') @> " ++
      "jsonb_build_array(CAST($5 AS TEXT)), FALSE)"
    let fragment := "NOT ((" ++ link ++ ") OR NOT (" ++ tag ++ "))"
    (∃ parameters, linkedElsewhere.render .postgres 3 = some (fragment, parameters)) ∧
    BalancedParens fragment ∧
    read? fragment = some (.not (.or (.leaf link) (.not (.leaf tag)))) ∧
    read? (" AND ".intercalate ["NOT (a OR b)", fragment, "c = 'OR'"]) =
      some (.and (.and (.not (.or (.leaf "a") (.leaf "b"))) (.not (.or (.leaf link) (.not (.leaf tag)))))
        (.leaf "c = 'OR'")) := by
  intro link tag fragment
  have hbuild : Catalog.build .note "memo" 1 linkFields =
      .ok (.of .note "memo" 1 (linkFields.map fun f => { f with table := "memo" })) := rfl
  have hrender : linkedElsewhere.render .postgres 3 =
      some (fragment, [.boolean true, .text ") OR ("]) := by decide +kernel
  have hcondition : linkedElsewhere.condition .postgres 3 = .not (.or (.leaf link) (.not (.leaf tag))) := by
    decide +kernel
  obtain ⟨hbalanced, hread, -, hchain⟩ := render_reads_back hbuild (by decide) linkedElsewhere (by decide)
    .postgres 3 fragment _ hrender
  rw [hcondition] at hread hchain
  refine ⟨⟨_, hrender⟩, hbalanced, hread, ?_⟩
  exact hchain ["NOT (a OR b)"] ["c = 'OR'"] [.not (.or (.leaf "a") (.leaf "b"))] [.leaf "c = 'OR'"] rfl rfl

end Predicate

end FilterSql
