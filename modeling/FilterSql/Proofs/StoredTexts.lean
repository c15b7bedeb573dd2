import FilterSql.FieldType

/-! How an enumeration stores its literals in one dialect. For a dialect an enumeration is a table of literals
and texts: a declaration writes a line at its end, and setting a text for the dialect writes over the text of
the last line. A literal is looked up in its first line, which is written over only until the next one is
begun. -/
namespace FilterSql

theorem Overrides.get?_set (o : Overrides) (d d' : Dialect) (s : String) :
    (o.set d' s).get? d = if d' = d then some s else o.get? d := by
  by_cases h : d' = d
  · subst h
    have hnone : (o.filter (·.1 != d')).find? (·.1 == d') = none := by simp [List.find?_eq_none]
    simp [get?, set, List.find?_append, hnone]
  · have hsame : (o.filter (·.1 != d')).find? (·.1 == d) = o.find? (·.1 == d) := by
      rw [List.find?_filter]
      congr 1
      funext e
      by_cases he : e.1 = d <;> simp [he, Ne.symm h]
    simp [get?, set, List.find?_append, hsame, h]

theorem Variant.encoding_set (v : Variant) (d d' : Dialect) (s : String) :
    ({ v with overrides := v.overrides.set d' s } : Variant).encoding d =
      if d' = d then s else v.encoding d := by
  unfold encoding
  rw [Overrides.get?_set]
  split
  · rfl
  · rfl

namespace EnumType

namespace Step

def declares? : Step → Option (String × String)
  | .variant literal => some (literal, literal)
  | .variantStoredAs literal stored => some (literal, stored)
  | .storedFor .. => none

def Names (s : Step) (literal : String) : Prop := ∃ stored, s.declares? = some (literal, stored)

def sets? (d : Dialect) : Step → Option String
  | .storedFor d' stored => if d' = d then some stored else none
  | _ => none

end Step

def lastSet (d : Dialect) (steps : List Step) : Option String := (steps.filterMap (Step.sets? d)).getLast?

/-- The first step that declares a literal gives it the text `stored`, and `amendments` are the steps from
there to the next declaration. -/
inductive FirstDeclares (literal stored : String) (amendments : List Step) : List Step → Prop where
  | here : step.declares? = some (literal, stored) → (∀ s ∈ amendments, s.declares? = none) →
      (∀ s ∈ after.head?, s.declares? ≠ none) →
      FirstDeclares literal stored amendments (step :: (amendments ++ after))
  | later : ¬ step.Names literal → FirstDeclares literal stored amendments steps →
      FirstDeclares literal stored amendments (step :: steps)

def stored? (e : EnumType) (literal : String) (d : Dialect) : Option String :=
  (e.resolve? literal).map (·.encoding d)

abbrev Table := List (String × String)

namespace Table

def amend (text : String) : Table → Table
  | [] => []
  | [line] => [(line.1, text)]
  | line :: lines => line :: amend text lines

def apply (d : Dialect) (t : Table) : Step → Table
  | .variant literal => t ++ [(literal, literal)]
  | .variantStoredAs literal stored => t ++ [(literal, stored)]
  | .storedFor d' stored => if d' = d then amend stored t else t

theorem amend_append (text : String) (front : Table) (line : String × String) (back : Table) :
    amend text (front ++ line :: back) = front ++ amend text (line :: back) := by
  induction front with
  | nil => rfl
  | cons first front ih =>
    cases front with
    | nil => rfl
    | cons second front =>
      rw [List.cons_append, List.cons_append, amend, ← List.cons_append, ih]
      · rfl
      · simp

theorem apply_front (d : Dialect) (front : Table) (line : String × String) (back : Table) (s : Step) :
    ∃ line' back', apply d (front ++ line :: back) s = front ++ line' :: back' := by
  cases s with
  | variant literal => exact ⟨line, back ++ [(literal, literal)], by simp [apply]⟩
  | variantStoredAs literal stored => exact ⟨line, back ++ [(literal, stored)], by simp [apply]⟩
  | storedFor d' stored =>
    unfold apply
    dsimp only
    split
    · rw [amend_append]
      cases back with
      | nil => exact ⟨_, _, rfl⟩
      | cons second back => exact ⟨_, _, rfl⟩
    · exact ⟨line, back, rfl⟩

theorem run_front (d : Dialect) (front : Table) (line : String × String) (back : Table)
    (steps : List Step) :
    ∃ line' back', steps.foldl (apply d) (front ++ line :: back) = front ++ line' :: back' := by
  induction steps generalizing line back with
  | nil => exact ⟨line, back, rfl⟩
  | cons s steps ih =>
    obtain ⟨line', back', h⟩ := apply_front d front line back s
    rw [List.foldl_cons, h]
    exact ih line' back'

theorem apply_declares {s : Step} (h : s.declares? = some line) (d : Dialect) (t : Table) :
    apply d t s = t ++ [line] := by
  cases s with
  | variant literal =>
    cases h
    rfl
  | variantStoredAs literal stored =>
    cases h
    rfl
  | storedFor d' stored => cases h

theorem run_declared {s : Step} (h : s.declares? ≠ none) (d : Dialect) (t : Table) (steps : List Step) :
    ∃ line back, (s :: steps).foldl (apply d) t = t ++ line :: back := by
  obtain ⟨line, hline⟩ := Option.ne_none_iff_exists'.mp h
  rw [List.foldl_cons, apply_declares hline]
  exact run_front d t line [] steps

theorem apply_idle {s : Step} (h : s.declares? = none) (d : Dialect) : apply d [] s = [] := by
  cases s with
  | variant literal => cases h
  | variantStoredAs literal stored => cases h
  | storedFor d' stored =>
    unfold apply
    dsimp only
    split <;> rfl

theorem apply_amends {s : Step} (h : s.declares? = none) (d : Dialect) (front : Table)
    (literal text : String) :
    apply d (front ++ [(literal, text)]) s = front ++ [(literal, (s.sets? d).getD text)] := by
  cases s with
  | variant literal => cases h
  | variantStoredAs literal stored => cases h
  | storedFor d' stored =>
    unfold apply Step.sets?
    dsimp only
    split
    · rw [amend_append]
      rfl
    · rfl

/-- Of the texts set for a literal one after the other, the last one counts. -/
theorem run_amendments {amendments : List Step} (h : ∀ s ∈ amendments, s.declares? = none) (d : Dialect)
    (front : Table) (literal text : String) :
    amendments.foldl (apply d) (front ++ [(literal, text)]) =
      front ++ [(literal, (lastSet d amendments).getD text)] := by
  induction amendments generalizing text with
  | nil => rfl
  | cons s amendments ih =>
    rw [List.forall_mem_cons] at h
    rw [List.foldl_cons, apply_amends h.1, ih h.2]
    cases hs : s.sets? d with
    | none => simp [lastSet, hs]
    | some stored => simp [lastSet, hs, List.getLast?_cons]

theorem lookup_concat_eq_none {t : Table} {k text literal : String} :
    (t ++ [(k, text)]).lookup literal = none ↔ t.lookup literal = none ∧ literal ≠ k := by
  rw [List.lookup_append, Option.or_eq_none_iff]
  by_cases h : literal = k
  · simp [h]
  · simp [List.lookup_cons, beq_eq_false_iff_ne.mpr h, h]

theorem lookup_apply_eq_none {t : Table} (h : t.lookup literal = none) {s : Step}
    (hs : ¬ s.Names literal) (d : Dialect) : (apply d t s).lookup literal = none := by
  cases hd : s.declares? with
  | some line =>
    rw [apply_declares hd]
    refine lookup_concat_eq_none.mpr ⟨h, ?_⟩
    rintro rfl
    exact hs ⟨_, hd⟩
  | none =>
    rcases List.eq_nil_or_concat t with rfl | ⟨front, ⟨k, text⟩, rfl⟩
    · rw [apply_idle hd]
      rfl
    · rw [List.concat_eq_append] at h ⊢
      rw [apply_amends hd]
      exact lookup_concat_eq_none.mpr (lookup_concat_eq_none.mp h)

theorem lookup_run_eq_none {t : Table} (h : t.lookup literal = none) {steps : List Step}
    (hs : ∀ s ∈ steps, ¬ s.Names literal) (d : Dialect) :
    (steps.foldl (apply d) t).lookup literal = none := by
  induction steps generalizing t with
  | nil => exact h
  | cons s steps ih =>
    rw [List.forall_mem_cons] at hs
    exact ih (lookup_apply_eq_none h hs.1 d) hs.2

/-- The line of a literal is written over up to the next declaration and found unchanged from then on. -/
theorem lookup_run (h : FirstDeclares literal stored amendments steps) {t : Table}
    (ht : t.lookup literal = none) (d : Dialect) :
    (steps.foldl (apply d) t).lookup literal = some ((lastSet d amendments).getD stored) := by
  induction h generalizing t with
  | @here step after hstep hamend hafter =>
    rw [List.foldl_cons, apply_declares hstep, List.foldl_append, run_amendments hamend]
    have hline : ∀ back : Table,
        (t ++ (literal, (lastSet d amendments).getD stored) :: back).lookup literal =
          some ((lastSet d amendments).getD stored) := by
      intro back
      simp [List.lookup_append, ht]
    -- Nothing that follows the amendments reaches back to the line: the next step begins a new one.
    cases after with
    | nil => exact hline []
    | cons next after =>
      obtain ⟨line, back, hrun⟩ := run_declared (hafter next rfl) d
        (t ++ [(literal, (lastSet d amendments).getD stored)]) after
      rw [hrun, List.append_assoc]
      exact hline _
  | later hstep _ ih => exact ih (lookup_apply_eq_none ht hstep d)

end Table

def table (e : EnumType) (d : Dialect) : Table := e.variants.map fun v => (v.literal, v.encoding d)

theorem stored?_eq_lookup (e : EnumType) (literal : String) (d : Dialect) :
    e.stored? literal d = (e.table d).lookup literal := by
  unfold stored? resolve? table
  induction e.variants with
  | nil => rfl
  | cons v variants ih =>
    by_cases h : v.literal = literal
    · simp [h]
    · simp [h, List.lookup_cons, beq_eq_false_iff_ne.mpr (Ne.symm h), ih]

theorem map_editLast (d d' : Dialect) (s : String) (variants : List Variant) :
    (editLast (fun v => { v with overrides := v.overrides.set d' s }) variants).map
        (fun v => (v.literal, v.encoding d)) =
      if d' = d then Table.amend s (variants.map fun v => (v.literal, v.encoding d))
      else variants.map fun v => (v.literal, v.encoding d) := by
  fun_induction editLast with
  | case1 => simp [Table.amend]
  | case2 v =>
    rw [List.map_singleton, List.map_singleton, Variant.encoding_set]
    split
    · rfl
    · rfl
  | case3 v variants hne ih =>
    rw [List.map_cons, ih, List.map_cons]
    split
    · cases variants with
      | nil => exact absurd rfl hne
      | cons w variants => rfl
    · rfl

theorem table_apply (e : EnumType) (s : Step) (d : Dialect) :
    (e.apply s).table d = Table.apply d (e.table d) s := by
  cases s with
  | variant literal => exact List.map_append
  | variantStoredAs literal stored => exact List.map_append
  | storedFor d' stored => exact map_editLast d d' stored e.variants

theorem table_run (e : EnumType) (steps : List Step) (d : Dialect) :
    (steps.foldl apply e).table d = steps.foldl (Table.apply d) (e.table d) := by
  induction steps generalizing e with
  | nil => rfl
  | cons s steps ih => rw [List.foldl_cons, List.foldl_cons, ih, table_apply]

theorem stored?_ofSteps (name : String) (steps : List Step) (literal : String) (d : Dialect) :
    (ofSteps name steps).stored? literal d = (steps.foldl (Table.apply d) []).lookup literal := by
  rw [stored?_eq_lookup, ofSteps, table_run]
  rfl

theorem exists_amendments (steps : List Step) : ∃ amendments after, steps = amendments ++ after ∧
    (∀ s ∈ amendments, s.declares? = none) ∧ ∀ s ∈ after.head?, s.declares? ≠ none := by
  induction steps with
  | nil => exact ⟨[], [], rfl, by simp, by simp⟩
  | cons s steps ih =>
    cases hs : s.declares? with
    | some line => exact ⟨[], s :: steps, rfl, by simp, by simp [hs]⟩
    | none =>
      obtain ⟨amendments, after, rfl, hamend, hafter⟩ := ih
      exact ⟨s :: amendments, after, rfl, by simpa [hs] using hamend, hafter⟩

theorem exists_firstDeclares {steps : List Step} (h : ∃ s ∈ steps, s.Names literal) :
    ∃ stored amendments, FirstDeclares literal stored amendments steps := by
  induction steps with
  | nil =>
    obtain ⟨s, hmem, -⟩ := h
    cases hmem
  | cons s steps ih =>
    by_cases hs : s.Names literal
    · obtain ⟨stored, hs⟩ := hs
      obtain ⟨amendments, after, rfl, hamend, hafter⟩ := exists_amendments steps
      exact ⟨stored, amendments, .here hs hamend hafter⟩
    · obtain ⟨s', hmem, hs'⟩ := h
      rcases List.mem_cons.mp hmem with rfl | hmem
      · exact absurd hs' hs
      · obtain ⟨stored, amendments, h⟩ := ih ⟨s', hmem, hs'⟩
        exact ⟨stored, amendments, .later hs h⟩

theorem stored?_of_firstDeclares (name : String) (h : FirstDeclares literal stored amendments steps)
    (d : Dialect) : (ofSteps name steps).stored? literal d = some ((lastSet d amendments).getD stored) := by
  rw [stored?_ofSteps]
  exact Table.lookup_run h rfl d

theorem stored?_isSome_iff (name : String) (steps : List Step) (literal : String) (d : Dialect) :
    ((ofSteps name steps).stored? literal d).isSome ↔ ∃ s ∈ steps, s.Names literal := by
  constructor
  · intro hsome
    apply Classical.byContradiction
    intro hnames
    have hnone := Table.lookup_run_eq_none (t := []) rfl (fun s hs hn => hnames ⟨s, hs, hn⟩) d
    rw [stored?_ofSteps, hnone] at hsome
    cases hsome
  · intro hnames
    obtain ⟨stored, amendments, h⟩ := exists_firstDeclares hnames
    rw [stored?_of_firstDeclares name h]
    rfl

theorem stored?_eq_some_iff (name : String) (steps : List Step) (literal text : String) (d : Dialect) :
    (ofSteps name steps).stored? literal d = some text ↔
      ∃ stored amendments, FirstDeclares literal stored amendments steps ∧
        (lastSet d amendments).getD stored = text := by
  constructor
  · intro h
    have hnames := (stored?_isSome_iff name steps literal d).mp (by rw [h]; rfl)
    obtain ⟨stored, amendments, hfirst⟩ := exists_firstDeclares hnames
    rw [stored?_of_firstDeclares name hfirst] at h
    exact ⟨stored, amendments, hfirst, Option.some.inj h⟩
  · rintro ⟨stored, amendments, hfirst, rfl⟩
    exact stored?_of_firstDeclares name hfirst d

theorem ofSteps_idle (name : String) {idle : List Step} (h : ∀ s ∈ idle, s.declares? = none)
    (steps : List Step) : ofSteps name (idle ++ steps) = ofSteps name steps := by
  induction idle with
  | nil => rfl
  | cons s idle ih =>
    rw [List.forall_mem_cons] at h
    cases s with
    | variant literal => cases h.1
    | variantStoredAs literal stored => cases h.1
    | storedFor d stored => exact ih h.2

theorem stored?_other_dialect (name : String) (front back : List Step) {d d' : Dialect} (h : d' ≠ d)
    (text literal : String) :
    (ofSteps name (front ++ .storedFor d' text :: back)).stored? literal d =
      (ofSteps name (front ++ back)).stored? literal d := by
  rw [stored?_ofSteps, stored?_ofSteps, List.foldl_append, List.foldl_append, List.foldl_cons,
    Table.apply, if_neg h]

theorem stored?_later (name : String) {steps : List Step} (h : ∃ s ∈ steps, s.Names literal) {step : Step}
    (hstep : step.declares? ≠ none) (later : List Step) (d : Dialect) :
    (ofSteps name (steps ++ step :: later)).stored? literal d = (ofSteps name steps).stored? literal d := by
  obtain ⟨text, htext⟩ := Option.isSome_iff_exists.mp ((stored?_isSome_iff name steps literal d).mpr h)
  obtain ⟨line, back, hrun⟩ := Table.run_declared hstep d (steps.foldl (Table.apply d) []) later
  rw [htext]
  rw [stored?_ofSteps] at htext ⊢
  rw [List.foldl_append, hrun, List.lookup_append, htext]
  rfl

/-- A literal is known just if some step declares it. It is stored in a dialect as the last text set for the
dialect between its first declaration and the next one, and as that declaration says where none was set.
Texts set before any declaration have no effect, and neither those for another dialect nor anything from the
next declaration on changes how it is stored. -/
theorem stored_follows_steps (name : String) (steps : List Step) (literal : String) (d : Dialect) :
    (((ofSteps name steps).resolve? literal).isSome ↔ ∃ s ∈ steps, s.Names literal) ∧
    (∀ text, (∃ v, (ofSteps name steps).resolve? literal = some v ∧ v.encoding d = text) ↔
      ∃ stored amendments, FirstDeclares literal stored amendments steps ∧
        (lastSet d amendments).getD stored = text) ∧
    (∀ idle : List Step, (∀ s ∈ idle, s.declares? = none) →
      ofSteps name (idle ++ steps) = ofSteps name steps) ∧
    (∀ (front back : List Step) (d' : Dialect) (text : String), d' ≠ d → steps = front ++ back →
      (ofSteps name (front ++ .storedFor d' text :: back)).stored? literal d =
        (ofSteps name steps).stored? literal d) ∧
    (∀ (step : Step) (later : List Step), (∃ s ∈ steps, s.Names literal) → step.declares? ≠ none →
      (ofSteps name (steps ++ step :: later)).stored? literal d =
        (ofSteps name steps).stored? literal d) := by
  refine ⟨?_, ?_, ?_, ?_, ?_⟩
  · rw [← stored?_isSome_iff name steps literal d, stored?, Option.isSome_map]
  · intro text
    rw [← stored?_eq_some_iff name, stored?, Option.map_eq_some_iff]
  · intro idle hidle
    exact ofSteps_idle name hidle steps
  · rintro front back d' text hne rfl
    exact stored?_other_dialect name front back hne text literal
  · intro step later hnames hstep
    exact stored?_later name hnames hstep later d

/-- A text set too early, one set twice, one for another dialect, and a second declaration that comes too
late. -/
def reopened : List Step :=
  [.storedFor .postgres "early", .variantStoredAs "open" "OPEN", .storedFor .postgres "ajar",
    .storedFor .mysql "wide", .storedFor .postgres "opened", .variant "open",
    .storedFor .postgres "late"]

theorem stored_follows_steps_reopened :
    (∃ v, (ofSteps "state" reopened).resolve? "open" = some v ∧ v.encoding .postgres = "opened") ∧
      ∃ v, (ofSteps "state" reopened).resolve? "open" = some v ∧ v.encoding .sqlite = "OPEN" := by
  have hfirst : FirstDeclares "open" "OPEN"
      [.storedFor .postgres "ajar", .storedFor .mysql "wide", .storedFor .postgres "opened"] reopened := by
    refine .later ?_ (.here rfl (by decide) (by decide))
    rintro ⟨stored, h⟩
    cases h
  exact ⟨((stored_follows_steps "state" reopened "open" .postgres).2.1 "opened").mpr
      ⟨_, _, hfirst, rfl⟩,
    ((stored_follows_steps "state" reopened "open" .sqlite).2.1 "OPEN").mpr ⟨_, _, hfirst, rfl⟩⟩

end EnumType

end FilterSql
