import FilterSql.Proofs.CatalogBuilt
import FilterSql.Proofs.NeatLayout
import FilterSql.Proofs.OverrideSql

/-! What the databases take a written path for. The path is the first quoted text of a test that shows it. SQLite
gets the path of the catalog back, always. MySQL refuses a path with a segment that begins with a digit, and
PostgreSQL takes a segment that spells null for a null element, so there the path is only read as it was meant if no
segment is of that kind. -/
namespace FilterSql

open Sql Nested Text

namespace Sql

def Item.literal? : Item → Option String
  | .part (.quoted q body) => if q = '\x27' then some body else none
  | _ => none

def literals (sql : String) : List String := (items sql.toList).filterMap Item.literal?

namespace Nested

def literals (t : Nested) : List String := t.items.filterMap Item.literal?

@[simp] theorem literals_done : done.literals = [] := rfl

@[simp] theorem literals_word (w : String) (t : Nested) : (part (.word w) t).literals = t.literals := rfl

@[simp] theorem literals_sign (c : Char) (t : Nested) : (part (.sign c) t).literals = t.literals := rfl

@[simp] theorem literals_quoted (q : Char) (body : String) (t : Nested) :
    (part (.quoted q body) t).literals = if q = '\x27' then body :: t.literals else t.literals := by
  by_cases hq : q = '\x27'
  · simp [literals, items, Item.literal?, hq]
  · simp [literals, items, Item.literal?, hq]

@[simp] theorem literals_append (s t : Nested) : (s ++ t).literals = s.literals ++ t.literals := by
  simp [literals]

@[simp] theorem literals_group (inside next : Nested) :
    (group inside next).literals = inside.literals ++ next.literals := by
  simp only [literals, items, List.filterMap_cons, List.filterMap_append, Item.literal?]

@[simp] theorem literals_signs (s : String) : (signs s).literals = [] := by
  unfold signs
  induction s.toList with
  | nil => rfl
  | cons c cs ih => exact ih

@[simp] theorem literals_words (ws : List String) : (words ws).literals = [] := by
  induction ws with
  | nil => rfl
  | cons w ws ih => exact ih

@[simp] theorem literals_mark (d : Dialect) (index : Nat) (t : Nested) :
    (part (d.mark index) t).literals = t.literals := by
  cases d <;> rfl

theorem Neat.literals_text {t : Nested} (h : t.Neat) : Sql.literals (String.ofList t.text) = t.literals := by
  have hfresh : Fresh [] := by simp [Fresh]
  have hitems := items_textOf h.written hfresh
  rw [List.append_nil, show Sql.items [] = [] from rfl, List.append_nil] at hitems
  rw [Sql.literals, String.toList_ofList, Nested.text, hitems]
  rfl

end Nested

end Sql

namespace Dialect

@[simp] theorem literals_columnLayout (d : Dialect) (table column : String) :
    (d.columnLayout table column).literals = [] := by
  cases d <;> rfl

@[simp] theorem literals_pathLayout (d : Dialect) (path : List String) :
    (d.pathLayout path).literals = [d.pathBody path] := rfl

@[simp] theorem literals_scalarLayout (d : Dialect) {column : Nested} (h : column.literals = [])
    (path : List String) (type : FieldType) :
    (d.scalarLayout column path type).literals = [d.pathBody path] := by
  unfold scalarLayout
  cases d with
  | mysql => cases type <;> simp [enclosed, call, h]
  | sqlite => cases type <;> simp [enclosed, call, h]
  | postgres =>
    cases type with
    | number width => cases width <;> simp [enclosed, castTo, call, h]
    | _ => simp [enclosed, castTo, call, h]

@[simp] theorem literals_collated (d : Dialect) (value : Nested) : (d.collated value).literals = value.literals := by
  cases d <;> simp [collated]

theorem literals_containsLayout (d : Dialect) {column : Nested} (h : column.literals = []) (path : List String)
    (index : Nat) : (d.containsLayout column path (d.mark index)).literals = [d.pathBody path] := by
  unfold containsLayout
  cases d <;> simp [enclosed, castTo, call, h]

theorem literals_matchesLayout (d : Dialect) (value : Nested) (index : Nat) :
    ∃ escape, (d.matchesLayout value (d.mark index)).literals = value.literals ++ escape := by
  unfold matchesLayout
  cases d with
  | sqlite => exact ⟨[], by simp⟩
  | mysql => exact ⟨_, by rw [literals_append, literals_collated]⟩
  | postgres => exact ⟨_, literals_append ..⟩

end Dialect

namespace Sql.FieldTest

/-- Whether a test of a field in JSON is written with the path: a comparison with an array always is, and a scalar
is asked for by its path unless an override stands for it. -/
def ShowsPath (d : Dialect) (f : Field) : FieldTest → Prop
  | compare _ _ => f.source.isArray = true ∨ f.overrides.get? d = none
  | search _ _ => f.source.isArray = false ∧ f.overrides.get? d = none

variable {t : FieldTest} {d : Dialect} {f : Field} {path : List String}

theorem ShowsPath.leaf_plain (h : t.ShowsPath d f) : t.leaf d f.plain = t.leaf d f := by
  cases t with
  | search => exact FieldTest.leaf_plain h.2
  | compare operator operand =>
    rcases h with harray | hnone
    · refine leaf_plain_of_not_asksValue ?_
      rintro (⟨column, hsource⟩ | ⟨column, path, hsource⟩) <;> simp [hsource, Field.Source.isArray] at harray
    · exact FieldTest.leaf_plain hnone

theorem ShowsPath.literals_layout (h : t.ShowsPath d f) (hpath : f.source.path? = some path) (span : Span)
    (index : Nat) : ((t.on f span).layout d index).literals.head? = some (d.pathBody path) := by
  have hcolumn : (f.columnLayout d).literals = [] := d.literals_columnLayout _ _
  cases hsource : f.source with
  | column => simp [hsource, Field.Source.path?] at hpath
  | statusFlag => simp [hsource, Field.Source.path?] at hpath
  | jsonScalar column steps =>
    obtain rfl : steps = path := by simpa [hsource, Field.Source.path?] using hpath
    have hvalue : (f.valueLayout d).literals = [d.pathBody steps] := by
      simp [Field.valueLayout, hsource, hcolumn]
    cases t with
    | compare operator operand =>
      simp only [on, Predicate.layout, compareLayout, hsource, enclosed]
      split <;> simp [hvalue]
    | search function operand =>
      obtain ⟨escape, hescape⟩ := d.literals_matchesLayout (f.valueLayout d) index
      simp [on, Predicate.layout, searchLayout, enclosed, hescape, hvalue]
  | jsonArray column steps =>
    obtain rfl : steps = path := by simpa [hsource, Field.Source.path?] using hpath
    cases t with
    | compare operator operand =>
      have hcontains := d.literals_containsLayout hcolumn steps index
      simp only [on, Predicate.layout, compareLayout, hsource, enclosed]
      split <;> simp [hcontains]
    | search => simp [ShowsPath, hsource, Field.Source.isArray] at h

theorem ShowsPath.render (h : t.ShowsPath d f) (hpath : f.source.path? = some path) (hf : f.Quotable) (span : Span)
    {offset : Nat} (hoffset : offset < maxPlaceholder) :
    ∃ fragment parameters, (t.on f span).render d offset = some (fragment, parameters) ∧
      (literals fragment).head? = some (d.pathBody path) := by
  have hplain : f.plain.Quotable := ⟨hf.table, hf.column, hf.path⟩
  have hfields : (t.on f.plain span).fields = [f.plain] := by cases t <;> rfl
  have hpieces : (t.on f.plain span).pieces d = (t.leaf d f.plain).pieces := by cases t <;> rfl
  have hshows : t.ShowsPath d f.plain := by
    cases t with
    | compare => exact .inr rfl
    | search => exact ⟨h.1, rfl⟩
  have hneat : ((t.on f.plain span).layout d offset).Neat := by
    refine Predicate.neat_layout ?_ d offset
    simpa [hfields] using hplain
  have hbare : ∀ g ∈ (t.on f.plain span).fields, g.overrides = [] := by
    rw [hfields]
    exact List.forall_mem_singleton.mpr rfl
  have htext := Predicate.text_layout hbare d offset
  rw [hpieces, textFrom_leaf, h.leaf_plain] at htext
  refine ⟨_, _, render_on span hoffset, ?_⟩
  have hsql : "(" ++ (t.leaf d f).sql.before ++ d.placeholder offset ++ (t.leaf d f).sql.after ++ ")" =
      String.ofList ((t.on f.plain span).layout d offset).text := by
    rw [htext, String.ofList_toList]
    simp only [Template.fill, String.append_assoc]
  rw [hsql, hneat.literals_text]
  exact hshows.literals_layout hpath span offset

end Sql.FieldTest

namespace Sql

/-- Wherever a test of a field in JSON shows the path, the database that the SQL is for reads the path of the
catalog exactly if it keeps each segment: SQLite keeps them all, MySQL those that do not begin with a digit and
PostgreSQL those that do not spell null. A path that MySQL does not keep it refuses, and PostgreSQL reads a null
in place of each segment that it does not keep. -/
theorem json_path_read_iff {entity : Entity} {table : String} {version : Nat} {fields : List Field}
    {catalog : Catalog} (hbuild : Catalog.build entity table version fields = .ok catalog) {f : Field}
    (hf : f ∈ catalog.fields) {path : List String} (hpath : f.source.path? = some path) {d : Dialect}
    {t : FieldTest} (hshows : t.ShowsPath d f) (span : Span) {offset : Nat} (hoffset : offset < maxPlaceholder) :
    ∃ fragment parameters text, (t.on f span).render d offset = some (fragment, parameters) ∧
      (literals fragment).head? = some text ∧
      (d.readPath? text = some (path.map some) ↔ ∀ s ∈ path, d.Keeps s) ∧
      (d = .mysql → (∃ s ∈ path, ¬d.Keeps s) → d.readPath? text = none) ∧
      (d = .postgres → d.readPath? text = some (path.map fun s => if SpellsNull s then none else some s)) := by
  obtain ⟨fragment, parameters, hrender, htext⟩ :=
    hshows.render hpath (Field.quotable_of_build hbuild hf) span hoffset
  obtain ⟨-, hvalid⟩ := (Catalog.valid_of_build hbuild).2 f hf
  obtain ⟨hne, hsegments⟩ := (Field.allowed_iff_valid.mpr hvalid).path path hpath
  refine ⟨fragment, parameters, d.pathBody path, hrender, htext, ?_, ?_, ?_⟩
  · exact Dialect.readPath?_pathBody_iff hne hsegments d
  · rintro rfl ⟨s, hs, hlost⟩
    exact (Dialect.readPath?_pathBody_eq_none_iff hne hsegments .mysql).mpr ⟨rfl, fun hall => hlost (hall s hs)⟩
  · rintro rfl
    exact Dialect.readPath?_postgres hne hsegments

def cause : Field := { Field.ofJson "cause" .text "payload" ["error", "null"] with table := "notes" }

theorem json_path_read_iff_cause :
    ∃ fragment parameters text,
      ((FieldTest.search .contains (.text "x")).on cause ⟨0, 1, 1, 1⟩).render .sqlite 0 =
        some (fragment, parameters) ∧
      (literals fragment).head? = some text ∧
      Dialect.sqlite.readPath? text = some [some "error", some "null"] := by
  have hbuild : Catalog.build .note "notes" 1 [cause] = .ok (.of .note "notes" 1 [cause]) := by rfl
  have hpath : cause.source.path? = some ["error", "null"] := rfl
  have hshows : (FieldTest.search .contains (.text "x")).ShowsPath .sqlite cause := ⟨rfl, rfl⟩
  have hoffset : 0 < maxPlaceholder := by decide
  obtain ⟨fragment, parameters, text, hrender, htext, hread, -⟩ :=
    json_path_read_iff hbuild (List.mem_singleton_self cause) hpath hshows ⟨0, 1, 1, 1⟩ hoffset
  exact ⟨fragment, parameters, text, hrender, htext, hread.mpr fun _ _ => trivial⟩

def winner : Field := { Field.ofJson "winner" .text "payload" ["1st"] with table := "notes" }

/-- A catalog takes both fields, and filters on them are bound and rendered. PostgreSQL gets the second step of the
one path as a null, and MySQL refuses the other path. -/
theorem json_path_misread :
    Catalog.build .note "notes" 1 [cause, winner] = .ok (.of .note "notes" 1 [cause, winner]) ∧
    Expr.ofText {} "cause == \"x\"" = .ok (.compare .equal (.field ⟨["cause"]⟩ ⟨0, 5, 1, 1⟩)
      (.literal (.text "x") ⟨9, 12, 1, 10⟩) ⟨0, 12, 1, 1⟩) ∧
    (Predicate.bind (.of .note "notes" 1 [cause, winner]) (.compare .equal (.field ⟨["cause"]⟩ ⟨0, 5, 1, 1⟩)
        (.literal (.text "x") ⟨9, 12, 1, 10⟩) ⟨0, 12, 1, 1⟩) >>= Predicate.check) =
      .ok ((FieldTest.compare .equal (.text "x")).on cause ⟨9, 12, 1, 10⟩) ∧
    ((FieldTest.compare .equal (.text "x")).on cause ⟨9, 12, 1, 10⟩).render .postgres 0 =
      some ("((\"notes\".\"payload\" #>> '\x7berror,null\x7d') = $1)", [.text "x"]) ∧
    literals "((\"notes\".\"payload\" #>> '\x7berror,null\x7d') = $1)" = ["\x7berror,null\x7d"] ∧
    Dialect.postgres.readPath? "\x7berror,null\x7d" = some [some "error", none] ∧
    ((FieldTest.compare .equal (.text "x")).on winner ⟨10, 13, 1, 11⟩).render .mysql 0 =
      some ("(JSON_UNQUOTE(JSON_EXTRACT(`notes`.`payload`, '$.1st')) COLLATE utf8mb4_bin = ?)", [.text "x"]) ∧
    literals "(JSON_UNQUOTE(JSON_EXTRACT(`notes`.`payload`, '$.1st')) COLLATE utf8mb4_bin = ?)" = ["$.1st"] ∧
    Dialect.mysql.readPath? "$.1st" = none :=
  ⟨by rfl, by with_unfolding_all rfl, by rfl, by decide +kernel, by decide +kernel, by decide +kernel, by decide,
    by decide +kernel, by decide⟩

end Sql

end FilterSql
