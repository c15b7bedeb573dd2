import FilterSql.Proofs.CatalogChecked
import FilterSql.Proofs.Rendering
import FilterSql.Proofs.SqlCondition

/-! How rendered predicates nest. Each template of a dialect has a layout, which is the nesting of its
text; a leaf is read as a leaf, whatever parentheses and whatever `NOT` its own text holds. -/
namespace FilterSql

namespace Sql.Nested

def signs (s : String) : Nested := s.toList.foldr (fun c t => part (.sign c) t) done

def words : List String → Nested
  | [] => done
  | w :: ws => part (.sign ' ') (part (.word w) (words ws))

def enclosed (t : Nested) : Nested := group t done

def call (function : String) (arguments : Nested) : Nested := part (.word function) (group arguments done)

def castTo (t : Nested) (type : List String) : Nested := call "CAST" (t ++ words ("AS" :: type))

end Sql.Nested

open Sql Nested

namespace Dialect

def quoteMark : Dialect → Char
  | mysql => '\x60'
  | postgres => '"'
  | sqlite => '"'

def columnLayout (d : Dialect) (table column : String) : Nested :=
  .part (.quoted d.quoteMark table) (.part (.sign '.') (.part (.quoted d.quoteMark column) .done))

def pathBody : Dialect → List String → String
  | postgres, path => "\x7b" ++ ",".intercalate path ++ "\x7d"
  | mysql, path => "$." ++ ".".intercalate path
  | sqlite, path => "$." ++ ".".intercalate path

def pathLayout (d : Dialect) (path : List String) : Nested := .part (.quoted '\x27' (d.pathBody path)) .done

def mark : Dialect → Nat → Part
  | postgres, index => .word ("$" ++ toString (index + 1))
  | mysql, _ => .sign '?'
  | sqlite, _ => .sign '?'

def scalarLayout (d : Dialect) (column : Nested) (path : List String) (type : FieldType) : Nested :=
  match d with
  | postgres =>
    let text := enclosed (column ++ signs " #>> " ++ d.pathLayout path)
    match type with
    | .boolean => enclosed (castTo text ["BOOLEAN"] ++ words ["IS", "TRUE"])
    | .number .int32 => castTo text ["INTEGER"]
    | .number .int64 => castTo text ["BIGINT"]
    | .timestamp => castTo text ["BIGINT"]
    | .number .float64 => castTo text ["DOUBLE", "PRECISION"]
    | .text => text
    | .enum _ => text
  | mysql =>
    let value := call "JSON_EXTRACT" (column ++ signs ", " ++ d.pathLayout path)
    match type with
    | .boolean => enclosed (value ++ words ["IS", "TRUE"])
    | .text => call "JSON_UNQUOTE" value
    | .enum _ => call "JSON_UNQUOTE" value
    | .number _ => value
    | .timestamp => value
  | sqlite =>
    let value := call "json_extract" (column ++ signs ", " ++ d.pathLayout path)
    match type with
    | .boolean => enclosed (value ++ words ["IS", "TRUE"])
    | _ => value

def collated : Dialect → Nested → Nested
  | mysql, value => value ++ words ["COLLATE", "utf8mb4_bin"]
  | postgres, value => value
  | sqlite, value => value

def containsLayout (d : Dialect) (column : Nested) (path : List String) (mark : Part) : Nested :=
  match d with
  | postgres =>
    call "COALESCE" (enclosed (column ++ signs " #> " ++ d.pathLayout path) ++ (signs " @> " ++
      call "jsonb_build_array" (castTo (.part mark .done) ["TEXT"])) ++ .part (.sign ',') (words ["FALSE"]))
  | mysql =>
    call "COALESCE" (call "JSON_CONTAINS" (column ++ (signs ", " ++ call "JSON_QUOTE" (.part mark .done)) ++
      signs ", " ++ d.pathLayout path) ++ .part (.sign ',') (words ["0"]))
  | sqlite =>
    .part (.word "EXISTS") (.part (.sign ' ') (enclosed (.part (.word "SELECT") (words ["1", "FROM"] ++
      .part (.sign ' ') (call "json_each" (column ++ signs ", " ++ d.pathLayout path)) ++
      words ["WHERE", "json_each"] ++ .part (.sign '.') (.part (.word "value") (signs " = " ++
        .part mark .done))))))

def likeLayout (mark : Part) : Nested :=
  words ["LIKE"] ++ .part (.sign ' ') (.part mark (words ["ESCAPE"] ++
    .part (.sign ' ') (.part (.quoted '\x27' likeEscape.toString) .done)))

def matchesLayout (d : Dialect) (value : Nested) (mark : Part) : Nested :=
  match d with
  | postgres => value ++ likeLayout mark
  | mysql => d.collated value ++ likeLayout mark
  | sqlite => value ++ (words ["GLOB"] ++ .part (.sign ' ') (.part mark .done))

end Dialect

def Field.columnLayout (f : Field) (d : Dialect) : Nested := d.columnLayout f.table f.source.columnName

def Field.valueLayout (f : Field) (d : Dialect) : Nested :=
  match f.source with
  | .jsonScalar _ path => d.scalarLayout (f.columnLayout d) path f.type
  | _ => f.columnLayout d

namespace Sql

def compareLayout (d : Dialect) (f : Field) (operator : Comparison) (operand : Operand) (mark : Part) :
    Nested :=
  match f.source with
  | .jsonArray _ path =>
    let contains := d.containsLayout (f.columnLayout d) path mark
    if operator = .notEqual then .part (.word "NOT") (.part (.sign ' ') contains) else contains
  | .statusFlag .. =>
    let holds := (operator == .equal) == (operand == .boolean true)
    f.columnLayout d ++ (signs (if holds then " = " else " <> ") ++ .part mark .done)
  | _ =>
    let lhs := if f.type = .text then d.collated (f.valueLayout d) else f.valueLayout d
    lhs ++ (signs operator.sql ++ .part mark .done)

def searchLayout (d : Dialect) (f : Field) (mark : Part) : Nested := d.matchesLayout (f.valueLayout d) mark

end Sql

namespace Predicate

def layout (d : Dialect) (index : Nat) : Predicate Operand → Nested
  | and left right =>
    enclosed (left.layout d index ++ joint "AND" ++ right.layout d (index + left.fields.length))
  | or left right =>
    enclosed (left.layout d index ++ joint "OR" ++ right.layout d (index + left.fields.length))
  | not operand => .part (.word "NOT") (.part (.sign ' ') (operand.layout d index))
  | compare field operator operand _ => enclosed (compareLayout d field operator operand (d.mark index))
  | search field _ _ _ => enclosed (searchLayout d field (d.mark index))

end Predicate

/-! The text of a layout is what is rendered. -/

namespace Sql.Nested

@[simp] theorem text_done : done.text = [] := rfl

@[simp] theorem text_part (p : Part) (t : Nested) : (part p t).text = p.text ++ t.text := rfl

@[simp] theorem text_append (s t : Nested) : (s ++ t).text = s.text ++ t.text := by
  simp [text]

@[simp] theorem text_group (inside next : Nested) :
    (group inside next).text = '(' :: (inside.text ++ ')' :: next.text) := by
  simp [text, items, Item.text]

@[simp] theorem text_signs (s : String) : (signs s).text = s.toList := by
  unfold signs
  induction s.toList with
  | nil => rfl
  | cons c cs ih => rw [List.foldr_cons, text_part, ih, Part.text_sign, List.singleton_append]

end Sql.Nested

namespace Dialect

theorem text_mark (d : Dialect) (index : Nat) : (d.mark index).text = (d.placeholder index).toList := by
  cases d <;> simp [mark, placeholder]

theorem text_columnLayout (d : Dialect) (table column : String) :
    (d.columnLayout table column).text = (d.quoteColumn table column).toList := by
  cases d <;> simp [columnLayout, quoteColumn, quote, quoteMark]

theorem text_pathLayout (d : Dialect) (path : List String) :
    (d.pathLayout path).text = (d.jsonPath path).toList := by
  cases d <;> simp [pathLayout, jsonPath, pathBody]

theorem text_scalarLayout {d : Dialect} {column : Nested} {sql : String} (h : column.text = sql.toList)
    (path : List String) (type : FieldType) :
    (d.scalarLayout column path type).text = (d.jsonScalar sql path type).toList := by
  have hpath := d.text_pathLayout path
  unfold scalarLayout jsonScalar
  cases d with
  | mysql =>
    cases type <;> simp [enclosed, call, words, h, hpath]
  | sqlite =>
    cases type <;> simp [enclosed, call, words, h, hpath]
  | postgres =>
    cases type with
    | number width =>
      cases width <;> simp [enclosed, castTo, call, words, h, hpath]
    | _ => simp [enclosed, castTo, call, words, h, hpath]

theorem text_collated {d : Dialect} {value : Nested} {sql : String} (h : value.text = sql.toList) :
    (d.collated value).text = (d.caseSensitive sql).toList := by
  cases d <;> simp [collated, caseSensitive, words, h]

theorem text_containsLayout {d : Dialect} {column : Nested} {sql : String} (h : column.text = sql.toList)
    (path : List String) (index : Nat) :
    (d.containsLayout column path (d.mark index)).text =
      ((d.arrayContains sql path).fill (d.placeholder index)).toList := by
  have hpath := d.text_pathLayout path
  have hmark := d.text_mark index
  unfold containsLayout arrayContains
  cases d <;> simp [Template.fill, enclosed, castTo, call, words, h, hpath, hmark]

theorem text_matchesLayout {d : Dialect} {value : Nested} {sql : String} (h : value.text = sql.toList)
    (index : Nat) :
    (d.matchesLayout value (d.mark index)).text =
      ((d.textMatches sql).fill (d.placeholder index)).toList := by
  have hmark := d.text_mark index
  have hcollated := text_collated (d := d) h
  unfold matchesLayout textMatches
  cases d <;> simp [likeLayout, Template.fill, words, h, hmark, hcollated]

end Dialect

namespace Sql

theorem text_columnLayout (f : Field) (d : Dialect) :
    (f.columnLayout d).text = (d.quoteColumn f.table f.source.columnName).toList :=
  d.text_columnLayout f.table f.source.columnName

theorem text_valueLayout {f : Field} (h : f.overrides = []) (d : Dialect) :
    (f.valueLayout d).text = (f.valueSql d).toList := by
  have hnone : f.overrides.get? d = none := by
    rw [h]
    rfl
  rw [Field.valueLayout, Field.valueSql, hnone]
  split <;> simp [*, text_columnLayout, Dialect.text_scalarLayout (text_columnLayout f d)]

theorem text_compareLayout {f : Field} (h : f.overrides = []) (d : Dialect) (operator : Comparison)
    (operand : Operand) (index : Nat) :
    (compareLayout d f operator operand (d.mark index)).text =
      ((compareLeaf d f operator operand).sql.fill (d.placeholder index)).toList := by
  have hcolumn := text_columnLayout f d
  have hvalue := text_valueLayout h d
  have hmark := d.text_mark index
  unfold compareLayout compareLeaf
  cases hsource : f.source with
  | jsonArray column path =>
    have hcontains := Dialect.text_containsLayout (d := d) hcolumn path index
    simp only [Template.fill, String.toList_append, hsource] at hcontains ⊢
    split <;> simp [hcontains]
  | statusFlag column value => simp [Template.fill, hcolumn, hmark, hsource]
  | column column =>
    have hcollated := Dialect.text_collated (d := d) hvalue
    simp only [Template.fill, String.toList_append]
    split <;> simp [hvalue, hcollated, hmark]
  | jsonScalar column path =>
    have hcollated := Dialect.text_collated (d := d) hvalue
    simp only [Template.fill, String.toList_append]
    split <;> simp [hvalue, hcollated, hmark]

theorem text_searchLayout {f : Field} (h : f.overrides = []) (d : Dialect) (function : StringFunction)
    (operand : Operand) (index : Nat) :
    (searchLayout d f (d.mark index)).text =
      ((searchLeaf d f function operand).sql.fill (d.placeholder index)).toList :=
  Dialect.text_matchesLayout (text_valueLayout h d) index

theorem textFrom_append (d : Dialect) (index : Nat) (ps qs : List Piece) :
    textFrom d index (ps ++ qs) = textFrom d index ps ++ textFrom d (index + (values ps).length) qs := by
  induction ps generalizing index with
  | nil => simp [textFrom, values]
  | cons piece ps ih =>
    cases piece with
    | text sql => simp [textFrom, values, ih, String.append_assoc]
    | parameter value =>
      rw [List.cons_append, textFrom, textFrom, ih, values, List.length_cons, String.append_assoc]
      congr 3
      omega

theorem textFrom_leaf (d : Dialect) (index : Nat) (leaf : Leaf) :
    textFrom d index leaf.pieces = "(" ++ leaf.sql.fill (d.placeholder index) ++ ")" := by
  simp [Leaf.pieces, textFrom, Template.fill, String.append_assoc]

end Sql

namespace Predicate

/-- A predicate without overrides is rendered as its layout is written. -/
theorem text_layout {p : Predicate Operand} (h : ∀ f ∈ p.fields, f.overrides = []) (d : Dialect)
    (index : Nat) : (p.layout d index).text = (textFrom d index (p.pieces d)).toList := by
  induction p generalizing index with
  | and left right ihl ihr | or left right ihl ihr =>
    have hl := ihl (fun f hf => h f (List.mem_append_left _ hf)) index
    have hr := ihr (fun f hf => h f (List.mem_append_right _ hf)) (index + left.fields.length)
    simp [layout, pieces, enclosed, joint, textFrom_append, textFrom, values_pieces_length, hl, hr]
  | not operand ih =>
    simp [layout, pieces, textFrom, ih h]
  | compare f operator operand span =>
    have hleaf := text_compareLayout (h f (by simp [fields])) d operator operand index
    simp [layout, pieces, enclosed, textFrom_leaf, hleaf]
  | search f function operand span =>
    have hleaf := text_searchLayout (h f (by simp [fields])) d function operand index
    simp [layout, pieces, enclosed, textFrom_leaf, hleaf]

end Predicate

end FilterSql
