import FilterSql.Catalog.Field
import FilterSql.Entity
import FilterSql.Text.Chars

/-! Catalogs of fields. A catalog is checked when it is built and is the only place that names in SQL
text come from. -/
namespace FilterSql

inductive CatalogError where
  | duplicateField (entity : Entity) (name : String)
  | invalidFieldName (name : String)
  | invalidIdentifier (given : String)
  | invalidJsonPath (field segment : String)
  | functionNotApplicable (field : String) (function : StringFunction) (type : FieldType)
  | empty (entity : Entity)
deriving DecidableEq

def CatalogError.message : CatalogError → String
  | duplicateField entity name => "duplicate field '" ++ name ++ "' in " ++ entity.name ++ " catalog"
  | invalidFieldName name => "'" ++ name ++ "' is not a valid field name"
  | invalidIdentifier given => "'" ++ given ++ "' is not a valid SQL identifier"
  | invalidJsonPath field segment =>
    "field '" ++ field ++ "' has an invalid JSON path segment '" ++ segment ++ "'"
  | functionNotApplicable field function type =>
    "function '" ++ function.name ++ "' cannot be attached to " ++ type.shown ++ " field '" ++ field ++ "'"
  | empty entity => entity.name ++ " catalog has no fields"

def isPathSegment (s : String) : Bool := s ≠ "" && s.toList.all Text.isNamePart

def checkIdentifier (s : String) : Except CatalogError Unit :=
  if Text.isIdentifier s.toList then .ok () else .error (.invalidIdentifier s)

namespace Field

def checkName (f : Field) : Except CatalogError Unit :=
  if Text.isDottedName f.name.toList then .ok () else .error (.invalidFieldName f.name)

/-- A path has at least one segment, and the first bad one is reported. -/
def checkPath (f : Field) : Except CatalogError Unit :=
  match f.source.path? with
  | none => .ok ()
  | some [] => .error (.invalidJsonPath f.name "")
  | some path =>
    match path.find? fun s => !isPathSegment s with
    | some s => .error (.invalidJsonPath f.name s)
    | none => .ok ()

/-- Only texts that are no array can be searched. -/
def checkFunctions (f : Field) : Except CatalogError Unit :=
  match f.functions with
  | [] => .ok ()
  | g :: _ =>
    if f.type = .text ∧ f.source.isArray = false then .ok ()
    else .error (.functionNotApplicable f.name g f.type)

def check (f : Field) : Except CatalogError Unit := do
  f.checkName
  checkIdentifier f.source.columnName
  f.checkPath
  f.checkFunctions

end Field

/-- Fields in the order of their declaration, and an index of their names that grows with them. -/
structure Roster where
  fields : List Field
  index : List (String × Nat)
  indexed : index = fields.zipIdx.map fun (f, i) => (f.name, i)
deriving DecidableEq

namespace Roster

def of (fields : List Field) : Roster := ⟨fields, _, rfl⟩

instance : Inhabited Roster := ⟨of []⟩

def add (r : Roster) (f : Field) : Roster where
  fields := r.fields ++ [f]
  index := r.index ++ [(f.name, r.fields.length)]
  indexed := by simp [r.indexed, List.zipIdx_append]

def lookup (r : Roster) (name : String) : Option Field := (r.index.lookup name).bind (r.fields[·]?)

theorem ext {r s : Roster} (h : r.fields = s.fields) : r = s := by
  obtain ⟨fields, index, rfl⟩ := r
  obtain ⟨_, _, rfl⟩ := s
  cases h
  rfl

theorem lookup_index (r : Roster) (name : String) :
    r.index.lookup name = r.fields.findIdx? (·.name == name) := by
  have hfrom : ∀ (fields : List Field) (n : Nat),
      ((fields.zipIdx n).map fun (f, i) => (f.name, i)).lookup name =
        (fields.findIdx? (·.name == name)).map (· + n) := by
    intro fields
    induction fields with
    | nil => exact fun _ => rfl
    | cons f fields ih =>
      intro n
      rw [List.zipIdx_cons, List.map_cons, List.lookup_cons, ih, List.findIdx?_cons]
      by_cases h : f.name = name
      · simp [h]
      · have h' : (name == f.name) = false := beq_eq_false_iff_ne.mpr (Ne.symm h)
        simp [h, h', Function.comp_def, Nat.add_assoc, Nat.add_comm 1 n]
  rw [r.indexed, hfrom]
  simp

/-- Looking a name up in the index is searching the fields for it. -/
theorem lookup_eq_find? (r : Roster) (name : String) : r.lookup name = r.fields.find? (·.name == name) := by
  rw [lookup, lookup_index, List.find?_eq_bind_findIdx?_getElem?]

theorem lookup_index_isSome (r : Roster) (name : String) :
    (r.index.lookup name).isSome ↔ name ∈ r.fields.map Field.name := by
  simp [lookup_index]

end Roster

structure Catalog extends Roster where
  entity : Entity
  table : String
  version : Nat
deriving DecidableEq, Inhabited

namespace Catalog

def of (entity : Entity) (table : String) (version : Nat) (fields : List Field) : Catalog :=
  ⟨.of fields, entity, table, version⟩

@[simp] theorem fields_of (entity : Entity) (table : String) (version : Nat) (fields : List Field) :
    (of entity table version fields).fields = fields := rfl

/-- Checks fields in order, sets their table and adds them behind those of a roster. -/
def enroll (entity : Entity) (table : String) (roster : Roster) : List Field → Except CatalogError Roster
  | [] => .ok roster
  | f :: fs => do
    f.check
    if (roster.index.lookup f.name).isSome then .error (.duplicateField entity f.name)
    else enroll entity table (roster.add { f with table }) fs

def build (entity : Entity) (table : String) (version : Nat) (fields : List Field) :
    Except CatalogError Catalog := do
  if fields.isEmpty then .error (.empty entity)
  else
    checkIdentifier table
    let roster ← enroll entity table (.of []) fields
    .ok ⟨roster, entity, table, version⟩

def lookup (c : Catalog) (name : String) : Option Field := c.toRoster.lookup name

theorem lookup_eq_find? (c : Catalog) (name : String) : c.lookup name = c.fields.find? (·.name == name) :=
  c.toRoster.lookup_eq_find? name

end Catalog

end FilterSql
