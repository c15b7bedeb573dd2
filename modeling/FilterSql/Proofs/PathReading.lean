import FilterSql.Proofs.LexemeCut
import FilterSql.Proofs.SqlLayout
import Mathlib.Tactic.ByContra
import Mathlib.Tactic.FinCases
import Mathlib.Tactic.Tauto

/-! How a database reads a path that is written into SQL. Each database has rules of its own for the text between
the quotes, and a catalog lets the same segments through for all of them. -/
namespace FilterSql

open Text

namespace Text

def WordLetter (c : Char) : Prop :=
  'A' ≤ c ∧ c ≤ 'Z' ∨ 'a' ≤ c ∧ c ≤ 'z' ∨ '0' ≤ c ∧ c ≤ '9' ∨ c = '_'

def Segment (s : String) : Prop := s ≠ "" ∧ ∀ c ∈ s.toList, WordLetter c

def Identifier (s : String) : Prop := Segment s ∧ ∀ c, s.toList.head? = some c → ¬('0' ≤ c ∧ c ≤ '9')

theorem isDigit_iff {c : Char} : c.isDigit = true ↔ '0' ≤ c ∧ c ≤ '9' := by
  simp [Char.isDigit, Char.le_def]

theorem isNamePart_iff {c : Char} : isNamePart c = true ↔ WordLetter c := by
  simp only [isNamePart, isNameStart, Bool.or_eq_true, isAlpha_iff, isDigit_iff, beq_iff_eq, WordLetter]
  tauto

theorem isNameStart_iff {c : Char} : isNameStart c = true ↔ WordLetter c ∧ ¬('0' ≤ c ∧ c ≤ '9') := by
  rw [← isNamePart_iff, ← isDigit_iff, isNamePart, Bool.or_eq_true]
  constructor
  · intro h
    exact ⟨.inl h, by simp [isDigit_of_isNameStart h]⟩
  · rintro ⟨h | h, hdigit⟩
    · exact h
    · exact absurd h hdigit

theorem isPathSegment_iff {s : String} : isPathSegment s = true ↔ Segment s := by
  simp [isPathSegment, Segment, isNamePart_iff]

theorem isIdentifier_iff {s : String} : isIdentifier s.toList = true ↔ Identifier s := by
  have hempty : s ≠ "" ↔ s.toList ≠ [] := by simp
  rw [Identifier, Segment, hempty]
  cases s.toList with
  | nil => simp [isIdentifier]
  | cons c cs =>
    simp only [isIdentifier, Bool.and_eq_true, isNameStart_iff, List.all_eq_true, isNamePart_iff, ne_eq,
      reduceCtorEq, not_false_eq_true, true_and, List.forall_mem_cons, List.head?_cons, Option.some.injEq,
      forall_eq']
    tauto

/-- The word null in any mix of cases. -/
def SpellsNull (s : String) : Prop := s.toList.map Char.toLower = "null".toList

instance (s : String) : Decidable (SpellsNull s) := inferInstanceAs (Decidable (_ = _))

def StartsWithDigit (s : String) : Prop := ∃ c, s.toList.head? = some c ∧ '0' ≤ c ∧ c ≤ '9'

instance (s : String) : Decidable (StartsWithDigit s) :=
  decidable_of_iff (s.toList.head?.any Char.isDigit = true)
    (by simp only [Option.any_eq_true, isDigit_iff, StartsWithDigit])

theorem Segment.not_mem {s : String} (h : Segment s) {c : Char} (hc : isNamePart c = false) : c ∉ s.toList := by
  intro hmem
  rw [isNamePart_iff.mpr (h.2 c hmem)] at hc
  cases hc

theorem Segment.identifier_iff {s : String} (h : Segment s) : Identifier s ↔ ¬StartsWithDigit s := by
  simp [Identifier, StartsWithDigit, h]

end Text

namespace Dialect

/-- A key that stands in a path without quotes. It runs up to the next dot or bracket; a bracket begins an index,
which is no key. -/
def isBareKey (key : List Char) : Bool := key ≠ [] && !key.contains '[' && !key.contains '"'

def keys? (text : String) : Option (List String) :=
  match text.toList with
  | '$' :: '.' :: cs =>
    if (cs.splitOn '.').all isBareKey then some ((cs.splitOn '.').map String.ofList) else none
  | _ => none

def isBareElement (element : List Char) : Bool :=
  element ≠ [] && element.all fun c => !isBlank c && !("\"\\\x7b\x7d".toList.contains c)

/-- The elements of an array of texts between braces. An element may be null, which is no text. -/
def elements? (text : String) : Option (List (Option String)) :=
  match text.toList with
  | '\x7b' :: cs =>
    if cs.getLast? = some '\x7d' ∧ (cs.dropLast.splitOn ',').all isBareElement then
      some (((cs.dropLast.splitOn ',').map String.ofList).map fun s => if SpellsNull s then none else some s)
    else none
  | _ => none

/-- The steps that a database reads in a path; none if it refuses the path. -/
def readPath? : Dialect → String → Option (List (Option String))
  | sqlite, text => (keys? text).map (·.map some)
  | mysql, text => ((keys? text).filter (·.all fun key => isIdentifier key.toList)).map (·.map some)
  | postgres, text => elements? text

/-- Whether a database takes a segment of a catalog for the key that it spells. -/
def Keeps : Dialect → String → Prop
  | sqlite, _ => True
  | mysql, s => ¬StartsWithDigit s
  | postgres, s => ¬SpellsNull s

instance (d : Dialect) (s : String) : Decidable (d.Keeps s) :=
  match d with
  | sqlite => .isTrue trivial
  | mysql => inferInstanceAs (Decidable (¬StartsWithDigit s))
  | postgres => inferInstanceAs (Decidable (¬SpellsNull s))

theorem isBareKey_of_segment {s : String} (h : Segment s) : isBareKey s.toList = true := by
  have hbracket : '[' ∉ s.toList := h.not_mem (by decide)
  have hquote : '"' ∉ s.toList := h.not_mem (by decide)
  simp [isBareKey, h.1, hbracket, hquote]

theorem isBareElement_of_segment {s : String} (h : Segment s) : isBareElement s.toList = true := by
  have hplain : ∀ c ∈ s.toList, isBlank c = false ∧ "\"\\\x7b\x7d".toList.contains c = false := by
    intro c hc
    have hpart := isNamePart_iff.mpr (h.2 c hc)
    by_contra hodd
    have hodd : c ∈ [' ', '\t', '\r', '\n', '"', '\\', '\x7b', '\x7d'] := by
      simp [isBlank] at hodd ⊢
      tauto
    revert hpart
    fin_cases hodd <;> decide
  simpa [isBareElement, h.1] using hplain

section Segments

variable {path : List String} (hne : path ≠ []) (hpath : ∀ s ∈ path, Segment s)

include hne hpath

theorem keys?_join : keys? ("$." ++ ".".intercalate path) = some path := by
  have hsplit : (".".intercalate path).toList.splitOn '.' = path.map String.toList :=
    splitOn_join hne fun s hs => (hpath s hs).not_mem (by decide)
  have htext : ("$." ++ ".".intercalate path).toList = '$' :: '.' :: (".".intercalate path).toList := by
    rw [String.toList_append]
    rfl
  have hbare : ∀ s ∈ path, isBareKey s.toList = true := fun s hs => isBareKey_of_segment (hpath s hs)
  simp only [keys?, htext, hsplit, List.all_map, List.map_map]
  simpa [Function.comp_def] using hbare

theorem elements?_join : elements? ("\x7b" ++ ",".intercalate path ++ "\x7d") =
    some (path.map fun s => if SpellsNull s then none else some s) := by
  have hsplit : (",".intercalate path).toList.splitOn ',' = path.map String.toList :=
    splitOn_join hne fun s hs => (hpath s hs).not_mem (by decide)
  have htext : ("\x7b" ++ ",".intercalate path ++ "\x7d").toList =
      '\x7b' :: ((",".intercalate path).toList ++ ['\x7d']) := by
    rw [String.toList_append, String.toList_append]
    rfl
  have hbare : ∀ s ∈ path, isBareElement s.toList = true := fun s hs => isBareElement_of_segment (hpath s hs)
  simp only [elements?, htext, List.getLast?_concat, List.dropLast_concat, hsplit, List.all_map, List.map_map]
  simpa [Function.comp_def] using hbare

theorem readPath?_sqlite : sqlite.readPath? (sqlite.pathBody path) = some (path.map some) := by
  rw [readPath?, pathBody, keys?_join hne hpath]
  rfl

theorem readPath?_postgres : postgres.readPath? (postgres.pathBody path) =
    some (path.map fun s => if SpellsNull s then none else some s) := elements?_join hne hpath

theorem readPath?_mysql : mysql.readPath? (mysql.pathBody path) =
    if path.all (fun s => isIdentifier s.toList) then some (path.map some) else none := by
  rw [readPath?, pathBody, keys?_join hne hpath, Option.filter_some]
  split <;> rfl

omit hne in
theorem all_isIdentifier_iff : path.all (fun s => isIdentifier s.toList) = true ↔ ∀ s ∈ path, mysql.Keeps s := by
  rw [List.all_eq_true]
  refine forall₂_congr fun s hs => ?_
  rw [isIdentifier_iff, (hpath s hs).identifier_iff]
  rfl

theorem readPath?_pathBody_iff (d : Dialect) :
    d.readPath? (d.pathBody path) = some (path.map some) ↔ ∀ s ∈ path, d.Keeps s := by
  cases d with
  | sqlite => simp [readPath?_sqlite hne hpath, Keeps]
  | mysql => simp [readPath?_mysql hne hpath, ← all_isIdentifier_iff hpath]
  | postgres =>
    rw [readPath?_postgres hne hpath, Option.some.injEq, List.map_inj_left]
    refine forall₂_congr fun s _ => ?_
    simp [Keeps]

/-- Only MySQL refuses a path of a catalog. -/
theorem readPath?_pathBody_eq_none_iff (d : Dialect) :
    d.readPath? (d.pathBody path) = none ↔ d = mysql ∧ ¬∀ s ∈ path, d.Keeps s := by
  cases d with
  | sqlite => simp [readPath?_sqlite hne hpath]
  | postgres => simp [readPath?_postgres hne hpath]
  | mysql => simp [readPath?_mysql hne hpath, ← all_isIdentifier_iff hpath]

/-- A path that is not refused is read as it is or with a null step. -/
theorem steps_of_readPath? {d : Dialect} {steps : List (Option String)}
    (h : d.readPath? (d.pathBody path) = some steps) :
    steps = path.map some ∧ (∀ s ∈ path, d.Keeps s) ∨ none ∈ steps ∧ ¬∀ s ∈ path, d.Keeps s := by
  by_cases hkept : ∀ s ∈ path, d.Keeps s
  · exact .inl ⟨Option.some.inj (h.symm.trans ((readPath?_pathBody_iff hne hpath d).mpr hkept)), hkept⟩
  · refine .inr ⟨?_, hkept⟩
    cases d with
    | sqlite => exact absurd (fun _ _ => trivial) hkept
    | mysql =>
      rw [(readPath?_pathBody_eq_none_iff hne hpath mysql).mpr ⟨rfl, hkept⟩] at h
      cases h
    | postgres =>
      rw [readPath?_postgres hne hpath] at h
      cases h
      simpa [Keeps] using hkept

end Segments

end Dialect

end FilterSql
