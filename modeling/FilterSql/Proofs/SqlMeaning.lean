import FilterSql.Proofs.PathReading
import FilterSql.Proofs.RowTruth

/-! What an SQL condition says of a row, taken from its text alone and read as one database reads it. Conditions
are read by precedence; a leaf is a test of one value against one argument, with the quotes, the placeholders, the
paths, the functions and the pattern matching of that database, and what another one would write is not read.
Texts are compared by their characters, in MySQL also where no collation says so. Truth is three-valued. -/
namespace FilterSql

def Value.scalar : Value → Scalar
  | int32 n => .integer n
  | int64 n => .integer n
  | float x => .float x
  | text s => .text s
  | boolean b => .boolean b

def Dialect.stored : Dialect → Scalar → Scalar
  | postgres, v => v
  | mysql, .boolean b => .integer (if b then 1 else 0)
  | sqlite, .boolean b => .integer (if b then 1 else 0)
  | mysql, v => v
  | sqlite, v => v

@[simp] theorem Dialect.stored_text (d : Dialect) (s : String) : d.stored (.text s) = .text s := by
  cases d <;> rfl

namespace Sql

/-- The type a JSON value is taken out as; a plain value is what the database makes of it. -/
inductive Kind where
  | plain
  | text
  | boolean
  | int32
  | int64
  | double
deriving DecidableEq

def Kind.of? (d : Dialect) : Kind → Scalar → Option Scalar
  | plain, v => some (d.stored v)
  | text, .text s => some (.text s)
  | boolean, .boolean b => some (.boolean b)
  | int32, .integer n => if Numeral.fitsInt32 n then some (.integer n) else none
  | int64, .integer n => if Numeral.fitsInt64 n then some (.integer n) else none
  | double, .float x => some (.float x)
  | _, _ => none

/-- A path has the steps that the database reads, of which some may be null. -/
inductive Term where
  | column (table column : String)
  | extract (table column : String) (steps : List (Option String)) (kind : Kind)
  | isTrue (operand : Term)
deriving DecidableEq

def affirms : Scalar → Bool
  | .boolean b => b
  | .integer n => n != 0
  | _ => false

end Sql

/-- What is found at the end of a path, which is nothing if a step is null. -/
def Row.scalarAt (row : Row) (table column : String) (steps : List (Option String)) : Option Scalar :=
  if none ∈ steps then none else row.scalar table column (steps.filterMap id)

def Row.textsAt (row : Row) (table column : String) (steps : List (Option String)) : List String :=
  if none ∈ steps then [] else row.texts table column (steps.filterMap id)

namespace Sql

def Term.value? (d : Dialect) (row : Row) : Term → Option (Option Scalar)
  | column table name => some ((row.column table name).map d.stored)
  | extract table name steps kind =>
    match row.scalarAt table name steps with
    | none => some none
    | some v => (kind.of? d v).map some
  | isTrue operand => (operand.value? d row).map fun v => some (d.stored (.boolean (v.any affirms)))

inductive Placeholder where
  | anonymous
  | numbered (n : Nat)
deriving DecidableEq

/-- The argument of a placeholder, with `before` anonymous placeholders before it. -/
def Placeholder.argument? (arguments : List Value) (before : Nat) : Placeholder → Option Scalar
  | anonymous => arguments[before]?.map Value.scalar
  | numbered 0 => none
  | numbered (n + 1) => arguments[n]?.map Value.scalar

inductive Test where
  | compare (term : Term) (operator : Comparison) (argument : Placeholder)
  | contains (table column : String) (steps : List (Option String)) (argument : Placeholder)
  | like (term : Term) (argument : Placeholder) (escape : Char)
  | glob (term : Term) (argument : Placeholder)
  | not (test : Test)
deriving DecidableEq

def matched? (matcher : List Char → List Char → Bool) (pattern : Scalar) : Option Scalar → Option Truth
  | none => some none
  | some (.text s) =>
    match pattern with
    | .text p => some (some (matcher p.toList s.toList))
    | _ => none
  | some _ => none

def Test.truth? (d : Dialect) (row : Row) (arguments : List Value) (before : Nat) : Test → Option Truth
  | compare term operator argument => do
    let value ← term.value? d row
    let v ← argument.argument? arguments before
    some (Scalar.compared operator value (some v))
  | contains table column steps argument => do
    match ← argument.argument? arguments before with
    | .text s => some (some ((row.textsAt table column steps).contains s))
    | _ => none
  | like term argument escape => do
    let value ← term.value? d row
    let pattern ← argument.argument? arguments before
    matched? (Sql.like escape) pattern value
  | glob term argument => do
    let value ← term.value? d row
    let pattern ← argument.argument? arguments before
    matched? Sql.glob pattern value
  | not test => (test.truth? d row arguments before).map Truth.not

/-! Leaves are read from left to right, without their blanks. -/

/-- PostgreSQL numbers its placeholders. -/
def Part.placeholder? (d : Dialect) : Part → Option Placeholder
  | .sign c => if d ≠ .postgres ∧ c = '?' then some .anonymous else none
  | .word w =>
    match d, w.toList with
    | .postgres, '$' :: digits =>
      if digits ≠ [] ∧ digits.all Char.isDigit then some (.numbered (Nat.ofDigitChars 10 digits 0)) else none
    | _, _ => none
  | .quoted .. => none

namespace Nested

def solid : Nested → Nested
  | done => done
  | part p next => if (Phrase.part p).isBlank then next.solid else part p next.solid
  | group inside next => group inside.solid next.solid

def word? (w : String) : Nested → Option Nested
  | part (.word v) next => if v = w then some next else none
  | _ => none

def sign? (c : Char) : Nested → Option Nested
  | part (.sign b) next => if b = c then some next else none
  | _ => none

def quoted? (mark : Char) : Nested → Option (String × Nested)
  | part (.quoted q body) next => if q = mark then some (body, next) else none
  | _ => none

def group? : Nested → Option (Nested × Nested)
  | group inside next => some (inside, next)
  | _ => none

def placeholder? (d : Dialect) : Nested → Option (Placeholder × Nested)
  | part p next => (p.placeholder? d).map (·, next)
  | _ => none

def done? : Nested → Option Unit
  | done => some ()
  | _ => none

def column? (d : Dialect) (t : Nested) : Option ((String × String) × Nested) := do
  let (table, t) ← t.quoted? d.quoteMark
  let t ← t.sign? '.'
  let (column, t) ← t.quoted? d.quoteMark
  some ((table, column), t)

def path? (d : Dialect) (t : Nested) : Option (List (Option String) × Nested) := do
  let (body, t) ← t.quoted? '\x27'
  let steps ← d.readPath? body
  some (steps, t)

def kind? : Nested → Option Kind
  | .part (.word w) .done =>
    if w = "BOOLEAN" then some .boolean
    else if w = "INTEGER" then some .int32
    else if w = "BIGINT" then some .int64
    else none
  | .part (.word v) (.part (.word w) .done) =>
    if v = "DOUBLE" ∧ w = "PRECISION" then some .double else none
  | _ => none

end Nested

section Reading

variable (d : Dialect)

def extractor? : Dialect → Option String
  | .mysql => some "JSON_EXTRACT"
  | .sqlite => some "json_extract"
  | .postgres => none

/-- A function of a term, and of what follows the term between the parentheses. MySQL takes the quotes off a text,
and PostgreSQL makes another type of one. -/
def applied? (function : String) (term : Term) (more : Nested) : Option Term :=
  match term with
  | .column table column =>
    if extractor? d = some function then do
      let more ← more.sign? ','
      let (steps, more) ← more.path? d
      more.done?
      some (.extract table column steps .plain)
    else none
  | .extract table column steps .text =>
    if d = .postgres ∧ function = "CAST" then do
      let type ← more.word? "AS"
      let kind ← type.kind?
      some (.extract table column steps kind)
    else none
  | .extract table column steps .plain =>
    if d = .mysql ∧ function = "JSON_UNQUOTE" then do
      more.done?
      some (.extract table column steps .text)
    else none
  | _ => none

def taken? (table column : String) (more : Nested) : Option Term := do
  let more ← more.sign? '#'
  let more ← more.sign? '>'
  let more ← more.sign? '>'
  let (steps, more) ← more.path? d
  more.done?
  some (.extract table column steps .text)

def affirmed? (term : Term) (more : Nested) : Option Term := do
  let more ← more.word? "IS"
  let more ← more.word? "TRUE"
  more.done?
  some (.isTrue term)

def enclosed? (term : Term) (more : Nested) : Option Term :=
  match term with
  | .column table column => if d = .postgres then taken? d table column more else none
  | term => affirmed? term more

def term? : Nested → Option (Term × Nested)
  | .part (.word function) (.group inside next) => do
    let (term, more) ← term? inside
    let term ← applied? d function term more
    some (term, next)
  | .group inside next => do
    let (term, more) ← term? inside
    let term ← enclosed? d term more
    some (term, next)
  | t => do
    let ((table, column), next) ← t.column? d
    some (.column table column, next)

def operator? : Nested → Option (Comparison × Nested)
  | .part (.sign '<') (.part (.sign '>') next) => some (.notEqual, next)
  | .part (.sign '<') (.part (.sign '=') next) => some (.lessEqual, next)
  | .part (.sign '>') (.part (.sign '=') next) => some (.greaterEqual, next)
  | .part (.sign '<') next => some (.less, next)
  | .part (.sign '>') next => some (.greater, next)
  | .part (.sign '=') next => some (.equal, next)
  | _ => none

def compare? (term : Term) (more : Nested) : Option Test := do
  let (operator, more) ← operator? more
  let (argument, more) ← more.placeholder? d
  more.done?
  some (.compare term operator argument)

def like? (term : Term) (more : Nested) : Option Test := do
  let more ← more.word? "LIKE"
  let (argument, more) ← more.placeholder? d
  let more ← more.word? "ESCAPE"
  let (body, more) ← more.quoted? '\x27'
  more.done?
  match body.toList with
  | [escape] => some (.like term argument escape)
  | _ => none

def glob? (term : Term) (more : Nested) : Option Test := do
  let more ← more.word? "GLOB"
  let (argument, more) ← more.placeholder? d
  more.done?
  some (.glob term argument)

def collated? (more : Nested) : Option Nested := (more.word? "COLLATE").bind (·.word? "utf8mb4_bin")

/-- What a term is tested for. `LIKE` regards case in PostgreSQL, and in MySQL under a binary collation; SQLite has
`GLOB` for it. -/
def tested? (term : Term) (more : Nested) : Option Test :=
  match d with
  | .mysql =>
    match collated? more with
    | some more => (compare? d term more).or (like? d term more)
    | none => compare? d term more
  | .postgres => (compare? d term more).or (like? d term more)
  | .sqlite => (compare? d term more).or (glob? d term more)

def termTest? (t : Nested) : Option Test := do
  let (term, more) ← term? d t
  tested? d term more

end Reading

/-- `COALESCE((column #> path) @> jsonb_build_array(CAST(argument AS TEXT)), FALSE)` -/
def holds? (t : Nested) : Option Test := do
  let (inside, t) ← (← t.word? "COALESCE").group?
  t.done?
  let (array, t) ← inside.group?
  let ((table, column), array) ← array.column? .postgres
  let (steps, array) ← (← (← array.sign? '#').sign? '>').path? .postgres
  array.done?
  let (made, t) ← (← (← (← t.sign? '@').sign? '>').word? "jsonb_build_array").group?
  (← (← t.sign? ',').word? "FALSE").done?
  let (text, made) ← (← made.word? "CAST").group?
  made.done?
  let (argument, text) ← text.placeholder? .postgres
  (← (← text.word? "AS").word? "TEXT").done?
  some (.contains table column steps argument)

/-- `COALESCE(JSON_CONTAINS(column, JSON_QUOTE(argument), path), 0)` -/
def jsonContains? (t : Nested) : Option Test := do
  let (inside, t) ← (← t.word? "COALESCE").group?
  t.done?
  let (call, t) ← (← inside.word? "JSON_CONTAINS").group?
  (← (← t.sign? ',').word? "0").done?
  let ((table, column), call) ← call.column? .mysql
  let (quoted, call) ← (← (← call.sign? ',').word? "JSON_QUOTE").group?
  let (argument, quoted) ← quoted.placeholder? .mysql
  quoted.done?
  let (steps, call) ← (← call.sign? ',').path? .mysql
  call.done?
  some (.contains table column steps argument)

/-- `EXISTS (SELECT 1 FROM json_each(column, path) WHERE json_each.value = argument)` -/
def eachEquals? (t : Nested) : Option Test := do
  let (select, t) ← (← t.word? "EXISTS").group?
  t.done?
  let (call, select) ← (← (← (← (← select.word? "SELECT").word? "1").word? "FROM").word? "json_each").group?
  let ((table, column), call) ← call.column? .sqlite
  let (steps, call) ← (← call.sign? ',').path? .sqlite
  call.done?
  let select ← (← (← (← select.word? "WHERE").word? "json_each").sign? '.').word? "value"
  let (argument, select) ← (← select.sign? '=').placeholder? .sqlite
  select.done?
  some (.contains table column steps argument)

def arrayTest? : Dialect → Nested → Option Test
  | .postgres, t => holds? t
  | .mysql, t => jsonContains? t
  | .sqlite, t => eachEquals? t

def test? (d : Dialect) : Nested → Option Test
  | .part (.word w) next =>
    if w = "NOT" then (arrayTest? d next).map .not
    else if w = "COALESCE" ∨ w = "EXISTS" then arrayTest? d (.part (.word w) next)
    else termTest? d (.part (.word w) next)
  | t => termTest? d t

def Nested.anonymous (d : Dialect) : Nested → Nat
  | done => 0
  | part p next => (if p.placeholder? d = some .anonymous then 1 else 0) + next.anonymous d
  | group inside next => inside.anonymous d + next.anonymous d

namespace Condition

def anonymous (d : Dialect) : Condition Nested → Nat
  | leaf t => t.anonymous d
  | not operand => operand.anonymous d
  | and left right => left.anonymous d + right.anonymous d
  | or left right => left.anonymous d + right.anonymous d

def truth? (d : Dialect) (row : Row) (arguments : List Value) (before : Nat) :
    Condition Nested → Option Truth
  | leaf t => (test? d t.solid).bind (Test.truth? d row arguments before)
  | not operand => (operand.truth? d row arguments before).map Truth.not
  | and left right => do
    let l ← left.truth? d row arguments before
    let r ← right.truth? d row arguments (before + left.anonymous d)
    some (l.and r)
  | or left right => do
    let l ← left.truth? d row arguments before
    let r ← right.truth? d row arguments (before + left.anonymous d)
    some (l.or r)

end Condition

/-- The truth of a condition in a statement with `before` anonymous placeholders before it; there is none if
the database does not read the text, an argument is missing or a value is not of the type it is cast to. -/
def truth? (d : Dialect) (row : Row) (arguments : List Value) (before : Nat) (sql : String) : Option Truth :=
  (nested? sql.toList).bind fun t => t.condition.truth? d row arguments before

end Sql

end FilterSql
