import FilterSql.Expr.Error
import FilterSql.Dialect
import FilterSql.Predicate.Error

/-! Why a filter was not compiled. -/
namespace FilterSql

inductive ErrorKind where
  | lex
  | parse
  | tooComplex
  | unknownField
  | unsupportedFunction
  | typeMismatch
  | unsupportedDialect
  | unknownEntity
  | cancelled
deriving DecidableEq

namespace ErrorKind

def all : List ErrorKind :=
  [lex, parse, tooComplex, unknownField, unsupportedFunction, typeMismatch, unsupportedDialect,
    unknownEntity, cancelled]

def name : ErrorKind → String
  | lex => "lex"
  | parse => "parse"
  | tooComplex => "too_complex"
  | unknownField => "unknown_field"
  | unsupportedFunction => "unsupported_function"
  | typeMismatch => "type_mismatch"
  | unsupportedDialect => "unsupported_dialect"
  | unknownEntity => "unknown_entity"
  | cancelled => "cancelled"

/-- Whether the filter itself is at fault, not the request around it. -/
def isInvalidFilter : ErrorKind → Bool
  | unsupportedDialect => false
  | unknownEntity => false
  | cancelled => false
  | _ => true

end ErrorKind

def SyntaxError.kind : SyntaxError → ErrorKind
  | lex _ => .lex
  | parse error => if error.isTooComplex then .tooComplex else .parse

def SemanticError.kind : SemanticError → ErrorKind
  | unknownField .. => .unknownField
  | unsupportedFunction .. => .unsupportedFunction
  | typeMismatch .. => .typeMismatch

inductive CompileError where
  | syntactic (error : SyntaxError)
  | semantic (error : SemanticError)
  | unsupportedDialect (name : Option String)
  | unknownEntity (name : String)
  | cancelled
  /-- The offset leaves too few placeholder numbers for the filter. -/
  | outOfPlaceholders
deriving DecidableEq

namespace CompileError

def ofName : NameError → CompileError
  | .dialect given => unsupportedDialect (some given)
  | .entity given => unknownEntity given

def kind : CompileError → ErrorKind
  | syntactic error => error.kind
  | semantic error => error.kind
  | unsupportedDialect _ => .unsupportedDialect
  | unknownEntity _ => .unknownEntity
  | cancelled => .cancelled
  | outOfPlaceholders => .tooComplex

def message : CompileError → String
  | syntactic error => error.message
  | semantic error => error.message
  | unsupportedDialect (some name) => "unsupported SQL dialect '" ++ name ++ "'"
  | unsupportedDialect none => "unsupported SQL dialect: none requested"
  | unknownEntity name => "no field catalog for entity '" ++ name ++ "'"
  | cancelled => "compilation was cancelled"
  | outOfPlaceholders => "placeholder numbers run past the 64-bit range"

end CompileError

end FilterSql
