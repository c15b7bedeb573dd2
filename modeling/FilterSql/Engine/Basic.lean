import FilterSql.Catalog.Standard
import FilterSql.Engine.Cache
import FilterSql.Engine.Config
import FilterSql.Engine.Error
import FilterSql.Sql.Render

/-! The engine: catalogs, settings and a cache, and the way from a source text to a statement. The stages
run in order and the first fault ends the run; between stages a request can be cancelled. -/
namespace FilterSql

/-- The places at which a request looks for a cancellation, in the order they are passed. -/
inductive Checkpoint where
  | start
  | lexed
  | parsed
  | checked
deriving DecidableEq

def Checkpoint.rank : Checkpoint → Nat
  | start => 0
  | lexed => 1
  | parsed => 2
  | checked => 3

/-- A cancellation, given by the first checkpoint that sees it; every later one sees it too. -/
abbrev Signal := Option Checkpoint

def Signal.seenAt (signal : Signal) (checkpoint : Checkpoint) : Bool :=
  signal.any fun first => first.rank ≤ checkpoint.rank

structure Request where
  entity : Entity
  source : String
  dialect : Option Dialect
  /-- How many parameters the caller binds before those of the statement. -/
  offset : Nat := 0
deriving DecidableEq, Inhabited

structure Engine where
  limits : Limits
  dialects : List Dialect
  /-- At most one for each entity. -/
  catalogs : List Catalog := []
  cache : Option Cache
deriving DecidableEq

namespace Engine

def ofConfig (config : Config) : Engine where
  limits := config.limits
  dialects := config.dialects
  cache := if config.cache.isActive then Cache.ofCapacity? config.cache.capacity else none

/-- Registers a catalog in place of the one its entity had. -/
def register (engine : Engine) (catalog : Catalog) : Engine :=
  { engine with catalogs := engine.catalogs.filter (·.entity != catalog.entity) ++ [catalog] }

def registerStandard (engine : Engine) : Engine := (Entity.all.map Catalog.standard).foldl register engine

def catalog? (engine : Engine) (entity : Entity) : Option Catalog :=
  engine.catalogs.find? (·.entity == entity)

def cachedStatements (engine : Engine) : Nat := (engine.cache.map Cache.size).getD 0

def pass (signal : Signal) (checkpoint : Checkpoint) : Except CompileError Unit :=
  if signal.seenAt checkpoint then .error .cancelled else .ok ()

def analyse (limits : Limits) (catalog : Catalog) (source : String) (signal : Signal) :
    Except CompileError (Predicate Operand) := do
  let tokens ← (tokenize source).mapError fun e => .syntactic (.lex e)
  pass signal .lexed
  let e ← (Expr.ofTokens limits tokens).mapError fun e => .syntactic (.parse e)
  pass signal .parsed
  let bound ← (Predicate.bind catalog e).mapError .semantic
  let typed ← bound.check.mapError .semantic
  pass signal .checked
  .ok typed

/-- Compiles a source text without a look at the cache. -/
def compileFresh (limits : Limits) (catalog : Catalog) (dialect : Dialect) (offset : Nat)
    (source : String) (signal : Signal) : Except CompileError Statement := do
  let typed ← analyse limits catalog source signal
  match typed.render dialect offset with
  | some (fragment, parameters) => .ok ⟨fragment, parameters, typed.referencedFields⟩
  | none => .error .outOfPlaceholders

def admissible (engine : Engine) (request : Request) : Except CompileError (Dialect × Catalog) :=
  match request.dialect with
  | none => .error (.unsupportedDialect none)
  | some dialect =>
    if dialect ∈ engine.dialects then
      match engine.catalog? request.entity with
      | some catalog => .ok (dialect, catalog)
      | none => .error (.unknownEntity request.entity.name)
    else .error (.unsupportedDialect (some dialect.name))

/-- An answer, and whether it came from the cache. -/
structure Reply where
  result : Except CompileError Statement
  hit : Bool

def keyOf (request : Request) (dialect : Dialect) (catalog : Catalog) : Cache.Key :=
  ⟨request.entity, catalog.version, dialect, request.offset, request.source⟩

/-- Compiles a request. Only a new statement changes the engine, and only its cache. -/
def compile (engine : Engine) (request : Request) (signal : Signal) : Reply × Engine :=
  match engine.admissible request with
  | .error e => (⟨.error e, false⟩, engine)
  | .ok (dialect, catalog) =>
    match pass signal .start with
    | .error e => (⟨.error e, false⟩, engine)
    | .ok () =>
      let key := keyOf request dialect catalog
      match engine.cache.bind (·.get? key) with
      | some statement => (⟨.ok statement, true⟩, engine)
      | none =>
        match compileFresh engine.limits catalog dialect request.offset request.source signal with
        | .error e => (⟨.error e, false⟩, engine)
        | .ok statement =>
          (⟨.ok statement, false⟩, { engine with cache := engine.cache.map (·.insert key statement) })

end Engine

end FilterSql
