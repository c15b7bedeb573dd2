import FilterSql.Cli.Arguments
import FilterSql.Engine.Basic

/-! What the commands print. -/
namespace FilterSql.Cli

inductive Failure where
  | config (error : ConfigError)
  | compile (error : CompileError)
  | unknownEntity (name : String)
deriving DecidableEq

def Failure.message : Failure → String
  | config error => "Failed to load the engine configuration: " ++ error.message
  | compile error => error.kind.name ++ ": " ++ error.message
  | unknownEntity name =>
    "Unknown entity '" ++ name ++ "' (expected note, class or saved_query)"

def line (s : String) : String := s ++ "\n"

def row (field type source functions : String) : String :=
  line (Text.padRight 24 field ++ " " ++ Text.padRight 16 type ++ " " ++ Text.padRight 22 source ++
    " " ++ functions)

def table (catalog : Catalog) : String :=
  line ("Fields for '" ++ catalog.entity.name ++ "' (table '" ++ catalog.table ++ "', catalog v" ++
    toString catalog.version ++ "):") ++
  line (Text.copies 72 "-") ++
  row "Field" "Type" "Source" "Functions" ++
  String.join (catalog.fields.map fun f =>
    row f.name f.type.shown f.source.shown (", ".intercalate (f.functions.map StringFunction.name)))

def entityNamed (name : String) : Except Failure Entity :=
  (Entity.ofName name).mapError fun _ => .unknownEntity name

def compileOnce (engine : Engine) (entity dialect source : String) (offset : Nat) :
    Except Failure Statement := do
  let dialect ← (Dialect.ofName dialect).mapError fun e => .compile (.ofName e)
  let entity ← entityNamed entity
  ((engine.compile ⟨entity, source, some dialect, offset⟩ none).1.result).mapError .compile

def execute (engine : Engine) : Command → Except Failure String
  | .compile entity dialect offset compact source => do
    let statement ← compileOnce engine entity dialect source offset
    .ok (line (if compact then statement.json.compact else statement.json.pretty))
  | .validate entity dialect source => do
    let _ ← compileOnce engine entity dialect source 0
    .ok (line "ok")
  | .fields entity json => do
    let entity ← entityNamed entity
    match engine.catalog? entity with
    | none => .error (.unknownEntity entity.name)
    | some catalog =>
      .ok (if json then line (Json.array (catalog.fields.map Field.json)).pretty else table catalog)

/-- The configuration of a file that was read, or could not be for the reason given. -/
def configOf (path : String) (contents : Except String String) : Except ConfigError Config :=
  match contents with
  | .ok text => Config.ofToml text
  | .error reason => .error (.unreadable path reason)

def run (invocation : Invocation) (contents : String → Except String String) :
    Except Failure String := do
  let config ← match invocation.config with
    | some path => (configOf path (contents path)).mapError .config
    | none => .ok {}
  execute (Engine.ofConfig config).registerStandard invocation.command

end FilterSql.Cli
