import FilterSql.Number.Numeral

/-! The command line. An option takes a value, behind it or after an equals sign, and is given at most
once; two hyphens end the options. -/
namespace FilterSql.Cli

inductive Command where
  | compile (entity dialect : String) (offset : Nat) (compact : Bool) (source : String)
  | validate (entity dialect source : String)
  | fields (entity : String) (json : Bool)
deriving DecidableEq

structure Invocation where
  config : Option String
  command : Command
deriving DecidableEq

inductive Stop where
  | usage
  | help
deriving DecidableEq

structure Shape where
  options : List String
  /-- The options whose value is a number. -/
  numbers : List String := []
  flags : List String := []
  /-- How many arguments it has beside them. -/
  operands : Nat

def word? (s : String) : Option Nat :=
  match s.toList with
  | '-' :: _ => none
  | cs => (Numeral.integer? cs).bind fun n => if n ≤ 18446744073709551615 then some n.toNat else none

structure Given where
  options : List (String × String) := []
  flags : List String := []
  operands : List String := []

namespace Given

def option? (g : Given) (name : String) : Option String := (g.options.find? (·.1 == name)).map (·.2)

def need (g : Given) (name : String) : Except Stop String :=
  match g.option? name with
  | some value => .ok value
  | none => .error .usage

def addOption (g : Given) (shape : Shape) (name value : String) : Except Stop Given :=
  if (g.option? name).isSome ∨ (name ∈ shape.numbers ∧ (word? value).isNone) then .error .usage
  else .ok { g with options := g.options ++ [(name, value)] }

def addFlag (g : Given) (name : String) : Except Stop Given :=
  if name ∈ g.flags then .error .usage else .ok { g with flags := g.flags ++ [name] }

def addOperand (g : Given) (shape : Shape) (operand : String) : Except Stop Given :=
  if g.operands.length < shape.operands then .ok { g with operands := g.operands ++ [operand] }
  else .error .usage

def addOperands (g : Given) (shape : Shape) : List String → Except Stop Given
  | [] => .ok g
  | operand :: rest => do (← g.addOperand shape operand).addOperands shape rest

end Given

inductive Argument where
  | endOfOptions
  | long (name : String) (value : Option String)
  | short (letter : Char)
  | plain

def Argument.of (s : String) : Argument :=
  match s.toList with
  | ['-', '-'] => .endOfOptions
  | '-' :: '-' :: cs =>
    let name := String.ofList (cs.takeWhile (· ≠ '='))
    match cs.dropWhile (· ≠ '=') with
    | [] => .long name none
    | _ :: value => .long name (some (String.ofList value))
  | '-' :: c :: _ => .short c
  | _ => .plain

def Argument.isValue (s : String) : Bool :=
  match Argument.of s with
  | .plain => true
  | _ => false

/-- Reads the arguments of a command, of which `pending` is an option that still wants its value. -/
def scan (shape : Shape) (given : Given) (pending : Option String) :
    List String → Except Stop Given
  | [] => if pending.isSome then .error .usage else .ok given
  | s :: rest =>
    match pending with
    | some name =>
      if Argument.isValue s then do scan shape (← given.addOption shape name s) none rest
      else .error .usage
    | none =>
      match Argument.of s with
      | .endOfOptions => given.addOperands shape rest
      | .long name value =>
        if name ∈ shape.options then
          match value with
          | some v => do scan shape (← given.addOption shape name v) none rest
          | none => scan shape given (some name) rest
        else if value.isSome then .error .usage
        else if name ∈ shape.flags then do scan shape (← given.addFlag name) none rest
        else .error (if name = "help" then .help else .usage)
      | .short letter => .error (if letter = 'h' then .help else .usage)
      | .plain => do scan shape (← given.addOperand shape s) none rest

def operand (g : Given) : Except Stop String :=
  match g.operands with
  | [s] => .ok s
  | _ => .error .usage

def compileArguments (args : List String) : Except Stop (Given × Command) := do
  let g ← scan ⟨["entity", "dialect", "offset", "config"], ["offset"], ["compact"], 1⟩ {} none args
  let offset := ((g.option? "offset").bind word?).getD 0
  .ok (g, .compile (← g.need "entity") (← g.need "dialect") offset (g.flags.contains "compact")
    (← operand g))

def validateArguments (args : List String) : Except Stop (Given × Command) := do
  let g ← scan ⟨["entity", "dialect", "config"], [], [], 1⟩ {} none args
  .ok (g, .validate (← g.need "entity") ((g.option? "dialect").getD "sqlite") (← operand g))

def fieldsArguments (args : List String) : Except Stop (Given × Command) := do
  let g ← scan ⟨["entity", "config"], [], ["json"], 0⟩ {} none args
  .ok (g, .fields (← g.need "entity") (g.flags.contains "json"))

def command (name : String) (args : List String) : Except Stop (Given × Command) :=
  match name with
  | "compile" => compileArguments args
  | "validate" => validateArguments args
  | "fields" => fieldsArguments args
  | "help" =>
    match args with
    | [] | ["compile"] | ["validate"] | ["fields"] | ["help"] => .error .help
    | _ => .error .usage
  | _ => .error .usage

/-- Reads a whole command line. The configuration file may be named before the command or after it; named
twice, the one after it counts. While `pending`, its path is still to come. -/
def parseFrom (config : Option String) (pending : Bool) : List String → Except Stop Invocation
  | [] => .error .usage
  | s :: rest =>
    if pending then
      if Argument.isValue s ∧ config.isNone then parseFrom (some s) false rest else .error .usage
    else
      match Argument.of s with
      | .long "config" (some v) =>
        if config.isSome then .error .usage else parseFrom (some v) false rest
      | .long "config" none => parseFrom config true rest
      | .long "help" none => .error .help
      | .long "version" none => .error .help
      | .short 'h' => .error .help
      | .short 'V' => .error .help
      | .plain => do
        let (given, command) ← command s rest
        .ok ⟨given.option? "config" <|> config, command⟩
      | _ => .error .usage

def parse (args : List String) : Except Stop Invocation := parseFrom none false args

end FilterSql.Cli
