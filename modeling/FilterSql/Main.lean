import FilterSql.Cli.Run

/-! The program: it reads its configuration file, runs a command and prints. -/
namespace FilterSql

def readContents (path : String) : IO (Except String String) := do
  try
    return .ok (← IO.FS.readFile path)
  catch e =>
    match e with
    | .noFileOrDirectory _ code _ => return .error s!"No such file or directory (os error {code})"
    | e => return .error (toString e)

def runMain (args : List String) : IO UInt32 := do
  match Cli.parse args with
  | .error .help => return 0
  | .error .usage => return 2
  | .ok invocation =>
    let contents ← match invocation.config with
      | some path => readContents path
      | none => pure (.ok "")
    match Cli.run invocation fun _ => contents with
    | .ok text =>
      IO.print text
      return 0
    | .error failure =>
      IO.eprintln failure.message
      return 1

end FilterSql

def main (args : List String) : IO UInt32 := FilterSql.runMain args
