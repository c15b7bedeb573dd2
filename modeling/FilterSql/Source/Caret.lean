import FilterSql.Source.Span

/-! A source line shown with a caret under one of its characters. -/
namespace FilterSql.Source

def afterLines : Nat → List Char → List Char
  | 0, cs => cs
  | _ + 1, [] => []
  | n + 1, c :: cs => if c = '\n' then afterLines n cs else afterLines (n + 1) cs

def dropReturn (cs : List Char) : List Char :=
  if cs.getLast? = some '\r' then cs.dropLast else cs

/-- The line that `n` line feeds stand before. A carriage return before its line feed belongs to the
line's end. -/
def lineText (n : Nat) (cs : List Char) : List Char :=
  let rest := afterLines n cs
  let text := rest.takeWhile (· ≠ '\n')
  if (rest.dropWhile (· ≠ '\n')).isEmpty then text else dropReturn text

def underlined (message : String) (span : Span) (source : String) : String :=
  message ++ "\n" ++ String.ofList (lineText (span.line - 1) source.toList) ++ "\n" ++
    Text.copies (span.column - 1) " " ++ "^"

end FilterSql.Source
