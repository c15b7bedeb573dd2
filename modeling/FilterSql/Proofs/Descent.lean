import FilterSql.Proofs.ParserComplete

/-! The parser with its state in the open: a position in the stream, which only moves forward, and a
counter of the nesting levels that are open, which is raised on the way in and lowered on the way out.
Nothing in these routines says that they come to an end, that the counter can be lowered as far as they
lower it or that an index is in bounds: the two faults are ways to stop of their own, and so is to be
unfinished. A routine is told how deep calls may nest from it on, a turn of a loop counting as a call, and
does nothing else with that number than give up at zero, so a walk that is not left unfinished is the walk of
the routine without it. -/
namespace FilterSql.Descent

/-- Where a walk stands. `peak` is the highest that the counter `depth` has been; no routine reads it. -/
structure Cursor where
  position : Nat := 0
  depth : Nat := 0
  peak : Nat := 0

inductive Stop where
  | refused (error : ParseError)
  | underflow
  | outOfBounds
  /-- Calls were to nest deeper than allowed. -/
  | unfinished

/-- A walk comes to a result or stops, and has moved the cursor either way. -/
abbrev Walk := EStateM Stop Cursor

def refuse (error : ParseError) : Walk α := throw (.refused error)

namespace Cursor

variable (tokens : List Token)

def next (c : Cursor) : Token := tokens[c.position]?.getD (Expr.streamEnd tokens)

def moved (c : Cursor) : Cursor :=
  if c.position < tokens.length then { c with position := c.position + 1 } else c

def raised (c : Cursor) : Cursor := { c with depth := c.depth + 1, peak := max c.peak (c.depth + 1) }

def lowered (c : Cursor) (levels : Nat) : Cursor := { c with depth := c.depth - levels }

/-- The rest of the stream as the parser for one level is given it. -/
def ahead (c : Cursor) : List Token := tokens.drop c.position ++ [Expr.streamEnd tokens]

/-- How deep calls nest below the routines of the cursor's level: ten for each level that may still be opened,
and one for each token ahead, since a turn of the loop over arguments takes one. -/
def need (limit : Nat) (c : Cursor) : Nat := 10 * (limit - c.depth) + (tokens.length - c.position)

end Cursor

section Routines

variable (limit : Nat) (tokens : List Token)

def peek : Walk Token := return (← get).next tokens

def advance : Walk Token := do
  let token ← peek tokens
  modify (·.moved tokens)
  return token

/-- Opens a level. The counter is raised before it is compared. -/
def enter (span : Span) : Walk Unit := do
  modify (·.raised)
  if limit < (← get).depth then refuse (.tooComplex (.depth limit) span)

def leave (levels : Nat) : Walk Unit := do
  if (← get).depth < levels then throw .underflow
  modify (·.lowered levels)

mutual

def chain : Nat → Connective → Walk Expr
  | 0, _ => throw .unfinished
  | calls + 1, connective => do
    let left ← operand calls connective
    chainOn calls connective left 0

/-- Reads a chain on, `chained` connectives of which have been read. Each has opened a level, and they are
all left together. -/
def chainOn : Nat → Connective → Expr → Nat → Walk Expr
  | 0, _, _, _ => throw .unfinished
  | calls + 1, connective, left, chained => do
    if (← peek tokens).kind = .symbol (.connect connective) then
      let sign ← advance tokens
      enter limit sign.span
      let right ← operand calls connective
      chainOn calls connective (.join connective left right) (chained + 1)
    else
      leave chained
      return left

def operand : Nat → Connective → Walk Expr
  | 0, _ => throw .unfinished
  | calls + 1, .and => unary calls
  | calls + 1, .or => chain calls .and

def unary : Nat → Walk Expr
  | 0 => throw .unfinished
  | calls + 1 => do
    if (← peek tokens).kind = .symbol .not then
      let sign ← advance tokens
      enter limit sign.span
      let operand ← unary calls
      leave 1
      return .not operand (sign.span.cover operand.span)
    else comparison calls

def comparison : Nat → Walk Expr
  | 0 => throw .unfinished
  | calls + 1 => do
    let left ← primary calls
    match (← peek tokens).kind with
    | .symbol (.compare operator) =>
      let _ ← advance tokens
      let right ← primary calls
      return .compare operator left right (left.span.cover right.span)
    | _ => return left

def primary : Nat → Walk Expr
  | 0 => throw .unfinished
  | calls + 1 => do
    let token ← peek tokens
    match token.kind with
    | .literal value =>
      let _ ← advance tokens
      return .literal value token.span
    | .name word =>
      let _ ← advance tokens
      return .field (.ofText word) token.span
    | .call word => call calls word
    | .symbol .leftParen => group calls
    | .finish => refuse (.unexpectedEnd .primary token.span)
    | .symbol _ => refuse (Parser.unexpected token .primary)

/-- A parenthesised expression. Whatever token stands first is taken for the parenthesis. -/
def group : Nat → Walk Expr
  | 0 => throw .unfinished
  | calls + 1 => do
    let opening ← advance tokens
    enter limit opening.span
    let inner ← chain calls .or
    leave 1
    let closing ← peek tokens
    match closing.kind with
    | .symbol .rightParen =>
      let _ ← advance tokens
      return inner
    | .finish => refuse (.unclosedParen opening.span)
    | _ => refuse (Parser.unexpected closing .rightParen)

def call : Nat → String → Walk Expr
  | 0, _ => throw .unfinished
  | calls + 1, function => do
    let name ← advance tokens
    let opening ← advance tokens
    if opening.kind ≠ .symbol .leftParen then refuse (Parser.unexpected opening .leftParen)
    else
      enter limit opening.span
      let (args, closing) ← listed calls opening.span
      leave 1
      return .call function args (name.span.cover closing)

def listed : Nat → Span → Walk (List Expr × Span)
  | 0, _ => throw .unfinished
  | calls + 1, opening => do
    match (← peek tokens).kind with
    | .symbol .rightParen =>
      let closing ← advance tokens
      return ([], closing.span)
    | _ => arguments calls opening

def arguments : Nat → Span → Walk (List Expr × Span)
  | 0, _ => throw .unfinished
  | calls + 1, opening => do
    let first ← chain calls .or
    let next ← advance tokens
    match next.kind with
    | .symbol .comma =>
      let (rest, closing) ← arguments calls opening
      return (first :: rest, closing)
    | .symbol .rightParen => return ([first], next.span)
    | .finish => refuse (.unclosedParen opening)
    | _ => refuse (Parser.unexpected next .commaOrRightParen)

end

end Routines

def parse (limits : Limits) (tokens : List Token) (calls : Nat) : Walk Expr := do
  let count := Expr.tokenCount tokens
  if count = 0 then refuse .empty
  else if limits.maxTokens < count then
    match tokens[limits.maxTokens]? with
    | some token => refuse (.tooComplex (.tokens count limits.maxTokens) token.span)
    | none => throw .outOfBounds
  else
    let e ← chain limits.effectiveDepth tokens calls .or
    let next ← peek tokens
    match next.kind with
    | .finish => return e
    | .symbol .rightParen => refuse (.unmatchedParen next.span)
    | _ => refuse (Parser.unexpected next .operatorOrEnd)

inductive Routine where
  | orExpr
  | andExpr
  | unary
  | comparison
  | primary
  | group
  | call (function : String)

namespace Routine

variable (limit : Nat) (tokens : List Token)

def walk (calls : Nat) : Routine → Walk Expr
  | orExpr => chain limit tokens calls .or
  | andExpr => chain limit tokens calls .and
  | unary => Descent.unary limit tokens calls
  | comparison => Descent.comparison limit tokens calls
  | primary => Descent.primary limit tokens calls
  | group => Descent.group limit tokens calls
  | call function => Descent.call limit tokens calls function

/-- What the parser for the cursor's level makes of the tokens ahead. A group and a call are parsed from
behind their first token. -/
def reading (c : Cursor) : Routine → Except ParseError (Expr × List Token)
  | orExpr => (Parser.level limit (limit - c.depth)).orExpr (c.ahead tokens)
  | andExpr => (Parser.level limit (limit - c.depth)).andExpr (c.ahead tokens)
  | unary => Parser.unary limit (Parser.below limit (limit - c.depth)) (c.ahead tokens)
  | comparison => Parser.comparison limit (Parser.below limit (limit - c.depth)) (c.ahead tokens)
  | primary => Parser.primary limit (Parser.below limit (limit - c.depth)) (c.ahead tokens)
  | group => Parser.group limit (Parser.below limit (limit - c.depth)) (c.next tokens).span
      ((c.moved tokens).ahead tokens)
  | call function => Parser.call limit (Parser.below limit (limit - c.depth)) function
      (c.next tokens).span ((c.moved tokens).ahead tokens)

end Routine

theorem run_bind_of {w : Walk α} {f : α → Walk β} (h : w.run c = .ok a c') :
    (w >>= f).run c = (f a).run c' := by
  simp only [EStateM.run, bind, EStateM.bind] at h ⊢
  rw [h]

theorem run_bind_error {w : Walk α} {f : α → Walk β} (h : w.run c = .error e c') :
    (w >>= f).run c = .error e c' := by
  simp only [EStateM.run, bind, EStateM.bind] at h ⊢
  rw [h]

theorem run_peek (tokens : List Token) (c : Cursor) : (peek tokens).run c = .ok (c.next tokens) c := rfl

theorem run_advance (tokens : List Token) (c : Cursor) :
    (advance tokens).run c = .ok (c.next tokens) (c.moved tokens) := rfl

theorem run_enter (limit : Nat) (span : Span) (c : Cursor) :
    (enter limit span).run c =
      if limit ≤ c.depth then .error (.refused (.tooComplex (.depth limit) span)) c.raised
      else .ok () c.raised := by
  have hraise : (modify (·.raised) : Walk PUnit).run c = .ok () c.raised := rfl
  have hget : (get : Walk Cursor).run c.raised = .ok c.raised c.raised := rfl
  have hlimit : limit < c.raised.depth ↔ limit ≤ c.depth := Nat.lt_succ_iff
  rw [enter, run_bind_of hraise, run_bind_of hget]
  simp only [hlimit]
  split
  · rfl
  · rfl

theorem run_leave {levels : Nat} {c : Cursor} (h : levels ≤ c.depth) :
    (leave levels).run c = .ok () (c.lowered levels) := by
  have hget : (get : Walk Cursor).run c = .ok c c := rfl
  rw [leave, run_bind_of hget, if_neg (Nat.not_lt.mpr h)]
  rfl

namespace Cursor

variable {tokens : List Token}

@[simp] theorem raised_position (c : Cursor) : c.raised.position = c.position := rfl

@[simp] theorem raised_depth (c : Cursor) : c.raised.depth = c.depth + 1 := rfl

@[simp] theorem lowered_position (c : Cursor) (n : Nat) : (c.lowered n).position = c.position := rfl

@[simp] theorem lowered_depth (c : Cursor) (n : Nat) : (c.lowered n).depth = c.depth - n := rfl

@[simp] theorem lowered_next (c : Cursor) (n : Nat) : (c.lowered n).next tokens = c.next tokens := rfl

@[simp] theorem moved_depth (c : Cursor) : (c.moved tokens).depth = c.depth := by
  unfold moved
  split <;> rfl

@[simp] theorem moved_peak (c : Cursor) : (c.moved tokens).peak = c.peak := by
  unfold moved
  split <;> rfl

theorem position_le_moved (c : Cursor) : c.position ≤ (c.moved tokens).position := by
  unfold moved
  split <;> simp

@[simp] theorem peek_ahead (c : Cursor) : Parser.peek (c.ahead tokens) = c.next tokens := by
  rw [ahead, next, Parser.peek, List.headD_eq_head?_getD, List.head?_append, List.head?_drop]
  cases tokens[c.position]? <;> rfl

theorem length_ahead (c : Cursor) : (c.ahead tokens).length = tokens.length - c.position + 1 := by
  simp [ahead]

theorem position_lt_of_next {c : Cursor} (h : (c.next tokens).kind ≠ .finish) :
    c.position < tokens.length := by
  apply Nat.lt_of_not_le
  intro hle
  apply h
  rw [next, List.getElem?_eq_none hle]
  rfl

theorem moved_position {c : Cursor} (h : (c.next tokens).kind ≠ .finish) :
    (c.moved tokens).position = c.position + 1 := by
  rw [moved, if_pos (position_lt_of_next h)]

theorem tail_ahead {c : Cursor} (h : (c.next tokens).kind ≠ .finish) :
    (c.ahead tokens).tail = (c.moved tokens).ahead tokens := by
  rw [ahead, ahead, moved_position h, List.drop_eq_getElem_cons (position_lt_of_next h)]
  rfl

theorem need_le {c c' : Cursor} (limit : Nat) (hdepth : c.depth = c'.depth)
    (hposition : c.position ≤ c'.position) : c'.need tokens limit ≤ c.need tokens limit := by
  unfold need
  omega

theorem need_moved_le (c : Cursor) (limit : Nat) :
    (c.moved tokens).need tokens limit ≤ c.need tokens limit :=
  need_le limit (by simp) c.position_le_moved

theorem need_raised {c : Cursor} (h : c.depth < limit) :
    c.raised.need tokens limit + 10 = c.need tokens limit := by
  simp only [need, raised]
  omega

end Cursor

end FilterSql.Descent
