import FilterSql.Proofs.LexemeCut
import FilterSql.Proofs.Outline

/-! Expressions written out as filters, with every operand in parentheses and any blanks between tokens. A
text that is read as tokens leaves what stands behind it alone, so texts can be put one behind the other,
and a written expression is read as the tokens that it is made of. -/
namespace FilterSql

/-- A literal in a filter. Only quotes and backslashes are escaped in a text. -/
def Literal.written : Literal → String
  | text s => "\"" ++ String.ofList (s.toList.flatMap Lexeme.escapeChar) ++ "\""
  | other => other.shown

namespace Expr

def enclosed (s : String) : String := "(" ++ s ++ ")"

def between (gap left sign right : String) : String :=
  enclosed left ++ gap ++ sign ++ gap ++ enclosed right

mutual
/-- An expression with all operands in parentheses, and with `gap` around signs and behind commas. -/
def written (gap : String) : Expr → String
  | literal value _ => value.written
  | field path _ => path.text
  | connect connective left right _ => between gap (left.written gap) connective.symbol (right.written gap)
  | not operand _ => Negation.symbol ++ enclosed (operand.written gap)
  | compare operator left right _ => between gap (left.written gap) operator.symbol (right.written gap)
  | call function arguments _ => function ++ enclosed (listed gap arguments)

def listed (gap : String) : List Expr → String
  | [] => ""
  | [e] => e.written gap
  | e :: f :: es => e.written gap ++ "," ++ gap ++ listed gap (f :: es)
end

/-- What can be written: words are identifiers and no booleans, integers have sixty-four bits, and texts
have no NUL. -/
inductive Writable : Expr → Prop where
  | boolean : Writable (.literal (.boolean b) s)
  | integer : Numeral.fitsInt64 n = true → Writable (.literal (.integer n) s)
  | text {t : String} : '\x00' ∉ t.toList → Writable (.literal (.text t) s)
  | field {path : Path} : path.segments ≠ [] →
      (∀ word ∈ path.segments, Text.isIdentifier word.toList = true) →
      path.text ≠ "true" → path.text ≠ "false" → Writable (.field path s)
  | connect : Writable l → Writable r → Writable (.connect c l r s)
  | not : Writable e → Writable (.not e s)
  | compare : Writable l → Writable r → Writable (.compare operator l r s)
  | call {function : String} : Text.isIdentifier function.toList = true →
      function ≠ "true" → function ≠ "false" → (∀ a ∈ arguments, Writable a) →
      Writable (.call function arguments s)

mutual
def unplaced : Expr → Expr
  | literal value _ => .literal value .nowhere
  | field path _ => .field path .nowhere
  | connect connective left right _ => .connect connective left.unplaced right.unplaced .nowhere
  | not operand _ => .not operand.unplaced .nowhere
  | compare operator left right _ => .compare operator left.unplaced right.unplaced .nowhere
  | call function arguments _ => .call function (unplacedAll arguments) .nowhere

def unplacedAll : List Expr → List Expr
  | [] => []
  | e :: es => e.unplaced :: unplacedAll es
end

def enclosedKinds (kinds : List Token.Kind) : List Token.Kind :=
  .symbol .leftParen :: (kinds ++ [.symbol .rightParen])

mutual
def kinds : Expr → List Token.Kind
  | literal value _ => [.literal value]
  | field path _ => [.name path.text]
  | connect connective left right _ =>
    enclosedKinds left.kinds ++ .symbol (.connect connective) :: enclosedKinds right.kinds
  | not operand _ => .symbol .not :: enclosedKinds operand.kinds
  | compare operator left right _ =>
    enclosedKinds left.kinds ++ .symbol (.compare operator) :: enclosedKinds right.kinds
  | call function arguments _ => .call function :: enclosedKinds (kindsListed arguments)

def kindsListed : List Expr → List Token.Kind
  | [] => []
  | [e] => e.kinds
  | e :: f :: es => e.kinds ++ .symbol .comma :: kindsListed (f :: es)
end

mutual
/-- How deep a written expression nests: a parenthesis, a negation and a call hold what they hold one level
deeper, and so does a connective its right operand. -/
def depth : Expr → Nat
  | literal .. => 0
  | field .. => 0
  | connect _ left right _ => max (1 + left.depth) (1 + (1 + right.depth))
  | not operand _ => 1 + (1 + operand.depth)
  | compare _ left right _ => max (1 + left.depth) (1 + right.depth)
  | call _ arguments _ => 1 + depthOfAll arguments

def depthOfAll : List Expr → Nat
  | [] => 0
  | e :: es => max e.depth (depthOfAll es)
end

theorem unplacedAll_eq_map (es : List Expr) : unplacedAll es = es.map unplaced := by
  induction es with
  | nil => rfl
  | cons e es ih => rw [unplacedAll, ih, List.map_cons]

end Expr

theorem tokensFrom_blanks {blanks : List Char} (h : ∀ c ∈ blanks, Text.isBlank c = true) (p : Position)
    (done : List Token) (rest : List Char) :
    tokensFrom p done (blanks ++ rest) = tokensFrom (p.after blanks) done rest := by
  have htake : (blanks ++ rest).takeWhile Text.isBlank = blanks ++ rest.takeWhile Text.isBlank :=
    List.takeWhile_append_of_pos h
  have hdrop : (blanks ++ rest).dropWhile Text.isBlank = rest.dropWhile Text.isBlank :=
    List.dropWhile_append_of_pos h
  rw [tokensFrom.eq_def, tokensFrom.eq_def (p.after blanks)]
  simp only [htake, Position.after_append]
  rw [hdrop]

/-- A lexeme that is cut off whole becomes a token, behind which reading goes on, or an error. -/
theorem tokensFrom_cut {c : Char} {cs rest : List Char} {shape : Lexeme.Shape} (hblank : Text.isBlank c = false)
    (hcut : Lexeme.cut (c :: cs ++ rest) = (shape, (c :: cs).length)) (p : Position) (done : List Token) :
    tokensFrom p done (c :: cs ++ rest) =
      match Lexeme.kind p (c :: cs) shape with
      | .error e => .error e
      | .ok k => tokensFrom (p.after (c :: cs)) (⟨k, String.ofList (c :: cs), p.span (c :: cs)⟩ :: done) rest := by
  have htake : (c :: cs ++ rest).takeWhile Text.isBlank = [] := by simp [hblank]
  have hdrop : (c :: cs ++ rest).dropWhile Text.isBlank = c :: (cs ++ rest) := by simp [hblank]
  rw [tokensFrom.eq_def]
  simp only [htake]
  split
  case h_1 heq =>
    rw [hdrop] at heq
    cases heq
  case h_2 heq =>
    rw [hdrop] at heq
    cases heq
    simp only [List.cons_append, List.length_cons] at hcut
    cases hkind : Lexeme.kind p (c :: cs) shape <;> simp [hcut, hkind, Position.after]

theorem tokensFrom_lexeme {c : Char} {cs rest : List Char} {shape : Lexeme.Shape} {k : Token.Kind}
    (hblank : Text.isBlank c = false) (hcut : Lexeme.cut (c :: cs ++ rest) = (shape, (c :: cs).length))
    {p : Position} (hkind : Lexeme.kind p (c :: cs) shape = .ok k) (done : List Token) :
    tokensFrom p done (c :: cs ++ rest) =
      tokensFrom (p.after (c :: cs)) (⟨k, String.ofList (c :: cs), p.span (c :: cs)⟩ :: done) rest := by
  rw [tokensFrom_cut hblank hcut, hkind]

def ReadAs (cs : List Char) (kinds : List Token.Kind) (rest : List Char) : Prop :=
  ∀ (p : Position) (done : List Token), ∃ (ts : List Token) (q : Position), ts.map Token.kind = kinds ∧
    tokensFrom p done (cs ++ rest) = tokensFrom q (ts.reverse ++ done) rest

namespace ReadAs

open Lexeme Text

variable {rest : List Char}

theorem blanks {cs : List Char} (h : ∀ c ∈ cs, isBlank c = true) : ReadAs cs [] rest :=
  fun p done => ⟨[], p.after cs, rfl, tokensFrom_blanks h p done rest⟩

theorem append {cs ds : List Char} (hcs : ReadAs cs ks (ds ++ rest)) (hds : ReadAs ds ls rest) :
    ReadAs (cs ++ ds) (ks ++ ls) rest := by
  intro p done
  obtain ⟨ts, q, hts, hread⟩ := hcs p done
  obtain ⟨us, r, hus, hnext⟩ := hds q (ts.reverse ++ done)
  refine ⟨ts ++ us, r, by rw [List.map_append, hts, hus], ?_⟩
  rw [List.append_assoc, hread, hnext, List.reverse_append, List.append_assoc]

theorem lexeme {cs : List Char} {shape : Shape} {k : Token.Kind}
    (hcut : cut (cs ++ rest) = (shape, cs.length)) (hkind : ∀ p, Lexeme.kind p cs shape = .ok k)
    (hblank : ∃ c, cs.head? = some c ∧ isBlank c = false) : ReadAs cs [k] rest := by
  intro p done
  obtain ⟨c, hhead, hblank⟩ := hblank
  cases cs with
  | nil => cases hhead
  | cons d cs =>
    cases hhead
    exact ⟨[_], _, rfl, tokensFrom_lexeme hblank hcut (hkind p) done⟩

theorem symbol (sign : Symbol) (h : opensSymbol sign = true → rest.head? ≠ some '=') :
    ReadAs sign.text.toList [.symbol sign] rest := by
  refine lexeme (cut_symbol sign h) (fun _ => rfl) ?_
  cases sign with
  | compare operator => cases operator <;> exact ⟨_, rfl, rfl⟩
  | connect connective => cases connective <;> exact ⟨_, rfl, rfl⟩
  | _ => exact ⟨_, rfl, rfl⟩

theorem boolean (b : Bool) (h : Clear rest) : ReadAs (boolText b).toList [.literal (.boolean b)] rest := by
  refine lexeme (cut_boolean b h.continuesWord) (fun _ => rfl) ?_
  cases b <;> exact ⟨_, rfl, rfl⟩

theorem integer {n : Int} (hfits : Numeral.fitsInt64 n = true) (h : Clear rest) :
    ReadAs (toString n).toList [.literal (.integer n)] rest := by
  obtain ⟨sign, digits, hsign, hne, hdigits, hchars, rfl⟩ := toList_toString_int n
  rw [hchars]
  refine lexeme (cut_number hsign hne hdigits h.continuesWord) (numberKind_digits hsign hdigits hfits) ?_
  obtain ⟨c, cs, rfl⟩ := List.exists_cons_of_ne_nil hne
  rcases hsign with rfl | rfl
  · exact ⟨c, rfl, isBlank_of_isWordChar (isWordChar_of_isDigit (hdigits c List.mem_cons_self))⟩
  · exact ⟨'-', rfl, rfl⟩

theorem text {s : String} (h : '\x00' ∉ s.toList) :
    ReadAs ('"' :: (s.toList.flatMap escapeChar ++ ['"'])) [.literal (.text s)] rest := by
  refine lexeme (cut_string s.toList rest) ?_ ⟨_, rfl, rfl⟩
  intro p
  rw [kind_string h, String.ofList_toList]

theorem call {word : String} (hword : isIdentifier word.toList = true) (htrue : word ≠ "true")
    (hfalse : word ≠ "false") : ReadAs word.toList [.call word] ('(' :: rest) := by
  have hcut := cut_call hword (fun h => htrue (String.toList_injective h))
    (fun h => hfalse (String.toList_injective h)) rest
  refine lexeme hcut (fun p => by rw [Lexeme.kind, String.ofList_toList]) ?_
  obtain ⟨c, cs, hchars, hstart⟩ := exists_cons_of_isIdentifier hword
  exact ⟨c, by rw [hchars]; rfl, isBlank_of_isWordChar (isWordChar_of_isNameStart hstart)⟩

theorem name {path : Path} (hne : path.segments ≠ [])
    (hall : ∀ s ∈ path.segments, isIdentifier s.toList = true) (htrue : path.text ≠ "true")
    (hfalse : path.text ≠ "false") (h : Clear rest) : ReadAs path.text.toList [.name path.text] rest := by
  have hcut := cut_path hne hall htrue hfalse h.continuesWord fun hopen => absurd hopen h.not_opens
  refine lexeme hcut (fun p => by rw [Lexeme.kind, String.ofList_toList]) ?_
  obtain ⟨c, cs, hchars, hstart⟩ := exists_cons_of_path hne hall
  exact ⟨c, by rw [Path.text, hchars]; rfl, isBlank_of_isWordChar (isWordChar_of_isNameStart hstart)⟩

end ReadAs

section Reading

open FilterSql.Expr Lexeme

variable {rest : List Char}

theorem Lexeme.clear_nil : Clear [] := by
  intro c h
  cases h

theorem Lexeme.clear_rightParen : Clear (')' :: rest) := by
  intro c h
  cases h
  decide

theorem Lexeme.clear_comma : Clear (',' :: rest) := by
  intro c h
  cases h
  decide

theorem Lexeme.clear_comparison (operator : Comparison) : Clear (operator.symbol.toList ++ rest) := by
  intro c h
  cases operator <;> cases h <;> decide

theorem Lexeme.clear_blanks {blanks : List Char} (h : ∀ c ∈ blanks, Text.isBlank c = true) (hrest : Clear rest) :
    Clear (blanks ++ rest) := by
  cases blanks with
  | nil => exact hrest
  | cons b blanks =>
    have hb := h b List.mem_cons_self
    intro c hc
    cases hc
    simp only [Text.isBlank, Bool.or_eq_true, beq_iff_eq] at hb
    rcases hb with ((rfl | rfl) | rfl) | rfl <;> decide

theorem Lexeme.head?_blanks_ne {blanks : List Char} (h : ∀ c ∈ blanks, Text.isBlank c = true)
    (hrest : rest.head? ≠ some '=') : (blanks ++ rest).head? ≠ some '=' := by
  cases blanks with
  | nil => exact hrest
  | cons b blanks =>
    have hb := h b List.mem_cons_self
    rintro heq
    cases heq
    exact absurd hb (by decide)

theorem ReadAs.closed (sign : Symbol) (h : opensSymbol sign = false) :
    ReadAs sign.text.toList [.symbol sign] rest := by
  refine .symbol sign fun hopens => ?_
  rw [h] at hopens
  cases hopens

theorem ReadAs.enclosed {s : String} (h : ReadAs s.toList ks (')' :: rest)) :
    ReadAs (Expr.enclosed s).toList (enclosedKinds ks) rest := by
  have hopen : ReadAs "(".toList [.symbol .leftParen] ((s.toList ++ ")".toList) ++ rest) :=
    .closed .leftParen rfl
  have hclose : ReadAs ")".toList [.symbol .rightParen] rest := .closed .rightParen rfl
  have hbody : ReadAs (s.toList ++ ")".toList) (ks ++ [.symbol .rightParen]) rest := .append h hclose
  simpa [Expr.enclosed, enclosedKinds] using hopen.append hbody

theorem ReadAs.between {gap left right : String} (hgap : ∀ c ∈ gap.toList, Text.isBlank c = true)
    (sign : Symbol) (hleft : ∀ rest, ReadAs left.toList ks (')' :: rest))
    (hright : ReadAs right.toList ls (')' :: rest)) :
    ReadAs (Expr.between gap left sign.text right).toList
      (enclosedKinds ks ++ .symbol sign :: enclosedKinds ls) rest := by
  have hnext : ((gap.toList ++ (Expr.enclosed right).toList) ++ rest).head? ≠ some '=' := by
    rw [List.append_assoc]
    exact head?_blanks_ne hgap (by simp [Expr.enclosed])
  have hsecond : ReadAs (gap.toList ++ (Expr.enclosed right).toList) (enclosedKinds ls) rest :=
    .append (.blanks hgap) hright.enclosed
  have hsign := (ReadAs.symbol sign fun _ => hnext).append hsecond
  have hfirst := (ReadAs.enclosed (hleft _)).append ((ReadAs.blanks hgap).append hsign)
  simpa [Expr.between] using hfirst

theorem ReadAs.listed {gap : String} (hgap : ∀ c ∈ gap.toList, Text.isBlank c = true) {es : List Expr}
    (hes : ∀ e ∈ es, ∀ rest, Clear rest → ReadAs (e.written gap).toList e.kinds rest) :
    ReadAs (Expr.listed gap es).toList (kindsListed es) (')' :: rest) := by
  induction es with
  | nil => exact .blanks (by simp [Expr.listed])
  | cons e es ih =>
    obtain ⟨he, hes⟩ := List.forall_mem_cons.mp hes
    cases es with
    | nil => exact he _ clear_rightParen
    | cons f es =>
      have hrest := (ReadAs.blanks hgap).append (ih hes)
      have hcomma : ReadAs (",".toList ++ _) _ (')' :: rest) := (ReadAs.closed .comma rfl).append hrest
      have hall := (he _ clear_comma).append hcomma
      simpa [Expr.listed, kindsListed] using hall

/-- A written expression is read as the tokens it is made of. -/
theorem Expr.Writable.readAs {gap : String} (hgap : ∀ c ∈ gap.toList, Text.isBlank c = true) {e : Expr}
    (h : e.Writable) (hrest : Clear rest) : ReadAs (e.written gap).toList e.kinds rest := by
  induction h generalizing rest with
  | boolean => exact .boolean _ hrest
  | integer hfits => exact .integer hfits hrest
  | text hnul =>
    have htext : ReadAs _ _ rest := .text hnul
    simpa [written, Literal.written, kinds] using htext
  | field hne hall htrue hfalse => exact .name hne hall htrue hfalse hrest
  | @connect _ _ c _ _ _ ihl ihr =>
    exact .between hgap (.connect c) (fun _ => ihl clear_rightParen) (ihr clear_rightParen)
  | @not e _ _ ih =>
    have hsign : ReadAs Negation.symbol.toList [.symbol .not] ((enclosed (e.written gap)).toList ++ rest) :=
      .symbol .not (by simp [enclosed])
    have hnot := hsign.append (ih clear_rightParen).enclosed
    simpa [written, kinds] using hnot
  | @compare _ _ operator _ _ _ ihl ihr =>
    exact .between hgap (.compare operator) (fun _ => ihl clear_rightParen) (ihr clear_rightParen)
  | @call arguments _ function hword htrue hfalse _ ih =>
    have hopen : (enclosed (listed gap arguments)).toList ++ rest =
        '(' :: ((listed gap arguments).toList ++ ')' :: rest) := by simp [enclosed]
    have hname : ReadAs function.toList [.call function]
        ((enclosed (listed gap arguments)).toList ++ rest) := by
      rw [hopen]
      exact .call hword htrue hfalse
    have hlisted : ReadAs _ _ (')' :: rest) := .listed hgap fun a ha rest hrest => ih a ha hrest
    have hcall := hname.append hlisted.enclosed
    simpa [written, kinds] using hcall

end Reading

theorem ReadAs.tokenize {source : String} {ks : List Token.Kind} (h : ReadAs source.toList ks []) :
    ∃ ts eof, FilterSql.tokenize source = .ok (ts ++ [eof]) ∧ ts.map Token.kind = ks ∧ eof.kind = .finish := by
  obtain ⟨ts, q, hts, hread⟩ := h .start []
  refine ⟨ts, .finish ((Source.place source.toList).span []), ?_, hts, rfl⟩
  have hend : tokensFrom q (ts.reverse ++ []) [] = .ok ts := by simp [tokensFrom]
  rw [List.append_nil] at hread
  rw [FilterSql.tokenize, hread, hend]
  rfl

theorem Expr.Writable.tokenize {gap : String} (hgap : ∀ c ∈ gap.toList, Text.isBlank c = true) {e : Expr}
    (h : e.Writable) :
    ∃ ts eof, FilterSql.tokenize (e.written gap) = .ok (ts ++ [eof]) ∧ ts.map Token.kind = e.kinds ∧
      eof.kind = .finish :=
  (h.readAs hgap Lexeme.clear_nil).tokenize

end FilterSql
