import FilterSql.Proofs.Lexing
import FilterSql.Proofs.ParserComplete

/-! Tokens tile their source. Each covers its lexeme, between them there are only blanks, and their places
are those that counting bytes, line feeds and characters up to them gives. A call is opened right behind its
name, so the parser never misses that parenthesis. -/
namespace FilterSql

theorem Text.byteLength_toList (s : String) : byteLength s.toList = s.utf8ByteSize := by
  have hchars : ∀ cs : List Char, byteLength cs = (String.ofList cs).utf8ByteSize := by
    intro cs
    induction cs with
    | nil => rfl
    | cons c cs ih =>
      rw [byteLength_cons, ih, String.ofList_cons, String.utf8ByteSize_append, String.utf8ByteSize_singleton]
  rw [hchars, String.ofList_toList]

open Source

/-- A span holds `part` at some place of the source: it starts and stops at boundaries of characters, and its
line and column are those of its start. -/
def Span.Covers (span : Span) (source part : List Char) : Prop :=
  ∃ before behind, source = before ++ part ++ behind ∧ span.start = Text.byteLength before ∧
    span.stop = Text.byteLength (before ++ part) ∧ span.line = lineAfter before ∧
    span.column = columnAfter before

theorem Source.covers_place (before part behind : List Char) :
    ((place before).span part).Covers (before ++ part ++ behind) part :=
  ⟨before, behind, rfl, rfl, (Text.byteLength_append before part).symm, rfl, rfl⟩

namespace Lexed

theorem covers {cs : List Char} {ts : List Token} (h : Lexed (place before) cs ts) :
    ∀ t ∈ ts, t.span.Covers (before ++ cs) t.lexeme.toList := by
  generalize hp : place before = p at h
  induction h generalizing before with
  | @finish blanks p _ =>
    intro t ht
    cases List.mem_singleton.mp ht
    rw [← hp, after_place]
    have hcovers := covers_place (before ++ blanks) [] []
    simpa [Token.finish] using hcovers
  | @token blanks c cs rest shape k ts p _ _ _ _ _ ih =>
    subst hp
    simp only [after_place] at ih ⊢
    intro t ht
    rcases List.mem_cons.mp ht with rfl | ht
    · have hcovers := covers_place (before ++ blanks) (c :: cs) rest
      simpa using hcovers
    · have hcovers := ih rfl t ht
      simpa using hcovers

theorem ends {cs : List Char} {ts : List Token} (h : Lexed (place before) cs ts) :
    ∃ us : List Token, ts = us ++ [.finish ((place (before ++ cs)).span [])] ∧
      ∀ t ∈ us, t.kind ≠ .finish ∧ t.lexeme ≠ "" := by
  generalize hp : place before = p at h
  induction h generalizing before with
  | @finish blanks p _ =>
    refine ⟨[], ?_, by simp⟩
    rw [← hp, after_place]
    rfl
  | @token blanks c cs rest shape k ts p _ _ _ hkind _ ih =>
    subst hp
    simp only [after_place] at ih ⊢
    obtain ⟨us, rfl, hus⟩ := ih rfl
    let first : Token := ⟨k, String.ofList (c :: cs), (place (before ++ blanks)).span (c :: cs)⟩
    refine ⟨first :: us, by simp only [first, List.append_assoc, List.cons_append], ?_⟩
    refine List.forall_mem_cons.mpr ⟨⟨?_, ?_⟩, hus⟩
    · intro hfinish
      have hfinish : k = .finish := hfinish
      rw [hfinish] at hkind
      exact Lexeme.kind_ne_finish _ _ _ hkind
    · intro hempty
      have hchars : (String.ofList (c :: cs)).toList = [] := congrArg String.toList hempty
      rw [String.toList_ofList] at hchars
      cases hchars

theorem within_or_behind {xs ys inner behind : List Char} {d : Char} (h : xs ++ ys = inner ++ d :: behind) :
    (∃ more, xs = inner ++ d :: more) ∨ ∃ past, inner = xs ++ past ∧ ys = past ++ d :: behind := by
  rcases List.append_eq_append_iff.mp h with ⟨past, hinner, hys⟩ | ⟨past, rfl, hpast⟩
  · exact .inr ⟨past, hinner, hys⟩
  · cases past with
    | nil => exact .inr ⟨[], by simp, hpast.symm⟩
    | cons b more =>
      cases hpast
      exact .inl ⟨more, rfl⟩

theorem blank_or_covered {p : Position} {cs : List Char} {ts : List Token} (h : Lexed p cs ts)
    {inner behind : List Char} {d : Char} (heq : cs = inner ++ d :: behind) :
    Text.isBlank d = true ∨
      ∃ t ∈ ts, t.span.start ≤ p.offset + Text.byteLength inner ∧
        p.offset + Text.byteLength inner < t.span.stop := by
  induction h generalizing inner with
  | finish hblanks =>
    subst heq
    exact .inl (hblanks d (by simp))
  | @token blanks c cs rest shape k ts p hblanks _ _ _ _ ih =>
    rcases within_or_behind heq with ⟨more, rfl⟩ | ⟨past, rfl, hpast⟩
    · exact .inl (hblanks d (by simp))
    rcases within_or_behind hpast with ⟨more, hlexeme⟩ | ⟨later, rfl, hrest⟩
    · refine .inr ⟨_, List.mem_cons_self, ?_⟩
      have hd := d.utf8Size_pos
      simp only [hlexeme, Position.span, Position.offset_after, Text.byteLength_append, Text.byteLength_cons]
      omega
    · rcases ih hrest with hblank | ⟨t, ht, hcovered⟩
      · exact .inl hblank
      · refine .inr ⟨t, List.mem_cons_of_mem _ ht, ?_⟩
        simp only [Position.offset_after, Text.byteLength_append] at hcovered ⊢
        omega

end Lexed

namespace Token

theorem Laid.pairwise_disjoint {start : Nat} {ts : List Token} (h : Laid start ts) :
    ts.Pairwise fun a b => a.span.start < b.span.start ∧ a.span.stop ≤ b.span.start := by
  induction h with
  | finish => exact List.pairwise_singleton _ _
  | token _ hlt _ hrest ih =>
    rw [List.pairwise_cons]
    refine ⟨?_, ih⟩
    intro b hb
    have hstop := hrest.le_start hb
    omega

def Called (ts : List Token) : Prop :=
  ∀ (earlier : List Token) (name : Token) (later : List Token) (word : String),
    ts = earlier ++ name :: later → name.kind = .call word →
      ∃ opening rest, later = opening :: rest ∧ opening.kind = .symbol .leftParen ∧
        opening.span.start = name.span.stop

theorem called_nil : Called [] := by
  intro earlier name later word heq
  simp at heq

theorem Called.cons {t : Token} {ts : List Token} (h : Called ts)
    (ht : ∀ word, t.kind = .call word →
      ∃ opening rest, ts = opening :: rest ∧ opening.kind = .symbol .leftParen ∧
        opening.span.start = t.span.stop) : Called (t :: ts) := by
  intro earlier name later word heq hname
  cases earlier with
  | nil =>
    cases heq
    exact ht word hname
  | cons s earlier =>
    cases heq
    exact h earlier name later word rfl hname

theorem Called.of_append {us ts : List Token} (h : Called (us ++ ts)) : Called ts := by
  intro earlier name later word heq hname
  refine h (us ++ earlier) name later word ?_ hname
  rw [heq, List.append_assoc]

end Token

namespace Lexeme

theorem shape_of_kind_call {p : Position} {lexeme : List Char} {shape : Shape} {word : String}
    (h : Lexeme.kind p lexeme shape = .ok (.call word)) : shape = .call := by
  obtain ⟨-, s, hk⟩ | ⟨-, ⟨n, hk⟩ | ⟨x, hk⟩⟩ | ⟨value, -, hk⟩ | ⟨sign, -, hk⟩ | ⟨hshape, -⟩ | ⟨-, hk⟩ := kind_cases h
  case inr.inr.inr.inr.inl => exact hshape
  all_goals cases hk

end Lexeme

namespace Lexed

theorem leftParen {p : Position} {cs : List Char} {ts : List Token} (h : Lexed p ('(' :: cs) ts) :
    ∃ opening rest, ts = opening :: rest ∧ opening.kind = .symbol .leftParen ∧
      opening.span.start = p.offset := by
  obtain ⟨lexeme, rest, shape, k, ts, rfl, hcut, hkind, rfl, -⟩ := h.first rfl
  have hparen : Lexeme.cut ('(' :: (lexeme ++ rest)) = (.symbol .leftParen, 1) :=
    Lexeme.cut_symbol .leftParen (by simp [Lexeme.opensSymbol])
  rw [hparen] at hcut
  cases congrArg Prod.fst hcut
  cases hkind
  exact ⟨_, ts, rfl, rfl, rfl⟩

theorem called {p : Position} {cs : List Char} {ts : List Token} (h : Lexed p cs ts) : Token.Called ts := by
  induction h with
  | finish => exact Token.called_nil.cons fun word hname => by cases hname
  | @token blanks c cs rest shape k ts p _ _ hcut hkind hrest ih =>
    refine ih.cons fun word hname => ?_
    have hname : k = .call word := hname
    rw [hname] at hkind
    obtain rfl := Lexeme.shape_of_kind_call hkind
    obtain ⟨-, hopen⟩ : _ ∧ rest.head? = some '(' := Lexeme.shaped_of_cut hcut
    obtain ⟨more, rfl⟩ := List.head?_eq_some_iff.mp hopen
    obtain ⟨opening, us, rfl, hopening, hstart⟩ := hrest.leftParen
    exact ⟨opening, us, rfl, hopening, by rw [hstart, Position.offset_after]; rfl⟩

end Lexed

namespace Parser

open Token

/-- A result that is no complaint about a call without its parenthesis, and behind which calls are opened. -/
def Opened (r : Except ParseError (α × List Token)) : Prop :=
  (∀ a rest, r = .ok (a, rest) → Called rest) ∧
    ∀ found span, r ≠ .error (.unexpectedToken found .leftParen span)

theorem opened_ok (a : α) {rest : List Token} (h : Called rest) : Opened (.ok (a, rest)) := by
  refine ⟨?_, fun _ _ heq => by cases heq⟩
  intro b rest' heq
  cases heq
  exact h

theorem opened_error {e : ParseError} (h : ∀ found span, e ≠ .unexpectedToken found .leftParen span) :
    Opened (.error e : Except ParseError (α × List Token)) := by
  refine ⟨fun _ _ heq => (by cases heq), ?_⟩
  intro found span heq
  cases heq
  exact h found span rfl

theorem opened_bind {x : Except ParseError (α × List Token)}
    {f : α × List Token → Except ParseError (β × List Token)} (hx : Opened x)
    (hf : ∀ a rest, Called rest → Opened (f (a, rest))) : Opened (x >>= f) := by
  cases x with
  | error e => exact opened_error fun found span heq => hx.2 found span (congrArg Except.error heq)
  | ok result => exact hf result.1 result.2 (hx.1 _ _ rfl)

theorem opened_enter {limit : Nat} {deeper : Option Level} {span : Span}
    {f : Level → Except ParseError (α × List Token)}
    (hf : ∀ level, deeper = some level → Opened (f level)) : Opened (enter limit deeper span >>= f) := by
  cases deeper with
  | none => exact opened_error fun _ _ heq => by cases heq
  | some level => exact hf level rfl

theorem opened_unexpected {t : Token} {expected : Expected} (h : expected ≠ .leftParen) :
    Opened (.error (unexpected t expected) : Except ParseError (α × List Token)) := by
  apply opened_error
  intro found span heq
  cases heq
  exact h rfl

theorem called_tail {ts : List Token} (h : Called ts) : Called ts.tail := by
  cases ts with
  | nil => exact h
  | cons t ts => exact @Called.of_append [t] ts h

structure Level.Opens (level : Level) : Prop where
  unary : ∀ ts, Called ts → Opened (level.unary ts)
  andTail : ∀ left ts, Called ts → Opened (level.andTail left ts)
  orTail : ∀ left ts, Called ts → Opened (level.orTail left ts)

def OpensBelow (deeper : Option Level) : Prop := ∀ level, deeper = some level → level.Opens

namespace Level.Opens

variable {level : Level}

theorem andExpr (h : level.Opens) {ts : List Token} (hts : Called ts) : Opened (level.andExpr ts) :=
  opened_bind (h.unary ts hts) fun left rest hrest => h.andTail left rest hrest

theorem orExpr (h : level.Opens) {ts : List Token} (hts : Called ts) : Opened (level.orExpr ts) :=
  opened_bind (h.andExpr hts) fun left rest hrest => h.orTail left rest hrest

end Level.Opens

section Readers

variable {limit : Nat} {deeper : Option Level} {ts : List Token}

theorem opened_group (h : OpensBelow deeper) (opening : Span) (hts : Called ts) :
    Opened (group limit deeper opening ts) := by
  refine opened_enter fun level hlevel => ?_
  refine opened_bind ((h level hlevel).orExpr hts) fun inner rest hrest => ?_
  dsimp only
  split
  · exact opened_ok _ (called_tail hrest)
  · exact opened_error fun _ _ heq => by cases heq
  · exact opened_unexpected (by decide)

theorem opened_arguments {level : Level} (h : level.Opens) (opening : Span) (bound : Nat) (hts : Called ts) :
    Opened (arguments level.orExpr opening bound ts) := by
  induction bound generalizing ts with
  | zero => exact opened_error fun _ _ heq => by cases heq
  | succ bound ih =>
    refine opened_bind (h.orExpr hts) fun first rest hrest => ?_
    dsimp only
    split
    · refine opened_bind (ih (called_tail hrest)) fun more rest hrest => ?_
      exact opened_ok _ hrest
    · exact opened_ok _ (called_tail hrest)
    · exact opened_error fun _ _ heq => by cases heq
    · exact opened_unexpected (by decide)

/-- The only place where an opening parenthesis can be missed. -/
theorem opened_call (h : OpensBelow deeper) (word : String) (name : Span) (hts : Called ts)
    (hopen : (peek ts).kind = .symbol .leftParen) : Opened (call limit deeper word name ts) := by
  unfold call
  dsimp only
  rw [if_neg (not_not_intro hopen)]
  refine opened_enter fun level hlevel => ?_
  have htail := called_tail hts
  split
  · exact opened_ok _ (called_tail htail)
  · refine opened_bind (opened_arguments (h level hlevel) _ _ htail) fun args rest hrest => ?_
    exact opened_ok _ hrest

theorem opened_primary (h : OpensBelow deeper) (hts : Called ts) : Opened (primary limit deeper ts) := by
  have htail := called_tail hts
  unfold primary
  dsimp only
  split
  case h_1 => exact opened_ok _ htail
  case h_2 => exact opened_ok _ htail
  case h_3 word hk =>
    have hcons := eq_cons_of_peek ts (by simp [hk])
    obtain ⟨opening, rest, heq, hopening, -⟩ := hts [] (peek ts) ts.tail word hcons hk
    refine opened_call h word _ htail ?_
    rw [heq, peek_cons, hopening]
  case h_4 => exact opened_group h _ htail
  case h_5 => exact opened_error fun _ _ heq => by cases heq
  case h_6 => exact opened_unexpected (by decide)

theorem opened_comparison (h : OpensBelow deeper) (hts : Called ts) :
    Opened (comparison limit deeper ts) := by
  refine opened_bind (opened_primary h hts) fun left rest hrest => ?_
  dsimp only
  split
  · refine opened_bind (opened_primary h (called_tail hrest)) fun right rest hrest => ?_
    exact opened_ok _ hrest
  · exact opened_ok _ hrest

theorem opened_unary (h : OpensBelow deeper) (hts : Called ts) : Opened (unary limit deeper ts) := by
  unfold unary
  dsimp only
  split
  · refine opened_enter fun level hlevel => ?_
    refine opened_bind ((h level hlevel).unary _ (called_tail hts)) fun operand rest hrest => ?_
    exact opened_ok _ hrest
  · exact opened_comparison h hts

theorem opened_chain (connective : Connective) {operand : Level → Parse Expr}
    {tail : Level → Expr → Parse Expr}
    (hoperand : ∀ level, deeper = some level → ∀ ts, Called ts → Opened (operand level ts))
    (htail : ∀ level, deeper = some level → ∀ left ts, Called ts → Opened (tail level left ts)) (left : Expr)
    (hts : Called ts) : Opened (chain limit deeper connective operand tail left ts) := by
  unfold chain
  dsimp only
  split
  · refine opened_enter fun level hlevel => ?_
    refine opened_bind (hoperand level hlevel _ (called_tail hts)) fun right rest hrest => ?_
    exact htail level hlevel _ rest hrest
  · exact opened_ok _ hts

end Readers

theorem Level.opens_above (limit : Nat) {deeper : Option Level} (h : OpensBelow deeper) :
    (Level.above limit deeper).Opens where
  unary _ hts := opened_unary h hts
  andTail left _ hts := opened_chain .and (fun level hlevel => (h level hlevel).unary)
    (fun level hlevel => (h level hlevel).andTail) left hts
  orTail left _ hts := opened_chain .or (fun level hlevel _ => (h level hlevel).andExpr)
    (fun level hlevel => (h level hlevel).orTail) left hts

theorem level_opens (limit room : Nat) : (level limit room).Opens := by
  induction room with
  | zero => exact Level.opens_above limit fun _ h => by cases h
  | succ room ih =>
    apply Level.opens_above limit
    intro below h
    cases h
    exact ih

end Parser

theorem Token.Called.concat {ts : List Token} (h : Called ts) {eof : Token} (heof : eof.kind = .finish) :
    Called (ts ++ [eof]) := by
  induction ts with
  | nil =>
    refine called_nil.cons fun word hname => ?_
    rw [heof] at hname
    cases hname
  | cons t ts ih =>
    refine (ih (@Called.of_append [t] ts h)).cons fun word hname => ?_
    obtain ⟨opening, rest, rfl, hopening⟩ := h [] t ts word rfl hname
    exact ⟨opening, rest ++ [eof], rfl, hopening⟩

theorem Expr.ofTokens_ne_unopened {tokens : List Token} (h : Token.Called tokens) (limits : Limits)
    (found : String) (span : Span) :
    ofTokens limits tokens ≠ .error (.unexpectedToken found .leftParen span) := by
  have hcalled : Token.Called (tokens ++ [streamEnd tokens]) := h.concat rfl
  have hread := (Parser.level_opens limits.effectiveDepth limits.effectiveDepth).orExpr hcalled
  unfold ofTokens
  dsimp only
  split
  · simp
  · split
    · simp
    · generalize (Parser.level limits.effectiveDepth limits.effectiveDepth).orExpr
        (tokens ++ [streamEnd tokens]) = result at hread
      cases result with
      | error e =>
        intro heq
        cases heq
        exact hread.2 found span rfl
      | ok result =>
        rw [Parser.ok_bind]
        intro heq
        split at heq <;> cases heq

/-- Tokens tile the text that they are read from. Each covers its lexeme, they follow one another without
overlap, only the mark of the end is empty, and a character in none of them is a blank. Every call has its
opening parenthesis right behind its name, so no parser misses one there. -/
theorem tokenize_tiles {source : String} {tokens : List Token} (h : tokenize source = .ok tokens) :
    (∀ t ∈ tokens, t.span.Covers source.toList t.lexeme.toList) ∧
    (tokens.Pairwise fun a b => a.span.start < b.span.start ∧ a.span.stop ≤ b.span.start) ∧
    (∃ (ts : List Token) (finish : Token), tokens = ts ++ [finish] ∧
      (∀ t ∈ ts, t.kind ≠ .finish ∧ t.lexeme ≠ "") ∧ finish.kind = .finish ∧ finish.lexeme = "" ∧
      finish.span.start = source.utf8ByteSize ∧ finish.span.stop = source.utf8ByteSize) ∧
    (∀ (before : List Char) (c : Char) (behind : List Char), source.toList = before ++ c :: behind →
      (c = ' ' ∨ c = '\t' ∨ c = '\r' ∨ c = '\n') ∨
      ∃ t ∈ tokens, t.span.start ≤ Text.byteLength before ∧ Text.byteLength before < t.span.stop) ∧
    (∀ (earlier : List Token) (name : Token) (later : List Token) (word : String),
      tokens = earlier ++ name :: later → name.kind = .call word →
        ∃ opening rest, later = opening :: rest ∧ opening.kind = .symbol .leftParen ∧
          opening.span.start = name.span.stop) ∧
    ∀ limits found span,
      Expr.ofTokens limits tokens ≠ .error (.unexpectedToken found .leftParen span) := by
  have hlexed : Lexed (place []) source.toList tokens := tokenize_eq_ok_iff.mp h
  have hcalled := hlexed.called
  refine ⟨hlexed.covers, (laid_of_tokenize h).pairwise_disjoint, ?_, ?_, hcalled,
    Expr.ofTokens_ne_unopened hcalled⟩
  · obtain ⟨ts, rfl, hts⟩ := hlexed.ends
    exact ⟨ts, _, rfl, hts, rfl, rfl, Text.byteLength_toList source, Text.byteLength_toList source⟩
  · intro before c behind heq
    have hoffset : (place []).offset + Text.byteLength before = Text.byteLength before := Nat.zero_add _
    rcases hlexed.blank_or_covered heq with hblank | hcovered
    · exact .inl (by simpa [Text.isBlank, or_assoc] using hblank)
    · rw [hoffset] at hcovered
      exact .inr hcovered

theorem tokenize_tiles_lines :
    ∃ tokens, tokenize "f(a,\n \"é\" )\t" = .ok tokens ∧
      tokens.map (fun t => (t.lexeme, t.span)) =
        [("f", ⟨0, 1, 1, 1⟩), ("(", ⟨1, 2, 1, 2⟩), ("a", ⟨2, 3, 1, 3⟩), (",", ⟨3, 4, 1, 4⟩),
          ("\"é\"", ⟨6, 10, 2, 2⟩), (")", ⟨11, 12, 2, 6⟩), ("", ⟨13, 13, 2, 8⟩)] ∧
      (∀ t ∈ tokens, t.span.Covers "f(a,\n \"é\" )\t".toList t.lexeme.toList) ∧
      ∀ limits found span, Expr.ofTokens limits tokens ≠ .error (.unexpectedToken found .leftParen span) := by
  have h : (tokenize "f(a,\n \"é\" )\t").map (List.map fun t => (t.lexeme, t.span)) = .ok
      [("f", ⟨0, 1, 1, 1⟩), ("(", ⟨1, 2, 1, 2⟩), ("a", ⟨2, 3, 1, 3⟩), (",", ⟨3, 4, 1, 4⟩),
        ("\"é\"", ⟨6, 10, 2, 2⟩), (")", ⟨11, 12, 2, 6⟩), ("", ⟨13, 13, 2, 8⟩)] := by decide +kernel
  cases htokens : tokenize "f(a,\n \"é\" )\t" with
  | error e =>
    rw [htokens] at h
    cases h
  | ok tokens =>
    rw [htokens] at h
    obtain ⟨hcovers, -, -, -, -, hparser⟩ := tokenize_tiles htokens
    exact ⟨tokens, rfl, Except.ok.inj h, hcovers, hparser⟩

end FilterSql
