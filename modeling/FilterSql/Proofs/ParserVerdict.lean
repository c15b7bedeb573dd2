import FilterSql.Proofs.Verdict

/-! The verdicts of the parser. Each reader, with the level below it decided, is decided too: whatever the room
for nesting, it reads the same tokens and complains of the same one, unless it lacks the room. -/
namespace FilterSql.Parser

open Grammar

/-- A level that complains at the end of a stream and otherwise reads at least one token. -/
structure Level.Steady (level : Level) : Prop where
  ended : ∀ {ts}, (peek ts).kind = .finish → level.orExpr ts = .error (.unexpectedEnd .primary (peek ts).span)
  shorter : ∀ {ts e rest}, level.orExpr ts = .ok (e, rest) → rest.length < ts.length

theorem level_steady (limit room : Nat) : (level limit room).Steady where
  ended := by
    intro ts hk
    have hunary : (level limit room).unary ts = .error (.unexpectedEnd .primary (peek ts).span) := by
      rw [level_unary]
      simp [unary, comparison, primary, hk, error_bind]
    rw [Level.orExpr, Level.andExpr, hunary]
    rfl
  shorter := by
    intro ts e rest h
    obtain ⟨us, d, rfl, hd, -⟩ := (level_sound limit room).orExpr h
    obtain ⟨t, us, rfl, -⟩ := hd.head
    rw [List.length_append, List.length_cons]
    omega

def afterArgument (more : Parse (List Expr × Span)) (opening : Span) (first : Expr) :
    Parse (List Expr × Span) := fun ts =>
  match (peek ts).kind with
  | .symbol .comma => more ts.tail >>= fun (listed, rest) => .ok ((first :: listed.1, listed.2), rest)
  | .symbol .rightParen => .ok (([first], (peek ts).span), ts.tail)
  | .finish => .error (.unclosedParen opening)
  | _ => .error (unexpected (peek ts) .commaOrRightParen)

def Level.arguments (level : Level) (opening : Span) : Parse (List Expr × Span) := fun ts =>
  Parser.arguments level.orExpr opening ts.length ts

namespace Level.Steady

variable {level : Level}

theorem arguments_add_one (h : level.Steady) (opening : Span) {bound : Nat} {ts : List Token}
    (hbound : ts.length ≤ bound) :
    Parser.arguments level.orExpr opening (bound + 1) ts = Parser.arguments level.orExpr opening bound ts := by
  induction bound generalizing ts with
  | zero =>
    obtain rfl : ts = [] := List.length_eq_zero_iff.mp (by omega)
    have hended : level.orExpr [] = .error (.unexpectedEnd .primary (peek []).span) := h.ended rfl
    simp only [Parser.arguments, hended, error_bind]
  | succ bound ih =>
    rw [Parser.arguments, Parser.arguments]
    cases hread : level.orExpr ts with
    | error err => rfl
    | ok result =>
      obtain ⟨first, rest⟩ := result
      have hshorter := h.shorter hread
      simp only [ok_bind]
      rw [@ih rest.tail (by rw [List.length_tail]; omega)]

/-- The bound on the number of arguments is never met. -/
theorem arguments_bound (h : level.Steady) (opening : Span) {bound : Nat} {ts : List Token}
    (hbound : ts.length ≤ bound) :
    Parser.arguments level.orExpr opening bound ts = level.arguments opening ts := by
  induction hbound with
  | refl => rfl
  | step hle ih => rw [h.arguments_add_one opening hle, ih]

theorem arguments_eq (h : level.Steady) (opening : Span) (ts : List Token) :
    level.arguments opening ts =
      level.orExpr ts >>= fun (first, rest) => afterArgument (level.arguments opening) opening first rest := by
  rw [← h.arguments_bound opening (Nat.le_succ ts.length), Parser.arguments]
  cases hread : level.orExpr ts with
  | error err => rfl
  | ok result =>
    obtain ⟨first, rest⟩ := result
    have hshorter := h.shorter hread
    simp only [ok_bind]
    rw [h.arguments_bound opening (show rest.tail.length ≤ ts.length by rw [List.length_tail]; omega)]
    rfl

end Level.Steady

/-- The verdicts of a level are those of another, which may have more levels below. -/
structure Level.Decides (level level' : Level) : Prop where
  steady : level.Steady
  steady' : level'.Steady
  unary : ∀ ts, Verdict (Spells .unary) level'.unary [] ts (level.unary ts)
  tail : ∀ {c pre left} ts, Chained c pre left →
    Verdict (Chained c) (level'.tail c left) pre ts (level.tail c left ts)

def DecidesBelow (deeper deeper' : Option Level) : Prop :=
  ∀ level, deeper = some level → ∃ level', deeper' = some level' ∧ level.Decides level'

namespace Level.Decides

variable {level level' : Level}

theorem whole (h : level.Decides level') {c : Connective}
    (hop : ∀ ts, Verdict (Spells (Grammar.operand c)) (level'.operand c) [] ts (level.operand c ts))
    (ts : List Token) : Verdict (Chained c) (level'.whole c) [] ts (level.whole c ts) := by
  have hchain : ∀ us e, Spells (Grammar.operand c) us e → Chained c us e := by
    rintro us e ⟨d, hd⟩
    exact ⟨0, d, .first hd⟩
  refine (hop ts).bind (level'.tail c) (level.tail c) ?_ ?_
  · intro us e he
    exact ⟨[], e, by simpa using hchain us e he⟩
  · intro us e rest _ he
    exact h.tail rest (hchain _ e he)

theorem operand (h : level.Decides level') (c : Connective) (ts : List Token) :
    Verdict (Spells (Grammar.operand c)) (level'.operand c) [] ts (level.operand c ts) := by
  cases c with
  | and => exact h.unary ts
  | or =>
    refine (h.whole (c := .and) h.unary ts).imp ?_
    rintro us e ⟨n, d, hd⟩
    exact ⟨d, .conjunction hd⟩

theorem orExpr (h : level.Decides level') (ts : List Token) :
    Verdict (Spells .disjunction) level'.orExpr [] ts (level.orExpr ts) := by
  refine (h.whole (h.operand .or) ts).imp ?_
  rintro us e ⟨n, d, hd⟩
  exact ⟨d, .disjunction hd⟩

end Level.Decides

section Readers

variable (limit limit' : Nat) {deeper deeper' : Option Level}

theorem Verdict.enter {Whole : List Token → α → Prop} {again : Parse α} {pre : List Token} (ts : List Token)
    {f : Level → Except ParseError (α × List Token)} (h : DecidesBelow deeper deeper')
    (hk : (peek ts).kind ≠ .finish)
    (hf : ∀ level level', deeper' = some level' → level.Decides level' → Verdict Whole again pre ts (f level)) :
    Verdict Whole again pre ts (Parser.enter limit deeper (peek ts).span >>= f) := by
  cases deeper with
  | none => exact .refused [] ts limit rfl hk
  | some level =>
    obtain ⟨level', hlevel', hdecides⟩ := h level rfl
    exact hf level level' hlevel' hdecides

theorem spells_name : Spells .primary [.bare (.name "a")] (.field (.ofText "a") ⟨0, 0, 0, 0⟩) := ⟨0, .name rfl⟩

theorem begun_primary : Begun (Spells .primary) [] := ⟨_, _, by simp, spells_name⟩

def groupEnd (opening : Span) (inner : Expr) : Parse Expr := fun ts =>
  match (peek ts).kind with
  | .symbol .rightParen => .ok (inner, ts.tail)
  | .finish => .error (.unclosedParen opening)
  | _ => .error (unexpected (peek ts) .rightParen)

theorem verdict_groupEnd {opening : Token} (hopen : opening.kind = .symbol .leftParen) {us : List Token}
    {e : Expr} (he : Spells .disjunction us e) (ts : List Token) :
    Verdict (Spells .primary) (groupEnd opening.span e) (opening :: us) ts (groupEnd opening.span e ts) := by
  obtain ⟨d, hd⟩ := he
  have hbegun : Begun (Spells .primary) (opening :: us) :=
    ⟨[.bare (.symbol .rightParen)], e, by simp, 1 + d, .group hopen rfl hd⟩
  unfold groupEnd
  split
  case h_1 hk =>
    obtain ⟨closing, rest, rfl, hclose⟩ := exists_cons_of_peek hk (by simp)
    refine Verdict.cons (.done ⟨1 + d, .group hopen hclose hd⟩ fun _ _ => rfl) fun rest' => ?_
    simp [hclose]
  case h_2 hfinish =>
    have hinner : Innermost (opening :: us) opening := (Innermost.concat [] hopen).append_right hd.foldl_pairing
    refine .fail hbegun ⟨hfinish, opening, hinner, rfl⟩ fun rest' hsame => ?_
    simp [hsame, hfinish]
  case h_3 hclose hfinish =>
    refine .fail hbegun ⟨rfl, rfl⟩ fun rest' hsame => ?_
    rw [hsame]
    split
    · contradiction
    · contradiction
    · rfl

theorem verdict_group (h : DecidesBelow deeper deeper') {opening : Token}
    (hopen : opening.kind = .symbol .leftParen) (ts : List Token) :
    Verdict (Spells .primary) (primary limit' deeper') [] (opening :: ts)
      (group limit deeper opening.span ts) := by
  refine Verdict.enter limit (opening :: ts) h (by simp [hopen]) fun level level' hlevel' hlevel => ?_
  subst hlevel'
  refine Verdict.cons (((hlevel.orExpr ts).shift [opening]).bind (groupEnd opening.span)
    (groupEnd opening.span) ?_ ?_) fun rest => ?_
  · rintro us e ⟨vs, rfl, d, hd⟩
    exact ⟨[.bare (.symbol .rightParen)], e, 1 + d, .group hopen rfl hd⟩
  · rintro us e rest - ⟨vs, hvs, he⟩
    obtain rfl : us = vs := by simpa using hvs
    exact verdict_groupEnd hopen he rest
  · simp only [primary, peek_cons, hopen, List.tail_cons, group, Parser.enter, ok_bind]
    rfl

inductive Listed : List Token → List Expr × Span → Prop where
  | last {closing : Token} : Spells .disjunction us e → closing.kind = .symbol .rightParen →
      Listed (us ++ [closing]) ([e], closing.span)
  | more {comma : Token} : Spells .disjunction us e → comma.kind = .symbol .comma → Listed vs (es, closing) →
      Listed (us ++ comma :: vs) (e :: es, closing)

theorem Listed.separated (h : Listed us r) :
    ∃ args listed closing, us = listed ++ [closing] ∧ closing.kind = .symbol .rightParen ∧ closing.span = r.2 ∧
      args.map Argument.expr = r.1 ∧ args ≠ [] ∧ Separated args listed ∧
      ∀ a ∈ args, Derives .disjunction a.tokens a.expr a.demand := by
  induction h with
  | @last us e closing he hclose =>
    obtain ⟨d, hd⟩ := he
    exact ⟨[⟨us, e, d⟩], us, closing, rfl, hclose, rfl, rfl, by simp, .last _, by simpa using hd⟩
  | @more us e vs es closing comma he hcomma _ ih =>
    obtain ⟨d, hd⟩ := he
    obtain ⟨args, listed, close, rfl, hclose, hspan, hexprs, hne, hsep, hall⟩ := ih
    obtain ⟨b, args, rfl⟩ := List.exists_cons_of_ne_nil hne
    refine ⟨⟨us, e, d⟩ :: b :: args, us ++ comma :: listed, close, by simp, hclose, hspan, ?_, by simp,
      .more _ hcomma hsep, List.forall_mem_cons.mpr ⟨hd, hall⟩⟩
    rw [List.map_cons, hexprs]

theorem Listed.call {name opening : Token} (hname : name.kind = .call word)
    (hopen : opening.kind = .symbol .leftParen) (h : Listed us r) :
    Spells .primary (name :: opening :: us) (.call word r.1 (name.span.cover r.2)) := by
  obtain ⟨args, listed, closing, rfl, hclose, hspan, hexprs, -, hsep, hall⟩ := h.separated
  rw [← hspan, ← hexprs]
  exact ⟨_, .call hname hopen hclose hsep hall⟩

section Arguments

variable {level level' : Level} {opening : Token} {pre us : List Token} {e : Expr}

theorem verdict_afterArgument {more more' : Parse (List Expr × Span)} (hinner : Innermost pre opening)
    (he : Spells .disjunction us e) (ts : List Token)
    (hmore : ∀ pre rest, rest.length < ts.length → Innermost pre opening →
      Verdict (Behind pre Listed) more' pre rest (more rest)) :
    Verdict (Behind pre Listed) (afterArgument more' opening.span e) (pre ++ us) ts
      (afterArgument more opening.span e ts) := by
  obtain ⟨d, hd⟩ := he
  have hbegun : Begun (Behind pre Listed) (pre ++ us) :=
    ⟨[.bare (.symbol .rightParen)], _, by simp, us ++ [.bare (.symbol .rightParen)], by simp, .last ⟨d, hd⟩ rfl⟩
  unfold afterArgument
  split
  case h_1 hk =>
    obtain ⟨comma, rest, rfl, hcomma⟩ := exists_cons_of_peek hk (by simp)
    have hlast : Innermost (pre ++ us ++ [comma]) opening :=
      (hinner.append_right hd.foldl_pairing).append_right fun opened => by simp [pairing, hcomma]
    have hlisted : ∀ vs listed, Behind (pre ++ us ++ [comma]) Listed vs listed →
        Behind pre Listed vs (e :: listed.1, listed.2) := by
      rintro vs listed ⟨ws, rfl, hws⟩
      exact ⟨us ++ comma :: ws, by simp, .more ⟨d, hd⟩ hcomma hws⟩
    have hread := (hmore _ rest (by simp) hlast).map (fun listed => (e :: listed.1, listed.2)) hlisted
    refine Verdict.cons hread fun rest' => ?_
    simp [hcomma]
  case h_2 hk =>
    obtain ⟨closing, rest, rfl, hclose⟩ := exists_cons_of_peek hk (by simp)
    refine Verdict.cons (.done ⟨us ++ [closing], by simp, .last ⟨d, hd⟩ hclose⟩ fun _ _ => rfl) fun rest' => ?_
    simp [hclose]
  case h_3 hfinish =>
    refine .fail hbegun ⟨hfinish, opening, hinner.append_right hd.foldl_pairing, rfl⟩ fun rest' hsame => ?_
    simp [hsame, hfinish]
  case h_4 hcomma hclose hfinish =>
    refine .fail hbegun ⟨rfl, rfl⟩ fun rest' hsame => ?_
    rw [hsame]
    split
    · contradiction
    · contradiction
    · contradiction
    · rfl

theorem verdict_arguments (h : level.Decides level') (hinner : Innermost pre opening) (ts : List Token) :
    Verdict (Behind pre Listed) (level'.arguments opening.span) pre ts (level.arguments opening.span ts) := by
  -- An argument has at least one token, so there are fewer behind its comma.
  induction hlength : ts.length using Nat.strongRecOn generalizing pre ts with
  | ind n ih =>
    subst hlength
    rw [h.steady.arguments_eq]
    refine (((h.orExpr ts).shift pre).bind (afterArgument (level'.arguments opening.span) opening.span)
      (afterArgument (level.arguments opening.span) opening.span) ?_ ?_).congr
      fun ts' _ => h.steady'.arguments_eq opening.span ts'
    · rintro us e ⟨vs, rfl, he⟩
      exact ⟨[.bare (.symbol .rightParen)], _, vs ++ [.bare (.symbol .rightParen)], by simp, .last he rfl⟩
    · rintro us e rest rfl ⟨vs, hvs, he⟩
      obtain rfl : us = vs := List.append_cancel_left hvs
      refine verdict_afterArgument hinner he rest fun pre' rest' hshorter hinner' => ?_
      exact ih _ (by rw [List.length_append]; omega) hinner' rest' rfl

def callRest (level : Level) (word : String) (name opening : Span) : Parse Expr := fun ts =>
  match (peek ts).kind with
  | .symbol .rightParen => .ok (.call word [] (name.cover (peek ts).span), ts.tail)
  | _ => level.arguments opening ts >>= fun (listed, rest) =>
      .ok (.call word listed.1 (name.cover listed.2), rest)

theorem verdict_callRest (h : level.Decides level') {name : Token} (hname : name.kind = .call word)
    (hopen : opening.kind = .symbol .leftParen) (ts : List Token) :
    Verdict (Spells .primary) (callRest level' word name.span opening.span) [name, opening] ts
      (callRest level word name.span opening.span ts) := by
  unfold callRest
  split
  case h_1 hk =>
    obtain ⟨closing, rest, rfl, hclose⟩ := exists_cons_of_peek hk (by simp)
    refine Verdict.cons (.done ⟨1, .call hname hopen hclose .none (by simp)⟩ fun _ _ => rfl) fun rest' => ?_
    simp [hclose]
  case h_2 hclose =>
    have hinner : Innermost [name, opening] opening := .concat [name] hopen
    refine ((verdict_arguments h hinner ts).map
      (fun listed => Expr.call word listed.1 (name.span.cover listed.2)) ?_).congr fun ts' hk => ?_
    · rintro us listed ⟨vs, rfl, hvs⟩
      exact hvs.call hname hopen
    · rw [hk]
      split
      · contradiction
      · rfl

end Arguments

theorem verdict_call (h : DecidesBelow deeper deeper') {name : Token} (hname : name.kind = .call word)
    (ts : List Token) :
    Verdict (Spells .primary) (primary limit' deeper') [] (name :: ts)
      (call limit deeper word name.span ts) := by
  have hread : Verdict (Spells .primary) (call limit' deeper' word name.span) [name] ts
      (call limit deeper word name.span ts) := by
    by_cases hk : (peek ts).kind = .symbol .leftParen
    · obtain ⟨opening, rest, rfl, hopen⟩ := exists_cons_of_peek hk (by simp)
      unfold call
      dsimp only
      rw [if_neg (not_not_intro hk)]
      refine Verdict.enter limit (opening :: rest) h (by simp [hopen]) fun level level' hlevel' hlevel => ?_
      refine Verdict.cons (verdict_callRest hlevel hname hopen rest) fun rest' => ?_
      rw [peek_cons, if_neg (not_not_intro hopen), hlevel']
      rfl
    · have hbegun : Begun (Spells .primary) [name] :=
        ⟨[.bare (.symbol .leftParen), .bare (.symbol .rightParen)], _, by simp,
          1, .call hname rfl rfl .none (by simp)⟩
      unfold call
      dsimp only
      rw [if_pos hk]
      refine .fail hbegun ⟨rfl, rfl⟩ fun rest' hsame => ?_
      rw [hsame, if_pos hk]
  refine Verdict.cons hread fun rest => ?_
  simp only [primary, peek_cons, hname, List.tail_cons]

theorem verdict_primary (h : DecidesBelow deeper deeper') (ts : List Token) :
    Verdict (Spells .primary) (primary limit' deeper') [] ts (primary limit deeper ts) := by
  unfold primary
  dsimp only
  split
  case h_1 value hk =>
    obtain ⟨token, rest, rfl, htoken⟩ := exists_cons_of_peek hk (by simp)
    refine Verdict.cons (.done ⟨0, .literal htoken⟩ fun _ _ => rfl) fun rest' => ?_
    simp [htoken]
  case h_2 word hk =>
    obtain ⟨token, rest, rfl, htoken⟩ := exists_cons_of_peek hk (by simp)
    refine Verdict.cons (.done ⟨0, .name htoken⟩ fun _ _ => rfl) fun rest' => ?_
    simp [htoken]
  case h_3 word hk =>
    obtain ⟨name, rest, rfl, hname⟩ := exists_cons_of_peek hk (by simp)
    exact verdict_call limit limit' h hname rest
  case h_4 hk =>
    obtain ⟨opening, rest, rfl, hopen⟩ := exists_cons_of_peek hk (by simp)
    exact verdict_group limit limit' h hopen rest
  case h_5 hfinish =>
    refine .fail begun_primary ⟨hfinish, rfl⟩ fun rest' hsame => ?_
    simp [hsame, hfinish]
  case h_6 sign hopen hk =>
    refine .fail begun_primary ⟨rfl, rfl⟩ fun rest' hsame => ?_
    simp only [hsame, hk]

def comparisonRest (limit : Nat) (deeper : Option Level) (left : Expr) : Parse Expr := fun ts =>
  match (peek ts).kind with
  | .symbol (.compare operator) => primary limit deeper ts.tail >>= fun (right, rest) =>
      .ok (.compare operator left right (left.span.cover right.span), rest)
  | _ => .ok (left, ts)

theorem verdict_comparisonRest (h : DecidesBelow deeper deeper') (hleft : Spells .primary us left)
    (ts : List Token) :
    Verdict (Spells .comparison) (comparisonRest limit' deeper' left) us ts
      (comparisonRest limit deeper left ts) := by
  obtain ⟨d, hd⟩ := hleft
  unfold comparisonRest
  split
  case h_1 operator hk =>
    obtain ⟨sign, rest, rfl, hsign⟩ := exists_cons_of_peek hk (by simp)
    refine Verdict.cons (((verdict_primary limit limit' h rest).shift (us ++ [sign])).map
      (fun right => Expr.compare operator left right (left.span.cover right.span)) ?_) fun rest' => ?_
    · rintro vs right ⟨ws, rfl, b, hb⟩
      exact ⟨max d b, by simpa using Derives.compare hsign hd hb⟩
    · simp [hsign]
  case h_2 hk =>
    refine .done ⟨d, .alone hd⟩ fun rest' hsame => ?_
    rw [hsame]
    split
    case h_1 operator hcompare => exact absurd hcompare (hk operator)
    case h_2 => rfl

theorem verdict_comparison (h : DecidesBelow deeper deeper') (ts : List Token) :
    Verdict (Spells .comparison) (comparison limit' deeper') [] ts (comparison limit deeper ts) := by
  refine (verdict_primary limit limit' h ts).bind (comparisonRest limit' deeper')
    (comparisonRest limit deeper) ?_ ?_
  · rintro us left ⟨d, hd⟩
    exact ⟨[], left, d, by simpa using Derives.alone hd⟩
  · intro us left rest _ hleft
    exact verdict_comparisonRest limit limit' h hleft rest

theorem verdict_unary (h : DecidesBelow deeper deeper') (ts : List Token) :
    Verdict (Spells .unary) (unary limit' deeper') [] ts (unary limit deeper ts) := by
  unfold unary
  dsimp only
  by_cases hk : (peek ts).kind = .symbol .not
  · rw [if_pos hk]
    refine Verdict.enter limit ts h (by simp [hk]) fun level level' hlevel' hlevel => ?_
    obtain ⟨sign, rest, rfl, hsign⟩ := exists_cons_of_peek hk (by simp)
    refine Verdict.cons (((hlevel.unary rest).shift [sign]).map
      (fun operand => Expr.not operand (sign.span.cover operand.span)) ?_) fun rest' => ?_
    · rintro us operand ⟨vs, rfl, d, hd⟩
      exact ⟨1 + d, .not hsign hd⟩
    · simp [hsign, hlevel', Parser.enter, ok_bind]
  · rw [if_neg hk]
    have hpositive : ∀ us e, Spells .comparison us e → Spells .unary us e := by
      rintro us e ⟨d, hd⟩
      exact ⟨d, .positive hd⟩
    refine ((verdict_comparison limit limit' h ts).imp hpositive).congr fun ts' hsame => ?_
    rw [if_neg (hsame ▸ hk)]

theorem verdict_chain (h : DecidesBelow deeper deeper') {c : Connective} {pre : List Token} {left : Expr}
    (hleft : Chained c pre left) (ts : List Token) :
    Verdict (Chained c) (chain limit' deeper' c (fun l => l.operand c) (fun l => l.tail c) left) pre ts
      (chain limit deeper c (fun l => l.operand c) (fun l => l.tail c) left ts) := by
  unfold chain
  dsimp only
  by_cases hk : (peek ts).kind = .symbol (.connect c)
  · rw [if_pos hk]
    refine Verdict.enter limit ts h (by simp [hk]) fun level level' hlevel' hlevel => ?_
    obtain ⟨sign, rest, rfl, hsign⟩ := exists_cons_of_peek hk (by simp)
    obtain ⟨n, d, hd⟩ := hleft
    have hjoin : ∀ us right, Behind (pre ++ [sign]) (Spells (operand c)) us right →
        Chained c us (.join c left right) := by
      rintro us right ⟨vs, rfl, b, hb⟩
      exact ⟨n + 1, _, by simpa using Derives.next hsign hd hb⟩
    refine Verdict.cons (((hlevel.operand c rest).shift (pre ++ [sign])).bind
      (fun right => level'.tail c (.join c left right)) (fun right => level.tail c (.join c left right))
      ?_ ?_) fun rest' => ?_
    · intro us right hright
      exact ⟨[], _, by simpa using hjoin us right hright⟩
    · intro us right rest' _ hright
      exact hlevel.tail rest' (hjoin _ right hright)
    · simp [hsign, hlevel', Parser.enter, ok_bind]
  · rw [if_neg hk]
    refine .done hleft fun rest' hsame => ?_
    rw [if_neg (hsame ▸ hk)]

theorem level_decides (limit limit' : Nat) {room room' : Nat} (h : room ≤ room') :
    (level limit room).Decides (level limit' room') := by
  have hbelow : DecidesBelow (below limit room) (below limit' room') := by
    cases room with
    | zero =>
      intro level hlevel
      cases hlevel
    | succ room =>
      obtain ⟨room', rfl⟩ := Nat.exists_eq_add_one_of_ne_zero (n := room') (by omega)
      intro level hlevel
      cases hlevel
      exact ⟨_, rfl, level_decides limit limit' (by omega)⟩
  refine ⟨level_steady limit room, level_steady limit' room', fun ts => ?_, fun ts hleft => ?_⟩
  · rw [level_unary, level_unary]
    exact verdict_unary limit limit' hbelow ts
  · rw [level_tail, level_tail]
    exact verdict_chain limit limit' hbelow hleft ts

end Readers

end FilterSql.Parser
