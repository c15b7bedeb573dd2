import FilterSql.Proofs.ParserSound

/-! A level reads every phrase it has room for, whatever follows that cannot be read on into the phrase,
and refuses every other phrase for its depth. -/
namespace FilterSql.Parser

open Grammar

def below (limit : Nat) : Nat → Option Level
  | 0 => none
  | room + 1 => some (level limit room)

theorem level_eq (limit room : Nat) : level limit room = .above limit (below limit room) := by
  cases room <;> rfl

theorem level_unary (limit room : Nat) :
    (level limit room).unary = unary limit (below limit room) := by
  rw [level_eq]
  rfl

theorem level_tail (limit room : Nat) (c : Connective) :
    (level limit room).tail c =
      chain limit (below limit room) c (fun l => l.operand c) (fun l => l.tail c) := by
  rw [level_eq, Level.tail_above]

theorem ok_bind (a : α) (f : α → Except ε β) : ((Except.ok a : Except ε α) >>= f) = f a := rfl

theorem error_bind (err : ε) (f : α → Except ε β) :
    ((Except.error err : Except ε α) >>= f) = .error err := rfl

/-- How loosely a token joins what stands before it to what follows. Nothing is joined by the loosest. -/
def looseness : Token.Kind → Nat
  | .symbol (.compare _) => 1
  | .symbol (.connect .and) => 2
  | .symbol (.connect .or) => 3
  | _ => 4

/-- The loosest tokens that are read on into a phrase. For a chain these are those of its operands: it
is not known to be at its end. -/
def reach : Phrase → Nat
  | .primary => 0
  | .comparison => 1
  | .unary => 1
  | .chain .and _ => 1
  | .conjunction => 2
  | .chain .or _ => 2
  | .disjunction => 3

def Ends (p : Phrase) (rest : List Token) : Prop := reach p < looseness (peek rest).kind

theorem reach_chain (c : Connective) (n : Nat) : reach (.chain c n) = reach (operand c) := by
  cases c <;> rfl

theorem ends_primary (rest : List Token) : Ends .primary rest := by
  show 0 < looseness (peek rest).kind
  unfold looseness
  split <;> omega

theorem ends_of_connective {sign : Token} (h : sign.kind = .symbol (.connect c)) (n : Nat)
    (rest : List Token) : Ends (.chain c n) (sign :: rest) := by
  unfold Ends
  rw [reach_chain, peek_cons, h]
  cases c <;> decide

theorem ends_of_closing {closing : Token} (p : Phrase)
    (h : closing.kind = .symbol .rightParen ∨ closing.kind = .symbol .comma) (rest : List Token) :
    Ends p (closing :: rest) := by
  have hp : reach p < 4 := by
    unfold reach
    split <;> omega
  rcases h with h | h <;> simpa [Ends, looseness, h] using hp

def reader (limit room : Nat) : Phrase → Parse Expr
  | .primary => primary limit (below limit room)
  | .comparison => comparison limit (below limit room)
  | .unary => (level limit room).unary
  | .chain c _ => (level limit room).whole c
  | .conjunction => (level limit room).andExpr
  | .disjunction => (level limit room).orExpr

/-- What is left to do once a phrase is read: a chain is read on, with a level entered for each of its
connectives. -/
def afterwards (limit room : Nat) : Phrase → Expr → Parse Expr
  | .chain c n => (level limit (room - n)).tail c
  | _ => fun e rest => .ok (e, rest)

theorem reader_operand (limit room : Nat) (c : Connective) :
    reader limit room (operand c) = (level limit room).operand c := by
  cases c <;> rfl

theorem afterwards_operand (limit room : Nat) (c : Connective) (e : Expr) (rest : List Token) :
    afterwards limit room (operand c) e rest = .ok (e, rest) := by
  cases c <;> rfl

theorem tail_of_ne {limit room : Nat} {c : Connective} {rest : List Token} (e : Expr)
    (h : (peek rest).kind ≠ .symbol (.connect c)) :
    (level limit room).tail c e rest = .ok (e, rest) := by
  rw [level_tail]
  simp [chain, h]

theorem tail_of_connective {limit room : Nat} {c : Connective} {sign : Token} (e : Expr)
    (h : sign.kind = .symbol (.connect c)) (ts : List Token) :
    (level limit (room + 1)).tail c e (sign :: ts) =
      (level limit room).operand c ts >>= fun (f, rest) =>
        (level limit room).tail c (.join c e f) rest := by
  rw [level_tail]
  simp only [chain, peek_cons, h, if_true]
  rfl

section Arguments

variable (argument : Parse Expr) (opening : Span) {closing : Token}

theorem arguments_complete (hsep : Separated args listed) (hne : args ≠ [])
    (hclose : closing.kind = .symbol .rightParen)
    (hall : ∀ a ∈ args, ∀ rest, Ends .disjunction rest →
      argument (a.tokens ++ rest) = .ok (a.expr, rest))
    (bound : Nat) (hbound : args.length ≤ bound) (rest : List Token) :
    arguments argument opening bound (listed ++ closing :: rest) =
      .ok ((args.map Argument.expr, closing.span), rest) := by
  induction hsep generalizing bound with
  | none => exact absurd rfl hne
  | last a =>
    obtain ⟨bound, rfl⟩ := Nat.exists_eq_add_one_of_ne_zero (n := bound) (by simp at hbound; omega)
    have hread := hall a (by simp) (closing :: rest) (ends_of_closing _ (.inl hclose) rest)
    rw [arguments, hread, ok_bind]
    simp [hclose]
  | @more b args listed comma a hcomma hsep ih =>
    obtain ⟨bound, rfl⟩ := Nat.exists_eq_add_one_of_ne_zero (n := bound) (by simp at hbound; omega)
    have hread := hall a (by simp) (comma :: (listed ++ closing :: rest))
      (ends_of_closing _ (.inr hcomma) _)
    have hmore := ih (by simp) (fun b hb => hall b (List.mem_cons_of_mem _ hb)) bound
      (by simpa using hbound)
    rw [List.append_assoc, List.cons_append, arguments, hread, ok_bind]
    simp only [peek_cons, hcomma, List.tail_cons, hmore, ok_bind, List.map_cons]

theorem arguments_refused (hsep : Separated args listed)
    (hall : ∀ a ∈ args, a.demand ≤ room → ∀ rest, Ends .disjunction rest →
      argument (a.tokens ++ rest) = .ok (a.expr, rest))
    (hdeep : ∀ a ∈ args, room < a.demand → ∀ rest, Ends .disjunction rest →
      ∃ span, argument (a.tokens ++ rest) = .error (.tooComplex (.depth limit) span))
    (hclose : closing.kind = .symbol .rightParen) (hroom : room < deepest args)
    (bound : Nat) (hbound : args.length ≤ bound) (rest : List Token) :
    ∃ span, arguments argument opening bound (listed ++ closing :: rest) =
      .error (.tooComplex (.depth limit) span) := by
  induction hsep generalizing bound with
  | none => simp at hroom
  | last a =>
    obtain ⟨bound, rfl⟩ := Nat.exists_eq_add_one_of_ne_zero (n := bound) (by simp at hbound; omega)
    have hroom : room < a.demand := by simpa using hroom
    obtain ⟨span, hread⟩ := hdeep a (by simp) hroom (closing :: rest)
      (ends_of_closing _ (.inl hclose) rest)
    exact ⟨span, by rw [arguments, hread, error_bind]⟩
  | @more b args listed comma a hcomma hsep ih =>
    obtain ⟨bound, rfl⟩ := Nat.exists_eq_add_one_of_ne_zero (n := bound) (by simp at hbound; omega)
    have hends := ends_of_closing .disjunction (.inr hcomma) (listed ++ closing :: rest)
    rw [List.append_assoc, List.cons_append, arguments]
    by_cases ha : room < a.demand
    · obtain ⟨span, hread⟩ := hdeep a (by simp) ha _ hends
      exact ⟨span, by rw [hread, error_bind]⟩
    · have hrest : room < deepest (b :: args) := by
        rw [deepest_cons] at hroom
        omega
      obtain ⟨span, hmore⟩ := ih (fun b hb => hall b (List.mem_cons_of_mem _ hb))
        (fun b hb => hdeep b (List.mem_cons_of_mem _ hb)) hrest bound
        (by simpa using hbound)
      refine ⟨span, ?_⟩
      rw [hall a (by simp) (by omega) _ hends, ok_bind]
      simp only [peek_cons, hcomma, List.tail_cons, hmore, error_bind]

end Arguments

/-- A level with room for a phrase reads it and nothing else. -/
def Accepted (limit : Nat) (p : Phrase) (ts : List Token) (e : Expr) (d : Nat) : Prop :=
  ∀ room rest, d ≤ room → Ends p rest →
    reader limit room p (ts ++ rest) = afterwards limit room p e rest

def Refused (limit : Nat) (p : Phrase) (ts : List Token) (d : Nat) : Prop :=
  ∀ room rest, room < d → Ends p rest →
    ∃ span, reader limit room p (ts ++ rest) = .error (.tooComplex (.depth limit) span)

theorem primary_call {limit room : Nat} {name opening : Token} (hname : name.kind = .call word)
    (hopen : opening.kind = .symbol .leftParen) (ts : List Token) :
    primary limit (below limit (room + 1)) (name :: opening :: ts) =
      match (peek ts).kind with
      | .symbol .rightParen => .ok (.call word [] (name.span.cover (peek ts).span), ts.tail)
      | _ => arguments (level limit room).orExpr opening.span ts.length ts >>=
          fun ((args, closing), rest) => .ok (.call word args (name.span.cover closing), rest) := by
  -- With the kinds of the tokens known, the reader is run.
  cases name
  cases opening
  cases hname
  cases hopen
  rfl

theorem primary_group {limit room : Nat} {opening : Token} (hopen : opening.kind = .symbol .leftParen)
    (ts : List Token) :
    primary limit (below limit (room + 1)) (opening :: ts) =
      (level limit room).orExpr ts >>= fun (listed, rest) =>
        match (peek rest).kind with
        | .symbol .rightParen => .ok (listed, rest.tail)
        | .finish => .error (.unclosedParen opening.span)
        | _ => .error (unexpected (peek rest) .rightParen) := by
  cases opening
  cases hopen
  rfl

theorem level_unary_not {limit room : Nat} {sign : Token} (h : sign.kind = .symbol .not)
    (ts : List Token) :
    (level limit (room + 1)).unary (sign :: ts) =
      (level limit room).unary ts >>= fun (e, rest) =>
        .ok (.not e (sign.span.cover e.span), rest) := by
  rw [level_unary]
  simp only [unary, below, enter, peek_cons, h, if_true, List.tail_cons, ok_bind]

theorem level_unary_positive {limit room : Nat} {ts : List Token}
    (h : (peek ts).kind ≠ .symbol .not) :
    (level limit room).unary ts = comparison limit (below limit room) ts := by
  rw [level_unary]
  simp [unary, h]

theorem not_closing_of_separated (hsep : Separated args listed) (hne : args ≠ [])
    (hall : ∀ a ∈ args, Derives .disjunction a.tokens a.expr a.demand) (ts : List Token) :
    (peek (listed ++ ts)).kind ≠ .symbol .rightParen := by
  have hhead : ∀ a ∈ args, ∀ us, (peek (a.tokens ++ us)).kind ≠ .symbol .rightParen := by
    intro a ha us hk
    obtain ⟨t, vs, hts, hb⟩ := (hall a ha).head
    rw [hts, List.cons_append, peek_cons] at hk
    simp [Phrase.Begins, hk, opensOperand] at hb
  cases hsep with
  | none => exact absurd rfl hne
  | last a => exact hhead a (by simp) ts
  | more a _ _ =>
    rw [List.append_assoc]
    exact hhead a (by simp) _

section

variable {limit : Nat}

theorem accepted_call {name opening closing : Token} (hname : name.kind = .call word)
    (hopen : opening.kind = .symbol .leftParen) (hclose : closing.kind = .symbol .rightParen)
    (hsep : Separated args listed)
    (hall : ∀ a ∈ args, Derives .disjunction a.tokens a.expr a.demand)
    (ih : ∀ a ∈ args, Accepted limit .disjunction a.tokens a.expr a.demand) :
    Accepted limit .primary (name :: opening :: (listed ++ [closing]))
      (.call word (args.map Argument.expr) (name.span.cover closing.span)) (1 + deepest args) := by
  intro room rest hroom _
  obtain ⟨room, rfl⟩ := Nat.exists_eq_add_one_of_ne_zero (n := room) (by omega)
  have hdeep : ∀ a ∈ args, a.demand ≤ room := deepest_le_iff.mp (by omega)
  simp only [reader, afterwards, List.cons_append, List.append_assoc, List.nil_append]
  rw [primary_call hname hopen]
  by_cases hne : args = []
  · subst hne
    cases hsep
    simp [hclose]
  · have hread := arguments_complete (level limit room).orExpr opening.span hsep hne hclose
      (fun a ha us => ih a ha room us (hdeep a ha)) _ (hsep.length_le_append closing rest) rest
    have hfirst := not_closing_of_separated hsep hne hall (closing :: rest)
    split
    · contradiction
    · rw [hread, ok_bind]

theorem refused_call {name opening closing : Token} (hname : name.kind = .call word)
    (hopen : opening.kind = .symbol .leftParen) (hclose : closing.kind = .symbol .rightParen)
    (hsep : Separated args listed)
    (hall : ∀ a ∈ args, Derives .disjunction a.tokens a.expr a.demand)
    (hacc : ∀ a ∈ args, Accepted limit .disjunction a.tokens a.expr a.demand)
    (ih : ∀ a ∈ args, Refused limit .disjunction a.tokens a.demand) :
    Refused limit .primary (name :: opening :: (listed ++ [closing])) (1 + deepest args) := by
  intro room rest hroom _
  simp only [reader, List.cons_append, List.append_assoc, List.nil_append]
  cases room with
  | zero =>
    refine ⟨opening.span, ?_⟩
    simp [primary, call, below, enter, hname, hopen, error_bind]
  | succ room =>
    have hdeep : room < deepest args := by omega
    have hne : args ≠ [] := by
      rintro rfl
      simp at hdeep
    rw [primary_call hname hopen]
    obtain ⟨span, hread⟩ := arguments_refused (level limit room).orExpr opening.span hsep
      (fun a ha hle us => hacc a ha room us hle) (fun a ha hlt us => ih a ha room us hlt) hclose hdeep
      _ (hsep.length_le_append closing rest) rest
    have hfirst := not_closing_of_separated hsep hne hall (closing :: rest)
    refine ⟨span, ?_⟩
    split
    · contradiction
    · rw [hread, error_bind]

theorem accepted_group {opening closing : Token} (hopen : opening.kind = .symbol .leftParen)
    (hclose : closing.kind = .symbol .rightParen) (ih : Accepted limit .disjunction ts e d) :
    Accepted limit .primary (opening :: (ts ++ [closing])) e (1 + d) := by
  intro room rest hroom _
  obtain ⟨room, rfl⟩ := Nat.exists_eq_add_one_of_ne_zero (n := room) (by omega)
  have hread := ih room (closing :: rest) (by omega) (ends_of_closing _ (.inl hclose) rest)
  simp only [reader, afterwards, List.cons_append, List.append_assoc, List.nil_append] at hread ⊢
  rw [primary_group hopen, hread, ok_bind]
  simp [hclose]

theorem refused_group {opening closing : Token} (hopen : opening.kind = .symbol .leftParen)
    (hclose : closing.kind = .symbol .rightParen) (ih : Refused limit .disjunction ts d) :
    Refused limit .primary (opening :: (ts ++ [closing])) (1 + d) := by
  intro room rest hroom _
  simp only [reader, List.cons_append, List.append_assoc, List.nil_append]
  cases room with
  | zero => exact ⟨opening.span, by simp [primary, group, below, enter, hopen, error_bind]⟩
  | succ room =>
    obtain ⟨span, hread⟩ := ih room (closing :: rest) (by omega) (ends_of_closing _ (.inl hclose) rest)
    simp only [reader] at hread
    exact ⟨span, by rw [primary_group hopen, hread, error_bind]⟩

theorem not_compare_of_ends {rest : List Token} (h : Ends .comparison rest) (operator : Comparison) :
    (peek rest).kind ≠ .symbol (.compare operator) := by
  intro hk
  simp [Ends, reach, looseness, hk] at h

theorem accepted_alone (ih : Accepted limit .primary ts e d) : Accepted limit .comparison ts e d := by
  intro room rest hroom hends
  have hread := ih room rest hroom (ends_primary rest)
  simp only [reader, afterwards] at hread ⊢
  rw [comparison, hread, ok_bind]
  dsimp only
  split
  · rename_i hk
    exact absurd hk (not_compare_of_ends hends _)
  · rfl

theorem accepted_compare {sign : Token} (hsign : sign.kind = .symbol (.compare operator))
    (ihl : Accepted limit .primary ts e d) (ihr : Accepted limit .primary us f b) :
    Accepted limit .comparison (ts ++ sign :: us) (.compare operator e f (e.span.cover f.span))
      (max d b) := by
  intro room rest hroom _
  have hleft := ihl room (sign :: (us ++ rest)) (by omega) (ends_primary _)
  have hright := ihr room rest (by omega) (ends_primary rest)
  simp only [reader, afterwards, List.append_assoc, List.cons_append] at hleft hright ⊢
  rw [comparison, hleft, ok_bind]
  simp only [peek_cons, hsign, List.tail_cons, hright, ok_bind]

theorem refused_alone (ih : Refused limit .primary ts d) : Refused limit .comparison ts d := by
  intro room rest hroom _
  obtain ⟨span, hread⟩ := ih room rest hroom (ends_primary rest)
  simp only [reader] at hread ⊢
  exact ⟨span, by rw [comparison, hread, error_bind]⟩

theorem refused_compare {sign : Token} (hsign : sign.kind = .symbol (.compare operator))
    (hacc : Accepted limit .primary ts e d) (ihl : Refused limit .primary ts d)
    (ihr : Refused limit .primary us b) :
    Refused limit .comparison (ts ++ sign :: us) (max d b) := by
  intro room rest hroom _
  simp only [reader, List.append_assoc, List.cons_append]
  by_cases hd : room < d
  · obtain ⟨span, hread⟩ := ihl room (sign :: (us ++ rest)) hd (ends_primary _)
    simp only [reader] at hread
    exact ⟨span, by rw [comparison, hread, error_bind]⟩
  · have hleft := hacc room (sign :: (us ++ rest)) (by omega) (ends_primary _)
    obtain ⟨span, hright⟩ := ihr room rest (by omega) (ends_primary rest)
    simp only [reader, afterwards] at hleft hright
    refine ⟨span, ?_⟩
    rw [comparison, hleft, ok_bind]
    simp only [peek_cons, hsign, List.tail_cons, hright, error_bind]

theorem accepted_not {sign : Token} (hsign : sign.kind = .symbol .not)
    (ih : Accepted limit .unary ts e d) :
    Accepted limit .unary (sign :: ts) (.not e (sign.span.cover e.span)) (1 + d) := by
  intro room rest hroom hends
  obtain ⟨room, rfl⟩ := Nat.exists_eq_add_one_of_ne_zero (n := room) (by omega)
  have hread := ih room rest (by omega) hends
  simp only [reader, afterwards, List.cons_append] at hread ⊢
  rw [level_unary_not hsign, hread, ok_bind]

theorem refused_not {sign : Token} (hsign : sign.kind = .symbol .not)
    (ih : Refused limit .unary ts d) : Refused limit .unary (sign :: ts) (1 + d) := by
  intro room rest hroom hends
  simp only [reader, List.cons_append]
  cases room with
  | zero =>
    refine ⟨sign.span, ?_⟩
    rw [level_unary]
    simp [unary, below, enter, hsign, error_bind]
  | succ room =>
    obtain ⟨span, hread⟩ := ih room rest (by omega) hends
    simp only [reader] at hread
    exact ⟨span, by rw [level_unary_not hsign, hread, error_bind]⟩

theorem not_negation_of_comparison (h : Derives .comparison ts e d) (rest : List Token) :
    (peek (ts ++ rest)).kind ≠ .symbol .not := by
  obtain ⟨t, us, rfl, hb⟩ := h.head
  intro hk
  rw [List.cons_append, peek_cons] at hk
  simp [Phrase.Begins, Phrase.negatable, hk, opensOperand] at hb

theorem accepted_positive (h : Derives .comparison ts e d) (ih : Accepted limit .comparison ts e d) :
    Accepted limit .unary ts e d := by
  intro room rest hroom hends
  have hread := ih room rest hroom hends
  simp only [reader, afterwards] at hread ⊢
  rw [level_unary_positive (not_negation_of_comparison h rest), hread]

theorem refused_positive (h : Derives .comparison ts e d) (ih : Refused limit .comparison ts d) :
    Refused limit .unary ts d := by
  intro room rest hroom hends
  obtain ⟨span, hread⟩ := ih room rest hroom hends
  simp only [reader] at hread ⊢
  exact ⟨span, by rw [level_unary_positive (not_negation_of_comparison h rest), hread]⟩

theorem ends_operand {rest : List Token} (h : Ends (.chain c n) rest) : Ends (operand c) rest := by
  unfold Ends at h ⊢
  rwa [← reach_chain c n]

theorem accepted_first (ih : Accepted limit (operand c) ts e d) :
    Accepted limit (.chain c 0) ts e d := by
  intro room rest hroom hends
  have hread := ih room rest hroom (ends_operand hends)
  rw [reader_operand, afterwards_operand] at hread
  simp only [reader, afterwards, Level.whole, hread, ok_bind, Nat.sub_zero]

theorem refused_first (ih : Refused limit (operand c) ts d) : Refused limit (.chain c 0) ts d := by
  intro room rest hroom hends
  obtain ⟨span, hread⟩ := ih room rest hroom (ends_operand hends)
  rw [reader_operand] at hread
  exact ⟨span, by simp only [reader, Level.whole, hread, error_bind]⟩

/-- Reading `n` connectives and one more takes the level down by `n` and one more. -/
theorem accepted_next {sign : Token} (hsign : sign.kind = .symbol (.connect c))
    (ihl : Accepted limit (.chain c n) ts e d) (ihr : Accepted limit (operand c) us f b) :
    Accepted limit (.chain c (n + 1)) (ts ++ sign :: us) (.join c e f) (max d (n + 1 + b)) := by
  intro room rest hroom hends
  have hleft := ihl room (sign :: (us ++ rest)) (by omega) (ends_of_connective hsign n _)
  have hright := ihr (room - (n + 1)) rest (by omega) (ends_operand hends)
  rw [reader_operand, afterwards_operand] at hright
  simp only [reader, afterwards, List.append_assoc, List.cons_append] at hleft ⊢
  rw [hleft, show room - n = room - (n + 1) + 1 by omega, tail_of_connective e hsign, hright, ok_bind]

theorem refused_next {sign : Token} (hsign : sign.kind = .symbol (.connect c))
    (hacc : Accepted limit (.chain c n) ts e d) (ihl : Refused limit (.chain c n) ts d)
    (ihr : Refused limit (operand c) us b) :
    Refused limit (.chain c (n + 1)) (ts ++ sign :: us) (max d (n + 1 + b)) := by
  intro room rest hroom hends
  have hsignEnds := ends_of_connective hsign n (us ++ rest)
  simp only [reader, List.append_assoc, List.cons_append]
  by_cases hd : room < d
  · exact ihl room (sign :: (us ++ rest)) hd hsignEnds
  · have hleft := hacc room (sign :: (us ++ rest)) (by omega) hsignEnds
    simp only [reader, afterwards] at hleft
    rw [hleft]
    -- With no level left the connective itself is refused, else the operand behind it.
    cases hlevels : room - n with
    | zero =>
      refine ⟨sign.span, ?_⟩
      rw [level_tail]
      simp [chain, below, enter, hsign, error_bind]
    | succ r =>
      obtain ⟨span, hright⟩ := ihr r rest (by omega) (ends_operand hends)
      rw [reader_operand] at hright
      exact ⟨span, by rw [tail_of_connective e hsign, hright, error_bind]⟩

theorem accepted_conjunction (ih : Accepted limit (.chain .and n) ts e d) :
    Accepted limit .conjunction ts e d := by
  intro room rest hroom hends
  have hlast : (peek rest).kind ≠ .symbol (.connect .and) := by
    intro hk
    simp [Ends, reach, looseness, hk] at hends
  have hread := ih room rest hroom (Nat.lt_trans (by decide : 1 < 2) hends)
  simp only [reader, afterwards] at hread ⊢
  rw [← tail_of_ne e hlast]
  exact hread

theorem accepted_disjunction (ih : Accepted limit (.chain .or n) ts e d) :
    Accepted limit .disjunction ts e d := by
  intro room rest hroom hends
  have hlast : (peek rest).kind ≠ .symbol (.connect .or) := by
    intro hk
    simp [Ends, reach, looseness, hk] at hends
  have hread := ih room rest hroom (Nat.lt_trans (by decide : 2 < 3) hends)
  simp only [reader, afterwards] at hread ⊢
  rw [← tail_of_ne e hlast]
  exact hread

end

/-- Completeness: a phrase is read by every level with room for it. -/
theorem accepted_of_derives (limit : Nat) (h : Derives p ts e d) : Accepted limit p ts e d := by
  induction h with
  | literal hk =>
    intro room rest _ _
    simp [reader, afterwards, primary, hk]
  | name hk =>
    intro room rest _ _
    simp [reader, afterwards, primary, hk]
  | call hname hopen hclose hsep hall ih => exact accepted_call hname hopen hclose hsep hall ih
  | group hopen hclose _ ih => exact accepted_group hopen hclose ih
  | alone _ ih => exact accepted_alone ih
  | compare hsign _ _ ihl ihr => exact accepted_compare hsign ihl ihr
  | not hsign _ ih => exact accepted_not hsign ih
  | positive h ih => exact accepted_positive h ih
  | first _ ih => exact accepted_first ih
  | next hsign _ _ ihl ihr => exact accepted_next hsign ihl ihr
  | conjunction _ ih => exact accepted_conjunction ih
  | disjunction _ ih => exact accepted_disjunction ih

/-- A phrase is refused for its depth by every level without room for it. -/
theorem refused_of_derives (limit : Nat) (h : Derives p ts e d) : Refused limit p ts d := by
  induction h with
  | literal _ =>
    intro room rest hroom
    omega
  | name _ =>
    intro room rest hroom
    omega
  | call hname hopen hclose hsep hall ih =>
    exact refused_call hname hopen hclose hsep hall
      (fun a ha => accepted_of_derives limit (hall a ha)) ih
  | group hopen hclose _ ih => exact refused_group hopen hclose ih
  | alone _ ih => exact refused_alone ih
  | compare hsign hl _ ihl ihr =>
    exact refused_compare hsign (accepted_of_derives limit hl) ihl ihr
  | not hsign _ ih => exact refused_not hsign ih
  | positive h ih => exact refused_positive h ih
  | first _ ih => exact refused_first ih
  | next hsign hl _ ihl ihr => exact refused_next hsign (accepted_of_derives limit hl) ihl ihr
  | conjunction _ ih =>
    intro room rest hroom hends
    exact ih room rest hroom (Nat.lt_trans (by decide : 1 < 2) hends)
  | disjunction _ ih =>
    intro room rest hroom hends
    exact ih room rest hroom (Nat.lt_trans (by decide : 2 < 3) hends)

end FilterSql.Parser
