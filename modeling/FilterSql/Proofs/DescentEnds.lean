import FilterSql.Proofs.Descent

/-! Every walk of the parser's routines ends as the parser for one level does on the tokens ahead: given room
for its calls it comes to an end, without a fault, and where it succeeds it stands further on in the stream
with the counter where it was. -/
namespace FilterSql

namespace Parser

namespace Level

def listed (level : Level) (opening : Span) : Parse (List Expr × Span) := fun ts =>
  match (peek ts).kind with
  | .symbol .rightParen => .ok (([], (peek ts).span), ts.tail)
  | _ => arguments level.orExpr opening ts.length ts

end Level

theorem call_eq (limit : Nat) (deeper : Option Level) (function : String) (name : Span)
    (ts : List Token) :
    call limit deeper function name ts =
      if (peek ts).kind ≠ .symbol .leftParen then .error (unexpected (peek ts) .leftParen)
      else enter limit deeper (peek ts).span >>= fun level =>
        level.listed (peek ts).span ts.tail >>= fun ((args, closing), rest) =>
          .ok (.call function args (name.cover closing), rest) := by
  unfold call Level.listed
  dsimp only
  congr
  funext level
  cases (peek ts.tail).kind with
  | symbol sign => cases sign <;> rfl
  | _ => rfl

end Parser

namespace Descent

/-- A walk ends as it should, given how the parse of the tokens ahead ends: with the same result before
the same rest, having come to `least` at least and not past the last token, with the counter at `depth`;
or with the same refusal, wherever the cursor is then. The counter has not been above `top`. -/
inductive Ends (tokens : List Token) (least depth top : Nat) :
    Except ParseError (α × List Token) → EStateM.Result Stop Cursor α → Prop where
  | read {c : Cursor} : least ≤ c.position → c.position ≤ tokens.length → c.depth = depth →
      c.peak ≤ top → Ends tokens least depth top (.ok (a, c.ahead tokens)) (.ok a c)
  | refused {c : Cursor} : c.peak ≤ top → Ends tokens least depth top (.error e) (.error (.refused e) c)

def nested : Connective → Nat
  | .and => 4
  | .or => 6

/-- The routines that stand at one level end as the level's own parsers do. Reading a chain on leaves
the levels that its connectives have opened so far. -/
structure Agrees (limit : Nat) (tokens : List Token) (top : Nat) (level : Parser.Level) (depth : Nat) :
    Prop where
  unary : ∀ (c : Cursor) (calls : Nat), c.depth = depth → c.peak ≤ top →
    c.need tokens limit + 3 < calls →
    Ends tokens (c.position + 1) depth top (level.unary (c.ahead tokens)) ((unary limit tokens calls).run c)
  tail : ∀ (c : Cursor) (connective : Connective) (left : Expr) (chained calls : Nat), c.depth = depth →
    c.peak ≤ top → c.position ≤ tokens.length → chained ≤ depth → c.need tokens limit < calls →
    Ends tokens c.position (depth - chained) top (level.tail connective left (c.ahead tokens))
      ((chainOn limit tokens calls connective left chained).run c)

/-- There is a level below just if the counter may still be raised. -/
inductive AgreesBelow (limit : Nat) (tokens : List Token) (top : Nat) :
    Option Parser.Level → Nat → Prop where
  | bottom : limit ≤ depth → depth < top → AgreesBelow limit tokens top none depth
  | level : depth < limit → limit < top → Agrees limit tokens top level (depth + 1) →
      AgreesBelow limit tokens top (some level) depth

section

variable {tokens : List Token} {limit top depth calls : Nat} {c : Cursor}

namespace Ends

theorem weaken {x : Except ParseError (α × List Token)} (h : Ends tokens least depth top x o)
    (hle : least' ≤ least) : Ends tokens least' depth top x o := by
  cases h with
  | read hleast hlength hdepth hpeak => exact .read (Nat.le_trans hle hleast) hlength hdepth hpeak
  | refused hpeak => exact .refused hpeak

theorem bind {w : Walk α} {f : α → Walk β} {x : Except ParseError (α × List Token)}
    {g : α × List Token → Except ParseError (β × List Token)}
    (h : Ends tokens least depth top x (w.run c))
    (hf : ∀ a (c' : Cursor), least ≤ c'.position → c'.position ≤ tokens.length → c'.depth = depth →
      c'.peak ≤ top → Ends tokens least' depth' top (g (a, c'.ahead tokens)) ((f a).run c')) :
    Ends tokens least' depth' top (x >>= g) ((w >>= f).run c) := by
  generalize ho : w.run c = o at h
  cases h with
  | read hleast hlength hdepth hpeak =>
    rw [run_bind_of ho]
    exact hf _ _ hleast hlength hdepth hpeak
  | refused hpeak =>
    rw [run_bind_error ho]
    exact .refused hpeak

theorem enter {w : Walk α} {g : Parser.Level → Except ParseError (α × List Token)}
    {deeper : Option Parser.Level} (h : AgreesBelow limit tokens top deeper c.depth)
    (hpeak : c.peak ≤ top)
    (hw : ∀ level, Agrees limit tokens top level (c.depth + 1) → c.raised.peak ≤ top →
      c.raised.need tokens limit + 10 = c.need tokens limit →
      Ends tokens least depth top (g level) (w.run c.raised)) :
    Ends tokens least depth top (Parser.enter limit deeper span >>= g)
      ((Descent.enter limit span >>= fun _ => w).run c) := by
  have henter := run_enter limit span c
  cases h with
  | bottom hle htop =>
    rw [if_pos hle] at henter
    rw [run_bind_error henter]
    exact .refused (Nat.max_le.mpr ⟨hpeak, htop⟩)
  | level hlt htop hlevel =>
    rw [if_neg (Nat.not_le.mpr hlt)] at henter
    rw [run_bind_of henter]
    exact hw _ hlevel (Nat.max_le.mpr ⟨hpeak, by omega⟩) (Cursor.need_raised hlt)

theorem take (hne : (c.next tokens).kind ≠ .finish) (hleast : least ≤ c.position + 1)
    (hdepth : c.depth = depth) (hpeak : c.peak ≤ top) (a : α) :
    Ends tokens least depth top (.ok (a, (c.ahead tokens).tail)) (.ok a (c.moved tokens)) := by
  have hposition := Cursor.moved_position hne
  have hlt := Cursor.position_lt_of_next hne
  rw [Cursor.tail_ahead hne]
  exact .read (by omega) (by omega) (by simpa) (by simpa)

end Ends

namespace Agrees

variable {level : Parser.Level}

theorem chain_of_operand (h : Agrees limit tokens top level depth) (connective : Connective)
    (hdepth : c.depth = depth) (hcalls : c.need tokens limit < calls)
    (hoperand : Ends tokens (c.position + 1) depth top (level.operand connective (c.ahead tokens))
      ((operand limit tokens calls connective).run c)) :
    Ends tokens (c.position + 1) depth top (level.whole connective (c.ahead tokens))
      ((chain limit tokens (calls + 1) connective).run c) := by
  rw [chain]
  refine hoperand.bind fun left c' hleast hlength hdepth' hpeak => ?_
  have hneed : c'.need tokens limit ≤ c.need tokens limit :=
    Cursor.need_le limit (hdepth.trans hdepth'.symm) (by omega)
  exact (h.tail c' connective left 0 calls hdepth' hpeak hlength (Nat.zero_le _) (by omega)).weaken hleast

theorem operand (h : Agrees limit tokens top level depth) (connective : Connective)
    (hdepth : c.depth = depth) (hpeak : c.peak ≤ top)
    (hcalls : c.need tokens limit + nested connective < calls) :
    Ends tokens (c.position + 1) depth top (level.operand connective (c.ahead tokens))
      ((operand limit tokens calls connective).run c) := by
  obtain ⟨calls, rfl⟩ := Nat.exists_eq_add_one.mpr (Nat.zero_lt_of_lt hcalls)
  cases connective with
  | and =>
    simp only [nested] at hcalls
    rw [Descent.operand]
    exact h.unary c calls hdepth hpeak (by omega)
  | or =>
    simp only [nested] at hcalls
    obtain ⟨calls, rfl⟩ : ∃ n, calls = n + 2 := ⟨calls - 2, by omega⟩
    rw [Descent.operand]
    refine h.chain_of_operand .and hdepth (by omega) ?_
    rw [Descent.operand]
    exact h.unary c calls hdepth hpeak (by omega)

theorem chain (h : Agrees limit tokens top level depth) (connective : Connective)
    (hdepth : c.depth = depth) (hpeak : c.peak ≤ top)
    (hcalls : c.need tokens limit + nested connective + 1 < calls) :
    Ends tokens (c.position + 1) depth top (level.whole connective (c.ahead tokens))
      ((chain limit tokens calls connective).run c) := by
  obtain ⟨calls, rfl⟩ := Nat.exists_eq_add_one.mpr (Nat.zero_lt_of_lt hcalls)
  exact h.chain_of_operand connective hdepth (by omega) (h.operand connective hdepth hpeak (by omega))

/-- The bound on the number of arguments is never met: each takes a token, and there are no more than
`bound` of them ahead. -/
theorem arguments (h : Agrees limit tokens top level depth) (opening : Span) {bound : Nat}
    (hdepth : c.depth = depth) (hpeak : c.peak ≤ top) (hbound : (c.ahead tokens).length ≤ bound)
    (hcalls : c.need tokens limit + 8 < calls) :
    Ends tokens (c.position + 1) depth top
      (Parser.arguments level.orExpr opening bound (c.ahead tokens))
      ((arguments limit tokens calls opening).run c) := by
  induction bound generalizing c calls with
  | zero => simp [Cursor.ahead] at hbound
  | succ bound ih =>
    obtain ⟨calls, rfl⟩ := Nat.exists_eq_add_one.mpr (Nat.zero_lt_of_lt hcalls)
    rw [Descent.arguments]
    refine (h.chain .or hdepth hpeak (by simp only [nested]; omega)).bind
      fun first c' hleast hlength hdepth' hpeak' => ?_
    rw [run_bind_of (run_advance tokens c')]
    simp only [Cursor.peek_ahead]
    cases hk : (c'.next tokens).kind with
    | symbol sign =>
      have hne : (c'.next tokens).kind ≠ .finish := by simp [hk]
      cases sign with
      | comma =>
        have hposition := Cursor.moved_position hne
        have hlt := Cursor.position_lt_of_next hne
        dsimp only
        rw [Cursor.tail_ahead hne]
        -- Argument and comma are two tokens, so one argument less still covers what is ahead.
        refine (ih (c := c'.moved tokens) (by simpa) (by simpa) ?_ ?_).bind ?_
        · rw [Cursor.length_ahead] at hbound ⊢
          omega
        · simp only [Cursor.need, Cursor.moved_depth] at hcalls ⊢
          omega
        · rintro ⟨rest, closing⟩ c'' hleast' hlength' hdepth'' hpeak''
          exact .read (by omega) hlength' hdepth'' hpeak''
      | rightParen => exact .take hne (by omega) hdepth' hpeak' _
      | _ => exact .refused (by simpa)
    | _ => exact .refused (by simpa)

theorem listed (h : Agrees limit tokens top level depth) (opening : Span) (hdepth : c.depth = depth)
    (hpeak : c.peak ≤ top) (hcalls : c.need tokens limit + 9 < calls) :
    Ends tokens (c.position + 1) depth top (level.listed opening (c.ahead tokens))
      ((listed limit tokens calls opening).run c) := by
  obtain ⟨calls, rfl⟩ := Nat.exists_eq_add_one.mpr (Nat.zero_lt_of_lt hcalls)
  rw [Descent.listed, run_bind_of (run_peek tokens c), Parser.Level.listed]
  simp only [Cursor.peek_ahead]
  cases hk : (c.next tokens).kind with
  | symbol sign =>
    cases sign with
    | rightParen => exact .take (by simp [hk]) (Nat.le_refl _) hdepth hpeak _
    | _ => exact h.arguments opening hdepth hpeak (Nat.le_refl _) (by omega)
  | _ => exact h.arguments opening hdepth hpeak (Nat.le_refl _) (by omega)

end Agrees

namespace AgreesBelow

variable {deeper : Option Parser.Level}

theorem group (h : AgreesBelow limit tokens top deeper c.depth) (hpeak : c.peak ≤ top)
    (hcalls : c.need tokens limit < calls) :
    Ends tokens (c.position + 1) c.depth top
      (Parser.group limit deeper (c.next tokens).span ((c.moved tokens).ahead tokens))
      ((group limit tokens calls).run c) := by
  obtain ⟨calls, rfl⟩ := Nat.exists_eq_add_one.mpr (Nat.zero_lt_of_lt hcalls)
  have hmoved : c.position ≤ (c.moved tokens).position := c.position_le_moved
  have hneed : (c.moved tokens).need tokens limit ≤ c.need tokens limit := c.need_moved_le limit
  rw [Descent.group, run_bind_of (run_advance tokens c)]
  refine .enter (by simpa) (by simpa) fun level hlevel hraised hbelow => ?_
  refine (hlevel.chain .or (by simp) hraised (by simp only [nested]; omega)).bind
    fun inner c' hleast hlength hdepth hpeak' => ?_
  simp only [Cursor.raised_position] at hleast
  rw [run_bind_of (run_leave (by omega)), run_bind_of (run_peek tokens _)]
  simp only [Cursor.peek_ahead, Cursor.lowered_next]
  cases hk : (c'.next tokens).kind with
  | symbol sign =>
    cases sign with
    | rightParen =>
      have hne : ((c'.lowered 1).next tokens).kind ≠ .finish := by simp [hk]
      exact .take hne (by simp; omega) (by simp [hdepth]) hpeak' _
    | _ => exact .refused hpeak'
  | _ => exact .refused hpeak'

theorem call (h : AgreesBelow limit tokens top deeper c.depth) (hpeak : c.peak ≤ top)
    (hcalls : c.need tokens limit < calls) (function : String) :
    Ends tokens (c.position + 1) c.depth top
      (Parser.call limit deeper function (c.next tokens).span ((c.moved tokens).ahead tokens))
      ((call limit tokens calls function).run c) := by
  obtain ⟨calls, rfl⟩ := Nat.exists_eq_add_one.mpr (Nat.zero_lt_of_lt hcalls)
  have hmoved : c.position ≤ (c.moved tokens).position := c.position_le_moved
  have hneed : (c.moved tokens).need tokens limit ≤ c.need tokens limit := c.need_moved_le limit
  have hneed' : ((c.moved tokens).moved tokens).need tokens limit ≤ (c.moved tokens).need tokens limit :=
    (c.moved tokens).need_moved_le limit
  rw [Descent.call, run_bind_of (run_advance tokens c), run_bind_of (run_advance tokens _),
    Parser.call_eq, Cursor.peek_ahead]
  by_cases hopen : ((c.moved tokens).next tokens).kind ≠ .symbol .leftParen
  · rw [if_pos hopen, if_pos hopen]
    exact .refused (by simpa)
  have hne : ((c.moved tokens).next tokens).kind ≠ .finish := by simp [Decidable.not_not.mp hopen]
  have hposition := Cursor.moved_position hne
  rw [if_neg hopen, if_neg hopen, Cursor.tail_ahead hne]
  refine .enter (by simpa) (by simpa) fun level hlevel hraised hbelow => ?_
  refine (hlevel.listed _ (by simp) hraised (by omega)).bind
    fun (args, closing) c' hleast hlength hdepth hpeak' => ?_
  simp only [Cursor.raised_position, Cursor.moved_depth] at hleast hdepth
  rw [run_bind_of (run_leave (by omega))]
  exact .read (c := c'.lowered 1) (by simp; omega) hlength (by simp [hdepth]) hpeak'

theorem primary (h : AgreesBelow limit tokens top deeper c.depth) (hpeak : c.peak ≤ top)
    (hcalls : c.need tokens limit + 1 < calls) :
    Ends tokens (c.position + 1) c.depth top (Parser.primary limit deeper (c.ahead tokens))
      ((primary limit tokens calls).run c) := by
  obtain ⟨calls, rfl⟩ := Nat.exists_eq_add_one.mpr (Nat.zero_lt_of_lt hcalls)
  rw [Descent.primary, run_bind_of (run_peek tokens c), Parser.primary]
  simp only [Cursor.peek_ahead]
  -- The end of the stream comes first: every other kind is that of a token which can be taken.
  by_cases hend : (c.next tokens).kind = .finish
  · simp only [hend]
    exact .refused hpeak
  cases hk : (c.next tokens).kind with
  | literal value => exact .take hend (Nat.le_refl _) rfl hpeak _
  | name word => exact .take hend (Nat.le_refl _) rfl hpeak _
  | call word =>
    simp only [Cursor.tail_ahead hend]
    exact h.call hpeak (by omega) word
  | symbol sign =>
    cases sign with
    | leftParen =>
      simp only [Cursor.tail_ahead hend]
      exact h.group hpeak (by omega)
    | _ => exact .refused hpeak
  | finish => exact absurd hk hend

theorem comparison (h : AgreesBelow limit tokens top deeper c.depth) (hpeak : c.peak ≤ top)
    (hcalls : c.need tokens limit + 2 < calls) :
    Ends tokens (c.position + 1) c.depth top (Parser.comparison limit deeper (c.ahead tokens))
      ((comparison limit tokens calls).run c) := by
  obtain ⟨calls, rfl⟩ := Nat.exists_eq_add_one.mpr (Nat.zero_lt_of_lt hcalls)
  rw [Descent.comparison]
  refine (h.primary hpeak (by omega)).bind fun left c' hleast hlength hdepth hpeak' => ?_
  rw [run_bind_of (run_peek tokens c')]
  simp only [Cursor.peek_ahead]
  cases hk : (c'.next tokens).kind with
  | symbol sign =>
    cases sign with
    | compare operator =>
      have hne : (c'.next tokens).kind ≠ .finish := by simp [hk]
      have hposition := Cursor.moved_position hne
      have hneed : (c'.moved tokens).need tokens limit ≤ c.need tokens limit :=
        Cursor.need_le limit (by simp [hdepth]) (by omega)
      dsimp only
      rw [run_bind_of (run_advance tokens c'), Cursor.tail_ahead hne]
      have hright : AgreesBelow limit tokens top deeper (c'.moved tokens).depth := by simpa [hdepth]
      refine (hright.primary (by simpa) (by omega)).bind
        fun right c'' hleast' hlength' hdepth' hpeak'' => ?_
      exact .read (by omega) hlength' (by simpa [hdepth] using hdepth') hpeak''
    | _ => exact .read hleast hlength hdepth hpeak'
  | _ => exact .read hleast hlength hdepth hpeak'

theorem unary (h : AgreesBelow limit tokens top deeper c.depth) (hpeak : c.peak ≤ top)
    (hcalls : c.need tokens limit + 3 < calls) :
    Ends tokens (c.position + 1) c.depth top (Parser.unary limit deeper (c.ahead tokens))
      ((unary limit tokens calls).run c) := by
  obtain ⟨calls, rfl⟩ := Nat.exists_eq_add_one.mpr (Nat.zero_lt_of_lt hcalls)
  rw [Descent.unary, run_bind_of (run_peek tokens c), Parser.unary]
  simp only [Cursor.peek_ahead]
  by_cases hk : (c.next tokens).kind = .symbol .not
  · have hne : (c.next tokens).kind ≠ .finish := by simp [hk]
    have hposition := Cursor.moved_position hne
    have hneed : (c.moved tokens).need tokens limit ≤ c.need tokens limit := c.need_moved_le limit
    rw [if_pos hk, if_pos hk, run_bind_of (run_advance tokens c), Cursor.tail_ahead hne]
    refine .enter (by simpa) (by simpa) fun level hlevel hraised hbelow => ?_
    refine (hlevel.unary _ calls (by simp) hraised (by omega)).bind
      fun operand c' hleast hlength hdepth hpeak' => ?_
    simp only [Cursor.raised_position] at hleast
    rw [run_bind_of (run_leave (by omega))]
    exact .read (c := c'.lowered 1) (by simp; omega) hlength (by simp [hdepth]) hpeak'
  · rw [if_neg hk, if_neg hk]
    exact h.comparison hpeak (by omega)

/-- A further connective opens a level and is one more to leave, so the levels that stay open are the
same. -/
theorem chainOn (h : AgreesBelow limit tokens top deeper c.depth) (hpeak : c.peak ≤ top)
    (hlength : c.position ≤ tokens.length) (connective : Connective) (left : Expr) {chained : Nat}
    (hchained : chained ≤ c.depth) (hcalls : c.need tokens limit < calls) :
    Ends tokens c.position (c.depth - chained) top
      (Parser.chain limit deeper connective (fun l => l.operand connective)
        (fun l => l.tail connective) left (c.ahead tokens))
      ((chainOn limit tokens calls connective left chained).run c) := by
  obtain ⟨calls, rfl⟩ := Nat.exists_eq_add_one.mpr (Nat.zero_lt_of_lt hcalls)
  rw [Descent.chainOn, run_bind_of (run_peek tokens c), Parser.chain]
  simp only [Cursor.peek_ahead]
  by_cases hk : (c.next tokens).kind = .symbol (.connect connective)
  · have hne : (c.next tokens).kind ≠ .finish := by simp [hk]
    have hposition := Cursor.moved_position hne
    have hneed : (c.moved tokens).need tokens limit ≤ c.need tokens limit := c.need_moved_le limit
    have hnested : nested connective ≤ 6 := by cases connective <;> decide
    rw [if_pos hk, if_pos hk, run_bind_of (run_advance tokens c), Cursor.tail_ahead hne]
    refine .enter (by simpa) (by simpa) fun level hlevel hraised hbelow => ?_
    refine (hlevel.operand connective (by simp) hraised (by omega)).bind
      fun right c' hleast hlength' hdepth hpeak' => ?_
    have hneed' : c'.need tokens limit ≤ (c.moved tokens).raised.need tokens limit :=
      Cursor.need_le limit hdepth.symm (by omega)
    simp only [Cursor.raised_position] at hleast
    -- The level below reads on and leaves one level more than this one would have.
    have htail := hlevel.tail c' connective (.join connective left right) (chained + 1) calls hdepth
      hpeak' hlength' (by simpa) (by omega)
    simp only [Cursor.moved_depth, Nat.add_sub_add_right] at htail
    exact htail.weaken (by omega)
  · rw [if_neg hk, if_neg hk, run_bind_of (run_leave hchained)]
    exact .read (c := c.lowered chained) (Nat.le_refl _) hlength rfl hpeak

theorem above (h : AgreesBelow limit tokens top deeper depth) :
    Agrees limit tokens top (.above limit deeper) depth where
  unary := by
    rintro c calls rfl hpeak hcalls
    exact h.unary hpeak hcalls
  tail := by
    rintro c connective left chained calls rfl hpeak hlength hchained hcalls
    rw [Parser.Level.tail_above]
    exact h.chainOn hpeak hlength connective left hchained hcalls

end AgreesBelow

/-- By induction on the levels left: only `enter` goes down, and each level below has one less. -/
theorem agreesBelow (tokens : List Token) (hlimit : limit < top) (hdepth : depth < top) :
    AgreesBelow limit tokens top (Parser.below limit (limit - depth)) depth := by
  induction hroom : limit - depth generalizing depth with
  | zero => exact .bottom (Nat.sub_eq_zero_iff_le.mp hroom) hdepth
  | succ room ih =>
    have hbelow : AgreesBelow limit tokens top (Parser.below limit room) (depth + 1) :=
      ih (by omega) (by omega)
    have hlevel := hbelow.above
    rw [← Parser.level_eq] at hlevel
    exact .level (by omega) hlimit hlevel

theorem agrees (tokens : List Token) (hlimit : limit < top) (hdepth : depth < top) :
    Agrees limit tokens top (Parser.level limit (limit - depth)) depth := by
  rw [Parser.level_eq]
  exact (agreesBelow tokens hlimit hdepth).above

end

/-- Calls never nest deeper than this. -/
def enough (limits : Limits) (tokens : List Token) : Nat :=
  10 * (limits.effectiveDepth + 1) + tokens.length

/-- Every routine ends well at every cursor, also at one that no walk comes to. -/
theorem routine_ends (limits : Limits) (tokens : List Token) {calls : Nat}
    (hcalls : enough limits tokens ≤ calls) (r : Routine) (c : Cursor) :
    Ends tokens (c.position + 1) c.depth (max c.peak (max c.depth limits.effectiveDepth + 1))
      (r.reading limits.effectiveDepth tokens c)
      ((r.walk limits.effectiveDepth tokens calls).run c) := by
  generalize hlimit : limits.effectiveDepth = limit
  generalize htop : max c.peak (max c.depth limit + 1) = top
  have hlevel : Agrees limit tokens top (Parser.level limit (limit - c.depth)) c.depth :=
    agrees tokens (by omega) (by omega)
  have hbelow : AgreesBelow limit tokens top (Parser.below limit (limit - c.depth)) c.depth :=
    agreesBelow tokens (by omega) (by omega)
  have hpeak : c.peak ≤ top := by omega
  have hneed : c.need tokens limit + 9 < calls := by
    unfold enough at hcalls
    unfold Cursor.need
    omega
  cases r with
  | orExpr => exact hlevel.chain .or rfl hpeak (by simp only [nested]; omega)
  | andExpr => exact hlevel.chain .and rfl hpeak (by simp only [nested]; omega)
  | unary => exact hbelow.unary hpeak (by omega)
  | comparison => exact hbelow.comparison hpeak (by omega)
  | primary => exact hbelow.primary hpeak (by omega)
  | group => exact hbelow.group hpeak (by omega)
  | call function => exact hbelow.call hpeak (by omega) function

theorem getElem?_of_lt_tokenCount {tokens : List Token} {n : Nat} (h : n < Expr.tokenCount tokens) :
    ∃ token, tokens[n]? = some token :=
  ⟨_, List.getElem?_eq_getElem (Nat.lt_of_lt_of_le h List.countP_le_length)⟩

def answer : Except ParseError α → Cursor → EStateM.Result Stop Cursor α
  | .ok a, c => .ok a c
  | .error e, c => .error (.refused e) c

theorem parse_answers (limits : Limits) (tokens : List Token) {calls : Nat}
    (hcalls : enough limits tokens ≤ calls) :
    ∃ c, (parse limits tokens calls).run {} = answer (Expr.ofTokens limits tokens) c ∧
      c.peak ≤ limits.effectiveDepth + 1 := by
  unfold parse Expr.ofTokens
  dsimp only
  by_cases hzero : Expr.tokenCount tokens = 0
  · rw [if_pos hzero, if_pos hzero]
    exact ⟨{}, rfl, Nat.zero_le _⟩
  rw [if_neg hzero, if_neg hzero]
  by_cases hmany : limits.maxTokens < Expr.tokenCount tokens
  · obtain ⟨token, htoken⟩ := getElem?_of_lt_tokenCount hmany
    rw [if_pos hmany, if_pos hmany, htoken]
    exact ⟨{}, rfl, Nat.zero_le _⟩
  rw [if_neg hmany, if_neg hmany]
  have hends : Ends tokens 1 0 (limits.effectiveDepth + 1)
      ((Parser.level limits.effectiveDepth limits.effectiveDepth).orExpr
        (tokens ++ [Expr.streamEnd tokens]))
      ((chain limits.effectiveDepth tokens calls .or).run {}) := by
    simpa [Routine.reading, Routine.walk, Cursor.ahead] using routine_ends limits tokens hcalls .orExpr {}
  generalize (Parser.level limits.effectiveDepth limits.effectiveDepth).orExpr _ = x at hends ⊢
  generalize ho : (chain limits.effectiveDepth tokens calls .or).run {} = o at hends
  cases hends with
  | refused hpeak =>
    rw [run_bind_error ho]
    exact ⟨_, rfl, hpeak⟩
  | @read e c _ _ _ hpeak =>
    rw [run_bind_of ho, run_bind_of (run_peek tokens c), Parser.ok_bind, Cursor.peek_ahead]
    refine ⟨c, ?_, hpeak⟩
    cases (c.next tokens).kind with
    | symbol sign => cases sign <;> rfl
    | _ => rfl

/-- Whatever the stream and the limits, the walk comes to an end without a fault, with the answer of the
parser, and the counter is never more than one above the limit. Every routine, wherever it is called, ends
without a fault as the parser for its level does; where it succeeds it has taken a token at least, stands
in the stream or at its end, and leaves the counter as it found it. The token that a stream over the
limit is charged to is there. -/
theorem total_and_balanced (limits : Limits) (tokens : List Token) :
    (∀ calls, enough limits tokens ≤ calls →
      ∃ c, (parse limits tokens calls).run {} = answer (Expr.ofTokens limits tokens) c ∧
        c.peak ≤ limits.effectiveDepth + 1) ∧
    (∀ calls, enough limits tokens ≤ calls → ∀ (r : Routine) (c : Cursor),
      Ends tokens (c.position + 1) c.depth (max c.peak (max c.depth limits.effectiveDepth + 1))
        (r.reading limits.effectiveDepth tokens c)
        ((r.walk limits.effectiveDepth tokens calls).run c)) ∧
    (limits.maxTokens < Expr.tokenCount tokens → ∃ token, tokens[limits.maxTokens]? = some token ∧
      Expr.ofTokens limits tokens =
        .error (.tooComplex (.tokens (Expr.tokenCount tokens) limits.maxTokens) token.span)) := by
  refine ⟨fun _ => parse_answers limits tokens, fun _ => routine_ends limits tokens, fun hmany => ?_⟩
  obtain ⟨token, htoken⟩ := getElem?_of_lt_tokenCount hmany
  refine ⟨token, htoken, ?_⟩
  unfold Expr.ofTokens
  dsimp only
  rw [if_neg (by omega), if_pos hmany, htoken]
  rfl

def cutCall : List Token := [.bare (.call "f"), .bare .finish, .bare (.name "x")]

theorem total_and_balanced_cut :
    (enough ⟨1, 2⟩ cutCall ≤ 23 ∧ ∃ c, (parse ⟨1, 2⟩ cutCall 23).run {} =
      .error (.refused (Parser.unexpected (.bare .finish) .leftParen)) c ∧ c.peak ≤ 2) ∧
    1 < Expr.tokenCount cutCall ∧ ∃ token, cutCall[1]? = some token ∧
      Expr.ofTokens ⟨1, 1⟩ cutCall = .error (.tooComplex (.tokens 2 1) token.span) := by
  have hcalls : enough ⟨1, 2⟩ cutCall ≤ 23 := by decide
  have hmany : 1 < Expr.tokenCount cutCall := by decide
  exact ⟨⟨hcalls, (total_and_balanced ⟨1, 2⟩ cutCall).1 23 hcalls⟩, hmany,
    (total_and_balanced ⟨1, 1⟩ cutCall).2.2 hmany⟩

end Descent

end FilterSql
