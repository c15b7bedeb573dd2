import FilterSql.Expr.Parser

/-! The grammar of filter expressions. A derivation takes tokens as a phrase and says which expression
they spell and how many nesting levels they demand. The rules look at the kinds of tokens only, and at
nothing behind the phrase; how the parser decides where a phrase ends is no part of them. -/
namespace FilterSql

def Token.bare (kind : Token.Kind) : Token := ⟨kind, "", ⟨0, 0, 0, 0⟩⟩

namespace Grammar

/-- What a run of tokens can be taken as. A chain carries the number of its connectives. -/
inductive Phrase where
  | primary
  | comparison
  | unary
  | chain (connective : Connective) (operators : Nat)
  | conjunction
  | disjunction

def operand : Connective → Phrase
  | .and => .unary
  | .or => .conjunction

structure Argument where
  tokens : List Token
  expr : Expr
  demand : Nat

inductive Separated : List Argument → List Token → Prop where
  | none : Separated [] []
  | last (a : Argument) : Separated [a] a.tokens
  | more {comma : Token} (a : Argument) : comma.kind = .symbol .comma →
      Separated (b :: args) listed → Separated (a :: b :: args) (a.tokens ++ comma :: listed)

def deepest (args : List Argument) : Nat := (args.map Argument.demand).foldr max 0

/-- Tokens, the expression they spell and the nesting they demand. A parenthesis, a negation and a call
stand one level above what they hold. In a chain the operand behind the `i`-th connective stands `i`
levels deeper than the first one, and the chain leans to the left. -/
inductive Derives : Phrase → List Token → Expr → Nat → Prop where
  | literal {token : Token} : token.kind = .literal value →
      Derives .primary [token] (.literal value token.span) 0
  | name {token : Token} : token.kind = .name word →
      Derives .primary [token] (.field (.ofText word) token.span) 0
  | call {name opening closing : Token} : name.kind = .call word →
      opening.kind = .symbol .leftParen → closing.kind = .symbol .rightParen →
      Separated args listed → (∀ a ∈ args, Derives .disjunction a.tokens a.expr a.demand) →
      Derives .primary (name :: opening :: (listed ++ [closing]))
        (.call word (args.map Argument.expr) (name.span.cover closing.span)) (1 + deepest args)
  | group {opening closing : Token} : opening.kind = .symbol .leftParen →
      closing.kind = .symbol .rightParen → Derives .disjunction ts e d →
      Derives .primary (opening :: (ts ++ [closing])) e (1 + d)
  | alone : Derives .primary ts e d → Derives .comparison ts e d
  | compare {sign : Token} : sign.kind = .symbol (.compare operator) →
      Derives .primary ts e d → Derives .primary us f b →
      Derives .comparison (ts ++ sign :: us) (.compare operator e f (e.span.cover f.span)) (max d b)
  | not {sign : Token} : sign.kind = .symbol .not → Derives .unary ts e d →
      Derives .unary (sign :: ts) (.not e (sign.span.cover e.span)) (1 + d)
  | positive : Derives .comparison ts e d → Derives .unary ts e d
  | first : Derives (operand c) ts e d → Derives (.chain c 0) ts e d
  | next {sign : Token} : sign.kind = .symbol (.connect c) →
      Derives (.chain c n) ts e d → Derives (operand c) us f b →
      Derives (.chain c (n + 1)) (ts ++ sign :: us) (.join c e f) (max d (n + 1 + b))
  | conjunction : Derives (.chain .and n) ts e d → Derives .conjunction ts e d
  | disjunction : Derives (.chain .or n) ts e d → Derives .disjunction ts e d

@[simp] theorem deepest_nil : deepest [] = 0 := rfl

@[simp] theorem deepest_cons (a : Argument) (args : List Argument) :
    deepest (a :: args) = max a.demand (deepest args) := rfl

theorem demand_le_deepest {a : Argument} {args : List Argument} (h : a ∈ args) :
    a.demand ≤ deepest args := by
  induction args with
  | nil => cases h
  | cons b args ih =>
    rw [deepest_cons]
    rcases List.mem_cons.mp h with rfl | h
    · exact Nat.le_max_left _ _
    · exact Nat.le_trans (ih h) (Nat.le_max_right _ _)

theorem deepest_le_iff {args : List Argument} {d : Nat} :
    deepest args ≤ d ↔ ∀ a ∈ args, a.demand ≤ d := by
  induction args with
  | nil => simp
  | cons a args ih => rw [deepest_cons, Nat.max_le, ih, List.forall_mem_cons]

theorem Separated.length_le (h : Separated args listed) : args.length ≤ listed.length + 1 := by
  induction h with
  | none => simp
  | last a => simp
  | more a _ _ ih =>
    simp only [List.length_cons, List.length_append] at ih ⊢
    omega

theorem Separated.length_le_append (h : Separated args listed) (closing : Token) (rest : List Token) :
    args.length ≤ (listed ++ closing :: rest).length := by
  have := h.length_le
  simp only [List.length_append, List.length_cons]
  omega

theorem Separated.mem (h : Separated args listed) {t : Token} (ht : t ∈ listed) :
    t.kind = .symbol .comma ∨ ∃ a ∈ args, t ∈ a.tokens := by
  induction h with
  | none => cases ht
  | last a => exact .inr ⟨a, by simp, ht⟩
  | more a hcomma _ ih =>
    rcases List.mem_append.mp ht with ht | ht
    · exact .inr ⟨a, by simp, ht⟩
    · rcases List.mem_cons.mp ht with rfl | ht
      · exact .inl hcomma
      · rcases ih ht with hc | ⟨b, hb, ht⟩
        · exact .inl hc
        · exact .inr ⟨b, List.mem_cons_of_mem _ hb, ht⟩

theorem Separated.tokens_length_le (h : Separated args listed) (ha : a ∈ args) :
    a.tokens.length ≤ listed.length := by
  induction h with
  | none => cases ha
  | last b =>
    cases List.mem_singleton.mp ha
    exact Nat.le_refl _
  | more b _ _ ih =>
    simp only [List.length_append, List.length_cons]
    rcases List.mem_cons.mp ha with rfl | ha
    · omega
    · have := ih ha
      omega

theorem Derives.operators_le (h : Derives (.chain c n) ts e d) : n ≤ d := by
  cases h with
  | first _ => exact Nat.zero_le _
  | next _ _ _ => omega

theorem Derives.ofUnary (h : Derives .unary ts e d) : Derives .disjunction ts e d :=
  .disjunction (.first (.conjunction (.first h)))

def opensOperand : Token.Kind → Bool
  | .literal _ => true
  | .name _ => true
  | .call _ => true
  | .symbol .leftParen => true
  | _ => false

def Phrase.negatable : Phrase → Bool
  | .primary => false
  | .comparison => false
  | _ => true

def Phrase.Begins (p : Phrase) (k : Token.Kind) : Prop :=
  opensOperand k = true ∨ p.negatable = true ∧ k = .symbol .not

theorem Derives.head (h : Derives p ts e d) : ∃ t us, ts = t :: us ∧ p.Begins t.kind := by
  induction h with
  | literal hk => exact ⟨_, _, rfl, .inl (by rw [hk]; rfl)⟩
  | name hk => exact ⟨_, _, rfl, .inl (by rw [hk]; rfl)⟩
  | call hk _ _ _ _ _ => exact ⟨_, _, rfl, .inl (by rw [hk]; rfl)⟩
  | group hk _ _ _ => exact ⟨_, _, rfl, .inl (by rw [hk]; rfl)⟩
  | alone _ ih => exact ih
  | compare _ _ _ ih _ =>
    obtain ⟨t, us, rfl, hb⟩ := ih
    exact ⟨t, _, rfl, hb⟩
  | not hk _ _ => exact ⟨_, _, rfl, .inr ⟨rfl, hk⟩⟩
  | positive _ ih =>
    obtain ⟨t, us, rfl, hb⟩ := ih
    exact ⟨t, us, rfl, hb.imp id fun h => ⟨rfl, h.2⟩⟩
  | first _ ih =>
    obtain ⟨t, us, rfl, hb⟩ := ih
    exact ⟨t, us, rfl, hb.imp id fun h => ⟨rfl, h.2⟩⟩
  | next _ _ _ ih _ =>
    obtain ⟨t, us, rfl, hb⟩ := ih
    exact ⟨t, _, rfl, hb⟩
  | conjunction _ ih => exact ih
  | disjunction _ ih => exact ih

theorem Derives.ne_finish (h : Derives p ts e d) : ∀ t ∈ ts, t.kind ≠ .finish := by
  induction h with
  | literal hk => simp [hk]
  | name hk => simp [hk]
  | call hname hopen hclose hsep _ ih =>
    intro t ht
    simp only [List.mem_cons, List.mem_append, List.not_mem_nil, or_false] at ht
    rcases ht with rfl | rfl | ht | rfl
    · simp [hname]
    · simp [hopen]
    · rcases hsep.mem ht with hc | ⟨a, ha, ht⟩
      · simp [hc]
      · exact ih a ha t ht
    · simp [hclose]
  | group hopen hclose _ ih =>
    intro t ht
    simp only [List.mem_cons, List.mem_append, List.not_mem_nil, or_false] at ht
    rcases ht with rfl | ht | rfl
    · simp [hopen]
    · exact ih t ht
    · simp [hclose]
  | alone _ ih => exact ih
  | compare hs _ _ ihl ihr =>
    intro t ht
    simp only [List.mem_append, List.mem_cons] at ht
    rcases ht with ht | rfl | ht
    · exact ihl t ht
    · simp [hs]
    · exact ihr t ht
  | not hs _ ih =>
    intro t ht
    rcases List.mem_cons.mp ht with rfl | ht
    · simp [hs]
    · exact ih t ht
  | positive _ ih => exact ih
  | first _ ih => exact ih
  | next hs _ _ ihl ihr =>
    intro t ht
    simp only [List.mem_append, List.mem_cons] at ht
    rcases ht with ht | rfl | ht
    · exact ihl t ht
    · simp [hs]
    · exact ihr t ht
  | conjunction _ ih => exact ih
  | disjunction _ ih => exact ih

end Grammar

end FilterSql
