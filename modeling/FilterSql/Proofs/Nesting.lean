import FilterSql.Proofs.Acceptance

/-! How deep the tree of an accepted expression can be. The parser counts the levels it is below while it
reads an operand, and a chain that goes on afterwards sets its connectives above operands that were read
before. So the first operand of a chain is counted without the connectives it ends up under, and trees
grow beyond the depth limit; with the limit `d` they reach exactly `d * (d + 2)`. -/
namespace FilterSql

namespace Expr

mutual
/-- The most connectives, negations and calls on a way from the root to a leaf. -/
def nesting : Expr → Nat
  | literal .. => 0
  | field .. => 0
  | connect _ left right _ => 1 + max left.nesting right.nesting
  | not operand _ => 1 + operand.nesting
  | compare _ left right _ => max left.nesting right.nesting
  | call _ arguments _ => 1 + nestingOfAll arguments

def nestingOfAll : List Expr → Nat
  | [] => 0
  | e :: es => max e.nesting (nestingOfAll es)
end

theorem nestingOfAll_le_iff {es : List Expr} : nestingOfAll es ≤ n ↔ ∀ e ∈ es, e.nesting ≤ n := by
  induction es with
  | nil => simp [nestingOfAll]
  | cons e es ih => rw [nestingOfAll, Nat.max_le, ih, List.forall_mem_cons]

@[simp] theorem nesting_join (c : Connective) (e f : Expr) :
    (join c e f).nesting = 1 + max e.nesting f.nesting := by
  simp [join, nesting]

end Expr

namespace Grammar

/-- A way through the tree takes a token for each node it counts and one for its leaf; a connective
takes one more, and without a connective the demand covers the way. -/
theorem Derives.nesting_le_length (h : Derives p ts e d) :
    e.nesting + 1 ≤ ts.length ∧ (e.nesting ≤ d ∨ e.nesting + 2 ≤ ts.length) := by
  induction h with
  | literal _ => simp [Expr.nesting]
  | name _ => simp [Expr.nesting]
  | @call word args listed _ _ _ _ _ _ hsep _ ih =>
    have hargs : Expr.nestingOfAll (args.map Argument.expr) ≤ listed.length := by
      rw [Expr.nestingOfAll_le_iff]
      intro e he
      obtain ⟨a, ha, rfl⟩ := List.mem_map.mp he
      have hlen := hsep.tokens_length_le ha
      have := (ih a ha).1
      omega
    simp only [Expr.nesting, List.length_cons, List.length_append, List.length_nil]
    omega
  | group _ _ _ ih =>
    simp only [List.length_cons, List.length_append, List.length_nil]
    omega
  | alone _ ih => exact ih
  | compare _ _ _ ihl ihr =>
    simp only [Expr.nesting, List.length_cons, List.length_append]
    omega
  | not _ _ ih =>
    simp only [Expr.nesting, List.length_cons]
    omega
  | positive _ ih => exact ih
  | first _ ih => exact ih
  | next _ _ _ ihl ihr =>
    simp only [Expr.nesting_join, List.length_cons, List.length_append]
    omega
  | conjunction _ ih => exact ih
  | disjunction _ ih => exact ih

/-- The deepest tree of a phrase with demand `d`. -/
def tallest : Phrase → Nat → Nat
  | .primary, d => d * d
  | .comparison, d => d * d
  | .unary, d => d * d
  | .chain .and n, d => d * d + n
  | .conjunction, d => d * d + d
  | .chain .or n, d => d * d + d + n
  | .disjunction, d => d * d + 2 * d

theorem tallest_chain (c : Connective) (n d : Nat) :
    tallest (.chain c n) d = tallest (operand c) d + n := by
  cases c <;> rfl

theorem tallest_operand_mono (c : Connective) {a b : Nat} (h : a ≤ b) :
    tallest (operand c) a ≤ tallest (operand c) b := by
  have := Nat.mul_self_le_mul_self h
  cases c <;> simp only [operand, tallest] <;> omega

theorem tallest_succ (d : Nat) : 1 + tallest .disjunction d = tallest .primary (1 + d) := by
  simp only [tallest, Nat.add_mul, Nat.mul_add]
  omega

theorem Derives.nesting_le_tallest (h : Derives p ts e d) : e.nesting ≤ tallest p d := by
  induction h with
  | literal _ => simp [Expr.nesting]
  | name _ => simp [Expr.nesting]
  | @call word args listed _ _ _ _ _ _ _ _ ih =>
    rw [← tallest_succ]
    have hargs : Expr.nestingOfAll (args.map Argument.expr) ≤ tallest .disjunction (deepest args) := by
      rw [Expr.nestingOfAll_le_iff]
      intro e he
      obtain ⟨a, ha, rfl⟩ := List.mem_map.mp he
      have hle := demand_le_deepest ha
      have hsq := Nat.mul_self_le_mul_self hle
      have := ih a ha
      simp only [tallest] at this ⊢
      omega
    simp only [Expr.nesting]
    omega
  | @group _ _ d _ _ _ _ _ ih =>
    have := tallest_succ d
    omega
  | alone _ ih => exact ih
  | @compare _ _ _ d _ _ b _ _ _ _ ihl ihr =>
    have hd := Nat.mul_self_le_mul_self (Nat.le_max_left d b)
    have hb := Nat.mul_self_le_mul_self (Nat.le_max_right d b)
    simp only [Expr.nesting, tallest] at ihl ihr ⊢
    omega
  | @not _ _ d _ _ _ ih =>
    have := tallest_succ d
    simp only [Expr.nesting, tallest] at this ih ⊢
    omega
  | positive _ ih => exact ih
  | @first c _ _ d _ ih =>
    rw [tallest_chain]
    exact ih
  | @next c n _ _ d _ _ b _ _ _ _ ihl ihr =>
    have hd := tallest_operand_mono c (Nat.le_max_left d (n + 1 + b))
    have hb := tallest_operand_mono c (show b ≤ max d (n + 1 + b) by omega)
    rw [tallest_chain] at ihl ⊢
    rw [Expr.nesting_join]
    omega
  | conjunction h ih =>
    have := h.operators_le
    simp only [tallest] at ih ⊢
    omega
  | disjunction h ih =>
    have := h.operators_le
    simp only [tallest] at ih ⊢
    omega

theorem derives_name (c : Connective) :
    Derives (operand c) [.bare (.name "a")] (.field (.ofText "a") ⟨0, 0, 0, 0⟩) 0 := by
  have hunary : Derives .unary [.bare (.name "a")] (.field (.ofText "a") ⟨0, 0, 0, 0⟩) 0 :=
    .positive (.alone (.name rfl))
  cases c with
  | and => exact hunary
  | or => exact .conjunction (.first hunary)

/-- An operand of demand `d` can be set under up to `d` connectives without a further demand. -/
theorem exists_chain (c : Connective) (h : Derives (operand c) ts e d) (hn : n ≤ d) :
    ∃ us f, Derives (.chain c n) us f d ∧ us.length = ts.length + 2 * n ∧
      f.nesting = e.nesting + n := by
  induction n with
  | zero => exact ⟨ts, e, .first h, rfl, rfl⟩
  | succ n ih =>
    obtain ⟨us, f, hf, hlen, hnest⟩ := ih (by omega)
    have hsign : (Token.bare (.symbol (.connect c))).kind = .symbol (.connect c) := rfl
    have hnext := Derives.next hsign hf (derives_name c)
    rw [show max d (n + 1 + 0) = d by omega] at hnext
    refine ⟨_, _, hnext, ?_, ?_⟩
    · simp only [List.length_append, List.length_cons, List.length_nil, hlen]
      omega
    · rw [Expr.nesting_join, hnest]
      simp only [Expr.nesting]
      omega

theorem exists_call (h : Derives .disjunction ts e d) :
    ∃ us f, Derives .unary us f (d + 1) ∧ f.nesting = e.nesting + 1 := by
  have hargs : ∀ a ∈ [Argument.mk ts e d], Derives .disjunction a.tokens a.expr a.demand := by
    intro a ha
    cases List.mem_singleton.mp ha
    exact h
  have hname : (Token.bare (.call "f")).kind = .call "f" := rfl
  have hopen : (Token.bare (.symbol .leftParen)).kind = .symbol .leftParen := rfl
  have hclose : (Token.bare (.symbol .rightParen)).kind = .symbol .rightParen := rfl
  have hcall := Derives.call hname hopen hclose (.last _) hargs
  rw [show 1 + deepest [⟨ts, e, d⟩] = d + 1 by simp; omega] at hcall
  refine ⟨_, _, .positive (.alone hcall), ?_⟩
  simp only [Expr.nesting, List.map_cons, List.map_nil, Expr.nestingOfAll]
  omega

/-- The bound is reached: a call around the deepest tree for `d`, set under `d + 1` connectives of either
kind, is the deepest tree for `d + 1`. -/
theorem exists_tallest (d : Nat) :
    ∃ ts e, Derives .disjunction ts e d ∧ e.nesting = d * (d + 2) := by
  induction d with
  | zero => exact ⟨_, _, Derives.ofUnary (derives_name .and), by simp [Expr.nesting]⟩
  | succ d ih =>
    obtain ⟨ts, e, he, hnest⟩ := ih
    obtain ⟨us, f, hf, hfnest⟩ := exists_call he
    obtain ⟨vs, g, hg, -, hgnest⟩ := exists_chain .and hf (Nat.le_refl _)
    obtain ⟨ws, k, hk, -, hknest⟩ := exists_chain .or (.conjunction hg) (Nat.le_refl _)
    refine ⟨ws, k, .disjunction hk, ?_⟩
    rw [hknest, hgnest, hfnest, hnest]
    simp only [Nat.add_mul, Nat.mul_add]
    omega

/-- The cheapest way past the limit: as many negations as there are levels, under one connective. -/
theorem exists_negations (d : Nat) :
    ∃ ts e, Derives .unary ts e d ∧ ts.length = d + 1 ∧ e.nesting = d := by
  induction d with
  | zero => exact ⟨_, _, derives_name .and, rfl, by simp [Expr.nesting]⟩
  | succ d ih =>
    obtain ⟨ts, e, he, hlen, hnest⟩ := ih
    have hsign : (Token.bare (.symbol .not)).kind = .symbol .not := rfl
    have hnot := Derives.not hsign he
    rw [Nat.add_comm 1 d] at hnot
    refine ⟨_, _, hnot, by simp [hlen], ?_⟩
    simp only [Expr.nesting, hnest]
    omega

theorem ofTokens_sentence (limits : Limits) (h : Derives .disjunction ts e d)
    (hlen : ts.length ≤ limits.maxTokens) (hd : d ≤ limits.effectiveDepth) :
    Expr.ofTokens limits (ts ++ [.bare .finish]) = .ok e :=
  ofTokens_of_derives h.ne_finish rfl hlen h hd

/-- The depth limit bounds the tree exactly if it is zero or if there are too few tokens to pass it: as
many as levels, and three more. In any case the tree is at most `d * (d + 2)` deep for the limit `d`, and
with enough tokens it is that deep. -/
theorem nesting_le_effectiveDepth_iff (limits : Limits) :
    ((∀ tokens e, Expr.ofTokens limits tokens = .ok e → e.nesting ≤ limits.effectiveDepth) ↔
      limits.effectiveDepth = 0 ∨ limits.maxTokens < limits.effectiveDepth + 3) ∧
    (∀ tokens e, Expr.ofTokens limits tokens = .ok e →
      e.nesting ≤ limits.effectiveDepth * (limits.effectiveDepth + 2)) ∧
    (∃ tokens e, e.nesting = limits.effectiveDepth * (limits.effectiveDepth + 2) ∧
      ∀ maxTokens, tokens.length ≤ maxTokens →
        Expr.ofTokens ⟨limits.maxDepth, maxTokens⟩ tokens = .ok e) := by
  have hbound : ∀ tokens e, Expr.ofTokens limits tokens = .ok e →
      e.nesting ≤ limits.effectiveDepth * (limits.effectiveDepth + 2) := by
    intro tokens e h
    obtain ⟨us, rest, d, -, -, hd, hle, -, -⟩ := derives_of_ofTokens h
    have htall := hd.nesting_le_tallest
    calc e.nesting ≤ d * (d + 2) := by simp only [tallest, Nat.mul_add] at htall ⊢; omega
      _ ≤ _ := Nat.mul_le_mul hle (by omega)
  refine ⟨⟨?_, ?_⟩, hbound, ?_⟩
  · intro h
    apply Decidable.byContradiction
    intro hno
    obtain ⟨ts, e, he, hlen, hnest⟩ := exists_negations limits.effectiveDepth
    have hone : 1 ≤ limits.effectiveDepth := by omega
    obtain ⟨us, f, hf, hflen, hfnest⟩ := exists_chain .or (.conjunction (.first he)) hone
    have hok := ofTokens_sentence limits (.disjunction hf) (by omega) (Nat.le_refl _)
    have := h _ _ hok
    omega
  · intro hlimits tokens e h
    obtain ⟨us, rest, d, heq, -, hd, hle, -, hmax⟩ := derives_of_ofTokens h
    rcases hlimits with hzero | hfew
    · have := hbound tokens e h
      rw [hzero] at this ⊢
      exact this
    · have hlen := hd.length_le_tokenCount heq
      have := hd.nesting_le_length
      omega
  · obtain ⟨ts, e, he, hnest⟩ := exists_tallest limits.effectiveDepth
    refine ⟨ts ++ [.bare .finish], e, hnest, ?_⟩
    intro maxTokens hmax
    have hlen : ts.length ≤ maxTokens := by
      simp only [List.length_append, List.length_cons] at hmax
      omega
    exact ofTokens_sentence ⟨limits.maxDepth, maxTokens⟩ he hlen (Nat.le_refl _)

/-- `!a || b` is two levels deep and is accepted with a limit of one. -/
theorem nesting_exceeds_depth_limit :
    ∃ e, Expr.ofText ⟨1, 4096⟩ "!a || b" = .ok e ∧ Limits.effectiveDepth ⟨1, 4096⟩ < e.nesting := by
  refine ⟨.connect .or (.not (.field ⟨["a"]⟩ ⟨1, 2, 1, 2⟩) ⟨0, 2, 1, 1⟩) (.field ⟨["b"]⟩ ⟨6, 7, 1, 7⟩) ⟨0, 7, 1, 1⟩,
    ?_, ?_⟩
  · with_unfolding_all rfl
  · decide

end Grammar

end FilterSql
