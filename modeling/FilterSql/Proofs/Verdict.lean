import FilterSql.Proofs.Acceptance

/-! What the verdict of a reader rests on. It decides by the tokens that it has read and the one behind them,
whatever else follows. If it takes tokens for a phrase, they are one; if it stops at a token, then what it has
read can be carried on to a phrase, and its complaint names that token or, at the end of the stream, the
parenthesis that should have been closed first. Readers put one behind the other keep to this. -/
namespace FilterSql

namespace Grammar

/-- What becomes of the parentheses that are open, the innermost first, behind one more token. -/
def pairing (opened : List Token) (t : Token) : List Token :=
  match t.kind with
  | .symbol .leftParen => t :: opened
  | .symbol .rightParen => opened.tail
  | _ => opened

/-- The opening parentheses that no closing one matches, the innermost first. -/
def unclosed (ts : List Token) : List Token := ts.foldl pairing []

def Spells (p : Phrase) (ts : List Token) (e : Expr) : Prop := ∃ d, Derives p ts e d

def Chained (c : Connective) (ts : List Token) (e : Expr) : Prop := ∃ n, Spells (.chain c n) ts e

theorem Spells.disjunction_of_primary (h : Spells .primary ts e) : Spells .disjunction ts e := by
  obtain ⟨d, hd⟩ := h
  exact ⟨d, Derives.ofUnary (.positive (.alone hd))⟩

theorem Separated.foldl_pairing (h : Separated args listed)
    (hall : ∀ a ∈ args, ∀ opened, a.tokens.foldl pairing opened = opened) (opened : List Token) :
    listed.foldl pairing opened = opened := by
  induction h with
  | none => rfl
  | last a => exact hall a (by simp) opened
  | @more _ _ _ comma a hcomma _ ih =>
    have hpair : pairing opened comma = opened := by simp [pairing, hcomma]
    rw [List.foldl_append, hall a (by simp), List.foldl_cons, hpair]
    exact ih fun b hb => hall b (List.mem_cons_of_mem _ hb)

theorem Derives.foldl_pairing (h : Derives p ts e d) (opened : List Token) :
    ts.foldl pairing opened = opened := by
  induction h generalizing opened with
  | literal hk => simp [pairing, hk]
  | name hk => simp [pairing, hk]
  | call hname hopen hclose hsep _ ih =>
    have hlisted := hsep.foldl_pairing ih
    simp [List.foldl_append, pairing, hname, hopen, hclose, hlisted]
  | group hopen hclose _ ih => simp [List.foldl_append, pairing, hopen, hclose, ih]
  | alone _ ih => exact ih opened
  | compare hsign _ _ ihl ihr => simp [List.foldl_append, pairing, hsign, ihl, ihr]
  | not hsign _ ih => simp [pairing, hsign, ih]
  | positive _ ih => exact ih opened
  | first _ ih => exact ih opened
  | next hsign _ _ ihl ihr => simp [List.foldl_append, pairing, hsign, ihl, ihr]
  | conjunction _ ih => exact ih opened
  | disjunction _ ih => exact ih opened

/-- `opening` is the innermost parenthesis that is open behind `us`, whatever is open before them. -/
structure Innermost (us : List Token) (opening : Token) : Prop where
  mem : opening ∈ us
  kind : opening.kind = .symbol .leftParen
  top : ∀ opened, (us.foldl pairing opened).head? = some opening

namespace Innermost

theorem concat (us : List Token) {opening : Token} (h : opening.kind = .symbol .leftParen) :
    Innermost (us ++ [opening]) opening :=
  ⟨by simp, h, fun opened => by simp [List.foldl_append, pairing, h]⟩

theorem append_left (h : Innermost us opening) (pre : List Token) : Innermost (pre ++ us) opening :=
  ⟨List.mem_append_right _ h.mem, h.kind, fun opened => by rw [List.foldl_append]; exact h.top _⟩

theorem append_right (h : Innermost us opening) {vs : List Token}
    (hvs : ∀ opened, vs.foldl pairing opened = opened) : Innermost (us ++ vs) opening :=
  ⟨List.mem_append_left _ h.mem, h.kind, fun opened => by rw [List.foldl_append, hvs]; exact h.top _⟩

end Innermost

end Grammar

namespace Parser

open Grammar

theorem peek_append_kind {us rest rest' : List Token} (h : (peek rest').kind = (peek rest).kind) :
    (peek (us ++ rest')).kind = (peek (us ++ rest)).kind := by
  cases us with
  | nil => exact h
  | cons u us => rfl

theorem exists_cons_of_peek {ts : List Token} {k : Token.Kind} (h : (peek ts).kind = k) (hk : k ≠ .finish) :
    ∃ t rest, ts = t :: rest ∧ t.kind = k :=
  ⟨_, _, eq_cons_of_peek ts (h ▸ hk), h⟩

/-- What a complaint says of the tokens read and of the token that the reader stopped at. -/
def Blames (us : List Token) (t : Token) : ParseError → Prop
  | .unexpectedToken found _ span => found = t.kind.text ∧ span = t.span
  | .unexpectedEnd _ span => t.kind = .finish ∧ span = t.span
  | .unclosedParen span => t.kind = .finish ∧ ∃ opening, Innermost us opening ∧ opening.span = span
  | _ => False

theorem Blames.append_left {us : List Token} {t : Token} {err : ParseError} (h : Blames us t err)
    (pre : List Token) : Blames (pre ++ us) t err := by
  cases err with
  | unclosedParen span =>
    obtain ⟨hfinish, opening, hopening, hspan⟩ := h
    exact ⟨hfinish, opening, hopening.append_left pre, hspan⟩
  | _ => exact h

def Begun (Whole : List Token → α → Prop) (us : List Token) : Prop := ∃ vs a, vs ≠ [] ∧ Whole (us ++ vs) a

def Behind (pre : List Token) (Whole : List Token → α → Prop) (us : List Token) (a : α) : Prop :=
  ∃ vs, us = pre ++ vs ∧ Whole vs a

/-- The verdict on a stream, with `pre` read before it. What makes it is the tokens `us` read of the stream and
the kind of the next token, or the next token itself if that is where reading stopped: on any stream that agrees
so far, `again` gives the same. Only a lack of levels is no such verdict. -/
inductive Verdict (Whole : List Token → α → Prop) (again : Parse α) (pre ts : List Token) :
    Except ParseError (α × List Token) → Prop where
  | read (us rest : List Token) (a : α) : ts = us ++ rest → Whole (pre ++ us) a →
      (∀ rest', (peek rest').kind = (peek rest).kind → again (us ++ rest') = .ok (a, rest')) →
      Verdict Whole again pre ts (.ok (a, rest))
  | stuck (us rest : List Token) (err : ParseError) : ts = us ++ rest → Begun Whole (pre ++ us) →
      Blames (pre ++ us) (peek rest) err →
      (∀ rest', peek rest' = peek rest → again (us ++ rest') = .error err) →
      Verdict Whole again pre ts (.error err)
  | refused (us rest : List Token) (limit : Nat) : ts = us ++ rest → (peek rest).kind ≠ .finish →
      Verdict Whole again pre ts (.error (.tooComplex (.depth limit) (peek rest).span))

namespace Verdict

variable {Whole : List Token → α → Prop} {again : Parse α} {pre ts : List Token}
variable {x : Except ParseError (α × List Token)}

theorem done (h : Whole pre a)
    (hagain : ∀ rest', (peek rest').kind = (peek ts).kind → again rest' = .ok (a, rest')) :
    Verdict Whole again pre ts (.ok (a, ts)) :=
  .read [] ts a rfl (by simpa using h) hagain

theorem fail (hbegun : Begun Whole pre) (hblames : Blames pre (peek ts) err)
    (hagain : ∀ rest', peek rest' = peek ts → again rest' = .error err) :
    Verdict Whole again pre ts (.error err) :=
  .stuck [] ts err rfl (by simpa using hbegun) (by simpa using hblames) hagain

theorem congr {again' : Parse α} (h : Verdict Whole again' pre ts x)
    (hagain : ∀ ts', (peek ts').kind = (peek ts).kind → again ts' = again' ts') :
    Verdict Whole again pre ts x := by
  cases h with
  | read us rest a hts hwhole hsame =>
    subst hts
    refine .read us rest a rfl hwhole fun rest' hk => ?_
    rw [hagain _ (peek_append_kind hk), hsame rest' hk]
  | stuck us rest err hts hbegun hblames hsame =>
    subst hts
    refine .stuck us rest err rfl hbegun hblames fun rest' hk => ?_
    rw [hagain _ (peek_append_kind (congrArg Token.kind hk)), hsame rest' hk]
  | refused us rest limit hts hk => exact .refused us rest limit hts hk

theorem imp {Whole' : List Token → α → Prop} (h : Verdict Whole again pre ts x)
    (himp : ∀ us a, Whole us a → Whole' us a) : Verdict Whole' again pre ts x := by
  cases h with
  | read us rest a hts hwhole hsame => exact .read us rest a hts (himp _ _ hwhole) hsame
  | stuck us rest err hts hbegun hblames hsame =>
    obtain ⟨vs, a, hne, hwhole⟩ := hbegun
    exact .stuck us rest err hts ⟨vs, a, hne, himp _ _ hwhole⟩ hblames hsame
  | refused us rest limit hts hk => exact .refused us rest limit hts hk

theorem map {Whole' : List Token → β → Prop} (h : Verdict Whole again pre ts x) (g : α → β)
    (himp : ∀ us a, Whole us a → Whole' us (g a)) :
    Verdict Whole' (fun ts => again ts >>= fun (a, rest) => .ok (g a, rest)) pre ts
      (x >>= fun (a, rest) => .ok (g a, rest)) := by
  cases h with
  | read us rest a hts hwhole hsame =>
    refine .read us rest (g a) hts (himp _ a hwhole) fun rest' hk => ?_
    rw [hsame rest' hk, ok_bind]
  | stuck us rest err hts hbegun hblames hsame =>
    obtain ⟨vs, a, hne, hwhole⟩ := hbegun
    refine .stuck us rest err hts ⟨vs, g a, hne, himp _ a hwhole⟩ hblames fun rest' hk => ?_
    rw [hsame rest' hk, error_bind]
  | refused us rest limit hts hk => exact .refused us rest limit hts hk

theorem cons {again' : Parse α} {t : Token} (h : Verdict Whole again' (pre ++ [t]) ts x)
    (hagain : ∀ rest, again (t :: rest) = again' rest) : Verdict Whole again pre (t :: ts) x := by
  cases h with
  | read us rest a hts hwhole hsame =>
    subst hts
    refine .read (t :: us) rest a rfl (by simpa using hwhole) fun rest' hk => ?_
    rw [List.cons_append, hagain, hsame rest' hk]
  | stuck us rest err hts hbegun hblames hsame =>
    subst hts
    refine .stuck (t :: us) rest err rfl (by simpa using hbegun) (by simpa using hblames) fun rest' hk => ?_
    rw [List.cons_append, hagain, hsame rest' hk]
  | refused us rest limit hts hk =>
    subst hts
    exact .refused (t :: us) rest limit rfl hk

/-- A reader of a part does not look at what stands before the part. -/
theorem shift (h : Verdict Whole again [] ts x) (pre : List Token) :
    Verdict (Behind pre Whole) again pre ts x := by
  cases h with
  | read us rest a hts hwhole hsame => exact .read us rest a hts ⟨_, rfl, hwhole⟩ hsame
  | stuck us rest err hts hbegun hblames hsame =>
    obtain ⟨vs, a, hne, hwhole⟩ := hbegun
    exact .stuck us rest err hts ⟨vs, a, hne, us ++ vs, by simp, hwhole⟩ (hblames.append_left pre) hsame
  | refused us rest limit hts hk => exact .refused us rest limit hts hk

/-- One reader behind another. The first part of a whole can always be carried on. -/
theorem bind {Part : List Token → α → Prop} {Whole : List Token → β → Prop} {again₁ : Parse α}
    (hx : Verdict Part again₁ pre ts x) (again₂ f : α → Parse β)
    (hgo : ∀ us a, Part us a → ∃ vs b, Whole (us ++ vs) b)
    (hf : ∀ us a rest, ts = us ++ rest → Part (pre ++ us) a →
      Verdict Whole (again₂ a) (pre ++ us) rest (f a rest)) :
    Verdict Whole (fun ts => again₁ ts >>= fun (a, rest) => again₂ a rest) pre ts
      (x >>= fun (a, rest) => f a rest) := by
  cases hx with
  | read us rest a hts hpart hsame =>
    subst hts
    have hnext := hf us a rest rfl hpart
    rw [ok_bind]
    dsimp only
    generalize f a rest = y at hnext
    cases hnext with
    | read vs rest b hrest hwhole hsame₂ =>
      subst hrest
      refine .read (us ++ vs) rest b (by simp) (by simpa using hwhole) fun rest' hk => ?_
      rw [List.append_assoc, hsame _ (peek_append_kind hk), ok_bind]
      exact hsame₂ rest' hk
    | stuck vs rest err hrest hbegun hblames hsame₂ =>
      subst hrest
      refine .stuck (us ++ vs) rest err (by simp) (by simpa using hbegun) (by simpa using hblames)
        fun rest' hk => ?_
      rw [List.append_assoc, hsame _ (peek_append_kind (congrArg Token.kind hk)), ok_bind]
      exact hsame₂ rest' hk
    | refused vs rest limit hrest hk =>
      subst hrest
      exact .refused (us ++ vs) rest limit (by simp) hk
  | stuck us rest err hts hbegun hblames hsame =>
    obtain ⟨vs, a, hne, hpart⟩ := hbegun
    obtain ⟨ws, b, hwhole⟩ := hgo _ a hpart
    refine .stuck us rest err hts ⟨vs ++ ws, b, by simp [hne], by simpa using hwhole⟩ hblames fun rest' hk => ?_
    rw [hsame rest' hk, error_bind]
  | refused us rest limit hts hk => exact .refused us rest limit hts hk

end Verdict

end Parser

end FilterSql
