import FilterSql.Proofs.Grammar
import FilterSql.Proofs.Outcome

/-! What the parser reads is a phrase of the grammar, and its demand fits the levels that were built. -/
namespace FilterSql.Parser

open Grammar

@[simp] theorem peek_cons (t : Token) (ts : List Token) : peek (t :: ts) = t := rfl

theorem eq_cons_of_peek (ts : List Token) (h : (peek ts).kind ≠ .finish) :
    ts = peek ts :: ts.tail := by
  cases ts with
  | nil => exact absurd rfl h
  | cons t ts => rfl

theorem enter_eq_ok {limit : Nat} {deeper : Option Level} {span : Span} {level : Level} :
    enter limit deeper span = .ok level ↔ deeper = some level := by
  cases deeper <;> simp [enter]

namespace Level

def operand (level : Level) : Connective → Parse Expr
  | .and => level.unary
  | .or => level.andExpr

def tail (level : Level) : Connective → Expr → Parse Expr
  | .and => level.andTail
  | .or => level.orTail

def whole (level : Level) (c : Connective) : Parse Expr := fun ts => do
  let (left, ts) ← level.operand c ts
  level.tail c left ts

theorem tail_above (limit : Nat) (deeper : Option Level) (c : Connective) :
    (above limit deeper).tail c = chain limit deeper c (fun l => l.operand c) (fun l => l.tail c) := by
  cases c <;> rfl

end Level

/-- A phrase stands at the front of a stream, before `rest`, and demands at most `room` levels. -/
def Reads (p : Phrase) (room : Nat) (ts : List Token) (e : Expr) (rest : List Token) : Prop :=
  ∃ us d, ts = us ++ rest ∧ Derives p us e d ∧ d ≤ room

namespace Reads

theorem imp {p q : Phrase} (hpq : ∀ us d, Derives p us e d → Derives q us e d)
    (h : Reads p room ts e rest) : Reads q room ts e rest := by
  obtain ⟨us, d, rfl, hd, hle⟩ := h
  exact ⟨us, d, rfl, hpq us d hd, hle⟩

end Reads

/-- A level reads phrases that demand at most `room` further levels. A tail takes a chain of `n`
connectives, for which `n` levels were entered, to a longer one. -/
structure Level.Sound (level : Level) (room : Nat) : Prop where
  unary : ∀ {ts e rest}, level.unary ts = .ok (e, rest) → Reads .unary room ts e rest
  tail : ∀ {c n us left d ts e rest}, Derives (.chain c n) us left d → d ≤ n + room →
    level.tail c left ts = .ok (e, rest) →
    ∃ vs m b, ts = vs ++ rest ∧ Derives (.chain c m) (us ++ vs) e b ∧ b ≤ n + room

def SoundBelow (deeper : Option Level) (room : Nat) : Prop :=
  ∀ level, deeper = some level → ∃ r, room = r + 1 ∧ level.Sound r

namespace Level.Sound

variable {level : Level} {room : Nat}

theorem whole (h : level.Sound room) {c : Connective}
    (hop : ∀ {ts e rest}, level.operand c ts = .ok (e, rest) →
      Reads (Grammar.operand c) room ts e rest)
    (heq : level.whole c ts = .ok (e, rest)) : ∃ n, Reads (.chain c n) room ts e rest := by
  obtain ⟨⟨left, ts'⟩, hleft, htail⟩ := bind_eq_ok.mp heq
  obtain ⟨us, d, rfl, hd, hle⟩ := hop hleft
  obtain ⟨vs, m, b, rfl, hb, hble⟩ := h.tail (.first hd) (by omega) htail
  exact ⟨m, us ++ vs, b, by simp, hb, by omega⟩

theorem operand (h : level.Sound room) {c : Connective}
    (heq : level.operand c ts = .ok (e, rest)) : Reads (Grammar.operand c) room ts e rest := by
  cases c with
  | and => exact h.unary heq
  | or =>
    obtain ⟨n, hr⟩ := h.whole (c := .and) h.unary heq
    exact hr.imp fun _ _ => .conjunction

theorem orExpr (h : level.Sound room) (heq : level.orExpr ts = .ok (e, rest)) :
    Reads .disjunction room ts e rest := by
  obtain ⟨n, hr⟩ := h.whole (c := .or) h.operand heq
  exact hr.imp fun _ _ => .disjunction

end Level.Sound

theorem group_sound {deeper : Option Level} (h : SoundBelow deeper room) {opening : Token}
    (hopen : opening.kind = .symbol .leftParen)
    (heq : group limit deeper opening.span ts = .ok (e, rest)) :
    Reads .primary room (opening :: ts) e rest := by
  obtain ⟨level, henter, hbody⟩ := bind_eq_ok.mp heq
  obtain ⟨r, rfl, hlevel⟩ := h level (enter_eq_ok.mp henter)
  obtain ⟨⟨listed, ts'⟩, hinner, hend⟩ := bind_eq_ok.mp hbody
  obtain ⟨us, d, hts, hd, hle⟩ := hlevel.orExpr hinner
  dsimp only at hend
  split at hend
  · rename_i hclose
    have hcons := eq_cons_of_peek ts' (by simp [hclose])
    cases hend
    refine ⟨opening :: (us ++ [peek ts']), 1 + d, ?_, .group hopen hclose hd, by omega⟩
    rw [hts, hcons]
    simp
  · cases hend
  · cases hend

theorem arguments_sound {level : Level} (h : level.Sound room) {bound : Nat}
    (heq : arguments level.orExpr opening bound ts = .ok ((es, closing), rest)) :
    ∃ args listed close, ts = listed ++ close :: rest ∧ close.kind = .symbol .rightParen ∧
      close.span = closing ∧ args.map Argument.expr = es ∧ args ≠ [] ∧ Separated args listed ∧
      (∀ a ∈ args, Derives .disjunction a.tokens a.expr a.demand) ∧ deepest args ≤ room := by
  induction bound generalizing ts es closing rest with
  | zero => cases heq
  | succ bound ih =>
    obtain ⟨⟨first, ts'⟩, hfirst, hend⟩ := bind_eq_ok.mp heq
    obtain ⟨us, d, hts, hd, hle⟩ := h.orExpr hfirst
    dsimp only at hend
    split at hend
    · rename_i hcomma
      have hcons := eq_cons_of_peek ts' (by simp [hcomma])
      obtain ⟨⟨⟨es', closing'⟩, rest'⟩, hmore, hend⟩ := bind_eq_ok.mp hend
      cases hend
      obtain ⟨args, listed, close, htail, hclose, hspan, rfl, hne, hsep, hall, hdeep⟩ := ih hmore
      obtain ⟨b, args, rfl⟩ := List.exists_cons_of_ne_nil hne
      refine ⟨⟨us, first, d⟩ :: b :: args, us ++ peek ts' :: listed, close, ?_, hclose, hspan,
        rfl, by simp, .more _ hcomma hsep, ?_, ?_⟩
      · rw [htail] at hcons
        rw [hts, hcons]
        simp
      · intro a ha
        rcases List.mem_cons.mp ha with rfl | ha
        · exact hd
        · exact hall a ha
      · rw [deepest_cons]
        exact Nat.max_le.mpr ⟨hle, hdeep⟩
    · rename_i hclose
      have hcons := eq_cons_of_peek ts' (by simp [hclose])
      cases hend
      refine ⟨[⟨us, first, d⟩], us, peek ts', by rw [← hcons, hts], hclose, rfl, rfl, by simp,
        .last _, ?_, ?_⟩
      · intro a ha
        cases List.mem_singleton.mp ha
        exact hd
      · simpa [deepest] using hle
    · cases hend
    · cases hend

theorem call_sound {deeper : Option Level} (h : SoundBelow deeper room) {name : Token}
    (hname : name.kind = .call word)
    (heq : call limit deeper word name.span ts = .ok (e, rest)) :
    Reads .primary room (name :: ts) e rest := by
  unfold call at heq
  dsimp only at heq
  split at heq
  · cases heq
  rename_i hopen
  have hopen : (peek ts).kind = .symbol .leftParen := Decidable.not_not.mp hopen
  have hcons := eq_cons_of_peek ts (by simp [hopen])
  obtain ⟨level, henter, heq⟩ := bind_eq_ok.mp heq
  obtain ⟨r, rfl, hlevel⟩ := h level (enter_eq_ok.mp henter)
  split at heq
  · rename_i hclose
    have hcons' := eq_cons_of_peek ts.tail (by simp [hclose])
    cases heq
    refine ⟨[name, peek ts, peek ts.tail], 1, ?_, .call hname hopen hclose .none ?_, by omega⟩
    · rw [hcons, hcons']
      simp
    · intro a ha
      cases ha
  · obtain ⟨⟨⟨es, closing⟩, rest'⟩, hargs, heq⟩ := bind_eq_ok.mp heq
    cases heq
    obtain ⟨args, listed, close, htail, hclose, rfl, rfl, -, hsep, hall, hdeep⟩ :=
      arguments_sound hlevel hargs
    refine ⟨name :: peek ts :: (listed ++ [close]), 1 + deepest args, ?_,
      .call hname hopen hclose hsep hall, by omega⟩
    rw [hcons, htail]
    simp

theorem primary_sound {deeper : Option Level} (h : SoundBelow deeper room)
    (heq : primary limit deeper ts = .ok (e, rest)) : Reads .primary room ts e rest := by
  unfold primary at heq
  dsimp only at heq
  split at heq
  · rename_i hk
    have hcons := eq_cons_of_peek ts (by simp [hk])
    cases heq
    exact ⟨[peek ts], 0, hcons, .literal hk, by omega⟩
  · rename_i hk
    have hcons := eq_cons_of_peek ts (by simp [hk])
    cases heq
    exact ⟨[peek ts], 0, hcons, .name hk, by omega⟩
  · rename_i hk
    rw [eq_cons_of_peek ts (by simp [hk])]
    exact call_sound h hk heq
  · rename_i hk
    rw [eq_cons_of_peek ts (by simp [hk])]
    exact group_sound h hk heq
  · cases heq
  · cases heq

theorem comparison_sound {deeper : Option Level} (h : SoundBelow deeper room)
    (heq : comparison limit deeper ts = .ok (e, rest)) : Reads .comparison room ts e rest := by
  obtain ⟨⟨left, ts'⟩, hleft, hend⟩ := bind_eq_ok.mp heq
  obtain ⟨us, d, hts, hd, hle⟩ := primary_sound h hleft
  dsimp only at hend
  split at hend
  · rename_i operator hk
    have hcons := eq_cons_of_peek ts' (by simp [hk])
    obtain ⟨⟨right, ts''⟩, hright, hend⟩ := bind_eq_ok.mp hend
    cases hend
    obtain ⟨vs, b, htail, hb, hble⟩ := primary_sound h hright
    refine ⟨us ++ peek ts' :: vs, max d b, ?_, .compare hk hd hb, Nat.max_le.mpr ⟨hle, hble⟩⟩
    rw [hts, hcons, htail]
    simp
  · cases hend
    exact ⟨us, d, hts, .alone hd, hle⟩

theorem unary_sound {deeper : Option Level} (h : SoundBelow deeper room)
    (heq : unary limit deeper ts = .ok (e, rest)) : Reads .unary room ts e rest := by
  unfold unary at heq
  dsimp only at heq
  split at heq
  · rename_i hk
    have hcons := eq_cons_of_peek ts (by simp [hk])
    obtain ⟨level, henter, heq⟩ := bind_eq_ok.mp heq
    obtain ⟨r, rfl, hlevel⟩ := h level (enter_eq_ok.mp henter)
    obtain ⟨⟨operand, ts'⟩, hop, heq⟩ := bind_eq_ok.mp heq
    cases heq
    obtain ⟨us, d, htail, hd, hle⟩ := hlevel.unary hop
    refine ⟨peek ts :: us, 1 + d, ?_, .not hk hd, by omega⟩
    rw [hcons, htail]
    simp
  · exact (comparison_sound h heq).imp fun _ _ => .positive

/-- A step of a chain enters the next level, so the levels entered and those left stay the same in
number. -/
theorem chain_sound {deeper : Option Level} (h : SoundBelow deeper room)
    (hleft : Derives (.chain c n) us left d) (hle : d ≤ n + room)
    (heq : chain limit deeper c (fun l => l.operand c) (fun l => l.tail c) left ts = .ok (e, rest)) :
    ∃ vs m b, ts = vs ++ rest ∧ Derives (.chain c m) (us ++ vs) e b ∧ b ≤ n + room := by
  unfold chain at heq
  dsimp only at heq
  split at heq
  · rename_i hk
    have hcons := eq_cons_of_peek ts (by simp [hk])
    obtain ⟨level, henter, heq⟩ := bind_eq_ok.mp heq
    obtain ⟨r, rfl, hlevel⟩ := h level (enter_eq_ok.mp henter)
    obtain ⟨⟨right, ts'⟩, hright, htail⟩ := bind_eq_ok.mp heq
    obtain ⟨vs, b, hts, hb, hble⟩ := hlevel.operand hright
    obtain ⟨ws, m, b', rfl, hb', hle'⟩ := hlevel.tail (.next hk hleft hb) (by omega) htail
    refine ⟨peek ts :: (vs ++ ws), m, b', ?_, by simpa using hb', by omega⟩
    rw [hcons, hts]
    simp
  · cases heq
    exact ⟨[], n, d, rfl, by simpa using hleft, hle⟩

theorem Level.sound_above {deeper : Option Level} (limit : Nat) (h : SoundBelow deeper room) :
    (Level.above limit deeper).Sound room where
  unary := unary_sound h
  tail := by
    intro c n us left d ts e rest hleft hle heq
    rw [Level.tail_above] at heq
    exact chain_sound h hleft hle heq

theorem level_sound (limit room : Nat) : (level limit room).Sound room := by
  induction room with
  | zero => exact Level.sound_above limit fun _ h => by cases h
  | succ room ih =>
    apply Level.sound_above limit
    intro below h
    cases h
    exact ⟨room, rfl, ih⟩

end FilterSql.Parser
