import FilterSql.Proofs.SourcePlaces
import FilterSql.Token.Lexer

/-! Where the tokens of a text stand. Each begins where the one before it has ended or later, and the mark
of the end comes last and nowhere else. -/
namespace FilterSql

namespace Token

/-- Tokens of a text from the byte `start` on. -/
inductive Laid : Nat → List Token → Prop where
  | finish {span : Span} : start ≤ span.start → Laid start [.finish span]
  | token {t : Token} : start ≤ t.span.start → t.span.start < t.span.stop → t.kind ≠ .finish →
      Laid t.span.stop ts → Laid start (t :: ts)

theorem Laid.le_start (h : Laid start ts) {t : Token} (ht : t ∈ ts) : start ≤ t.span.start := by
  induction h with
  | finish hle =>
    cases List.mem_singleton.mp ht
    exact hle
  | token hle hlt _ _ ih =>
    rcases List.mem_cons.mp ht with rfl | ht
    · exact hle
    · have := ih ht
      omega

theorem Laid.pairwise_start (h : Laid start ts) :
    ts.Pairwise fun a b => a.span.start < b.span.start := by
  induction h with
  | finish => exact List.pairwise_singleton _ _
  | token _ hlt _ hrest ih =>
    rw [List.pairwise_cons]
    refine ⟨?_, ih⟩
    intro b hb
    have := hrest.le_start hb
    omega

theorem Laid.exists_finish (h : Laid start ts) :
    ∃ us eof, ts = us ++ [eof] ∧ (∀ t ∈ us, t.kind ≠ .finish) ∧ eof.kind = .finish := by
  induction h with
  | @finish _ span _ => exact ⟨[], .finish span, rfl, by simp, rfl⟩
  | @token _ _ t _ _ hkind _ ih =>
    obtain ⟨us, eof, rfl, hus, heof⟩ := ih
    exact ⟨t :: us, eof, rfl, by simpa [hkind] using hus, heof⟩

end Token

namespace Lexeme

theorem numberKind_ne_finish (p : Position) (lexeme : List Char) :
    numberKind p lexeme ≠ .ok .finish := by
  unfold numberKind
  split
  · simp
  · dsimp only
    split <;> simp

theorem kind_ne_finish (p : Position) (lexeme : List Char) (shape : Shape) :
    Lexeme.kind p lexeme shape ≠ .ok .finish := by
  cases shape with
  | number => exact numberKind_ne_finish p lexeme
  | closedString =>
    unfold Lexeme.kind
    dsimp only
    split <;> simp
  | _ => simp [Lexeme.kind]

end Lexeme

/-- With a mark of the end behind the text, tokens and mark lie one behind the other. -/
theorem laid_tokensFrom {p : Position} {done : List Token} {cs : List Char} {tokens : List Token}
    (h : tokensFrom p done cs = .ok tokens) {finish : Span} (hfinish : p.offset + Text.byteLength cs ≤ finish.start) :
    ∃ ts, tokens = done.reverse ++ ts ∧ Token.Laid p.offset (ts ++ [.finish finish]) := by
  fun_induction tokensFrom p done cs with
  | case1 p done cs hblank =>
    cases h
    exact ⟨[], by simp, .finish (by omega)⟩
  | case2 => cases h
  | case3 p done cs c rest hcs here shape length hcut lexeme kind hkind token ih =>
    have hhere := p.offset_after (cs.takeWhile Text.isBlank)
    have hstop := here.offset_after lexeme
    have hpos : 0 < Text.byteLength lexeme := by
      have := c.utf8Size_pos
      simp only [lexeme, Text.byteLength_cons]
      omega
    have hbytes : Text.byteLength cs = Text.byteLength (cs.takeWhile Text.isBlank) +
        (Text.byteLength lexeme + Text.byteLength (rest.drop (length - 1))) := by
      have hparts : cs = cs.takeWhile Text.isBlank ++ (lexeme ++ rest.drop (length - 1)) := by
        rw [List.cons_append, List.take_append_drop, ← hcs, List.takeWhile_append_dropWhile]
      rw [← Text.byteLength_append, ← Text.byteLength_append, ← hparts]
    obtain ⟨ts, rfl, hts⟩ := ih h (by rw [hstop, hhere]; omega)
    refine ⟨token :: ts, by simp, ?_⟩
    rw [hstop] at hts
    apply Token.Laid.token
    · simp only [token, Position.span, here]
      omega
    · simp only [token, Position.span]
      omega
    · rintro rfl
      exact Lexeme.kind_ne_finish _ _ _ hkind
    · exact hts

theorem tokenize_eq_ok {source : String} {tokens : List Token} (h : tokenize source = .ok tokens) :
    ∃ ts, tokensFrom .start [] source.toList = .ok ts ∧
      tokens = ts ++ [.finish ((Source.place source.toList).span [])] := by
  unfold tokenize at h
  cases hts : tokensFrom .start [] source.toList with
  | error e =>
    rw [hts] at h
    cases h
  | ok ts =>
    rw [hts] at h
    cases h
    exact ⟨ts, rfl, rfl⟩

theorem tokenize_eq_error {source : String} {e : LexError} :
    tokenize source = .error e ↔ tokensFrom .start [] source.toList = .error e := by
  unfold tokenize
  cases tokensFrom .start [] source.toList with
  | error e' => exact ⟨fun h => by cases h; rfl, fun h => by cases h; rfl⟩
  | ok ts => exact ⟨nofun, nofun⟩

theorem laid_of_tokenize {source : String} {tokens : List Token} (h : tokenize source = .ok tokens) :
    Token.Laid 0 tokens := by
  obtain ⟨ts, hts, rfl⟩ := tokenize_eq_ok h
  have hend : Position.start.offset + Text.byteLength source.toList ≤
      ((Source.place source.toList).span []).start := Nat.le_of_eq (Nat.zero_add _)
  obtain ⟨us, rfl, hlaid⟩ := laid_tokensFrom hts hend
  exact hlaid

end FilterSql
