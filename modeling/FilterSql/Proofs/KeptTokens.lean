import Mathlib.Data.List.Basic
import FilterSql.Proofs.ClosedCatalog
import FilterSql.Proofs.Grammar

/-! Which tokens a node of a tree is made of. Parentheses around an expression leave no trace; every other token
is kept. A node spans its tokens from the first to the last one kept, its parts lie within it, and they stand in
the order in which they are written. -/
namespace FilterSql

namespace Span

def upTo (first last : Span) : Span := ⟨first.start, last.stop, first.line, first.column⟩

def Within (inner outer : Span) : Prop := outer.start ≤ inner.start ∧ inner.stop ≤ outer.stop

theorem cover_eq_upTo {a b : Span} (hstart : a.start ≤ b.start) (hstop : a.stop ≤ b.stop) :
    a.cover b = a.upTo b := by
  simp [cover, upTo, hstart, Nat.max_eq_right hstop]

theorem within_cover_left (a b : Span) : a.Within (a.cover b) := by
  unfold Within cover
  dsimp only
  split <;> omega

theorem within_cover_right (a b : Span) : b.Within (a.cover b) := by
  unfold Within cover
  dsimp only
  split <;> omega

end Span

namespace Token

structure Apart (ts : List Token) : Prop where
  filled : ∀ t ∈ ts, t.span.start < t.span.stop
  ordered : ts.Pairwise fun a b => a.span.stop ≤ b.span.start

theorem Apart.sublist {us ts : List Token} (h : Apart ts) (hsub : us.Sublist ts) : Apart us :=
  ⟨fun t ht => h.filled t (hsub.subset ht), h.ordered.sublist hsub⟩

theorem Apart.before {us vs : List Token} (h : Apart (us ++ vs)) {t u : Token} (ht : t ∈ us) (hu : u ∈ vs) :
    t.span.stop ≤ u.span.start :=
  (List.pairwise_append.mp h.ordered).2.2 t ht u hu

end Token

namespace Grammar

open Token

/-- The tokens that are not parentheses around an expression. It is known of the token before them whether it is
the name of a call, and of every parenthesis that is open, the innermost first, whether it belongs to a call. -/
def keptFrom : Bool → List Bool → List Token → List Token
  | _, _, [] => []
  | named, opened, t :: ts =>
    match t.kind with
    | .symbol .leftParen =>
      if named then t :: keptFrom false (true :: opened) ts else keptFrom false (false :: opened) ts
    | .symbol .rightParen =>
      if opened.headD false then t :: keptFrom false opened.tail ts else keptFrom false opened.tail ts
    | .call _ => t :: keptFrom true opened ts
    | _ => t :: keptFrom false opened ts

def kept (ts : List Token) : List Token := keptFrom false [] ts

theorem keptFrom_sublist (named : Bool) (opened : List Bool) (ts : List Token) :
    (keptFrom named opened ts).Sublist ts := by
  fun_induction keptFrom named opened ts with
  | case1 => exact .slnil
  | case2 _ _ _ _ ih => exact ih.cons_cons _
  | case3 _ _ _ _ _ _ ih => exact ih.cons _
  | case4 _ _ _ _ _ _ ih => exact ih.cons_cons _
  | case5 _ _ _ _ _ _ ih => exact ih.cons _
  | case6 _ _ _ _ _ _ ih => exact ih.cons_cons _
  | case7 _ _ _ _ _ _ _ ih => exact ih.cons_cons _

theorem kept_sublist (ts : List Token) : (kept ts).Sublist ts := keptFrom_sublist false [] ts

/-- Tokens whose parentheses are all matched among themselves: what is kept of them does not depend on what
stands around them. -/
def Enclosed (us : List Token) : Prop :=
  ∀ opened rest, keptFrom false opened (us ++ rest) = kept us ++ keptFrom false opened rest

namespace Enclosed

theorem kept_append (h : Enclosed us) (vs : List Token) : kept (us ++ vs) = kept us ++ kept vs := h [] vs

theorem append (hus : Enclosed us) (hvs : Enclosed vs) : Enclosed (us ++ vs) := by
  intro opened rest
  rw [List.append_assoc, hus, hvs, hus.kept_append, List.append_assoc]

theorem nil : Enclosed [] := fun _ _ => rfl

end Enclosed

def Plain (t : Token) : Prop :=
  t.kind ≠ .symbol .leftParen ∧ t.kind ≠ .symbol .rightParen ∧ ∀ word, t.kind ≠ .call word

theorem Plain.keptFrom_cons {t : Token} (h : Plain t) (opened : List Bool) (rest : List Token) :
    keptFrom false opened (t :: rest) = t :: keptFrom false opened rest := by
  obtain ⟨hleft, hright, hcall⟩ := h
  rw [keptFrom]
  split
  · contradiction
  · contradiction
  · rename_i word hk
    exact absurd hk (hcall word)
  · rfl

theorem Plain.kept_singleton {t : Token} (h : Plain t) : kept [t] = [t] := h.keptFrom_cons [] []

theorem Plain.enclosed {t : Token} (h : Plain t) : Enclosed [t] := by
  intro opened rest
  rw [h.kept_singleton]
  exact h.keptFrom_cons opened rest

section Parentheses

variable {name opening closing : Token}

theorem Enclosed.keptFrom_group (h : Enclosed us) (hopen : opening.kind = .symbol .leftParen)
    (hclose : closing.kind = .symbol .rightParen) (opened : List Bool) (rest : List Token) :
    keptFrom false opened (opening :: (us ++ [closing]) ++ rest) = kept us ++ keptFrom false opened rest := by
  -- The parenthesis that closes the group finds the mark of the one that opens it on top.
  have hinner := h (false :: opened) (closing :: rest)
  simp [keptFrom, hopen, hclose] at hinner ⊢
  exact hinner

theorem Enclosed.keptFrom_call (h : Enclosed us) (hname : name.kind = .call word)
    (hopen : opening.kind = .symbol .leftParen) (hclose : closing.kind = .symbol .rightParen)
    (opened : List Bool) (rest : List Token) :
    keptFrom false opened (name :: opening :: (us ++ [closing]) ++ rest) =
      name :: opening :: (kept us ++ [closing]) ++ keptFrom false opened rest := by
  have hinner := h (true :: opened) (closing :: rest)
  simp [keptFrom, hname, hopen, hclose] at hinner ⊢
  exact hinner

theorem Enclosed.kept_group (h : Enclosed us) (hopen : opening.kind = .symbol .leftParen)
    (hclose : closing.kind = .symbol .rightParen) : kept (opening :: (us ++ [closing])) = kept us := by
  simpa [kept, keptFrom] using h.keptFrom_group hopen hclose [] []

theorem Enclosed.kept_call (h : Enclosed us) (hname : name.kind = .call word)
    (hopen : opening.kind = .symbol .leftParen) (hclose : closing.kind = .symbol .rightParen) :
    kept (name :: opening :: (us ++ [closing])) = name :: opening :: (kept us ++ [closing]) := by
  simpa [kept, keptFrom] using h.keptFrom_call hname hopen hclose [] []

end Parentheses

theorem Separated.enclosed (h : Separated args listed) (hall : ∀ a ∈ args, Enclosed a.tokens) :
    Enclosed listed := by
  induction h with
  | none => exact .nil
  | last a => exact hall a (by simp)
  | @more _ _ _ comma a hcomma _ ih =>
    have hplain : Plain comma := by simp [Plain, hcomma]
    exact (hall a (by simp)).append
      (hplain.enclosed.append (ih fun b hb => hall b (List.mem_cons_of_mem _ hb)))

theorem Derives.enclosed (h : Derives p ts e d) : Enclosed ts := by
  induction h with
  | @literal _ token hk => exact Plain.enclosed (by simp [Plain, hk])
  | @name _ token hk => exact Plain.enclosed (by simp [Plain, hk])
  | call hname hopen hclose hsep _ ih =>
    intro opened rest
    rw [(hsep.enclosed ih).kept_call hname hopen hclose]
    exact (hsep.enclosed ih).keptFrom_call hname hopen hclose opened rest
  | group hopen hclose _ ih =>
    intro opened rest
    rw [ih.kept_group hopen hclose]
    exact ih.keptFrom_group hopen hclose opened rest
  | alone _ ih => exact ih
  | @compare _ _ _ _ _ _ _ sign hsign _ _ ihl ihr =>
    have hplain : Plain sign := by simp [Plain, hsign]
    exact ihl.append (hplain.enclosed.append ihr)
  | @not _ _ _ sign hsign _ ih =>
    have hplain : Plain sign := by simp [Plain, hsign]
    exact hplain.enclosed.append ih
  | positive _ ih => exact ih
  | first _ ih => exact ih
  | @next _ _ _ _ _ _ _ _ sign hsign _ _ ihl ihr =>
    have hplain : Plain sign := by simp [Plain, hsign]
    exact ihl.append (hplain.enclosed.append ihr)
  | conjunction _ ih => exact ih
  | disjunction _ ih => exact ih

def Frames (ks : List Token) (span : Span) : Prop :=
  ∃ first last, ks.head? = some first ∧ ks.getLast? = some last ∧ span = first.span.upTo last.span

theorem frames_one (t : Token) : Frames [t] t.span := ⟨t, t, rfl, rfl, rfl⟩

theorem Plain.frames {t : Token} (h : Plain t) : Frames (kept [t]) t.span := by
  rw [h.kept_singleton]
  exact frames_one t

theorem Frames.start_lt_stop (h : Frames ks s) (hks : Apart ks) : s.start < s.stop := by
  obtain ⟨first, last, hfirst, hlast, rfl⟩ := h
  obtain ⟨rest, rfl⟩ := List.head?_eq_some_iff.mp hfirst
  show first.span.start < last.span.stop
  have hfilled := hks.filled first (by simp)
  rcases List.mem_cons.mp (List.mem_of_getLast? hlast) with rfl | hmem
  · exact hfilled
  · have hstart := @Apart.before [first] rest hks first last (by simp) hmem
    have hstop := hks.filled last (List.mem_cons_of_mem _ hmem)
    omega

theorem Frames.cover (hk : Frames ks s) (hl : Frames ls t) (h : Apart (ks ++ ls)) (between : List Token) :
    Frames (ks ++ between ++ ls) (s.cover t) := by
  obtain ⟨first, end₁, hfirst, hend₁, rfl⟩ := hk
  obtain ⟨start₂, last, hstart₂, hlast, rfl⟩ := hl
  -- Tokens in order make the first span start first and the second one stop last.
  have hks : first ∈ ks ∧ end₁ ∈ ks := ⟨List.mem_of_head? hfirst, List.mem_of_getLast? hend₁⟩
  have hls : start₂ ∈ ls ∧ last ∈ ls := ⟨List.mem_of_head? hstart₂, List.mem_of_getLast? hlast⟩
  have hstart := h.before hks.1 hls.1
  have hstop := h.before hks.2 hls.2
  have hfirstFilled := h.filled first (by simp [hks])
  have hlastFilled := h.filled last (by simp [hls])
  refine ⟨first, last, by simp [hfirst], by simp [hlast], ?_⟩
  rw [Span.cover_eq_upTo (by simp only [Span.upTo]; omega) (by simp only [Span.upTo]; omega)]
  rfl

theorem Frames.joined (hts : Enclosed ts) (hbetween : Enclosed between) (h : Apart (ts ++ between ++ us))
    (hs : Frames (kept ts) s) (ht : Frames (kept us) t) :
    Frames (kept (ts ++ between ++ us)) (s.cover t) := by
  have hsub : (kept ts ++ kept us).Sublist (ts ++ between ++ us) :=
    ((kept_sublist ts).trans (List.sublist_append_left ts between)).append (kept_sublist us)
  rw [(hts.append hbetween).kept_append, hts.kept_append]
  exact hs.cover ht (h.sublist hsub) (kept between)

theorem Frames.signed {sign : Token} (hsign : Plain sign) (henclosed : Enclosed ts)
    (hts : Apart (ts ++ sign :: us)) (ihl : Apart ts → Frames (kept ts) s)
    (ihr : Apart us → Frames (kept us) t) : Frames (kept (ts ++ sign :: us)) (s.cover t) := by
  have hl := ihl (hts.sublist (List.sublist_append_left ts _))
  have hr := ihr (hts.sublist ((List.sublist_cons_self sign us).trans (List.sublist_append_right ts _)))
  simpa using Frames.joined henclosed hsign.enclosed (by simpa using hts) hl hr

/-- An expression spans its tokens from the first to the last one kept. -/
theorem Derives.frames (h : Derives p ts e d) (hts : Apart ts) : Frames (kept ts) e.span := by
  induction h with
  | literal hk => exact Plain.frames (by simp [Plain, hk])
  | name hk => exact Plain.frames (by simp [Plain, hk])
  | @call _ args listed name opening closing hname hopen hclose hsep hall _ =>
    have hlisted : Enclosed listed := hsep.enclosed fun a ha => (hall a ha).enclosed
    have hends : Apart ([name] ++ [closing]) :=
      hts.sublist (((List.nil_sublist _).append_right [closing]).cons opening |>.cons_cons name)
    rw [hlisted.kept_call hname hopen hclose]
    exact (frames_one name).cover (frames_one closing) hends (opening :: kept listed)
  | group hopen hclose hd ih =>
    rw [hd.enclosed.kept_group hopen hclose]
    exact ih (hts.sublist ((List.sublist_append_left _ _).cons _))
  | alone _ ih => exact ih hts
  | compare hsign he _ ihl ihr => exact Frames.signed (by simp [Plain, hsign]) he.enclosed hts ihl ihr
  | @not _ _ _ sign hsign _ ih =>
    have hplain : Plain sign := by simp [Plain, hsign]
    have hframes := ih (hts.sublist (List.sublist_cons_self sign _))
    exact Frames.joined hplain.enclosed .nil hts hplain.frames hframes
  | positive _ ih => exact ih hts
  | first _ ih => exact ih hts
  | next hsign he _ ihl ihr => exact Frames.signed (by simp [Plain, hsign]) he.enclosed hts ihl ihr
  | conjunction _ ih => exact ih hts
  | disjunction _ ih => exact ih hts

theorem Separated.infix_of_mem (h : Separated args listed) (ha : a ∈ args) : a.tokens <:+: listed := by
  induction h with
  | none => cases ha
  | last b =>
    obtain rfl := List.mem_singleton.mp ha
    exact List.infix_rfl
  | @more _ _ _ comma b _ _ ih =>
    rcases List.mem_cons.mp ha with rfl | ha
    · exact (List.prefix_append _ _).isInfix
    · exact (ih ha).trans ((List.suffix_cons comma _).trans (List.suffix_append b.tokens _)).isInfix

/-- Every node is spelled by a run of the tokens. -/
theorem Derives.node (h : Derives p ts e d) (ha : Expr.Node a e) :
    ∃ q us b, us <:+: ts ∧ Derives q us a b := by
  have hwider : ∀ {vs us : List Token}, vs <:+: us → (∃ q us b, us <:+: vs ∧ Derives q us a b) →
      ∃ q vs b, vs <:+: us ∧ Derives q vs a b := by
    rintro vs us hvs ⟨q, ws, b, hws, hd⟩
    exact ⟨q, ws, b, hws.trans hvs, hd⟩
  -- The root of a phrase is spelled by the whole of it, and every other node by tokens of one of its parts.
  induction h with
  | literal hk =>
    cases ha
    exact ⟨_, _, _, List.infix_rfl, .literal hk⟩
  | name hk =>
    cases ha
    exact ⟨_, _, _, List.infix_rfl, .name hk⟩
  | @call _ args listed name opening closing hname hopen hclose hsep hall ih =>
    cases ha with
    | root => exact ⟨_, _, _, List.infix_rfl, .call hname hopen hclose hsep hall⟩
    | argument hb ha =>
      obtain ⟨arg, harg, rfl⟩ := List.mem_map.mp hb
      exact hwider ((hsep.infix_of_mem harg).trans ⟨[name, opening], [closing], by simp⟩) (ih arg harg ha)
  | @group ts _ _ opening closing _ _ _ ih => exact hwider ⟨[opening], [closing], by simp⟩ (ih ha)
  | alone _ ih => exact ih ha
  | @compare _ ts _ _ us _ _ sign hsign hl hr ihl ihr =>
    cases ha with
    | root => exact ⟨_, _, _, List.infix_rfl, .compare hsign hl hr⟩
    | compareLeft ha => exact hwider ⟨[], sign :: us, by simp⟩ (ihl ha)
    | compareRight ha => exact hwider ⟨ts ++ [sign], [], by simp⟩ (ihr ha)
  | @not _ _ _ sign hsign hd ih =>
    cases ha with
    | root => exact ⟨_, _, _, List.infix_rfl, .not hsign hd⟩
    | operand ha => exact hwider ⟨[sign], [], by simp⟩ (ih ha)
  | positive _ ih => exact ih ha
  | first _ ih => exact ih ha
  | @next _ _ ts _ _ us _ _ sign hsign hl hr ihl ihr =>
    cases ha with
    | root => exact ⟨_, _, _, List.infix_rfl, .next hsign hl hr⟩
    | left ha => exact hwider ⟨[], sign :: us, by simp⟩ (ihl ha)
    | right ha => exact hwider ⟨ts ++ [sign], [], by simp⟩ (ihr ha)
  | conjunction _ ih => exact ih ha
  | disjunction _ ih => exact ih ha

end Grammar

def Expr.children : Expr → List Expr
  | literal .. => []
  | field .. => []
  | connect _ left right _ => [left, right]
  | not operand _ => [operand]
  | compare _ left right _ => [left, right]
  | call _ arguments _ => arguments

namespace Grammar

open Token

theorem Derives.ends (h : Derives p ts e d) (hts : Apart ts) :
    ∃ first ∈ ts, ∃ last ∈ ts, e.span = first.span.upTo last.span := by
  obtain ⟨first, last, hfirst, hlast, hspan⟩ := h.frames hts
  exact ⟨first, (kept_sublist ts).subset (List.mem_of_head? hfirst), last,
    (kept_sublist ts).subset (List.mem_of_getLast? hlast), hspan⟩

theorem Derives.before (he : Derives p ts e d) (hf : Derives q us f b) (h : Apart (ts ++ us)) :
    e.span.stop ≤ f.span.start := by
  obtain ⟨_, -, last, hlast, hspan⟩ := he.ends (h.sublist (List.sublist_append_left ts us))
  obtain ⟨first, hfirst, _, -, hspan'⟩ := hf.ends (h.sublist (List.sublist_append_right ts us))
  rw [hspan, hspan']
  exact h.before hlast hfirst

theorem Separated.pairwise (h : Separated args listed) (hlisted : Apart listed)
    (hall : ∀ a ∈ args, Derives .disjunction a.tokens a.expr a.demand) :
    (args.map Argument.expr).Pairwise fun a b => a.span.stop ≤ b.span.start := by
  induction h with
  | none => exact .nil
  | last a => exact List.pairwise_singleton _ _
  | @more b args listed comma a _ hsep ih =>
    have hrest : Apart listed :=
      hlisted.sublist ((List.sublist_cons_self comma listed).trans (List.sublist_append_right a.tokens _))
    refine List.pairwise_cons.mpr ⟨?_, ih hrest fun c hc => hall c (List.mem_cons_of_mem _ hc)⟩
    intro e he
    obtain ⟨c, hc, rfl⟩ := List.mem_map.mp he
    have hcomma : (a.tokens ++ c.tokens).Sublist (a.tokens ++ comma :: listed) :=
      (List.Sublist.refl a.tokens).append ((hsep.infix_of_mem hc).sublist.cons comma)
    exact (hall a (by simp)).before (hall c (List.mem_cons_of_mem _ hc)) (hlisted.sublist hcomma)

theorem Derives.within_call (h : Derives p ts e d) {name opening closing : Token} (hsub : ts.Sublist listed)
    (hcall : Apart (name :: opening :: (listed ++ [closing]))) :
    e.span.Within (name.span.cover closing.span) := by
  have hlisted : (name :: opening :: listed).Sublist (name :: opening :: (listed ++ [closing])) :=
    ((List.sublist_append_left listed [closing]).cons_cons opening).cons_cons name
  obtain ⟨first, hfirst, last, hlast, hspan⟩ :=
    h.ends (hcall.sublist (((hsub.cons opening).cons name).trans hlisted))
  have hstart : name.span.stop ≤ first.span.start :=
    @Apart.before [name] _ hcall name first (by simp) (by simp [hsub.subset hfirst])
  have hstop : last.span.stop ≤ closing.span.start :=
    @Apart.before (name :: opening :: listed) [closing] (by simpa using hcall) last closing
      (by simp [hsub.subset hlast]) (by simp)
  have hname := hcall.filled name (by simp)
  have hclosing := hcall.filled closing (by simp)
  obtain ⟨hleft, -⟩ := Span.within_cover_left name.span closing.span
  obtain ⟨-, hright⟩ := Span.within_cover_right name.span closing.span
  rw [hspan]
  constructor <;> simp only [Span.upTo] <;> omega

/-- The parts of an expression lie within it, one behind the other. -/
structure Nested (e : Expr) : Prop where
  within : ∀ c ∈ e.children, c.span.Within e.span
  ordered : e.children.Pairwise fun a b => a.span.stop ≤ b.span.start

theorem nested_of_pair {e l r : Expr} (hchildren : e.children = [l, r]) (hspan : e.span = l.span.cover r.span)
    (h : l.span.stop ≤ r.span.start) : Nested e := by
  refine ⟨?_, by rw [hchildren]; exact List.pairwise_pair.mpr h⟩
  rw [hchildren, hspan]
  intro c hc
  rcases List.mem_pair.mp hc with rfl | rfl
  · exact Span.within_cover_left _ _
  · exact Span.within_cover_right _ _

theorem Derives.nested (h : Derives p ts e d) (hts : Apart ts) : Nested e := by
  induction h with
  | literal _ => exact ⟨by simp [Expr.children], .nil⟩
  | name _ => exact ⟨by simp [Expr.children], .nil⟩
  | @call _ args listed name opening closing hname hopen hclose hsep hall _ =>
    have hlisted : Apart listed :=
      hts.sublist (((List.sublist_append_left listed [closing]).cons opening).cons name)
    refine ⟨?_, hsep.pairwise hlisted hall⟩
    intro c hc
    obtain ⟨a, ha, rfl⟩ := List.mem_map.mp hc
    exact (hall a ha).within_call (hsep.infix_of_mem ha).sublist hts
  | group _ _ _ ih => exact ih (hts.sublist ((List.sublist_append_left _ _).cons _))
  | alone _ ih => exact ih hts
  | compare _ he hf _ _ => exact nested_of_pair rfl rfl (he.before hf (hts.sublist (by simp)))
  | @not _ e _ sign _ _ _ =>
    refine ⟨?_, List.pairwise_singleton _ _⟩
    intro c hc
    obtain rfl : c = e := List.mem_singleton.mp hc
    exact Span.within_cover_right sign.span c.span
  | positive _ ih => exact ih hts
  | first _ ih => exact ih hts
  | next _ he hf _ _ => exact nested_of_pair rfl rfl (he.before hf (hts.sublist (by simp)))
  | conjunction _ ih => exact ih hts
  | disjunction _ ih => exact ih hts

end Grammar

end FilterSql
