import FilterSql.Catalog.Standard
import FilterSql.Proofs.Skeleton
import FilterSql.Proofs.TokenLayout

/-! A filter can only name the fields of its catalog. A name outside is refused before anything else is
looked at, the first one in the source is the one reported, and in a predicate every leaf holds the field
that the source names at its place. -/
namespace FilterSql

theorem Path.text_ofText (word : String) : (Path.ofText word).text = word := by
  have hsegments : (Path.ofText word).segments.map String.toList = word.toList.splitOn '.' := by
    simp [ofText, Function.comp_def]
  apply String.toList_injective
  rw [text, String.toList_intercalate, hsegments]
  exact List.intercalate_splitOn '.'

def Token.named? (t : Token) : Option (String × Span) :=
  match t.kind with
  | .name word => some (word, t.span)
  | _ => none

namespace Expr

/-- `a` stands somewhere in an expression. -/
inductive Node (a : Expr) : Expr → Prop where
  | root : Node a a
  | left : Node a l → Node a (.connect c l r s)
  | right : Node a r → Node a (.connect c l r s)
  | operand : Node a e → Node a (.not e s)
  | compareLeft : Node a l → Node a (.compare op l r s)
  | compareRight : Node a r → Node a (.compare op l r s)
  | argument : b ∈ args → Node a b → Node a (.call f args s)

def words (e : Expr) : List (String × Span) := e.names.map fun n => (n.1.text, n.2)

theorem namesOfAll_eq_flatMap (es : List Expr) : namesOfAll es = es.flatMap names := by
  induction es with
  | nil => rfl
  | cons e es ih => rw [namesOfAll, ih, List.flatMap_cons]

theorem node_of_mem_names {n : Path × Span} : (e : Expr) → n ∈ e.names → Node (.field n.1 n.2) e
  | .literal .., h => by simp [names] at h
  | .field path span, h => by
    simp only [names, List.mem_singleton] at h
    rw [h]
    exact .root
  | .connect _ l r _, h => by
    rw [names, List.mem_append] at h
    rcases h with h | h
    · exact .left (node_of_mem_names l h)
    · exact .right (node_of_mem_names r h)
  | .not e _, h => .operand (node_of_mem_names e h)
  | .compare _ l r _, h => by
    rw [names, List.mem_append] at h
    rcases h with h | h
    · exact .compareLeft (node_of_mem_names l h)
    · exact .compareRight (node_of_mem_names r h)
  | .call _ args _, h => by
    rw [names, namesOfAll_eq_flatMap, List.mem_flatMap] at h
    obtain ⟨b, hb, h⟩ := h
    exact .argument hb (node_of_mem_names b h)

theorem mem_names_iff {e : Expr} {path : Path} {span : Span} :
    (path, span) ∈ e.names ↔ Node (.field path span) e := by
  refine ⟨node_of_mem_names e, ?_⟩
  intro h
  induction h with
  | root => simp [names]
  | left _ ih => simp [names, ih]
  | right _ ih => simp [names, ih]
  | operand _ ih => simpa [names] using ih
  | compareLeft _ ih => simp [names, ih]
  | compareRight _ ih => simp [names, ih]
  | argument hb _ ih =>
    rw [names, namesOfAll_eq_flatMap, List.mem_flatMap]
    exact ⟨_, hb, ih⟩

end Expr

namespace Grammar

theorem named?_of_kind {t : Token} {k : Token.Kind} (h : t.kind = k) (hk : ∀ word, k ≠ .name word) :
    t.named? = none := by
  unfold Token.named?
  split
  · rename_i word hword
    exact absurd (h.symm.trans hword) (hk word)
  · rfl

theorem Separated.named (h : Separated args listed)
    (hargs : ∀ a ∈ args, a.expr.words = a.tokens.filterMap Token.named?) :
    (args.map Argument.expr).flatMap Expr.words = listed.filterMap Token.named? := by
  induction h with
  | none => rfl
  | last a => simpa using hargs a
  | more a hcomma _ ih =>
    rw [List.map_cons, List.flatMap_cons, ih fun b hb => hargs b (List.mem_cons_of_mem _ hb),
      hargs a List.mem_cons_self, List.filterMap_append, List.filterMap_cons,
      named?_of_kind hcomma (by simp)]

theorem Derives.words (h : Derives p ts e d) : e.words = ts.filterMap Token.named? := by
  induction h with
  | literal hk => simp [Expr.words, Expr.names, named?_of_kind hk]
  | name hk => simp [Expr.words, Expr.names, Token.named?, hk, Path.text_ofText]
  | @call word args listed name opening closing hname hopen hclose hsep _ ih =>
    have hargs := hsep.named ih
    have hflat : (Expr.call word (args.map Argument.expr) (name.span.cover closing.span)).words =
        (args.map Argument.expr).flatMap Expr.words := by
      rw [Expr.words, Expr.names, Expr.namesOfAll_eq_flatMap, List.map_flatMap]
      rfl
    simp [hflat, hargs, named?_of_kind hname, named?_of_kind hopen, named?_of_kind hclose]
  | group hopen hclose _ ih =>
    simp [ih, named?_of_kind hopen, named?_of_kind hclose]
  | alone _ ih => exact ih
  | compare hsign _ _ ihl ihr =>
    rw [List.filterMap_append, List.filterMap_cons, named?_of_kind hsign (by simp), ← ihl, ← ihr]
    simp [Expr.words, Expr.names]
  | not hsign _ ih =>
    rw [List.filterMap_cons, named?_of_kind hsign (by simp), ← ih]
    simp [Expr.words, Expr.names]
  | positive _ ih => exact ih
  | first _ ih => exact ih
  | next hsign _ _ ihl ihr =>
    rw [List.filterMap_append, List.filterMap_cons, named?_of_kind hsign (by simp), ← ihl, ← ihr]
    simp [Expr.words, Expr.join, Expr.names]
  | conjunction _ ih => exact ih
  | disjunction _ ih => exact ih

theorem filterMap_sentence {start : Nat} {ts : List Token} (h : Token.Laid start ts) :
    (sentence ts).filterMap Token.named? = ts.filterMap Token.named? := by
  obtain ⟨us, eof, rfl, hus, heof⟩ := h.exists_finish
  have hsentence : sentence (us ++ [eof]) = us := sentence_append hus heof
  rw [hsentence, List.filterMap_append]
  simp [named?_of_kind heof]

end Grammar

theorem Expr.words_of_ofText {limits : Limits} {source : String} {e : Expr}
    (h : Expr.ofText limits source = .ok e) :
    ∃ tokens, tokenize source = .ok tokens ∧ e.words = tokens.filterMap Token.named? := by
  obtain ⟨tokens, htokens, he⟩ := bind_eq_ok.mp h
  have htokens := mapError_eq_ok.mp htokens
  obtain ⟨d, hd⟩ := Grammar.derives_sentence (mapError_eq_ok.mp he)
  exact ⟨tokens, htokens, by rw [hd.words, Grammar.filterMap_sentence (laid_of_tokenize htokens)]⟩

theorem Expr.pairwise_words {limits : Limits} {source : String} {e : Expr}
    (h : Expr.ofText limits source = .ok e) : e.words.Pairwise fun a b => a.2.start < b.2.start := by
  obtain ⟨tokens, htokens, hwords⟩ := Expr.words_of_ofText h
  rw [hwords]
  refine (laid_of_tokenize htokens).pairwise_start.filterMap _ ?_
  intro a b hlt x hx y hy
  unfold Token.named? at hx hy
  split at hx <;> cases hx
  split at hy <;> cases hy
  exact hlt

namespace Predicate

def Stranger (catalog : Catalog) (e : Expr) (name : String) (span : Span) : Prop :=
  (∃ path, path.text = name ∧ Expr.Node (.field path span) e) ∧ ∀ f ∈ catalog.fields, f.name ≠ name

theorem lookup_isNone_iff {catalog : Catalog} {name : String} :
    (catalog.lookup name).isNone ↔ ∀ f ∈ catalog.fields, f.name ≠ name := by
  simp [Catalog.lookup_eq_find?, List.find?_eq_none]

theorem stranger_iff {catalog : Catalog} {e : Expr} {name : String} {span : Span} :
    Stranger catalog e name span ↔ (name, span) ∈ e.words ∧ (catalog.lookup name).isNone := by
  unfold Stranger Expr.words
  rw [lookup_isNone_iff, List.mem_map]
  constructor
  · rintro ⟨⟨path, rfl, hnode⟩, hnone⟩
    exact ⟨⟨(path, span), Expr.mem_names_iff.mpr hnode, rfl⟩, hnone⟩
  · rintro ⟨⟨⟨path, span'⟩, hmem, heq⟩, hnone⟩
    cases heq
    exact ⟨⟨path, rfl, Expr.mem_names_iff.mp hmem⟩, hnone⟩

/-- A result that is not a complaint about a name. -/
def NamesKnown (r : Except SemanticError α) : Prop := ∀ name span, r ≠ .error (.unknownField name span)

theorem namesKnown_bind {x : Except SemanticError α} {f : α → Except SemanticError β}
    (hx : NamesKnown x) (hf : ∀ a, NamesKnown (f a)) : NamesKnown (x >>= f) := by
  cases x with
  | error e =>
    intro name span h
    cases h
    exact hx name span rfl
  | ok a => exact hf a

theorem namesKnown_ok (a : α) : NamesKnown (.ok a) := fun _ _ h => by cases h

theorem namesKnown_mismatch (span : Span) (cause : Mismatch) :
    NamesKnown (mismatch span cause : Except SemanticError α) := fun _ _ h => by cases h

theorem namesKnown_literalOperand (e : Expr) : NamesKnown (literalOperand e) := by
  cases e with
  | literal => exact namesKnown_ok _
  | _ => exact namesKnown_mismatch _ _

section Binding

variable {catalog : Catalog}

theorem namesKnown_resolve {path : Path} {span : Span} (h : (catalog.lookup path.text).isSome) :
    NamesKnown (resolve catalog path span) := by
  obtain ⟨field, hfield⟩ := Option.isSome_iff_exists.mp h
  rw [resolve_eq_ok.mpr hfield]
  exact namesKnown_ok field

theorem namesKnown_resolveOperand {e : Expr} (h : ∀ n ∈ e.names, (catalog.lookup n.1.text).isSome) :
    NamesKnown (resolveOperand catalog e) := by
  cases e with
  | field path span =>
    obtain ⟨field, hfield⟩ := Option.isSome_iff_exists.mp (h (path, span) (by simp [Expr.names]))
    rw [resolveOperand, resolve_eq_ok.mpr hfield]
    exact namesKnown_ok _
  | _ => exact namesKnown_ok _

theorem namesKnown_bindComparison {operator : Comparison} {left right : Expr}
    (hl : ∀ n ∈ left.names, (catalog.lookup n.1.text).isSome)
    (hr : ∀ n ∈ right.names, (catalog.lookup n.1.text).isSome) :
    NamesKnown (bindComparison catalog operator left right) := by
  refine namesKnown_bind (namesKnown_resolveOperand hl) fun leftField => ?_
  refine namesKnown_bind (namesKnown_resolveOperand hr) fun rightField => ?_
  cases leftField with
  | none =>
    cases rightField with
    | none => exact namesKnown_mismatch _ _
    | some => exact namesKnown_bind (namesKnown_literalOperand left) fun _ => namesKnown_ok _
  | some =>
    cases rightField with
    | none => exact namesKnown_bind (namesKnown_literalOperand right) fun _ => namesKnown_ok _
    | some => exact namesKnown_mismatch _ _

theorem namesKnown_bindCall {name : String} {arguments : List Expr} {span : Span}
    (h : ∀ n ∈ Expr.namesOfAll arguments, (catalog.lookup n.1.text).isSome) :
    NamesKnown (bindCall catalog name arguments span) := by
  unfold bindCall
  split
  · intro _ _ heq
    cases heq
  · split
    · rename_i path pathSpan needle
      have hpath := h (path, pathSpan) (by simp [Expr.namesOfAll, Expr.names])
      refine namesKnown_bind (namesKnown_resolve hpath) fun field => ?_
      split
      · exact namesKnown_bind (namesKnown_literalOperand _) fun _ => namesKnown_ok _
      · intro _ _ heq
        cases heq
    · exact namesKnown_mismatch _ _
    · exact namesKnown_mismatch _ _

/-- Where every name is known, a fault is one of shape. -/
theorem namesKnown_bindExpr {e : Expr} (h : ∀ n ∈ e.names, (catalog.lookup n.1.text).isSome) :
    NamesKnown (bindExpr catalog e) := by
  fun_induction bindExpr catalog e with
  | case1 left right span ihl ihr =>
    refine namesKnown_bind (ihl fun n hn => h n (by simp [Expr.names, hn])) fun _ => ?_
    exact namesKnown_bind (ihr fun n hn => h n (by simp [Expr.names, hn])) fun _ => namesKnown_ok _
  | case2 left right span ihl ihr =>
    refine namesKnown_bind (ihl fun n hn => h n (by simp [Expr.names, hn])) fun _ => ?_
    exact namesKnown_bind (ihr fun n hn => h n (by simp [Expr.names, hn])) fun _ => namesKnown_ok _
  | case3 operand span ih => exact namesKnown_bind (ih h) fun _ => namesKnown_ok _
  | case4 operator left right span =>
    exact namesKnown_bindComparison (fun n hn => h n (by simp [Expr.names, hn]))
      (fun n hn => h n (by simp [Expr.names, hn]))
  | case5 name arguments span => exact namesKnown_bindCall h
  | case6 path span =>
    refine namesKnown_bind (namesKnown_resolve (h (path, span) (by simp [Expr.names]))) fun field => ?_
    split
    · exact namesKnown_ok _
    · exact namesKnown_mismatch _ _
  | case7 value span => exact namesKnown_mismatch _ _

theorem bind_eq_unknownField_iff {e : Expr} {name : String} {span : Span} :
    bind catalog e = .error (.unknownField name span) ↔
      e.words.find? (fun n => (catalog.lookup n.1).isNone) = some (name, span) := by
  have hfind : e.words.find? (fun n => (catalog.lookup n.1).isNone) =
      (e.names.find? (unknown catalog)).map fun n => (n.1.text, n.2) := by
    rw [Expr.words, List.find?_map]
    rfl
  rw [hfind, bind, checkNames]
  cases hunknown : e.names.find? (unknown catalog) with
  | some n =>
    simp only [Option.map_some, Option.some.injEq, Prod.mk.injEq]
    constructor
    · intro h
      cases h
      exact ⟨rfl, rfl⟩
    · rintro ⟨rfl, rfl⟩
      rfl
  | none =>
    have hknown : ∀ n ∈ e.names, (catalog.lookup n.1.text).isSome := by
      intro n hn
      have := List.find?_eq_none.mp hunknown n hn
      rw [unknown, Bool.not_eq_true, Option.isNone_eq_false_iff] at this
      exact this
    rw [Parser.ok_bind]
    simpa using namesKnown_bindExpr hknown name span

theorem resolve_mem {path : Path} {span : Span} {field : Field}
    (h : resolve catalog path span = .ok field) : field ∈ catalog.fields ∧ field.name = path.text := by
  have hfind := resolve_eq_ok.mp h
  rw [Catalog.lookup_eq_find?] at hfind
  exact ⟨List.mem_of_find?_eq_some hfind, by simpa using List.find?_some hfind⟩

/-- The fields of a predicate are the catalog's fields of the names given, one for one. -/
def Follows (catalog : Catalog) (p : Predicate Literal) (names : List (Path × Span)) : Prop :=
  (∀ f ∈ p.fields, f ∈ catalog.fields) ∧ p.fields.map Field.name = names.map (·.1.text)

theorem names_literalOperand {e : Expr} {value : Literal} (h : literalOperand e = .ok value) :
    e.names = [] := by
  cases e with
  | literal => rfl
  | _ => cases h

theorem resolveOperand_eq_some {e : Expr} {field : Field}
    (h : resolveOperand catalog e = .ok (some field)) :
    field ∈ catalog.fields ∧ e.names.map (·.1.text) = [field.name] := by
  cases e with
  | field path span =>
    rw [resolveOperand] at h
    cases hresolve : resolve catalog path span with
    | error =>
      rw [hresolve] at h
      cases h
    | ok found =>
      rw [hresolve] at h
      cases h
      obtain ⟨hmem, hname⟩ := resolve_mem hresolve
      exact ⟨hmem, by simp [Expr.names, hname]⟩
  | _ => cases h

theorem follows_bindComparison {operator : Comparison} {left right : Expr} {p : Predicate Literal}
    (h : bindComparison catalog operator left right = .ok p) :
    Follows catalog p (left.names ++ right.names) := by
  obtain ⟨leftField, hleft, h⟩ := bind_eq_ok.mp h
  obtain ⟨rightField, hright, h⟩ := bind_eq_ok.mp h
  cases leftField with
  | none =>
    cases rightField with
    | none => cases h
    | some field =>
      obtain ⟨value, hvalue, h⟩ := bind_eq_ok.mp h
      cases h
      obtain ⟨hmem, hname⟩ := resolveOperand_eq_some hright
      refine ⟨by simpa [fields] using hmem, ?_⟩
      rw [names_literalOperand hvalue, List.nil_append, hname, fields, List.map_singleton]
  | some field =>
    cases rightField with
    | some => cases h
    | none =>
      obtain ⟨value, hvalue, h⟩ := bind_eq_ok.mp h
      cases h
      obtain ⟨hmem, hname⟩ := resolveOperand_eq_some hleft
      refine ⟨by simpa [fields] using hmem, ?_⟩
      rw [names_literalOperand hvalue, List.append_nil, hname, fields, List.map_singleton]

theorem follows_bindCall {name : String} {arguments : List Expr} {span : Span} {p : Predicate Literal}
    (h : bindCall catalog name arguments span = .ok p) :
    Follows catalog p (Expr.namesOfAll arguments) := by
  unfold bindCall at h
  split at h
  case h_1 => cases h
  case h_2 =>
    split at h
    case h_1 path pathSpan needle =>
      obtain ⟨field, hfield, h⟩ := bind_eq_ok.mp h
      split at h
      case isFalse => cases h
      case isTrue =>
        obtain ⟨value, hvalue, h⟩ := bind_eq_ok.mp h
        cases h
        obtain ⟨hmem, hname⟩ := resolve_mem hfield
        refine ⟨by simpa [fields] using hmem, ?_⟩
        simp [Expr.namesOfAll, Expr.names, names_literalOperand hvalue, fields, hname]
    case h_2 => cases h
    case h_3 => cases h

theorem Follows.append {l r : Predicate Literal} {ns ms : List (Path × Span)}
    (hl : Follows catalog l ns) (hr : Follows catalog r ms) :
    (∀ f ∈ l.fields ++ r.fields, f ∈ catalog.fields) ∧
      (l.fields ++ r.fields).map Field.name = (ns ++ ms).map (·.1.text) := by
  refine ⟨?_, by rw [List.map_append, List.map_append, hl.2, hr.2]⟩
  intro f hf
  rcases List.mem_append.mp hf with hf | hf
  · exact hl.1 f hf
  · exact hr.1 f hf

/-- A bound predicate has one leaf for each name of the expression, in the same order. -/
theorem follows_bindExpr {e : Expr} {p : Predicate Literal} (h : bindExpr catalog e = .ok p) :
    Follows catalog p e.names := by
  fun_induction bindExpr catalog e generalizing p with
  | case1 left right span ihl ihr =>
    obtain ⟨l, hl, h⟩ := bind_eq_ok.mp h
    obtain ⟨r, hr, h⟩ := bind_eq_ok.mp h
    cases h
    exact (ihl hl).append (ihr hr)
  | case2 left right span ihl ihr =>
    obtain ⟨l, hl, h⟩ := bind_eq_ok.mp h
    obtain ⟨r, hr, h⟩ := bind_eq_ok.mp h
    cases h
    exact (ihl hl).append (ihr hr)
  | case3 operand span ih =>
    obtain ⟨q, hq, h⟩ := bind_eq_ok.mp h
    cases h
    have hfollows : Follows catalog q operand.names := ih hq
    exact hfollows
  | case4 operator left right span => exact follows_bindComparison h
  | case5 name arguments span => exact follows_bindCall h
  | case6 path span =>
    obtain ⟨field, hfield, h⟩ := bind_eq_ok.mp h
    split at h
    case isFalse => cases h
    case isTrue =>
      cases h
      obtain ⟨hmem, hname⟩ := resolve_mem hfield
      exact ⟨by simpa [fields] using hmem, by simp [fields, Expr.names, hname]⟩
  | case7 value span => cases h

end Binding

theorem find?_eq_some_iff_least {l : List (String × Span)} (hl : l.Pairwise fun a b => a.2.start < b.2.start)
    {p : String × Span → Bool} {a : String × Span} :
    l.find? p = some a ↔ (a ∈ l ∧ p a = true) ∧ ∀ b, b ∈ l ∧ p b = true → a.2.start ≤ b.2.start := by
  induction l with
  | nil => simp
  | cons x l ih =>
    obtain ⟨hx, hrest⟩ := List.pairwise_cons.mp hl
    by_cases hpx : p x = true
    · rw [List.find?_cons_of_pos hpx, Option.some.injEq]
      constructor
      · rintro rfl
        refine ⟨⟨List.mem_cons_self, hpx⟩, ?_⟩
        rintro b ⟨hb, -⟩
        rcases List.mem_cons.mp hb with rfl | hb
        · exact Nat.le_refl _
        · exact Nat.le_of_lt (hx b hb)
      · rintro ⟨⟨ha, -⟩, hleast⟩
        rcases List.mem_cons.mp ha with rfl | ha
        · rfl
        · have := hleast x ⟨List.mem_cons_self, hpx⟩
          have := hx a ha
          omega
    · rw [List.find?_cons_of_neg hpx, ih hrest]
      have hmem : ∀ b, (b ∈ x :: l ∧ p b = true) ↔ (b ∈ l ∧ p b = true) := by
        intro b
        rw [List.mem_cons]
        constructor
        · rintro ⟨rfl | hb, hpb⟩
          · exact absurd hpb hpx
          · exact ⟨hb, hpb⟩
        · rintro ⟨hb, hpb⟩
          exact ⟨.inr hb, hpb⟩
      simp only [hmem]

/-- For the expression of any text, binding reports an unknown field exactly if some name in it, at any
depth and in any position, is that of no field; what it reports is the one that stands first in the text,
whatever else is wrong. A predicate that it gives holds fields of the catalog only, and their names from
left to right are the names written in the text. -/
theorem bind_closed {limits : Limits} {source : String} {e : Expr}
    (hparse : Expr.ofText limits source = .ok e) (catalog : Catalog) :
    ((∃ name span, bind catalog e = .error (.unknownField name span)) ↔
      ∃ name span, Stranger catalog e name span) ∧
    (∀ name span, bind catalog e = .error (.unknownField name span) ↔
      Stranger catalog e name span ∧
        ∀ name' span', Stranger catalog e name' span' → span.start ≤ span'.start) ∧
    (∀ p, bind catalog e = .ok p → ∃ tokens, tokenize source = .ok tokens ∧
      p.fields.map Field.name = (tokens.filterMap Token.named?).map Prod.fst ∧
      ∀ f ∈ p.fields, f ∈ catalog.fields) := by
  refine ⟨?_, ?_, ?_⟩
  · simp only [bind_eq_unknownField_iff, stranger_iff]
    constructor
    · rintro ⟨name, span, h⟩
      exact ⟨name, span, List.mem_of_find?_eq_some h, by simpa using List.find?_some h⟩
    · rintro ⟨name, span, hmem, hnone⟩
      obtain ⟨n, hn⟩ := Option.isSome_iff_exists.mp
        (List.find?_isSome.mpr ⟨(name, span), hmem, hnone⟩ :
          (e.words.find? fun n => (catalog.lookup n.1).isNone).isSome)
      exact ⟨n.1, n.2, hn⟩
  · intro name span
    rw [bind_eq_unknownField_iff, find?_eq_some_iff_least (Expr.pairwise_words hparse)]
    simp only [stranger_iff, Prod.forall]
  · intro p hp
    obtain ⟨tokens, htokens, hwords⟩ := Expr.words_of_ofText hparse
    obtain ⟨-, -, hp⟩ := bind_eq_ok.mp hp
    obtain ⟨hmem, hnames⟩ := follows_bindExpr hp
    refine ⟨tokens, htokens, ?_, hmem⟩
    rw [← hwords, hnames, Expr.words, List.map_map]
    rfl

/-- The expression of `1 == 2 || lower(pinned, shape.side) && other`. -/
def sideways : Expr :=
  .connect .or
    (.compare .equal (.literal (.integer 1) ⟨0, 1, 1, 1⟩) (.literal (.integer 2) ⟨5, 6, 1, 6⟩)
      ⟨0, 6, 1, 1⟩)
    (.connect .and
      (.call "lower" [.field ⟨["pinned"]⟩ ⟨16, 22, 1, 17⟩, .field ⟨["shape", "side"]⟩ ⟨24, 34, 1, 25⟩]
        ⟨10, 35, 1, 11⟩)
      (.field ⟨["other"]⟩ ⟨39, 44, 1, 40⟩) ⟨10, 44, 1, 11⟩) ⟨0, 44, 1, 1⟩

theorem bind_closed_sideways :
    Expr.ofText {} "1 == 2 || lower(pinned, shape.side) && other" = .ok sideways ∧
    bind (.standard .note) sideways = .error (.unknownField "shape.side" ⟨24, 34, 1, 25⟩) ∧
    Stranger (.standard .note) sideways "shape.side" ⟨24, 34, 1, 25⟩ ∧
    ∀ name span, Stranger (.standard .note) sideways name span → 24 ≤ span.start := by
  have hparse : Expr.ofText {} "1 == 2 || lower(pinned, shape.side) && other" = .ok sideways := by
    with_unfolding_all rfl
  have hbind : bind (.standard .note) sideways =
      .error (.unknownField "shape.side" ⟨24, 34, 1, 25⟩) := by rfl
  exact ⟨hparse, hbind, ((bind_closed hparse (.standard .note)).2.1 _ _).mp hbind⟩

end Predicate

end FilterSql
