import FilterSql.Proofs.IntegerLiterals
import FilterSql.Proofs.RoundTrip
import FilterSql.Proofs.StampText

/-! Timestamps and seconds are two spellings of one instant. A field of points of time may be compared with either,
and so long as the instants are the same, the filters are compiled to the same statement, wherever in a filter the
comparisons stand. -/
namespace FilterSql

open Rfc3339

/-! No character of a timestamp has to be escaped. -/

def Lexeme.Bare (c : Char) : Prop := escapeChar c = [c] ∧ c ≠ '\x00'

instance (c : Char) : Decidable (Lexeme.Bare c) := inferInstanceAs (Decidable (_ ∧ _))

namespace Rfc3339

open Lexeme

theorem bare_of_isDigit {c : Char} (h : c.isDigit = true) : Bare c := by
  refine ⟨if_neg ?_, ?_⟩
  · rintro (rfl | rfl) <;> cases h
  · rintro rfl
    cases h

theorem bare_padded {width n : Nat} : ∀ c ∈ Numeral.padded width n, Bare c :=
  fun _ hc => bare_of_isDigit (Numeral.isDigit_of_mem_padded hc)

theorem bare_fractionChars (fraction : List (Fin 10)) : ∀ c ∈ fractionChars fraction, Bare c := by
  unfold fractionChars
  split
  case isTrue => exact List.forall_mem_nil _
  case isFalse =>
    refine List.forall_mem_cons.mpr ⟨by decide, fun c hc => ?_⟩
    obtain ⟨d, -, rfl⟩ := List.mem_map.mp hc
    exact bare_of_isDigit (Numeral.isDigit_digit d)

theorem Zone.bare_chars (zone : Zone) : ∀ c ∈ zone.chars, Bare c := by
  have hclock : ∀ hours minutes, ∀ c ∈ Numeral.padded 2 hours ++ ':' :: Numeral.padded 2 minutes, Bare c := by
    intro hours minutes
    refine List.forall_mem_append.mpr ⟨bare_padded, ?_⟩
    exact List.forall_mem_cons.mpr ⟨by decide, bare_padded⟩
  cases zone with
  | zulu upper => cases upper <;> exact List.forall_mem_singleton.mpr (by decide)
  | east hours minutes => exact List.forall_mem_cons.mpr ⟨by decide, hclock hours minutes⟩
  | west hours minutes => exact List.forall_mem_cons.mpr ⟨by decide, hclock hours minutes⟩

namespace Stamp

variable (stamp : Stamp)

theorem bare_chars : ∀ c ∈ stamp.chars, Bare c := by
  have hseparator : Bare stamp.separator := by
    rcases stamp.separates with h | h | h
    all_goals
      rw [h]
      decide
  simp only [chars, timeChars, List.forall_mem_append, List.forall_mem_cons]
  exact ⟨bare_padded, by decide, bare_padded, by decide, bare_padded, hseparator, bare_padded, by decide,
    bare_padded, by decide, bare_padded, bare_fractionChars _, stamp.zone.bare_chars⟩

def quoted : String := "\"" ++ stamp.text ++ "\""

theorem readsLiteral_quoted : ReadsLiteral stamp.quoted (.text stamp.text) := by
  have hchars : stamp.quoted.toList = '"' :: (stamp.chars ++ ['"']) := by simp [quoted, text]
  have htext : stamp.text.toList = stamp.chars := String.toList_ofList
  have hplain : stamp.chars.flatMap escapeChar = stamp.chars := by
    rw [List.flatMap_congr fun c hc => (stamp.bare_chars c hc).1, List.flatMap_singleton']
  have hnul : '\x00' ∉ stamp.text.toList := by
    rw [htext]
    exact fun hmem => (stamp.bare_chars _ hmem).2 rfl
  refine ⟨⟨'"', _, hchars, by decide⟩, fun rest _ => ?_⟩
  have hread : ReadAs _ _ rest := .text hnul
  rwa [htext, hplain, ← hchars] at hread

end Stamp

end Rfc3339

/-- A literal that names the instant `n` seconds from the epoch: the number itself, or a timestamp. -/
inductive Literal.NamesSecond : Literal → Int → Prop where
  | second : NamesSecond (.integer n) n
  | stamp {stamp : Stamp} : stamp.Names n → NamesSecond (.text stamp.text) n

/-- Expressions that are the same but for their spans and for how instants are spelled where a field of points of
time is compared with them. -/
inductive Expr.SameInstants (catalog : Catalog) : Expr → Expr → Prop where
  | same : e.unplaced = e'.unplaced → SameInstants catalog e e'
  | connect : SameInstants catalog l l' → SameInstants catalog r r' →
      SameInstants catalog (.connect c l r s) (.connect c l' r' s')
  | not : SameInstants catalog e e' → SameInstants catalog (.not e s) (.not e' s')
  | compare {f : Field} : catalog.lookup path.text = some f → f.type = .timestamp →
      Literal.NamesSecond value n → Literal.NamesSecond value' n →
      SameInstants catalog (.compare operator (.field path s₁) (.literal value s₂) s)
        (.compare operator (.field path s₁') (.literal value' s₂') s')
  | compareTurned {f : Field} : catalog.lookup path.text = some f → f.type = .timestamp →
      Literal.NamesSecond value n → Literal.NamesSecond value' n →
      SameInstants catalog (.compare operator (.literal value s₁) (.field path s₂) s)
        (.compare operator (.literal value' s₁') (.field path s₂') s')

theorem Expr.SameInstants.symm {catalog : Catalog} {e e' : Expr} (h : e.SameInstants catalog e') :
    e'.SameInstants catalog e := by
  induction h with
  | same h => exact .same h.symm
  | connect _ _ ihl ihr => exact .connect ihl ihr
  | not _ ih => exact .not ih
  | compare hlookup htype hvalue hvalue' => exact .compare hlookup htype hvalue' hvalue
  | compareTurned hlookup htype hvalue hvalue' => exact .compareTurned hlookup htype hvalue' hvalue

namespace Predicate

def connect : Connective → Predicate α → Predicate α → Predicate α
  | .and => .and
  | .or => .or

def unplaced : Predicate α → Predicate α
  | and left right => .and left.unplaced right.unplaced
  | or left right => .or left.unplaced right.unplaced
  | not operand => .not operand.unplaced
  | compare field operator operand _ => .compare field operator operand .nowhere
  | search field function operand _ => .search field function operand .nowhere

theorem fields_unplaced (p : Predicate α) : p.unplaced.fields = p.fields := by
  induction p with
  | and left right ihl ihr | or left right ihl ihr => rw [unplaced, fields, fields, ihl, ihr]
  | not operand ih => rw [unplaced, fields, fields, ih]
  | compare => rfl
  | search => rfl

theorem pieces_unplaced (d : Dialect) (p : Predicate Operand) : p.unplaced.pieces d = p.pieces d := by
  induction p with
  | and left right ihl ihr | or left right ihl ihr => rw [unplaced, pieces, pieces, ihl, ihr]
  | not operand ih => rw [unplaced, pieces, pieces, ih]
  | compare => rfl
  | search => rfl

theorem render_of_unplaced {p q : Predicate Operand} (h : p.unplaced = q.unplaced) (d : Dialect) (offset : Nat) :
    p.render d offset = q.render d offset := by
  rw [render_eq, render_eq, ← fields_unplaced p, ← pieces_unplaced d p, h, fields_unplaced, pieces_unplaced]

theorem referencedFields_of_unplaced {p q : Predicate Operand} (h : p.unplaced = q.unplaced) :
    p.referencedFields = q.referencedFields := by
  rw [referencedFields, referencedFields, ← fields_unplaced p, h, fields_unplaced]

theorem coerce_elsewhere {f : Field} {value : Literal} {s : Span} {operand : Operand}
    (h : coerce f value s = .ok operand) (s' : Span) : coerce f value s' = .ok operand := by
  unfold coerce at h ⊢
  split at h
  case h_3 =>
    split at h
    case isTrue hfits =>
      cases h
      exact if_pos hfits
    case isFalse => cases h
  case h_7 =>
    split at h
    · exact h
    · cases h
  case h_9 =>
    split at h
    · exact h
    · cases h
  case h_10 => cases h
  all_goals exact h

theorem check_compare_elsewhere {f : Field} {operator : Comparison} {value : Literal} {s : Span}
    {t : Predicate Operand} (h : (compare f operator value s).check = .ok t) (s' : Span) :
    ∃ t', (compare f operator value s').check = .ok t' ∧ t'.unplaced = t.unplaced := by
  obtain ⟨_, hoperator, h⟩ := bind_eq_ok.mp h
  obtain ⟨operand, hoperand, h⟩ := bind_eq_ok.mp h
  cases h
  have hoperator' : checkOperator f operator s' = .ok () :=
    checkOperator_eq_ok_iff.mpr (checkOperator_eq_ok_iff.mp hoperator)
  have hoperand' := coerce_elsewhere hoperand s'
  exact ⟨_, bind_eq_ok.mpr ⟨(), hoperator', bind_eq_ok.mpr ⟨operand, hoperand', rfl⟩⟩, rfl⟩

theorem check_search_elsewhere {f : Field} {function : StringFunction} {value : Literal} {s : Span}
    {t : Predicate Operand} (h : (search f function value s).check = .ok t) (s' : Span) :
    ∃ t', (search f function value s').check = .ok t' ∧ t'.unplaced = t.unplaced := by
  obtain ⟨operand, hoperand, h⟩ := bind_eq_ok.mp h
  cases h
  cases value with
  | text needle =>
    cases hoperand
    exact ⟨_, rfl, rfl⟩
  | _ => cases hoperand

theorem coerce_timestamp {f : Field} (htype : f.type = .timestamp) {value : Literal} {n : Int}
    (h : value.NamesSecond n) (s : Span) : coerce f value s = .ok (.timestamp n) := by
  cases h with
  | second => simp only [coerce, htype]
  | stamp hnames => simp only [coerce, htype, Stamp.epochSecond_text _ hnames]

theorem check_timestamp {f : Field} (htype : f.type = .timestamp) {value : Literal} {n : Int}
    (h : value.NamesSecond n) (operator : Comparison) (s : Span) :
    (compare f operator value s).check = .ok (.compare f operator (.timestamp n) s) := by
  rw [check_ordered (.inr htype), coerce_timestamp htype h]
  rfl

end Predicate

namespace Expr

open Predicate

variable {catalog : Catalog}

/-! Without its places, an expression still has its form. -/

section Forms

variable {e : Expr}

theorem field_of_unplaced {path : Path} (h : (field path s).unplaced = e.unplaced) : ∃ s', e = .field path s' := by
  cases e <;> cases h
  exact ⟨_, rfl⟩

theorem literal_of_unplaced {value : Literal} (h : (literal value s).unplaced = e.unplaced) :
    ∃ s', e = .literal value s' := by
  cases e <;> cases h
  exact ⟨_, rfl⟩

theorem connect_of_unplaced {c : Connective} {l r : Expr} (h : (connect c l r s).unplaced = e.unplaced) :
    ∃ l' r' s', e = .connect c l' r' s' ∧ l.unplaced = l'.unplaced ∧ r.unplaced = r'.unplaced := by
  cases e with
  | connect c' l' r' s' =>
    simp only [unplaced, connect.injEq, and_true] at h
    obtain ⟨rfl, hl, hr⟩ := h
    exact ⟨l', r', s', rfl, hl, hr⟩
  | _ => cases h

theorem not_of_unplaced {a : Expr} (h : (Expr.not a s).unplaced = e.unplaced) :
    ∃ a' s', e = .not a' s' ∧ a.unplaced = a'.unplaced := by
  cases e with
  | not a' s' => exact ⟨a', s', rfl, (Expr.not.inj h).1⟩
  | _ => cases h

theorem compare_of_unplaced {operator : Comparison} {l r : Expr}
    (h : (compare operator l r s).unplaced = e.unplaced) :
    ∃ l' r' s', e = .compare operator l' r' s' ∧ l.unplaced = l'.unplaced ∧ r.unplaced = r'.unplaced := by
  cases e with
  | compare operator' l' r' s' =>
    simp only [unplaced, compare.injEq, and_true] at h
    obtain ⟨rfl, hl, hr⟩ := h
    exact ⟨l', r', s', rfl, hl, hr⟩
  | _ => cases h

theorem call_of_unplaced {function : String} {a b : Expr} (h : (call function [a, b] s).unplaced = e.unplaced) :
    ∃ a' b' s', e = .call function [a', b'] s' ∧ a.unplaced = a'.unplaced ∧ b.unplaced = b'.unplaced := by
  cases e with
  | call function' arguments s' =>
    simp only [unplaced, unplacedAll_eq_map, List.map_cons, List.map_nil, call.injEq, and_true] at h
    obtain ⟨rfl, harguments⟩ := h
    obtain ⟨a', rest, rfl, ha, hrest⟩ := List.map_eq_cons_iff.mp harguments.symm
    obtain ⟨b', rest, rfl, hb, hnil⟩ := List.map_eq_cons_iff.mp hrest
    obtain rfl := List.map_eq_nil_iff.mp hnil
    exact ⟨a', b', s', rfl, ha.symm, hb.symm⟩
  | _ => cases h

end Forms

def Yields (catalog : Catalog) (e : Expr) (t : Predicate Operand) : Prop :=
  ∃ p, Bound catalog e p ∧ p.check = .ok t

/-- An expression that yields the same but for the places of the operands. -/
def YieldsAlike (catalog : Catalog) (e : Expr) (t : Predicate Operand) : Prop :=
  ∃ t', e.Yields catalog t' ∧ t'.unplaced = t.unplaced

section Alike

variable {l r e : Expr} {tl tr t : Predicate Operand}

theorem YieldsAlike.connect {c : Connective} (hl : l.YieldsAlike catalog tl) (hr : r.YieldsAlike catalog tr) :
    (Expr.connect c l r s).YieldsAlike catalog (.connect c tl tr) := by
  obtain ⟨tl', ⟨p, hp, hpcheck⟩, hpsame⟩ := hl
  obtain ⟨tr', ⟨q, hq, hqcheck⟩, hqsame⟩ := hr
  cases c with
  | and =>
    refine ⟨.and tl' tr', ⟨.and p q, .and hp hq, ?_⟩, by rw [Predicate.unplaced, hpsame, hqsame]; rfl⟩
    exact bind_eq_ok.mpr ⟨tl', hpcheck, bind_eq_ok.mpr ⟨tr', hqcheck, rfl⟩⟩
  | or =>
    refine ⟨.or tl' tr', ⟨.or p q, .or hp hq, ?_⟩, by rw [Predicate.unplaced, hpsame, hqsame]; rfl⟩
    exact bind_eq_ok.mpr ⟨tl', hpcheck, bind_eq_ok.mpr ⟨tr', hqcheck, rfl⟩⟩

theorem YieldsAlike.not (h : e.YieldsAlike catalog t) : (Expr.not e s).YieldsAlike catalog (.not t) := by
  obtain ⟨t', ⟨p, hp, hcheck⟩, hsame⟩ := h
  refine ⟨.not t', ⟨.not p, .not hp, bind_eq_ok.mpr ⟨t', hcheck, rfl⟩⟩, ?_⟩
  rw [Predicate.unplaced, hsame]
  rfl

end Alike

theorem YieldsAlike.elsewhere {e e' : Expr} {p : Predicate Literal} (hbound : Bound catalog e p)
    (h : e.unplaced = e'.unplaced) {t : Predicate Operand} (hcheck : p.check = .ok t) :
    e'.YieldsAlike catalog t := by
  induction hbound generalizing e' t with
  | and _ _ ihl ihr =>
    obtain ⟨tl, hl, hcheck⟩ := bind_eq_ok.mp hcheck
    obtain ⟨tr, hr, hcheck⟩ := bind_eq_ok.mp hcheck
    cases hcheck
    obtain ⟨l', r', s', rfl, hl', hr'⟩ := connect_of_unplaced h
    exact (ihl hl' hl).connect (ihr hr' hr)
  | or _ _ ihl ihr =>
    obtain ⟨tl, hl, hcheck⟩ := bind_eq_ok.mp hcheck
    obtain ⟨tr, hr, hcheck⟩ := bind_eq_ok.mp hcheck
    cases hcheck
    obtain ⟨l', r', s', rfl, hl', hr'⟩ := connect_of_unplaced h
    exact (ihl hl' hl).connect (ihr hr' hr)
  | not _ ih =>
    obtain ⟨t, ht, hcheck⟩ := bind_eq_ok.mp hcheck
    cases hcheck
    obtain ⟨a', s', rfl, ha⟩ := not_of_unplaced h
    exact (ih ha ht).not
  | field hlookup htype =>
    obtain ⟨s', rfl⟩ := field_of_unplaced h
    obtain ⟨t', hcheck', hsame⟩ := check_compare_elsewhere hcheck s'
    exact ⟨t', ⟨_, .field hlookup htype, hcheck'⟩, hsame⟩
  | compare hlookup =>
    obtain ⟨l', r', s', rfl, hl, hr⟩ := compare_of_unplaced h
    obtain ⟨s₁, rfl⟩ := field_of_unplaced hl
    obtain ⟨s₂, rfl⟩ := literal_of_unplaced hr
    obtain ⟨t', hcheck', hsame⟩ := check_compare_elsewhere hcheck s₂
    exact ⟨t', ⟨_, .compare hlookup, hcheck'⟩, hsame⟩
  | compareTurned hlookup =>
    obtain ⟨l', r', s', rfl, hl, hr⟩ := compare_of_unplaced h
    obtain ⟨s₁, rfl⟩ := literal_of_unplaced hl
    obtain ⟨s₂, rfl⟩ := field_of_unplaced hr
    obtain ⟨t', hcheck', hsame⟩ := check_compare_elsewhere hcheck s₁
    exact ⟨t', ⟨_, .compareTurned hlookup, hcheck'⟩, hsame⟩
  | call hlookup hfunction =>
    obtain ⟨a', b', s', rfl, ha, hb⟩ := call_of_unplaced h
    obtain ⟨s₁, rfl⟩ := field_of_unplaced ha
    obtain ⟨s₂, rfl⟩ := literal_of_unplaced hb
    obtain ⟨t', hcheck', hsame⟩ := check_search_elsewhere hcheck s₂
    exact ⟨t', ⟨_, .call hlookup hfunction, hcheck'⟩, hsame⟩

/-- What an expression yields does not depend on how its instants are spelled. -/
theorem SameInstants.yieldsAlike {e e' : Expr} (h : e.SameInstants catalog e') {t : Predicate Operand}
    (ht : e.Yields catalog t) : e'.YieldsAlike catalog t := by
  induction h generalizing t with
  | same h =>
    obtain ⟨p, hbound, hcheck⟩ := ht
    exact .elsewhere hbound h hcheck
  | connect _ _ ihl ihr =>
    obtain ⟨p, hbound, hcheck⟩ := ht
    cases hbound with
    | and hl hr =>
      obtain ⟨tl, htl, hcheck⟩ := bind_eq_ok.mp hcheck
      obtain ⟨tr, htr, hcheck⟩ := bind_eq_ok.mp hcheck
      cases hcheck
      exact (ihl ⟨_, hl, htl⟩).connect (ihr ⟨_, hr, htr⟩)
    | or hl hr =>
      obtain ⟨tl, htl, hcheck⟩ := bind_eq_ok.mp hcheck
      obtain ⟨tr, htr, hcheck⟩ := bind_eq_ok.mp hcheck
      cases hcheck
      exact (ihl ⟨_, hl, htl⟩).connect (ihr ⟨_, hr, htr⟩)
  | not _ ih =>
    obtain ⟨p, hbound, hcheck⟩ := ht
    cases hbound with
    | not ha =>
      obtain ⟨u, hu, hcheck⟩ := bind_eq_ok.mp hcheck
      cases hcheck
      exact (ih ⟨_, ha, hu⟩).not
  | compare hlookup htype hvalue hvalue' =>
    obtain ⟨p, hbound, hcheck⟩ := ht
    cases hbound with
    | compare hlookup' =>
      cases hlookup.symm.trans hlookup'
      -- Both literals are checked to one operand, so the predicates differ in the span of the literal alone.
      cases (check_timestamp htype hvalue _ _).symm.trans hcheck
      exact ⟨_, ⟨_, .compare hlookup, check_timestamp htype hvalue' _ _⟩, rfl⟩
  | compareTurned hlookup htype hvalue hvalue' =>
    obtain ⟨p, hbound, hcheck⟩ := ht
    cases hbound with
    | compareTurned hlookup' =>
      cases hlookup.symm.trans hlookup'
      cases (check_timestamp htype hvalue _ _).symm.trans hcheck
      exact ⟨_, ⟨_, .compareTurned hlookup, check_timestamp htype hvalue' _ _⟩, rfl⟩

end Expr

namespace Engine

open Sql

variable {limits : Limits} {catalog : Catalog} {d : Dialect} {offset : Nat}

theorem compileFresh_ofText {source : String} {e : Expr} (he : Expr.ofText limits source = .ok e)
    {statement : Statement} :
    compileFresh limits catalog d offset source none = .ok statement ↔
      ∃ t, e.Yields catalog t ∧ t.render d offset = some (statement.fragment, statement.parameters) ∧
        statement.referencedFields = t.referencedFields := by
  obtain ⟨tokens, htokens, hparsed⟩ := bind_eq_ok.mp he
  have htokens := mapError_eq_ok.mp htokens
  have hparsed := mapError_eq_ok.mp hparsed
  rw [compileFresh_eq_ok_iff]
  constructor
  · rintro ⟨⟨t, ⟨tokens', e', bound, htokens', hparsed', hbound, hcheck⟩, hrender, hfields⟩, -⟩
    cases htokens.symm.trans htokens'
    cases hparsed.symm.trans hparsed'
    exact ⟨t, ⟨bound, Predicate.bind_eq_ok_iff.mp hbound, hcheck⟩, hrender, hfields⟩
  · rintro ⟨t, ⟨bound, hbound, hcheck⟩, hrender, hfields⟩
    exact ⟨⟨t, ⟨tokens, e, bound, htokens, hparsed, Predicate.bind_eq_ok_iff.mpr hbound, hcheck⟩, hrender, hfields⟩,
      rfl⟩

theorem compileFresh_of_sameInstants {source source' : String} {e e' : Expr}
    (he : Expr.ofText limits source = .ok e) (he' : Expr.ofText limits source' = .ok e')
    (h : e.SameInstants catalog e') {statement : Statement}
    (hstatement : compileFresh limits catalog d offset source none = .ok statement) :
    compileFresh limits catalog d offset source' none = .ok statement := by
  obtain ⟨t, ht, hrender, hfields⟩ := (compileFresh_ofText he).mp hstatement
  obtain ⟨t', ht', hsame⟩ := h.yieldsAlike ht
  refine (compileFresh_ofText he').mpr ⟨t', ht', ?_, ?_⟩
  · rwa [Predicate.render_of_unplaced hsame]
  · rwa [Predicate.referencedFields_of_unplaced hsame]

theorem compileFresh_instant {t : NumeralTest} {f : Field} (hlookup : catalog.lookup t.name = some f)
    (htype : f.type = .timestamp) (hmax : 3 ≤ limits.maxTokens) (hoffset : offset + 1 ≤ maxPlaceholder) (n : Int) :
    ∃ statement : Statement, (f.Kept → statement.parameters = [.int64 n]) ∧
      ∀ {literal : String} {value : Literal}, ReadsLiteral literal value → value.NamesSecond n →
        compileFresh limits catalog d offset (t.textWith literal) none = .ok statement := by
  let leaf := compareLeaf d f t.asked (.timestamp n)
  refine ⟨⟨textFrom d offset leaf.pieces, [leaf.parameter], [f.name]⟩, ?_, ?_⟩
  · intro hkept
    have hparameter : leaf.parameter = f.parameter (.int64 n) := Predicate.parameter_compareLeaf ..
    rw [hparameter, hkept.parameter]
  · intro literal value hreads hnames
    obtain ⟨tokens, e, s, htokens, he, hbound⟩ := t.exists_bind_with hreads hmax hlookup
    have hcheck := Predicate.check_timestamp htype hnames t.asked s
    have hroom : offset + (Predicate.compare f t.asked (Operand.timestamp n) s).fields.length ≤ maxPlaceholder :=
      hoffset
    have hrender := (Predicate.compare f t.asked (.timestamp n) s).render_eq d offset
    rw [if_pos hroom] at hrender
    exact compileFresh_eq_ok_iff.mpr ⟨⟨_, ⟨tokens, e, _, htokens, he, hbound, hcheck⟩, hrender, rfl⟩, rfl⟩

/-- The two spellings of an instant agree. Every timestamp names one count of seconds from the epoch; where a field
of points of time is compared with the timestamp, the filter is compiled to the very statement that it is compiled
to with the count, which binds the count. The same holds for any filters that differ only in how they spell instants,
be it with a count or with timestamps of different zones: if one is compiled to a statement, so is the other. -/
theorem timestamp_spellings_agree (config : Config) (catalogs : List Catalog) (request : Request) (d : Dialect)
    (catalog : Catalog) (h : (built config catalogs).admissible request = .ok (d, catalog)) :
    let result := fun (history : List (Request × Signal)) (source : String) =>
      (((built config catalogs).after history).compile { request with source } none).1.result
    (∀ stamp : Stamp, ∃! n, stamp.Names n) ∧
    (∀ (stamp : Stamp) (t : NumeralTest) (f : Field), stamp.Names t.numeral.value →
      catalog.lookup t.name = some f → f.type = .timestamp → 3 ≤ config.maxTokens →
      request.offset + 1 ≤ maxPlaceholder → ∃ statement,
        (∀ history, result history t.text = .ok statement) ∧
        (∀ history, result history (t.textWith stamp.quoted) = .ok statement) ∧
        (f.Kept → statement.parameters = [.int64 t.numeral.value])) ∧
    ∀ source source' e e', Expr.ofText config.limits source = .ok e → Expr.ofText config.limits source' = .ok e' →
      e.SameInstants catalog e' → ∀ history history' statement,
        (result history source = .ok statement ↔ result history' source' = .ok statement) := by
  have hlimits : (built config catalogs).limits = config.limits :=
    congrArg Engine.limits (built_frame config catalogs)
  intro result
  have hresult : ∀ history source,
      result history source = compileFresh config.limits catalog d request.offset source none := by
    intro history source
    have hadmissible : (built config catalogs).admissible { request with source } = .ok (d, catalog) := h
    rw [← hlimits]
    exact (compile_after_eq_fresh config catalogs history _).trans (fresh_of_admissible hadmissible)
  simp only [hresult, forall_const]
  refine ⟨Stamp.existsUnique_names, ?_, ?_⟩
  · intro stamp t f hnames hlookup htype hmax hoffset
    have hmax : 3 ≤ config.limits.maxTokens := hmax
    obtain ⟨statement, hkept, hstatement⟩ :=
      compileFresh_instant hlookup htype hmax hoffset t.numeral.value
    refine ⟨statement, ?_, ?_, hkept⟩
    · exact hstatement (Numeral.Whole.readsLiteral hnames.within) .second
    · exact hstatement stamp.readsLiteral_quoted (.stamp hnames)
  · intro source source' e e' he he' hsame statement
    exact ⟨compileFresh_of_sameInstants he he' hsame, compileFresh_of_sameInstants he' he hsame.symm⟩

def dated : Catalog := .of .note "note" 1 [{ Field.ofColumn "at" .timestamp "at" with table := "note" }]

def datedFilter (source : String) : Request := ⟨.note, source, some .sqlite, 0⟩

def datedTest (n : Numeral.Whole) : NumeralTest where
  name := "at"
  operator := .greaterEqual
  numeral := n
  turned := false
  gap i := ["", "", " ", ""].get i
  dotted := rfl
  word := by decide
  blank i := by fin_cases i <;> simp

def notBehind (moment : String) (stop : Nat) : Expr :=
  .not (.compare .less (.literal (.text moment) ⟨2, stop, 1, 3⟩)
    (.field ⟨["at"]⟩ ⟨stop + 3, stop + 5, 1, stop + 4⟩) ⟨2, stop + 5, 1, 3⟩) ⟨0, stop + 5, 1, 1⟩

theorem timestamp_spellings_agree_dated :
    (∃ statement, ((built {} [dated]).compile (datedFilter "at>= -62167305540") none).1.result = .ok statement ∧
      ((built {} [dated]).compile (datedFilter "at>= \"0000-01-01t00:00:00.25+23:59\"") none).1.result =
        .ok statement ∧ statement.parameters = [.int64 (-62167305540)]) ∧
    ∀ statement,
      ((built {} [dated]).compile (datedFilter "!(\"2000-02-29T23:30:00-00:45\" < at)") none).1.result =
        .ok statement ↔
      ((built {} [dated]).compile (datedFilter "!(\"2000-03-01 00:15:00Z\" < at)") none).1.result =
        .ok statement := by
  have hadmissible : (built {} [dated]).admissible (datedFilter "") = .ok (.sqlite, dated) := rfl
  have hfield : dated.lookup "at" = some { Field.ofColumn "at" .timestamp "at" with table := "note" } := rfl
  obtain ⟨-, htests, hfilters⟩ := timestamp_spellings_agree {} [dated] (datedFilter "") .sqlite dated hadmissible
  constructor
  · let count := datedTest ⟨true, [6, 2, 1, 6, 7, 3, 0, 5, 5, 4, 0], by decide⟩
    obtain ⟨zero, hzero, htext⟩ : ∃ zero : Stamp, zero.Names (-62167305540) ∧
        count.textWith zero.quoted = "at>= \"0000-01-01t00:00:00.25+23:59\"" :=
      ⟨⟨⟨⟨0, 1, 1, by decide, by decide, by decide, by decide⟩, 0, 0, 0⟩, by decide, 't', by decide, [2, 5],
        .east 23 59⟩, (Stamp.names_iff _).mpr (by decide), by decide⟩
    obtain ⟨statement, hcount, hstamp, hparameters⟩ :=
      htests zero count _ hzero hfield rfl (by decide) (by decide)
    rw [show count.text = "at>= -62167305540" by decide] at hcount
    rw [htext] at hstamp
    exact ⟨statement, hcount [], hstamp [], hparameters (.inl ⟨_, rfl⟩)⟩
  · obtain ⟨west, hwest, hwestText⟩ : ∃ west : Stamp, west.Names 951869700 ∧
        west.text = "2000-02-29T23:30:00-00:45" :=
      ⟨⟨⟨⟨2000, 2, 29, by decide, by decide, by decide, by decide⟩, 23, 30, 0⟩, by decide, 'T', by decide, [],
        .west 0 45⟩, (Stamp.names_iff _).mpr (by decide), by decide⟩
    obtain ⟨later, hlater, hlaterText⟩ : ∃ later : Stamp, later.Names 951869700 ∧
        later.text = "2000-03-01 00:15:00Z" :=
      ⟨⟨⟨⟨2000, 3, 1, by decide, by decide, by decide, by decide⟩, 0, 15, 0⟩, by decide, ' ', by decide, [],
        .zulu true⟩, (Stamp.names_iff _).mpr (by decide), by decide⟩
    have hsame : (notBehind west.text 29).SameInstants dated (notBehind later.text 24) :=
      .not (.compareTurned hfield rfl (.stamp hwest) (.stamp hlater))
    rw [hwestText, hlaterText] at hsame
    exact hfilters _ _ _ _ (by with_unfolding_all rfl) (by with_unfolding_all rfl) hsame [] []

end Engine

end FilterSql
