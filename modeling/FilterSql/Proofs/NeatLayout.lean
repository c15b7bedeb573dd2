import FilterSql.Proofs.SqlLayout

/-! Layouts are neat. The text of a layout is read back as the layout, and since no quoted name or path holds
a parenthesis, the parentheses of the text are those of the layout and match. -/
namespace FilterSql

namespace Sql

/-- How many parentheses are open behind a character; none if one closes that was not open. -/
def openBehind (n : Nat) (c : Char) : Option Nat :=
  if c = '(' then some (n + 1) else if c = ')' then if n = 0 then none else some (n - 1) else some n

def openAfter : Nat → List Char → Option Nat
  | n, [] => some n
  | n, c :: cs => (openBehind n c).bind (openAfter · cs)

def BalancedParens (sql : String) : Prop := openAfter 0 sql.toList = some 0

def Quotable (s : String) : Prop := ∀ c ∈ s.toList, isQuote c = false ∧ c ≠ '(' ∧ c ≠ ')'

instance (s : String) : Decidable (Quotable s) := List.decidableBAll _ s.toList

theorem quotable_append {s t : String} : Quotable (s ++ t) ↔ Quotable s ∧ Quotable t := by
  unfold Quotable
  rw [String.toList_append]
  exact List.forall_mem_append

theorem quotable_of_nameParts {s : String} (h : s.toList.all Text.isNamePart = true) : Quotable s := by
  intro c hc
  have hpart : Text.isNamePart c = true := List.all_eq_true.mp h c hc
  refine ⟨not_isQuote_of_isWordChar (by simp [isWordChar, hpart]), ?_, ?_⟩
  · rintro rfl
    exact absurd hpart (by decide)
  · rintro rfl
    exact absurd hpart (by decide)

theorem quotable_of_isIdentifier {s : String} (h : Text.isIdentifier s.toList = true) : Quotable s := by
  apply quotable_of_nameParts
  revert h
  cases s.toList with
  | nil => simp
  | cons c cs =>
    intro h
    simp only [Text.isIdentifier, Bool.and_eq_true] at h
    simp [Text.isNamePart, h.1, h.2]

theorem quotable_intercalate {separator : String} {parts : List String} (hs : Quotable separator)
    (hp : ∀ s ∈ parts, Quotable s) : Quotable (separator.intercalate parts) := by
  induction parts with
  | nil =>
    rw [String.intercalate_nil]
    intro c hc
    cases hc
  | cons s rest ih =>
    cases rest with
    | nil => simpa using hp s
    | cons t rest =>
      rw [String.intercalate_cons_cons, quotable_append, quotable_append]
      exact ⟨⟨hp s (by simp), hs⟩, ih fun u hu => hp u (by simp [hu])⟩

def Item.calm : Item → Bool
  | part (.quoted _ body) => body.toList.all fun c => c != '(' && c != ')'
  | _ => true

namespace Nested

/-- A nesting that is read back from its text, and whose parentheses are all there are in the text. -/
structure Neat (t : Nested) : Prop where
  written : t.Written
  calm : t.items.all Item.calm = true

namespace Neat

theorem done : Neat .done := ⟨rfl, rfl⟩

theorem append {s t : Nested} (hs : s.Neat) (ht : t.Neat) (h : startsWithWord t.items = false) :
    (s ++ t).Neat := by
  constructor
  · rw [Written, items_append]
    exact spelled_append hs.written ht.written h
  · rw [items_append, List.all_append, hs.calm, ht.calm]
    rfl

theorem sign {c : Char} {t : Nested} (hc : (Item.part (.sign c)).sound = true) (ht : t.Neat) :
    (part (.sign c) t).Neat := by
  have hwritten : spelled t.items = true := ht.written
  exact ⟨by simp [Written, items, spelled, hc, hwritten, Item.isWord], by simp [items, Item.calm, ht.calm]⟩

theorem word {w : String} {t : Nested} (hw : (Item.part (.word w)).sound = true) (ht : t.Neat)
    (h : startsWithWord t.items = false) : (part (.word w) t).Neat := by
  have hwritten : spelled t.items = true := ht.written
  exact ⟨by simp [Written, items, spelled, hw, hwritten, h], by simp [items, Item.calm, ht.calm]⟩

theorem quoted {q : Char} {body : String} {t : Nested} (hq : isQuote q = true) (hb : Quotable body)
    (ht : t.Neat) : (part (.quoted q body) t).Neat := by
  have hwritten : spelled t.items = true := ht.written
  have hmem : q ∉ body.toList := by
    intro hmem
    rw [(hb q hmem).1] at hq
    cases hq
  constructor
  · simp [Written, items, spelled, Item.sound, hq, hmem, hwritten, Item.isWord]
  · have hcalm : ∀ c ∈ body.toList, ¬c = '(' ∧ ¬c = ')' := fun c hc => (hb c hc).2
    simpa [items, Item.calm, ht.calm] using hcalm

theorem group {inside next : Nested} (hi : inside.Neat) (hn : next.Neat) : (group inside next).Neat := by
  have hwritten : spelled next.items = true := hn.written
  constructor
  · have htail : spelled (inside.items ++ .closing :: next.items) = true := by
      apply spelled_append hi.written
      · simp [spelled, Item.sound, Item.isWord, hwritten]
      · rfl
    simp [Written, items, spelled, Item.sound, Item.isWord, htail]
  · simp [items, Item.calm, hi.calm, hn.calm]

theorem enclosed {t : Nested} (h : t.Neat) : (enclosed t).Neat := h.group .done

theorem call {function : String} {arguments : Nested} (hf : (Item.part (.word function)).sound = true)
    (h : arguments.Neat) : (call function arguments).Neat := .word hf (h.group .done) rfl

theorem signs {s : String} {t : Nested} (hs : s.toList.all (fun c => (Item.part (.sign c)).sound) = true)
    (ht : t.Neat) : (signs s ++ t).Neat := by
  unfold Nested.signs
  revert hs
  induction s.toList with
  | nil => exact fun _ => ht
  | cons c cs ih =>
    intro hs
    rw [List.all_cons, Bool.and_eq_true] at hs
    rw [List.foldr_cons, part_append]
    exact .sign hs.1 (ih hs.2)

theorem words {ws : List String} (h : ∀ w ∈ ws, (Item.part (.word w)).sound = true) : (words ws).Neat := by
  induction ws with
  | nil => exact .done
  | cons w ws ih =>
    refine .sign (by decide) (.word (h w (by simp)) (ih fun v hv => h v (by simp [hv])) ?_)
    cases ws <;> rfl

theorem castTo {t : Nested} (ht : t.Neat) (type : List String)
    (h : ∀ w ∈ "AS" :: type, (Item.part (.word w)).sound = true) : (castTo t type).Neat :=
  .call (by decide) (ht.append (.words h) rfl)

end Neat

end Nested

theorem openAfter_plain {cs : List Char} (h : ∀ c ∈ cs, c ≠ '(' ∧ c ≠ ')') (n : Nat) (rest : List Char) :
    openAfter n (cs ++ rest) = openAfter n rest := by
  induction cs with
  | nil => rfl
  | cons c cs ih =>
    obtain ⟨hopen, hclose⟩ := h c (by simp)
    rw [List.cons_append, openAfter, openBehind, if_neg hopen, if_neg hclose]
    exact ih fun d hd => h d (by simp [hd])

theorem Part.not_parenthesis {p : Part} (hsound : (Item.part p).sound = true)
    (hcalm : (Item.part p).calm = true) : ∀ c ∈ p.text, c ≠ '(' ∧ c ≠ ')' := by
  cases p with
  | word w =>
    simp only [Item.sound, Bool.and_eq_true] at hsound
    intro c hc
    have hword : isWordChar c = true := List.all_eq_true.mp hsound.2 c hc
    constructor
    · rintro rfl
      exact absurd hword (by decide)
    · rintro rfl
      exact absurd hword (by decide)
  | quoted q body =>
    simp only [Item.sound, Bool.and_eq_true] at hsound
    have hq : q ≠ '(' ∧ q ≠ ')' := by
      constructor
      · rintro rfl
        exact absurd hsound.1 (by decide)
      · rintro rfl
        exact absurd hsound.1 (by decide)
    simp only [Item.calm, List.all_eq_true, Bool.and_eq_true, bne_iff_ne] at hcalm
    intro c hc
    simp only [text_quoted, List.mem_cons, List.mem_append, List.not_mem_nil, or_false] at hc
    rcases hc with rfl | hc | rfl
    · exact hq
    · exact hcalm c hc
    · exact hq
  | sign c => simp_all [Item.sound]

theorem sound_of_spelled {is : List Item} (h : spelled is = true) : is.all Item.sound = true := by
  induction is with
  | nil => rfl
  | cons item is ih =>
    simp only [spelled, Bool.and_eq_true] at h
    simp [h.1.1, ih h.2]

theorem openAfter_text {t : Nested} (hsound : t.items.all Item.sound = true)
    (hcalm : t.items.all Item.calm = true) (n : Nat) (rest : List Char) :
    openAfter n (t.text ++ rest) = openAfter n rest := by
  induction t generalizing n rest with
  | done => rfl
  | part p next ih =>
    simp only [Nested.items, List.all_cons, Bool.and_eq_true] at hsound hcalm
    rw [Nested.text_part, List.append_assoc, openAfter_plain (Part.not_parenthesis hsound.1 hcalm.1)]
    exact ih hsound.2 hcalm.2 n rest
  | group inside next ihi ihn =>
    simp only [Nested.items, List.all_cons, List.all_append, Bool.and_eq_true] at hsound hcalm
    have hinside := ihi hsound.2.1 hcalm.2.1 (n + 1) (')' :: (next.text ++ rest))
    have hnext := ihn hsound.2.2.2 hcalm.2.2.2 n rest
    simpa [openAfter, openBehind, hnext] using hinside

theorem Nested.Neat.openAfter {t : Nested} (h : t.Neat) : openAfter 0 t.text = some 0 := by
  have hcount := openAfter_text (sound_of_spelled h.written) h.calm 0 []
  rwa [List.append_nil] at hcount

end Sql

structure Field.Quotable (f : Field) : Prop where
  table : Sql.Quotable f.table
  column : Sql.Quotable f.source.columnName
  path : ∀ path, f.source.path? = some path → ∀ s ∈ path, Sql.Quotable s

open Sql Nested

theorem Field.quotable_of_build {entity : Entity} {table : String} {version : Nat} {fields : List Field}
    {catalog : Catalog} (h : Catalog.build entity table version fields = .ok catalog) {f : Field}
    (hf : f ∈ catalog.fields) : f.Quotable := by
  obtain ⟨htable, hfields⟩ := Catalog.valid_of_build h
  obtain ⟨heq, hvalid⟩ := hfields f hf
  refine ⟨?_, quotable_of_isIdentifier hvalid.column, ?_⟩
  · rw [heq]
    exact quotable_of_isIdentifier htable
  · intro path hpath s hs
    have hsegment := (hvalid.path path hpath).2 s hs
    simp only [isPathSegment, Bool.and_eq_true] at hsegment
    exact quotable_of_nameParts hsegment.2

namespace Dialect

theorem sound_mark (d : Dialect) (index : Nat) : (Item.part (d.mark index)).sound = true := by
  have hdigits : ∀ c ∈ Nat.toDigits 10 (index + 1), isWordChar c = true := by
    intro c hc
    have hdigit := Nat.isDigit_of_mem_toDigits (by decide) (by decide) hc
    simp_all [isWordChar, Text.isNamePart, Char.isDigit]
  cases d with
  | mysql => exact (by decide : (Item.part (.sign '?')).sound = true)
  | sqlite => exact (by decide : (Item.part (.sign '?')).sound = true)
  | postgres => simpa [mark, Item.sound] using ⟨by decide, hdigits⟩

theorem neat_columnLayout {d : Dialect} {table column : String} (ht : Sql.Quotable table)
    (hc : Sql.Quotable column) : (d.columnLayout table column).Neat := by
  have hq : isQuote d.quoteMark = true := by cases d <;> decide
  exact .quoted hq ht (.sign (by decide) (.quoted hq hc .done))

theorem neat_pathLayout {d : Dialect} {path : List String} (h : ∀ s ∈ path, Sql.Quotable s) :
    (d.pathLayout path).Neat := by
  have hdots := quotable_intercalate (by decide : Sql.Quotable ".") h
  have hcommas := quotable_intercalate (by decide : Sql.Quotable ",") h
  refine .quoted (by decide) ?_ .done
  cases d <;> simp only [pathBody, quotable_append, hdots, hcommas, and_true] <;> decide

theorem neat_scalarLayout {d : Dialect} {column : Nested} (hc : column.Neat) {path : List String}
    (hp : ∀ s ∈ path, Sql.Quotable s) (type : FieldType) : (d.scalarLayout column path type).Neat := by
  have hpath : (d.pathLayout path).Neat := neat_pathLayout hp
  have htrue : (words ["IS", "TRUE"]).Neat := .words (by decide)
  unfold scalarLayout
  cases d with
  | mysql =>
    have hvalue : (call "JSON_EXTRACT" (column ++ signs ", " ++ mysql.pathLayout path)).Neat := by
      rw [append_assoc]
      exact .call (by decide) (hc.append (.signs (by decide) hpath) rfl)
    cases type with
    | boolean => exact (hvalue.append htrue rfl).enclosed
    | text => exact hvalue.call (by decide)
    | enum => exact hvalue.call (by decide)
    | _ => exact hvalue
  | sqlite =>
    have hvalue : (call "json_extract" (column ++ signs ", " ++ sqlite.pathLayout path)).Neat := by
      rw [append_assoc]
      exact .call (by decide) (hc.append (.signs (by decide) hpath) rfl)
    cases type with
    | boolean => exact (hvalue.append htrue rfl).enclosed
    | _ => exact hvalue
  | postgres =>
    have htext : (Nested.enclosed (column ++ signs " #>> " ++ postgres.pathLayout path)).Neat := by
      rw [append_assoc]
      exact (hc.append (.signs (by decide) hpath) rfl).enclosed
    cases type with
    | boolean => exact ((htext.castTo ["BOOLEAN"] (by decide)).append htrue rfl).enclosed
    | number width =>
      cases width
      all_goals
        apply htext.castTo
        decide
    | timestamp => exact htext.castTo ["BIGINT"] (by decide)
    | text => exact htext
    | enum => exact htext

theorem neat_collated {d : Dialect} {value : Nested} (h : value.Neat) : (d.collated value).Neat := by
  cases d with
  | mysql => exact h.append (.words (by decide)) rfl
  | postgres => exact h
  | sqlite => exact h

theorem neat_mark (d : Dialect) (index : Nat) {t : Nested} (ht : t.Neat)
    (h : startsWithWord t.items = false) : (Nested.part (d.mark index) t).Neat := by
  have hsound := d.sound_mark index
  cases d with
  | mysql => exact ht.sign hsound
  | sqlite => exact ht.sign hsound
  | postgres => exact ht.word hsound h

theorem neat_containsLayout {d : Dialect} {column : Nested} (hc : column.Neat) {path : List String}
    (hp : ∀ s ∈ path, Sql.Quotable s) (index : Nat) :
    (d.containsLayout column path (d.mark index)).Neat := by
  have hpath : (d.pathLayout path).Neat := neat_pathLayout hp
  have hmark : (Nested.part (d.mark index) .done).Neat := d.neat_mark index .done rfl
  unfold containsLayout
  cases d with
  | mysql =>
    simp only [append_assoc]
    refine .call (by decide) (.append (.call (by decide) (hc.append (.signs (by decide) ?_) rfl)) ?_ rfl)
    · exact (hmark.call (by decide)).append (.signs (by decide) hpath) rfl
    · exact .sign (by decide) (.words (by decide))
  | postgres =>
    simp only [append_assoc]
    refine .call (by decide) (.append (.enclosed ?_) (.signs (by decide) ?_) rfl)
    · exact hc.append (.signs (by decide) hpath) rfl
    · refine .append (.call (by decide) (hmark.castTo ["TEXT"] (by decide))) ?_ rfl
      exact .sign (by decide) (.words (by decide))
  | sqlite =>
    simp only [append_assoc]
    refine .word (by decide) (.sign (by decide) (.enclosed (.word (by decide) ?_ rfl))) rfl
    refine .append (.words (by decide)) (.append (.sign (by decide) (.call (by decide) ?_)) ?_ rfl) rfl
    · exact hc.append (.signs (by decide) hpath) rfl
    · refine .append (.words (by decide)) (.sign (by decide) (.word (by decide) ?_ rfl)) rfl
      exact .signs (by decide) hmark

theorem neat_likeLayout (d : Dialect) (index : Nat) : (likeLayout (d.mark index)).Neat := by
  have hescape : (Nested.part (.quoted '\x27' likeEscape.toString) .done).Neat :=
    .quoted (by decide) (by decide) .done
  refine .append (.words (by decide)) (.sign (by decide) (d.neat_mark index ?_ rfl)) rfl
  exact .append (.words (by decide)) (.sign (by decide) hescape) rfl

theorem neat_matchesLayout {d : Dialect} {value : Nested} (h : value.Neat) (index : Nat) :
    (d.matchesLayout value (d.mark index)).Neat := by
  unfold matchesLayout
  cases d with
  | mysql => exact (neat_collated h).append (mysql.neat_likeLayout index) rfl
  | postgres => exact h.append (postgres.neat_likeLayout index) rfl
  | sqlite =>
    refine h.append (.append (.words (by decide)) (.sign (by decide) ?_) rfl) rfl
    exact sqlite.neat_mark index .done rfl

end Dialect

namespace Field.Quotable

theorem columnLayout {f : Field} (hf : f.Quotable) (d : Dialect) :
    (f.columnLayout d).Neat := Dialect.neat_columnLayout hf.table hf.column

theorem valueLayout {f : Field} (hf : f.Quotable) (d : Dialect) : (f.valueLayout d).Neat := by
  unfold Field.valueLayout
  split
  case h_1 column path hsource =>
    exact Dialect.neat_scalarLayout (hf.columnLayout d) (hf.path path (by rw [hsource]; rfl)) f.type
  case h_2 => exact hf.columnLayout d

theorem compareLayout {f : Field} (hf : f.Quotable) (d : Dialect) (operator : Comparison)
    (operand : Operand) (index : Nat) :
    (compareLayout d f operator operand (d.mark index)).Neat := by
  have hmark : (Nested.part (d.mark index) .done).Neat := d.neat_mark index .done rfl
  unfold Sql.compareLayout
  split
  case h_1 column path hsource =>
    have hcontains := Dialect.neat_containsLayout (d := d) (hf.columnLayout d)
      (hf.path path (by rw [hsource]; rfl)) index
    split
    · exact .word (by decide) (hcontains.sign (by decide)) rfl
    · exact hcontains
  case h_2 =>
    refine (hf.columnLayout d).append (.signs ?_ hmark) ?_
    · split <;> decide
    · split <;> rfl
  case h_3 =>
    refine Neat.append ?_ (.signs ?_ hmark) ?_
    · split
      · exact Dialect.neat_collated (hf.valueLayout d)
      · exact hf.valueLayout d
    · cases operator <;> decide
    · cases operator <;> rfl

theorem searchLayout {f : Field} (hf : f.Quotable) (d : Dialect) (index : Nat) :
    (searchLayout d f (d.mark index)).Neat :=
  Dialect.neat_matchesLayout (hf.valueLayout d) index

end Field.Quotable

namespace Predicate

theorem neat_joint {word : String} (hw : (Item.part (.word word)).sound = true) {s t : Nested}
    (hs : s.Neat) (ht : t.Neat) : (s ++ joint word ++ t).Neat := by
  have htail : (joint word ++ t).Neat := by
    constructor
    · rw [Nested.Written, Nested.items_append, spelled_joint hw]
      exact ht.written
    · simpa [joint, Nested.items, Item.calm] using ht.calm
  rw [append_assoc]
  exact hs.append htail rfl

theorem neat_layout {p : Predicate Operand} (h : ∀ f ∈ p.fields, f.Quotable) (d : Dialect) (index : Nat) :
    (p.layout d index).Neat := by
  induction p generalizing index with
  | and left right ihl ihr | or left right ihl ihr =>
    have hl := ihl (fun f hf => h f (List.mem_append_left _ hf)) index
    have hr := ihr (fun f hf => h f (List.mem_append_right _ hf)) (index + left.fields.length)
    exact (neat_joint (by decide) hl hr).enclosed
  | not operand ih => exact .word (by decide) ((ih h index).sign (by decide)) rfl
  | compare f operator operand span =>
    exact ((h f (by simp [fields])).compareLayout d operator operand index).enclosed
  | search f function operand span => exact ((h f (by simp [fields])).searchLayout d index).enclosed

end Predicate

end FilterSql
