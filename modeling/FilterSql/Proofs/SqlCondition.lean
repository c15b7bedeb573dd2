import FilterSql.Proofs.SqlText

/-! Conditions as SQL reads them: parentheses first, then `NOT`, then `AND`, then `OR`. A text that no
connective takes apart is a leaf and stays as it is, also one that starts with a `NOT` of its own, as
`NOT EXISTS (…)` does: a connective `NOT` stands before parentheses. -/
namespace FilterSql.Sql

inductive Condition (α : Type) where
  | leaf (a : α)
  | not (operand : Condition α)
  | and (left right : Condition α)
  | or (left right : Condition α)
deriving DecidableEq, Inhabited

def Condition.map (f : α → β) : Condition α → Condition β
  | leaf a => leaf (f a)
  | not operand => not (operand.map f)
  | and left right => and (left.map f) (right.map f)
  | or left right => or (left.map f) (right.map f)

inductive Phrase where
  | part (p : Part)
  | group (inside : Nested) (condition : Condition Nested)

namespace Phrase

def isKeyword (keyword : String) : Phrase → Bool
  | part (.word w) => w.toList.map Char.toUpper == keyword.toList
  | _ => false

def isBlank : Phrase → Bool
  | part (.sign c) => Text.isBlank c
  | _ => false

def isConnective (p : Phrase) : Bool := p.isKeyword "AND" || p.isKeyword "OR"

end Phrase

def nestedOf : List Phrase → Nested
  | [] => .done
  | .part p :: ps => .part p (nestedOf ps)
  | .group inside _ :: ps => .group inside (nestedOf ps)

def splitBy (isSeparator : α → Bool) : List α → List α × List (List α)
  | [] => ([], [])
  | a :: as =>
    let (first, others) := splitBy isSeparator as
    if isSeparator a then ([], first :: others) else (a :: first, others)

/-- The condition of a group with any number of `NOT` before it. -/
def negated? : List Phrase → Option (Condition Nested)
  | [] => none
  | .group _ c :: ps => if ps.all Phrase.isBlank then some c else none
  | .part p :: ps =>
    if (Phrase.part p).isBlank then negated? ps
    else if (Phrase.part p).isKeyword "NOT" then (negated? ps).map .not
    else none

def trimEnd : List Phrase → List Phrase
  | [] => []
  | p :: ps =>
    match trimEnd ps with
    | [] => if p.isBlank then [] else [p]
    | rest => p :: rest

def trim (ps : List Phrase) : List Phrase := trimEnd (ps.dropWhile Phrase.isBlank)

def factor (ps : List Phrase) : Condition Nested := (negated? ps).getD (.leaf (nestedOf (trim ps)))

def conjunction (ps : List Phrase) : Condition Nested :=
  let operands := splitBy (Phrase.isKeyword "AND") ps
  (operands.2.map factor).foldl .and (factor operands.1)

def condition (ps : List Phrase) : Condition Nested :=
  let operands := splitBy (Phrase.isKeyword "OR") ps
  (operands.2.map conjunction).foldl .or (conjunction operands.1)

namespace Nested

def phrases : Nested → List Phrase
  | done => []
  | part p next => .part p :: next.phrases
  | group inside next => .group inside (Sql.condition inside.phrases) :: next.phrases

def condition (t : Nested) : Condition Nested := Sql.condition t.phrases

@[simp] theorem phrases_append (s t : Nested) : (s ++ t).phrases = s.phrases ++ t.phrases := by
  induction s with
  | done => rfl
  | part p next ih => simp [phrases, ih]
  | group inside next _ ih => simp [phrases, ih]

@[simp] theorem nestedOf_phrases (t : Nested) : nestedOf t.phrases = t := by
  induction t with
  | done => rfl
  | part p next ih => simp [phrases, nestedOf, ih]
  | group inside next _ ih => simp [phrases, nestedOf, ih]

end Nested

/-- The condition a text is read as; its leaves are texts. -/
def read? (sql : String) : Option (Condition String) :=
  (nested? sql.toList).map fun t => t.condition.map fun leaf => String.ofList leaf.text

/-- The condition of a text that no `AND` or `OR` of its own takes apart, so that an `AND` can be set
beside it. -/
def operand? (sql : String) : Option (Condition String) :=
  (nested? sql.toList).bind fun t =>
    if t.phrases.any Phrase.isConnective then none
    else some ((factor t.phrases).map fun leaf => String.ofList leaf.text)

theorem splitBy_of_all {isSeparator : α → Bool} {as : List α} (h : ∀ a ∈ as, isSeparator a = false) :
    splitBy isSeparator as = (as, []) := by
  induction as with
  | nil => rfl
  | cons a as ih =>
    rw [splitBy, ih fun b hb => h b (by simp [hb])]
    simp [h a]

theorem splitBy_append {isSeparator : α → Bool} {as : List α} (h : ∀ a ∈ as, isSeparator a = false)
    {s : α} (hs : isSeparator s = true) (bs : List α) :
    splitBy isSeparator (as ++ s :: bs) =
      (as, (splitBy isSeparator bs).1 :: (splitBy isSeparator bs).2) := by
  induction as with
  | nil => simp [splitBy, hs]
  | cons a as ih =>
    rw [List.cons_append, splitBy, ih fun b hb => h b (by simp [hb])]
    simp [h a]

def Phrase.blank : Phrase := .part (.sign ' ')

theorem negated?_append_blank (ps : List Phrase) : negated? (ps ++ [.blank]) = negated? ps := by
  induction ps with
  | nil => rfl
  | cons p ps ih =>
    cases p with
    | part p => simp only [List.cons_append, negated?, ih]
    | group inside c => simp [negated?, Phrase.blank, Phrase.isBlank, Text.isBlank]

theorem trimEnd_append_blank (ps : List Phrase) : trimEnd (ps ++ [.blank]) = trimEnd ps := by
  induction ps with
  | nil => rfl
  | cons p ps ih => rw [List.cons_append, trimEnd, ih, trimEnd]

theorem trimEnd_append {ps : List Phrase} {p : Phrase} (h : p.isBlank = false) :
    trimEnd (ps ++ [p]) = ps ++ [p] := by
  induction ps with
  | nil => simp [trimEnd, h]
  | cons q ps ih =>
    rw [List.cons_append, trimEnd, ih]
    cases ps <;> rfl

theorem trim_append_blank (ps : List Phrase) : trim (ps ++ [.blank]) = trim ps := by
  induction ps with
  | nil => rfl
  | cons p ps ih =>
    unfold trim at ih ⊢
    rw [List.cons_append, List.dropWhile_cons, List.dropWhile_cons]
    split
    · exact ih
    · exact trimEnd_append_blank (p :: ps)

theorem factor_append_blank (ps : List Phrase) : factor (ps ++ [.blank]) = factor ps := by
  rw [factor, factor, negated?_append_blank, trim_append_blank]

theorem factor_blank_cons (ps : List Phrase) : factor (.blank :: ps) = factor ps := rfl

def Uncut (ps : List Phrase) : Prop := ps.any Phrase.isConnective = false

theorem Uncut.append {ps qs : List Phrase} (hp : Uncut ps) (hq : Uncut qs) : Uncut (ps ++ qs) := by
  unfold Uncut
  rw [List.any_append, hp, hq]
  rfl

theorem Uncut.isKeyword {ps : List Phrase} (h : Uncut ps) :
    (∀ p ∈ ps, p.isKeyword "AND" = false) ∧ ∀ p ∈ ps, p.isKeyword "OR" = false := by
  unfold Uncut at h
  simp only [List.any_eq_false, Phrase.isConnective, Bool.or_eq_true, not_or, Bool.not_eq_true] at h
  exact ⟨fun p hp => (h p hp).1, fun p hp => (h p hp).2⟩

theorem conjunction_uncut {ps : List Phrase} (h : Uncut ps) : conjunction ps = factor ps := by
  rw [conjunction, splitBy_of_all h.isKeyword.1]
  rfl

theorem condition_uncut {ps : List Phrase} (h : Uncut ps) : condition ps = factor ps := by
  rw [condition, splitBy_of_all h.isKeyword.2]
  exact conjunction_uncut h

def joint (word : String) : Nested := .part (.sign ' ') (.part (.word word) (.part (.sign ' ') .done))

theorem phrases_joint (word : String) :
    (joint word).phrases = [.blank, .part (.word word), .blank] := rfl

theorem spelled_joint {word : String} (h : (Item.part (.word word)).sound = true) (is : List Item) :
    spelled ((joint word).items ++ is) = spelled is := by
  have hblank : (Item.part (.sign ' ')).sound = true := by decide
  simp [joint, Nested.items, spelled, h, hblank, Item.isWord, startsWithWord]

theorem isKeyword_append_blank {keyword : String} {ps : List Phrase}
    (h : ∀ p ∈ ps, p.isKeyword keyword = false) : ∀ p ∈ ps ++ [.blank], p.isKeyword keyword = false := by
  intro p hp
  rcases List.mem_append.mp hp with hp | hp
  · exact h p hp
  · rw [List.mem_singleton.mp hp]
    rfl

theorem splitBy_blank_cons (keyword : String) (ps : List Phrase) :
    splitBy (Phrase.isKeyword keyword) (.blank :: ps) =
      (.blank :: (splitBy (Phrase.isKeyword keyword) ps).1, (splitBy (Phrase.isKeyword keyword) ps).2) := rfl

theorem splitBy_joint {keyword : String} (hk : (Phrase.part (.word keyword)).isKeyword keyword = true)
    {ps : List Phrase} (h : ∀ p ∈ ps, p.isKeyword keyword = false) (qs : List Phrase) :
    splitBy (Phrase.isKeyword keyword) (ps ++ (joint keyword).phrases ++ qs) =
      (ps ++ [.blank], (splitBy (Phrase.isKeyword keyword) (.blank :: qs)).1 ::
        (splitBy (Phrase.isKeyword keyword) qs).2) := by
  have hsplit : ps ++ (joint keyword).phrases ++ qs =
      ps ++ [.blank] ++ .part (.word keyword) :: .blank :: qs := by simp [phrases_joint]
  rw [hsplit, splitBy_append (isKeyword_append_blank h) hk, splitBy_blank_cons]

def chain : Nested → List Nested → Nested
  | t, [] => t
  | t, u :: us => t ++ joint "AND" ++ chain u us

/-- What stands in a chain of `AND` is read on its own, wherever it stands in the chain. -/
theorem conjunction_chain {t : Nested} {us : List Nested} (hus : ∀ u ∈ t :: us, Uncut u.phrases) :
    conjunction (chain t us).phrases =
      (us.map fun u => factor u.phrases).foldl .and (factor t.phrases) := by
  have hparts : factor (splitBy (Phrase.isKeyword "AND") (chain t us).phrases).1 = factor t.phrases ∧
      (splitBy (Phrase.isKeyword "AND") (chain t us).phrases).2.map factor =
        us.map fun u => factor u.phrases := by
    induction us generalizing t with
    | nil =>
      rw [chain, splitBy_of_all (hus t (by simp)).isKeyword.1]
      exact ⟨rfl, rfl⟩
    | cons u us ih =>
      obtain ⟨hfirst, hothers⟩ := ih fun v hv => hus v (List.mem_cons_of_mem t hv)
      rw [chain, Nested.phrases_append, Nested.phrases_append,
        splitBy_joint rfl (hus t (by simp)).isKeyword.1]
      refine ⟨factor_append_blank _, ?_⟩
      rw [List.map_cons, List.map_cons, splitBy_blank_cons, factor_blank_cons, hfirst, hothers]
  rw [conjunction, hparts.1, hparts.2]

theorem isKeyword_chain {t : Nested} {us : List Nested} (hus : ∀ u ∈ t :: us, Uncut u.phrases) :
    ∀ p ∈ (chain t us).phrases, p.isKeyword "OR" = false := by
  induction us generalizing t with
  | nil => exact (hus t (by simp)).isKeyword.2
  | cons u us ih =>
    rw [chain, Nested.phrases_append, Nested.phrases_append]
    intro p hp
    rcases List.mem_append.mp hp with hp | hp
    · rcases List.mem_append.mp hp with hp | hp
      · exact (hus t (by simp)).isKeyword.2 p hp
      · rw [phrases_joint] at hp
        simp only [List.mem_cons, List.not_mem_nil, or_false] at hp
        rcases hp with rfl | rfl | rfl <;> decide
    · exact ih (fun v hv => hus v (List.mem_cons_of_mem t hv)) p hp

theorem condition_chain {t : Nested} {us : List Nested} (hus : ∀ u ∈ t :: us, Uncut u.phrases) :
    (chain t us).condition = (us.map fun u => factor u.phrases).foldl .and (factor t.phrases) := by
  rw [Nested.condition, condition, splitBy_of_all (isKeyword_chain hus)]
  exact conjunction_chain hus

theorem condition_and {s t : Nested} (hs : Uncut s.phrases) (ht : Uncut t.phrases) :
    (s ++ joint "AND" ++ t).condition = .and (factor s.phrases) (factor t.phrases) := by
  have hboth : ∀ u ∈ s :: [t], Uncut u.phrases := by simp [hs, ht]
  exact condition_chain hboth

theorem condition_or {s t : Nested} (hs : Uncut s.phrases) (ht : Uncut t.phrases) :
    (s ++ joint "OR" ++ t).condition = .or (factor s.phrases) (factor t.phrases) := by
  have hblank : Uncut (s.phrases ++ [.blank]) := hs.append rfl
  rw [Nested.condition, condition, Nested.phrases_append, Nested.phrases_append,
    splitBy_joint rfl hs.isKeyword.2, splitBy_blank_cons, splitBy_of_all ht.isKeyword.2]
  have htail : conjunction (.blank :: t.phrases) = factor t.phrases := conjunction_uncut ht
  simp only [List.map_cons, List.map_nil, List.foldl_cons, List.foldl_nil]
  rw [conjunction_uncut hblank, factor_append_blank, htail]

theorem condition_leaf {t : Nested} (hcut : Uncut t.phrases) (hnegated : negated? t.phrases = none)
    (htrim : trim t.phrases = t.phrases) : t.condition = .leaf t := by
  rw [Nested.condition, condition_uncut hcut, factor, hnegated, htrim, Nested.nestedOf_phrases]
  rfl

theorem Condition.map_foldl_and (f : α → β) (c : Condition α) (cs : List (Condition α)) :
    (cs.foldl .and c).map f = (cs.map (Condition.map f)).foldl .and (c.map f) := by
  induction cs generalizing c with
  | nil => rfl
  | cons d cs ih => exact ih (.and c d)

def conjoin : List (Condition α) → Option (Condition α)
  | [] => none
  | c :: cs => some (cs.foldl .and c)

theorem exists_nested_of_operand? {sql : String} {c : Condition String} (h : operand? sql = some c) :
    ∃ t : Nested, t.Written ∧ t.text = sql.toList ∧ Uncut t.phrases ∧
      (factor t.phrases).map (fun leaf => String.ofList leaf.text) = c := by
  obtain ⟨t, ht, h⟩ := Option.bind_eq_some_iff.mp h
  obtain ⟨hwritten, htext⟩ := text_of_nested? ht
  split at h
  · cases h
  case isFalse hcut => exact ⟨t, hwritten, htext, Bool.eq_false_iff.mpr hcut, Option.some_inj.mp h⟩

theorem chain_text {t : Nested} {us : List Nested} {first : String} {others : List String}
    (ht : t.text = first.toList) (hus : us.map Nested.text = others.map String.toList) :
    (chain t us).text = (" AND ".intercalate (first :: others)).toList := by
  induction us generalizing t first others with
  | nil =>
    obtain rfl : others = [] := by simpa using hus.symm
    rw [chain, ht, String.intercalate_singleton]
  | cons u us ih =>
    cases others with
    | nil => cases hus
    | cons second others =>
      simp only [List.map_cons, List.cons.injEq] at hus
      have hrest := ih hus.1 hus.2
      rw [chain, String.intercalate_cons_cons, String.toList_append, String.toList_append, ← hrest, ← ht]
      simp [Nested.text, joint, Nested.items, Item.text, Part.text]

theorem chain_written {t : Nested} {us : List Nested} (h : ∀ u ∈ t :: us, u.Written) :
    (chain t us).Written := by
  induction us generalizing t with
  | nil => exact h t (by simp)
  | cons u us ih =>
    have ht := h t (by simp)
    have hrest := ih fun v hv => h v (List.mem_cons_of_mem t hv)
    rw [chain, Nested.append_assoc, Nested.Written, Nested.items_append]
    apply spelled_append ht
    · rwa [Nested.items_append, spelled_joint rfl]
    · rfl

theorem exists_nested_of_operands {texts : List String} {cs : List (Condition String)}
    (h : texts.mapM operand? = some cs) :
    ∃ us : List Nested, (∀ u ∈ us, u.Written ∧ Uncut u.phrases) ∧
      us.map Nested.text = texts.map String.toList ∧
      us.map (fun u => (factor u.phrases).map fun leaf => String.ofList leaf.text) = cs := by
  induction texts generalizing cs with
  | nil =>
    cases h
    exact ⟨[], by simp⟩
  | cons text texts ih =>
    rw [List.mapM_cons] at h
    obtain ⟨c, hc, h⟩ := Option.bind_eq_some_iff.mp h
    obtain ⟨ds, hds, h⟩ := Option.bind_eq_some_iff.mp h
    obtain rfl := Option.some_inj.mp h
    obtain ⟨t, hwritten, htext, hcut, hread⟩ := exists_nested_of_operand? hc
    obtain ⟨us, hus, htexts, hreads⟩ := ih hds
    refine ⟨t :: us, ?_, ?_, ?_⟩
    · intro u hu
      rcases List.mem_cons.mp hu with rfl | hu
      · exact ⟨hwritten, hcut⟩
      · exact hus u hu
    · rw [List.map_cons, List.map_cons, htext, htexts]
    · rw [List.map_cons, hread, hreads]

/-- Texts that can stand beside an `AND` are read one by one when they do. -/
theorem read?_intercalate {texts : List String} {cs : List (Condition String)} (hne : texts ≠ [])
    (h : texts.mapM operand? = some cs) : read? (" AND ".intercalate texts) = conjoin cs := by
  obtain ⟨us, hus, htexts, rfl⟩ := exists_nested_of_operands h
  cases us with
  | nil => exact absurd (by simpa using htexts.symm) hne
  | cons t us =>
    cases texts with
    | nil => exact absurd rfl hne
    | cons first others =>
      simp only [List.map_cons, List.cons.injEq] at htexts
      have hwritten : (chain t us).Written := chain_written fun u hu => (hus u hu).1
      have htext := chain_text htexts.1 htexts.2
      have hcondition := condition_chain fun u hu => (hus u hu).2
      rw [read?, ← htext, nested?_text hwritten, Option.map_some, hcondition, Condition.map_foldl_and,
        List.map_map]
      rfl

end FilterSql.Sql
