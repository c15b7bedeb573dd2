import FilterSql.Sql.Pattern

/-! Pattern matching of the databases. A pattern of `LIKE` or of `GLOB` is a row of elements, each of which
takes one character or any run of them; the pattern made for a needle matches the texts that hold the
needle where the function looks for it. -/
namespace FilterSql

def StringFunction.Finds : StringFunction → List Char → List Char → Prop
  | contains, needle, text => needle <:+: text
  | startsWith, needle, text => needle <+: text
  | endsWith, needle, text => needle <:+ text

instance (function : StringFunction) (needle text : List Char) : Decidable (function.Finds needle text) :=
  match function with
  | .contains => inferInstanceAs (Decidable (needle <:+: text))
  | .startsWith => inferInstanceAs (Decidable (needle <+: text))
  | .endsWith => inferInstanceAs (Decidable (needle <:+ text))

namespace Sql

inductive Element where
  | run
  | one (accepts : Char → Bool)

namespace Element

def char (c : Char) : Element := .one (· == c)

/-- Whether some end of a text has a property; the text itself is one. -/
def someEnd (p : List Char → Bool) : List Char → Bool
  | [] => p []
  | c :: cs => p (c :: cs) || someEnd p cs

def row : List Element → List Char → Bool
  | [], text => text.isEmpty
  | run :: es, text => someEnd (row es) text
  | one accepts :: es, c :: cs => accepts c && row es cs
  | one _ :: _, [] => false

theorem someEnd_iff {p : List Char → Bool} {text : List Char} :
    someEnd p text = true ↔ ∃ rest, rest <:+ text ∧ p rest = true := by
  induction text with
  | nil => simp [someEnd]
  | cons c cs ih =>
    simp only [someEnd, Bool.or_eq_true, ih, List.suffix_cons_iff]
    constructor
    · rintro (h | ⟨rest, hrest, h⟩)
      · exact ⟨_, .inl rfl, h⟩
      · exact ⟨rest, .inr hrest, h⟩
    · rintro ⟨rest, rfl | hrest, h⟩
      · exact .inl h
      · exact .inr ⟨rest, hrest, h⟩

theorem row_run (text : List Char) : row [run] text = true := by
  rw [row, someEnd_iff]
  exact ⟨[], List.nil_suffix, rfl⟩

theorem row_chars {needle text : List Char} {es : List Element} :
    row (needle.map char ++ es) text = true ↔ ∃ rest, text = needle ++ rest ∧ row es rest = true := by
  induction needle generalizing text with
  | nil => simp
  | cons d needle ih =>
    cases text with
    | nil => simp [row, char]
    | cons c cs =>
      simp only [List.map_cons, List.cons_append, char, row, Bool.and_eq_true, beq_iff_eq, ih,
        List.cons.injEq]
      constructor
      · rintro ⟨rfl, rest, rfl, h⟩
        exact ⟨rest, ⟨rfl, rfl⟩, h⟩
      · rintro ⟨rest, ⟨rfl, rfl⟩, h⟩
        exact ⟨rfl, rest, rfl, h⟩

def around (needle : List Char) : StringFunction → List Element
  | .contains => run :: (needle.map char ++ [run])
  | .startsWith => needle.map char ++ [run]
  | .endsWith => run :: (needle.map char ++ [])

theorem row_around {needle text : List Char} {function : StringFunction} :
    row (around needle function) text = true ↔ function.Finds needle text := by
  cases function with
  | contains =>
    rw [around, row, someEnd_iff]
    constructor
    · rintro ⟨end_, ⟨before, rfl⟩, h⟩
      obtain ⟨after, rfl, -⟩ := row_chars.mp h
      exact ⟨before, after, List.append_assoc ..⟩
    · rintro ⟨before, after, rfl⟩
      refine ⟨needle ++ after, ⟨before, (List.append_assoc ..).symm⟩, ?_⟩
      exact row_chars.mpr ⟨after, rfl, row_run after⟩
  | startsWith =>
    rw [around, row_chars]
    constructor
    · rintro ⟨after, rfl, -⟩
      exact ⟨after, rfl⟩
    · rintro ⟨after, rfl⟩
      exact ⟨after, rfl, row_run after⟩
  | endsWith =>
    rw [around, row, someEnd_iff]
    constructor
    · rintro ⟨end_, ⟨before, rfl⟩, h⟩
      obtain ⟨after, rfl, hafter⟩ := row_chars.mp h
      obtain rfl : after = [] := by simpa [row] using hafter
      exact ⟨before, by rw [List.append_nil]⟩
    · rintro ⟨before, rfl⟩
      exact ⟨needle, List.suffix_append before needle, row_chars.mpr ⟨[], by simp, rfl⟩⟩

end Element

open Element

def likeElement (c : Char) : Element :=
  if c = '%' then run else if c = '_' then one (fun _ => true) else char c

/-- The elements of a `LIKE` pattern, or of one that goes on behind an escape character. That character
makes the next one literal, and there has to be a next one. -/
def likeElements (escape : Char) : Bool → List Char → Option (List Element)
  | true, [] => none
  | false, [] => some []
  | true, c :: cs => (likeElements escape false cs).map (char c :: ·)
  | false, c :: cs =>
    if c = escape then likeElements escape true cs
    else (likeElements escape false cs).map (likeElement c :: ·)

def classRanges : List Char → Option (List (Char × Char) × List Char)
  | [] => none
  | ']' :: cs => some ([], cs)
  | a :: '-' :: b :: cs =>
    if b = ']' then some ([(a, a), ('-', '-')], cs)
    else (classRanges cs).map fun (ranges, rest) => ((a, b) :: ranges, rest)
  | a :: cs => (classRanges cs).map fun (ranges, rest) => ((a, a) :: ranges, rest)

/-- The ranges of a class; a closing bracket that comes first is one of its characters. -/
def classMembers : List Char → Option (List (Char × Char) × List Char)
  | ']' :: cs => (classRanges cs).map fun (ranges, rest) => ((']', ']') :: ranges, rest)
  | cs => classRanges cs

def inRanges (ranges : List (Char × Char)) (c : Char) : Bool :=
  ranges.any fun (low, high) => low ≤ c && c ≤ high

/-- What a class takes, and what follows it. A caret that comes first turns the class around. -/
def charClass : List Char → Option ((Char → Bool) × List Char)
  | '^' :: cs => (classMembers cs).map fun (ranges, rest) => (fun c => !inRanges ranges c, rest)
  | cs => (classMembers cs).map fun (ranges, rest) => (inRanges ranges, rest)

theorem length_classRanges {cs : List Char} {ranges : List (Char × Char)} {rest : List Char}
    (h : classRanges cs = some (ranges, rest)) : rest.length < cs.length := by
  fun_induction classRanges cs generalizing ranges rest with
  | case1 => cases h
  | case2 cs =>
    cases h
    simp
  | case3 a cs hne =>
    cases h
    simp only [List.length_cons]
    omega
  | case4 a b cs hb hne ih =>
    obtain ⟨⟨ranges', rest'⟩, hrest, h⟩ := Option.map_eq_some_iff.mp h
    cases h
    have := ih hrest
    simp only [List.length_cons]
    omega
  | case5 a cs hne hne' ih =>
    obtain ⟨⟨ranges', rest'⟩, hrest, h⟩ := Option.map_eq_some_iff.mp h
    cases h
    have := ih hrest
    simp only [List.length_cons]
    omega

theorem length_classMembers {cs : List Char} {ranges : List (Char × Char)} {rest : List Char}
    (h : classMembers cs = some (ranges, rest)) : rest.length < cs.length := by
  unfold classMembers at h
  split at h
  · obtain ⟨⟨ranges', rest'⟩, hrest, h⟩ := Option.map_eq_some_iff.mp h
    cases h
    exact Nat.lt_succ_of_lt (length_classRanges hrest)
  · exact length_classRanges h

theorem length_charClass {cs : List Char} {accepts : Char → Bool} {rest : List Char}
    (h : charClass cs = some (accepts, rest)) : rest.length < cs.length := by
  unfold charClass at h
  split at h
  · obtain ⟨⟨ranges, rest'⟩, hrest, h⟩ := Option.map_eq_some_iff.mp h
    cases h
    exact Nat.lt_succ_of_lt (length_classMembers hrest)
  · obtain ⟨⟨ranges, rest'⟩, hrest, h⟩ := Option.map_eq_some_iff.mp h
    cases h
    exact length_classMembers hrest

/-- The elements of a `GLOB` pattern; a class that is not closed makes none. -/
def globElements : List Char → Option (List Element)
  | [] => some []
  | c :: cs =>
    if c = '*' then (globElements cs).map (run :: ·)
    else if c = '?' then (globElements cs).map (one (fun _ => true) :: ·)
    else if c = '[' then
      match h : charClass cs with
      | none => none
      | some (accepts, rest) =>
        have := length_charClass h
        (globElements rest).map (one accepts :: ·)
    else (globElements cs).map (char c :: ·)
termination_by cs => cs.length

def like (escape : Char) (pattern text : List Char) : Bool :=
  ((likeElements escape false pattern).map fun es => row es text).getD false

def glob (pattern text : List Char) : Bool := ((globElements pattern).map fun es => row es text).getD false

theorem likeElements_escaped (needle rest : List Char) :
    likeElements likeEscape false (needle.flatMap likeChar ++ rest) =
      (likeElements likeEscape false rest).map (needle.map char ++ ·) := by
  induction needle with
  | nil => simp
  | cons c needle ih =>
    rw [List.flatMap_cons, List.append_assoc, likeChar]
    split
    case isTrue hc =>
      simp only [List.cons_append, List.nil_append, likeElements, if_true, ih, Option.map_map]
      rfl
    case isFalse hc =>
      simp only [not_or] at hc
      simp only [List.cons_append, List.nil_append, likeElements, hc, if_false, ih, Option.map_map,
        likeElement]
      rfl

theorem inRanges_single (c : Char) : inRanges [(c, c)] = (· == c) := by
  funext d
  rw [Bool.eq_iff_iff]
  simp only [inRanges, List.any_cons, List.any_nil, Bool.or_false, Bool.and_eq_true, decide_eq_true_eq,
    beq_iff_eq]
  constructor
  · rintro ⟨hle, hge⟩
    exact Char.le_antisymm hge hle
  · rintro rfl
    exact ⟨Char.le_refl d, Char.le_refl d⟩

theorem globElements_class {c : Char} (hc : c = '*' ∨ c = '?' ∨ c = '[') (rest : List Char) :
    globElements ('[' :: c :: ']' :: rest) = (globElements rest).map (char c :: ·) := by
  have hclass : charClass (c :: ']' :: rest) = some ((· == c), rest) := by
    rw [← inRanges_single]
    rcases hc with rfl | rfl | rfl <;> rfl
  rw [globElements, if_neg (by decide), if_neg (by decide), if_pos rfl]
  split
  case h_1 h =>
    rw [hclass] at h
    cases h
  case h_2 accepts rest' h =>
    rw [hclass] at h
    cases h
    rfl

theorem globElements_escaped (needle rest : List Char) :
    globElements (needle.flatMap globChar ++ rest) = (globElements rest).map (needle.map char ++ ·) := by
  induction needle with
  | nil => simp
  | cons c needle ih =>
    rw [List.flatMap_cons, List.append_assoc, globChar]
    split
    case isTrue hc =>
      simp only [List.cons_append, List.nil_append]
      rw [globElements_class hc, ih, Option.map_map]
      rfl
    case isFalse hc =>
      simp only [not_or] at hc
      simp only [List.cons_append, List.nil_append]
      rw [globElements, if_neg hc.1, if_neg hc.2.1, if_neg hc.2.2, ih, Option.map_map]
      rfl

theorem like_likePattern (function : StringFunction) (needle text : List Char) :
    like likeEscape (likePattern function needle) text = decide (function.Finds needle text) := by
  have hopen : likeElements likeEscape false ['%'] = some [run] := rfl
  have helements : likeElements likeEscape false (likePattern function needle) =
      some (around needle function) := by
    have hneedle := likeElements_escaped needle
    cases function with
    | contains =>
      have hrun := congrArg (Option.map (run :: ·)) (hneedle ['%'])
      rw [hopen] at hrun
      exact hrun
    | startsWith =>
      have hrun := hneedle ['%']
      rw [hopen] at hrun
      exact hrun
    | endsWith =>
      have hrun := congrArg (Option.map (run :: ·)) (hneedle [])
      rw [List.append_nil] at hrun
      exact hrun
  rw [Bool.eq_iff_iff, like, helements, decide_eq_true_eq]
  exact row_around

theorem glob_globPattern (function : StringFunction) (needle text : List Char) :
    glob (globPattern function needle) text = decide (function.Finds needle text) := by
  have hopen : globElements ['*'] = some [run] := by simp [globElements]
  have helements : globElements (globPattern function needle) = some (around needle function) := by
    have hneedle := globElements_escaped needle
    cases function with
    | contains =>
      rw [globPattern, openSides, globElements, if_pos rfl, hneedle, hopen]
      rfl
    | startsWith =>
      rw [globPattern, openSides, hneedle, hopen]
      rfl
    | endsWith =>
      rw [globPattern, openSides, globElements, if_pos rfl, ← List.append_nil (needle.flatMap globChar),
        hneedle, globElements]
      rfl
  rw [Bool.eq_iff_iff, glob, helements, decide_eq_true_eq]
  exact row_around

end Sql

end FilterSql
