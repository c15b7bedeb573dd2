import FilterSql.Proofs.Patterns

/-! The rules of `LIKE` and `GLOB`, one for each way a pattern can begin. The matchers follow these rules,
and by them every dialect finds a needle in exactly the texts that hold it, whatever the needle is made
of. -/
namespace FilterSql.Sql

open Element

/-- Which texts a `LIKE` pattern matches. The escape character comes before the wildcards. -/
inductive Like (escape : Char) : List Char → List Char → Prop where
  | nil : Like escape [] []
  | run (skipped : List Char) : '%' ≠ escape → Like escape p text →
      Like escape ('%' :: p) (skipped ++ text)
  | any (c : Char) : '_' ≠ escape → Like escape p text → Like escape ('_' :: p) (c :: text)
  | escaped (c : Char) : Like escape p text → Like escape (escape :: c :: p) (c :: text)
  | same : c ≠ escape → c ≠ '%' → c ≠ '_' → Like escape p text →
      Like escape (c :: p) (c :: text)

/-- Which texts a `GLOB` pattern matches. Outside a class a closing bracket is a character like others. -/
inductive Glob : List Char → List Char → Prop where
  | nil : Glob [] []
  | run (skipped : List Char) : Glob p text → Glob ('*' :: p) (skipped ++ text)
  | any (c : Char) : Glob p text → Glob ('?' :: p) (c :: text)
  | chosen : charClass p = some (accepts, rest) → accepts c = true → Glob rest text →
      Glob ('[' :: p) (c :: text)
  | same : c ≠ '*' → c ≠ '?' → c ≠ '[' → Glob p text → Glob (c :: p) (c :: text)

theorem row_run_iff {es : List Element} {text : List Char} :
    row (run :: es) text = true ↔ ∃ skipped rest, text = skipped ++ rest ∧ row es rest = true := by
  rw [row, someEnd_iff]
  constructor
  · rintro ⟨rest, ⟨skipped, hskipped⟩, h⟩
    exact ⟨skipped, rest, hskipped.symm, h⟩
  · rintro ⟨skipped, rest, rfl, h⟩
    exact ⟨rest, List.suffix_append skipped rest, h⟩

theorem row_one_iff {accepts : Char → Bool} {es : List Element} {text : List Char} :
    row (one accepts :: es) text = true ↔
      ∃ c rest, text = c :: rest ∧ accepts c = true ∧ row es rest = true := by
  cases text with
  | nil => simp [row]
  | cons c rest =>
    rw [row, Bool.and_eq_true]
    constructor
    · rintro ⟨haccepts, h⟩
      exact ⟨c, rest, rfl, haccepts, h⟩
    · rintro ⟨_, _, heq, haccepts, h⟩
      cases heq
      exact ⟨haccepts, h⟩

theorem row_char_iff {d : Char} {es : List Element} {text : List Char} :
    row (char d :: es) text = true ↔ ∃ rest, text = d :: rest ∧ row es rest = true :=
  @row_chars [d] text es

section Like

variable {escape : Char} {pattern text : List Char}

theorem Like.elements (h : Like escape pattern text) :
    ∃ es, likeElements escape false pattern = some es ∧ row es text = true := by
  induction h with
  | nil => exact ⟨[], rfl, rfl⟩
  | run skipped hne _ ih =>
    obtain ⟨es, hes, hrow⟩ := ih
    refine ⟨.run :: es, ?_, row_run_iff.mpr ⟨skipped, _, rfl, hrow⟩⟩
    rw [likeElements, if_neg hne, hes]
    rfl
  | any c hne _ ih =>
    obtain ⟨es, hes, hrow⟩ := ih
    refine ⟨one (fun _ => true) :: es, ?_, row_one_iff.mpr ⟨c, _, rfl, rfl, hrow⟩⟩
    rw [likeElements, if_neg hne, hes]
    rfl
  | escaped c _ ih =>
    obtain ⟨es, hes, hrow⟩ := ih
    refine ⟨char c :: es, ?_, row_char_iff.mpr ⟨_, rfl, hrow⟩⟩
    rw [likeElements, if_pos rfl, likeElements, hes]
    rfl
  | @same c _ _ hescape hrun hany _ ih =>
    obtain ⟨es, hes, hrow⟩ := ih
    refine ⟨char c :: es, ?_, row_char_iff.mpr ⟨_, rfl, hrow⟩⟩
    rw [likeElements, if_neg hescape, hes, likeElement, if_neg hrun, if_neg hany]
    rfl

theorem like_of_elements {behind : Bool} {es : List Element}
    (hes : likeElements escape behind pattern = some es) (hrow : row es text = true) :
    Like escape (if behind then escape :: pattern else pattern) text := by
  fun_induction likeElements escape behind pattern generalizing es text with
  | case1 => cases hes
  | case2 =>
    cases hes
    obtain rfl : text = [] := by simpa [row] using hrow
    exact .nil
  | case3 c cs ih =>
    obtain ⟨es', hes', rfl⟩ := Option.map_eq_some_iff.mp hes
    obtain ⟨rest, rfl, hrest⟩ := row_char_iff.mp hrow
    exact .escaped c (ih hes' hrest)
  | case4 cs ih => exact ih hes hrow
  | case5 c cs hescape ih =>
    obtain ⟨es', hes', rfl⟩ := Option.map_eq_some_iff.mp hes
    unfold likeElement at hrow
    split at hrow
    case isTrue hrun =>
      obtain ⟨skipped, rest, rfl, hrest⟩ := row_run_iff.mp hrow
      subst hrun
      exact .run skipped hescape (ih hes' hrest)
    case isFalse hrun =>
      split at hrow
      case isTrue hany =>
        obtain ⟨d, rest, rfl, -, hrest⟩ := row_one_iff.mp hrow
        subst hany
        exact .any d hescape (ih hes' hrest)
      case isFalse hany =>
        obtain ⟨rest, rfl, hrest⟩ := row_char_iff.mp hrow
        exact .same hescape hrun hany (ih hes' hrest)

theorem like_iff : like escape pattern text = true ↔ Like escape pattern text := by
  unfold like
  constructor
  · intro h
    cases hes : likeElements escape false pattern with
    | none =>
      rw [hes] at h
      cases h
    | some es =>
      rw [hes] at h
      exact like_of_elements hes h
  · intro h
    obtain ⟨es, hes, hrow⟩ := h.elements
    rw [hes]
    exact hrow

end Like

section Glob

variable {pattern text : List Char}

theorem globElements_bracket {accepts : Char → Bool} {rest : List Char}
    (h : charClass pattern = some (accepts, rest)) :
    globElements ('[' :: pattern) = (globElements rest).map (one accepts :: ·) := by
  rw [globElements, if_neg (by decide), if_neg (by decide), if_pos rfl]
  split
  case h_1 hnone =>
    rw [h] at hnone
    cases hnone
  case h_2 hsome =>
    rw [h] at hsome
    cases hsome
    rfl

theorem Glob.elements (h : Glob pattern text) :
    ∃ es, globElements pattern = some es ∧ row es text = true := by
  induction h with
  | nil => exact ⟨[], by rw [globElements], rfl⟩
  | run skipped _ ih =>
    obtain ⟨es, hes, hrow⟩ := ih
    refine ⟨.run :: es, ?_, row_run_iff.mpr ⟨skipped, _, rfl, hrow⟩⟩
    rw [globElements, if_pos rfl, hes]
    rfl
  | any c _ ih =>
    obtain ⟨es, hes, hrow⟩ := ih
    refine ⟨one (fun _ => true) :: es, ?_, row_one_iff.mpr ⟨c, _, rfl, rfl, hrow⟩⟩
    rw [globElements, if_neg (by decide), if_pos rfl, hes]
    rfl
  | @chosen _ accepts _ c _ hclass haccepts _ ih =>
    obtain ⟨es, hes, hrow⟩ := ih
    refine ⟨one accepts :: es, ?_, row_one_iff.mpr ⟨c, _, rfl, haccepts, hrow⟩⟩
    rw [globElements_bracket hclass, hes]
    rfl
  | @same c _ _ hrun hany hclass _ ih =>
    obtain ⟨es, hes, hrow⟩ := ih
    refine ⟨char c :: es, ?_, row_char_iff.mpr ⟨_, rfl, hrow⟩⟩
    rw [globElements, if_neg hrun, if_neg hany, if_neg hclass, hes]
    rfl

theorem glob_of_elements {es : List Element} (hes : globElements pattern = some es)
    (hrow : row es text = true) : Glob pattern text := by
  fun_induction globElements pattern generalizing es text with
  | case1 =>
    cases hes
    obtain rfl : text = [] := by simpa [row] using hrow
    exact .nil
  | case2 cs ih =>
    obtain ⟨es', hes', rfl⟩ := Option.map_eq_some_iff.mp hes
    obtain ⟨skipped, rest, rfl, hrest⟩ := row_run_iff.mp hrow
    exact .run skipped (ih hes' hrest)
  | case3 cs _ ih =>
    obtain ⟨es', hes', rfl⟩ := Option.map_eq_some_iff.mp hes
    obtain ⟨c, rest, rfl, -, hrest⟩ := row_one_iff.mp hrow
    exact .any c (ih hes' hrest)
  | case4 => cases hes
  | case5 cs accepts rest hclass _ _ _ ih =>
    obtain ⟨es', hes', rfl⟩ := Option.map_eq_some_iff.mp hes
    obtain ⟨c, rest', rfl, haccepts, hrest⟩ := row_one_iff.mp hrow
    exact .chosen hclass haccepts (ih hes' hrest)
  | case6 c cs hrun hany hclass ih =>
    obtain ⟨es', hes', rfl⟩ := Option.map_eq_some_iff.mp hes
    obtain ⟨rest, rfl, hrest⟩ := row_char_iff.mp hrow
    exact .same hrun hany hclass (ih hes' hrest)

theorem glob_iff : glob pattern text = true ↔ Glob pattern text := by
  unfold glob
  constructor
  · intro h
    cases hes : globElements pattern with
    | none =>
      rw [hes] at h
      cases h
    | some es =>
      rw [hes] at h
      exact glob_of_elements hes h
  · intro h
    obtain ⟨es, hes, hrow⟩ := h.elements
    rw [hes]
    exact hrow

end Glob

/-- Whatever the needle, the pattern that each dialect makes for it matches, by the rules of the dialect's
operator, the texts that the function finds the needle in and no others; so all dialects agree. -/
theorem pattern_matches_iff_finds (function : StringFunction) (needle subject : String) :
    (Like '!' (pattern .mysql function needle).toList subject.toList ↔
      function.Finds needle.toList subject.toList) ∧
    (Like '!' (pattern .postgres function needle).toList subject.toList ↔
      function.Finds needle.toList subject.toList) ∧
    (Glob (pattern .sqlite function needle).toList subject.toList ↔
      function.Finds needle.toList subject.toList) := by
  have hlike : Like '!' (likePattern function needle.toList) subject.toList ↔
      function.Finds needle.toList subject.toList := by
    have hmatcher := like_likePattern function needle.toList subject.toList
    rw [← like_iff, ← likeEscape, hmatcher, decide_eq_true_eq]
  have hglob : Glob (globPattern function needle.toList) subject.toList ↔
      function.Finds needle.toList subject.toList := by
    rw [← glob_iff, glob_globPattern, decide_eq_true_eq]
  simp only [pattern, String.toList_ofList]
  exact ⟨hlike, hlike, hglob⟩

example : pattern .sqlite .contains "[^a]*" = "*[[]^a][*]*" := by decide

example : pattern .postgres .endsWith "!%_" = "%!!!%!_" := by decide

end FilterSql.Sql
