import FilterSql.Proofs.FieldNames
import FilterSql.Proofs.PathReading

/-! Which catalogs can be built. The rules for names, columns, paths and functions are stated on the texts
themselves; a catalog is built exactly if every field keeps them and no name comes twice, and otherwise the first
field that breaks a rule says why. A built catalog holds the fields as they were given and finds each of them by
its name. -/
namespace FilterSql

namespace Text

def DottedName (s : String) : Prop :=
  ∃ parts : List String, parts ≠ [] ∧ (∀ part ∈ parts, Identifier part) ∧ s = ".".intercalate parts

theorem isDottedName_iff {s : String} : isDottedName s.toList = true ↔ DottedName s := by
  rw [isDottedName, List.all_eq_true]
  constructor
  · intro h
    refine ⟨(Path.ofText s).segments, ?_, ?_, (Path.text_ofText s).symm⟩
    · simp [Path.ofText, List.splitOn_ne_nil]
    · intro part hpart
      obtain ⟨cs, hcs, rfl⟩ := List.mem_map.mp hpart
      rw [← isIdentifier_iff, String.toList_ofList]
      exact h cs hcs
  · rintro ⟨parts, hne, hparts, rfl⟩ cs hcs
    have hsplit : (".".intercalate parts).toList.splitOn '.' = parts.map String.toList :=
      splitOn_join hne fun part hpart => (hparts part hpart).1.not_mem (by decide)
    rw [hsplit] at hcs
    obtain ⟨part, hpart, rfl⟩ := List.mem_map.mp hcs
    exact isIdentifier_iff.mpr (hparts part hpart)

end Text

open Text

namespace Field

def PathAllowed (f : Field) : Prop :=
  ∀ path, f.source.path? = some path → path ≠ [] ∧ ∀ s ∈ path, Segment s

structure Allowed (f : Field) : Prop where
  name : DottedName f.name
  column : Identifier f.source.columnName
  path : f.PathAllowed
  functions : f.functions ≠ [] → f.type = .text ∧ f.source.isArray = false

/-- The first rule that a field breaks, as its error: name, column, path and functions are looked at in this
order, and the segments of a path from left to right. -/
inductive Breaks (f : Field) : CatalogError → Prop where
  | name : ¬DottedName f.name → Breaks f (.invalidFieldName f.name)
  | column : DottedName f.name → ¬Identifier f.source.columnName →
      Breaks f (.invalidIdentifier f.source.columnName)
  | noPath : DottedName f.name → Identifier f.source.columnName → f.source.path? = some [] →
      Breaks f (.invalidJsonPath f.name "")
  | path : DottedName f.name → Identifier f.source.columnName → f.source.path? = some (good ++ bad :: more) →
      (∀ s ∈ good, Segment s) → ¬Segment bad → Breaks f (.invalidJsonPath f.name bad)
  | functions : DottedName f.name → Identifier f.source.columnName → f.PathAllowed →
      f.functions = function :: others → ¬(f.type = .text ∧ f.source.isArray = false) →
      Breaks f (.functionNotApplicable f.name function f.type)

theorem allowed_iff_valid {f : Field} : f.Allowed ↔ f.Valid := by
  constructor
  · intro h
    refine ⟨isDottedName_iff.mpr h.name, isIdentifier_iff.mpr h.column, ?_, h.functions⟩
    intro path hpath
    obtain ⟨hne, hall⟩ := h.path path hpath
    exact ⟨hne, fun s hs => isPathSegment_iff.mpr (hall s hs)⟩
  · intro h
    refine ⟨isDottedName_iff.mp h.name, isIdentifier_iff.mp h.column, ?_, h.functions⟩
    intro path hpath
    obtain ⟨hne, hall⟩ := h.path path hpath
    exact ⟨hne, fun s hs => isPathSegment_iff.mp (hall s hs)⟩

theorem check_eq_ok {f : Field} : f.check = .ok () ↔ f.Allowed := by
  rw [check_eq_ok_iff, allowed_iff_valid]

theorem pathAllowed_iff {f : Field} : f.checkPath = .ok () ↔ f.PathAllowed := by
  rw [checkPath_eq_ok]
  simp only [isPathSegment_iff]
  rfl

theorem checkName_eq_error {f : Field} {e : CatalogError} :
    f.checkName = .error e ↔ ¬DottedName f.name ∧ e = .invalidFieldName f.name := by
  rw [← isDottedName_iff, checkName]
  split
  case isTrue hname => simp [hname]
  case isFalse hname => simp [hname, eq_comm]

theorem checkIdentifier_eq_error {s : String} {e : CatalogError} :
    checkIdentifier s = .error e ↔ ¬Identifier s ∧ e = .invalidIdentifier s := by
  rw [← isIdentifier_iff, checkIdentifier]
  split
  case isTrue hs => simp [hs]
  case isFalse hs => simp [hs, eq_comm]

theorem checkPath_eq_error {f : Field} {e : CatalogError} :
    f.checkPath = .error e ↔ (f.source.path? = some [] ∧ e = .invalidJsonPath f.name "") ∨
      ∃ good bad more, f.source.path? = some (good ++ bad :: more) ∧ (∀ s ∈ good, Segment s) ∧ ¬Segment bad ∧
        e = .invalidJsonPath f.name bad := by
  unfold checkPath
  split
  case h_1 hpath => simp [hpath]
  case h_2 hpath => simp [hpath, eq_comm]
  case h_3 path hne hpath =>
    rw [hpath]
    constructor
    · intro h
      split at h
      case h_2 => cases h
      case h_1 bad hfind =>
        cases h
        obtain ⟨hbad, good, more, rfl, hgood⟩ := List.find?_eq_some_iff_append.mp hfind
        refine .inr ⟨good, bad, more, rfl, ?_, ?_, rfl⟩
        · intro s hs
          exact isPathSegment_iff.mp (by simpa using hgood s hs)
        · intro hsegment
          simp [isPathSegment_iff.mpr hsegment] at hbad
    · rintro (⟨heq, -⟩ | ⟨good, bad, more, heq, hgood, hbad, rfl⟩)
      · exact absurd (Option.some.inj heq) hne
      · have hfind : path.find? (fun s => !isPathSegment s) = some bad := by
          rw [Option.some.inj heq, List.find?_eq_some_iff_append]
          refine ⟨by simpa [← isPathSegment_iff] using hbad, good, more, rfl, ?_⟩
          intro s hs
          simp [isPathSegment_iff.mpr (hgood s hs)]
        rw [hfind]

theorem checkFunctions_eq_error {f : Field} {e : CatalogError} :
    f.checkFunctions = .error e ↔ ∃ function others, f.functions = function :: others ∧
      ¬(f.type = .text ∧ f.source.isArray = false) ∧ e = .functionNotApplicable f.name function f.type := by
  unfold checkFunctions
  split
  case h_1 hnone => simp [hnone]
  case h_2 function others hfunctions =>
    rw [hfunctions]
    split
    case isTrue htext => simp [htext]
    case isFalse htext =>
      constructor
      · intro h
        cases h
        exact ⟨function, others, rfl, htext, rfl⟩
      · rintro ⟨g, rest, heq, -, rfl⟩
        cases heq
        rfl

theorem check_eq_error {f : Field} {e : CatalogError} : f.check = .error e ↔ f.Breaks e := by
  have hname : f.checkName = .ok () ↔ DottedName f.name := by rw [checkName_eq_ok, isDottedName_iff]
  have hcolumn : checkIdentifier f.source.columnName = .ok () ↔ Identifier f.source.columnName := by
    rw [checkIdentifier_eq_ok, isIdentifier_iff]
  have hstages : f.check = .error e ↔ f.checkName = .error e ∨ f.checkName = .ok () ∧
      (checkIdentifier f.source.columnName = .error e ∨ checkIdentifier f.source.columnName = .ok () ∧
        (f.checkPath = .error e ∨ f.checkPath = .ok () ∧ f.checkFunctions = .error e)) := by
    rw [check]
    simp only [bind_eq_error, Unique.exists_iff]
  rw [hstages, hname, hcolumn, pathAllowed_iff, checkName_eq_error, checkIdentifier_eq_error, checkPath_eq_error,
    checkFunctions_eq_error]
  constructor
  · rintro (⟨h, rfl⟩ | ⟨hn, ⟨h, rfl⟩ | ⟨hc, (⟨h, rfl⟩ | ⟨good, bad, more, h, hgood, hbad, rfl⟩) |
      ⟨hp, g, others, hg, htype, rfl⟩⟩⟩)
    · exact .name h
    · exact .column hn h
    · exact .noPath hn hc h
    · exact .path hn hc h hgood hbad
    · exact .functions hn hc hp hg htype
  · intro h
    cases h with
    | name h => exact .inl ⟨h, rfl⟩
    | column hn h => exact .inr ⟨hn, .inl ⟨h, rfl⟩⟩
    | noPath hn hc h => exact .inr ⟨hn, .inr ⟨hc, .inl (.inl ⟨h, rfl⟩)⟩⟩
    | path hn hc h hgood hbad => exact .inr ⟨hn, .inr ⟨hc, .inl (.inr ⟨_, _, _, h, hgood, hbad, rfl⟩)⟩⟩
    | functions hn hc hp hg htype => exact .inr ⟨hn, .inr ⟨hc, .inr ⟨hp, _, _, hg, htype, rfl⟩⟩⟩

end Field

namespace Catalog

structure Consistent (fields : List Field) : Prop where
  allowed : ∀ f ∈ fields, f.Allowed
  distinct : (fields.map Field.name).Nodup

theorem consistent_nil : Consistent [] := ⟨by simp, by simp⟩

theorem consistent_cons {f : Field} {fs : List Field} :
    Consistent (f :: fs) ↔ f.Allowed ∧ f.name ∉ fs.map Field.name ∧ Consistent fs := by
  constructor
  · rintro ⟨hall, hdistinct⟩
    obtain ⟨hf, hfs⟩ := List.forall_mem_cons.mp hall
    obtain ⟨hown, hrest⟩ := List.nodup_cons.mp hdistinct
    exact ⟨hf, hown, hfs, hrest⟩
  · rintro ⟨hf, hown, hfs, hrest⟩
    exact ⟨List.forall_mem_cons.mpr ⟨hf, hfs⟩, List.nodup_cons.mpr ⟨hown, hrest⟩⟩

/-- Why a catalog is refused: it has no field, or its table is no identifier, or of its fields this is the first
that breaks a rule or takes a name that was given before. -/
inductive Refused (entity : Entity) (table : String) : List Field → CatalogError → Prop where
  | empty : Refused entity table [] (.empty entity)
  | table {fields : List Field} : fields ≠ [] → ¬Identifier table →
      Refused entity table fields (.invalidIdentifier table)
  | field : Identifier table → Consistent earlier → f.Breaks e →
      Refused entity table (earlier ++ f :: later) e
  | repeated {f : Field} : Identifier table → Consistent earlier → f.Allowed → f.name ∈ earlier.map Field.name →
      Refused entity table (earlier ++ f :: later) (.duplicateField entity f.name)

section Enrolling

variable {entity : Entity} {table : String}

theorem enroll_eq_error {roster : Roster} {fs : List Field} {e : CatalogError} :
    enroll entity table roster fs = .error e ↔
      ∃ earlier f later, fs = earlier ++ f :: later ∧ Consistent earlier ∧
        (∀ g ∈ earlier, g.name ∉ roster.fields.map Field.name) ∧
        (f.Breaks e ∨ f.Allowed ∧ (f.name ∈ roster.fields.map Field.name ∨ f.name ∈ earlier.map Field.name) ∧
          e = .duplicateField entity f.name) := by
  induction fs generalizing roster with
  | nil => simp [enroll]
  | cons f fs ih =>
    have hnames : (roster.add { f with table }).fields.map Field.name = roster.fields.map Field.name ++ [f.name] :=
      List.map_append
    rw [enroll, bind_eq_error]
    simp only [Roster.lookup_index_isSome]
    constructor
    · rintro (hcheck | ⟨_, hcheck, h⟩)
      · exact ⟨[], f, fs, rfl, consistent_nil, by simp, .inl (Field.check_eq_error.mp hcheck)⟩
      · have hf := Field.check_eq_ok.mp hcheck
        split at h
        case isTrue htaken =>
          cases h
          exact ⟨[], f, fs, rfl, consistent_nil, by simp, .inr ⟨hf, .inl htaken, rfl⟩⟩
        case isFalse hfresh =>
          obtain ⟨earlier, g, later, rfl, hearlier, hnew, hg⟩ := ih.mp h
          simp only [hnames, List.mem_append, List.mem_singleton] at hnew hg
          have hown : f.name ∉ earlier.map Field.name := by
            intro hmem
            obtain ⟨k, hk, hname⟩ := List.mem_map.mp hmem
            exact hnew k hk (.inr hname)
          refine ⟨f :: earlier, g, later, rfl, consistent_cons.mpr ⟨hf, hown, hearlier⟩, ?_, ?_⟩
          · exact List.forall_mem_cons.mpr ⟨hfresh, fun k hk hmem => hnew k hk (.inl hmem)⟩
          · simpa [or_assoc] using hg
    · rintro ⟨earlier, g, later, heq, hearlier, hnew, hg⟩
      cases earlier with
      | nil =>
        cases heq
        rcases hg with hbreaks | ⟨hallowed, htaken, rfl⟩
        · exact .inl (Field.check_eq_error.mpr hbreaks)
        · have htaken : f.name ∈ roster.fields.map Field.name := by simpa using htaken
          exact .inr ⟨(), Field.check_eq_ok.mpr hallowed, by rw [if_pos htaken]⟩
      | cons k earlier =>
        cases heq
        obtain ⟨hf, hown, hearlier⟩ := consistent_cons.mp hearlier
        obtain ⟨hfresh, hrest⟩ := List.forall_mem_cons.mp hnew
        refine .inr ⟨(), Field.check_eq_ok.mpr hf, ?_⟩
        rw [if_neg hfresh]
        refine ih.mpr ⟨earlier, g, later, rfl, hearlier, ?_, ?_⟩ <;>
          simp only [hnames, List.mem_append, List.mem_singleton]
        · rintro k hk (hmem | hname)
          · exact hrest k hk hmem
          · exact hown (hname ▸ List.mem_map_of_mem hk)
        · simpa [or_assoc] using hg

theorem build_eq_error {version : Nat} {fields : List Field} {e : CatalogError} :
    build entity table version fields = .error e ↔ Refused entity table fields e := by
  unfold build
  split
  case isTrue hempty =>
    obtain rfl := List.isEmpty_iff.mp hempty
    constructor
    · intro h
      cases h
      exact .empty
    · intro h
      generalize hnil : ([] : List Field) = fields at h
      cases h with
      | empty => rfl
      | table hne => exact absurd hnil.symm hne
      | field => simp at hnil
      | repeated => simp at hnil
  case isFalse hne =>
    have hne : fields ≠ [] := fun h => hne (List.isEmpty_iff.mpr h)
    rw [bind_eq_error, Field.checkIdentifier_eq_error]
    have hempty : (Roster.of []).fields.map Field.name = [] := rfl
    simp only [Unique.exists_iff, bind_eq_error, reduceCtorEq, and_false, exists_false, or_false, enroll_eq_error,
      hempty, List.not_mem_nil, not_false_eq_true, implies_true, true_and, false_or]
    constructor
    · rintro (⟨htable, rfl⟩ | ⟨htable, earlier, f, later, rfl, hearlier, hf | ⟨hf, hname, rfl⟩⟩)
      · exact .table hne htable
      · exact .field (isIdentifier_iff.mp (Field.checkIdentifier_eq_ok.mp htable)) hearlier hf
      · exact .repeated (isIdentifier_iff.mp (Field.checkIdentifier_eq_ok.mp htable)) hearlier hf hname
    · intro h
      cases h with
      | empty => exact absurd rfl hne
      | table _ htable => exact .inl ⟨htable, rfl⟩
      | field htable hearlier hf =>
        exact .inr ⟨Field.checkIdentifier_eq_ok.mpr (isIdentifier_iff.mpr htable), _, _, _, rfl, hearlier, .inl hf⟩
      | repeated htable hearlier hf hname =>
        exact .inr ⟨Field.checkIdentifier_eq_ok.mpr (isIdentifier_iff.mpr htable), _, _, _, rfl, hearlier,
          .inr ⟨hf, hname, rfl⟩⟩

end Enrolling

theorem find?_eq_some_iff_place {fs : List Field} (h : (fs.map Field.name).Nodup) {name : String} {f : Field} :
    fs.find? (·.name == name) = some f ↔
      ∃ i : Nat, fs[i]? = some f ∧ f.name = name ∧ ∀ (j : Nat) g, fs[j]? = some g → g.name = name → j = i := by
  constructor
  · intro hfind
    have hname : f.name = name := by simpa using List.find?_some hfind
    obtain ⟨i, hi⟩ := List.mem_iff_getElem?.mp (List.mem_of_find?_eq_some hfind)
    refine ⟨i, hi, hname, ?_⟩
    intro j g hj hg
    have hlt : j < (fs.map Field.name).length := by
      obtain ⟨hlt, -⟩ := List.getElem?_eq_some_iff.mp hj
      rwa [List.length_map]
    refine (List.getElem?_inj hlt h).mp ?_
    rw [List.getElem?_map, List.getElem?_map, hi, hj, Option.map_some, Option.map_some, hname, hg]
  · rintro ⟨i, hi, rfl, -⟩
    exact find?_name h (List.mem_of_getElem? hi)

/-- A catalog is built exactly if it has a field, its table is an identifier, each field keeps the rules for its
name, column, path and functions, and all names are distinct; the fields are then those given, in order, with
nothing but their table filled in, and a look-up gives the one field of that name. Otherwise the error is that
there is no field, else that of the table, else that of the first field that breaks a rule, where a repeated name
is charged to the later field. -/
theorem build_accepts_exactly (entity : Entity) (table : String) (version : Nat) (fields : List Field) :
    (∀ catalog, build entity table version fields = .ok catalog ↔
      (fields ≠ [] ∧ Identifier table ∧ (∀ f ∈ fields, f.Allowed) ∧ (fields.map Field.name).Nodup) ∧
        catalog = .of entity table version (fields.map fun f => { f with table })) ∧
    (∀ catalog, build entity table version fields = .ok catalog → ∀ name f, catalog.lookup name = some f ↔
      ∃ i : Nat, catalog.fields[i]? = some f ∧ f.name = name ∧
        ∀ (j : Nat) g, catalog.fields[j]? = some g → g.name = name → j = i) ∧
    ∀ e, build entity table version fields = .error e ↔ Refused entity table fields e := by
  refine ⟨?_, ?_, fun e => build_eq_error⟩
  · intro catalog
    have hallowed : (∀ f ∈ fields, f.Valid) ↔ ∀ f ∈ fields, f.Allowed :=
      forall₂_congr fun f _ => Field.allowed_iff_valid.symm
    rw [build_eq_ok, isIdentifier_iff, hallowed]
  · intro catalog h name f
    rw [lookup_eq_find?]
    exact find?_eq_some_iff_place (nodup_of_build h)

def overcrowded : List Field :=
  [.ofColumn "title" .text "title", .ofJson "meta.size" (.number .int64) "meta" ["size", "0"],
    (Field.ofJsonArray "title" "labels" ["all"])]

theorem build_accepts_exactly_overcrowded :
    (∃ catalog, build .note "notes" 1 (overcrowded.take 2) = .ok catalog ∧
      ∀ f, catalog.lookup "meta.size" = some f → ∃ i : Nat, catalog.fields[i]? = some f) ∧
    Refused .note "notes" overcrowded (.duplicateField .note "title") ∧
    Refused .note "notes" (overcrowded.map (·.withFunctions [.contains]))
      (.functionNotApplicable "meta.size" .contains (.number .int64)) := by
  have hbuild : build .note "notes" 1 (overcrowded.take 2) =
      .ok (.of .note "notes" 1 ((overcrowded.take 2).map fun f => { f with table := "notes" })) := by decide +kernel
  refine ⟨⟨_, hbuild, ?_⟩, ?_, ?_⟩
  · intro f hf
    obtain ⟨i, hi, -⟩ := ((build_accepts_exactly .note "notes" 1 _).2.1 _ hbuild "meta.size" f).mp hf
    exact ⟨i, hi⟩
  · exact ((build_accepts_exactly .note "notes" 1 overcrowded).2.2 _).mp (by decide +kernel)
  · exact ((build_accepts_exactly .note "notes" 1 _).2.2 _).mp (by decide +kernel)

end Catalog

end FilterSql
