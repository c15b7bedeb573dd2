import FilterSql.Catalog.Basic
import FilterSql.Proofs.Outcome

/-! What the checks of a catalog establish: the names that reach SQL text are identifiers and path
segments, so they are made of letters, digits and underscores. -/
namespace FilterSql

structure Field.Valid (f : Field) : Prop where
  name : Text.isDottedName f.name.toList = true
  column : Text.isIdentifier f.source.columnName.toList = true
  path : ∀ path, f.source.path? = some path → path ≠ [] ∧ ∀ s ∈ path, isPathSegment s = true
  functions : f.functions ≠ [] → f.type = .text ∧ f.source.isArray = false

namespace Field

theorem checkIdentifier_eq_ok {s : String} :
    checkIdentifier s = .ok () ↔ Text.isIdentifier s.toList = true := by
  unfold checkIdentifier
  split <;> simp_all

theorem checkName_eq_ok {f : Field} :
    f.checkName = .ok () ↔ Text.isDottedName f.name.toList = true := by
  unfold checkName
  split <;> simp_all

theorem checkPath_eq_ok {f : Field} :
    f.checkPath = .ok () ↔
      ∀ path, f.source.path? = some path → path ≠ [] ∧ ∀ s ∈ path, isPathSegment s = true := by
  unfold checkPath
  split
  · simp_all
  · simp_all
  · rename_i path hne hpath
    rw [hpath]
    constructor
    · intro h path' heq
      cases heq
      refine ⟨hne, ?_⟩
      split at h
      · cases h
      · rename_i hnone
        intro s hs
        simpa using List.find?_eq_none.mp hnone s hs
    · intro h
      have hall := (h path rfl).2
      have hnone : path.find? (fun s => !isPathSegment s) = none := by
        rw [List.find?_eq_none]
        intro s hs
        simp [hall s hs]
      rw [hnone]

theorem checkFunctions_eq_ok {f : Field} :
    f.checkFunctions = .ok () ↔ (f.functions ≠ [] → f.type = .text ∧ f.source.isArray = false) := by
  unfold checkFunctions
  split
  · simp_all
  · split <;> simp_all

theorem check_eq_ok_iff (f : Field) : f.check = .ok () ↔ f.Valid := by
  constructor
  · intro h
    obtain ⟨_, hname, h⟩ := bind_eq_ok.mp h
    obtain ⟨_, hcolumn, h⟩ := bind_eq_ok.mp h
    obtain ⟨_, hpath, hfunctions⟩ := bind_eq_ok.mp h
    exact ⟨checkName_eq_ok.mp hname, checkIdentifier_eq_ok.mp hcolumn, checkPath_eq_ok.mp hpath,
      checkFunctions_eq_ok.mp hfunctions⟩
  · intro h
    refine bind_eq_ok.mpr ⟨(), checkName_eq_ok.mpr h.name, ?_⟩
    refine bind_eq_ok.mpr ⟨(), checkIdentifier_eq_ok.mpr h.column, ?_⟩
    exact bind_eq_ok.mpr ⟨(), checkPath_eq_ok.mpr h.path, checkFunctions_eq_ok.mpr h.functions⟩

end Field

namespace Catalog

variable {entity : Entity} {table : String} {version : Nat} {fields : List Field} {catalog : Catalog}

theorem enroll_eq_ok {roster done : Roster} :
    enroll entity table roster fields = .ok done ↔
      ((∀ f ∈ fields, f.Valid) ∧ (fields.map Field.name).Nodup ∧
        ∀ f ∈ fields, f.name ∉ roster.fields.map Field.name) ∧
      done.fields = roster.fields ++ fields.map fun f => { f with table } := by
  induction fields generalizing roster with
  | nil =>
    have hsame : roster = done ↔ done.fields = roster.fields :=
      ⟨fun h => h ▸ rfl, fun h => Roster.ext h.symm⟩
    simp [enroll, hsame]
  | cons f fields ih =>
    have hnames : (roster.add { f with table }).fields.map Field.name = roster.fields.map Field.name ++ [f.name] :=
      List.map_append
    have hdone : (roster.add { f with table }).fields ++ fields.map (fun f => { f with table }) =
        roster.fields ++ (f :: fields).map fun f => { f with table } := List.append_assoc ..
    rw [enroll, bind_eq_ok, List.forall_mem_cons, List.map_cons, List.nodup_cons, List.forall_mem_cons]
    constructor
    · rintro ⟨_, hcheck, h⟩
      split at h
      case isTrue => cases h
      case isFalse hnew =>
        rw [Roster.lookup_index_isSome] at hnew
        obtain ⟨⟨hvalid, hnodup, hfresh⟩, h⟩ := ih.mp h
        rw [hdone] at h
        simp only [hnames, List.mem_append, List.mem_singleton, not_or] at hfresh
        refine ⟨⟨⟨(Field.check_eq_ok_iff f).mp hcheck, hvalid⟩, ⟨?_, hnodup⟩, hnew, fun g hg => (hfresh g hg).1⟩, h⟩
        intro hown
        obtain ⟨g, hg, hname⟩ := List.mem_map.mp hown
        exact (hfresh g hg).2 hname
    · rintro ⟨⟨⟨hf, hvalid⟩, ⟨hown, hnodup⟩, hnew, hfresh⟩, h⟩
      refine ⟨(), (Field.check_eq_ok_iff f).mpr hf, ?_⟩
      rw [if_neg (fun htaken => hnew ((Roster.lookup_index_isSome _ _).mp htaken)), ih, hdone, hnames]
      refine ⟨⟨hvalid, hnodup, fun g hg => ?_⟩, h⟩
      simp only [List.mem_append, List.mem_singleton, not_or]
      exact ⟨hfresh g hg, fun hname => hown (hname ▸ List.mem_map_of_mem hg)⟩

/-- What the checks let through, and what becomes of it. -/
theorem build_eq_ok :
    build entity table version fields = .ok catalog ↔
      (fields ≠ [] ∧ Text.isIdentifier table.toList = true ∧ (∀ f ∈ fields, f.Valid) ∧
        (fields.map Field.name).Nodup) ∧
      catalog = .of entity table version (fields.map fun f => { f with table }) := by
  have hroster : ∀ roster : Roster, enroll entity table (.of []) fields = .ok roster ↔
      ((∀ f ∈ fields, f.Valid) ∧ (fields.map Field.name).Nodup) ∧
        roster = .of (fields.map fun f => { f with table }) := by
    intro roster
    have hempty : (Roster.of []).fields = [] := rfl
    rw [enroll_eq_ok, hempty, List.nil_append]
    constructor
    · rintro ⟨⟨hvalid, hnodup, -⟩, h⟩
      exact ⟨⟨hvalid, hnodup⟩, Roster.ext h⟩
    · rintro ⟨⟨hvalid, hnodup⟩, rfl⟩
      exact ⟨⟨hvalid, hnodup, by simp⟩, rfl⟩
  unfold build
  split
  case isTrue hempty => simp [List.isEmpty_iff.mp hempty]
  case isFalse hne =>
    have hne : fields ≠ [] := fun h => hne (List.isEmpty_iff.mpr h)
    constructor
    · intro h
      obtain ⟨_, htable, h⟩ := bind_eq_ok.mp h
      obtain ⟨roster, henroll, h⟩ := bind_eq_ok.mp h
      cases h
      obtain ⟨hfields, rfl⟩ := (hroster roster).mp henroll
      exact ⟨⟨hne, Field.checkIdentifier_eq_ok.mp htable, hfields⟩, rfl⟩
    · rintro ⟨⟨-, htable, hfields⟩, rfl⟩
      refine bind_eq_ok.mpr ⟨(), Field.checkIdentifier_eq_ok.mpr htable, ?_⟩
      exact bind_eq_ok.mpr ⟨_, (hroster _).mpr ⟨hfields, rfl⟩, rfl⟩

theorem find?_name {fs : List Field} (h : (fs.map Field.name).Nodup) {f : Field} (hf : f ∈ fs) :
    fs.find? (·.name == f.name) = some f := by
  induction fs with
  | nil => cases hf
  | cons g fs ih =>
    obtain ⟨hown, hnodup⟩ := List.nodup_cons.mp h
    rcases List.mem_cons.mp hf with rfl | hf
    · simp
    · have hne : g.name ≠ f.name := by
        intro hname
        exact hown (hname ▸ List.mem_map_of_mem hf)
      rw [List.find?_cons_of_neg (by simpa using hne), ih hnodup hf]

variable (h : build entity table version fields = .ok catalog)

include h

theorem mem_of_build : ∀ g ∈ catalog.fields, ∃ f ∈ fields, g = { f with table } := by
  obtain ⟨-, rfl⟩ := build_eq_ok.mp h
  intro g hg
  obtain ⟨f, hf, rfl⟩ := List.mem_map.mp hg
  exact ⟨f, hf, rfl⟩

theorem valid_of_build :
    Text.isIdentifier table.toList = true ∧ ∀ f ∈ catalog.fields, f.table = table ∧ f.Valid := by
  obtain ⟨⟨-, htable, hvalid, -⟩, -⟩ := build_eq_ok.mp h
  refine ⟨htable, fun g hg => ?_⟩
  obtain ⟨f, hf, rfl⟩ := mem_of_build h g hg
  -- No rule is about the table, so the field with its table set is as valid as before.
  exact ⟨rfl, (hvalid f hf).name, (hvalid f hf).column, (hvalid f hf).path, (hvalid f hf).functions⟩

theorem nodup_of_build : (catalog.fields.map Field.name).Nodup := by
  obtain ⟨⟨-, -, -, hnodup⟩, rfl⟩ := build_eq_ok.mp h
  have hnames : (Catalog.of entity table version (fields.map fun f => { f with table })).fields.map Field.name =
      fields.map Field.name := List.map_map
  rwa [hnames]

theorem lookup_of_build {f : Field} (hf : f ∈ catalog.fields) : catalog.lookup f.name = some f := by
  rw [lookup_eq_find?, find?_name (nodup_of_build h) hf]

end Catalog

end FilterSql
