import FilterSql.Engine.Basic
import FilterSql.Proofs.Outcome

/-! Requests to an engine, one after another. A request can only add a fresh statement to the cache, so
every cached statement is what its key is compiled to, and a reply does not depend on what was asked
before. -/
namespace FilterSql.Engine

def built (config : Config) (catalogs : List Catalog) : Engine := catalogs.foldl register (ofConfig config)

def after (engine : Engine) (history : List (Request × Signal)) : Engine :=
  history.foldl (fun engine call => (engine.compile call.1 call.2).2) engine

def Analysed (limits : Limits) (catalog : Catalog) (source : String) (typed : Predicate Operand) : Prop :=
  ∃ tokens e bound, tokenize source = .ok tokens ∧ Expr.ofTokens limits tokens = .ok e ∧
    Predicate.bind catalog e = .ok bound ∧ bound.check = .ok typed

theorem pass_eq_ok {signal : Signal} {checkpoint : Checkpoint} :
    pass signal checkpoint = .ok () ↔ signal.seenAt checkpoint = false := by
  unfold pass
  split <;> simp_all

theorem not_seenAt_of_le {signal : Signal} {first later : Checkpoint} (hle : first.rank ≤ later.rank)
    (h : signal.seenAt later = false) : signal.seenAt first = false := by
  cases signal with
  | none => rfl
  | some seen =>
    simp only [Signal.seenAt, Option.any_some, decide_eq_false_iff_not] at h ⊢
    omega

theorem analyse_eq_ok_iff {limits : Limits} {catalog : Catalog} {source : String} {signal : Signal}
    {typed : Predicate Operand} :
    analyse limits catalog source signal = .ok typed ↔
      Analysed limits catalog source typed ∧ signal.seenAt .checked = false := by
  constructor
  · intro h
    obtain ⟨tokens, htokens, h⟩ := bind_eq_ok.mp h
    obtain ⟨_, -, h⟩ := bind_eq_ok.mp h
    obtain ⟨e, he, h⟩ := bind_eq_ok.mp h
    obtain ⟨_, -, h⟩ := bind_eq_ok.mp h
    obtain ⟨bound, hbound, h⟩ := bind_eq_ok.mp h
    obtain ⟨checked, hchecked, h⟩ := bind_eq_ok.mp h
    obtain ⟨_, hpass, h⟩ := bind_eq_ok.mp h
    cases h
    exact ⟨⟨tokens, e, bound, mapError_eq_ok.mp htokens, mapError_eq_ok.mp he, mapError_eq_ok.mp hbound,
      mapError_eq_ok.mp hchecked⟩, pass_eq_ok.mp hpass⟩
  · rintro ⟨⟨tokens, e, bound, htokens, he, hbound, hchecked⟩, hseen⟩
    have hlexed := pass_eq_ok.mpr (not_seenAt_of_le (by decide : Checkpoint.lexed.rank ≤ _) hseen)
    have hparsed := pass_eq_ok.mpr (not_seenAt_of_le (by decide : Checkpoint.parsed.rank ≤ _) hseen)
    refine bind_eq_ok.mpr ⟨tokens, mapError_eq_ok.mpr htokens, bind_eq_ok.mpr ⟨(), hlexed, ?_⟩⟩
    refine bind_eq_ok.mpr ⟨e, mapError_eq_ok.mpr he, bind_eq_ok.mpr ⟨(), hparsed, ?_⟩⟩
    refine bind_eq_ok.mpr ⟨bound, mapError_eq_ok.mpr hbound, ?_⟩
    refine bind_eq_ok.mpr ⟨typed, mapError_eq_ok.mpr hchecked, ?_⟩
    exact bind_eq_ok.mpr ⟨(), pass_eq_ok.mpr hseen, rfl⟩

theorem compileFresh_eq_ok_iff {limits : Limits} {catalog : Catalog} {dialect : Dialect} {offset : Nat}
    {source : String} {signal : Signal} {statement : Statement} :
    compileFresh limits catalog dialect offset source signal = .ok statement ↔
      (∃ typed, Analysed limits catalog source typed ∧
        typed.render dialect offset = some (statement.fragment, statement.parameters) ∧
        statement.referencedFields = typed.referencedFields) ∧ signal.seenAt .checked = false := by
  constructor
  · intro h
    obtain ⟨typed, htyped, h⟩ := bind_eq_ok.mp h
    obtain ⟨hanalysed, hseen⟩ := analyse_eq_ok_iff.mp htyped
    split at h
    case h_1 fragment parameters hrender =>
      cases h
      exact ⟨⟨typed, hanalysed, hrender, rfl⟩, hseen⟩
    case h_2 => cases h
  · rintro ⟨⟨typed, hanalysed, hrender, hfields⟩, hseen⟩
    refine bind_eq_ok.mpr ⟨typed, analyse_eq_ok_iff.mpr ⟨hanalysed, hseen⟩, ?_⟩
    rw [hrender, ← hfields]

theorem compileFresh_unsignalled {limits : Limits} {catalog : Catalog} {dialect : Dialect} {offset : Nat}
    {source : String} {signal : Signal} {statement : Statement}
    (h : compileFresh limits catalog dialect offset source signal = .ok statement) :
    compileFresh limits catalog dialect offset source none = .ok statement := by
  rw [compileFresh_eq_ok_iff] at h ⊢
  exact ⟨h.1, rfl⟩

theorem admissible_eq_ok {engine : Engine} {request : Request} {dialect : Dialect} {catalog : Catalog}
    (h : engine.admissible request = .ok (dialect, catalog)) :
    request.dialect = some dialect ∧ engine.catalog? request.entity = some catalog := by
  unfold admissible at h
  split at h
  case h_1 => cases h
  case h_2 requested hrequested =>
    split at h
    case isFalse => cases h
    case isTrue =>
      split at h
      case h_1 found hfound =>
        cases h
        exact ⟨hrequested, hfound⟩
      case h_2 => cases h

/-- A request fails and leaves the engine as it was, or is answered from the cache, which leaves it as
well, or is compiled and its statement put into the cache. -/
theorem compile_cases (engine : Engine) (request : Request) (signal : Signal) :
    (∃ e, engine.compile request signal = (⟨.error e, false⟩, engine)) ∨
    ∃ dialect catalog, engine.admissible request = .ok (dialect, catalog) ∧
      ((∃ statement, engine.cache.bind (·.get? (keyOf request dialect catalog)) = some statement ∧
        engine.compile request signal = (⟨.ok statement, true⟩, engine)) ∨
      ∃ statement, compileFresh engine.limits catalog dialect request.offset request.source signal =
          .ok statement ∧
        engine.compile request signal = (⟨.ok statement, false⟩, { engine with
          cache := engine.cache.map (·.insert (keyOf request dialect catalog) statement) })) := by
  unfold compile
  cases hadmissible : engine.admissible request with
  | error e => exact .inl ⟨e, rfl⟩
  | ok chosen =>
    obtain ⟨dialect, catalog⟩ := chosen
    cases hpass : pass signal .start with
    | error e => exact .inl ⟨e, rfl⟩
    | ok =>
      cases hget : engine.cache.bind (·.get? (keyOf request dialect catalog)) with
      | some statement =>
        refine .inr ⟨dialect, catalog, rfl, .inl ⟨statement, hget, ?_⟩⟩
        dsimp only
        rw [hget]
      | none =>
        cases hfresh : compileFresh engine.limits catalog dialect request.offset request.source signal with
        | error e =>
          refine .inl ⟨e, ?_⟩
          dsimp only
          rw [hget, hfresh]
        | ok statement =>
          refine .inr ⟨dialect, catalog, rfl, .inr ⟨statement, hfresh, ?_⟩⟩
          dsimp only
          rw [hget, hfresh]

theorem compile_frame (engine : Engine) (request : Request) (signal : Signal) :
    (engine.compile request signal).2 = { engine with cache := (engine.compile request signal).2.cache } := by
  obtain ⟨e, h⟩ | ⟨dialect, catalog, -, ⟨statement, -, h⟩ | ⟨statement, -, h⟩⟩ :=
    compile_cases engine request signal
  all_goals rw [h]

theorem after_frame (engine : Engine) (history : List (Request × Signal)) :
    engine.after history = { engine with cache := (engine.after history).cache } := by
  induction history generalizing engine with
  | nil => rfl
  | cons call history ih =>
    have hstep := compile_frame engine call.1 call.2
    have hrest := ih (engine.compile call.1 call.2).2
    rw [hstep] at hrest
    rw [after, List.foldl_cons, hstep]
    exact hrest

/-- The statement under a key is what the engine compiles the key to. -/
def FreshEntry (engine : Engine) (key : Cache.Key) (statement : Statement) : Prop :=
  ∃ catalog, engine.catalog? key.entity = some catalog ∧ key.catalogVersion = catalog.version ∧
    compileFresh engine.limits catalog key.dialect key.offset key.source none = .ok statement

def CacheSound (engine : Engine) : Prop :=
  ∀ cache, engine.cache = some cache → ∀ entry ∈ cache.entries, engine.FreshEntry entry.1 entry.2

theorem mem_of_get? {cache : Cache} {key : Cache.Key} {statement : Statement}
    (h : cache.get? key = some statement) : (key, statement) ∈ cache.entries := by
  unfold Cache.get? at h
  obtain ⟨⟨found, stored⟩, hfind, hstored⟩ := Option.map_eq_some_iff.mp h
  have hkey : found = key := by simpa using List.find?_some hfind
  cases hkey
  cases hstored
  exact List.mem_of_find?_eq_some hfind

theorem mem_insert {cache : Cache} {key : Cache.Key} {statement : Statement}
    {entry : Cache.Key × Statement} (h : entry ∈ (cache.insert key statement).entries) :
    entry ∈ cache.entries ∨ entry = (key, statement) := by
  have hmem := List.mem_of_mem_drop h
  rcases List.mem_append.mp hmem with hold | hnew
  · exact .inl (List.mem_filter.mp hold).1
  · exact .inr (List.mem_singleton.mp hnew)

theorem CacheSound.fresh_of_get? {engine : Engine} (hsound : engine.CacheSound) {key : Cache.Key}
    {statement : Statement} (h : engine.cache.bind (·.get? key) = some statement) :
    engine.FreshEntry key statement := by
  obtain ⟨cache, hcache, hget⟩ := Option.bind_eq_some_iff.mp h
  exact hsound cache hcache _ (mem_of_get? hget)

theorem CacheSound.compile {engine : Engine} (hsound : engine.CacheSound) (request : Request)
    (signal : Signal) : (engine.compile request signal).2.CacheSound := by
  obtain ⟨e, h⟩ | ⟨dialect, catalog, hadmissible, ⟨statement, -, h⟩ | ⟨statement, hfresh, h⟩⟩ :=
    compile_cases engine request signal
  · rw [h]
    exact hsound
  · rw [h]
    exact hsound
  · rw [h]
    intro cache hcache entry hentry
    obtain ⟨old, hold, rfl⟩ := Option.map_eq_some_iff.mp hcache
    rcases mem_insert hentry with hmem | rfl
    · exact hsound old hold entry hmem
    · exact ⟨catalog, (admissible_eq_ok hadmissible).2, rfl, compileFresh_unsignalled hfresh⟩

theorem CacheSound.after {engine : Engine} (hsound : engine.CacheSound)
    (history : List (Request × Signal)) : (engine.after history).CacheSound := by
  induction history generalizing engine with
  | nil => exact hsound
  | cons call history ih => exact ih (hsound.compile call.1 call.2)

theorem register_cache (catalogs : List Catalog) (engine : Engine) :
    (catalogs.foldl register engine).cache = engine.cache := by
  induction catalogs generalizing engine with
  | nil => rfl
  | cons catalog catalogs ih =>
    rw [List.foldl_cons, ih]
    rfl

theorem entries_built {config : Config} {catalogs : List Catalog} {cache : Cache}
    (h : (built config catalogs).cache = some cache) : cache.entries = [] := by
  rw [built, register_cache] at h
  unfold ofConfig Cache.ofCapacity? at h
  dsimp only at h
  split at h
  · split at h
    · cases h
    · cases h
      rfl
  · cases h

theorem cacheSound_built (config : Config) (catalogs : List Catalog) :
    (built config catalogs).CacheSound := by
  intro cache hcache entry hentry
  rw [entries_built hcache] at hentry
  cases hentry

theorem CacheSound.fresh_of_compile {engine : Engine} (hsound : engine.CacheSound) {request : Request}
    {signal : Signal} {statement : Statement}
    (h : (engine.compile request signal).1.result = .ok statement) :
    ∃ dialect catalog, request.dialect = some dialect ∧ engine.catalog? request.entity = some catalog ∧
      compileFresh engine.limits catalog dialect request.offset request.source none = .ok statement := by
  obtain ⟨e, hcompile⟩ | ⟨dialect, catalog, hadmissible, hcases⟩ := compile_cases engine request signal
  · rw [hcompile] at h
    cases h
  obtain ⟨hdialect, hcatalog⟩ := admissible_eq_ok hadmissible
  refine ⟨dialect, catalog, hdialect, hcatalog, ?_⟩
  obtain ⟨stored, hget, hcompile⟩ | ⟨fresh, hfresh, hcompile⟩ := hcases
  · rw [hcompile] at h
    cases h
    obtain ⟨found, hfound, -, hstored⟩ := hsound.fresh_of_get? hget
    have hsame : found = catalog := Option.some.inj (hfound.symm.trans hcatalog)
    rw [← hsame]
    exact hstored
  · rw [hcompile] at h
    cases h
    exact compileFresh_unsignalled hfresh

/-- What an engine replies after any requests is what its limits and catalogs give. -/
theorem fresh_of_compile_after {config : Config} {catalogs : List Catalog}
    {history : List (Request × Signal)} {request : Request} {signal : Signal} {statement : Statement}
    (h : (((built config catalogs).after history).compile request signal).1.result = .ok statement) :
    ∃ dialect catalog, request.dialect = some dialect ∧
      (built config catalogs).catalog? request.entity = some catalog ∧
      compileFresh (built config catalogs).limits catalog dialect request.offset request.source none =
        .ok statement := by
  have hfresh := ((cacheSound_built config catalogs).after history).fresh_of_compile h
  rw [after_frame] at hfresh
  exact hfresh

end FilterSql.Engine
