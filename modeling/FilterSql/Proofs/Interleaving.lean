import FilterSql.Proofs.EngineRuns

/-! Requests that share an engine and take their steps in any order: a look at the cache, a compilation
away from it, and the putting in of a new statement. However the steps of different requests fall between
one another, each request is answered as by an engine without a cache. -/
namespace FilterSql

def Cache.Key.request (key : Cache.Key) : Request := ⟨key.entity, key.source, some key.dialect, key.offset⟩

namespace Engine

inductive Progress where
  | asked
  | missed (dialect : Dialect) (catalog : Catalog)
  | compiled (key : Cache.Key) (statement : Statement)
  | answered (result : Except CompileError Statement)

def lookUp (engine : Engine) (request : Request) : Progress :=
  match engine.admissible request with
  | .error e => .answered (.error e)
  | .ok (dialect, catalog) =>
    match engine.cache.bind (·.get? (keyOf request dialect catalog)) with
    | some statement => .answered (.ok statement)
    | none => .missed dialect catalog

def compileMissed (engine : Engine) (request : Request) (dialect : Dialect) (catalog : Catalog) :
    Progress :=
  match compileFresh engine.limits catalog dialect request.offset request.source none with
  | .error e => .answered (.error e)
  | .ok statement => .compiled (keyOf request dialect catalog) statement

/-- One step of a request. Only the last one writes to the cache, and an answered request takes none. -/
def advance (engine : Engine) (request : Request) : Progress → Progress × Engine
  | .asked => (engine.lookUp request, engine)
  | .missed dialect catalog => (engine.compileMissed request dialect catalog, engine)
  | .compiled key statement =>
    (.answered (.ok statement), { engine with cache := engine.cache.map (·.insert key statement) })
  | .answered result => (.answered result, engine)

/-- An engine in use. Requests are numbered; there is no end of them. -/
structure Traffic where
  engine : Engine
  progress : Nat → Progress

def Traffic.step (requests : Nat → Request) (s : Traffic) (i : Nat) : Traffic where
  engine := (s.engine.advance (requests i) (s.progress i)).2
  progress j := if j = i then (s.engine.advance (requests i) (s.progress i)).1 else s.progress j

def Traffic.run (requests : Nat → Request) (s : Traffic) (schedule : List Nat) : Traffic :=
  schedule.foldl (Traffic.step requests) s

def traffic (engine : Engine) (requests : Nat → Request) (schedule : List Nat) : Traffic :=
  Traffic.run requests ⟨engine, fun _ => .asked⟩ schedule

def withoutCache (engine : Engine) : Engine := { engine with cache := none }

/-- The answer to a request that no cache has a part in. -/
def fresh (engine : Engine) (request : Request) : Except CompileError Statement :=
  (engine.withoutCache.compile request none).1.result

theorem advance_alone (engine : Engine) (request : Request) :
    let looked := engine.advance request .asked
    let tried := looked.2.advance request looked.1
    tried.2.advance request tried.1 =
      (.answered (engine.compile request none).1.result, (engine.compile request none).2) := by
  have hpass : pass none .start = .ok () := rfl
  simp only [advance, lookUp, compile, hpass]
  cases engine.admissible request with
  | error e => rfl
  | ok chosen =>
    obtain ⟨dialect, catalog⟩ := chosen
    cases hget : engine.cache.bind (·.get? (keyOf request dialect catalog)) with
    | some statement => simp only [hget]
    | none =>
      simp only [hget, compileMissed]
      cases compileFresh engine.limits catalog dialect request.offset request.source none <;> rfl

/-- Three steps of one request with no other between them are `compile`. -/
theorem run_alone {requests : Nat → Request} {s : Traffic} {i : Nat} (h : s.progress i = .asked) :
    (s.run requests [i, i, i]).progress i = .answered (s.engine.compile (requests i) none).1.result ∧
      (s.run requests [i, i, i]).engine = (s.engine.compile (requests i) none).2 := by
  have halone := s.engine.advance_alone (requests i)
  simp only [Traffic.run, List.foldl_cons, List.foldl_nil, Traffic.step, if_true, h]
  rw [halone]
  exact ⟨rfl, rfl⟩

theorem fresh_of_refused {engine : Engine} {request : Request} {e : CompileError}
    (h : engine.admissible request = .error e) : engine.fresh request = .error e := by
  have hsame : engine.withoutCache.admissible request = .error e := h
  simp [fresh, compile, hsame]

theorem fresh_of_admissible {engine : Engine} {request : Request} {dialect : Dialect} {catalog : Catalog}
    (h : engine.admissible request = .ok (dialect, catalog)) :
    engine.fresh request =
      compileFresh engine.limits catalog dialect request.offset request.source none := by
  have hsame : engine.withoutCache.admissible request = .ok (dialect, catalog) := h
  have hpass : pass none .start = .ok () := rfl
  have hmiss : engine.withoutCache.cache.bind (·.get? (keyOf request dialect catalog)) = none := rfl
  have hlimits : engine.withoutCache.limits = engine.limits := rfl
  simp only [fresh, compile, hsame, hpass, hmiss, hlimits]
  cases compileFresh engine.limits catalog dialect request.offset request.source none <;> rfl

/-- A statement that may stand under a key: what a fresh compilation of the key gives, over a catalog of
the key's version. -/
def Holds (engine : Engine) (key : Cache.Key) (statement : Statement) : Prop :=
  engine.fresh key.request = .ok statement ∧
    (engine.catalog? key.entity).map Catalog.version = some key.catalogVersion

def EntriesHold (engine : Engine) (cache : Option Cache) : Prop :=
  ∀ c, cache = some c → ∀ entry ∈ c.entries, engine.Holds entry.1 entry.2

def Progress.Sound (engine : Engine) (request : Request) : Progress → Prop
  | .asked => True
  | .missed dialect catalog => engine.admissible request = .ok (dialect, catalog)
  | .compiled key statement => engine.Holds key statement ∧ engine.fresh request = .ok statement
  | .answered result => result = engine.fresh request

theorem keyOf_request {engine : Engine} {request : Request} {dialect : Dialect} {catalog : Catalog}
    (h : engine.admissible request = .ok (dialect, catalog)) :
    (keyOf request dialect catalog).request = request := by
  obtain ⟨hdialect, -⟩ := admissible_eq_ok h
  cases request
  simp_all [keyOf, Cache.Key.request]

section Steps

variable {engine : Engine} {cache : Option Cache} {request : Request}

theorem sound_lookUp (hentries : engine.EntriesHold cache) :
    (({ engine with cache } : Engine).lookUp request).Sound engine request := by
  have hsame : ({ engine with cache } : Engine).admissible request = engine.admissible request := rfl
  unfold lookUp
  rw [hsame]
  cases hadmissible : engine.admissible request with
  | error e =>
    exact (fresh_of_refused hadmissible).symm
  | ok chosen =>
    obtain ⟨dialect, catalog⟩ := chosen
    dsimp only
    split
    case h_1 statement hget =>
      obtain ⟨c, hcache, hget⟩ := Option.bind_eq_some_iff.mp hget
      have hholds := (hentries c hcache _ (mem_of_get? hget)).1
      rw [keyOf_request hadmissible] at hholds
      exact hholds.symm
    case h_2 => exact hadmissible

theorem sound_compileMissed {dialect : Dialect} {catalog : Catalog}
    (h : engine.admissible request = .ok (dialect, catalog)) :
    (({ engine with cache } : Engine).compileMissed request dialect catalog).Sound engine request := by
  have hfresh := fresh_of_admissible h
  unfold compileMissed
  dsimp only
  cases hcompile : compileFresh engine.limits catalog dialect request.offset request.source none with
  | error e =>
    rw [hcompile] at hfresh
    exact hfresh.symm
  | ok statement =>
    rw [hcompile] at hfresh
    refine ⟨⟨?_, ?_⟩, hfresh⟩
    · rw [keyOf_request h]
      exact hfresh
    · simp [keyOf, (admissible_eq_ok h).2]

/-- A step of a request keeps what is known of it and of the cache, and changes nothing else. -/
theorem sound_advance {progress : Progress} (hentries : engine.EntriesHold cache)
    (hprogress : progress.Sound engine request) :
    let next := ({ engine with cache } : Engine).advance request progress
    next.1.Sound engine request ∧
      ∃ cache', next.2 = { engine with cache := cache' } ∧ engine.EntriesHold cache' := by
  cases progress with
  | asked => exact ⟨sound_lookUp hentries, cache, rfl, hentries⟩
  | missed dialect catalog => exact ⟨sound_compileMissed hprogress, cache, rfl, hentries⟩
  | compiled key statement =>
    refine ⟨hprogress.2.symm, cache.map (·.insert key statement), rfl, ?_⟩
    intro c hc entry hentry
    obtain ⟨old, hold, rfl⟩ := Option.map_eq_some_iff.mp hc
    rcases mem_insert hentry with hmem | rfl
    · exact hentries old hold entry hmem
    · exact hprogress.1
  | answered result => exact ⟨hprogress, cache, rfl, hentries⟩

end Steps

structure Traffic.Sound (engine : Engine) (requests : Nat → Request) (s : Traffic) : Prop where
  frame : s.engine = { engine with cache := s.engine.cache }
  entries : engine.EntriesHold s.engine.cache
  progress : ∀ i, (s.progress i).Sound engine (requests i)

theorem Traffic.Sound.step {engine : Engine} {requests : Nat → Request} {s : Traffic}
    (h : s.Sound engine requests) (i : Nat) : (s.step requests i).Sound engine requests := by
  obtain ⟨hsound, cache, hengine, hentries⟩ := sound_advance h.entries (h.progress i)
  rw [← h.frame] at hsound hengine
  refine ⟨?_, ?_, ?_⟩
  · simp only [Traffic.step, hengine]
  · simpa only [Traffic.step, hengine] using hentries
  · intro j
    by_cases hj : j = i
    · subst hj
      simpa [Traffic.step] using hsound
    · simpa [Traffic.step, hj] using h.progress j

theorem Traffic.Sound.run {engine : Engine} {requests : Nat → Request} {s : Traffic}
    (h : s.Sound engine requests) (schedule : List Nat) :
    (s.run requests schedule).Sound engine requests := by
  induction schedule generalizing s with
  | nil => exact h
  | cons i schedule ih => exact ih (h.step i)

theorem entriesHold_built (config : Config) (catalogs : List Catalog) :
    (built config catalogs).EntriesHold (built config catalogs).cache := by
  intro cache hcache entry hentry
  rw [entries_built hcache] at hentry
  cases hentry

theorem sound_traffic (config : Config) (catalogs : List Catalog) (requests : Nat → Request)
    (schedule : List Nat) :
    ((built config catalogs).traffic requests schedule).Sound (built config catalogs) requests := by
  apply Traffic.Sound.run
  exact ⟨rfl, entriesHold_built config catalogs, fun _ => trivial⟩

def Progress.steps : Progress → Nat
  | .asked => 0
  | .missed .. => 1
  | .compiled .. => 2
  | .answered _ => 3

theorem steps_advance (engine : Engine) (request : Request) (progress : Progress) :
    min 3 (progress.steps + 1) ≤ (engine.advance request progress).1.steps := by
  cases progress with
  | asked =>
    simp only [advance, lookUp]
    split
    · simp [Progress.steps]
    · split <;> simp [Progress.steps]
  | missed dialect catalog =>
    simp only [advance, compileMissed]
    split <;> simp [Progress.steps]
  | compiled => simp [advance, Progress.steps]
  | answered => simp [advance, Progress.steps]

theorem steps_run (requests : Nat → Request) (schedule : List Nat) (s : Traffic) (i : Nat) :
    min 3 ((s.progress i).steps + schedule.count i) ≤ ((s.run requests schedule).progress i).steps := by
  induction schedule generalizing s with
  | nil => exact Nat.min_le_right 3 _
  | cons j schedule ih =>
    have hrest := ih (s.step requests j)
    have hstep := steps_advance s.engine (requests i) (s.progress i)
    rw [Traffic.run, List.foldl_cons, ← Traffic.run, List.count_cons]
    by_cases hj : i = j
    · subst hj
      simp only [Traffic.step, if_true, beq_self_eq_true] at hrest ⊢
      omega
    · have hne : (j == i) = false := by simpa using Ne.symm hj
      simp only [Traffic.step, hj, if_false, hne] at hrest ⊢
      simpa using hrest

theorem answered_run {requests : Nat → Request} {s : Traffic} {i : Nat}
    {result : Except CompileError Statement} (h : s.progress i = .answered result) (schedule : List Nat) :
    (s.run requests schedule).progress i = .answered result := by
  induction schedule generalizing s with
  | nil => exact h
  | cons j schedule ih =>
    apply ih
    by_cases hj : i = j
    · subst hj
      simp [Traffic.step, h, advance]
    · simp [Traffic.step, hj, h]

theorem run_append (requests : Nat → Request) (s : Traffic) (earlier later : List Nat) :
    s.run requests (earlier ++ later) = (s.run requests earlier).run requests later :=
  List.foldl_append

/-- Only the step that answers a request with a statement of its own writes. -/
theorem engine_step_of_refused {requests : Nat → Request} {s : Traffic} {i : Nat} {later : List Nat}
    {e : CompileError} (h : ((s.step requests i).run requests later).progress i = .answered (.error e)) :
    (s.step requests i).engine = s.engine := by
  cases hprogress : s.progress i with
  | compiled key statement =>
    have hanswered : (s.step requests i).progress i = .answered (.ok statement) := by
      simp [Traffic.step, hprogress, advance]
    rw [answered_run hanswered] at h
    cases h
  | _ => simp [Traffic.step, hprogress, advance]

/-- For every engine, however many requests are under way and in whatever order their steps are taken: a
request that has had three steps is answered, every answer is the one the engine without its cache gives,
every statement in the cache is what its key is freshly compiled to, and no step of a request that is
refused changes the engine. The steps are those of `compile`, which is what a request comes to if no other
steps between. -/
theorem traffic_transparent (config : Config) (catalogs : List Catalog) (requests : Nat → Request)
    (schedule : List Nat) :
    let engine := built config catalogs
    let now := engine.traffic requests schedule
    (∀ i, now.progress i = .asked →
      (now.run requests [i, i, i]).progress i = .answered (now.engine.compile (requests i) none).1.result ∧
      (now.run requests [i, i, i]).engine = (now.engine.compile (requests i) none).2) ∧
    (∀ i, 3 ≤ schedule.count i → ∃ result, now.progress i = .answered result) ∧
    (∀ i result, now.progress i = .answered result →
      result = (engine.withoutCache.compile (requests i) none).1.result) ∧
    (∀ cache, now.engine.cache = some cache → ∀ entry ∈ cache.entries,
      (engine.withoutCache.compile entry.1.request none).1.result = .ok entry.2 ∧
        (engine.catalog? entry.1.entity).map Catalog.version = some entry.1.catalogVersion) ∧
    (∀ i e, now.progress i = .answered (.error e) → ∀ earlier later, schedule = earlier ++ i :: later →
      (engine.traffic requests (earlier ++ [i])).engine = (engine.traffic requests earlier).engine) := by
  intro engine now
  have hsound := sound_traffic config catalogs requests schedule
  refine ⟨fun i => run_alone, ?_, ?_, hsound.entries, ?_⟩
  · intro i hcount
    have hsteps := steps_run requests schedule ⟨engine, fun _ => .asked⟩ i
    have hthree : 3 ≤ (now.progress i).steps := by
      simp only [Progress.steps] at hsteps
      exact Nat.le_trans (by omega) hsteps
    cases hprogress : now.progress i with
    | answered result => exact ⟨result, rfl⟩
    | _ => simp [hprogress, Progress.steps] at hthree
  · intro i result hresult
    have hanswer := hsound.progress i
    rw [show ((built config catalogs).traffic requests schedule).progress i = .answered result from hresult]
      at hanswer
    exact hanswer
  · rintro i e hrefused earlier later rfl
    have hlater : (((engine.traffic requests earlier).step requests i).run requests later).progress i =
        .answered (.error e) := by
      rw [← hrefused]
      simp only [now, traffic, run_append]
      rfl
    rw [show engine.traffic requests (earlier ++ [i]) = (engine.traffic requests earlier).step requests i
      from run_append ..]
    exact engine_step_of_refused hlater

end Engine

end FilterSql
