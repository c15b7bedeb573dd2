import Mathlib.Data.List.DropRight
import Mathlib.Data.List.Nodup
import FilterSql.Proofs.EngineRuns

/-! The cache as a queue. A statement is put in only for a key that was looked up and missed, so no key is
ever renewed in its place: the cache holds the newest of the statements that were compiled, as many as it has
room for, and the oldest of them is the next to leave. -/
namespace FilterSql

theorem rtake_rtake (xs : List α) {m n : Nat} (h : m ≤ n) : (xs.rtake n).rtake m = xs.rtake m := by
  simp only [List.rtake_eq_reverse_take_reverse, List.reverse_reverse, List.take_take, Nat.min_eq_left h]

theorem rtake_concat (xs : List α) (x : α) (n : Nat) : (xs.rtake n ++ [x]).rtake n = (xs ++ [x]).rtake n := by
  cases n with
  | zero => simp
  | succ n => rw [List.rtake_concat_succ, List.rtake_concat_succ, rtake_rtake _ (Nat.le_succ n)]

theorem length_rtake (xs : List α) (n : Nat) : (xs.rtake n).length = min n xs.length := by
  rw [List.rtake, List.length_drop]
  omega

namespace Cache

def keys (cache : Cache) : List Key := cache.entries.map Prod.fst

theorem not_mem_keys_of_get? {cache : Cache} {key : Key} (h : cache.get? key = none) : key ∉ cache.keys := by
  intro hmem
  obtain ⟨entry, hentry, rfl⟩ := List.mem_map.mp hmem
  have hfind := Option.map_eq_none_iff.mp h
  exact List.find?_eq_none.mp hfind entry hentry (beq_self_eq_true entry.1)

theorem entries_insert {cache : Cache} {key : Key} (h : key ∉ cache.keys) (statement : Statement) :
    (cache.insert key statement).entries = (cache.entries ++ [(key, statement)]).rtake cache.capacity := by
  have hothers : cache.entries.filter (·.1 != key) = cache.entries := by
    rw [List.filter_eq_self]
    intro entry hentry
    rw [bne_iff_ne]
    rintro rfl
    exact h (List.mem_map_of_mem hentry)
  unfold insert
  rw [hothers]
  rfl

theorem nodup_keys_insert {cache : Cache} {key : Key} (h : key ∉ cache.keys) (hnodup : cache.keys.Nodup)
    (statement : Statement) : (cache.insert key statement).keys.Nodup := by
  have hall : ((cache.entries ++ [(key, statement)]).map Prod.fst).Nodup := by
    rw [List.map_append, List.nodup_append]
    refine ⟨hnodup, List.nodup_singleton key, ?_⟩
    rintro a ha b hb rfl
    cases List.mem_singleton.mp hb
    exact h ha
  unfold keys
  rw [entries_insert h, List.rtake, List.map_drop]
  exact hall.sublist (List.drop_sublist _ _)

end Cache

namespace Engine

/-- The key that a request is looked up by, if the engine takes the request at all. -/
def key? (engine : Engine) (request : Request) : Option Cache.Key :=
  match engine.admissible request with
  | .ok (dialect, catalog) => some (keyOf request dialect catalog)
  | .error _ => none

/-- What a request adds to the cache: its statement, unless it is refused or answered from the cache. -/
def addition? (engine : Engine) (request : Request) (signal : Signal) : Option (Cache.Key × Statement) :=
  match (engine.compile request signal).1 with
  | ⟨.ok statement, false⟩ => (engine.key? request).map (·, statement)
  | _ => none

def additions (engine : Engine) : List (Request × Signal) → List (Cache.Key × Statement)
  | [] => []
  | call :: history =>
    (engine.addition? call.1 call.2).toList ++ (engine.compile call.1 call.2).2.additions history

theorem missed_of_compile {engine : Engine} {request : Request} {signal : Signal} {dialect : Dialect}
    {catalog : Catalog} {statement : Statement}
    (hadmissible : engine.admissible request = .ok (dialect, catalog))
    (h : (engine.compile request signal).1 = ⟨.ok statement, false⟩) :
    engine.cache.bind (·.get? (keyOf request dialect catalog)) = none := by
  unfold compile at h
  rw [hadmissible] at h
  dsimp only at h
  cases hpass : pass signal .start with
  | error e =>
    rw [hpass] at h
    cases h
  | ok =>
    rw [hpass] at h
    cases hget : engine.cache.bind (·.get? (keyOf request dialect catalog)) with
    | none => rfl
    | some stored =>
      dsimp only at h
      rw [hget] at h
      cases h

/-- What one request does to the engine: nothing, or a statement goes into the cache under a key that was not
in it. -/
theorem compile_adds (engine : Engine) (request : Request) (signal : Signal) :
    (engine.addition? request signal = none ∧ (engine.compile request signal).2 = engine) ∨
    ∃ key statement, engine.addition? request signal = some (key, statement) ∧
      (∀ cache, engine.cache = some cache → key ∉ cache.keys) ∧
      (engine.compile request signal).2 =
        { engine with cache := engine.cache.map (·.insert key statement) } := by
  obtain ⟨e, h⟩ | ⟨dialect, catalog, hadmissible, ⟨statement, -, h⟩ | ⟨statement, -, h⟩⟩ :=
    compile_cases engine request signal
  · exact .inl ⟨by rw [addition?, h], by rw [h]⟩
  · exact .inl ⟨by rw [addition?, h], by rw [h]⟩
  · have hmissed := missed_of_compile hadmissible (congrArg Prod.fst h)
    refine .inr ⟨keyOf request dialect catalog, statement, ?_, ?_, by rw [h]⟩
    · rw [addition?, h, key?, hadmissible]
      rfl
    · intro cache hcache
      rw [hcache] at hmissed
      exact Cache.not_mem_keys_of_get? hmissed

/-- The cache holds the newest of the statements that were added, each under a key of its own. -/
def Queued (engine : Engine) (capacity : Nat) (added : List (Cache.Key × Statement)) : Prop :=
  ∃ cache, engine.cache = some cache ∧ cache.capacity = capacity ∧
    cache.entries = added.rtake capacity ∧ cache.keys.Nodup

theorem Queued.compile {engine : Engine} {capacity : Nat} {added : List (Cache.Key × Statement)}
    (h : engine.Queued capacity added) (request : Request) (signal : Signal) :
    (engine.compile request signal).2.Queued capacity (added ++ (engine.addition? request signal).toList) := by
  obtain ⟨cache, hcache, hcapacity, hentries, hnodup⟩ := h
  obtain ⟨hnone, hengine⟩ | ⟨key, statement, hsome, hnew, hengine⟩ := compile_adds engine request signal
  · rw [hnone, hengine, Option.toList_none, List.append_nil]
    exact ⟨cache, hcache, hcapacity, hentries, hnodup⟩
  · have hnew := hnew cache hcache
    rw [hsome, hengine]
    have hnodup := Cache.nodup_keys_insert hnew hnodup statement
    refine ⟨cache.insert key statement, by rw [hcache]; rfl, hcapacity, ?_, hnodup⟩
    rw [Cache.entries_insert hnew, hentries, hcapacity, Option.toList_some, rtake_concat]

theorem Queued.after {engine : Engine} {capacity : Nat} {added : List (Cache.Key × Statement)}
    (h : engine.Queued capacity added) (history : List (Request × Signal)) :
    (engine.after history).Queued capacity (added ++ engine.additions history) := by
  induction history generalizing engine added with
  | nil =>
    rw [additions, List.append_nil]
    exact h
  | cons call history ih =>
    have hrest := ih (h.compile call.1 call.2)
    rw [List.append_assoc] at hrest
    exact hrest

theorem queued_built {config : Config} (h : config.cache.isActive = true) (catalogs : List Catalog) :
    (built config catalogs).Queued config.cache.capacity [] := by
  have hroom : config.cache.capacity ≠ 0 := by
    simp only [CacheConfig.isActive, Bool.and_eq_true, decide_eq_true_eq] at h
    omega
  refine ⟨⟨config.cache.capacity, []⟩, ?_, rfl, by simp, List.nodup_nil⟩
  rw [built, register_cache, ofConfig, Cache.ofCapacity?, if_pos h, if_neg hroom]

/-- After any requests, an engine with a cache holds the newest of the statements that it compiled, at most as
many as the cache has room for and each under a key of its own, in the order in which they were compiled. A
request that is refused or answered from the cache leaves all of it as it is. -/
theorem cache_holds_newest {config : Config} (hactive : config.cache.isActive = true) (catalogs : List Catalog)
    (history : List (Request × Signal)) :
    let engine := built config catalogs
    let added := engine.additions history
    let now := engine.after history
    (∃ cache, now.cache = some cache ∧ cache.capacity = config.cache.capacity ∧
      cache.entries = added.rtake config.cache.capacity ∧
      cache.keys = (added.map Prod.fst).rtake config.cache.capacity ∧ cache.keys.Nodup) ∧
    now.cachedStatements = min config.cache.capacity added.length ∧
    ∀ request signal,
      ((now.compile request signal).1.hit = true ∨ ∃ e, (now.compile request signal).1.result = .error e) →
        (now.compile request signal).2 = now := by
  intro engine added now
  obtain ⟨cache, hcache, hcapacity, hentries, hnodup⟩ := (queued_built hactive catalogs).after history
  rw [List.nil_append] at hentries
  refine ⟨⟨cache, hcache, hcapacity, hentries, ?_, hnodup⟩, ?_, ?_⟩
  · rw [Cache.keys, hentries, List.rtake, List.map_drop, List.rtake, List.length_map]
  · have hsize : now.cachedStatements = cache.entries.length := by
      simp only [now, engine, cachedStatements, hcache, Option.map_some, Option.getD_some, Cache.size]
    rw [hsize, hentries, length_rtake]
  · intro request signal hkept
    obtain ⟨e, h⟩ | ⟨dialect, catalog, -, ⟨statement, -, h⟩ | ⟨statement, -, h⟩⟩ :=
      compile_cases now request signal
    · rw [h]
    · rw [h]
    · rw [h] at hkept
      obtain hhit | ⟨e, herror⟩ := hkept
      · cases hhit
      · cases herror

def marks : Catalog :=
  .of .note "mark" 1 [{ Field.ofColumn "a" .boolean "a" with table := "mark" },
    { Field.ofColumn "b" .boolean "b" with table := "mark" }]

def keepsTwo : Config := { cache := ⟨true, 2⟩ }

def ask (source : String) : Request × Signal := (⟨.note, source, some .sqlite, 0⟩, none)

/-- The first statement is asked for again while it is kept and once more when it has left; between, a name
without a field and a request that is cancelled. -/
def asked : List (Request × Signal) :=
  [ask "a", ask "b", ask "a", ask "c", ((ask "!b").1, some .parsed), ask "!a", ask "a"]

theorem cache_holds_newest_marks :
    let now := (built keepsTwo [marks]).after asked
    keepsTwo.cache.isActive = true ∧
    ((built keepsTwo [marks]).additions asked).map (·.1.source) = ["a", "b", "!a", "a"] ∧
    (∃ cache, now.cache = some cache ∧ cache.keys.map Cache.Key.source = ["!a", "a"] ∧ cache.keys.Nodup) ∧
    now.cachedStatements = 2 ∧
    (now.compile (ask "!a").1 none).1.hit = true ∧ (now.compile (ask "!a").1 none).2 = now := by
  intro now
  have hadded : ((built keepsTwo [marks]).additions asked).map (·.1.source) = ["a", "b", "!a", "a"] := by
    decide +kernel
  have hhit : (((built keepsTwo [marks]).after asked).compile (ask "!a").1 none).1.hit = true := by
    decide +kernel
  obtain ⟨⟨cache, hcache, -, -, hkeys, hnodup⟩, hsize, hkept⟩ :=
    @cache_holds_newest keepsTwo rfl [marks] asked
  have hlength : ((built keepsTwo [marks]).additions asked).length = 4 := by
    simpa using congrArg List.length hadded
  refine ⟨rfl, hadded, ⟨cache, hcache, ?_, hnodup⟩, ?_, hhit, hkept _ _ (.inl hhit)⟩
  · rw [hkeys, List.rtake, List.length_map, hlength, List.map_drop, List.map_map]
    exact congrArg (List.drop 2) hadded
  · rw [hsize, hlength]
    rfl

end Engine

end FilterSql
