import FilterSql.Proofs.EngineRuns

/-! When a request is cancelled and also at fault, what comes first wins. A stage that ends before the cancellation
is seen reports its own fault, a later stage does not run, and what fails in either way leaves the engine as it
was. -/
namespace FilterSql

def Signal.ofSeen (saw : Checkpoint → Bool) : Signal :=
  [Checkpoint.start, .lexed, .parsed, .checked].find? saw

def Persists (saw : Checkpoint → Bool) : Prop :=
  ∀ first later : Checkpoint, first.rank ≤ later.rank → saw first = true → saw later = true

def FirstSeen (saw : Checkpoint → Bool) (first : Checkpoint) : Prop :=
  saw first = true ∧ ∀ earlier : Checkpoint, earlier.rank < first.rank → saw earlier = false

theorem Persists.seenAt_ofSeen {saw : Checkpoint → Bool} (h : Persists saw) (checkpoint : Checkpoint) :
    (Signal.ofSeen saw).seenAt checkpoint = saw checkpoint := by
  have hlexed := h .start .lexed (by decide)
  have hparsed := h .lexed .parsed (by decide)
  have hchecked := h .parsed .checked (by decide)
  unfold Signal.ofSeen Signal.seenAt
  cases checkpoint <;> grind [Checkpoint.rank]

theorem FirstSeen.seen_iff {saw : Checkpoint → Bool} {first checkpoint : Checkpoint} (h : FirstSeen saw first)
    (hpersists : Persists saw) : saw checkpoint = false ↔ checkpoint.rank < first.rank := by
  constructor
  · intro hunseen
    refine Nat.lt_of_not_le fun hlater => ?_
    have hseen := hpersists first checkpoint hlater h.1
    rw [hunseen] at hseen
    cases hseen
  · exact h.2 checkpoint

namespace Engine

inductive Stage where
  | lexing
  | parsing
  | binding
  | checking
  | rendering
deriving DecidableEq

/-- The checkpoint that is passed last before a stage. -/
def Stage.behind : Stage → Checkpoint
  | lexing => .start
  | parsing => .lexed
  | binding => .parsed
  | checking => .parsed
  | rendering => .checked

def Stage.Before (stage : Stage) (checkpoint : Checkpoint) : Prop := stage.behind.rank < checkpoint.rank

section Stages

variable (limits : Limits) (catalog : Catalog) (dialect : Dialect) (offset : Nat) (source : String)

/-- The stage that a source text does not pass, and the error it ends with there. All stages before it have
accepted the text. -/
inductive FailsAt : Stage → CompileError → Prop where
  | lexing : tokenize source = .error error → FailsAt .lexing (.syntactic (.lex error))
  | parsing : tokenize source = .ok tokens → Expr.ofTokens limits tokens = .error error →
      FailsAt .parsing (.syntactic (.parse error))
  | binding : tokenize source = .ok tokens → Expr.ofTokens limits tokens = .ok e →
      Predicate.bind catalog e = .error error → FailsAt .binding (.semantic error)
  | checking : tokenize source = .ok tokens → Expr.ofTokens limits tokens = .ok e →
      Predicate.bind catalog e = .ok bound → bound.check = .error error → FailsAt .checking (.semantic error)
  | rendering : Analysed limits catalog source typed → typed.render dialect offset = none →
      FailsAt .rendering .outOfPlaceholders

def Gives (statement : Statement) : Prop :=
  ∃ typed, Analysed limits catalog source typed ∧
    typed.render dialect offset = some (statement.fragment, statement.parameters) ∧
    statement.referencedFields = typed.referencedFields

variable {limits catalog dialect offset source}

theorem failsAt_or_gives :
    (∃ stage e, FailsAt limits catalog dialect offset source stage e) ∨
      ∃ statement, Gives limits catalog dialect offset source statement := by
  cases htokens : tokenize source with
  | error => exact .inl ⟨_, _, .lexing htokens⟩
  | ok tokens =>
  cases he : Expr.ofTokens limits tokens with
  | error => exact .inl ⟨_, _, .parsing htokens he⟩
  | ok e =>
  cases hbound : Predicate.bind catalog e with
  | error => exact .inl ⟨_, _, .binding htokens he hbound⟩
  | ok bound =>
  cases hchecked : bound.check with
  | error => exact .inl ⟨_, _, .checking htokens he hbound hchecked⟩
  | ok typed =>
  have hanalysed : Analysed limits catalog source typed := ⟨tokens, e, bound, htokens, he, hbound, hchecked⟩
  cases hrender : typed.render dialect offset with
  | none => exact .inl ⟨_, _, .rendering hanalysed hrender⟩
  | some rendered => exact .inr ⟨⟨_, _, _⟩, typed, hanalysed, hrender, rfl⟩

theorem FailsAt.ne_cancelled {stage : Stage} {e : CompileError}
    (h : FailsAt limits catalog dialect offset source stage e) : e ≠ .cancelled := by
  cases h <;> exact CompileError.noConfusion

section Cancelled

variable {signal : Signal} {tokens : List Token} {e : Expr} {typed : Predicate Operand}

/-! A cancellation that is seen behind stages which accept the text ends the analysis there, or before if it was
seen before. -/

theorem analyse_of_seen_lexed (htokens : tokenize source = .ok tokens) (hseen : signal.seenAt .lexed = true) :
    analyse limits catalog source signal = .error .cancelled := by
  simp [analyse, pass, htokens, hseen, Except.mapError, bind, Except.bind]

theorem analyse_of_seen_parsed (htokens : tokenize source = .ok tokens) (he : Expr.ofTokens limits tokens = .ok e)
    (hseen : signal.seenAt .parsed = true) : analyse limits catalog source signal = .error .cancelled := by
  cases hlexed : signal.seenAt .lexed with
  | true => exact analyse_of_seen_lexed htokens hlexed
  | false => simp [analyse, pass, htokens, he, hlexed, hseen, Except.mapError, bind, Except.bind]

theorem analyse_of_seen_checked (h : Analysed limits catalog source typed)
    (hseen : signal.seenAt .checked = true) : analyse limits catalog source signal = .error .cancelled := by
  obtain ⟨tokens, e, bound, htokens, he, hbound, hchecked⟩ := h
  cases hparsed : signal.seenAt .parsed with
  | true => exact analyse_of_seen_parsed htokens he hparsed
  | false =>
    have hlexed := not_seenAt_of_le (by decide : Checkpoint.lexed.rank ≤ _) hparsed
    simp [analyse, pass, htokens, he, hbound, hchecked, hlexed, hparsed, hseen, Except.mapError, bind, Except.bind]

theorem compileFresh_of_analyse_error {error : CompileError}
    (h : analyse limits catalog source signal = .error error) :
    compileFresh limits catalog dialect offset source signal = .error error :=
  bind_eq_error.mpr (.inl h)

end Cancelled

/-- A text that fails at a stage is refused with the error of the stage if the stage is reached. -/
theorem FailsAt.compileFresh {stage : Stage} {error : CompileError} {signal : Signal}
    (h : FailsAt limits catalog dialect offset source stage error) (hstart : signal.seenAt .start = false) :
    compileFresh limits catalog dialect offset source signal =
      .error (if signal.seenAt stage.behind then .cancelled else error) := by
  cases h with
  | lexing htokens =>
    apply compileFresh_of_analyse_error
    simp [analyse, htokens, Stage.behind, hstart, Except.mapError, bind, Except.bind]
  | parsing htokens he =>
    apply compileFresh_of_analyse_error
    cases hlexed : signal.seenAt .lexed with
    | true => simpa [Stage.behind, hlexed] using analyse_of_seen_lexed htokens hlexed
    | false => simp [analyse, pass, htokens, he, Stage.behind, hlexed, Except.mapError, bind, Except.bind]
  | binding htokens he hbound =>
    apply compileFresh_of_analyse_error
    cases hparsed : signal.seenAt .parsed with
    | true => simpa [Stage.behind, hparsed] using analyse_of_seen_parsed htokens he hparsed
    | false =>
      have hlexed := not_seenAt_of_le (by decide : Checkpoint.lexed.rank ≤ _) hparsed
      simp [analyse, pass, htokens, he, hbound, Stage.behind, hlexed, hparsed, Except.mapError, bind, Except.bind]
  | checking htokens he hbound hchecked =>
    apply compileFresh_of_analyse_error
    cases hparsed : signal.seenAt .parsed with
    | true => simpa [Stage.behind, hparsed] using analyse_of_seen_parsed htokens he hparsed
    | false =>
      have hlexed := not_seenAt_of_le (by decide : Checkpoint.lexed.rank ≤ _) hparsed
      simp [analyse, pass, htokens, he, hbound, hchecked, Stage.behind, hlexed, hparsed, Except.mapError, bind,
        Except.bind]
  | @rendering typed hanalysed hrender =>
    cases hchecked : signal.seenAt .checked with
    | true =>
      apply compileFresh_of_analyse_error
      simpa [Stage.behind, hchecked] using analyse_of_seen_checked hanalysed hchecked
    | false =>
      refine bind_eq_error.mpr (.inr ⟨typed, analyse_eq_ok_iff.mpr ⟨hanalysed, hchecked⟩, ?_⟩)
      simp [hrender, Stage.behind, hchecked]

theorem Gives.compileFresh {statement : Statement} {signal : Signal}
    (h : Gives limits catalog dialect offset source statement) :
    compileFresh limits catalog dialect offset source signal =
      if signal.seenAt .checked then .error .cancelled else .ok statement := by
  cases hchecked : signal.seenAt .checked with
  | true =>
    obtain ⟨typed, hanalysed, -⟩ := h
    exact compileFresh_of_analyse_error (analyse_of_seen_checked hanalysed hchecked)
  | false => exact compileFresh_eq_ok_iff.mpr ⟨h, hchecked⟩

end Stages

/-- Why a request is not taken at all. A dialect is asked for before an entity. -/
inductive Refuses (engine : Engine) (request : Request) : CompileError → Prop where
  | unspecified : request.dialect = none → Refuses engine request (.unsupportedDialect none)
  | disabled : request.dialect = some d → d ∉ engine.dialects →
      Refuses engine request (.unsupportedDialect (some d.name))
  | unknown : request.dialect = some d → d ∈ engine.dialects →
      (∀ catalog ∈ engine.catalogs, catalog.entity ≠ request.entity) →
      Refuses engine request (.unknownEntity request.entity.name)

theorem catalog?_eq_none_iff {engine : Engine} {entity : Entity} :
    engine.catalog? entity = none ↔ ∀ catalog ∈ engine.catalogs, catalog.entity ≠ entity := by
  simp [catalog?, List.find?_eq_none]

theorem Refuses.admissible {engine : Engine} {request : Request} {e : CompileError}
    (h : engine.Refuses request e) : engine.admissible request = .error e := by
  unfold Engine.admissible
  cases h with
  | unspecified hdialect => rw [hdialect]
  | disabled hdialect hd => simp only [hdialect, hd, if_false]
  | unknown hdialect hd hentity => simp only [hdialect, hd, if_true, catalog?_eq_none_iff.mpr hentity]

theorem refuses_or_admissible (engine : Engine) (request : Request) :
    (∃ e, engine.Refuses request e) ∨ ∃ d catalog, engine.admissible request = .ok (d, catalog) := by
  cases hdialect : request.dialect with
  | none => exact .inl ⟨_, .unspecified hdialect⟩
  | some d =>
    by_cases hd : d ∈ engine.dialects
    · cases hcatalog : engine.catalog? request.entity with
      | none => exact .inl ⟨_, .unknown hdialect hd (catalog?_eq_none_iff.mp hcatalog)⟩
      | some catalog => exact .inr ⟨d, catalog, by simp only [admissible, hdialect, hd, if_true, hcatalog]⟩
    · exact .inl ⟨_, .disabled hdialect hd⟩

/-- How the compilation of a text ends when `saw` is what the checkpoints see of a cancellation: `Fails` says at
which stage the text fails, and `Gives` what its statement is, if nothing disturbs it. -/
structure Ends (saw : Checkpoint → Bool) (Fails : Stage → CompileError → Prop) (Gives : Statement → Prop)
    (result : Except CompileError Statement) : Prop where
  fault : ∀ first stage e, FirstSeen saw first → stage.Before first → Fails stage e → result = .error e
  cancelled : ∀ first, FirstSeen saw first → (∀ stage e, stage.Before first → ¬ Fails stage e) →
    result = .error .cancelled
  later : ∀ first stage e, FirstSeen saw first → ¬ stage.Before first → Fails stage e → result ≠ .error e
  statement : ∀ statement, result = .ok statement → Gives statement ∧ ∀ checkpoint, saw checkpoint = false
  undisturbed : (∀ checkpoint, saw checkpoint = false) →
    (∀ stage e, Fails stage e → result = .error e) ∧ ∀ statement, Gives statement → result = .ok statement

theorem ends_compileFresh {limits : Limits} {catalog : Catalog} {dialect : Dialect} {offset : Nat}
    {source : String} {saw : Checkpoint → Bool} (hpersists : Persists saw) (hstart : saw .start = false) :
    Ends saw (FailsAt limits catalog dialect offset source) (Gives limits catalog dialect offset source)
      (compileFresh limits catalog dialect offset source (.ofSeen saw)) := by
  have hseen := hpersists.seenAt_ofSeen
  have hfails : ∀ {stage e}, FailsAt limits catalog dialect offset source stage e →
      compileFresh limits catalog dialect offset source (.ofSeen saw) =
        .error (if saw stage.behind then .cancelled else e) := by
    intro stage e h
    rw [h.compileFresh (by rw [hseen, hstart]), hseen]
  have hgives : ∀ {statement}, Gives limits catalog dialect offset source statement →
      compileFresh limits catalog dialect offset source (.ofSeen saw) =
        if saw .checked then .error .cancelled else .ok statement := by
    intro statement h
    rw [h.compileFresh, hseen]
  refine ⟨?_, ?_, ?_, ?_, ?_⟩
  · intro first stage e hfirst hbefore h
    rw [hfails h, (hfirst.seen_iff hpersists).mpr hbefore]
    rfl
  · intro first hfirst hnone
    obtain ⟨stage, e, h⟩ | ⟨statement, h⟩ :=
      @failsAt_or_gives limits catalog dialect offset source
    · have hlate : ¬ saw stage.behind = false := fun hunseen =>
        hnone stage e ((hfirst.seen_iff hpersists).mp hunseen) h
      rw [hfails h, if_pos (by simpa using hlate)]
    · have hchecked := hpersists first .checked (by cases first <;> decide) hfirst.1
      rw [hgives h, if_pos hchecked]
  · intro first stage e hfirst hlate h
    have hlate : ¬ saw stage.behind = false := fun hunseen => hlate ((hfirst.seen_iff hpersists).mp hunseen)
    rw [hfails h, if_pos (by simpa using hlate)]
    exact fun heq => h.ne_cancelled (Except.error.inj heq).symm
  · intro statement hstatement
    obtain ⟨hgiven, hunseen⟩ := compileFresh_eq_ok_iff.mp hstatement
    refine ⟨hgiven, fun checkpoint => ?_⟩
    rw [← hseen]
    exact not_seenAt_of_le (by cases checkpoint <;> decide) hunseen
  · intro hunseen
    refine ⟨fun stage e h => ?_, fun statement h => ?_⟩
    · rw [hfails h, hunseen]
      rfl
    · rw [hgives h, hunseen]
      rfl

theorem result_of_missed {engine : Engine} {request : Request} {signal : Signal} {d : Dialect} {catalog : Catalog}
    (hadmissible : engine.admissible request = .ok (d, catalog)) (hstart : signal.seenAt .start = false)
    (hmissed : engine.cache.bind (·.get? (keyOf request d catalog)) = none) :
    (engine.compile request signal).1.result =
      compileFresh engine.limits catalog d request.offset request.source signal := by
  simp only [compile, hadmissible, pass_eq_ok.mpr hstart, hmissed]
  cases compileFresh engine.limits catalog d request.offset request.source signal <;> rfl

/-- Faults and cancellation in their order, whatever is in the cache. A request without a dialect or a catalog is
refused even if it is cancelled; a cancellation that is seen at the start wins over the cache, and one that is seen
later over all that was not settled before. Whatever fails leaves the engine as it was. -/
theorem compile_fails_closed (engine : Engine) (request : Request) {saw : Checkpoint → Bool}
    (hpersists : Persists saw) :
    let reply := (engine.compile request (.ofSeen saw)).1
    let after := (engine.compile request (.ofSeen saw)).2
    ((∃ e, engine.Refuses request e) ∨ ∃ d catalog, engine.admissible request = .ok (d, catalog)) ∧
    (∀ e, engine.Refuses request e → reply.result = .error e) ∧
    (∀ d catalog, engine.admissible request = .ok (d, catalog) →
      let stored := engine.cache.bind (·.get? (keyOf request d catalog))
      (saw .start = true → reply.result = .error .cancelled) ∧
      (saw .start = false → ∀ statement, stored = some statement → reply.result = .ok statement) ∧
      (saw .start = false → stored = none →
        Ends saw (FailsAt engine.limits catalog d request.offset request.source)
          (Gives engine.limits catalog d request.offset request.source) reply.result)) ∧
    ∀ e, reply.result = .error e → after = engine := by
  intro reply after
  have hseen := hpersists.seenAt_ofSeen
  refine ⟨refuses_or_admissible engine request, ?_, ?_, ?_⟩
  · intro e hrefused
    simp only [reply, compile, hrefused.admissible]
  · intro d catalog hadmissible stored
    refine ⟨?_, ?_, ?_⟩
    · intro hstart
      simp only [reply, compile, hadmissible, pass, hseen, hstart, if_true]
    · intro hstart statement hstored
      simp only [reply, compile, hadmissible, pass, hseen, hstart, Bool.false_eq_true, if_false]
      simp only [stored] at hstored
      rw [hstored]
    · intro hstart hstored
      have hresult := result_of_missed hadmissible (by rw [hseen, hstart]) hstored
      simp only [reply, hresult]
      exact ends_compileFresh hpersists hstart
  · intro e herror
    obtain ⟨_, h⟩ | ⟨dialect, catalog, -, ⟨statement, -, h⟩ | ⟨statement, -, h⟩⟩ :=
      compile_cases engine request (.ofSeen saw)
    · simp only [after, h]
    all_goals
      simp only [reply, h] at herror
      cases herror

def keepable : Catalog := .of .note "note" 1 [{ Field.ofColumn "kept" .boolean "kept" with table := "note" }]

def keptFilter (source : String) : Request := ⟨.note, source, some .sqlite, 0⟩

def keeper : Engine := (built {} [keepable]).after [(keptFilter "kept", none)]

def seenLate (checkpoint : Checkpoint) : Bool := Checkpoint.parsed.rank ≤ checkpoint.rank

set_option maxRecDepth 4000 in
theorem compile_fails_closed_kept :
    Persists seenLate ∧ (keeper.compile (keptFilter "kept") none).1.hit = true ∧
    (keeper.compile (keptFilter "kept") (.ofSeen fun _ => true)).1.result = .error .cancelled ∧
    (keeper.compile (keptFilter "kept &&") (.ofSeen seenLate)).1.result =
      .error (.syntactic (.parse (.unexpectedEnd .primary ⟨7, 7, 1, 8⟩))) ∧
    (keeper.compile (keptFilter "lost") (.ofSeen seenLate)).1.result = .error .cancelled ∧
    (keeper.compile (keptFilter "lost") (.ofSeen seenLate)).2 = keeper := by
  have hpersists : Persists seenLate := by
    intro first later hle hseen
    simp only [seenLate, decide_eq_true_eq] at hseen ⊢
    omega
  have hfirst : FirstSeen seenLate .parsed := by
    refine ⟨rfl, fun earlier hearlier => ?_⟩
    simpa [seenLate] using hearlier
  have hadmissible : ∀ source, keeper.admissible (keptFilter source) = .ok (.sqlite, keepable) := by
    intro source
    rw [keeper, after_frame]
    rfl
  have hhit : (keeper.compile (keptFilter "kept") none).1.hit = true := by decide +kernel
  have hbroken : tokenize "kept &&" = .ok [⟨.name "kept", "kept", ⟨0, 4, 1, 1⟩⟩,
      ⟨.symbol (.connect .and), "&&", ⟨5, 7, 1, 6⟩⟩, .finish ⟨7, 7, 1, 8⟩] := by decide +kernel
  have hlost : tokenize "lost" = .ok [⟨.name "lost", "lost", ⟨0, 4, 1, 1⟩⟩, .finish ⟨4, 4, 1, 5⟩] := by
    decide +kernel
  obtain ⟨-, -, hkept, -⟩ :=
    @compile_fails_closed keeper (keptFilter "kept") (fun _ => true) fun _ _ _ h => h
  obtain ⟨-, -, hbreaks, -⟩ := compile_fails_closed keeper (keptFilter "kept &&") hpersists
  obtain ⟨-, -, hstrays, hsame⟩ := compile_fails_closed keeper (keptFilter "lost") hpersists
  have hcancelled : (keeper.compile (keptFilter "lost") (.ofSeen seenLate)).1.result = .error .cancelled := by
    refine ((hstrays _ _ (hadmissible _)).2.2 rfl (by decide +kernel)).cancelled .parsed hfirst ?_
    rintro stage e hbefore hfails
    cases hfails with
    | lexing htokens => cases hlost.symm.trans htokens
    | parsing htokens he =>
      cases hlost.symm.trans htokens
      have hparsed : Expr.ofTokens keeper.limits [⟨.name "lost", "lost", ⟨0, 4, 1, 1⟩⟩, .finish ⟨4, 4, 1, 5⟩] =
          .ok (.field ⟨["lost"]⟩ ⟨0, 4, 1, 1⟩) := by with_unfolding_all rfl
      cases hparsed.symm.trans he
    | binding | checking | rendering => exact absurd hbefore (by unfold Stage.Before; decide)
  refine ⟨hpersists, hhit, (hkept _ _ (hadmissible _)).1 rfl, ?_, hcancelled, hsame _ hcancelled⟩
  refine ((hbreaks _ _ (hadmissible _)).2.2 rfl (by decide +kernel)).fault .parsed .parsing _ hfirst ?_ ?_
  · unfold Stage.Before
    decide
  · exact .parsing hbroken (by with_unfolding_all rfl)

end Engine

end FilterSql
