import Mathlib.Tactic.ByContra
import FilterSql.Proofs.CatalogChecked
import FilterSql.Proofs.ClosedCatalog
import FilterSql.Proofs.Lexing

/-! The names of fields against the names in expressions. A catalog finds each of its fields by its name.
The names that a catalog admits are those that are read as one name and, beside them, the words for the truth
values, which are read as literals and never as names. -/
namespace FilterSql

namespace Lexeme

open FilterSql.Text

theorem le_dotted (n : Nat) (cs : List Char) : n ≤ dotted n cs := by
  fun_induction dotted n cs with
  | case1 => exact Nat.le_refl _
  | case2 n c cs _ ih => omega
  | case3 => exact Nat.le_refl _

theorem rules_of_cut_name {c : Char} {cs : List Char} {n : Nat} (hstart : isNameStart c = true)
    (h : cut (c :: cs) = (.name, n)) : boolean? (c :: cs) = none ∧ name? (c :: cs) = some n := by
  rw [cut_word hstart] at h
  generalize hfound : ((boolean? (c :: cs)).map (Prod.map Shape.boolean id) <|> _) = found at h
  cases found with
  | none => cases h
  | some result =>
    cases h
    simp only [Option.orElse_eq_orElse, Option.orElse_eq_or, Option.or_eq_some_iff, Option.map_eq_some_iff,
      Option.map_eq_none_iff] at hfound
    obtain ⟨m, -, heq⟩ | ⟨hboolean, ⟨m, -, heq⟩ | ⟨-, m, hname, heq⟩⟩ := hfound
    · cases heq
    · cases heq
    · cases heq
      exact ⟨hboolean, hname⟩

theorem boolean?_truthWord (b : Bool) {rest : List Char} (h : continuesWord rest = false) :
    boolean? ((boolText b).toList ++ rest) = some (b, (boolText b).toList.length) := by
  cases b <;> simp [boolean?, boolText, h]

theorem dot_of_cut_truthWord {b : Bool} {rest : List Char}
    (h : cut ((boolText b).toList ++ rest) = (.name, (boolText b).toList.length)) :
    ∃ more, rest = '.' :: more := by
  obtain ⟨c, cs, hchars, hstart⟩ : ∃ c cs, (boolText b).toList = c :: cs ∧ isNameStart c = true := by
    cases b <;> exact ⟨_, _, rfl, rfl⟩
  have hparts : ∀ d ∈ (boolText b).toList, isNamePart d = true := by
    cases b <;> exact List.all_eq_true.mp rfl
  have hrules : boolean? ((boolText b).toList ++ rest) = none ∧
      name? ((boolText b).toList ++ rest) = some (boolText b).toList.length := by
    rw [hchars] at h ⊢
    exact rules_of_cut_name hstart h
  obtain ⟨hboolean, hname⟩ := hrules
  have hlength : dotted (boolText b).toList.length rest = (boolText b).toList.length := by
    have hstarts : startsName ((boolText b).toList ++ rest) = true := by rw [hchars]; exact hstart
    rw [name?, if_pos hstarts, dotted_namePart hparts, Nat.zero_add] at hname
    exact Option.some.inj hname
  cases rest with
  | nil =>
    rw [boolean?_truthWord b rfl] at hboolean
    cases hboolean
  | cons d more =>
    have hglued : isWordChar d = true := by
      by_contra hfree
      rw [boolean?_truthWord b (by simpa [continuesWord] using hfree)] at hboolean
      cases hboolean
    have hstop : isNamePart d = false := by
      by_contra hpart
      have hpart : isNamePart d = true := by simpa using hpart
      rw [dotted, hpart, Bool.true_or, if_pos rfl] at hlength
      have := le_dotted ((boolText b).toList.length + 1) more
      omega
    rw [isWordChar, hstop, Bool.false_or, beq_iff_eq] at hglued
    exact ⟨more, by rw [hglued]⟩

theorem shape_of_kind_name {p : Position} {lexeme : List Char} {shape : Shape} {word : String}
    (h : kind p lexeme shape = .ok (.name word)) : shape = .name ∧ lexeme = word.toList := by
  obtain ⟨-, s, hk⟩ | ⟨-, ⟨n, hk⟩ | ⟨x, hk⟩⟩ | ⟨value, -, hk⟩ | ⟨sign, -, hk⟩ | ⟨-, hk⟩ | ⟨hshape, hk⟩ := kind_cases h
  case inr.inr.inr.inr.inr =>
    cases hk
    exact ⟨hshape, String.toList_ofList.symm⟩
  all_goals cases hk

theorem cut_dot (cs : List Char) : cut ('.' :: cs) = (.illegal, 1) := by
  rw [cut_of_ne (by decide) (by decide) (by decide)]
  simp [symbol?, boolean?, call?, word?, name?, startsName, isNameStart]

theorem cut_name {name rest : List Char} (hname : isDottedName name = true)
    (hword : ∀ b, name ≠ (boolText b).toList) (hrest : continuesWord rest = false)
    (hopen : rest.head? = some '(' → isIdentifier name = false) :
    cut (name ++ rest) = (.name, name.length) := by
  let path := Path.ofText (String.ofList name)
  have hne : path.segments ≠ [] := by
    simp [path, Path.ofText, List.splitOn_ne_nil]
  have hall : ∀ segment ∈ path.segments, isIdentifier segment.toList = true := by
    intro segment hsegment
    obtain ⟨part, hpart, rfl⟩ := List.mem_map.mp hsegment
    rw [String.toList_ofList] at hpart ⊢
    exact List.all_eq_true.mp hname part hpart
  have htext : path.text.toList = name := by rw [Path.text_ofText, String.toList_ofList]
  have htruth : ∀ b, path.text ≠ boolText b := by
    intro b heq
    exact hword b (by rw [← htext, heq])
  have hcut := cut_path hne hall (htruth true) (htruth false) hrest (by rw [htext]; exact hopen)
  rwa [htext] at hcut

theorem exists_cons_of_isDottedName {name : List Char} (h : isDottedName name = true) :
    ∃ c cs, name = c :: cs ∧ isNameStart c = true := by
  cases name with
  | nil => cases h
  | cons c cs =>
    refine ⟨c, cs, rfl, ?_⟩
    obtain ⟨part, parts, hparts⟩ := List.exists_cons_of_ne_nil (List.splitOn_ne_nil '.' cs)
    by_cases hdot : c = '.'
    · rw [hdot, isDottedName, List.splitOn_cons_eq_if_modifyHead] at h
      cases h
    · rw [isDottedName, splitOn_cons_of_ne hdot, hparts, List.modifyHead_cons, List.all_cons,
        Bool.and_eq_true_iff] at h
      exact (Bool.and_eq_true_iff.mp h.1).1

end Lexeme

/-- In a text that is read, the word for a truth value is never a name. -/
theorem Lexed.ne_truthName {p : Position} {cs : List Char} {ts : List Token} (h : Lexed p cs ts) :
    ∀ t ∈ ts, ∀ b, t.kind ≠ .name (boolText b) := by
  induction h with
  | finish =>
    intro t ht b hname
    cases List.mem_singleton.mp ht
    cases hname
  | @token blanks c cs rest shape k ts p _ _ hcut hkind hrest ih =>
    refine List.forall_mem_cons.mpr ⟨?_, ih⟩
    intro b hname
    have hname : k = .name (boolText b) := hname
    rw [hname] at hkind
    obtain ⟨rfl, hword⟩ := Lexeme.shape_of_kind_name hkind
    rw [hword] at hcut
    -- Only a dot can follow such a name, and reading stops at a dot.
    obtain ⟨more, rfl⟩ := Lexeme.dot_of_cut_truthWord hcut
    obtain ⟨_, _, shape, _, _, -, hdot, hkind, -⟩ := hrest.first rfl
    rw [Lexeme.cut_dot] at hdot
    cases congrArg Prod.fst hdot
    cases hkind

section Words

variable {s : String}

theorem kindsIn_truthWord (b : Bool) : kindsIn (boolText b) = .ok [.literal (.boolean b), .finish] := by
  have hcut : Lexeme.cut ((boolText b).toList ++ []) = _ := Lexeme.cut_boolean b rfl
  rw [List.append_nil] at hcut
  cases b with
  | true => exact (kindsIn_lexeme rfl rfl hcut).mpr rfl
  | false => exact (kindsIn_lexeme rfl rfl hcut).mpr rfl

theorem kindsIn_name (hname : Text.isDottedName s.toList = true) (hword : ∀ b, s ≠ boolText b) :
    kindsIn s = .ok [.name s, .finish] := by
  obtain ⟨c, cs, hchars, hstart⟩ := Lexeme.exists_cons_of_isDottedName hname
  have hcut : Lexeme.cut (s.toList ++ []) = _ :=
    Lexeme.cut_name hname (fun b heq => hword b (String.toList_injective heq)) rfl nofun
  rw [List.append_nil, hchars] at hcut
  refine (kindsIn_lexeme hchars ?_ hcut).mpr ?_
  · exact Text.isBlank_of_isWordChar (Text.isWordChar_of_isNameStart hstart)
  · rw [Lexeme.kind, ← hchars, String.ofList_toList]

theorem kindsIn_name_iff :
    kindsIn s = .ok [.name s, .finish] ↔ Text.isDottedName s.toList = true ∧ ∀ b, s ≠ boolText b := by
  constructor
  · intro h
    obtain ⟨ts, hts, hkinds⟩ := kindsIn_eq_ok_iff.mp h
    obtain ⟨t, ht, hname⟩ := List.mem_map.mp (hkinds ▸ List.mem_cons_self)
    refine ⟨?_, fun b hs => hts.ne_truthName t ht b (hs ▸ hname)⟩
    obtain hfinish | ⟨p, lexeme, rest, shape, hshaped, hkind, -⟩ := hts.lexeme_of_mem ht
    · rw [hname] at hfinish
      cases hfinish
    · rw [hname] at hkind
      obtain ⟨rfl, rfl⟩ := Lexeme.shape_of_kind_name hkind
      exact hshaped
  · rintro ⟨hname, hword⟩
    exact kindsIn_name hname hword

end Words

/-- A field of a built catalog is found by its name, and its name is one name of the language unless it is the
word for a truth value; no text that is read names such a field. -/
theorem build_names_readable {entity : Entity} {table : String} {version : Nat} {fields : List Field}
    {catalog : Catalog} (hbuild : Catalog.build entity table version fields = .ok catalog) :
    (∀ f : Field, f.checkName = .ok () ↔
      kindsIn f.name = .ok [.name f.name, .finish] ∨ ∃ b, f.name = boolText b) ∧
    ∀ f ∈ catalog.fields,
      (∀ span, Predicate.resolve catalog (.ofText f.name) span = .ok f) ∧
      (kindsIn f.name = .ok [.name f.name, .finish] ↔ ∀ b, f.name ≠ boolText b) ∧
      ∀ b, f.name = boolText b → kindsIn f.name = .ok [.literal (.boolean b), .finish] ∧
        ∀ source tokens, tokenize source = .ok tokens → ∀ t ∈ tokens, t.kind ≠ .name f.name := by
  constructor
  · intro f
    rw [Field.checkName_eq_ok, kindsIn_name_iff]
    constructor
    · intro hname
      by_cases hword : ∃ b, f.name = boolText b
      · exact .inr hword
      · exact .inl ⟨hname, fun b hb => hword ⟨b, hb⟩⟩
    · rintro (⟨hname, -⟩ | ⟨b, hb⟩)
      · exact hname
      · rw [hb]
        cases b <;> rfl
  · intro f hf
    have hname := ((Catalog.valid_of_build hbuild).2 f hf).2.name
    refine ⟨?_, ?_, ?_⟩
    · intro span
      rw [Predicate.resolve, Path.text_ofText, Catalog.lookup_of_build hbuild hf]
    · rw [kindsIn_name_iff]
      exact ⟨fun h => h.2, fun h => ⟨hname, h⟩⟩
    · intro b hb
      rw [hb]
      exact ⟨kindsIn_truthWord b, fun source tokens hread t ht => (tokenize_eq_ok_iff.mp hread).ne_truthName t ht b⟩

def halfWritable : Catalog :=
  .of .note "notes" 1 [{ Field.ofColumn "meta.done" .boolean "done" with table := "notes" },
    { Field.ofColumn "true" .boolean "flag" with table := "notes" }]

theorem build_halfWritable :
    Catalog.build .note "notes" 1 [.ofColumn "meta.done" .boolean "done", .ofColumn "true" .boolean "flag"] =
      .ok halfWritable := by
  decide +kernel

theorem build_names_readable_half :
    (∀ f ∈ halfWritable.fields, ∀ span, Predicate.resolve halfWritable (.ofText f.name) span = .ok f) ∧
    kindsIn "meta.done" = .ok [.name "meta.done", .finish] ∧
    ∀ source tokens, tokenize source = .ok tokens → ∀ t ∈ tokens, t.kind ≠ .name "true" := by
  obtain ⟨-, hfields⟩ := build_names_readable build_halfWritable
  obtain ⟨-, hname, -⟩ := hfields { Field.ofColumn "meta.done" .boolean "done" with table := "notes" } (by decide)
  obtain ⟨-, -, hword⟩ := hfields { Field.ofColumn "true" .boolean "flag" with table := "notes" } (by decide)
  exact ⟨fun f hf => (hfields f hf).1, hname.mpr (by decide), (hword true rfl).2⟩

/-- A catalog may hold a field whose name is read as a literal. -/
theorem build_admits_truthWord :
    Catalog.build .note "notes" 1 [.ofColumn "true" .boolean "flag"] =
      .ok (.of .note "notes" 1 [{ Field.ofColumn "true" .boolean "flag" with table := "notes" }]) ∧
    kindsIn "true" = .ok [.literal (.boolean true), .finish] ∧
    kindsIn "true" ≠ .ok [.name "true", .finish] := by
  have hread : kindsIn "true" = .ok [.literal (.boolean true), .finish] := kindsIn_truthWord true
  refine ⟨by decide +kernel, hread, ?_⟩
  rw [hread]
  decide

end FilterSql
