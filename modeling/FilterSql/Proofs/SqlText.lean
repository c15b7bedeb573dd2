import FilterSql.Text.Chars

/-! SQL text taken apart: words, quoted texts and signs, nested by their parentheses. The reader knows
nothing of predicates; it accepts exactly the texts that a nesting is written as, and gives the nesting
back. -/
namespace FilterSql.Sql

inductive Part where
  | word (text : String)
  | quoted (quote : Char) (body : String)
  | sign (c : Char)
deriving DecidableEq, Inhabited

def Part.text : Part → List Char
  | word w => w.toList
  | quoted q body => q :: (body.toList ++ [q])
  | sign c => [c]

@[simp] theorem Part.text_word (w : String) : (word w).text = w.toList := rfl

@[simp] theorem Part.text_quoted (q : Char) (body : String) :
    (quoted q body).text = q :: (body.toList ++ [q]) := rfl

@[simp] theorem Part.text_sign (c : Char) : (sign c).text = [c] := rfl

def isQuote (c : Char) : Bool := c == '"' || c == '\x27' || c == '\x60'

/-- A character of a word. The dollar sign makes a numbered placeholder one word. -/
def isWordChar (c : Char) : Bool := Text.isNamePart c || c == '$'

inductive Item where
  | part (p : Part)
  | opening
  | closing
  | unclosed (quote : Char) (body : String)
deriving DecidableEq

namespace Item

def text : Item → List Char
  | part p => p.text
  | opening => ['(']
  | closing => [')']
  | unclosed q body => q :: body.toList

def ofSign (c : Char) : Item :=
  if c = '(' then opening else if c = ')' then closing else part (.sign c)

def isWord : Item → Bool
  | part (.word _) => true
  | _ => false

def sound : Item → Bool
  | part (.word w) => !w.toList.isEmpty && w.toList.all isWordChar
  | part (.quoted q body) => isQuote q && !body.toList.contains q
  | part (.sign c) => !isQuote c && !isWordChar c && c != '(' && c != ')'
  | opening => true
  | closing => true
  | unclosed .. => false

end Item

def glue (c : Char) : List Item → List Item
  | .part (.word w) :: items => .part (.word (String.ofList (c :: w.toList))) :: items
  | items => .part (.word (String.ofList [c])) :: items

def quoteChar (c : Char) : List Item → List Item
  | .part (.quoted q body) :: items => .part (.quoted q (String.ofList (c :: body.toList))) :: items
  | .unclosed q body :: items => .unclosed q (String.ofList (c :: body.toList)) :: items
  | items => items

/-- The items of a text that starts inside the quotes given, or outside of any. -/
def itemsIn : Option Char → List Char → List Item
  | none, [] => []
  | some q, [] => [.unclosed q ""]
  | some q, c :: cs =>
    if c = q then .part (.quoted q "") :: itemsIn none cs else quoteChar c (itemsIn (some q) cs)
  | none, c :: cs =>
    if isQuote c then itemsIn (some c) cs
    else if isWordChar c then glue c (itemsIn none cs)
    else .ofSign c :: itemsIn none cs

def items (cs : List Char) : List Item := itemsIn none cs

def textOf (is : List Item) : List Char := is.flatMap Item.text

def startsWithWord : List Item → Bool
  | [] => false
  | item :: _ => item.isWord

def spelled : List Item → Bool
  | [] => true
  | item :: is => item.sound && !(item.isWord && startsWithWord is) && spelled is

def Fresh (cs : List Char) : Prop := ∀ c ∈ cs.head?, isWordChar c = false

theorem Fresh.cons {c : Char} (h : isWordChar c = false) (cs : List Char) : Fresh (c :: cs) := by
  intro d hd
  simp only [List.head?_cons, Option.mem_some_iff] at hd
  rwa [← hd]

@[simp] theorem textOf_nil : textOf [] = [] := rfl

@[simp] theorem textOf_cons (item : Item) (is : List Item) :
    textOf (item :: is) = item.text ++ textOf is := List.flatMap_cons

@[simp] theorem textOf_append (is js : List Item) : textOf (is ++ js) = textOf is ++ textOf js :=
  List.flatMap_append

theorem spelled_append {is js : List Item} (hi : spelled is = true) (hj : spelled js = true)
    (h : startsWithWord js = false) : spelled (is ++ js) = true := by
  induction is with
  | nil => exact hj
  | cons item is ih =>
    have hstart : startsWithWord (is ++ js) = startsWithWord is := by
      cases is with
      | nil => simpa [startsWithWord] using h
      | cons => rfl
    simp only [spelled, Bool.and_eq_true] at hi
    simp only [List.cons_append, spelled, Bool.and_eq_true, hstart]
    exact ⟨hi.1, ih hi.2⟩

theorem itemsIn_quote (q : Char) (cs : List Char) :
    (∃ body is, itemsIn (some q) cs = .part (.quoted q body) :: is) ∨
      ∃ body, itemsIn (some q) cs = [.unclosed q body] := by
  induction cs with
  | nil => exact .inr ⟨"", rfl⟩
  | cons c cs ih =>
    rw [itemsIn]
    split
    · exact .inl ⟨_, _, rfl⟩
    · obtain ⟨body, is, h⟩ | ⟨body, h⟩ := ih
      · exact .inl ⟨_, _, by rw [h, quoteChar]⟩
      · exact .inr ⟨_, by rw [h, quoteChar]⟩

theorem startsWithWord_itemsIn_quote (q : Char) (cs : List Char) :
    startsWithWord (itemsIn (some q) cs) = false := by
  obtain ⟨body, is, h⟩ | ⟨body, h⟩ := itemsIn_quote q cs <;> rw [h] <;> rfl

theorem startsWithWord_items {cs : List Char} (h : Fresh cs) : startsWithWord (items cs) = false := by
  cases cs with
  | nil => rfl
  | cons c cs =>
    have hc := h c rfl
    rw [items, itemsIn]
    split
    · exact startsWithWord_itemsIn_quote c cs
    · simp only [hc, Bool.false_eq_true, if_false, startsWithWord, Item.ofSign]
      split
      · rfl
      · split <;> rfl

theorem not_isQuote_of_isWordChar {c : Char} (h : isWordChar c = true) : isQuote c = false := by
  apply Bool.eq_false_iff.mpr
  intro hq
  simp only [isQuote, Bool.or_eq_true, beq_iff_eq] at hq
  rcases hq with (rfl | rfl) | rfl <;> exact absurd h (by decide)

theorem items_word {w rest : List Char} (hw : w.all isWordChar = true) (hne : w ≠ [])
    (hrest : startsWithWord (items rest) = false) :
    items (w ++ rest) = .part (.word (String.ofList w)) :: items rest := by
  induction w with
  | nil => exact absurd rfl hne
  | cons c w ih =>
    simp only [List.all_cons, Bool.and_eq_true] at hw
    have hstep : items (c :: w ++ rest) = glue c (items (w ++ rest)) := by
      rw [items, List.cons_append, itemsIn]
      simp only [not_isQuote_of_isWordChar hw.1, hw.1, Bool.false_eq_true, if_false, if_true]
      rfl
    rw [hstep]
    cases w with
    | nil =>
      revert hrest
      rw [List.nil_append]
      cases items rest with
      | nil => simp [glue]
      | cons item is =>
        intro hrest
        rw [glue]
        intro v is' heq
        cases heq
        cases hrest
    | cons => rw [ih hw.2 (by simp), glue, String.toList_ofList]

theorem itemsIn_quoted {q : Char} {body : List Char} (h : q ∉ body) (rest : List Char) :
    itemsIn (some q) (body ++ q :: rest) = .part (.quoted q (String.ofList body)) :: items rest := by
  induction body with
  | nil =>
    rw [List.nil_append, itemsIn, if_pos rfl]
    rfl
  | cons c body ih =>
    simp only [List.mem_cons, not_or] at h
    rw [List.cons_append, itemsIn, if_neg (Ne.symm h.1), ih h.2, quoteChar, String.toList_ofList]

/-- Items are read back from their text. -/
theorem items_textOf {is : List Item} (h : spelled is = true) {rest : List Char} (hrest : Fresh rest) :
    items (textOf is ++ rest) = is ++ items rest := by
  induction is with
  | nil => rfl
  | cons item is ih =>
    simp only [spelled, Bool.and_eq_true] at h
    obtain ⟨⟨hsound, hapart⟩, his⟩ := h
    rw [textOf_cons, List.append_assoc, List.cons_append, ← ih his]
    match item, hsound with
    | .opening, _ => rfl
    | .closing, _ => rfl
    | .part (.word w), hsound =>
      simp only [Item.sound, Bool.and_eq_true, Bool.not_eq_true', List.isEmpty_eq_false_iff] at hsound
      have hnext : startsWithWord (items (textOf is ++ rest)) = false := by
        rw [ih his]
        cases is with
        | nil => exact startsWithWord_items hrest
        | cons => simpa [Item.isWord, startsWithWord] using hapart
      rw [Item.text, Part.text, items_word hsound.2 hsound.1 hnext, String.ofList_toList]
    | .part (.quoted q body), hsound =>
      simp only [Item.sound, Bool.and_eq_true, Bool.not_eq_true', List.contains_eq_mem,
        decide_eq_false_iff_not] at hsound
      rw [Item.text, Part.text, items, List.cons_append, itemsIn]
      simp only [hsound.1, if_true, List.append_assoc, List.singleton_append]
      rw [itemsIn_quoted hsound.2, String.ofList_toList]
    | .part (.sign c), hsound =>
      simp only [Item.sound, Bool.and_eq_true, Bool.not_eq_true', bne_iff_ne] at hsound
      obtain ⟨⟨⟨hquote, hword⟩, hopen⟩, hclose⟩ := hsound
      rw [Item.text, Part.text, items, List.singleton_append, itemsIn]
      simp [hquote, hword, Item.ofSign, hopen, hclose, items]

theorem textOf_glue (c : Char) (is : List Item) : textOf (glue c is) = c :: textOf is := by
  unfold glue
  split <;> simp [Item.text, Part.text]

theorem textOf_ofSign (c : Char) : (Item.ofSign c).text = [c] := by
  unfold Item.ofSign
  split
  · simp_all [Item.text]
  · split <;> simp_all [Item.text, Part.text]

/-- Reading loses nothing of a text. -/
theorem textOf_itemsIn (quote : Option Char) (cs : List Char) :
    textOf (itemsIn quote cs) = quote.toList ++ cs := by
  induction cs generalizing quote with
  | nil => cases quote <;> simp [itemsIn, Item.text]
  | cons c cs ih =>
    cases quote with
    | none =>
      rw [itemsIn]
      split
      · rw [ih]
        rfl
      · split
        · rw [textOf_glue, ih]
          rfl
        · rw [textOf_cons, textOf_ofSign, ih]
          rfl
    | some q =>
      rw [itemsIn]
      split
      case isTrue h =>
        rw [textOf_cons, ih, h]
        simp [Item.text, Part.text]
      case isFalse =>
        have htext := ih (some q)
        obtain ⟨body, is, h⟩ | ⟨body, h⟩ := itemsIn_quote q cs
        all_goals
          rw [h] at htext ⊢
          simp_all [quoteChar, Item.text, Part.text]

def Item.isClosed : Item → Bool
  | unclosed .. => false
  | _ => true

theorem spelled_glue {c : Char} (hc : isWordChar c = true) {is : List Item} (h : spelled is = true) :
    spelled (glue c is) = true := by
  unfold glue
  split
  case h_1 w is =>
    simp_all [spelled, Item.sound, Item.isWord]
  case h_2 hne =>
    cases is with
    | nil => simp [spelled, Item.sound, Item.isWord, startsWithWord, hc]
    | cons item is =>
      have hitem : item.isWord = false := by
        unfold Item.isWord
        split
        · exact absurd rfl (hne _ _)
        · rfl
      simp_all [spelled, Item.sound, Item.isWord, startsWithWord]

theorem all_isClosed_glue (c : Char) (is : List Item) :
    (glue c is).all Item.isClosed = is.all Item.isClosed := by
  unfold glue
  split <;> rfl

theorem spelled_itemsIn {quote : Option Char} {cs : List Char} (hquote : ∀ q ∈ quote, isQuote q = true)
    (h : (itemsIn quote cs).all Item.isClosed = true) : spelled (itemsIn quote cs) = true := by
  induction cs generalizing quote with
  | nil =>
    cases quote with
    | none => rfl
    | some q => simp [itemsIn, Item.isClosed] at h
  | cons c cs ih =>
    cases quote with
    | none =>
      rw [itemsIn] at h ⊢
      split at h
      case isTrue hc =>
        rw [if_pos hc]
        exact ih (by simpa using hc) h
      case isFalse hc =>
        rw [if_neg hc]
        split at h
        case isTrue hw =>
          rw [if_pos hw]
          apply spelled_glue hw
          apply ih (by simp)
          rwa [all_isClosed_glue] at h
        case isFalse hw =>
          rw [if_neg hw]
          simp only [List.all_cons, Bool.and_eq_true] at h
          have hrest := ih (by simp) h.2
          unfold Item.ofSign
          split
          · simp [spelled, Item.sound, Item.isWord, hrest]
          · split <;> simp_all [spelled, Item.sound, Item.isWord]
    | some q =>
      rw [itemsIn] at h ⊢
      have hq := hquote q rfl
      split at h
      case isTrue hc =>
        rw [if_pos hc]
        simp only [List.all_cons, Bool.and_eq_true] at h
        simp [spelled, Item.sound, Item.isWord, hq, ih (by simp) h.2]
      case isFalse hc =>
        rw [if_neg hc]
        obtain ⟨body, is, heq⟩ | ⟨body, heq⟩ := itemsIn_quote q cs
        · have hrest : spelled (itemsIn (some q) cs) = true := by
            apply ih hquote
            simpa [heq, quoteChar, Item.isClosed] using h
          rw [heq] at hrest ⊢
          simp_all [spelled, quoteChar, Item.sound, Item.isWord, Ne.symm hc]
        · simp [heq, quoteChar, Item.isClosed] at h

inductive Nested where
  | done
  | part (p : Part) (next : Nested)
  | group (inside next : Nested)
deriving DecidableEq, Inhabited

namespace Nested

def append : Nested → Nested → Nested
  | done, t => t
  | part p next, t => part p (next.append t)
  | group inside next, t => group inside (next.append t)

instance : Append Nested := ⟨append⟩

@[simp] theorem done_append (t : Nested) : done ++ t = t := rfl

@[simp] theorem part_append (p : Part) (next t : Nested) : part p next ++ t = part p (next ++ t) := rfl

@[simp] theorem group_append (inside next t : Nested) :
    group inside next ++ t = group inside (next ++ t) := rfl

@[simp] theorem append_done (t : Nested) : t ++ done = t := by
  induction t with
  | done => rfl
  | part p next ih => rw [part_append, ih]
  | group inside next _ ih => rw [group_append, ih]

theorem append_assoc (s t u : Nested) : s ++ t ++ u = s ++ (t ++ u) := by
  induction s with
  | done => rfl
  | part p next ih => simp [ih]
  | group inside next _ ih => simp [ih]

def items : Nested → List Item
  | done => []
  | part p next => .part p :: next.items
  | group inside next => .opening :: (inside.items ++ .closing :: next.items)

@[simp] theorem items_append (s t : Nested) : (s ++ t).items = s.items ++ t.items := by
  induction s with
  | done => rfl
  | part p next ih => simp [items, ih]
  | group inside next _ ih => simp [items, ih]

def text (t : Nested) : List Char := textOf t.items

def Written (t : Nested) : Prop := spelled t.items = true

instance (t : Nested) : Decidable t.Written := inferInstanceAs (Decidable (_ = true))

/-- Sets an item before what follows it: the innermost open nesting, then those around it. -/
def enclose : Item → Nested × List Nested → Option (Nested × List Nested)
  | .part p, (t, outer) => some (part p t, outer)
  | .closing, (t, outer) => some (done, t :: outer)
  | .opening, (t, next :: outer) => some (group t next, outer)
  | .opening, (_, []) => none
  | .unclosed .., _ => none

def ofItems? : List Item → Option (Nested × List Nested)
  | [] => some (done, [])
  | item :: is => (ofItems? is).bind (enclose item)

def tailItems : List Nested → List Item
  | [] => []
  | t :: outer => .closing :: (t.items ++ tailItems outer)

theorem ofItems?_append (t : Nested) (is : List Item) :
    ofItems? (t.items ++ is) = (ofItems? is).map fun (u, outer) => (t ++ u, outer) := by
  induction t generalizing is with
  | done => simp [items]
  | part p next ih =>
    rw [items, List.cons_append, ofItems?, ih]
    cases ofItems? is <;> rfl
  | group inside next ihi ihn =>
    rw [items, List.cons_append, ofItems?, List.append_assoc, ihi, List.cons_append, ofItems?, ihn]
    cases ofItems? is with
    | none => rfl
    | some found => simp [enclose]

theorem items_of_ofItems? {is : List Item} {t : Nested} {outer : List Nested}
    (h : ofItems? is = some (t, outer)) :
    is = t.items ++ tailItems outer ∧ is.all Item.isClosed = true := by
  induction is generalizing t outer with
  | nil =>
    cases h
    exact ⟨rfl, rfl⟩
  | cons item is ih =>
    obtain ⟨⟨u, rest⟩, hrest, h⟩ := Option.bind_eq_some_iff.mp h
    obtain ⟨heq, hclosed⟩ := ih hrest
    refine ⟨?_, ?_⟩
    · cases item with
      | part p =>
        cases h
        rw [heq, items, List.cons_append]
      | closing =>
        cases h
        rw [heq, items, tailItems, List.nil_append]
      | opening =>
        cases rest with
        | nil => cases h
        | cons next rest =>
          cases h
          rw [heq, items, tailItems]
          simp
      | unclosed => cases h
    · cases item with
      | unclosed => cases h
      | _ => simpa [Item.isClosed] using hclosed

end Nested

/-- The nesting of a text, if its quotes and parentheses are closed. -/
def nested? (cs : List Char) : Option Nested :=
  match Nested.ofItems? (items cs) with
  | some (t, []) => some t
  | _ => none

theorem nested?_text {t : Nested} (h : t.Written) : nested? t.text = some t := by
  have hitems : items t.text = t.items := by
    have hread := items_textOf h (show Fresh [] by simp [Fresh])
    rwa [List.append_nil, show items [] = [] from rfl, List.append_nil] at hread
  have hof := Nested.ofItems?_append t []
  rw [List.append_nil] at hof
  rw [nested?, hitems, hof]
  simp [Nested.ofItems?]

theorem text_of_nested? {cs : List Char} {t : Nested} (h : nested? cs = some t) :
    t.Written ∧ t.text = cs := by
  unfold nested? at h
  split at h
  case h_1 u hof =>
    cases h
    obtain ⟨heq, hclosed⟩ := Nested.items_of_ofItems? hof
    rw [Nested.tailItems, List.append_nil] at heq
    constructor
    · rw [Nested.Written, ← heq]
      exact spelled_itemsIn (by simp) hclosed
    · rw [Nested.text, ← heq]
      exact textOf_itemsIn none cs
  case h_2 => cases h

end FilterSql.Sql
