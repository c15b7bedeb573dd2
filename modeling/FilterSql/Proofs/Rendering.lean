import FilterSql.Sql.Render

/-! What a rendered predicate is. Its text and its parameters are functions of the pieces it is made of;
only the numbers of placeholders come from the place it is written at, and only they can run out. -/
namespace FilterSql

namespace Sql

def values : List Piece → List Value
  | [] => []
  | .text _ :: pieces => values pieces
  | .parameter value :: pieces => value :: values pieces

/-- The text of pieces with `index` parameters before them. -/
def textFrom (d : Dialect) (index : Nat) : List Piece → String
  | [] => ""
  | .text sql :: pieces => sql ++ textFrom d index pieces
  | .parameter _ :: pieces => d.placeholder index ++ textFrom d (index + 1) pieces

@[simp] theorem values_append (ps qs : List Piece) : values (ps ++ qs) = values ps ++ values qs := by
  induction ps with
  | nil => rfl
  | cons piece ps ih => cases piece <;> simp [values, ih]

theorem Draft.pushAll_eq (draft : Draft) (pieces : List Piece) :
    draft.pushAll pieces =
      let index := draft.offset + draft.parameters.length
      if values pieces = [] ∨ index + (values pieces).length ≤ maxPlaceholder then
        some ⟨draft.dialect, draft.offset, draft.sql ++ textFrom draft.dialect index pieces,
          draft.parameters ++ values pieces⟩
      else none := by
  induction pieces generalizing draft with
  | nil => simp [pushAll, values, textFrom]
  | cons piece pieces ih =>
    cases piece with
    | text sql =>
      simp only [pushAll, pushPiece, push, Option.bind_some, ih, values, textFrom, String.append_assoc]
      rfl
    | parameter value =>
      simp only [pushAll, pushPiece, pushParameter, bind, values, textFrom, List.length_cons]
      by_cases hfit : draft.offset + draft.parameters.length + 1 ≤ maxPlaceholder
      · simp only [hfit, if_true, Option.map_some, Option.bind_some, push, ih, List.length_append,
          List.length_cons, List.length_nil, String.append_assoc, List.append_assoc,
          List.singleton_append, reduceCtorEq, false_or, Nat.zero_add]
        congr 1
        apply propext
        rw [← Nat.add_assoc]
        constructor
        · rintro (hnone | hle)
          · rw [hnone]
            exact hfit
          · omega
        · intro hle
          exact .inr (by omega)
      · simp only [hfit, if_false, Option.map_none, Option.bind_none, reduceCtorEq, false_or]
        rw [if_neg (by omega)]

end Sql

namespace Predicate

open Sql

theorem fields_length_pos (p : Predicate α) : 0 < p.fields.length := by
  induction p with
  | and left right ihl _ =>
    rw [fields, List.length_append]
    omega
  | or left right ihl _ =>
    rw [fields, List.length_append]
    omega
  | not operand ih => exact ih
  | compare => simp [fields]
  | search => simp [fields]

theorem values_pieces_length (p : Predicate Operand) (d : Dialect) :
    (values (p.pieces d)).length = p.fields.length := by
  induction p with
  | and left right ihl ihr | or left right ihl ihr => simp [pieces, fields, values, ihl, ihr]
  | not operand ih => simpa [pieces, fields, values] using ih
  | compare => simp [pieces, fields, Leaf.pieces, values]
  | search => simp [pieces, fields, Leaf.pieces, values]

/-- A predicate is rendered exactly if there is a placeholder number for each of its leaves. -/
theorem render_eq (p : Predicate Operand) (d : Dialect) (offset : Nat) :
    p.render d offset =
      if offset + p.fields.length ≤ maxPlaceholder then
        some (textFrom d offset (p.pieces d), values (p.pieces d))
      else none := by
  have hne : values (p.pieces d) ≠ [] := by
    intro h
    have := p.fields_length_pos
    rw [← values_pieces_length p d, h] at this
    simp at this
  simp only [render, renderOn, Draft.pushAll_eq, hne, false_or, values_pieces_length, List.length_nil,
    Nat.add_zero]
  split <;> simp

theorem fragment_of_render {p : Predicate Operand} {d : Dialect} {offset : Nat} {fragment : String}
    {parameters : List Value} (h : p.render d offset = some (fragment, parameters)) :
    fragment = textFrom d offset (p.pieces d) := by
  rw [render_eq] at h
  split at h
  · cases h
    rfl
  · cases h

theorem parameters_of_render {p : Predicate Operand} {d : Dialect} {offset : Nat} {fragment : String}
    {parameters : List Value} (h : p.render d offset = some (fragment, parameters)) :
    parameters = values (p.pieces d) := by
  rw [render_eq] at h
  split at h
  · cases h
    rfl
  · cases h

end Predicate

end FilterSql
