import RelScript.Analysis.Resolver

/-!
The columns that a text or a position finds while the parts of an input are gone through, each part
beginning where the one before it ends, are those that it finds among all columns of the input.
-/

namespace RelScript

namespace Resolver

variable {parts : List InputPart} {part : InputPart}

theorem columns_cons : columns (part :: parts) =
    part.fields.map (part.aliasName, ·) ++ columns parts := rfl

/-- Whether a column text refers to the column. -/
def refersTo (text : String) (column : String × Field) : Bool :=
  let (aliasName, name) := columnName text
  (aliasName.all (column.1 = ·)) && column.2.name = name

theorem partCandidates_eq (text : String) (base : Nat) (part : InputPart) :
    partCandidates (columnName text).1 (columnName text).2 base part =
      (((part.fields.map (part.aliasName, ·)).zipIdx base).filter fun c => refersTo text c.1).map
        fun c => (c.2, c.1.2.type) := by
  rw [List.zipIdx_map, List.filter_map, List.map_map, partCandidates]
  by_cases hpart : (columnName text).1.all (part.aliasName = ·) <;>
    simp [refersTo, hpart, Function.comp_def]

theorem candidatesFrom_eq (text : String) (base : Nat) (parts : List InputPart) :
    candidatesFrom (columnName text).1 (columnName text).2 base parts =
      (((columns parts).zipIdx base).filter fun c => refersTo text c.1).map
        fun c => (c.2, c.1.2.type) := by
  induction parts generalizing base with
  | nil => rfl
  | cons part parts ih =>
      rw [candidatesFrom, ih, partCandidates_eq, columns_cons, List.zipIdx_append,
        List.filter_append, List.map_append, List.length_map]

/-- A text refers to the columns that it refers to among all of them. -/
theorem candidates_eq (parts : List InputPart) (text : String) :
    candidates parts text =
      ((columns parts).zipIdx.filter fun c => refersTo text c.1).map fun c => (c.2, c.1.2.type) :=
  candidatesFrom_eq text 0 parts

theorem columnFrom_eq {index base : Nat} (h : base ≤ index) (parts : List InputPart) :
    columnFrom index base parts = match (columns parts)[index - base]? with
      | some c => .ok (c.2.name, c.2.type)
      | none => .error (.planning (.positionOutOfRange index (base + (columns parts).length))) := by
  induction parts generalizing base with
  | nil => rfl
  | cons part parts ih =>
      rw [columnFrom, columns_cons, List.length_append, List.length_map]
      by_cases hpart : index - base < part.fields.length
      · rw [List.getElem?_append_left (by simpa using hpart), List.getElem?_map,
          List.getElem?_eq_getElem hpart]
        rfl
      · rw [List.getElem?_append_right (by simpa using Nat.le_of_not_lt hpart), List.length_map,
          List.getElem?_eq_none (Nat.le_of_not_lt hpart)]
        dsimp only
        rw [ih (by omega), Nat.sub_add_eq, Nat.add_assoc]

theorem position_known (index : Nat) (parts : List InputPart) :
    (known parts).position index = match (columns parts)[index]? with
      | some c => .ok (c.2.name, c.2.type)
      | none => .error (.planning (.positionOutOfRange index (columns parts).length)) := by
  rw [position, columnFrom_eq (Nat.zero_le index), Nat.sub_zero, Nat.zero_add]

end Resolver

end RelScript
