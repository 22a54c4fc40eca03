import RelScript.Execution.Batch
import RelScript.Proofs.Analysis.Typing
import RelScript.Proofs.Execution.Safety

/-!
Typed expressions are safe: they compile to expressions of their type, which evaluate without
operand faults, and the cells read from a column are of the kind of its type.
-/

namespace RelScript

namespace Cell

/-- A cell of the kind that values of the type are read as. A missing cell is of every kind. -/
def Fits : DataType → Cell → Prop
  | _, missing => True
  | .boolean, boolean _ => True
  | .integer _, int _ => True
  | .float _, float _ => True
  | .text _, text _ => True
  | .bytes _, bytes _ => True
  | _, _ => False

theorem fits_missing (t : DataType) : missing.Fits t := by
  cases t <;> trivial

theorem safe_read {t : DataType} (entry : t.Entry) : Safe (Fits t) (read entry) := by
  cases entry with
  | none => exact fits_missing t
  | some v =>
      cases t with
      | null => exact nomatch v
      | date | duration => rfl
      | _ => trivial

theorem safe_narrow {t : DataType} {c : Cell} (h : c.Fits t) :
    Safe (fun _ => True) (narrow t c) := by
  cases t with
  | null => trivial
  | _ => cases c <;> trivial

theorem safe_build {t : DataType} {cells : List Cell} (h : ∀ c ∈ cells, c.Fits t) :
    Safe (fun _ => True) (build t cells) := by
  have hnarrow : Safe (fun _ => True) (cells.mapM (narrow t)) :=
    (Safe.mapM fun c hc => safe_narrow (h c hc)).mono fun _ _ => trivial
  cases t with
  | date | duration => rfl
  | _ => exact hnarrow

theorem safe_compare {t : DataType} {a b : Cell} (ha : a.Fits t) (hb : b.Fits t)
    (hamissing : a.isMissing = false) (hbmissing : b.isMissing = false) :
    Safe (fun _ => True) (a.compare b) := by
  cases a with
  | missing => cases hamissing
  | _ =>
      cases b with
      | missing => cases hbmissing
      | _ => cases t <;> trivial

end Cell

theorem Column.safe_cast {a : DataType} (c : Column a) (b : DataType) :
    Safe (fun _ => True) (c.cast b) := by
  unfold Column.cast
  split
  · refine (Safe.mapError (P := fun _ => True) (fun _ _ => trivial) fun _ => rfl).bind fun _ _ => ?_
    exact Safe.mapError (fun _ _ => trivial) fun _ => rfl
  · exact Safe.mapError (fun _ _ => trivial) fun _ => rfl

theorem Column.safe_expect {t : DataType} (c : Column t) (fault : ExecutionFault) :
    Safe (fun _ => True) (c.expect t fault) := by
  rw [Column.expect, Column.as?, dif_pos rfl]
  trivial

theorem Arithmetic.safe_column (op : Arithmetic) {a b : DataType} (l : Column a) (r : Column b) :
    Safe (fun _ => True) (op.column l r) := by
  cases op with
  | divide =>
      refine Safe.bind (P := fun _ => True) (Safe.mapError (fun _ _ => trivial) fun _ => rfl)
        fun right _ => ?_
      exact Safe.mapError (fun _ _ => trivial) fun _ => rfl
  | _ => exact Safe.mapError (fun _ _ => trivial) fun _ => rfl

namespace Compiled

variable {s : Schema}

/-- A compiled expression whose operators all have operands of the types that they expect. -/
def Sound : {t : DataType} → Compiled s t → Prop
  | _, column _ | _, missing _ | _, literal _ | _, bound _ _ => True
  | _, cast e _ => e.Sound
  | _, @not _ a e => a = .boolean ∧ e.Sound
  | _, @junction _ a b _ l r => (a = .boolean ∧ l.Sound) ∧ b = .boolean ∧ r.Sound
  | _, @compare _ a b _ l r => a = b ∧ l.Sound ∧ r.Sound
  | _, @arith _ a b _ l r => (a = b ∧ a.isNumeric = true) ∧ l.Sound ∧ r.Sound
  | _, @concat _ a b l r => (a = .utf8 ∧ l.Sound) ∧ b = .utf8 ∧ r.Sound

theorem resultType_of_isNumeric (op : Arithmetic) {a : DataType} (h : a.isNumeric = true) :
    op.resultType a a = a := by
  cases a with
  | integer | float => rfl
  | _ => cases h

theorem Sound.declared {t : DataType} {c : Compiled s t} (h : c.Sound) : c.declared = t := by
  induction c with
  | arith op l r ihl ihr =>
      obtain ⟨⟨rfl, hnumeric⟩, hl, -⟩ := h
      rw [Compiled.declared, ihl hl, resultType_of_isNumeric op hnumeric]
  | _ => rfl

theorem Sound.safe_eval {t : DataType} {c : Compiled s t} (h : c.Sound) (rows : Batch s) :
    Safe (fun _ => True) (c.eval rows) := by
  induction c with
  | column | missing | literal | bound => trivial
  | cast e t ih => exact (ih h).bind fun c _ => c.safe_cast t
  | not e ih =>
      obtain ⟨rfl, he⟩ := h
      exact (ih he).bind fun c _ => (c.safe_expect _).bind fun _ _ => trivial
  | junction j l r ihl ihr =>
      obtain ⟨⟨rfl, hl⟩, rfl, hr⟩ := h
      exact (ihl hl).bind fun l _ => (ihr hr).bind fun r _ =>
        (l.safe_expect _).bind fun _ _ => (r.safe_expect _).bind fun _ _ => trivial
  | compare c l r ihl ihr =>
      obtain ⟨rfl, hl, hr⟩ := h
      exact (ihl hl).bind fun l _ => (ihr hr).bind fun r _ =>
        (l.safe_expect _).bind fun _ _ => trivial
  | arith op l r ihl ihr =>
      obtain ⟨-, hl, hr⟩ := h
      exact (ihl hl).bind fun l _ => (ihr hr).bind fun r _ => op.safe_column l r
  | concat l r ihl ihr =>
      obtain ⟨⟨rfl, hl⟩, rfl, hr⟩ := h
      exact (ihl hl).bind fun l _ => (ihr hr).bind fun r _ =>
        (l.safe_expect _).bind fun _ _ => (r.safe_expect _).bind fun _ _ => trivial

end Compiled

/-- The values of an expression for some rows, with their type. -/
def Expr.values (e : Expr) (s : Schema) (b : ScalarBindings) (rows : Batch s) :
    Outcome ((t : DataType) × Column t) := do
  let c ← e.compile s b
  return ⟨c.1, ← c.2.eval rows⟩

theorem Placeholder.safe_value (p : Placeholder) (b : ScalarBinding) :
    Safe (fun _ => True) (p.value b) := by
  cases b with
  | empty => trivial
  | row s r =>
      rw [Placeholder.value]
      split
      · trivial
      · exact (Column.safe_cast _ _).bind fun _ _ => trivial

/-- A compiled expression of the type that is sound. -/
def AnyCompiled.IsOf {s : Schema} (t : DataType) (c : AnyCompiled s) : Prop :=
  c.1 = t ∧ c.2.Sound

theorem compileColumn_isOf {s : Schema} {i : Nat} {f : Field} (h : s[i]? = some f) :
    AnyCompiled.IsOf f.type (compileColumn s i) := by
  obtain ⟨hi, hf⟩ := List.getElem?_eq_some_iff.mp h
  rw [compileColumn, dif_pos hi]
  refine ⟨?_, trivial⟩
  rw [← hf]
  rfl

/-- Typed expressions compile to sound expressions of their type, unless a side input cannot be
read. -/
theorem Expr.HasType.safe_compile {s : Schema} {e : Expr} {t : DataType} (h : e.HasType s t)
    (bindings : ScalarBindings) : Safe (AnyCompiled.IsOf t) (e.compile s bindings) := by
  induction h with
  | columnRef hf => exact compileColumn_isOf hf
  | literal v => exact ⟨rfl, trivial⟩
  | placeholder p =>
      rw [Expr.compile]
      split
      · exact (p.safe_value _).bind fun _ _ => ⟨rfl, trivial⟩
      · rfl
  | cast t _ ih => exact ih.bind fun c hc => ⟨rfl, hc.2⟩
  | junction j _ _ ihl ihr =>
      exact ihl.bind fun l hl => ihr.bind fun r hr => ⟨rfl, ⟨hl.1, hl.2⟩, hr.1, hr.2⟩
  | not _ ih => exact ih.bind fun c hc => ⟨rfl, hc.1, hc.2⟩
  | compare c _ _ ihl ihr =>
      exact ihl.bind fun l hl => ihr.bind fun r hr => ⟨rfl, hl.1.trans hr.1.symm, hl.2, hr.2⟩
  | arith op hnumeric _ _ ihl ihr =>
      refine ihl.bind fun l hl => ihr.bind fun r hr => ?_
      obtain ⟨_, l⟩ := l
      obtain ⟨_, r⟩ := r
      obtain ⟨rfl, hl⟩ := hl
      obtain ⟨rfl, hr⟩ := hr
      dsimp only at hl hr hnumeric ⊢
      rw [if_pos (hl.declared.trans hr.declared.symm)]
      exact ⟨Compiled.resultType_of_isNumeric op hnumeric, ⟨rfl, hnumeric⟩, hl, hr⟩
  | concat _ _ ihl ihr =>
      exact ihl.bind fun l hl => ihr.bind fun r hr => ⟨rfl, ⟨hl.1, hl.2⟩, hr.1, hr.2⟩

end RelScript
