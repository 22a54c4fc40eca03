import Mathlib.Data.List.Forall2
import RelScript.Execution.Operators

/-!
Operand faults: the failures of operators on operands that no analyzed plan gives them. A safe
result either has a property or is a failure of another kind, and steps with safe results compose.
-/

namespace RelScript

/-- Whether a failure blames the types of operands. -/
def ExecutionFault.isOperandFault : ExecutionFault → Bool
  | operandsDiffer _ _ | notOperand | junctionOperand | concatOperand | predicateType
  | incomparable | mixedValues _ => true
  | _ => false

/-- Whether a failure blames the types of operands, while expressions are compiled or while they
run. -/
def Error.isOperandFault : Error → Bool
  | planning (.missingCasts _ _) => true
  | execution fault => fault.isOperandFault
  | _ => false

theorem Error.isOperandFault_forReader (aliasName : String) (e : Error) :
    (e.forReader aliasName).isOperandFault = false := by
  cases e <;> rfl

/-- Values have the property, and failures blame no operands. -/
def Safe {α : Type} (P : α → Prop) : Outcome α → Prop
  | .ok a => P a
  | .error e => e.isOperandFault = false

namespace Safe

variable {α β : Type} {P P' : α → Prop} {Q : β → Prop}

theorem mono {x : Outcome α} (h : Safe P x) (hP : ∀ a, P a → P' a) : Safe P' x := by
  cases x with
  | ok a => exact hP a h
  | error e => exact h

theorem bind {x : Outcome α} {f : α → Outcome β} (h : Safe P x) (hf : ∀ a, P a → Safe Q (f a)) :
    Safe Q (x >>= f) := by
  cases x with
  | ok a => exact hf a h
  | error e => exact h

theorem map {x : Outcome α} {f : α → β} (h : Safe P x) (hf : ∀ a, P a → Q (f a)) :
    Safe Q (x.map f) := by
  cases x with
  | ok a => exact hf a h
  | error e => exact h

theorem mapError {ε : Type} {x : Except ε α} {f : ε → Error} (hx : ∀ a, x = .ok a → P a)
    (hf : ∀ e, (f e).isOperandFault = false) : Safe P (x.mapError f) := by
  cases x with
  | ok a => exact hx a rfl
  | error e => exact hf e

theorem mapM {R : α → β → Prop} {f : α → Outcome β} {items : List α}
    (hf : ∀ a ∈ items, Safe (R a) (f a)) : Safe (List.Forall₂ R items) (items.mapM f) := by
  induction items with
  | nil => exact List.Forall₂.nil
  | cons a items ih =>
      rw [List.mapM_cons]
      refine (hf a List.mem_cons_self).bind fun b hb => ?_
      refine (ih fun c hc => hf c (List.mem_cons_of_mem _ hc)).bind fun bs hbs => ?_
      exact List.Forall₂.cons hb hbs

theorem mapM₂ {γ : Type} {S : α → γ → Prop} {R : γ → β → Prop} {f : α → Outcome β}
    {items : List α} {others : List γ} (h : List.Forall₂ S items others)
    (hf : ∀ a c, S a c → Safe (R c) (f a)) : Safe (List.Forall₂ R others) (items.mapM f) := by
  induction h with
  | nil => exact List.Forall₂.nil
  | cons hac _ ih =>
      rw [List.mapM_cons]
      exact (hf _ _ hac).bind fun b hb => ih.bind fun bs hbs => List.Forall₂.cons hb hbs

theorem foldlM {f : α → β → Outcome α} {items : List β}
    (hf : ∀ a, P a → ∀ b ∈ items, Safe P (f a b)) {a : α} (ha : P a) :
    Safe P (items.foldlM f a) := by
  induction items generalizing a with
  | nil => exact ha
  | cons b items ih =>
      rw [List.foldlM_cons]
      exact (hf a ha b List.mem_cons_self).bind fun a' ha' =>
        ih (fun a h c hc => hf a h c (List.mem_cons_of_mem _ hc)) ha'

end Safe

/-- From every state, a value of the step has the property, and a failure blames no operands. -/
def Run.Safe {α : Type} (P : α → Prop) (step : Run α) : Prop :=
  ∀ w, RelScript.Safe P (step w).1

theorem run_bind {α β : Type} (step : Run α) (next : α → Run β) (w : EngineState) :
    (step >>= next) w = match (step w).1 with
      | .ok a => next a (step w).2
      | .error e => (.error e, (step w).2) := by
  show ExceptT.bindCont next (step w).1 (step w).2 = _
  cases (step w).1 <;> rfl

namespace Run.Safe

variable {α β : Type} {P : α → Prop} {Q : β → Prop}

theorem pure {a : α} (h : P a) : Run.Safe P (Pure.pure a : Run α) := fun _ => h

theorem ofOutcome {x : Outcome α} (h : RelScript.Safe P x) : Run.Safe P (ofOutcome x) := by
  intro w
  cases x with
  | ok a => exact h
  | error e => exact h

theorem bind {step : Run α} {next : α → Run β} (h : Run.Safe P step)
    (hnext : ∀ a, P a → Run.Safe Q (next a)) : Run.Safe Q (step >>= next) := by
  intro w
  have hw := h w
  rw [run_bind]
  cases hstep : (step w).1 with
  | ok a =>
      rw [hstep] at hw
      exact hnext a hw (step w).2
  | error e =>
      rw [hstep] at hw
      exact hw

theorem modify (f : EngineState → EngineState) : Run.Safe (fun _ => True) (modify f : Run Unit) :=
  fun _ => trivial

theorem get : Run.Safe (fun _ => True) (MonadState.get : Run EngineState) := fun _ => trivial

theorem forM {step : α → Run Unit} (h : ∀ a, Run.Safe (fun _ => True) (step a)) (items : List α) :
    Run.Safe (fun _ => True) (items.forM step) := by
  induction items with
  | nil => exact pure trivial
  | cons a items ih => exact (h a).bind fun _ _ => ih

end Run.Safe

end RelScript
