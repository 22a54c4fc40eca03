import RelScript.Proofs.Execution.Alike
import RelScript.Proofs.Execution.Renumbering
import RelScript.Proofs.Execution.Rowwise

/-!
How rows are cut. Sources cut their rows into batches of a size, filters and projections cut their
input into parts for parallel tasks. Neither the size nor the number of tasks matters to the rows
that an operator tree gives, or to whether it fails.
-/

namespace RelScript

variable {α β γ : Type}

/-- A function whose result for some rows is put together from the results for any two parts. -/
def Splits (f : List α → Outcome (List β)) : Prop :=
  ∀ xs ys, (f (xs ++ ys)).toOption =
    (f xs).toOption.bind fun a => (f ys).toOption.map (a ++ ·)

theorem Rowwise.splits {f : List α → Outcome (List β)} (h : Rowwise f) : Splits f := by
  obtain ⟨g, hg⟩ := h
  intro xs ys
  rw [hg, hg, hg]
  cases g with
  | none => rfl
  | some h =>
      dsimp only [Option.bind_some]
      rw [List.mapM_append]
      cases xs.mapM h with
      | none => rfl
      | some a => cases ys.mapM h <;> rfl

namespace Splits

theorem map {f : List α → Outcome (List β)} (h : Splits f) (pick : List β → List γ)
    (hpick : ∀ a b, pick (a ++ b) = pick a ++ pick b) : Splits fun rows => (f rows).map pick := by
  intro xs ys
  simp only [toOption_map]
  rw [h]
  cases (f xs).toOption with
  | none => rfl
  | some a =>
      cases (f ys).toOption with
      | none => rfl
      | some b => exact congrArg some (hpick a b)

theorem congr {f f' : List α → Outcome (List β)} (h : Splits f)
    (hsame : ∀ rows, (f' rows).toOption = (f rows).toOption) : Splits f' := by
  intro xs ys
  rw [hsame, hsame, hsame, h]

theorem mapM_flatten {f : List α → Outcome (List β)} (h : Splits f) {slices : List (List α)}
    (hne : slices ≠ []) :
    (slices.mapM f).toOption.map List.flatten = (f slices.flatten).toOption := by
  induction slices with
  | nil => exact absurd rfl hne
  | cons slice rest ih =>
      rw [List.mapM_cons, List.flatten_cons]
      cases rest with
      | nil =>
          rw [List.mapM_nil, List.flatten_nil, List.append_nil]
          cases f slice with
          | error e => rfl
          | ok a => exact congrArg some (List.append_nil a)
      | cons next rest =>
          rw [h, ← ih (List.cons_ne_nil _ _)]
          cases f slice with
          | error e => rfl
          | ok a => cases (next :: rest).mapM f <;> rfl

theorem foldlM {f : List α → Outcome (List β)} (h : Splits f) (op : γ → β → Outcome γ)
    {batches : List (List α)} (hne : batches ≠ []) (start : γ) :
    (batches.foldlM (fun x rows => f rows >>= fun items => items.foldlM op x) start).toOption =
      (f batches.flatten >>= fun items => items.foldlM op start).toOption := by
  induction batches generalizing start with
  | nil => exact absurd rfl hne
  | cons batch rest ih =>
      rw [List.foldlM_cons, List.flatten_cons]
      cases rest with
      | nil =>
          rw [List.flatten_nil, List.append_nil]
          cases f batch with
          | error e => rfl
          | ok items =>
              show (items.foldlM op start >>= pure).toOption = _
              rw [bind_pure]
              rfl
      | cons next rest =>
          simp only [toOption_bind, ih (List.cons_ne_nil _ _), h batch]
          cases f batch with
          | error e => rfl
          | ok items =>
              cases f (next :: rest).flatten with
              | error e =>
                  show ((items.foldlM op start).toOption.bind fun _ => none) = none
                  cases (items.foldlM op start).toOption <;> rfl
              | ok others =>
                  show ((items.foldlM op start).toOption.bind fun x =>
                    (others.foldlM op x).toOption) = ((items ++ others).foldlM op start).toOption
                  rw [List.foldlM_append, toOption_bind]

end Splits

section Cuts

theorem flatten_slices (size : Nat) (rows : List α) : (slices size rows).flatten = rows := by
  induction rows using slices.induct size with
  | case1 => rw [slices]; rfl
  | case2 row rest ih => rw [slices, List.flatten_cons, ih, List.take_append_drop]

theorem ne_nil_of_mem_slices {size : Nat} {rows slice : List α} (h : slice ∈ slices size rows) :
    slice ≠ [] := by
  induction rows using slices.induct size with
  | case1 =>
      rw [slices] at h
      cases h
  | case2 row rest ih =>
      rw [slices] at h
      rcases List.mem_cons.mp h with rfl | h
      · simp
      · exact ih h

theorem flatten_rebatch (size : Nat) (batches : List (List α)) :
    (batches.flatMap (slices size)).flatten = batches.flatten := by
  induction batches with
  | nil => rfl
  | cons b rest ih =>
      rw [List.flatMap_cons, List.flatten_append, flatten_slices, ih, List.flatten_cons]

theorem flatten_fillParts (size : Nat) (open_ : List (List α)) (room : Nat)
    (batches : List (List α)) : (fillParts size open_ room batches).flatten.flatten =
      open_.flatten ++ batches.flatten := by
  induction open_, room, batches using fillParts.induct size with
  | case1 open_ room hempty =>
      rw [fillParts, if_pos hempty, List.isEmpty_iff.mp hempty]
      rfl
  | case2 open_ room hempty =>
      rw [fillParts, if_neg hempty]
      simp
  | case3 open_ room batches ih =>
      rw [fillParts, ih]
      rfl
  | case4 open_ room row rows batches hroom ih =>
      rw [fillParts, if_pos hroom, ih]
      simp
  | case5 open_ room row rows batches hroom ih =>
      rw [fillParts, if_neg hroom, List.flatten_cons, List.flatten_append, ih]
      simp only [List.flatten_append, List.flatten_cons, List.flatten_nil, List.append_nil,
        List.nil_append, List.append_assoc]
      rw [← List.append_assoc (List.take _ _), List.take_append_drop]

theorem ne_nil_of_mem_fillParts {size : Nat} {open_ : List (List α)} {room : Nat}
    {batches : List (List α)} (hopen : ∀ slice ∈ open_, slice ≠ []) {slice : List α}
    (h : slice ∈ (fillParts size open_ room batches).flatten) : slice ≠ [] := by
  induction open_, room, batches using fillParts.induct size with
  | case1 open_ room hempty =>
      rw [fillParts, if_pos hempty] at h
      cases h
  | case2 open_ room hempty =>
      rw [fillParts, if_neg hempty, List.flatten_cons, List.flatten_nil, List.append_nil] at h
      exact hopen slice h
  | case3 open_ room batches ih =>
      rw [fillParts] at h
      exact ih hopen h
  | case4 open_ room row rows batches hroom ih =>
      rw [fillParts, if_pos hroom] at h
      refine ih (fun s hs => ?_) h
      rcases List.mem_append.mp hs with hs | hs
      · exact hopen s hs
      · rw [List.mem_singleton.mp hs]
        exact List.cons_ne_nil _ _
  | case5 open_ room row rows batches hroom ih =>
      rw [fillParts, if_neg hroom, List.flatten_cons] at h
      rcases List.mem_append.mp h with hs | hs
      · rcases List.mem_append.mp hs with hs | hs
        · exact hopen slice hs
        · rw [List.mem_singleton.mp hs]
          simp
      · exact ih (fun s hs => absurd hs List.not_mem_nil) hs

theorem flatten_partition (tasks : Nat) (batches : List (List α)) :
    (partition tasks batches).flatten.flatten = batches.flatten := by
  unfold partition
  dsimp only
  split
  · rename_i hnone
    rw [List.length_eq_zero_iff.mp hnone]
    rfl
  · exact flatten_fillParts _ _ _ _

theorem ne_nil_of_mem_partition {tasks : Nat} {batches : List (List α)} {slice : List α}
    (h : slice ∈ (partition tasks batches).flatten) : slice ≠ [] := by
  unfold partition at h
  dsimp only at h
  split at h
  · simp at h
  · exact ne_nil_of_mem_fillParts (fun s hs => absurd hs List.not_mem_nil) h

theorem flatten_limitBatches (count : Nat) (batches : List (List α)) :
    (limitBatches count batches).flatten = batches.flatten.take count := by
  induction batches generalizing count with
  | nil => cases count <;> simp [limitBatches]
  | cons b rest ih =>
      cases count with
      | zero => simp [limitBatches]
      | succ count => rw [limitBatches, List.flatten_cons, List.flatten_cons, ih, List.take_append]

theorem limitBatches_eq_nil {count : Nat} {batches : List (List α)} :
    limitBatches count batches = [] ↔ count = 0 ∨ batches = [] := by
  cases count <;> cases batches <;> simp [limitBatches]

end Cuts

/-- A step that splits, over the parts of some batches. Without a row it is not taken at all. -/
theorem Splits.toOption_runParts {step : List α → Outcome (List β)} (hstep : Splits step)
    (ctx : RunContext) (b : ScalarBindings) (batches : List (List α)) (w : EngineState) :
    (runParts ctx b step batches w).1.toOption.map List.flatten =
      if batches.flatten = [] then some [] else (step batches.flatten).toOption := by
  obtain ⟨w', hrun, -⟩ := Run.run_runParts ctx b step batches w
  have hrows := flatten_partition ctx.parallelism batches
  rw [hrun, ← hrows]
  by_cases hnil : (partition ctx.parallelism batches).flatten = []
  · rw [hnil, List.flatten_nil, if_pos rfl]
    rfl
  · obtain ⟨slice, hslice⟩ := List.exists_mem_of_ne_nil _ hnil
    have hne := ne_nil_of_mem_partition hslice
    rw [if_neg fun hempty => hne (List.flatten_eq_nil_iff.mp hempty slice hslice)]
    exact hstep.mapM_flatten hnil

/-- The same rows in the same order, and batches in both cases or in neither. -/
structure SameRows (batches batches' : List (List α)) : Prop where
  rows : batches.flatten = batches'.flatten
  present : batches = [] ↔ batches' = []

namespace SameRows

theorem refl (batches : List (List α)) : SameRows batches batches := ⟨rfl, Iff.rfl⟩

theorem of_slices {batches batches' : List (List α)} (hrows : batches.flatten = batches'.flatten)
    (h : ∀ slice ∈ batches, slice ≠ []) (h' : ∀ slice ∈ batches', slice ≠ []) :
    SameRows batches batches' := by
  have hpresent : ∀ slices : List (List α), (∀ slice ∈ slices, slice ≠ []) →
      (slices = [] ↔ slices.flatten = []) := by
    intro slices hslices
    refine ⟨fun hnil => by rw [hnil, List.flatten_nil], fun hnil => ?_⟩
    refine List.eq_nil_iff_forall_not_mem.mpr fun slice hslice => hslices slice hslice ?_
    exact List.flatten_eq_nil_iff.mp hnil slice hslice
  exact ⟨hrows, by rw [hpresent _ h, hpresent _ h', hrows]⟩

theorem rebatch {batches batches' : List (List α)} (h : batches.flatten = batches'.flatten)
    (size size' : Nat) :
    SameRows (batches.flatMap (slices size)) (batches'.flatMap (slices size')) := by
  have hslices : ∀ (size : Nat) (batches : List (List α)),
      ∀ slice ∈ batches.flatMap (slices size), slice ≠ [] := by
    intro size batches slice hslice
    obtain ⟨b, -, hslice⟩ := List.mem_flatMap.mp hslice
    exact ne_nil_of_mem_slices hslice
  refine of_slices ?_ (hslices size batches) (hslices size' batches')
  rw [flatten_rebatch, flatten_rebatch, h]

theorem partition {batches batches' : List (List α)} (h : SameRows batches batches')
    (tasks tasks' : Nat) :
    SameRows (partition tasks batches).flatten (RelScript.partition tasks' batches').flatten := by
  refine of_slices ?_ (fun _ => ne_nil_of_mem_partition) fun _ => ne_nil_of_mem_partition
  rw [flatten_partition, flatten_partition, h.rows]

theorem limit {batches batches' : List (List α)} (h : SameRows batches batches') (count : Nat) :
    SameRows (limitBatches count batches) (limitBatches count batches') := by
  refine ⟨?_, ?_⟩
  · rw [flatten_limitBatches, flatten_limitBatches, h.rows]
  · rw [limitBatches_eq_nil, limitBatches_eq_nil, h.present]

theorem mapM {batches batches' : List (List α)} (h : SameRows batches batches')
    {f : List α → Outcome (List β)} (hf : Splits f) :
    Alike SameRows (batches.mapM f) (batches'.mapM f) := by
  by_cases hnil : batches = []
  · rw [hnil, h.present.mp hnil]
    exact refl []
  · have hnil' : batches' ≠ [] := fun hnil' => hnil (h.present.mpr hnil')
    have hsame := (hf.mapM_flatten hnil).trans
      ((congrArg (fun rows => (f rows).toOption) h.rows).trans (hf.mapM_flatten hnil').symm)
    cases hresult : batches.mapM f with
    | error e =>
        cases hresult' : batches'.mapM f with
        | error e' => trivial
        | ok results' =>
            rw [hresult, hresult'] at hsame
            cases hsame
    | ok results =>
        cases hresult' : batches'.mapM f with
        | error e' =>
            rw [hresult, hresult'] at hsame
            cases hsame
        | ok results' =>
            rw [hresult, hresult'] at hsame
            refine ⟨Option.some.inj hsame, ?_⟩
            have hlength := (mapM_eq_ok.mp hresult).length_eq
            have hlength' := (mapM_eq_ok.mp hresult').length_eq
            rw [← List.length_eq_zero_iff, ← List.length_eq_zero_iff, ← hlength, ← hlength',
              List.length_eq_zero_iff, List.length_eq_zero_iff]
            exact h.present

theorem foldlM {batches batches' : List (List α)} (h : SameRows batches batches')
    {f : List α → Outcome (List β)} (hf : Splits f) (op : γ → β → Outcome γ) (start : γ) :
    Alike Eq
      (batches.foldlM (fun x rows => f rows >>= fun items => items.foldlM op x) start)
      (batches'.foldlM (fun x rows => f rows >>= fun items => items.foldlM op x) start) := by
  by_cases hnil : batches = []
  · rw [hnil, h.present.mp hnil]
    exact Alike.refl _
  · have hnil' : batches' ≠ [] := fun hnil' => hnil (h.present.mpr hnil')
    rw [Alike.iff_toOption_eq, hf.foldlM op hnil, hf.foldlM op hnil', h.rows]

end SameRows

end RelScript
