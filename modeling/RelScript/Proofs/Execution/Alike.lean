import RelScript.Proofs.Execution.Safety

/-!
Two runs side by side. Two results are alike if both are failures, whatever they blame, or both are
values that are related; steps with alike results compose.
-/

namespace RelScript

/-- Two failures, or two related values. -/
def Alike {α β : Type} (R : α → β → Prop) : Outcome α → Outcome β → Prop
  | .ok a, .ok b => R a b
  | .error _, .error _ => True
  | _, _ => False

namespace Alike

variable {α β γ δ : Type} {R : α → β → Prop} {S : γ → δ → Prop}

theorem refl (x : Outcome α) : Alike Eq x x := by
  cases x with
  | ok a => rfl
  | error e => trivial

theorem symm {x y : Outcome α} (h : Alike Eq x y) : Alike Eq y x := by
  cases x <;> cases y
  · trivial
  · cases h
  · cases h
  · exact Eq.symm h

theorem flip {x : Outcome α} {y : Outcome β} (h : Alike R x y) : Alike (fun b a => R a b) y x := by
  cases x <;> cases y
  · trivial
  · cases h
  · cases h
  · exact h

theorem mono {R' : α → β → Prop} {x : Outcome α} {y : Outcome β} (h : Alike R x y)
    (hR : ∀ a b, R a b → R' a b) : Alike R' x y := by
  cases x <;> cases y
  · trivial
  · cases h
  · cases h
  · exact hR _ _ h

theorem congr {x x' : Outcome α} {y y' : Outcome β} (h : Alike R x y) (hx : Alike Eq x x')
    (hy : Alike Eq y y') : Alike R x' y' := by
  cases x <;> cases x' <;> cases hx <;> cases y <;> cases y' <;> cases hy <;> exact h

theorem ok_left {a : α} {y : Outcome β} (h : Alike R (.ok a) y) : ∃ b, y = .ok b ∧ R a b := by
  cases y with
  | ok b => exact ⟨b, rfl, h⟩
  | error e => cases h

theorem error_left {e : Error} {y : Outcome β} (h : Alike R (.error e) y) : ∃ f, y = .error f := by
  cases y with
  | ok b => cases h
  | error f => exact ⟨f, rfl⟩

theorem trans {S : β → γ → Prop} {T : α → γ → Prop} {x : Outcome α} {y : Outcome β}
    {z : Outcome γ} (h : Alike R x y) (h' : Alike S y z) (hT : ∀ a b c, R a b → S b c → T a c) :
    Alike T x z := by
  cases x with
  | error e =>
      obtain ⟨f, rfl⟩ := h.error_left
      obtain ⟨g, rfl⟩ := h'.error_left
      trivial
  | ok a =>
      obtain ⟨b, rfl, hab⟩ := h.ok_left
      obtain ⟨c, rfl, hbc⟩ := h'.ok_left
      exact hT a b c hab hbc

theorem exists_ok_iff {x : Outcome α} {y : Outcome β} (h : Alike R x y) :
    (∃ a, x = .ok a) ↔ ∃ b, y = .ok b := by
  cases x <;> cases y
  · simp
  · cases h
  · cases h
  · simp

theorem of_ok_iff {x : Outcome α} {y : Outcome β} (hiff : (∃ a, x = .ok a) ↔ ∃ b, y = .ok b)
    (h : ∀ a b, x = .ok a → y = .ok b → R a b) : Alike R x y := by
  cases x with
  | ok a =>
      obtain ⟨b, rfl⟩ := hiff.mp ⟨a, rfl⟩
      exact h a b rfl rfl
  | error e =>
      cases y with
      | ok b =>
          obtain ⟨a, ha⟩ := hiff.mpr ⟨b, rfl⟩
          cases ha
      | error f => trivial

theorem bind {x : Outcome α} {y : Outcome β} {f : α → Outcome γ} {g : β → Outcome δ}
    (h : Alike R x y) (hfg : ∀ a b, R a b → Alike S (f a) (g b)) :
    Alike S (x >>= f) (y >>= g) := by
  cases x <;> cases y
  · trivial
  · cases h
  · cases h
  · exact hfg _ _ h

theorem iff_toOption_eq {x y : Outcome α} : Alike Eq x y ↔ x.toOption = y.toOption := by
  cases x <;> cases y <;> simp [Alike, Except.toOption]

theorem bind_eq {x y : Outcome α} {f g : α → Outcome γ} (h : Alike Eq x y)
    (hfg : ∀ a, Alike Eq (f a) (g a)) : Alike Eq (x >>= f) (y >>= g) := by
  refine h.bind ?_
  rintro a _ rfl
  exact hfg a

theorem map {x : Outcome α} {y : Outcome β} {f : α → γ} {g : β → δ} (h : Alike R x y)
    (hfg : ∀ a b, R a b → S (f a) (g b)) : Alike S (x.map f) (y.map g) := by
  cases x <;> cases y
  · trivial
  · cases h
  · cases h
  · exact hfg _ _ h

theorem mapM {f : α → Outcome γ} {g : α → Outcome δ} {items : List α}
    (hfg : ∀ a ∈ items, Alike S (f a) (g a)) :
    Alike (List.Forall₂ S) (items.mapM f) (items.mapM g) := by
  induction items with
  | nil => exact List.Forall₂.nil
  | cons a items ih =>
      rw [List.mapM_cons, List.mapM_cons]
      refine (hfg a List.mem_cons_self).bind fun c d hcd => ?_
      refine (ih fun b hb => hfg b (List.mem_cons_of_mem _ hb)).bind fun cs ds hcds => ?_
      exact List.Forall₂.cons hcd hcds

theorem mapM_eq {f g : α → Outcome γ} {items : List α}
    (hfg : ∀ a ∈ items, Alike Eq (f a) (g a)) : Alike Eq (items.mapM f) (items.mapM g) := by
  refine (mapM hfg).mono fun cs ds h => ?_
  rwa [List.forall₂_eq_eq_eq] at h

end Alike

/-- The two steps leave the catalogs that they start from, and give alike results. -/
def Run.Alike {α β : Type} (c c' : Catalog) (R : α → β → Prop) (step : Run α) (step' : Run β) :
    Prop :=
  ∀ w w', w.catalog = c → w'.catalog = c' →
    RelScript.Alike R (step w).1 (step' w').1 ∧
      (step w).2.catalog = c ∧ (step' w').2.catalog = c'

/-- A step that succeeds and changes no more than the record of what happened. -/
def Run.Quiet (step : Run Unit) : Prop :=
  ∀ w, (step w).1 = .ok () ∧ (step w).2.catalog = w.catalog

namespace Run

theorem quiet_recordEvent (e : MetricEvent) : Quiet (recordEvent e) := fun _ => ⟨rfl, rfl⟩

theorem quiet_forM {α : Type} {step : α → Run Unit} (h : ∀ a, Quiet (step a)) (items : List α) :
    Quiet (items.forM step) := by
  induction items with
  | nil => exact fun _ => ⟨rfl, rfl⟩
  | cons a items ih =>
      intro w
      obtain ⟨hok, hcatalog⟩ := h a w
      obtain ⟨hok', hcatalog'⟩ := ih (step a w).2
      have hstep : (a :: items).forM step w = items.forM step (step a w).2 := by
        show (step a >>= fun _ => items.forM step) w = _
        rw [run_bind, hok]
      rw [hstep]
      exact ⟨hok', hcatalog'.trans hcatalog⟩

theorem run_ofOutcome {α : Type} (x : Outcome α) (w : EngineState) : ofOutcome x w = (x, w) := by
  cases x <;> rfl

/-- A step over the parts of some batches is the step over all their slices in order, and leaves a
record only. -/
theorem run_runParts {α β : Type} (ctx : RunContext) (b : ScalarBindings)
    (step : List α → Outcome (List β)) (batches : List (List α)) (w : EngineState) :
    ∃ w', runParts ctx b step batches w =
      ((partition ctx.parallelism batches).flatten.mapM step, w') ∧ w'.catalog = w.catalog := by
  have hslices : ∀ parts : List (List (List α)),
      (parts.mapM fun part : List (List α) => part.mapM step).map List.flatten =
        parts.flatten.mapM step := by
    intro parts
    induction parts with
    | nil => rfl
    | cons part rest ih =>
        rw [List.mapM_cons, List.flatten_cons, List.mapM_append, ← ih]
        cases part.mapM step with
        | error e => rfl
        | ok outputs => cases rest.mapM fun part : List (List α) => part.mapM step <;> rfl
  obtain ⟨hok, hcatalog⟩ := quiet_forM (fun _ => quiet_forM quiet_recordEvent (ctx.readEvents b))
    (partition ctx.parallelism batches) w
  refine ⟨_, ?_, hcatalog⟩
  rw [runParts, run_bind, hok]
  dsimp only
  rw [run_bind, run_ofOutcome, ← hslices]
  cases (partition ctx.parallelism batches).mapM fun part => part.mapM step <;> rfl

/-- From catalogs that are related, the two steps give alike results and leave catalogs that are
related. -/
def Relates {α β : Type} (I : Catalog → Catalog → Prop) (R : α → β → Prop) (step : Run α)
    (step' : Run β) : Prop :=
  ∀ w w', I w.catalog w'.catalog →
    RelScript.Alike R (step w).1 (step' w').1 ∧ I (step w).2.catalog (step' w').2.catalog

namespace Relates

variable {α β γ δ : Type} {I : Catalog → Catalog → Prop} {R : α → β → Prop} {S : γ → δ → Prop}

theorem pure {a : α} {b : β} (h : R a b) :
    Relates I R (Pure.pure a : Run α) (Pure.pure b : Run β) :=
  fun _ _ hw => ⟨h, hw⟩

theorem ofOutcome {x : Outcome α} {y : Outcome β} (h : RelScript.Alike R x y) :
    Relates I R (ofOutcome x) (ofOutcome y) := by
  intro w w' hw
  rw [run_ofOutcome, run_ofOutcome]
  exact ⟨h, hw⟩

theorem of_quiet {step step' : Run Unit} (h : Quiet step) (h' : Quiet step') :
    Relates I Eq step step' := by
  intro w w' hw
  obtain ⟨hok, hcatalog⟩ := h w
  obtain ⟨hok', hcatalog'⟩ := h' w'
  rw [hok, hok', hcatalog, hcatalog']
  exact ⟨rfl, hw⟩

theorem bind {step : Run α} {step' : Run β} {next : α → Run γ} {next' : β → Run δ}
    (h : Relates I R step step') (hnext : ∀ a b, R a b → Relates I S (next a) (next' b)) :
    Relates I S (step >>= next) (step' >>= next') := by
  intro w w' hw
  obtain ⟨hresults, hafter⟩ := h w w' hw
  rw [run_bind, run_bind]
  cases hstep : (step w).1 with
  | ok a =>
      rw [hstep] at hresults
      obtain ⟨b, hb, hab⟩ := hresults.ok_left
      rw [hb]
      exact hnext a b hab _ _ hafter
  | error e =>
      rw [hstep] at hresults
      obtain ⟨f, hf⟩ := hresults.error_left
      rw [hf]
      exact ⟨trivial, hafter⟩

end Relates

namespace Alike

variable {α β γ δ : Type} {c c' : Catalog} {R : α → β → Prop} {S : γ → δ → Prop}

theorem iff_relates {step : Run α} {step' : Run β} :
    Run.Alike c c' R step step' ↔ Relates (fun d d' => d = c ∧ d' = c') R step step' :=
  ⟨fun h w w' hw => h w w' hw.1 hw.2, fun h w w' hw hw' => h w w' ⟨hw, hw'⟩⟩

theorem pure {a : α} {b : β} (h : R a b) :
    Run.Alike c c' R (Pure.pure a : Run α) (Pure.pure b : Run β) :=
  iff_relates.mpr (.pure h)

theorem ofOutcome {x : Outcome α} {y : Outcome β} (h : RelScript.Alike R x y) :
    Run.Alike c c' R (ofOutcome x) (ofOutcome y) :=
  iff_relates.mpr (.ofOutcome h)

theorem of_quiet {step step' : Run Unit} (h : Quiet step) (h' : Quiet step') :
    Run.Alike c c' Eq step step' :=
  iff_relates.mpr (.of_quiet h h')

theorem bind {step : Run α} {step' : Run β} {next : α → Run γ} {next' : β → Run δ}
    (h : Run.Alike c c' R step step')
    (hnext : ∀ a b, R a b → Run.Alike c c' S (next a) (next' b)) :
    Run.Alike c c' S (step >>= next) (step' >>= next') :=
  iff_relates.mpr ((iff_relates.mp h).bind fun a b hab => iff_relates.mp (hnext a b hab))

theorem bind_eq {step step' : Run α} {next next' : α → Run γ} (h : Run.Alike c c' Eq step step')
    (hnext : ∀ a, Run.Alike c c' Eq (next a) (next' a)) :
    Run.Alike c c' Eq (step >>= next) (step' >>= next') := by
  refine h.bind ?_
  rintro a _ rfl
  exact hnext a

theorem finish {S : Relation → Relation → Prop} {ctx ctx' : RunContext} {o o' : Operator}
    {r r' : Relation} (h : S r r') :
    Run.Alike c c' S (Operator.execute.finish ctx o r) (Operator.execute.finish ctx' o' r') :=
  (of_quiet (quiet_recordEvent _) (quiet_recordEvent _)).bind fun _ _ _ => pure h

end Alike

end Run

end RelScript
