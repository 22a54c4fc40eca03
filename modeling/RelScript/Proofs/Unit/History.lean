import Mathlib.Logic.Relation
import RelScript.Proofs.Outcome
import RelScript.Unit.Compile

/-!
How compilations come about: alias after alias, each one once, and after everything that it reads.
-/

namespace RelScript

namespace Script

/-- The definition of `a` reads `b`. -/
def ReadBy (script : Script) (b a : String) : Prop :=
  ∃ d, script.get? a = some d ∧ b ∈ d.dependencies

/-- Some root reads the alias, directly or through others, or is the alias itself. -/
def Reached (script : Script) (roots : List String) (aliasName : String) : Prop :=
  ∃ root ∈ roots, Relation.ReflTransGen script.ReadBy aliasName root

theorem Reached.read {script : Script} {roots : List String} {a b : String}
    (ha : script.Reached roots a) (hb : script.ReadBy b a) : script.Reached roots b := by
  obtain ⟨root, hroot, hpath⟩ := ha
  exact ⟨root, hroot, Relation.ReflTransGen.head hb hpath⟩

theorem Reached.mono {script : Script} {roots roots' : List String} {a : String}
    (ha : script.Reached roots a) (hroots : roots ⊆ roots') : script.Reached roots' a := by
  obtain ⟨root, hroot, hpath⟩ := ha
  exact ⟨root, hroots hroot, hpath⟩

theorem reached_of_mem (script : Script) {roots : List String} {a : String} (ha : a ∈ roots) :
    script.Reached roots a :=
  ⟨a, ha, Relation.ReflTransGen.refl⟩

theorem not_transGen_self {α : Type} {r : α → α → Prop} {a : α} (h : Acc r a) :
    ¬ Relation.TransGen r a a := by
  induction h.transGen with
  | intro a hacc ih => exact fun ha => ih a ha (acc_transGen_iff.mp (hacc a ha)) ha

end Script

/-- A statement compiled from its alias. -/
def Statement.compiled (s : Statement) (x : CompiledAlias) : CompiledStatement :=
  ⟨s.aliasName, s.target, Compilation.statementPlan s.target x.plan, x.schema⟩

namespace Compilation

variable {script : Script} {roots : List String}

/-- The steps that compile several aliases in order. -/
inductive Compiles (script : Script) : Compilation → List String → Compilation → Prop
  | done (c : Compilation) : Compiles script c [] c
  | known {c c' : Compilation} {a : String} {rest : List String} :
    (c.get? a).isSome → Compiles script c rest c' → Compiles script c (a :: rest) c'
  | step {c c₁ c₂ c' : Compilation} {a : String} {d : Plan} {rest : List String} :
    c.get? a = none → script.get? a = some d → Compiles script c d.dependencies c₁ →
      c₁.add script a d = .ok c₂ → Compiles script c₂ rest c' → Compiles script c (a :: rest) c'

theorem Compiles.append {c c' c'' : Compilation} {as bs : List String}
    (h : Compiles script c as c') (h' : Compiles script c' bs c'') :
    Compiles script c (as ++ bs) c'' := by
  induction h with
  | done c => exact h'
  | known ha _ ih => exact .known ha (ih h')
  | step hnone hd hdeps hadd _ _ ih => exact .step hnone hd hdeps hadd (ih h')

theorem compiles_of_eq_ok (script : Script) :
    (∀ pending c a, ∀ c', compileAlias script pending c a = .ok c' → Compiles script c [a] c') ∧
      ∀ pending c as, ∀ c', compileAll script pending c as = .ok c' →
        Compiles script c as c' := by
  apply compileAlias.mutual_induct script
    (fun pending c a => ∀ c', compileAlias script pending c a = .ok c' → Compiles script c [a] c')
    (fun pending c as => ∀ c', compileAll script pending c as = .ok c' → Compiles script c as c')
  case case1 =>
    intro pending c a hsome c' h
    rw [compileAlias, if_pos hsome] at h
    cases h
    exact .known hsome (.done c)
  case case2 =>
    intro pending c a hnone hget c' h
    rw [compileAlias, if_neg hnone, hget] at h
    cases h
  case case3 =>
    intro pending c a hnone d hget hmem ih c' h
    rw [compileAlias, if_neg hnone, hget] at h
    simp only [hmem, dite_true] at h
    obtain ⟨c₁, hdeps, hadd⟩ := bind_eq_ok.mp h
    rw [Bool.not_eq_true, Option.isSome_eq_false_iff, Option.isNone_iff_eq_none] at hnone
    exact .step hnone hget (ih c₁ hdeps) hadd (.done c')
  case case4 =>
    intro pending c a hnone d hget hmem c' h
    rw [compileAlias, if_neg hnone, hget] at h
    simp only [hmem, dite_false] at h
    cases h
  case case5 =>
    intro pending c c' h
    rw [compileAll] at h
    cases h
    exact .done c
  case case6 =>
    intro pending c a rest iha ihrest c' h
    rw [compileAll] at h
    obtain ⟨c₁, ha, hrest⟩ := bind_eq_ok.mp h
    exact (iha c₁ ha).append (ihrest c₁ c' hrest)

theorem compiles_of_compileAlias {pending : List String} {c c' : Compilation} {a : String}
    (h : compileAlias script pending c a = .ok c') : Compiles script c [a] c' :=
  (compiles_of_eq_ok script).1 pending c a c' h

theorem add_eq_ok {c c' : Compilation} {a : String} {d : Plan}
    (h : c.add script a d = .ok c') :
    ∃ bound r x, (scalarScope c.compiled a).bindPlan d c.registry = .ok (bound, r) ∧
      (relationScope script c.compiled).analyze bound = .ok (x.plan, x.schema) ∧
        c' = ⟨r, (a, x) :: c.compiled⟩ := by
  rw [add] at h
  obtain ⟨⟨bound, r⟩, hbind, h⟩ := bind_eq_ok.mp h
  obtain ⟨⟨plan, schema⟩, hanalyze, h⟩ := bind_eq_ok.mp h
  exact ⟨bound, r, ⟨plan, schema⟩, hbind, hanalyze, (pure_eq_ok.mp h).symm⟩

theorem get?_add {c c' : Compilation} {a : String} {d : Plan} (h : c.add script a d = .ok c') :
    ∃ x, ∀ b, c'.get? b = if b = a then some x else c.get? b := by
  obtain ⟨bound, r, x, -, -, rfl⟩ := add_eq_ok h
  refine ⟨x, fun b => ?_⟩
  rw [get?, List.lookup_cons]
  by_cases hb : b = a
  · simp [hb]
  · simp [hb, beq_false_of_ne hb, get?]

/-- The states that a compilation can be in when only aliases that the roots read are compiled. -/
inductive Built (script : Script) (roots : List String) : Compilation → Prop
  | empty : Built script roots .empty
  | add {c c' : Compilation} {a : String} {d : Plan} : Built script roots c →
    script.Reached roots a → script.get? a = some d → c.get? a = none →
      (∀ b ∈ d.dependencies, (c.get? b).isSome) → c.add script a d = .ok c' →
        Built script roots c'

/-- Compiled aliases stay as they are. -/
def Keeps (c c' : Compilation) : Prop := ∀ a x, c.get? a = some x → c'.get? a = some x

theorem Keeps.trans {c c' c'' : Compilation} (h : c.Keeps c') (h' : c'.Keeps c'') :
    c.Keeps c'' :=
  fun a x hx => h' a x (h a x hx)

theorem Keeps.isSome {c c' : Compilation} (h : c.Keeps c') {a : String}
    (ha : (c.get? a).isSome) : (c'.get? a).isSome := by
  obtain ⟨x, hx⟩ := Option.isSome_iff_exists.mp ha
  rw [h a x hx]
  rfl

theorem keeps_add {c c' : Compilation} {a : String} {d : Plan} (hnone : c.get? a = none)
    (h : c.add script a d = .ok c') : c.Keeps c' := by
  obtain ⟨x, hx⟩ := get?_add h
  intro b y hy
  rw [hx, if_neg, hy]
  rintro rfl
  rw [hnone] at hy
  cases hy

theorem isSome_get?_add {c c' : Compilation} {a : String} {d : Plan}
    (h : c.add script a d = .ok c') : (c'.get? a).isSome := by
  obtain ⟨x, hx⟩ := get?_add h
  rw [hx, if_pos rfl]
  rfl

/-- Nothing that is compiled reads itself. -/
theorem Built.acc {c : Compilation} (h : Built script roots c) {a : String}
    (ha : (c.get? a).isSome) : Acc script.ReadBy a := by
  induction h generalizing a with
  | empty => cases ha
  | @add c c' b d _ _ hd _ hdeps hadd ih =>
      obtain ⟨x, hx⟩ := get?_add hadd
      rw [hx] at ha
      split at ha
      · rename_i hab
        subst hab
        refine Acc.intro _ fun y ⟨d', hd', hy⟩ => ih (hdeps y ?_)
        rw [hd] at hd'
        cases hd'
        exact hy
      · exact ih ha

theorem Built.reached {c : Compilation} (h : Built script roots c) {a : String}
    (ha : (c.get? a).isSome) : script.Reached roots a := by
  induction h generalizing a with
  | empty => cases ha
  | @add c c' b d _ hb _ _ _ hadd ih =>
      obtain ⟨x, hx⟩ := get?_add hadd
      rw [hx] at ha
      split at ha
      · rename_i hab
        rw [hab]
        exact hb
      · exact ih ha

/-- What becomes of a compilation when several aliases are compiled. -/
structure Grown (script : Script) (roots : List String) (c : Compilation) (aliases : List String)
    (c' : Compilation) : Prop where
  built : Built script roots c'
  keeps : c.Keeps c'
  compiled : ∀ a ∈ aliases, (c'.get? a).isSome
  new : ∀ b, (c'.get? b).isSome → (c.get? b).isSome ∨ script.Reached aliases b

theorem Compiles.grown {c c' : Compilation} {aliases : List String}
    (h : Compiles script c aliases c') (hc : Built script roots c)
    (hroots : ∀ a ∈ aliases, script.Reached roots a) : Grown script roots c aliases c' := by
  induction h with
  | done c => exact ⟨hc, fun _ _ hx => hx, by simp, fun _ hb => Or.inl hb⟩
  | @known c c' a rest ha _ ih =>
      have hrest := ih hc fun b hb => hroots b (List.mem_cons_of_mem _ hb)
      refine ⟨hrest.built, hrest.keeps, ?_, fun b hb => (hrest.new b hb).imp_right ?_⟩
      · exact List.forall_mem_cons.mpr ⟨hrest.keeps.isSome ha, hrest.compiled⟩
      · exact fun hb => hb.mono (List.subset_cons_self _ _)
  | @step c c₁ c₂ c' a d rest hnone hd _ hadd _ ihdeps ihrest =>
      have hread : ∀ b ∈ d.dependencies, script.ReadBy b a := fun b hb => ⟨d, hd, hb⟩
      have ha := hroots a List.mem_cons_self
      have hdeps := ihdeps hc fun b hb => ha.read (hread b hb)
      have hnew : c₁.get? a = none := by
        -- otherwise compiling what `a` reads has compiled `a`, which then reads itself
        by_contra hne
        have hsome := Option.isSome_iff_ne_none.mpr hne
        rcases hdeps.new a hsome with hold | ⟨b, hb, hpath⟩
        · rw [hnone] at hold
          cases hold
        · exact Script.not_transGen_self (hdeps.built.acc hsome)
            (Relation.TransGen.tail' hpath (hread b hb))
      have hrest := ihrest (.add hdeps.built ha hd hnew hdeps.compiled hadd)
        fun b hb => hroots b (List.mem_cons_of_mem _ hb)
      have hkeeps := keeps_add hnew hadd
      refine ⟨hrest.built, (hdeps.keeps.trans hkeeps).trans hrest.keeps, ?_, fun b hb => ?_⟩
      · exact List.forall_mem_cons.mpr
          ⟨hrest.keeps.isSome (isSome_get?_add hadd), hrest.compiled⟩
      · rcases hrest.new b hb with hold | hreached
        · obtain ⟨x, hx⟩ := get?_add hadd
          rw [hx] at hold
          split at hold
          · rename_i hba
            rw [hba]
            exact Or.inr (script.reached_of_mem List.mem_cons_self)
          · refine (hdeps.new b hold).imp_right fun ⟨e, he, hpath⟩ => ?_
            exact ⟨a, List.mem_cons_self, hpath.tail (hread e he)⟩
        · exact Or.inr (hreached.mono (List.subset_cons_self _ _))

theorem compileRoot_eq_ok {c c' : Compilation} {a : String} {x : CompiledAlias} :
    compileRoot script c a = .ok (x, c') ↔
      script.checkCycles a = .ok () ∧ compileAlias script script.aliases c a = .ok c' ∧
        c'.get? a = some x := by
  rw [compileRoot, bind_eq_ok]
  constructor
  · rintro ⟨⟨⟩, hcycles, h⟩
    obtain ⟨c₁, halias, h⟩ := bind_eq_ok.mp h
    split at h
    · rename_i y hy
      cases h
      exact ⟨hcycles, halias, hy⟩
    · cases h
  · rintro ⟨hcycles, halias, hx⟩
    refine ⟨(), hcycles, bind_eq_ok.mpr ⟨c', halias, ?_⟩⟩
    rw [hx]
    rfl

theorem Grown.trans {c c' c'' : Compilation} {as bs : List String}
    (h : Grown script roots c as c') (h' : Grown script roots c' bs c'') :
    Grown script roots c (as ++ bs) c'' where
  built := h'.built
  keeps := h.keeps.trans h'.keeps
  compiled := List.forall_mem_append.mpr
    ⟨fun a ha => h'.keeps.isSome (h.compiled a ha), h'.compiled⟩
  new := fun b hb => by
    rcases h'.new b hb with hold | hreached
    · exact (h.new b hold).imp_right (·.mono (List.subset_append_left as bs))
    · exact Or.inr (hreached.mono (List.subset_append_right as bs))

theorem grown_of_compileStatements {statements : List Statement} {c c' : Compilation}
    {compiled : List CompiledStatement} (hc : Built script roots c)
    (hroots : ∀ s ∈ statements, script.Reached roots s.aliasName)
    (h : compileStatements script c statements = .ok (compiled, c')) :
    Grown script roots c (statements.map (·.aliasName)) c' ∧
      List.Forall₂ (fun s t => ∃ x, c'.get? s.aliasName = some x ∧ t = s.compiled x)
        statements compiled := by
  induction statements generalizing c compiled with
  | nil =>
      cases h
      exact ⟨⟨hc, fun _ _ hx => hx, by simp, fun _ hb => Or.inl hb⟩, List.Forall₂.nil⟩
  | cons s rest ih =>
      rw [compileStatements] at h
      obtain ⟨⟨x, c₁⟩, hroot, h⟩ := bind_eq_ok.mp h
      obtain ⟨⟨tail, c₂⟩, hrest, h⟩ := bind_eq_ok.mp h
      cases h
      obtain ⟨-, halias, hx⟩ := compileRoot_eq_ok.mp hroot
      have hhead := (compiles_of_compileAlias halias).grown hc
        (List.forall_mem_singleton.mpr (hroots s List.mem_cons_self))
      obtain ⟨htail, hstatements⟩ := ih hhead.built
        (fun t ht => hroots t (List.mem_cons_of_mem _ ht)) hrest
      exact ⟨hhead.trans htail, List.Forall₂.cons ⟨x, htail.keeps _ x hx, rfl⟩ hstatements⟩

end Compilation

/-- A unit consists of what the compilation of its statements has built. -/
theorem Script.built_of_compile {script : Script} {statements : List Statement} {u : CompiledUnit}
    (h : script.compile statements = .ok u) :
    ∃ c, Compilation.Built script (statements.map (·.aliasName)) c ∧ u.sideInputs = c.registry ∧
      List.Forall₂ (fun s t => ∃ x, c.get? s.aliasName = some x ∧ t = s.compiled x)
        statements u.statements := by
  obtain ⟨⟨compiled, c⟩, hcompiled, h⟩ := bind_eq_ok.mp h
  cases h
  obtain ⟨hgrown, hstatements⟩ := Compilation.grown_of_compileStatements .empty
    (fun s hs => script.reached_of_mem (List.mem_map_of_mem hs)) hcompiled
  exact ⟨c, hgrown.built, rfl, hstatements⟩

end RelScript
