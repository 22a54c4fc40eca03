import RelScript.Proofs.Unit.Renumbering

/-!
Which units are accepted. A statement is accepted by itself or in any company, before or after any
other statements: what counts is that no cycle is reached from its alias and that some compilation
has compiled the alias.
-/

namespace RelScript

namespace Compilation

variable {script : Script} {roots : List String} {c : Compilation}

theorem Built.isSome_of_path (hscript : script.IsScripted) (h : Built script roots c)
    {a b : String} (ha : (c.get? a).isSome) (hpath : Relation.ReflTransGen script.ReadBy b a) :
    (c.get? b).isSome := by
  induction hpath using Relation.ReflTransGen.head_induction_on with
  | refl => exact ha
  | head hread _ ih =>
      obtain ⟨x, hx⟩ := Option.isSome_iff_exists.mp ih
      obtain ⟨d, hd, hb⟩ := hread
      exact (h.solves_of_get? hscript hd hx).dependencies _ hb

theorem Built.exists_add (hscript : script.IsScripted) {roots' : List String} {c' : Compilation}
    (h : Built script roots c) (h' : Built script roots' c') {a : String} {d : Plan}
    {x : CompiledAlias} (hd : script.get? a = some d) (hsolves : Solves script c d x)
    (hdeps : ∀ b ∈ d.dependencies, (c'.get? b).isSome) : ∃ c'', c'.add script a d = .ok c'' := by
  have hdescribed := h'.described hscript
  refine Compilation.exists_add script hdescribed (hscript.of_get? hd) hsolves.noRelationRefs
    ?_ ?_ a
  · intro ref href
    have hdep := Plan.mem_dependencies_of_scalar href
    rw [field?_renumbers (h.renumbers hscript h' (hdeps _ hdep)) (hsolves.dependencies _ hdep)]
    exact hsolves.selects ref href
  · intro r hr hext
    refine ⟨_, hsolves.renumber (hscript.of_get? hd) fun b hb y hy => ?_⟩
    obtain ⟨y', hy', hplan, hschema⟩ := h.renumbers hscript h' (hdeps b hb) y hy
    refine ⟨y', hy', ?_, hschema⟩
    rw [hplan]
    refine Plan.reassign_congr fun p hp => ?_
    have hmem : p.reassign c'.registry.idOf ∈ y'.plan.placeholders := by
      rw [hplan, Plan.placeholders_reassign]
      exact List.mem_map_of_mem hp
    exact (hr.idOf_eq ((h'.holds hscript hy' hmem).extend hext)).symm

/-- Compiling an alias succeeds from every compilation, if it has succeeded in one. -/
theorem Built.exists_compileAlias (hscript : script.IsScripted) {roots' : List String}
    {c' : Compilation} (h : Built script roots c) (h' : Built script roots' c') {a : String}
    (ha : (c.get? a).isSome) (hreached : script.Reached roots' a) {pending : List String}
    (hpending : ∀ b, Relation.ReflTransGen script.ReadBy b a → b ∈ pending) :
    ∃ c'', compileAlias script pending c' a = .ok c'' := by
  have hacc := h.acc ha
  induction hacc generalizing c' pending with
  | intro a hreads ih =>
      obtain ⟨x, hx⟩ := Option.isSome_iff_exists.mp ha
      obtain ⟨d, hd, hsolves⟩ := h.solves hscript hx
      have hread : ∀ b ∈ d.dependencies, script.ReadBy b a := fun b hb => ⟨d, hd, hb⟩
      have hall : ∀ (bs : List String), bs ⊆ d.dependencies → ∀ c', Built script roots' c' →
          ∃ c'', compileAll script (pending.erase a) c' bs = .ok c'' := by
        intro bs
        induction bs with
        | nil => exact fun _ c' _ => ⟨c', by rw [compileAll]⟩
        | cons b rest ihrest =>
            intro hsub c' h'
            have hb := hread b (hsub List.mem_cons_self)
            -- Nothing that `b` reads is `a`, which reads `b`.
            have hstruck : ∀ e, Relation.ReflTransGen script.ReadBy e b → e ∈ pending.erase a := by
              intro e he
              have hne : e ≠ a := by
                rintro rfl
                exact Script.not_transGen_self (h.acc ha) (Relation.TransGen.tail' he hb)
              exact (List.mem_erase_of_ne hne).mpr (hpending e (he.tail hb))
            obtain ⟨c₁, hc₁⟩ := ih b hb h' (hsolves.dependencies b (hsub List.mem_cons_self))
              (hreached.read hb) hstruck
            have hgrown := (compiles_of_compileAlias hc₁).grown h'
              (List.forall_mem_singleton.mpr (hreached.read hb))
            obtain ⟨c₂, hc₂⟩ := ihrest (fun e he => hsub (List.mem_cons_of_mem _ he)) c₁
              hgrown.built
            exact ⟨c₂, by rw [compileAll]; exact bind_eq_ok.mpr ⟨c₁, hc₁, hc₂⟩⟩
      rw [compileAlias]
      split
      · exact ⟨c', rfl⟩
      · have hmem := hpending a Relation.ReflTransGen.refl
        obtain ⟨c₁, hc₁⟩ := hall d.dependencies (fun _ hb => hb) c' h'
        have hgrown := ((compiles_of_eq_ok script).2 _ _ _ c₁ hc₁).grown h'
          fun b hb => hreached.read (hread b hb)
        obtain ⟨c₂, hc₂⟩ := h.exists_add hscript hgrown.built hd hsolves hgrown.compiled
        rw [hd]
        simp only [hmem, dite_true]
        exact ⟨c₂, bind_eq_ok.mpr ⟨c₁, hc₁, hc₂⟩⟩

end Compilation

namespace Script

variable {script : Script}

/-- An alias that can be compiled: no cycle is reached from it, and some compilation has it. -/
def Compilable (script : Script) (a : String) : Prop :=
  script.checkCycles a = .ok () ∧ ∃ roots c, Compilation.Built script roots c ∧ (c.get? a).isSome

theorem Compilable.exists_compileRoot (hscript : script.IsScripted) {a : String}
    (ha : script.Compilable a) {roots : List String} {c : Compilation}
    (h : Compilation.Built script roots c) (hreached : script.Reached roots a) :
    ∃ x c', Compilation.compileRoot script c a = .ok (x, c') ∧
      Compilation.Built script roots c' := by
  obtain ⟨hcycles, roots₀, c₀, h₀, hsome⟩ := ha
  have hpending : ∀ b, Relation.ReflTransGen script.ReadBy b a → b ∈ script.aliases := by
    intro b hpath
    obtain ⟨y, hy⟩ := Option.isSome_iff_exists.mp (h₀.isSome_of_path hscript hsome hpath)
    obtain ⟨d, hd, -⟩ := h₀.solves hscript hy
    exact mem_aliases_of_get? hd
  obtain ⟨c', hc'⟩ := h₀.exists_compileAlias hscript h hsome hreached hpending
  have hgrown := (Compilation.compiles_of_compileAlias hc').grown h
    (List.forall_mem_singleton.mpr hreached)
  obtain ⟨x, hx⟩ := Option.isSome_iff_exists.mp (hgrown.compiled a (List.mem_singleton.mpr rfl))
  exact ⟨x, c', Compilation.compileRoot_eq_ok.mpr ⟨hcycles, hc', hx⟩, hgrown.built⟩

theorem exists_compileStatements (hscript : script.IsScripted) {roots : List String}
    {statements : List Statement} (hall : ∀ s ∈ statements, script.Compilable s.aliasName)
    (hreached : ∀ s ∈ statements, script.Reached roots s.aliasName) {c : Compilation}
    (h : Compilation.Built script roots c) :
    ∃ r, Compilation.compileStatements script c statements = .ok r := by
  induction statements generalizing c with
  | nil => exact ⟨_, rfl⟩
  | cons s rest ih =>
      obtain ⟨x, c', hroot, hc'⟩ := (hall s List.mem_cons_self).exists_compileRoot hscript h
        (hreached s List.mem_cons_self)
      obtain ⟨r, hr⟩ := ih (fun t ht => hall t (List.mem_cons_of_mem _ ht))
        (fun t ht => hreached t (List.mem_cons_of_mem _ ht)) hc'
      exact ⟨_, bind_eq_ok.mpr ⟨_, hroot, bind_eq_ok.mpr ⟨r, hr, rfl⟩⟩⟩

theorem checkCycles_of_compileStatements {statements : List Statement} {c c' : Compilation}
    {compiled : List CompiledStatement}
    (h : Compilation.compileStatements script c statements = .ok (compiled, c')) :
    ∀ s ∈ statements, script.checkCycles s.aliasName = .ok () := by
  induction statements generalizing c compiled with
  | nil => simp
  | cons s rest ih =>
      obtain ⟨⟨x, c₁⟩, hroot, h⟩ := bind_eq_ok.mp h
      obtain ⟨⟨tail, c₂⟩, hrest, h⟩ := bind_eq_ok.mp h
      cases h
      exact List.forall_mem_cons.mpr ⟨(Compilation.compileRoot_eq_ok.mp hroot).1, ih hrest⟩

theorem exists_compile_iff (hscript : script.IsScripted) {statements : List Statement} :
    (∃ u, script.compile statements = .ok u) ↔
      ∀ s ∈ statements, script.Compilable s.aliasName := by
  constructor
  · rintro ⟨u, hu⟩ s hs
    obtain ⟨⟨compiled, c₁⟩, hcompiled, -⟩ := bind_eq_ok.mp hu
    obtain ⟨c, hc, -, hstatements⟩ := built_of_compile hu
    refine ⟨checkCycles_of_compileStatements hcompiled s hs, _, c, hc, ?_⟩
    obtain ⟨t, -, x, hx, -⟩ := forall_right_of_forall₂ hstatements.flip s hs
    rw [hx]
    rfl
  · intro hall
    obtain ⟨r, hr⟩ := exists_compileStatements hscript hall
      (fun s hs => script.reached_of_mem (List.mem_map_of_mem hs)) .empty
    exact ⟨_, bind_eq_ok.mpr ⟨r, hr, rfl⟩⟩

/-- Statements are accepted together if and only if each of them is accepted by itself. -/
theorem exists_compile_iff_forall (hscript : script.IsScripted) {statements : List Statement} :
    (∃ u, script.compile statements = .ok u) ↔
      ∀ s ∈ statements, ∃ u, script.compile [s] = .ok u := by
  simp only [exists_compile_iff hscript, List.forall_mem_singleton]

end Script

end RelScript
