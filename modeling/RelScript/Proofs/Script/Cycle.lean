import Mathlib
import RelScript.Proofs.Plan.Dependencies
import RelScript.Script.Cycle

/-!
The check for cycles is exact. Its search ends; it fails if and only if some cycle of the aliases
that definitions read can be reached, and the chain that it reports is such a cycle.
-/

namespace RelScript

namespace Script

/-- The definition of the alias reads the other alias, as a relation or as a scalar. -/
def DependsOn (script : Script) (a b : String) : Prop :=
  ∃ d, script.get? a = some d ∧ d.Reads b

/-- The alias reads the other one directly or through others, or is the other one. -/
def LeadsTo (script : Script) : String → String → Prop :=
  Relation.ReflTransGen script.DependsOn

/-- Some alias that can be reached depends on itself. -/
def ReachesCycle (script : Script) (root : String) : Prop :=
  ∃ a, script.LeadsTo root a ∧ Relation.TransGen script.DependsOn a a

/-- A cycle that can be reached: every alias of the chain reads the next one, the last one is the
first one again, and no other alias comes twice. -/
structure CycleFrom (script : Script) (root : String) (chain : List String) : Prop where
  two_le_length : 2 ≤ chain.length
  closed : chain.head? = chain.getLast?
  nodup : chain.dropLast.Nodup
  reads : chain.IsChain script.DependsOn
  reached : ∀ a ∈ chain, script.LeadsTo root a

/-- A search of aliases in order, call by call: with the open aliases `path`, and `done` searched
before, it ends in `found`. No bound on its depth is part of it. -/
inductive Searches (script : Script) : (path done : List String) → List String →
    (found : Except (List String) (List String)) → Prop
  | nil {path done : List String} : Searches script path done [] (.ok done)
  | known {path done rest : List String} {a : String} {found : Except (List String) (List String)} :
    a ∈ done → Searches script path done rest found → Searches script path done (a :: rest) found
  | closes {path done rest : List String} {a : String} : a ∉ done → a ∈ path →
    Searches script path done (a :: rest) (.error (path.dropWhile (· ≠ a) ++ [a]))
  | undefined {path done rest : List String} {a : String}
    {found : Except (List String) (List String)} : a ∉ done → a ∉ path → script.get? a = none →
      Searches script path done rest found → Searches script path done (a :: rest) found
  | failed {path done rest chain : List String} {a : String} {d : Plan} : a ∉ done → a ∉ path →
    script.get? a = some d → Searches script (path ++ [a]) done d.dependencies (.error chain) →
      Searches script path done (a :: rest) (.error chain)
  | searched {path done done' rest : List String} {a : String} {d : Plan}
    {found : Except (List String) (List String)} : a ∉ done → a ∉ path →
      script.get? a = some d → Searches script (path ++ [a]) done d.dependencies (.ok done') →
        Searches script path (a :: done') rest found →
          Searches script path done (a :: rest) found

variable {script : Script} {root : String}

section Termination

/-- An alias that is searched first, and the others after it. -/
def Searches.First (script : Script) (path done : List String) (a : String) :
    Except (List String) (List String) → Prop
  | .error chain => ∀ rest, script.Searches path done (a :: rest) (.error chain)
  | .ok done' => ∀ rest found, script.Searches path done' rest found →
      script.Searches path done (a :: rest) found

/-- While all defined aliases are open or still to be opened, nothing cuts a visit short. -/
theorem searches_of_visit (script : Script) :
    (∀ pending path done a, (∀ b d, script.get? b = some d → b ∈ pending ∨ b ∈ path) →
      Searches.First script path done a (script.visit pending path done a)) ∧
    ∀ pending path done as, (∀ b d, script.get? b = some d → b ∈ pending ∨ b ∈ path) →
      script.Searches path done as (script.visitAll pending path done as) := by
  apply visit.mutual_induct script
    (fun pending path done a => (∀ b d, script.get? b = some d → b ∈ pending ∨ b ∈ path) →
      Searches.First script path done a (script.visit pending path done a))
    (fun pending path done as => (∀ b d, script.get? b = some d → b ∈ pending ∨ b ∈ path) →
      script.Searches path done as (script.visitAll pending path done as))
  case case1 =>
    intro pending path done a hdone _
    rw [visit, if_pos hdone]
    exact fun rest found => .known hdone
  case case2 =>
    intro pending path done a hdone hpath _
    rw [visit, if_neg hdone, if_pos hpath]
    exact fun rest => .closes hdone hpath
  case case3 =>
    intro pending path done a hdone hpath hget _
    rw [visit, if_neg hdone, if_neg hpath, hget]
    exact fun rest found => .undefined hdone hpath hget
  case case4 =>
    intro pending path done a hdone hpath d hget hmem ih hopen
    have hdeps := ih fun b e he => by
      by_cases hba : b = a
      · simp [hba]
      · simpa [hba, List.mem_erase_of_ne hba] using hopen b e he
    rw [visit, if_neg hdone, if_neg hpath, hget]
    simp only [hmem, dite_true]
    cases hfound : script.visitAll (pending.erase a) (path ++ [a]) done d.dependencies with
    | error chain =>
        rw [hfound] at hdeps
        exact fun rest => .failed hdone hpath hget hdeps
    | ok done' =>
        rw [hfound] at hdeps
        exact fun rest found => .searched hdone hpath hget hdeps
  case case5 =>
    -- the alias is defined, so it is still to be opened
    intro pending path done a hdone hpath d hget hmem hopen
    exact absurd (hopen a d hget) (by simp [hmem, hpath])
  case case6 =>
    intro pending path done _
    rw [visitAll]
    exact .nil
  case case7 =>
    intro pending path done a rest iha ihrest hopen
    have hfirst := iha hopen
    rw [visitAll]
    cases hfound : script.visit pending path done a with
    | error chain =>
        rw [hfound] at hfirst
        exact hfirst rest
    | ok done' =>
        rw [hfound] at hfirst
        exact hfirst rest _ (ihrest done' hopen)

theorem exists_searches (script : Script) (root : String) :
    ∃ found, script.Searches [] [] [root] found ∧
      script.checkCycles root = (found.mapError Error.cycle).map fun _ => () := by
  have hfirst := (searches_of_visit script).1 script.aliases [] [] root
    fun b d hb => Or.inl (mem_aliases_of_get? hb)
  refine ⟨script.visit script.aliases [] [] root, ?_, ?_⟩
  · cases hfound : script.visit script.aliases [] [] root with
    | error chain =>
        rw [hfound] at hfirst
        exact hfirst []
    | ok done =>
        rw [hfound] at hfirst
        exact hfirst [] _ .nil
  · rw [checkCycles]
    cases script.visit script.aliases [] [] root <;> rfl

end Termination

section Soundness

/-- The open aliases of a search, each read by the one before it, and what is searched next: aliases
that the last open one reads. -/
structure Open (script : Script) (root : String) (path next : List String) : Prop where
  chain : path.IsChain script.DependsOn
  nodup : path.Nodup
  reads : ∀ p ∈ path.getLast?, ∀ a ∈ next, script.DependsOn p a
  reached : ∀ a ∈ path ++ next, script.LeadsTo root a

theorem Open.tail {path rest : List String} {a : String}
    (h : script.Open root path (a :: rest)) : script.Open root path rest where
  chain := h.chain
  nodup := h.nodup
  reads p hp b hb := h.reads p hp b (List.mem_cons_of_mem _ hb)
  reached b hb := h.reached b <| by
    rcases List.mem_append.mp hb with hb | hb
    · exact List.mem_append_left _ hb
    · exact List.mem_append_right _ (List.mem_cons_of_mem _ hb)

theorem Open.push {path rest : List String} {a : String} {d : Plan}
    (h : script.Open root path (a :: rest)) (ha : a ∉ path) (hd : script.get? a = some d) :
    script.Open root (path ++ [a]) d.dependencies := by
  have hreads : ∀ b ∈ d.dependencies, script.DependsOn a b :=
    fun b hb => ⟨d, hd, Plan.mem_dependencies_iff.mp hb⟩
  constructor
  · refine h.chain.append (.singleton a) ?_
    rintro p hp _ ⟨⟩
    exact h.reads p hp a List.mem_cons_self
  · rw [List.nodup_append]
    refine ⟨h.nodup, List.nodup_singleton a, ?_⟩
    rintro p hp b hb rfl
    exact ha (List.mem_singleton.mp hb ▸ hp)
  · simpa using hreads
  · intro b hb
    rcases List.mem_append.mp hb with hb | hb
    · refine h.reached b ?_
      simpa [or_assoc] using Or.inl (List.mem_append.mp hb)
    · exact (h.reached a (by simp)).tail (hreads b hb)

theorem exists_dropWhile_eq {path : List String} {a : String} (h : a ∈ path) :
    ∃ before after, path = before ++ a :: after ∧ path.dropWhile (· ≠ a) = a :: after := by
  induction path with
  | nil => cases h
  | cons b path ih =>
      by_cases hba : b = a
      · exact ⟨[], path, by simp [hba], by simp [hba]⟩
      · obtain ⟨before, after, hpath, hdrop⟩ :=
          ih ((List.mem_cons.mp h).resolve_left (Ne.symm hba))
        refine ⟨b :: before, after, by rw [hpath, List.cons_append], ?_⟩
        rw [List.dropWhile_cons_of_pos (by simpa using hba), hdrop]

theorem Open.cycleFrom {path rest : List String} {a : String}
    (h : script.Open root path (a :: rest)) (ha : a ∈ path) :
    script.CycleFrom root (path.dropWhile (· ≠ a) ++ [a]) := by
  obtain ⟨before, after, hpath, hdrop⟩ := exists_dropWhile_eq ha
  have hsuffix : (a :: after) <:+ path := ⟨before, hpath.symm⟩
  rw [hdrop]
  constructor
  · simp
  · rw [List.getLast?_concat, List.cons_append, List.head?_cons]
  · rw [List.dropLast_concat]
    exact h.nodup.sublist hsuffix.sublist
  · refine (h.chain.suffix hsuffix).append (.singleton a) ?_
    rintro p hp _ ⟨⟩
    refine h.reads p ?_ a List.mem_cons_self
    rwa [hpath, List.getLast?_append_of_ne_nil _ (List.cons_ne_nil _ _)]
  · intro b hb
    refine h.reached b ?_
    rcases List.mem_append.mp hb with hb | hb
    · exact List.mem_append_left _ (hsuffix.mem hb)
    · rw [List.mem_singleton.mp hb]
      exact List.mem_append_left _ ha

/-- What a failed search reports is a cycle. -/
theorem Searches.cycleFrom {path done as : List String}
    {found : Except (List String) (List String)} (h : script.Searches path done as found)
    (hopen : script.Open root path as) {chain : List String} (hfound : found = .error chain) :
    script.CycleFrom root chain := by
  induction h with
  | nil => cases hfound
  | known _ _ ih | undefined _ _ _ _ ih => exact ih hopen.tail hfound
  | closes _ hpath =>
      cases hfound
      exact hopen.cycleFrom hpath
  | failed _ hpath hd _ ih => exact ih (hopen.push hpath hd) hfound
  | searched _ _ _ _ _ _ ih => exact ih hopen.tail hfound

end Soundness

section Completeness

theorem ReachesCycle.of_dependsOn {a b : String} (h : script.ReachesCycle b)
    (hab : script.DependsOn a b) : script.ReachesCycle a := by
  obtain ⟨c, hbc, hcycle⟩ := h
  exact ⟨c, hbc.head hab, hcycle⟩

theorem ReachesCycle.exists_dependsOn {a : String} (h : script.ReachesCycle a) :
    ∃ b, script.DependsOn a b ∧ script.ReachesCycle b := by
  obtain ⟨c, hac, hcycle⟩ := h
  rcases hac.cases_head with rfl | ⟨b, hab, hbc⟩
  · obtain ⟨b, hab, hba⟩ := Relation.TransGen.head'_iff.mp hcycle
    exact ⟨b, hab, a, hba, hcycle⟩
  · exact ⟨b, hab, c, hbc, hcycle⟩

/-- No alias that a search has done with reaches a cycle. -/
theorem Searches.not_reachesCycle {path done as : List String}
    {found : Except (List String) (List String)} (h : script.Searches path done as found)
    (hdone : ∀ a ∈ done, ¬ script.ReachesCycle a) {done' : List String}
    (hfound : found = .ok done') :
    (∀ a ∈ done', ¬ script.ReachesCycle a) ∧ ∀ a ∈ as, ¬ script.ReachesCycle a := by
  induction h generalizing done' with
  | nil =>
      cases hfound
      exact ⟨hdone, by simp⟩
  | known ha _ ih =>
      obtain ⟨hdone', hrest⟩ := ih hdone hfound
      exact ⟨hdone', List.forall_mem_cons.mpr ⟨hdone _ ha, hrest⟩⟩
  | undefined _ _ hget _ ih =>
      obtain ⟨hdone', hrest⟩ := ih hdone hfound
      refine ⟨hdone', List.forall_mem_cons.mpr ⟨fun hcycle => ?_, hrest⟩⟩
      obtain ⟨b, ⟨d, hd, -⟩, -⟩ := hcycle.exists_dependsOn
      rw [hget] at hd
      cases hd
  | closes | failed => cases hfound
  | @searched _ _ _ _ a _ _ _ _ hget _ _ ihdeps ihrest =>
      obtain ⟨hdeps', hdeps⟩ := ihdeps hdone rfl
      have ha : ¬ script.ReachesCycle a := by
        intro hcycle
        obtain ⟨b, ⟨d, hd, hb⟩, hbcycle⟩ := hcycle.exists_dependsOn
        rw [hget] at hd
        cases hd
        exact hdeps b (Plan.mem_dependencies_iff.mpr hb) hbcycle
      obtain ⟨hdone', hrest⟩ := ihrest (List.forall_mem_cons.mpr ⟨ha, hdeps'⟩) hfound
      exact ⟨hdone', List.forall_mem_cons.mpr ⟨ha, hrest⟩⟩

theorem CycleFrom.reachesCycle {chain : List String} (h : script.CycleFrom root chain) :
    script.ReachesCycle root := by
  match chain, h with
  | [], h => exact absurd h.two_le_length (by simp)
  | [_], h => exact absurd h.two_le_length (by simp)
  | a :: b :: rest, h =>
      obtain ⟨hab, hrest⟩ := List.isChain_cons_cons.mp h.reads
      have hlast : (b :: rest).getLast (List.cons_ne_nil _ _) = a := by
        have hclosed := h.closed
        rw [List.getLast?_cons_cons, List.getLast?_eq_getLast_of_ne_nil (List.cons_ne_nil _ _)]
          at hclosed
        simpa using hclosed.symm
      refine ⟨a, h.reached a List.mem_cons_self, .head' hab ?_⟩
      exact List.relationReflTransGen_of_exists_isChain_cons rest hrest hlast

end Completeness

theorem open_root (script : Script) (root : String) : script.Open root [] [root] := by
  refine ⟨.nil, List.nodup_nil, by simp, ?_⟩
  rintro a ha
  rw [List.nil_append, List.mem_singleton] at ha
  exact ha ▸ .refl

theorem cycleFrom_of_checkCycles {e : Error} (h : script.checkCycles root = .error e) :
    ∃ chain, e = .cycle chain ∧ script.CycleFrom root chain := by
  obtain ⟨found, hsearch, hcheck⟩ := exists_searches script root
  rw [hcheck] at h
  cases found with
  | error chain =>
      cases h
      exact ⟨chain, rfl, hsearch.cycleFrom (open_root script root) rfl⟩
  | ok done => cases h

theorem checkCycles_eq_ok_iff : script.checkCycles root = .ok () ↔ ¬ script.ReachesCycle root := by
  obtain ⟨found, hsearch, hcheck⟩ := exists_searches script root
  rw [hcheck]
  cases found with
  | error chain =>
      have hcycle := hsearch.cycleFrom (open_root script root) rfl
      exact ⟨nofun, fun hnone => absurd hcycle.reachesCycle hnone⟩
  | ok done =>
      exact ⟨fun _ => (hsearch.not_reachesCycle (by simp) rfl).2 root (by simp), fun _ => rfl⟩

/-- The check for cycles ends, and it is exact: it fails if and only if a cycle can be reached from
the root, with nothing but the chain of such a cycle. -/
theorem checkCycles_reports (script : Script) (root : String) :
    (∃ found, script.Searches [] [] [root] found ∧
        script.checkCycles root = (found.mapError Error.cycle).map fun _ => ()) ∧
      ((∃ chain, script.checkCycles root = .error (.cycle chain)) ↔
        script.ReachesCycle root) ∧
      ∀ e, script.checkCycles root = .error e →
        ∃ chain, e = .cycle chain ∧ script.CycleFrom root chain := by
  refine ⟨exists_searches script root, ⟨?_, ?_⟩, fun e => cycleFrom_of_checkCycles⟩
  · rintro ⟨chain, hchain⟩
    obtain ⟨_, -, hcycle⟩ := cycleFrom_of_checkCycles hchain
    exact hcycle.reachesCycle
  · intro hcycle
    cases hcheck : script.checkCycles root with
    | error e =>
        obtain ⟨chain, rfl, -⟩ := cycleFrom_of_checkCycles hcheck
        exact ⟨chain, rfl⟩
    | ok => exact absurd hcycle (checkCycles_eq_ok_iff.mp hcheck)

/-- Two aliases of which each one compares with a scalar of the other. -/
def mutualScalars : Script :=
  ⟨[("rows", .load "t" none),
    ("left", .filter (.binary (.position 0) (.compare .eq) (.scalarRef "right" (.name "x")))
      (.relation "rows")),
    ("right", .filter (.binary (.position 0) (.compare .eq) (.scalarRef "left" (.name "x")))
      (.relation "rows"))]⟩

theorem checkCycles_mutualScalars :
    mutualScalars.checkCycles "left" = .error (.cycle ["left", "right", "left"]) ∧
      mutualScalars.CycleFrom "left" ["left", "right", "left"] := by
  have hcheck : mutualScalars.checkCycles "left" =
      .error (.cycle ["left", "right", "left"]) := by
    cbv
  obtain ⟨chain, hchain, hcycle⟩ := (checkCycles_reports mutualScalars "left").2.2 _ hcheck
  cases hchain
  exact ⟨hcheck, hcycle⟩

end Script

end RelScript
