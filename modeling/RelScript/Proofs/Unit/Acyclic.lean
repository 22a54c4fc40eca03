import RelScript.Proofs.Unit.History

/-!
The check for cycles passes where there are none: an alias that nothing leads back to is visited to
the end.
-/

namespace RelScript.Script

variable {script : Script}

theorem exists_visit {a : String} (hacc : Acc script.ReadBy a) {path : List String}
    (pending done : List String) (hpath : ∀ p ∈ path, Relation.TransGen script.ReadBy a p) :
    ∃ done', script.visit pending path done a = .ok done' := by
  have hacyclic := not_transGen_self hacc
  induction hacc generalizing pending path done with
  | intro a hreads ih =>
      rw [visit]
      split
      · exact ⟨_, rfl⟩
      rw [if_neg fun hmem => hacyclic (hpath a hmem)]
      split
      · exact ⟨_, rfl⟩
      rename_i d hd
      split
      · have hall : ∀ bs ⊆ d.dependencies, ∀ done, ∃ done',
            script.visitAll (pending.erase a) (path ++ [a]) done bs = .ok done' := by
          intro bs
          induction bs with
          | nil => exact fun _ done => ⟨done, by rw [visitAll]⟩
          | cons b rest ihrest =>
              intro hsub done
              have hb : script.ReadBy b a := ⟨d, hd, hsub List.mem_cons_self⟩
              have hopen : ∀ p ∈ path ++ [a], Relation.TransGen script.ReadBy b p := by
                intro p hp
                rcases List.mem_append.mp hp with hp | hp
                · exact .head hb (hpath p hp)
                · rw [List.mem_singleton.mp hp]
                  exact .single hb
              obtain ⟨done₁, hfirst⟩ := ih b hb (pending.erase a) done hopen
                (not_transGen_self (hreads b hb))
              obtain ⟨done₂, hrest⟩ := ihrest (fun e he => hsub (List.mem_cons_of_mem _ he)) done₁
              exact ⟨done₂, by rw [visitAll, hfirst]; exact hrest⟩
        obtain ⟨done', hdone⟩ := hall d.dependencies (fun _ hb => hb) done
        exact ⟨a :: done', by rw [hdone]; rfl⟩
      · exact ⟨_, rfl⟩

theorem checkCycles_of_acc {a : String} (h : Acc script.ReadBy a) :
    script.checkCycles a = .ok () := by
  obtain ⟨done, hdone⟩ := exists_visit h script.aliases [] (List.forall_mem_nil _)
  rw [checkCycles, hdone]

end RelScript.Script
