import Mathlib.Data.List.Forall2
import RelScript.Error

/-!
When a sequence of steps that may fail gives a result, and what is left of it when the text of a
failure does not matter.
-/

namespace RelScript

variable {ε α β γ : Type}

theorem bind_eq_ok {x : Except ε α} {f : α → Except ε β} {b : β} :
    (x >>= f) = .ok b ↔ ∃ a, x = .ok a ∧ f a = .ok b := by
  constructor
  · intro h
    cases x with
    | ok a => exact ⟨a, rfl, h⟩
    | error e => cases h
  · rintro ⟨a, rfl, hf⟩
    exact hf

theorem map_eq_ok {x : Except ε α} {f : α → β} {b : β} :
    x.map f = .ok b ↔ ∃ a, x = .ok a ∧ f a = b := by
  cases x <;> simp [Except.map]

theorem map_eq_error {x : Except ε α} {f : α → β} {e : ε} : x.map f = .error e ↔ x = .error e := by
  cases x <;> simp [Except.map]

theorem mapError_eq_ok {ε' : Type} {x : Except ε α} {f : ε → ε'} {a : α} :
    x.mapError f = .ok a ↔ x = .ok a := by
  cases x <;> simp [Except.mapError]

theorem exists_error_iff {x : Except ε α} :
    (∃ e, x = .error e) ↔ ¬ ∃ a, x = .ok a := by
  cases x <;> simp

theorem toOption_eq_some {x : Except ε α} {a : α} : x.toOption = some a ↔ x = .ok a := by
  cases x <;> simp [Except.toOption]

theorem pure_eq_ok {a b : α} : (pure a : Except ε α) = .ok b ↔ a = b := by
  simp [pure, Except.pure]

theorem stateBind_eq_ok {σ : Type} {x : StateT σ (Except ε) α} {f : α → StateT σ (Except ε) β}
    {s t : σ} {b : β} :
    (x >>= f) s = .ok (b, t) ↔ ∃ a u, x s = .ok (a, u) ∧ f a u = .ok (b, t) := by
  show ((x s) >>= fun p => f p.1 p.2) = .ok (b, t) ↔ _
  rw [bind_eq_ok]
  exact ⟨fun ⟨p, hx, hf⟩ => ⟨p.1, p.2, hx, hf⟩, fun ⟨a, u, hx, hf⟩ => ⟨(a, u), hx, hf⟩⟩

theorem stateBind_lift_of_ok {σ : Type} {x : Except ε α} {a : α} (hx : x = .ok a)
    (f : α → StateT σ (Except ε) β) (s : σ) :
    ((liftM x : StateT σ (Except ε) α) >>= f) s = f a s := by
  subst hx
  rfl

theorem stateBind_lift_eq_ok {σ : Type} {x : Except ε α} {f : α → StateT σ (Except ε) β}
    {s t : σ} {b : β} :
    ((liftM x : StateT σ (Except ε) α) >>= f) s = .ok (b, t) ↔
      ∃ a, x = .ok a ∧ f a s = .ok (b, t) := by
  constructor
  · intro h
    cases x with
    | ok a => exact ⟨a, rfl, h⟩
    | error e => cases h
  · rintro ⟨a, hx, hf⟩
    rwa [stateBind_lift_of_ok hx]

theorem mapM_eq_ok {f : α → Except ε β} {items : List α} {results : List β} :
    items.mapM f = .ok results ↔ List.Forall₂ (fun a b => f a = .ok b) items results := by
  induction items generalizing results with
  | nil =>
      rw [List.mapM_nil, pure_eq_ok, List.forall₂_nil_left_iff]
      exact eq_comm
  | cons a items ih =>
      rw [List.mapM_cons, bind_eq_ok]
      constructor
      · rintro ⟨b, hb, h⟩
        obtain ⟨rest, hrest, h⟩ := bind_eq_ok.mp h
        rw [← pure_eq_ok.mp h]
        exact List.Forall₂.cons hb (ih.mp hrest)
      · rintro (_ | ⟨hb, hrest⟩)
        exact ⟨_, hb, bind_eq_ok.mpr ⟨_, ih.mpr hrest, rfl⟩⟩

theorem exists_forall₂ {R : α → β → Prop} {as : List α} (h : ∀ a ∈ as, ∃ b, R a b) :
    ∃ bs, List.Forall₂ R as bs := by
  induction as with
  | nil => exact ⟨[], .nil⟩
  | cons a as ih =>
      obtain ⟨⟨b, hb⟩, hrest⟩ := List.forall_mem_cons.mp h
      obtain ⟨bs, hbs⟩ := ih hrest
      exact ⟨b :: bs, .cons hb hbs⟩

theorem exists_mapM_eq_ok {f : α → Except ε β} {items : List α}
    (h : ∀ a ∈ items, ∃ b, f a = .ok b) : ∃ results, items.mapM f = .ok results := by
  obtain ⟨results, hresults⟩ := exists_forall₂ h
  exact ⟨results, mapM_eq_ok.mpr hresults⟩

theorem mapM_id_eq_error {results : List (Except ε α)} {e : ε} :
    results.mapM id = .error e ↔
      ∃ k : Nat, results[k]? = some (.error e) ∧ ∀ j < k, ∃ a, results[j]? = some (.ok a) := by
  induction results with
  | nil => simp [pure, Except.pure]
  | cons result rest ih =>
      cases result with
      | error e' =>
          constructor
          · rintro ⟨⟩
            exact ⟨0, rfl, by simp⟩
          · rintro ⟨k, hk, hbefore⟩
            cases k with
            | zero =>
                cases hk
                rfl
            | succ k =>
                obtain ⟨a, ha⟩ := hbefore 0 (Nat.succ_pos k)
                cases ha
      | ok a =>
          have hrest : (Except.ok a :: rest).mapM id = .error e ↔ rest.mapM id = .error e := by
            rw [List.mapM_cons]
            change ((rest.mapM id : Except ε (List α)) >>= fun as => pure (a :: as)) = _ ↔ _
            cases (rest.mapM id : Except ε (List α)) with
            | error e' => exact Iff.rfl
            | ok as => constructor <;> rintro ⟨⟩
          rw [hrest, ih]
          constructor
          · rintro ⟨k, hk, hbefore⟩
            refine ⟨k + 1, hk, fun j hj => ?_⟩
            cases j with
            | zero => exact ⟨a, rfl⟩
            | succ j => exact hbefore j (Nat.lt_of_succ_lt_succ hj)
          · rintro ⟨k, hk, hbefore⟩
            cases k with
            | zero => cases hk
            | succ k => exact ⟨k, hk, fun j hj => hbefore (j + 1) (Nat.succ_lt_succ hj)⟩

/-- Two relations that give an argument one result, and leave one rest, wherever what is read off
their results begins alike. -/
def Decodes (R R' : α → β → Prop) (items : β → List γ) : Prop :=
  ∀ (a : α) (b b' : β) (rest rest' : List γ), R a b → R' a b' →
    items b ++ rest = items b' ++ rest' → b = b' ∧ rest = rest'

theorem Decodes.forall₂ {R R' : α → β → Prop} {items : β → List γ} (h : Decodes R R' items) :
    Decodes (List.Forall₂ R) (List.Forall₂ R') (List.flatMap items) := by
  intro as bs bs' rest rest' hbs hbs' heq
  induction hbs generalizing bs' with
  | nil =>
      cases hbs'
      exact ⟨rfl, heq⟩
  | cons hb _ ih =>
      cases hbs' with
      | cons hb' hrest' =>
          rw [List.flatMap_cons, List.flatMap_cons, List.append_assoc, List.append_assoc] at heq
          obtain ⟨rfl, htail⟩ := h _ _ _ _ _ hb hb' heq
          obtain ⟨rfl, rfl⟩ := ih _ hrest' htail
          exact ⟨rfl, rfl⟩

/-- Lists with one image are equal if what is read off them begins alike. -/
theorem eq_of_map_eq {f : α → β} {items : α → List γ}
    (h : ∀ {a a' : α} {rest rest' : List γ}, f a = f a' →
      items a ++ rest = items a' ++ rest' → a = a' ∧ rest = rest')
    {as as' : List α} {rest rest' : List γ} (hmap : as.map f = as'.map f)
    (heq : as.flatMap items ++ rest = as'.flatMap items ++ rest') : as = as' ∧ rest = rest' := by
  induction as generalizing as' with
  | nil =>
      cases as' with
      | nil => exact ⟨rfl, heq⟩
      | cons a' as' => cases hmap
  | cons a as ih =>
      cases as' with
      | nil => cases hmap
      | cons a' as' =>
          obtain ⟨ha, htail⟩ := List.cons.inj hmap
          rw [List.flatMap_cons, List.flatMap_cons, List.append_assoc, List.append_assoc] at heq
          obtain ⟨rfl, hrest⟩ := h ha heq
          obtain ⟨rfl, rfl⟩ := ih htail hrest
          exact ⟨rfl, rfl⟩

theorem flatMap_eq_of_forall₂ {R : α → β → Prop} {f : α → List γ} {g : β → List γ}
    (hfg : ∀ a b, R a b → g b = f a) {as : List α} {bs : List β} (h : List.Forall₂ R as bs) :
    bs.flatMap g = as.flatMap f := by
  induction h with
  | nil => rfl
  | cons hab _ ih => rw [List.flatMap_cons, List.flatMap_cons, hfg _ _ hab, ih]

theorem flatMap_of_key [DecidableEq β] {key : α → β} {items : List α}
    (hkeys : (items.map key).Nodup) (part : α → List γ) {a : α} (ha : a ∈ items) :
    items.flatMap (fun b => if key b = key a then part b else []) = part a := by
  induction items with
  | nil => cases ha
  | cons b rest ih =>
      rw [List.map_cons, List.nodup_cons] at hkeys
      rw [List.flatMap_cons]
      rcases List.mem_cons.mp ha with rfl | hrest
      · have hnone : rest.flatMap (fun b => if key b = key a then part b else []) = [] := by
          rw [List.flatMap_eq_nil_iff]
          exact fun b hb => if_neg fun hkey => hkeys.1 (List.mem_map.mpr ⟨b, hb, hkey⟩)
        rw [if_pos rfl, hnone, List.append_nil]
      · have hne : key b ≠ key a := fun hkey => hkeys.1 (List.mem_map.mpr ⟨a, hrest, hkey.symm⟩)
        rw [if_neg hne, ih hkeys.2 hrest, List.nil_append]

theorem forall_right_of_forall₂ {R : α → β → Prop} {as : List α} {bs : List β}
    (h : List.Forall₂ R as bs) : ∀ b ∈ bs, ∃ a ∈ as, R a b := by
  induction h with
  | nil => simp
  | cons hab _ ih =>
      refine List.forall_mem_cons.mpr ⟨⟨_, List.mem_cons_self, hab⟩, fun b hb => ?_⟩
      obtain ⟨a, ha, hr⟩ := ih b hb
      exact ⟨a, List.mem_cons_of_mem _ ha, hr⟩

theorem exists_getElem?_of_forall₂ {R : α → β → Prop} {as : List α} {bs : List β}
    (h : List.Forall₂ R as bs) {i : Nat} {a : α} (ha : as[i]? = some a) :
    ∃ b, bs[i]? = some b ∧ R a b := by
  induction h generalizing i with
  | nil => cases ha
  | cons hab _ ih =>
      cases i with
      | zero =>
          cases ha
          exact ⟨_, rfl, hab⟩
      | succ i => exact ih ha

theorem exists_mapM_eq_ok_iff {f : α → Except ε β} {items : List α} :
    (∃ results, items.mapM f = .ok results) ↔ ∀ a ∈ items, ∃ b, f a = .ok b := by
  refine ⟨?_, exists_mapM_eq_ok⟩
  rintro ⟨results, h⟩ a ha
  obtain ⟨i, hi⟩ := List.getElem?_of_mem ha
  obtain ⟨b, -, hb⟩ := exists_getElem?_of_forall₂ (mapM_eq_ok.mp h) hi
  exact ⟨b, hb⟩

theorem exists_mapM_of_forall₂ {f : α → Except ε β} {R : β → γ → Prop} {items : List α}
    {others : List γ} (h : List.Forall₂ (fun a c => ∃ b, f a = .ok b ∧ R b c) items others) :
    ∃ results, items.mapM f = .ok results ∧ List.Forall₂ R results others := by
  simp only [mapM_eq_ok]
  induction h with
  | nil => exact ⟨[], .nil, .nil⟩
  | cons hac _ ih =>
      obtain ⟨b, hb, hbc⟩ := hac
      obtain ⟨results, hresults, hothers⟩ := ih
      exact ⟨b :: results, .cons hb hresults, .cons hbc hothers⟩

theorem forall₂_trans {R : α → β → Prop} {S : β → γ → Prop} {T : α → γ → Prop}
    (hT : ∀ a b c, R a b → S b c → T a c) {as : List α} {bs : List β} {cs : List γ}
    (h : List.Forall₂ R as bs) (h' : List.Forall₂ S bs cs) : List.Forall₂ T as cs := by
  induction h generalizing cs with
  | nil => exact List.forall₂_nil_left_iff.mp h' ▸ List.Forall₂.nil
  | cons hab _ ih =>
      rcases h' with _ | ⟨hbc, hrest⟩
      exact List.Forall₂.cons (hT _ _ _ hab hbc) (ih hrest)

end RelScript
