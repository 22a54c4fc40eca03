import Mathlib.Data.List.Infix
import Mathlib.Data.List.ModifyLast
import RelScript.Text.Blank

/-!
Pieces and lines of a text. Pieces without the separator that are written with separators between
them are the pieces of what was written. Lines that are written with a line feed after each of them
are the lines of what was written, up to the carriage return that a line may end in.
-/

namespace RelScript.Text

section Pieces

variable {sep : Char}

theorem pieces_eq_splitOn (sep : Char) (text : List Char) : pieces sep text = text.splitOn sep := by
  induction text with
  | nil => rfl
  | cons c rest ih =>
      rw [pieces, ih, List.splitOn_cons_eq_if_modifyHead]
      by_cases hc : c = sep
      · rw [if_pos hc, if_pos (beq_iff_eq.mpr hc)]
      · rw [if_neg hc, if_neg (by simpa using hc)]
        cases hpieces : rest.splitOn sep with
        | nil => exact absurd hpieces (List.splitOn_ne_nil sep rest)
        | cons piece others => rfl

theorem pieces_ne_nil (sep : Char) (text : List Char) : pieces sep text ≠ [] := by
  rw [pieces_eq_splitOn]
  exact List.splitOn_ne_nil sep text

theorem intercalate_pieces (sep : Char) (text : List Char) :
    [sep].intercalate (pieces sep text) = text := by
  rw [pieces_eq_splitOn, List.intercalate_splitOn]

theorem pieces_intercalate {ps : List (List Char)} (hne : ps ≠ []) (hsep : ∀ p ∈ ps, sep ∉ p) :
    pieces sep ([sep].intercalate ps) = ps := by
  rw [pieces_eq_splitOn, List.splitOn_intercalate sep hsep hne]

theorem pieces_append {p : List Char} (hp : sep ∉ p) (rest : List Char) :
    pieces sep (p ++ sep :: rest) = p :: pieces sep rest := by
  rw [pieces_eq_splitOn, pieces_eq_splitOn, List.splitOn_append_cons_self_of_not_mem hp]

theorem of_mem_pieces {text p : List Char} (hp : p ∈ pieces sep text) :
    sep ∉ p ∧ ∀ c ∈ p, c ∈ text := by
  induction text generalizing p with
  | nil =>
      obtain rfl := List.mem_singleton.mp hp
      simp
  | cons c rest ih =>
      rw [pieces] at hp
      split at hp
      · rcases List.mem_cons.mp hp with rfl | hp
        · simp
        · obtain ⟨hsep, hmem⟩ := ih hp
          exact ⟨hsep, fun d hd => List.mem_cons_of_mem _ (hmem d hd)⟩
      · rename_i hc
        cases hpieces : pieces sep rest with
        | nil => exact absurd hpieces (pieces_ne_nil sep rest)
        | cons piece others =>
            rw [hpieces] at hp ih
            rcases List.mem_cons.mp hp with rfl | hp
            · obtain ⟨hsep, hmem⟩ := ih List.mem_cons_self
              refine ⟨fun hmem => ?_, fun d hd => ?_⟩
              · rcases List.mem_cons.mp hmem with h | h
                · exact hc h.symm
                · exact hsep h
              · rcases List.mem_cons.mp hd with rfl | hd
                · exact List.mem_cons_self
                · exact List.mem_cons_of_mem _ (hmem d hd)
            · obtain ⟨hsep, hmem⟩ := ih (List.mem_cons_of_mem _ hp)
              exact ⟨hsep, fun d hd => List.mem_cons_of_mem _ (hmem d hd)⟩

theorem all_intercalate {f : Char → Bool} (hsep : f sep = true) (ps : List (List Char)) :
    ([sep].intercalate ps).all f = ps.all (·.all f) := by
  induction ps with
  | nil => rfl
  | cons p rest ih =>
      cases rest with
      | nil => simp
      | cons q rest =>
          rw [List.intercalate_cons_cons, List.all_append, List.all_append, ih, List.all_cons,
            List.all_cons, List.all_nil, hsep]
          simp

end Pieces

section Returns

theorem dropReturn_append (a : List Char) {b : List Char} (hb : b ≠ []) :
    dropReturn (a ++ b) = a ++ dropReturn b := by
  unfold dropReturn
  rw [List.getLast?_append_of_ne_nil a hb]
  split
  · exact List.dropLast_append_of_ne_nil hb
  · rfl

theorem dropReturn_cons {c : Char} (hc : c ≠ '\r') (text : List Char) :
    dropReturn (c :: text) = c :: dropReturn text := by
  cases text with
  | nil => exact if_neg (by simpa using hc)
  | cons d rest => exact dropReturn_append [c] (List.cons_ne_nil d rest)

theorem mem_of_mem_dropReturn {text : List Char} {c : Char} (hc : c ∈ dropReturn text) :
    c ∈ text := by
  unfold dropReturn at hc
  split at hc
  · exact List.mem_of_mem_dropLast hc
  · exact hc

theorem dropReturn_eq_self_iff {text : List Char} :
    dropReturn text = text ↔ text.getLast? ≠ some '\r' := by
  unfold dropReturn
  split
  · rename_i h
    have hne : text ≠ [] := by
      rintro rfl
      cases h
    refine iff_of_false (fun hsame => ?_) (not_not.mpr h)
    have hlength := congrArg List.length hsame
    rw [List.length_dropLast] at hlength
    have hpos := List.length_pos_iff.mpr hne
    omega
  · rename_i h
    exact iff_of_true rfl h

theorem all_isBlank_dropReturn (text : List Char) :
    (dropReturn text).all isBlank = text.all isBlank := by
  unfold dropReturn
  split
  · rename_i h
    obtain ⟨init, rfl⟩ := List.getLast?_eq_some_iff.mp h
    rw [List.dropLast_concat, List.all_append]
    exact (Bool.and_true _).symm
  · rfl

theorem dropReturn_intercalate {sep : Char} (hsep : sep ≠ '\r') {ps : List (List Char)}
    (hne : ps ≠ []) :
    dropReturn ([sep].intercalate ps) = [sep].intercalate (ps.modifyLast dropReturn) := by
  obtain ⟨init, last, rfl⟩ := List.eq_nil_or_concat ps |>.resolve_left hne
  rw [List.concat_eq_append, List.modifyLast_concat]
  induction init with
  | nil => simp
  | cons p init ih =>
      obtain ⟨q, rest, hqr⟩ := List.exists_cons_of_ne_nil
        (List.append_ne_nil_of_right_ne_nil init (List.cons_ne_nil last []))
      obtain ⟨q', rest', hqr'⟩ := List.exists_cons_of_ne_nil
        (List.append_ne_nil_of_right_ne_nil init (List.cons_ne_nil (dropReturn last) []))
      have hih := ih (by simp)
      rw [List.cons_append, List.cons_append, hqr, hqr', List.intercalate_cons_cons,
        List.intercalate_cons_cons, List.append_assoc, List.append_assoc,
        dropReturn_append p (by simp), List.singleton_append, List.singleton_append,
        dropReturn_cons hsep, ← hqr, ← hqr', hih]

end Returns

section Lines

theorem newline_notMem_of_mem_lines {text line : List Char} (h : line ∈ lines text) :
    '\n' ∉ line := by
  rcases List.mem_append.mp h with h | h
  · obtain ⟨piece, hpiece, rfl⟩ := List.mem_map.mp h
    have hmem := List.mem_of_mem_dropLast hpiece
    exact fun hnewline => (of_mem_pieces hmem).1 (mem_of_mem_dropReturn hnewline)
  · have hlast := Option.mem_toList.mp (List.mem_filter.mp h).1
    exact (of_mem_pieces (List.mem_of_getLast? hlast)).1

theorem pieces_terminated {ls : List (List Char)} (h : ∀ line ∈ ls, '\n' ∉ line) :
    pieces '\n' (ls.flatMap (· ++ ['\n'])) = ls ++ [[]] := by
  induction ls with
  | nil => rfl
  | cons line ls ih =>
      obtain ⟨hline, hrest⟩ := List.forall_mem_cons.mp h
      rw [List.flatMap_cons, List.append_assoc, List.singleton_append, pieces_append hline,
        ih hrest, List.cons_append]

/-- Lines with a line feed after each of them are read as these lines, without a carriage return
before the line feed. -/
theorem lines_terminated {ls : List (List Char)} (h : ∀ line ∈ ls, '\n' ∉ line) :
    lines (ls.flatMap (· ++ ['\n'])) = ls.map dropReturn := by
  rw [lines, pieces_terminated h, List.dropLast_concat, List.getLast?_concat]
  simp

end Lines

end RelScript.Text
