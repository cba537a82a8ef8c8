import Coroscript.Proofs.Cpp.Quotes
import Mathlib.Data.List.Induction

namespace Coroscript.Cpp

/-! Indentation by any margin, and its removal. -/

def indentLineBy (margin : List Char) : List Char → List Char
  | [] => []
  | line => margin ++ line

def indentBy (margin : List Char) (text : String) : String :=
  .ofList <| List.intercalate ['\n'] <|
    (splitLines text.toList).map fun line => indentLineBy margin (chompLine line)

theorem indentBy_indentation : indentBy indentation = indent := by
  have hline : indentLineBy indentation = indentLine := by
    funext line
    cases line with
    | nil => rfl
    | cons c line => rfl
  funext text
  rw [indentBy, hline, indent]

/-- Puts `margin` before every line that is not empty. The first line counts only if the text
begins one. -/
def shift (margin : List Char) : Bool → List Char → List Char
  | _, [] => []
  | start, c :: rest =>
      (if start = true ∧ c ≠ '\n' then margin else []) ++ c :: shift margin (c == '\n') rest

theorem shift_cons (margin : List Char) (start : Bool) (c : Char) (rest : List Char) :
    shift margin start (c :: rest) =
      (if start = true ∧ c ≠ '\n' then margin else []) ++ c :: shift margin (c == '\n') rest :=
  rfl

section Shift

variable {margin line : List Char}

theorem shift_line (hline : '\n' ∉ line) : shift margin false line = line := by
  induction line with
  | nil => rfl
  | cons c line ih =>
      rw [List.mem_cons, not_or] at hline
      have hc : (c == '\n') = false := beq_eq_false_iff_ne.2 (Ne.symm hline.1)
      rw [shift_cons, hc, ih hline.2, if_neg (by simp), List.nil_append]

theorem shift_append (hline : '\n' ∉ line) (start : Bool) (rest : List Char) :
    shift margin start (line ++ '\n' :: rest) =
      shift margin start line ++ '\n' :: shift margin true rest := by
  induction line generalizing start with
  | nil => rw [List.nil_append, shift_cons, if_neg (by simp)]; rfl
  | cons c line ih =>
      rw [List.mem_cons, not_or] at hline
      rw [List.cons_append, shift_cons, ih hline.2, shift_cons, List.append_assoc,
        List.cons_append]

theorem shift_true (hline : '\n' ∉ line) : shift margin true line = indentLineBy margin line := by
  cases line with
  | nil => rfl
  | cons c line =>
      rw [List.mem_cons, not_or] at hline
      have hc : (c == '\n') = false := beq_eq_false_iff_ne.2 (Ne.symm hline.1)
      rw [shift_cons, hc, shift_line hline.2, if_pos ⟨rfl, Ne.symm hline.1⟩]
      rfl

theorem shift_nil (start : Bool) (text : List Char) : shift [] start text = text := by
  induction text generalizing start with
  | nil => rfl
  | cons c text ih => rw [shift_cons, ih, ite_self, List.nil_append]

theorem mem_of_mem_shift {c : Char} {start : Bool} {text : List Char}
    (hc : c ∈ shift margin start text) : c ∈ margin ∨ c ∈ text := by
  induction text generalizing start with
  | nil => exact .inr hc
  | cons d text ih =>
      rw [shift_cons, List.mem_append, List.mem_cons] at hc
      rcases hc with hc | rfl | hc
      · split at hc
        · exact .inl hc
        · contradiction
      · exact .inr List.mem_cons_self
      · exact (ih hc).imp_right (List.mem_cons_of_mem d)

end Shift

theorem chompLine_ended {line : List Char} (hreturn : '\r' ∉ line) :
    chompLine (line ++ ['\n']) = line := by
  obtain ⟨tail, heq, htail⟩ := chompLine_append line
  cases tail with
  | nil => exact ((List.append_nil _).symm.trans heq.symm)
  | cons c tail =>
      have hc := htail c List.mem_cons_self
      exact absurd (heq ▸ List.mem_append_right _ (hc ▸ List.mem_cons_self)) hreturn

theorem splitLines_ne_nil {text : List Char} (htext : text ≠ []) : splitLines text ≠ [] := by
  intro hnil
  have hflatten := flatten_splitLines text
  rw [hnil] at hflatten
  exact htext hflatten.symm

/-- A text is cut at its first newline. -/
theorem line_cases (text : List Char) :
    '\n' ∉ text ∨ ∃ line rest, text = line ++ '\n' :: rest ∧ '\n' ∉ line := by
  by_cases hmem : '\n' ∈ text
  · obtain ⟨line, rest, heq, hline⟩ := List.eq_append_cons_of_mem hmem
    exact .inr ⟨line, rest, heq, hline⟩
  · exact .inl hmem

theorem getLast?_behind (line : List Char) (c : Char) {rest : List Char} (hrest : rest ≠ []) :
    (line ++ c :: rest).getLast? = rest.getLast? := by
  obtain ⟨d, others, rfl⟩ := List.exists_cons_of_ne_nil hrest
  rw [List.getLast?_append, List.getLast?_cons_cons, List.getLast?_cons]
  rfl

theorem indented_eq_shift (margin : List Char) {text : List Char} (hreturn : '\r' ∉ text)
    (hend : text.getLast? ≠ some '\n') :
    List.intercalate ['\n'] ((splitLines text).map fun line =>
      indentLineBy margin (chompLine line)) = shift margin true text := by
  induction hlength : text.length using Nat.strong_induction_on generalizing text with
  | h length ih =>
      rcases line_cases text with hline | ⟨line, rest, rfl, hline⟩
      · cases text with
        | nil => rfl
        | cons c line =>
            rw [splitLines_single hline, List.map_singleton, List.intercalate_singleton,
              chompLine_of_not_mem hline, shift_true hline]
      · rw [List.mem_append, List.mem_cons, not_or, not_or] at hreturn
        have hrest : rest ≠ [] := by
          rintro rfl
          exact hend (by simp)
        rw [getLast?_behind line '\n' hrest] at hend
        have hindented := ih rest.length (by simp [← hlength]; omega) hreturn.2.2 hend rfl
        obtain ⟨next, lines, hlines⟩ := List.exists_cons_of_ne_nil (splitLines_ne_nil hrest)
        rw [hlines, List.map_cons] at hindented
        rw [splitLines_append hline, hlines, List.map_cons, List.map_cons,
          List.intercalate_cons_cons, hindented, chompLine_ended hreturn.1, shift_append hline,
          shift_true hline]
        simp

/-- Takes the spaces at the start of every line away. -/
def unindent : Bool → List Char → List Char
  | _, [] => []
  | start, c :: rest =>
      if start = true ∧ c = ' ' then unindent true rest else c :: unindent (c == '\n') rest

/-- Whether what follows a text is at the start of a line, spaces apart. -/
def lineAfter : Bool → List Char → Bool
  | start, [] => start
  | start, c :: rest => lineAfter (c == '\n' || start && c == ' ') rest

theorem unindent_cons (start : Bool) (c : Char) (rest : List Char) :
    unindent start (c :: rest) =
      if start = true ∧ c = ' ' then unindent true rest else c :: unindent (c == '\n') rest :=
  rfl

theorem lineAfter_cons (start : Bool) (c : Char) (rest : List Char) :
    lineAfter start (c :: rest) = lineAfter (c == '\n' || start && c == ' ') rest :=
  rfl

section Unindent

variable {start : Bool} {text : List Char}

theorem unindent_append (start : Bool) (left right : List Char) :
    unindent start (left ++ right) =
      unindent start left ++ unindent (lineAfter start left) right := by
  induction left generalizing start with
  | nil => rfl
  | cons c left ih =>
      rw [List.cons_append, unindent_cons, unindent_cons, lineAfter_cons]
      by_cases hspace : start = true ∧ c = ' '
      · obtain ⟨rfl, rfl⟩ := hspace
        exact ih true
      · have hstart : (start && c == ' ') = false := by
          rw [Bool.and_eq_false_iff, beq_eq_false_iff_ne, ← Bool.not_eq_true]
          exact not_and_or.1 hspace
        rw [if_neg hspace, if_neg hspace, ih, hstart, Bool.or_false, List.cons_append]

theorem lineAfter_append (start : Bool) (left right : List Char) :
    lineAfter start (left ++ right) = lineAfter (lineAfter start left) right := by
  induction left generalizing start with
  | nil => rfl
  | cons c left ih => exact ih _

/-- A text that begins with no space and stays within a line is as it is. -/
theorem unindent_line (hline : '\n' ∉ text) (hspace : start = true → text.head? ≠ some ' ') :
    unindent start text = text := by
  induction text generalizing start with
  | nil => rfl
  | cons c text ih =>
      rw [List.mem_cons, not_or] at hline
      have hc : (c == '\n') = false := beq_eq_false_iff_ne.2 (Ne.symm hline.1)
      rw [unindent_cons, if_neg, hc, ih hline.2 (by simp)]
      rintro ⟨hstart, rfl⟩
      exact hspace hstart rfl

theorem lineAfter_line (hline : '\n' ∉ text) (hne : text ≠ [])
    (hspace : start = true → text.head? ≠ some ' ') : lineAfter start text = false := by
  induction text generalizing start with
  | nil => contradiction
  | cons c text ih =>
      rw [List.mem_cons, not_or] at hline
      have hc : (c == '\n' || start && c == ' ') = false := by
        cases start with
        | false => simpa using Ne.symm hline.1
        | true => simpa using ⟨Ne.symm hline.1, fun heq => hspace rfl (by simp [heq])⟩
      rw [lineAfter_cons, hc]
      cases text with
      | nil => rfl
      | cons d text => exact ih hline.2 (List.cons_ne_nil d text) (by simp)

theorem getLast?_of_lineAfter (hafter : lineAfter start text = false) :
    text.getLast? ≠ some '\n' := by
  cases text using List.reverseRecOn with
  | nil => simp
  | append_singleton text c =>
      rw [lineAfter_append] at hafter
      rw [List.getLast?_concat]
      rintro ⟨⟩
      contradiction

theorem lineAfter_of_getLast? (hlast : (unindent start text).getLast? = some '\n') :
    lineAfter start text = true := by
  cases text using List.reverseRecOn with
  | nil => contradiction
  | append_singleton text c =>
      rw [unindent_append, unindent_cons] at hlast
      rw [lineAfter_append, lineAfter_cons]
      change (c == '\n' || lineAfter start text && c == ' ') = true
      split at hlast
      · rename_i hspace
        simp [hspace]
      · change (unindent start text ++ [c]).getLast? = some '\n' at hlast
        rw [List.getLast?_concat] at hlast
        cases hlast
        rfl

theorem mem_of_mem_unindent {c : Char} (hc : c ∈ unindent start text) : c ∈ text := by
  induction text generalizing start with
  | nil => exact hc
  | cons d text ih =>
      rw [unindent_cons] at hc
      split at hc
      · exact List.mem_cons_of_mem d (ih hc)
      · rcases List.mem_cons.1 hc with rfl | hc
        · exact List.mem_cons_self
        · exact List.mem_cons_of_mem d (ih hc)

end Unindent

theorem unindent_spaces {margin : List Char} (hmargin : ∀ c ∈ margin, c = ' ') (rest : List Char) :
    unindent true (margin ++ rest) = unindent true rest ∧
      lineAfter true (margin ++ rest) = lineAfter true rest := by
  induction margin with
  | nil => exact ⟨rfl, rfl⟩
  | cons c margin ih =>
      rw [List.forall_mem_cons] at hmargin
      obtain ⟨rfl, hmargin⟩ := hmargin
      rw [List.cons_append, unindent_cons, if_pos ⟨rfl, rfl⟩, lineAfter_cons]
      exact ih hmargin

/-- What indentation puts before lines is taken away again. -/
theorem unindent_shift {margin : List Char} (hmargin : ∀ c ∈ margin, c = ' ') {start shifted : Bool}
    (hstart : shifted = true → start = true) (text : List Char) :
    unindent start (shift margin shifted text) = unindent start text ∧
      lineAfter start (shift margin shifted text) = lineAfter start text := by
  induction text generalizing start shifted with
  | nil => exact ⟨rfl, rfl⟩
  | cons c text ih =>
      have hstep : ∀ start : Bool,
          unindent start (c :: shift margin (c == '\n') text) = unindent start (c :: text) ∧
            lineAfter start (c :: shift margin (c == '\n') text) =
              lineAfter start (c :: text) := by
        intro start
        simp only [unindent_cons, lineAfter_cons]
        refine ⟨?_, (ih (by simp +contextual)).2⟩
        by_cases hspace : start = true ∧ c = ' '
        · rw [if_pos hspace, if_pos hspace, (ih fun _ => rfl).1]
        · rw [if_neg hspace, if_neg hspace, (ih fun h => h).1]
      rw [shift_cons]
      split
      · rename_i hshifted
        rw [hstart hshifted.1, (unindent_spaces hmargin _).1, (unindent_spaces hmargin _).2]
        exact hstep true
      · exact hstep start

theorem unindent_ended {line : List Char} (hline : '\n' ∉ line) (rest : List Char) :
    unindent true (line ++ '\n' :: rest) =
      line.dropWhile (· == ' ') ++ '\n' :: unindent true rest := by
  induction line with
  | nil => rw [List.nil_append, unindent_cons, if_neg (by simp)]; rfl
  | cons c line ih =>
      by_cases hc : c = ' '
      · rw [List.mem_cons, not_or] at hline
        rw [List.cons_append, unindent_cons, if_pos ⟨rfl, hc⟩, ih hline.2,
          List.dropWhile_cons_of_pos (by simpa using hc)]
      · rw [unindent_append, unindent_line hline (by simpa using hc),
          lineAfter_line hline (List.cons_ne_nil c line) (by simpa using hc), unindent_cons,
          if_neg (by simp), List.dropWhile_cons_of_neg (by simpa using hc)]
        rfl

/-- Line by line, only the spaces before a line are taken away. -/
theorem splitLines_unindent {text : List Char} (hend : text = [] ∨ text.getLast? = some '\n') :
    (splitLines text).map (List.dropWhile (· == ' ')) = splitLines (unindent true text) := by
  induction hlength : text.length using Nat.strong_induction_on generalizing text with
  | h length ih =>
      rcases line_cases text with hline | ⟨line, rest, rfl, hline⟩
      · rcases hend with rfl | hend
        · rfl
        · exact absurd (List.mem_of_getLast? hend) hline
      · have hdropped : '\n' ∉ line.dropWhile (· == ' ') :=
          fun hmem => hline ((List.dropWhile_sublist _).mem hmem)
        have hended : (line ++ ['\n']).dropWhile (· == ' ') =
            line.dropWhile (· == ' ') ++ ['\n'] := by
          rw [List.dropWhile_append]
          split
          · rename_i hempty
            rw [List.isEmpty_iff.1 hempty]
            rfl
          · rfl
        have hrest : rest = [] ∨ rest.getLast? = some '\n' := by
          by_cases hrest : rest = []
          · exact .inl hrest
          · rw [getLast?_behind line '\n' hrest] at hend
            exact .inr (hend.resolve_left (by simp))
        rw [splitLines_append hline, List.map_cons, hended,
          ih rest.length (by simp [← hlength]; omega) hrest rfl, unindent_ended hline,
          splitLines_append hdropped]

end Coroscript.Cpp
