import Coroscript.Cpp.Layout
import Coroscript.Proofs.Cpp.Denotation

namespace Coroscript.Cpp

/-! The string literals of a text. -/

/-- How far a text has been read: the texts between the quotes of the literals that are
closed, and of the one that is open, with whether its next character is escaped. -/
structure Quoting where
  found : List (List Char)
  open? : Option (List Char × Bool)

namespace Quoting

/-- A literal that is open at the end of a line is never closed. -/
def step (state : Quoting) (c : Char) : Option Quoting :=
  match state.open? with
  | none => some (if c = '"' then ⟨state.found, some ([], false)⟩ else state)
  | some (text, escaped) =>
      if c = '\n' then none
      else if c = '"' ∧ escaped = false then some ⟨state.found ++ [text], none⟩
      else some ⟨state.found, some (text ++ [c], c == '\\' && !escaped)⟩

def run (text : List Char) (state : Quoting) : Option Quoting :=
  text.foldlM step state

theorem run_nil (state : Quoting) : run [] state = some state :=
  rfl

theorem run_cons (c : Char) (text : List Char) (state : Quoting) :
    run (c :: text) state = (state.step c).bind (run text) :=
  List.foldlM_cons

theorem run_append (left right : List Char) (state : Quoting) :
    run (left ++ right) state = (run left state).bind (run right) :=
  List.foldlM_append

theorem run_plain {text : List Char} (htext : '"' ∉ text) (found : List (List Char)) :
    run text ⟨found, none⟩ = some ⟨found, none⟩ := by
  induction text with
  | nil => rfl
  | cons c text ih =>
      have hc : c ≠ '"' := fun heq => htext (heq ▸ List.mem_cons_self)
      rw [run_cons, step]
      simp only [if_neg hc, Option.bind_some]
      exact ih fun hmem => htext (List.mem_cons_of_mem c hmem)

theorem eq_of_step {state after : Quoting} {c : Char} (hstep : state.step c = some after)
    (hc : c ≠ '"') (hafter : after.open? = none) : state = after := by
  unfold step at hstep
  split at hstep
  · rw [if_neg hc] at hstep
    exact Option.some.inj hstep
  · split at hstep
    · contradiction
    · rw [if_neg fun hquote => hc hquote.1] at hstep
      cases hstep
      contradiction

theorem eq_of_run {text : List Char} {state : Quoting} {found : List (List Char)}
    (htext : '"' ∉ text) (hrun : run text state = some ⟨found, none⟩) : state = ⟨found, none⟩ := by
  induction text generalizing state with
  | nil => exact Option.some.inj hrun
  | cons c text ih =>
      have hc : c ≠ '"' := fun heq => htext (heq ▸ List.mem_cons_self)
      rw [run_cons] at hrun
      obtain ⟨middle, hstep, hrest⟩ := Option.bind_eq_some_iff.1 hrun
      have hmiddle := ih (fun hmem => htext (List.mem_cons_of_mem c hmem)) hrest
      subst hmiddle
      exact eq_of_step hstep hc rfl

/-- A line is read without what follows it, since it ends outside of all literals. -/
theorem run_line {line rest : List Char} {state after : Quoting}
    (hrun : run (line ++ '\n' :: rest) state = some after) :
    ∃ found, run line state = some ⟨found, none⟩ ∧ run rest ⟨found, none⟩ = some after := by
  rw [run_append] at hrun
  obtain ⟨⟨found, open?⟩, hline, hrest⟩ := Option.bind_eq_some_iff.1 hrun
  cases open? with
  | none =>
      refine ⟨found, hline, ?_⟩
      rwa [run_cons, step] at hrest
  | some part =>
      rw [run_cons, step] at hrest
      contradiction

end Quoting

/-- The texts between the quotes of the literals in a text, if all of them are closed. -/
def literals? (text : List Char) : Option (List (List Char)) :=
  (Quoting.run text ⟨[], none⟩).bind fun state =>
    if state.open?.isNone then some state.found else none

/-- Wherever no literal is open, `text` brings the literals `inner` and leaves none open. -/
def Encloses (text : List Char) (inner : List (List Char)) : Prop :=
  ∀ found, Quoting.run text ⟨found, none⟩ = some ⟨found ++ inner, none⟩

namespace Encloses

variable {text more : List Char} {inner others : List (List Char)}

theorem literals? (htext : Encloses text inner) : literals? text = some inner := by
  rw [Cpp.literals?, htext []]
  rfl

theorem plain (htext : '"' ∉ text) : Encloses text [] := by
  intro found
  rw [Quoting.run_plain htext, List.append_nil]

theorem append (htext : Encloses text inner) (hmore : Encloses more others) :
    Encloses (text ++ more) (inner ++ others) := by
  intro found
  rw [Quoting.run_append, htext, Option.bind_some, hmore, List.append_assoc]

/-- A text between quotes is one literal if no quote in it is left unescaped. -/
theorem quoted (hline : '\n' ∉ text) (hends : escapesNext text = false)
    (hquotes : ∀ left right, text = left ++ '"' :: right → escapesNext left = true) :
    Encloses ('"' :: text ++ ['"']) [text] := by
  intro found
  -- The literal is open, and what has been read of it tells what is escaped.
  have hopen : ∀ before after : List Char, before ++ after = text →
      Quoting.run after ⟨found, some (before, escapesNext before)⟩ =
        some ⟨found, some (text, false)⟩ := by
    intro before after htext
    induction after generalizing before with
    | nil =>
        rw [List.append_nil] at htext
        rw [htext, hends, Quoting.run_nil]
    | cons c after ih =>
        have hc : c ≠ '\n' := by
          rintro rfl
          exact hline (htext ▸ List.mem_append_right _ List.mem_cons_self)
        have hquote : ¬ (c = '"' ∧ escapesNext before = false) := by
          rintro ⟨rfl, hescapes⟩
          rw [hquotes before after htext.symm] at hescapes
          contradiction
        have hnext : escapesNext (before ++ [c]) = (c == '\\' && !escapesNext before) := by
          simp [escapesNext]
        rw [Quoting.run_cons, Quoting.step]
        simp only [if_neg hc, if_neg hquote, Option.bind_some, ← hnext]
        exact ih (before ++ [c]) (by rw [List.append_assoc]; exact htext)
  rw [List.cons_append, Quoting.run_cons, Quoting.step]
  simp only [if_true, Option.bind_some]
  have hwhole : Quoting.run text ⟨found, some ([], false)⟩ = some ⟨found, some (text, false)⟩ :=
    hopen [] text rfl
  rw [Quoting.run_append, hwhole]
  rfl

end Encloses

theorem encloses_stringLiteral (bytes : List UInt8) :
    Encloses (stringLiteral bytes).toList [bytes.flatMap literalByte] := by
  rw [stringLiteral, String.toList_ofList]
  refine .quoted ?_ ?_ fun left right => escapesNext_of_flatMap_eq
  · intro hline
    obtain ⟨byte, -, hbyte⟩ := List.mem_flatMap.1 hline
    exact absurd (isPrintable_of_mem_literalByte hbyte) (by decide)
  · exact escapesNext_flatMap_literalByte bytes

/-! Indentation keeps the literals of a text. -/

theorem splitLines_append {line : List Char} (hline : '\n' ∉ line) (rest : List Char) :
    splitLines (line ++ '\n' :: rest) = (line ++ ['\n']) :: splitLines rest := by
  induction line with
  | nil => rfl
  | cons c line ih =>
      have hc : c ≠ '\n' := fun heq => hline (heq ▸ List.mem_cons_self)
      have hrest := ih fun hmem => hline (List.mem_cons_of_mem c hmem)
      rw [List.cons_append, splitLines, if_neg hc, hrest]
      rfl

theorem splitLines_single {c : Char} {line : List Char} (hline : '\n' ∉ c :: line) :
    splitLines (c :: line) = [c :: line] := by
  induction line generalizing c with
  | nil =>
      have hc : c ≠ '\n' := fun heq => hline (heq ▸ List.mem_cons_self)
      rw [splitLines, if_neg hc]
      rfl
  | cons d line ih =>
      have hc : c ≠ '\n' := fun heq => hline (heq ▸ List.mem_cons_self)
      rw [splitLines, if_neg hc, ih fun hmem => hline (List.mem_cons_of_mem c hmem)]

theorem chompLine_of_not_mem {line : List Char} (hline : '\n' ∉ line) : chompLine line = line := by
  unfold chompLine
  split
  · rename_i hreverse
    exact absurd (List.mem_reverse.1 (hreverse ▸ List.mem_cons_self)) hline
  · rename_i hreverse
    exact absurd (List.mem_reverse.1 (hreverse ▸ List.mem_cons_self)) hline
  · rfl

theorem chompLine_append (line : List Char) :
    ∃ tail, line = chompLine (line ++ ['\n']) ++ tail ∧ ∀ c ∈ tail, c = '\r' := by
  unfold chompLine
  rw [List.reverse_append]
  cases hreverse : line.reverse with
  | nil =>
      rw [List.reverse_eq_nil_iff.1 hreverse]
      exact ⟨[], rfl, by simp⟩
  | cons c rest =>
      rw [List.reverse_eq_cons_iff.1 hreverse]
      by_cases hc : c = '\r'
      · subst hc
        exact ⟨['\r'], rfl, by simp⟩
      · refine ⟨[], ?_, by simp⟩
        simp [hc]

theorem run_indentLine (line : List Char) (found : List (List Char)) :
    Quoting.run (indentLine line) ⟨found, none⟩ = Quoting.run line ⟨found, none⟩ := by
  cases line with
  | nil => rfl
  | cons c line =>
      rw [indentLine, Quoting.run_append, Quoting.run_plain (by decide), Option.bind_some]
      exact List.cons_ne_nil c line

theorem run_chompLine {line : List Char} {found after : List (List Char)}
    (hline : Quoting.run line ⟨found, none⟩ = some ⟨after, none⟩) :
    Quoting.run (chompLine (line ++ ['\n'])) ⟨found, none⟩ = some ⟨after, none⟩ := by
  obtain ⟨tail, heq, htail⟩ := chompLine_append line
  rw [heq, Quoting.run_append] at hline
  obtain ⟨middle, hchomped, hrest⟩ := Option.bind_eq_some_iff.1 hline
  have hquote : '"' ∉ tail := fun hmem => absurd (htail _ hmem) (by decide)
  rw [hchomped, Quoting.eq_of_run hquote hrest]

theorem run_indented {found after : List (List Char)} :
    ∀ text : List Char, Quoting.run text ⟨found, none⟩ = some ⟨after, none⟩ →
      Quoting.run (List.intercalate ['\n'] ((splitLines text).map fun line =>
        indentLine (chompLine line))) ⟨found, none⟩ = some ⟨after, none⟩ := by
  intro text
  -- The text is cut at its first newline; the rest is shorter.
  induction hlength : text.length using Nat.strong_induction_on generalizing text found with
  | h length ih =>
      intro hrun
      by_cases hmem : '\n' ∈ text
      · obtain ⟨line, rest, rfl, hline⟩ := List.eq_append_cons_of_mem hmem
        obtain ⟨middle, hleft, hright⟩ := Quoting.run_line hrun
        have hindented := ih rest.length (by simp [← hlength]; omega) rest rfl hright
        have hfirst : Quoting.run (indentLine (chompLine (line ++ ['\n']))) ⟨found, none⟩ =
            some ⟨middle, none⟩ := by
          rw [run_indentLine, run_chompLine hleft]
        rw [splitLines_append hline, List.map_cons]
        cases hlines : splitLines rest with
        | nil =>
            rw [hlines] at hindented
            rw [List.map_nil, List.intercalate_singleton, hfirst]
            exact hindented
        | cons next lines =>
            rw [hlines] at hindented
            rw [List.map_cons, List.intercalate_cons_cons, List.append_assoc, Quoting.run_append,
              hfirst, Option.bind_some, Quoting.run_append, Quoting.run_plain (by decide),
              Option.bind_some]
            exact hindented
      · cases text with
        | nil => exact hrun
        | cons c line =>
            rw [splitLines_single hmem, List.map_singleton, List.intercalate_singleton,
              chompLine_of_not_mem hmem, run_indentLine]
            exact hrun

theorem Encloses.indent {text : String} {inner : List (List Char)}
    (htext : Encloses text.toList inner) : Encloses (Cpp.indent text).toList inner := by
  intro found
  rw [Cpp.indent, String.toList_ofList]
  exact run_indented text.toList (htext found)

end Coroscript.Cpp
