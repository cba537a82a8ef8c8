import Coroscript.Proofs.Compile.Balance
import Mathlib.Data.List.Infix

namespace Coroscript

/-! The one entry point of a program, and where its head is in the text. -/

open Cpp

namespace Stmt

theorem exists_of_isEntryPoint {tree : Stmt} (htree : tree.isEntryPoint = true) :
    ∃ parameters body bodySpan span, tree = .entryPoint parameters body bodySpan span := by
  cases tree with
  | entryPoint parameters body bodySpan span => exact ⟨parameters, body, bodySpan, span, rfl⟩
  | block | expression | define | ifThen | ifElse | returns | yields | print | forwardFunction
  | function | forwardCoroutine | coroutine => contradiction

theorem declaration?_of_isEntryPoint {tree : Stmt} (htree : tree.isEntryPoint = true) :
    tree.declaration? = some ⟨entryName, 0, .entryPoint, true⟩ := by
  obtain ⟨_, _, _, _, rfl⟩ := exists_of_isEntryPoint htree
  rfl

/-- An entry point is not declared ahead, so that no other may be before it. -/
theorem LegalAfter.no_entryPoint {tree other : Stmt} {before : List Stmt}
    (hlegal : tree.LegalAfter before) (htree : tree.isEntryPoint = true) (hother : other ∈ before) :
    other.isEntryPoint = false := by
  obtain ⟨-, hadmissible⟩ := hlegal.1 _ (declaration?_of_isEntryPoint htree)
  by_contra hentry
  have hdeclared : ⟨entryName, 0, .entryPoint, true⟩ ∈ declarations before :=
    List.mem_filterMap.2 ⟨other, hother, declaration?_of_isEntryPoint (by simpa using hentry)⟩
  rcases hadmissible with hnone | ⟨-, hahead⟩
  · exact hnone _ hdeclared rfl
  · have hmem : ⟨entryName, 0, .entryPoint, true⟩ ∈
        (declarations before).filter (fun earlier => earlier.name == entryName) :=
      List.mem_filter.2 ⟨hdeclared, beq_self_eq_true entryName⟩
    rw [hahead] at hmem
    simp at hmem

end Stmt

open Emit in
theorem Program.exists_entryPoint {program : Program} {code : String}
    (hcompile : program.compile = .ok code) :
    ∃ earlier tree later, program.items = earlier ++ tree :: later ∧ tree.isEntryPoint = true ∧
      (∀ other ∈ earlier, other.isEntryPoint = false) ∧
      ∀ other ∈ later, other.isEntryPoint = false := by
  have hruns : Runs (unit program) .initial _ := ⟨code, Prod.ext hcompile rfl⟩
  obtain ⟨hitems, hentry⟩ := (runs_unit_iff program _).1 hruns
  obtain ⟨hlegal, hagrees⟩ := items_run State.agrees_initial program.items
  have hlegalAfter := hlegal.1 ⟨_, hitems⟩
  obtain ⟨parameters, body, bodySpan, span, hmem⟩ := (hasEntryPoint_iff (hagrees _ hitems)).1 hentry
  rw [List.nil_append] at hmem
  obtain ⟨earlier, later, hsplit⟩ := List.append_of_mem hmem
  refine ⟨earlier, _, later, hsplit, rfl, fun other hother => ?_, fun other hother => ?_⟩
  · exact (hlegalAfter _ _ _ hsplit).no_entryPoint rfl hother
  · by_contra hentry
    obtain ⟨between, rest, rfl⟩ := List.append_of_mem hother
    have hlater := hlegalAfter (earlier ++ .entryPoint parameters body bodySpan span :: between)
      other rest (by simp [hsplit])
    have hfirst : (Stmt.entryPoint parameters body bodySpan span).isEntryPoint = false :=
      hlater.no_entryPoint (by simpa using hentry) (by simp)
    contradiction

namespace Emit

section Texts

variable {earlier later trees : List Stmt} {tree : Stmt} {texts flats : List String}

theorem ItemTexts.split (htexts : ItemTexts (earlier ++ tree :: later) texts flats) :
    ∃ texts₁ text texts₂ flats₁ flat flats₂, texts = texts₁ ++ text :: texts₂ ∧
      ItemTexts earlier texts₁ flats₁ ∧ ItemText tree text flat ∧
      ItemTexts later texts₂ flats₂ := by
  induction earlier generalizing texts flats with
  | nil =>
      cases htexts with
      | cons hitem hitems => exact ⟨[], _, _, [], _, _, rfl, .nil, hitem, hitems⟩
  | cons first earlier ih =>
      cases htexts with
      | cons hitem hitems =>
          obtain ⟨texts₁, text, texts₂, flats₁, flat, flats₂, rfl, hearlier, htree, hlater⟩ :=
            ih hitems
          exact ⟨_ :: texts₁, text, texts₂, _ :: flats₁, flat, flats₂, rfl,
            .cons hitem hearlier, htree, hlater⟩

theorem ItemTexts.headless (htexts : ItemTexts trees texts flats)
    (htrees : ∀ tree ∈ trees, tree.isEntryPoint = false) :
    List.Forall₂ (Piece false) texts flats := by
  induction htexts with
  | nil => exact .nil
  | cons hitem _ ih =>
      rw [List.forall_mem_cons] at htrees
      cases hitem with
      | entryPoint htree _ =>
          rw [htrees.1] at htree
          contradiction
      | other _ htext => exact .cons htext (ih htrees.2)

end Texts

end Emit

/-! Where the head of the entry point is. -/

namespace Cpp

theorem Reader.outside_append {σ : Type} {reader : Reader σ} {left right : List Char}
    {state middle : σ} {after : σ × Option Bool}
    (hleft : reader.run left (state, none) = some (middle, none))
    (hright : reader.run right (middle, none) = some after) :
    Outside (left ++ right) ↔ Outside right := by
  have hboth : reader.run (left ++ right) (state, none) = some after := by
    rw [run_append, hleft, Option.bind_some, hright]
  rw [outside_iff hboth, outside_iff hright]

end Cpp

namespace Emit

theorem watch_misses {before after : List Char} {state : Watch} {last : Watch × Option Bool}
    (hrun : watch.run (before ++ entryHead.toList ++ after) (state, none) = some last) :
    ¬ Outside before := by
  intro houtside
  rw [List.append_assoc, Reader.run_append] at hrun
  obtain ⟨⟨middle, literal?⟩, hbefore, hrest⟩ := Option.bind_eq_some_iff.1 hrun
  obtain rfl := (Reader.outside_iff hbefore).1 houtside
  have hhead : watch.run entryHead.toList (middle, none) = none := by
    cases middle <;> decide
  rw [Reader.run_append, hhead] at hrest
  contradiction

/-- No end of the head is a beginning of it. -/
theorem entryHead_borders :
    ∀ ending ∈ entryHead.toList.tails, ending <+: entryHead.toList →
      ending = [] ∨ ending = entryHead.toList := by
  decide

section Head

variable {left leftFlat right rightFlat : String} {before after : List Char}

theorem not_outside_right (hleft : Woven false .line [] .ready [] left leftFlat)
    (hright : Woven false .shut [] .line [] right rightFlat)
    (htext : right.toList = before ++ entryHead.toList ++ after) :
    ¬ Outside (left.toList ++ entryHead.toList ++ before) := by
  have hhead : Woven true .ready [] .shut [] entryHead entryHead := woven_phrase (by decide)
  obtain ⟨last, hlast, hrunLeft⟩ := hleft.nests '\n' (by decide)
  obtain ⟨last', hlast', hrunHead⟩ := hhead.nests last hlast
  obtain ⟨_, _, hrunRight⟩ := hright.nests last' hlast'
  obtain ⟨_, _, hwatch⟩ := hright.misses rfl .idle (by decide)
  have hrunBoth : brackets.run (left.toList ++ entryHead.toList) (⟨[], '\n'⟩, none) =
      some (⟨[], last'⟩, none) := by
    rw [Reader.run_append, hrunLeft, Option.bind_some, hrunHead]
  rw [htext, List.append_assoc, Reader.run_append] at hrunRight
  obtain ⟨_, hrunBefore, -⟩ := Option.bind_eq_some_iff.1 hrunRight
  rw [Reader.outside_append hrunBoth hrunBefore]
  rw [htext] at hwatch
  exact watch_misses hwatch

theorem eq_nil_of_behind (hleft : Woven false .line [] .ready [] left leftFlat)
    (hright : Woven false .shut [] .line [] right rightFlat) {between : List Char}
    (htext : entryHead.toList ++ right.toList = between ++ (entryHead.toList ++ after))
    (houtside : Outside (left.toList ++ between)) : between = [] := by
  rcases List.append_eq_append_iff.1 htext with ⟨further, rfl, hrest⟩ | ⟨ending, hhead, hrest⟩
  · rw [← List.append_assoc] at houtside hrest
    exact absurd houtside (not_outside_right hleft hright hrest)
  · -- The two heads overlap in `ending`.
    have hbeginning : ending <+: entryHead.toList := by
      apply List.prefix_of_prefix_length_le ⟨right.toList, rfl⟩ ⟨after, hrest⟩
      rw [hhead, List.length_append]
      exact Nat.le_add_left _ _
    have hends : ending ∈ entryHead.toList.tails := (List.mem_tails _ _).2 ⟨between, hhead.symm⟩
    rcases entryHead_borders ending hends hbeginning with rfl | rfl
    · rw [List.append_nil] at hhead
      rw [← hhead, ← List.append_nil (left.toList ++ entryHead.toList)] at houtside
      exact absurd houtside (not_outside_right hleft hright hrest.symm)
    · exact List.self_eq_append_left.1 hhead

theorem eq_nil_of_ahead (hleft : Woven false .line [] .ready [] left leftFlat)
    (hline : left.toList.getLast? = some '\n') {between : List Char}
    (hbefore : left.toList = before ++ between)
    (htext : entryHead.toList ++ after = between ++ (entryHead.toList ++ right.toList))
    (houtside : Outside before) : between = [] := by
  rcases List.append_eq_append_iff.1 htext with ⟨further, rfl, -⟩ | ⟨ending, hhead, -⟩
  · obtain ⟨_, _, hwatch⟩ := hleft.misses rfl .idle (by decide)
    rw [hbefore, ← List.append_assoc] at hwatch
    exact absurd houtside (watch_misses hwatch)
  · by_contra hne
    -- The text before the head ends a line, and the head has no newline.
    rw [hbefore, List.getLast?_append_of_ne_nil _ hne] at hline
    have hmem : '\n' ∈ entryHead.toList := by
      rw [hhead]
      exact List.mem_append_left _ (List.mem_of_getLast? hline)
    exact absurd hmem (by decide)

theorem eq_of_occurs (hleft : Woven false .line [] .ready [] left leftFlat)
    (hline : left.toList.getLast? = some '\n')
    (hright : Woven false .shut [] .line [] right rightFlat)
    (htext : (left ++ entryHead ++ right).toList = before ++ entryHead.toList ++ after)
    (houtside : Outside before) : before = left.toList := by
  rw [String.toList_append, String.toList_append, List.append_assoc, List.append_assoc] at htext
  rcases List.append_eq_append_iff.1 htext with ⟨between, rfl, hrest⟩ | ⟨between, hbefore, hrest⟩
  · rw [eq_nil_of_behind hleft hright hrest houtside, List.append_nil]
  · rw [hbefore, eq_nil_of_ahead hleft hline hbefore hrest houtside, List.append_nil]

end Head

theorem exists_head {trees : List Stmt} {texts flats : List String}
    (hitems : ItemTexts trees texts flats) {earlier later : List Stmt} {tree : Stmt}
    (htrees : trees = earlier ++ tree :: later) (htree : tree.isEntryPoint = true)
    (hearlier : ∀ other ∈ earlier, other.isEntryPoint = false)
    (hlater : ∀ other ∈ later, other.isEntryPoint = false) :
    ∃ left leftFlat right rightFlat, unitText texts = left ++ entryHead ++ right ∧
      Woven false .line [] .ready [] left leftFlat ∧ left.toList.getLast? = some '\n' ∧
      Woven false .shut [] .line [] right rightFlat := by
  subst htrees
  obtain ⟨before, text, after, flats₁, flat, flats₂, rfl, hbefore, hentry, hafter⟩ := hitems.split
  cases hentry with
  | other hother _ =>
      rw [htree] at hother
      contradiction
  | entryPoint _ hbody =>
      have hline : Woven false .done [] .ready [] "\n\n" "\n\n" := woven_phrase (by decide)
      have hleft := (woven_join (piece_headers []) hline (hbefore.headless hearlier)).append hline
      have hright := (woven_join (woven_space.append (hbody [])) hline (hafter.headless hlater)).append
        (woven_phrase (by decide : isPhrase false .done [] .line [] "\n".toList = true))
      refine ⟨_, _, _, _, ?_, hleft.atLine, by simp, hright⟩
      rw [unitText, intercalate_eq_join, List.map_append, List.map_cons, String.join_append,
        String.join_cons]
      simp only [String.append_assoc]

end Emit

open Emit

/-- A program has one entry point, and outside of literals its head is in the text once, at the
start of a line. -/
theorem compileSource_entryPoint_once {source file code : String}
    (hcompile : compileSource source file = .ok code) :
    (∃ tokens program, Token.scan source file = .ok tokens ∧
      Program.ofTokens tokens file = .ok program ∧ program.items.countP Stmt.isEntryPoint = 1) ∧
    ∃ before, before.getLast? = some '\n' ∧
      ∀ other, Outside other ∧ other ++ "int main()".toList <+: code.toList ↔ other = before := by
  obtain ⟨tokens, words, program, hscan, hread, hcode, hcanonical, hrenders, hfits⟩ :=
    exists_program_of_compileSource hcompile
  obtain ⟨texts, flats, htexts, rfl, -⟩ := exists_unitText hrenders hcanonical hfits hcode
  obtain ⟨earlier, tree, later, hsplit, htree, hearlier, hlater⟩ :=
    Program.exists_entryPoint hcode
  refine ⟨⟨_, program, hscan, hread, ?_⟩, ?_⟩
  · have hbefore : earlier.countP Stmt.isEntryPoint = 0 :=
      List.countP_eq_zero.2 (by simpa using hearlier)
    have hbehind : later.countP Stmt.isEntryPoint = 0 :=
      List.countP_eq_zero.2 (by simpa using hlater)
    rw [hsplit, List.countP_append, List.countP_cons_of_pos htree, hbefore, hbehind]
  obtain ⟨left, leftFlat, right, rightFlat, htext, hleft, hline, hright⟩ :=
    exists_head htexts hsplit htree hearlier hlater
  refine ⟨left.toList, hline, fun other => ⟨?_, ?_⟩⟩
  · rintro ⟨houtside, after, hafter⟩
    rw [htext] at hafter
    exact eq_of_occurs hleft hline hright hafter.symm houtside
  · rintro rfl
    obtain ⟨last, -, hrun⟩ := hleft.nests '\n' (by decide)
    refine ⟨(Reader.outside_iff hrun).2 rfl, right.toList, ?_⟩
    rw [htext, String.toList_append, String.toList_append]
    rfl

/-- The head is also in a string, and a parameter has the name. -/
theorem compileSource_entryPoint_once_quoted :
    ∃ code, compileSource "def main(main)\x7bprint(\"int main()\");\x7d" "f" = .ok code ∧
      (∃ tokens program,
        Token.scan "def main(main)\x7bprint(\"int main()\");\x7d" "f" = .ok tokens ∧
        Program.ofTokens tokens "f" = .ok program ∧
        program.items.countP Stmt.isEntryPoint = 1) ∧
      ∃ before, before.getLast? = some '\n' ∧
        ∀ other, Outside other ∧ other ++ "int main()".toList <+: code.toList ↔ other = before := by
  have hscan : Token.scan "def main(main)\x7bprint(\"int main()\");\x7d" "f" =
    .ok (Token.ofLexemes "f" 0
      [⟨.token .keyDef, "def".toList⟩, ⟨.blank, [' ']⟩, ⟨.token .identifier, "main".toList⟩,
        ⟨.token .openParen, ['(']⟩, ⟨.token .identifier, "main".toList⟩,
        ⟨.token .closeParen, [')']⟩, ⟨.token .openCurly, ['\x7b']⟩,
        ⟨.token .keyPrint, "print".toList⟩, ⟨.token .openParen, ['(']⟩,
        ⟨.token .string, "\"int main()\"".toList⟩, ⟨.token .closeParen, [')']⟩,
        ⟨.token .semicolon, [';']⟩, ⟨.token .closeCurly, ['\x7d']⟩]) :=
    Token.scan_of_cut "f" <| Lexeme.cut_of_next? rfl <| Lexeme.cut_of_next? rfl <|
      Lexeme.cut_of_next? rfl <| Lexeme.cut_of_next? rfl <| Lexeme.cut_of_next? rfl <|
      Lexeme.cut_of_next? rfl <| Lexeme.cut_of_next? rfl <| Lexeme.cut_of_next? rfl <|
      Lexeme.cut_of_next? rfl <| Lexeme.cut_of_next? rfl <| Lexeme.cut_of_next? rfl <|
      Lexeme.cut_of_next? rfl <| Lexeme.cut_of_next? rfl Lexeme.cut_nil
  obtain ⟨code, hcode⟩ : ∃ code,
      compileSource "def main(main)\x7bprint(\"int main()\");\x7d" "f" = .ok code := by
    rw [compileSource_of_scan hscan]
    exact ⟨_, rfl⟩
  exact ⟨code, hcode, compileSource_entryPoint_once hcode⟩

end Coroscript
