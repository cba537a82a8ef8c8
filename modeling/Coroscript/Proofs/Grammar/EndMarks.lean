import Coroscript.Proofs.Grammar.Progress

namespace Coroscript

/-! Reading goes on and comes to an end, and sees nothing behind an end mark. -/

namespace Cursor

/-- The cursor is on the token at `index`. -/
structure At (all : List Token) (index : Nat) (cursor : Cursor) : Prop where
  current : all[index]? = some cursor.current
  rest : all.drop (index + 1) = cursor.rest

variable {all : List Token} {index : Nat} {cursor : Cursor}

theorem at_iff : cursor.At all index ↔ all.drop index = cursor.tokens := by
  constructor
  · rintro ⟨hcurrent, hrest⟩
    obtain ⟨hindex, hcurrent⟩ := List.getElem?_eq_some_iff.1 hcurrent
    rw [List.drop_eq_getElem_cons hindex, hcurrent, hrest]
    rfl
  · intro htokens
    have hindex : index < all.length := by
      by_contra hindex
      rw [List.drop_eq_nil_of_le (Nat.not_lt.1 hindex)] at htokens
      contradiction
    rw [List.drop_eq_getElem_cons hindex] at htokens
    obtain ⟨hcurrent, hrest⟩ := List.cons.inj htokens
    exact ⟨by rw [List.getElem?_eq_getElem hindex, hcurrent], hrest⟩

theorem At.ended (hat : cursor.At all index) {start : Cursor} (hstart : start.tokens = all)
    (hended : start.Ended) : cursor.Ended := by
  have htokens : start.tokens = all.take index ++ cursor.tokens := by
    rw [hstart, ← at_iff.1 hat, List.take_append_drop]
  exact hended.suffix htokens

/-- The cursor never passes the last token. -/
theorem At.advance (hat : cursor.At all index) :
    cursor.advance.At all (min (index + 1) (all.length - 1)) := by
  have htokens := at_iff.1 hat
  have hlength : all.length - index = cursor.rest.length + 1 := by
    rw [← List.length_drop, htokens]
    rfl
  cases hrest : cursor.rest with
  | nil =>
      have hlast : min (index + 1) (all.length - 1) = index := by
        rw [hrest, List.length_nil] at hlength
        omega
      have hstays : cursor.advance = cursor := by
        rw [Cursor.advance, hrest]
      rw [hlast, hstays]
      exact hat
  | cons next others =>
      have hnext : min (index + 1) (all.length - 1) = index + 1 := by
        rw [hrest, List.length_cons] at hlength
        omega
      rw [hnext, at_iff, hat.rest, hrest, tokens_advance rfl (by simp [hrest]), hrest]

end Cursor

namespace Parser

variable {α : Type} {all : List Token}

/-- Wherever it starts, the reader stops on a token of the list and not before its start. If it
succeeds it has taken a token, and no end mark. -/
def Progresses (all : List Token) (reader : Parser α) : Prop :=
  ∀ (index : Nat) (cursor : Cursor), cursor.At all index →
    ∃ later, (reader cursor).2.At all later ∧ index ≤ later ∧
      ∀ a, (reader cursor).1 = .ok a →
        index < later ∧ Unended ((all.drop index).take (later - index))

/-- What a reader takes has no end mark in it, also where it fails. -/
theorem Steady.takes {spare : Nat} {reader : Parser α} (hsteady : Steady spare reader)
    {cursor : Cursor} (hclosed : cursor.Closed) :
    ∃ taken, cursor.tokens = taken ++ (reader cursor).2.tokens ∧ Unended taken ∧
      ∀ a, (reader cursor).1 = .ok a → 0 < taken.length + spare := by
  obtain ⟨horizon, words, habreast⟩ := hclosed.abreast
  obtain ⟨rest, ⟨taken, rfl⟩, -, hafter, hfewer⟩ := hsteady words _ _ _ habreast
  refine ⟨taken, ?_, ?_, fun a ha => ?_⟩
  · rw [habreast.left_tokens, hafter.left_tokens, List.append_assoc]
  · exact fun token htoken => habreast.unended token (List.mem_append_left rest htoken)
  · have hrest := hfewer a ha
    rw [List.length_append] at hrest
    omega

theorem Steady.progresses {reader : Parser α} (hsteady : Steady 0 reader) {start : Cursor}
    (hended : start.Ended) : Progresses start.tokens reader := by
  intro index cursor hat
  obtain ⟨taken, htaken, hunended, hcount⟩ := hsteady.takes (hat.ended rfl hended).closed
  rw [← Cursor.at_iff.1 hat] at htaken
  refine ⟨index + taken.length, ?_, Nat.le_add_right _ _, fun a ha => ⟨?_, ?_⟩⟩
  · rw [Cursor.at_iff, ← List.drop_drop, htaken, List.drop_left]
  · exact Nat.lt_add_of_pos_right (hcount a ha)
  · rwa [Nat.add_sub_cancel_left, htaken, List.take_left]

end Parser

namespace Grammar

open Coroscript.Parser

/-- Every loop and every recursion of reading comes to an end wherever an end mark is ahead: its
equation, which has no bound, has only one solution there. -/
structure RecursionsEnd : Prop where
  arguments : OnlySolution
    (fun others (_ : Unit) => separatedRound (standard.expr .lowest) (others ()))
    fun _ cursor => separated (standard.expr .lowest) cursor.remaining cursor
  parameters : OnlySolution (fun others (_ : Unit) => separatedRound parameter (others ()))
    fun _ cursor => separated parameter cursor.remaining cursor
  operators : ∀ power, OnlySolution (operatorsRound standard standard.expr power)
    fun left cursor => operators standard standard.expr power cursor.remaining left cursor
  expr : OnlySolution
    (fun recurse power => exprRound standard recurse fun left cursor =>
      Grammar.operators standard recurse power cursor.remaining left cursor)
    standard.expr
  statements : OnlySolution
    (fun others (_ : Unit) => statementsRound standard.stmt (others ()))
    fun _ cursor => statements standard.stmt cursor.remaining cursor
  stmt : OnlySolution (fun recurse (_ : Unit) => stmtRound standard (recurse ()))
    fun _ => standard.stmt
  items : OnlySolution (fun others (_ : Unit) => itemsRound standard (others ()))
    fun _ cursor => items standard cursor.remaining cursor

theorem recursionsEnd : RecursionsEnd where
  arguments := (unrolls_separated (steady_expr .lowest)).onlySolution
  parameters := (unrolls_separated steady_parameter).onlySolution
  operators power := (unrolls_operators steady_expr power).onlySolution
  expr := unrolls_exprWithin.onlySolution
  statements := (unrolls_statements steady_stmt).onlySolution
  stmt := unrolls_stmtWithin.onlySolution
  items := unrolls_items.onlySolution

end Grammar

theorem Cursor.previousEnd_ofTokens (tokens : List Token) (file : String) :
    (ofTokens tokens file).previousEnd = .start file := by
  cases tokens with
  | nil => rfl
  | cons first rest =>
      rw [ofTokens]
      split <;> rfl

namespace Program

theorem ofTokens_upToMark (tokens : List Token) (file : String) :
    ofTokens (Token.upToMark tokens) file = ofTokens tokens file := by
  by_cases hmarked : ∃ mark ∈ tokens, mark.kind = .eof
  · obtain ⟨mark, hmem, hmark⟩ := hmarked
    obtain ⟨words, first, behind, hwords, hfirst, htokens, hcut⟩ := Token.exists_mark hmem hmark
    obtain ⟨marks, hmarks, -⟩ := Cursor.tokens_ofTokens (Token.upToMark tokens) file
    obtain ⟨marks', hmarks', -⟩ := Cursor.tokens_ofTokens tokens file
    have habreast : (Cursor.ofTokens (Token.upToMark tokens) file).Abreast
        ⟨first, hfirst, marks, behind ++ marks'⟩ words (Cursor.ofTokens tokens file) := by
      refine ⟨?_, ?_, hwords, ?_⟩
      · rw [hmarks, hcut, List.append_assoc]
        rfl
      · rw [hmarks', htokens, List.append_assoc]
        rfl
      · rw [Cursor.previousEnd_ofTokens, Cursor.previousEnd_ofTokens]
    obtain ⟨-, -, hresult, -⟩ := Grammar.steady_program file words _ _ _ habreast
    exact hresult
  · have hunended : Unended tokens := fun token htoken heof => hmarked ⟨token, htoken, heof⟩
    rw [Token.upToMark_of_unended hunended]

open Coroscript.Grammar Coroscript.Parser in
/-- From every place in the list, the readers of expressions, statements, blocks and definitions
stay on its tokens and never go back, and where they succeed they have taken a token and no end
mark. So every loop and recursion of reading comes to an end, no end mark is ever passed, and
what stands behind the first one does not count. -/
theorem reading_progresses (tokens : List Token) (file : String) :
    let start := Cursor.ofTokens tokens file
    let all := start.tokens
    (∀ (index : Nat) (cursor : Cursor), cursor.At all index →
      cursor.advance.At all (min (index + 1) (all.length - 1))) ∧
    ((∀ power, Progresses all (standard.expr power)) ∧ Progresses all standard.stmt ∧
      Progresses all (block standard.stmt) ∧ Progresses all standard.item) ∧
    RecursionsEnd ∧
    (∃ last, (standard.program file start).2.At all last ∧ Unended (all.take last)) ∧
    ofTokens (Token.upToMark tokens) file = ofTokens tokens file := by
  intro start all
  have hended : start.Ended := Cursor.ended_ofTokens tokens file
  refine ⟨fun index cursor hat => hat.advance, ⟨fun power => ?_, ?_, ?_, ?_⟩, recursionsEnd, ?_,
    ofTokens_upToMark tokens file⟩
  · exact (steady_expr power).progresses hended
  · exact steady_stmt.progresses hended
  · exact steady_block.progresses hended
  · exact steady_item.progresses hended
  · obtain ⟨taken, htaken, hunended, -⟩ := (steady_program file).takes hended.closed
    refine ⟨taken.length, ?_, ?_⟩
    · rw [Cursor.at_iff, show all = _ from htaken, List.drop_left]
    · rwa [show all = _ from htaken, List.take_left]

end Program

end Coroscript
