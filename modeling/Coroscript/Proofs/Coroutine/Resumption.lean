import Coroscript.Proofs.Coroutine.Counting
import Coroscript.Proofs.Coroutine.Lowering

namespace Coroscript

namespace Cpp

theorem resumeLabel_injective {left right : Nat} (heq : resumeLabel left = resumeLabel right) :
    left = right := by
  have hdigits : Nat.toDigits 10 left = Nat.toDigits 10 right := by
    rw [← Nat.toList_repr, ← Nat.toList_repr]
    exact congrArg String.toList ((String.append_right_inj stateField).1 heq)
  rw [← @Nat.ofDigitChars_toDigits 10 left (by decide) (by decide), hdigits,
    Nat.ofDigitChars_toDigits (by decide) (by decide)]

theorem startLabel_ne_resumeLabel (index : Nat) : startLabel ≠ resumeLabel index := by
  intro heq
  have hfirst := congrArg (fun label => label.toList.take 5) heq
  simp [startLabel, resumeLabel, stateField] at hfirst

namespace Code

theorem seekAll_append (name : String) (left right : List Code) :
    seekAll name (left ++ right) =
      ((seekAll name left).map (· ++ right)).or (seekAll name right) := by
  induction left with
  | nil => simp [seekAll]
  | cons first others ih =>
      rw [List.cons_append, seekAll, seekAll, ih]
      cases seek name first <;> simp

theorem seekAll_inBraces (name : String) (code : List Code) :
    seekAll name (Stmt.inBraces code) = seekAll name code := by
  unfold Stmt.inBraces
  split
  · simp [seekAll, seek]
  · rfl

end Code

end Cpp

namespace Stmt

open Cpp (Code resumeLabel)

mutual

theorem seekAll_lower_eq_none {target : Nat} : ∀ (tree : Stmt) {index : Nat},
    target < index ∨ index + tree.yieldCount ≤ target →
      Code.seekAll (resumeLabel target) (tree.lower index) = none
  | .block body _, index, htarget => by
      have hbody := seekAll_lowerAll_eq_none body htarget
      simp [lower, Code.seekAll, Code.seek, hbody]
  | .ifThen _ thenBody _, index, htarget => by
      have hthen := seekAll_lower_eq_none thenBody htarget
      simp [lower, Code.seekAll, Code.seek, Code.seekAll_inBraces, hthen]
  | .ifElse _ thenBody elseBody _, index, htarget => by
      rw [yieldCount] at htarget
      have hthen := @seekAll_lower_eq_none target thenBody index (by omega)
      have helse := @seekAll_lower_eq_none target elseBody (index + thenBody.yieldCount) (by omega)
      simp [lower, Code.seekAll, Code.seek, Code.seekAll_inBraces, hthen, helse]
  | .yields _ _, index, htarget => by
      rw [yieldCount] at htarget
      have hne : resumeLabel index ≠ resumeLabel target := by
        intro heq
        have hindex := Cpp.resumeLabel_injective heq
        omega
      simp [lower, Code.seekAll, Code.seek, hne]
  | .expression _ _, _, _ | .define _ _ _, _, _ | .returns _ _, _, _ | .print _ _, _, _
  | .forwardFunction _ _ _, _, _ | .function _ _ _ _ _, _, _ | .forwardCoroutine _ _ _, _, _
  | .coroutine _ _ _ _ _, _, _ | .entryPoint _ _ _ _, _, _ => by
      simp [lower, Code.seekAll, Code.seek]

theorem seekAll_lowerAll_eq_none {target : Nat} : ∀ (trees : List Stmt) {index : Nat},
    target < index ∨ index + yieldCountAll trees ≤ target →
      Code.seekAll (resumeLabel target) (lowerAll index trees) = none
  | [], index, _ => rfl
  | first :: others, index, htarget => by
      rw [yieldCountAll] at htarget
      have hfirst := @seekAll_lower_eq_none target first index (by omega)
      have hothers := @seekAll_lowerAll_eq_none target others (index + first.yieldCount) (by omega)
      simp [lowerAll, Code.seekAll_append, hfirst, hothers]

end

end Stmt

section Simulation

open Cpp (Code Ends Outcome)

variable {σ ν : Type} {meaning : Interpretation σ ν} {program : List Code}

def Progress.outcome (counter : Nat) : Progress σ ν → Outcome σ ν
  | .yielded value _ store => .value value (counter + 1) store
  | .finished store => .fault counter store

def Follows (meaning : Interpretation σ ν) (program : List Code) (rest : List Stmt)
    (code : List Code) : Prop :=
  ∀ counter store,
    Ends meaning program code counter store ((meaning.run rest store).outcome counter)

theorem Follows.inBraces {rest : List Stmt} {code others : List Code}
    (hfollows : Follows meaning program rest (code ++ others)) :
    Follows meaning program rest (Stmt.inBraces code ++ others) := by
  unfold Stmt.inBraces
  split
  · intro counter store
    cases hfollows counter store with
    | block hbody => exact hbody
  · exact hfollows

mutual

theorem Follows.lower : ∀ (tree : Stmt) {index : Nat} {rest : List Stmt} {code : List Code},
    Follows meaning program rest code →
      Follows meaning program (tree :: rest) (tree.lower index ++ code)
  | .block body _, index, rest, code, hrest => by
      intro counter store
      rw [Interpretation.run]
      exact .block (Follows.lowerAll body hrest counter store)
  | .expression value _, index, rest, code, hrest => by
      intro counter store
      rw [Interpretation.run]
      exact .evaluate (hrest counter _)
  | .define name value _, index, rest, code, hrest => by
      intro counter store
      rw [Interpretation.run]
      exact .assign (hrest counter _)
  | .ifThen condition thenBody _, index, rest, code, hrest => by
      intro counter store
      have hthen := (@Follows.lower thenBody index rest code hrest).inBraces
      rw [Interpretation.run]
      apply Ends.ifThen
      by_cases hholds : meaning.holds (meaning.eval condition store).1 = true
      · simp only [hholds, if_true]
        exact hthen counter _
      · simp only [hholds]
        exact hrest counter _
  | .ifElse condition thenBody elseBody _, index, rest, code, hrest => by
      intro counter store
      have hthen := (@Follows.lower thenBody index rest code hrest).inBraces
      have helse := (@Follows.lower elseBody (index + thenBody.yieldCount) rest code hrest).inBraces
      rw [Interpretation.run]
      apply Ends.ifElse
      by_cases hholds : meaning.holds (meaning.eval condition store).1 = true
      · simp only [hholds, if_true]
        exact hthen counter _
      · simp only [hholds]
        exact helse counter _
  | .yields value _, index, rest, code, hrest => by
      intro counter store
      rw [Interpretation.run]
      exact .count .give
  | .print arguments _, index, rest, code, hrest => by
      intro counter store
      rw [Interpretation.run]
      exact .print (hrest counter _)
  | .returns _ _, _, _, _, hrest | .forwardFunction _ _ _, _, _, _, hrest
  | .function _ _ _ _ _, _, _, _, hrest | .forwardCoroutine _ _ _, _, _, _, hrest
  | .coroutine _ _ _ _ _, _, _, _, hrest | .entryPoint _ _ _ _, _, _, _, hrest => by
      intro counter store
      rw [Interpretation.run]
      exact hrest counter store

theorem Follows.lowerAll : ∀ (trees : List Stmt) {index : Nat} {rest : List Stmt}
    {code : List Code}, Follows meaning program rest code →
      Follows meaning program (trees ++ rest) (Stmt.lowerAll index trees ++ code)
  | [], _, _, _, hrest => hrest
  | first :: others, index, rest, code, hrest => by
      rw [Stmt.lowerAll, List.append_assoc, List.cons_append]
      exact Follows.lower first (Follows.lowerAll others hrest)

end

/-- The label `target` is in `code`, and what it leads to does what stands behind the
yield at `offset`, whatever follows. -/
def Resumes (meaning : Interpretation σ ν) (program code : List Code)
    (points : List Stmt → List (List Stmt)) (target offset : Nat) : Prop :=
  ∃ found, Code.seekAll (Cpp.resumeLabel target) code = some found ∧
    ∀ {rest : List Stmt} {others : List Code}, Follows meaning program rest others →
      ∃ point, (points rest)[offset]? = some point ∧
        Follows meaning program point (found ++ others)

mutual

theorem resumes_lower : ∀ (tree : Stmt) {index offset : Nat}, offset < tree.yieldCount →
    Resumes meaning program (tree.lower index) tree.resumptions (index + offset) offset
  | .block body _, index, offset, hoffset => by
      obtain ⟨found, hfound, hpoint⟩ := @resumes_lowerAll body index offset hoffset
      exact ⟨found, by simp [Stmt.lower, Code.seekAll, Code.seek, hfound], hpoint⟩
  | .ifThen _ thenBody _, index, offset, hoffset => by
      obtain ⟨found, hfound, hpoint⟩ := @resumes_lower thenBody index offset hoffset
      refine ⟨found, ?_, hpoint⟩
      simp [Stmt.lower, Code.seekAll, Code.seek, Code.seekAll_inBraces, hfound]
  | .ifElse _ thenBody elseBody _, index, offset, hoffset => by
      rw [Stmt.yieldCount] at hoffset
      by_cases hthen : offset < thenBody.yieldCount
      · obtain ⟨found, hfound, hpoint⟩ := @resumes_lower thenBody index offset hthen
        refine ⟨found, ?_, fun {rest others} hrest => ?_⟩
        · simp [Stmt.lower, Code.seekAll, Code.seek, Code.seekAll_inBraces, hfound]
        · simp only [Stmt.resumptions]
          rw [List.getElem?_append_left (by rwa [Stmt.length_resumptions])]
          exact hpoint hrest
      · obtain ⟨later, rfl⟩ := Nat.exists_eq_add_of_le (Nat.le_of_not_lt hthen)
        obtain ⟨found, hfound, hpoint⟩ :=
          @resumes_lower elseBody (index + thenBody.yieldCount) later (by omega)
        -- The labels of the other branch are numbered on from those of the first.
        have hnone := @Stmt.seekAll_lower_eq_none (index + (thenBody.yieldCount + later)) thenBody
          index (by omega)
        rw [Nat.add_assoc] at hfound
        refine ⟨found, ?_, fun {rest others} hrest => ?_⟩
        · simp [Stmt.lower, Code.seekAll, Code.seek, Code.seekAll_inBraces, hnone, hfound]
        · simp only [Stmt.resumptions]
          rw [List.getElem?_append_right (by simp [Stmt.length_resumptions]),
            Stmt.length_resumptions, Nat.add_sub_cancel_left]
          exact hpoint hrest
  | .yields value _, index, offset, hoffset => by
      obtain rfl : offset = 0 := Nat.lt_one_iff.1 hoffset
      exact ⟨[], by simp [Stmt.lower, Code.seekAll, Code.seek],
        fun {rest others} hrest => ⟨rest, rfl, hrest⟩⟩

theorem resumes_lowerAll : ∀ (trees : List Stmt) {index offset : Nat},
    offset < Stmt.yieldCountAll trees →
    Resumes meaning program (Stmt.lowerAll index trees) (Stmt.resumptionsAll · trees)
      (index + offset) offset
  | first :: others, index, offset, hoffset => by
      rw [Stmt.yieldCountAll] at hoffset
      by_cases hfirst : offset < first.yieldCount
      · obtain ⟨found, hfound, hpoint⟩ := @resumes_lower first index offset hfirst
        refine ⟨found ++ Stmt.lowerAll (index + first.yieldCount) others, ?_,
          fun {rest code} hrest => ?_⟩
        · simp [Stmt.lowerAll, Code.seekAll_append, hfound]
        · simp only [Stmt.resumptionsAll]
          rw [List.getElem?_append_left (by rwa [Stmt.length_resumptions]), List.append_assoc]
          exact hpoint (Follows.lowerAll others hrest)
      · obtain ⟨later, rfl⟩ := Nat.exists_eq_add_of_le (Nat.le_of_not_lt hfirst)
        obtain ⟨found, hfound, hpoint⟩ :=
          @resumes_lowerAll others (index + first.yieldCount) later (by omega)
        have hnone := @Stmt.seekAll_lower_eq_none (index + (first.yieldCount + later)) first
          index (by omega)
        rw [Nat.add_assoc] at hfound
        refine ⟨found, ?_, fun {rest code} hrest => ?_⟩
        · simp [Stmt.lowerAll, Code.seekAll_append, hnone, hfound]
        · simp only [Stmt.resumptionsAll]
          rw [List.getElem?_append_right (by simp [Stmt.length_resumptions]),
            Stmt.length_resumptions, Nat.add_sub_cancel_left]
          exact hpoint hrest

end

theorem lookup_resumeLabels (total counter : Nat) :
    ((List.range total).map fun index => (index + 1, Cpp.resumeLabel index)).lookup counter =
      if 0 < counter ∧ counter ≤ total then some (Cpp.resumeLabel (counter - 1)) else none := by
  induction total with
  | zero =>
      rw [if_neg (by omega)]
      rfl
  | succ total ih =>
      rw [List.range_succ, List.map_append, List.lookup_append, ih]
      by_cases hlast : counter = total + 1
      · subst hlast
        rw [if_neg (by omega), if_pos (by omega)]
        simp
      · have hsame : (0 < counter ∧ counter ≤ total + 1) ↔ (0 < counter ∧ counter ≤ total) := by
          omega
        simp [List.lookup_cons, beq_eq_false_iff_ne.2 hlast, hsame]

theorem lookup_jumps (total counter : Nat) :
    (Stmt.jumps total).lookup counter =
      if counter = 0 then some Cpp.startLabel
      else if counter < total then some (Cpp.resumeLabel (counter - 1)) else none := by
  by_cases hzero : counter = 0
  · subst hzero
    rfl
  · have hsame : (0 < counter ∧ counter ≤ total - 1) ↔ counter < total := by
      omega
    rw [Stmt.jumps, List.lookup_cons, beq_eq_false_iff_ne.2 hzero, lookup_resumeLabels,
      if_neg hzero]
    simp only [hsame]

theorem follows_end : Follows meaning program [] [.fault] := by
  intro counter store
  rw [Interpretation.run]
  exact .fault

theorem seekAll_startLabel (body : List Stmt) :
    Code.seekAll Cpp.startLabel (Stmt.method body) =
      some (Stmt.lowerAll 0 body ++ [.fault]) := by
  simp [Stmt.method, Code.seekAll, Code.seek]

theorem seekAll_resumeLabel {body : List Stmt} {index : Nat} {found : List Code}
    (hfound : Code.seekAll (Cpp.resumeLabel index) (Stmt.lowerAll 0 body) = some found) :
    Code.seekAll (Cpp.resumeLabel index) (Stmt.method body) = some (found ++ [.fault]) := by
  simp [Stmt.method, Code.seekAll, Code.seek, Cpp.startLabel_ne_resumeLabel,
    Code.seekAll_append, hfound]

theorem ends_method {body : List Stmt} {counter : Nat}
    (hcounter : counter = 0 ∨ counter < Stmt.yieldCountAll body) (store : σ) :
    Ends meaning (Stmt.method body) (Stmt.method body) counter store
      ((meaning.run (Stmt.resumption body counter) store).outcome counter) := by
  have hend : Follows meaning (Stmt.method body) [] [.fault] := follows_end
  cases counter with
  | zero =>
      have hbody := @Follows.lowerAll _ _ meaning _ body 0 _ _ hend
      rw [List.append_nil] at hbody
      exact .jump (lookup_jumps _ 0) (seekAll_startLabel body) (hbody 0 store)
  | succ index =>
      have hindex : index + 1 < Stmt.yieldCountAll body := by omega
      obtain ⟨found, hfound, hfollows⟩ :=
        @resumes_lowerAll _ _ meaning (Stmt.method body) body 0 index (Nat.lt_of_succ_lt hindex)
      rw [Nat.zero_add] at hfound
      obtain ⟨point, hpoint, hcode⟩ := hfollows hend
      rw [Stmt.resumption, hpoint, Option.getD_some]
      refine .jump ?_ (seekAll_resumeLabel hfound) (hcode (index + 1) store)
      rw [lookup_jumps, if_neg (Nat.succ_ne_zero index), if_pos hindex, Nat.add_sub_cancel]

theorem ends_method_exhausted {body : List Stmt} {counter : Nat} (hpositive : 0 < counter)
    (hcounter : Stmt.yieldCountAll body ≤ counter) (store : σ) :
    Ends meaning (Stmt.method body) (Stmt.method body) counter store (.fault counter store) := by
  apply Ends.noCase
  rw [lookup_jumps, if_neg (by omega), if_neg (by omega)]

theorem answers_method (body : List Stmt) (counter : Nat) (store : σ) (changes : List (σ → σ)) :
    Cpp.Answers meaning (Stmt.method body) counter store changes
      (meaning.countedAnswers body counter store changes) := by
  induction changes generalizing counter store with
  | nil =>
      rw [Interpretation.countedAnswers]
      exact .done
  | cons change later ih =>
      by_cases hcounter : counter = 0 ∨ counter < Stmt.yieldCountAll body
      · have hcall := @ends_method _ _ meaning body counter hcounter (change store)
        cases hrun : meaning.run (Stmt.resumption body counter) (change store) with
        | finished after =>
            simp only [Interpretation.countedAnswers, hrun]
            rw [hrun] at hcall
            exact .fault hcall
        | yielded value next after =>
            simp only [Interpretation.countedAnswers, hrun]
            rw [hrun] at hcall
            exact .value hcall (ih _ _)
      · -- Behind the last yield of the text nothing is left to be yielded.
        have hrest : Stmt.yieldCountAll (Stmt.resumption body counter) = 0 := by
          have hbound := Stmt.yieldCountAll_resumption body counter
          omega
        obtain ⟨after, hrun⟩ := meaning.run_of_yieldCountAll_eq_zero hrest (change store)
        simp only [Interpretation.countedAnswers, hrun]
        exact .fault (ends_method_exhausted (by omega) (by omega) _)

end Simulation

/-- The class for an accepted coroutine. A call goes on behind as many yields of the
text as have been executed, and so the class answers as the source does if and only if
that count tells where the source goes on. It does in every body where no run passes a
yield by and comes to another. -/
theorem Emit.coroutine_answers_by_count {name : String} {parameters : List Parameter}
    {body : List Stmt} {bodySpan span : Span} {state after : Emit.State} {text : String}
    (haccepted : Emit.coroutine name parameters body bodySpan span state = (.ok text, after)) :
    (∃ emitted : Cpp.Resumable, text = emitted.render ∧
      emitted.fields.head? = some "int state = 0;" ∧
      emitted.nextMethod = "auto next() " ++ Cpp.braced (Cpp.Code.texts (Stmt.method body))) ∧
    (∀ {σ ν : Type} (meaning : Interpretation σ ν) (store : σ) (changes : List (σ → σ)) answers,
      Cpp.Answers meaning (Stmt.method body) 0 store changes answers ↔
        answers = meaning.countedAnswers body 0 store changes) ∧
    ((∀ {σ ν : Type} (meaning : Interpretation σ ν) (store : σ) (changes : List (σ → σ)),
      Cpp.Answers meaning (Stmt.method body) 0 store changes
        (meaning.answers body store changes)) ↔ Stmt.CountSuffices body) ∧
    (Stmt.SequentialAll body → Stmt.CountSuffices body) := by
  obtain ⟨emitted, htext, hmethod⟩ := coroutine_eq_ok haccepted
  have hcounted : ∀ {σ ν : Type} (meaning : Interpretation σ ν) (store : σ)
      (changes : List (σ → σ)) answers,
      Cpp.Answers meaning (Stmt.method body) 0 store changes answers ↔
        answers = meaning.countedAnswers body 0 store changes := by
    intro σ ν meaning store changes answers
    have hanswers := @answers_method _ _ meaning body 0 store changes
    exact ⟨fun hother => hother.unique hanswers, fun heq => heq ▸ hanswers⟩
  refine ⟨⟨emitted, htext, congrArg some (by decide), hmethod⟩, hcounted, ?_,
    Stmt.SequentialAll.countSuffices⟩
  simp only [hcounted, Stmt.countSuffices_iff, eq_comm]

/-- A body whose first yield may be passed by: `if (c) \x7b yield 1; \x7d yield 2; yield 3;`. -/
def skipping : List Stmt :=
  [.ifThen (.symbol "c" default) (.block [.yields (.number "1" default) default] default) default,
    .yields (.number "2" default) default, .yields (.number "3" default) default]

def literally : Interpretation Unit String where
  eval value _ :=
    match value with
    | .number text _ => (text, ())
    | _ => ("", ())
  holds value := value ≠ ""
  assign _ _ _ := ()
  print _ _ := ()

theorem Emit.coroutine_answers_by_count_skipping :
    ∃ text after,
      Emit.coroutine "g" [⟨"c", default⟩] skipping default default .initial = (.ok text, after) ∧
      (∃ emitted : Cpp.Resumable, text = emitted.render ∧
        emitted.nextMethod = "auto next() " ++ Cpp.braced (Cpp.Code.texts (Stmt.method skipping))) ∧
      Cpp.Answers literally (Stmt.method skipping) 0 () (List.replicate 4 fun _ => ())
        [some "2", some "2", some "3", none] ∧
      literally.answers skipping () (List.replicate 4 fun _ => ()) = [some "2", some "3", none] ∧
      ¬ Stmt.CountSuffices skipping := by
  obtain ⟨text, after, haccepted⟩ : ∃ text after,
      Emit.coroutine "g" [⟨"c", default⟩] skipping default default .initial = (.ok text, after) :=
    ⟨_, _, rfl⟩
  obtain ⟨⟨emitted, htext, _, hmethod⟩, hcounted, hsuffices, _⟩ :=
    Emit.coroutine_answers_by_count haccepted
  have hemitted : Cpp.Answers literally (Stmt.method skipping) 0 () (List.replicate 4 fun _ => ())
      [some "2", some "2", some "3", none] := by
    rw [hcounted literally () (List.replicate 4 fun _ => ())]
    cbv
  have hsource : literally.answers skipping () (List.replicate 4 fun _ => ()) =
      [some "2", some "3", none] := by
    cbv
  refine ⟨text, after, haccepted, ⟨emitted, htext, hmethod⟩, hemitted, hsource, ?_⟩
  intro hcount
  have hsame := hemitted.unique (hsuffices.2 hcount literally () (List.replicate 4 fun _ => ()))
  rw [hsource] at hsame
  contradiction

end Coroscript
