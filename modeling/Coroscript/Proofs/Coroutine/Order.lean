import Coroscript.Proofs.Coroutine.Source

namespace Coroscript

/-! The yields of a body in the order of its text. -/

namespace Stmt

mutual

/-- What stands behind each yield of a statement that is followed by `rest`, in the
order of the text. -/
def resumptions (rest : List Stmt) : Stmt → List (List Stmt)
  | .block body _ => resumptionsAll rest body
  | .ifThen _ thenBody _ => thenBody.resumptions rest
  | .ifElse _ thenBody elseBody _ => thenBody.resumptions rest ++ elseBody.resumptions rest
  | .yields _ _ => [rest]
  | .expression _ _ | .define _ _ _ | .returns _ _ | .print _ _ | .forwardFunction _ _ _
  | .function _ _ _ _ _ | .forwardCoroutine _ _ _ | .coroutine _ _ _ _ _
  | .entryPoint _ _ _ _ => []

def resumptionsAll (rest : List Stmt) : List Stmt → List (List Stmt)
  | [] => []
  | first :: others => first.resumptions (others ++ rest) ++ resumptionsAll rest others

end

theorem yieldCountAll_append (left right : List Stmt) :
    yieldCountAll (left ++ right) = yieldCountAll left + yieldCountAll right := by
  induction left with
  | nil => simp [yieldCountAll]
  | cons first others ih =>
      simp only [List.cons_append, yieldCountAll, ih]
      omega

theorem resumptionsAll_append (rest left right : List Stmt) :
    resumptionsAll rest (left ++ right) =
      resumptionsAll (right ++ rest) left ++ resumptionsAll rest right := by
  induction left with
  | nil => rfl
  | cons first others ih => simp [resumptionsAll, ih]

mutual

theorem length_resumptions (rest : List Stmt) :
    ∀ (tree : Stmt), (tree.resumptions rest).length = tree.yieldCount
  | .block body _ => length_resumptionsAll rest body
  | .ifThen _ thenBody _ => length_resumptions rest thenBody
  | .ifElse _ thenBody elseBody _ => by
      rw [resumptions, List.length_append, length_resumptions rest thenBody,
        length_resumptions rest elseBody, yieldCount]
  | .yields _ _ | .expression _ _ | .define _ _ _ | .returns _ _ | .print _ _
  | .forwardFunction _ _ _ | .function _ _ _ _ _ | .forwardCoroutine _ _ _
  | .coroutine _ _ _ _ _ | .entryPoint _ _ _ _ => rfl

theorem length_resumptionsAll (rest : List Stmt) :
    ∀ (trees : List Stmt), (resumptionsAll rest trees).length = yieldCountAll trees
  | [] => rfl
  | first :: others => by
      rw [resumptionsAll, List.length_append, length_resumptions (others ++ rest) first,
        length_resumptionsAll rest others, yieldCountAll]

end

mutual

theorem yieldCountAll_resumptions (rest : List Stmt) : ∀ (tree : Stmt) {index : Nat}
    {point : List Stmt}, (tree.resumptions rest)[index]? = some point →
      yieldCountAll point + index < tree.yieldCount + yieldCountAll rest
  | .block body _, index, point, hpoint => yieldCountAll_resumptionsAll rest body hpoint
  | .ifThen _ thenBody _, index, point, hpoint => yieldCountAll_resumptions rest thenBody hpoint
  | .ifElse _ thenBody elseBody _, index, point, hpoint => by
      rw [resumptions, List.getElem?_append] at hpoint
      have hlength := length_resumptions rest thenBody
      rw [yieldCount]
      split at hpoint
      · have hthen := yieldCountAll_resumptions rest thenBody hpoint
        omega
      · have helse := yieldCountAll_resumptions rest elseBody hpoint
        omega
  | .yields _ _, index, point, hpoint => by
      cases index with
      | zero =>
          obtain rfl := Option.some.inj hpoint
          rw [yieldCount]
          omega
      | succ index => simp [resumptions] at hpoint

theorem yieldCountAll_resumptionsAll (rest : List Stmt) : ∀ (trees : List Stmt) {index : Nat}
    {point : List Stmt}, (resumptionsAll rest trees)[index]? = some point →
      yieldCountAll point + index < yieldCountAll trees + yieldCountAll rest
  | first :: others, index, point, hpoint => by
      rw [resumptionsAll, List.getElem?_append] at hpoint
      have hlength := length_resumptions (others ++ rest) first
      rw [yieldCountAll]
      split at hpoint
      · have hfirst := yieldCountAll_resumptions (others ++ rest) first hpoint
        rw [yieldCountAll_append] at hfirst
        omega
      · have hothers := yieldCountAll_resumptionsAll rest others hpoint
        omega

end

/-- What stands behind the first `count` yields of the text: all of the body if `count`
is zero, and nothing if there are fewer yields. -/
def resumption (body : List Stmt) : Nat → List Stmt
  | 0 => body
  | count + 1 => (resumptionsAll [] body)[count]?.getD []

theorem yieldCountAll_resumption (body : List Stmt) (count : Nat) :
    yieldCountAll (resumption body count) ≤ yieldCountAll body - count := by
  cases count with
  | zero => exact Nat.le_refl _
  | succ index =>
      rw [resumption]
      cases hpoint : (resumptionsAll [] body)[index]? with
      | none => exact Nat.zero_le _
      | some point =>
          have hless := yieldCountAll_resumptionsAll [] body hpoint
          simp only [Option.getD_some]
          simp only [yieldCountAll] at hless
          omega

end Stmt

namespace Interpretation

variable {σ ν : Type} (meaning : Interpretation σ ν)

theorem yieldCountAll_of_run {trees rest : List Stmt} {store after : σ} {value : ν}
    (hrun : meaning.run trees store = .yielded value rest after) :
    Stmt.yieldCountAll rest < Stmt.yieldCountAll trees := by
  fun_induction run meaning trees store with
  | case1 => contradiction
  | case2 body span rest' store ih =>
      have hless := ih hrun
      rwa [Stmt.yieldCountAll_append] at hless
  | case9 value' span rest' store result after' heval =>
      obtain ⟨_, rfl, _⟩ := Progress.yielded.inj hrun
      simp [Stmt.yieldCountAll, Stmt.yieldCount]
  | _ =>
      rename_i ih
      have hless := ih hrun
      simp only [Stmt.yieldCountAll, Stmt.yieldCount] at hless ⊢
      omega

theorem run_of_yieldCountAll_eq_zero {trees : List Stmt} (hcount : Stmt.yieldCountAll trees = 0)
    (store : σ) : ∃ after, meaning.run trees store = .finished after := by
  cases hrun : meaning.run trees store with
  | finished after => exact ⟨after, rfl⟩
  | yielded value rest after =>
      have hless := meaning.yieldCountAll_of_run hrun
      omega

end Interpretation

namespace Stmt

mutual

/-- Every run through the statement executes all its yields. -/
def Certain : Stmt → Prop
  | .block body _ => CertainAll body
  | .ifThen _ thenBody _ => thenBody.yieldCount = 0
  | .ifElse _ thenBody elseBody _ => thenBody.yieldCount = 0 ∧ elseBody.yieldCount = 0
  | .yields _ _ | .expression _ _ | .define _ _ _ | .returns _ _ | .print _ _
  | .forwardFunction _ _ _ | .function _ _ _ _ _ | .forwardCoroutine _ _ _
  | .coroutine _ _ _ _ _ | .entryPoint _ _ _ _ => True

def CertainAll : List Stmt → Prop
  | [] => True
  | first :: others => first.Certain ∧ CertainAll others

end

mutual

/-- No run passes a yield by and comes to another one. -/
def Sequential : Stmt → Prop
  | .block body _ => SequentialAll body
  | .ifThen _ thenBody _ => thenBody.Sequential
  | .ifElse _ thenBody elseBody _ =>
      thenBody.Sequential ∧ elseBody.Sequential ∧
        (thenBody.yieldCount = 0 ∨ elseBody.yieldCount = 0)
  | .yields _ _ | .expression _ _ | .define _ _ _ | .returns _ _ | .print _ _
  | .forwardFunction _ _ _ | .function _ _ _ _ _ | .forwardCoroutine _ _ _
  | .coroutine _ _ _ _ _ | .entryPoint _ _ _ _ => True

def SequentialAll : List Stmt → Prop
  | [] => True
  | first :: others =>
      first.Sequential ∧ SequentialAll others ∧ (first.Certain ∨ yieldCountAll others = 0)

end

mutual

theorem certain_of_yieldCount_eq_zero : ∀ (tree : Stmt), tree.yieldCount = 0 → tree.Certain
  | .block body _, hcount => certainAll_of_yieldCountAll_eq_zero body hcount
  | .ifThen _ _ _, hcount => hcount
  | .ifElse _ _ _ _, hcount => Nat.add_eq_zero_iff.1 hcount
  | .yields _ _, _ | .expression _ _, _ | .define _ _ _, _ | .returns _ _, _ | .print _ _, _
  | .forwardFunction _ _ _, _ | .function _ _ _ _ _, _ | .forwardCoroutine _ _ _, _
  | .coroutine _ _ _ _ _, _ | .entryPoint _ _ _ _, _ => trivial

theorem certainAll_of_yieldCountAll_eq_zero :
    ∀ (trees : List Stmt), yieldCountAll trees = 0 → CertainAll trees
  | [], _ => trivial
  | first :: others, hcount =>
      ⟨certain_of_yieldCount_eq_zero first (Nat.add_eq_zero_iff.1 hcount).1,
        certainAll_of_yieldCountAll_eq_zero others (Nat.add_eq_zero_iff.1 hcount).2⟩

end

theorem sequentialAll_append {left right : List Stmt} (hleft : SequentialAll left)
    (hright : SequentialAll right) (hboth : CertainAll left ∨ yieldCountAll right = 0) :
    SequentialAll (left ++ right) := by
  induction left with
  | nil => exact hright
  | cons first others ih =>
      obtain ⟨hfirst, hothers, hlater⟩ := hleft
      rw [List.cons_append, SequentialAll, yieldCountAll_append]
      refine ⟨hfirst, ih hothers (hboth.imp_left And.right), ?_⟩
      rcases hboth with hcertain | hnone
      · exact .inl hcertain.1
      · rw [hnone]
        exact hlater

theorem resumptions_eq_nil {tree : Stmt} (hcount : tree.yieldCount = 0) (rest : List Stmt) :
    tree.resumptions rest = [] :=
  List.eq_nil_of_length_eq_zero ((length_resumptions rest tree).trans hcount)

end Stmt

namespace Interpretation

variable {σ ν : Type} (meaning : Interpretation σ ν)

theorem resumptionsAll_of_run {trees rest : List Stmt} {store after : σ} {value : ν}
    (htrees : Stmt.SequentialAll trees)
    (hrun : meaning.run trees store = .yielded value rest after) :
    Stmt.resumptionsAll [] trees = rest :: Stmt.resumptionsAll [] rest ∧
      Stmt.SequentialAll rest := by
  fun_induction run meaning trees store with
  | case1 => contradiction
  | case2 body span rest' store ih =>
      obtain ⟨hbody, hrest, hboth⟩ := htrees
      have hnext := ih (Stmt.sequentialAll_append hbody hrest hboth) hrun
      rw [Stmt.resumptionsAll_append] at hnext
      exact hnext
  | case5 condition thenBody span rest' store result after' heval hholds ih =>
      obtain ⟨hthen, hrest, hboth⟩ := htrees
      exact ih ⟨hthen, hrest, hboth.imp_left (Stmt.certain_of_yieldCount_eq_zero thenBody)⟩ hrun
  | case6 condition thenBody span rest' store result after' heval hholds ih =>
      obtain ⟨hthen, hrest, hboth⟩ := htrees
      have hmore := meaning.yieldCountAll_of_run hrun
      -- The branch is passed by and a yield comes later, so the branch has none.
      have hskipped : thenBody.yieldCount = 0 := hboth.resolve_right (by omega)
      rw [Stmt.resumptionsAll, Stmt.resumptions, Stmt.resumptions_eq_nil hskipped]
      exact ih hrest hrun
  | case7 condition thenBody elseBody span rest' store result after' heval hholds ih =>
      obtain ⟨⟨hthen, helse, hone⟩, hrest, hboth⟩ := htrees
      have hmore := meaning.yieldCountAll_of_run hrun
      rw [Stmt.yieldCountAll] at hmore
      have hskipped : elseBody.yieldCount = 0 := by
        simp only [Stmt.Certain] at hboth
        omega
      have hsequential : Stmt.SequentialAll (thenBody :: rest') :=
        ⟨hthen, hrest, hboth.imp_left fun hcertain =>
          Stmt.certain_of_yieldCount_eq_zero thenBody hcertain.1⟩
      rw [Stmt.resumptionsAll, Stmt.resumptions, Stmt.resumptions_eq_nil hskipped,
        List.append_nil]
      exact ih hsequential hrun
  | case8 condition thenBody elseBody span rest' store result after' heval hholds ih =>
      obtain ⟨⟨hthen, helse, hone⟩, hrest, hboth⟩ := htrees
      have hmore := meaning.yieldCountAll_of_run hrun
      rw [Stmt.yieldCountAll] at hmore
      have hskipped : thenBody.yieldCount = 0 := by
        simp only [Stmt.Certain] at hboth
        omega
      have hsequential : Stmt.SequentialAll (elseBody :: rest') :=
        ⟨helse, hrest, hboth.imp_left fun hcertain =>
          Stmt.certain_of_yieldCount_eq_zero elseBody hcertain.2⟩
      rw [Stmt.resumptionsAll, Stmt.resumptions, Stmt.resumptions_eq_nil hskipped,
        List.nil_append]
      exact ih hsequential hrun
  | case9 value' span rest' store result after' heval =>
      obtain ⟨_, rfl, _⟩ := Progress.yielded.inj hrun
      refine ⟨?_, htrees.2.1⟩
      simp [Stmt.resumptionsAll, Stmt.resumptions]
  | _ =>
      rename_i ih
      exact ih htrees.2.1 hrun

end Interpretation

end Coroscript
