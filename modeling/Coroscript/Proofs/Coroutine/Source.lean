import Coroscript.Proofs.Static.Statements

namespace Coroscript

/-! Bodies of coroutines as the source means them: a run is suspended at a yield, and
goes on with what stands behind that yield. -/

/-- A meaning of expressions, over any values and any stores. Every evaluation may
change the store. -/
structure Interpretation (σ ν : Type) where
  eval : Expr → σ → ν × σ
  holds : ν → Bool
  assign : String → ν → σ → σ
  print : List Expr → σ → σ

inductive Progress (σ ν : Type) where
  | yielded (value : ν) (rest : List Stmt) (store : σ)
  | finished (store : σ)

namespace Stmt

mutual

def size : Stmt → Nat
  | .block body _ => sizeAll body + 1
  | .ifThen _ thenBody _ => thenBody.size + 1
  | .ifElse _ thenBody elseBody _ => thenBody.size + elseBody.size + 1
  | .expression _ _ | .define _ _ _ | .returns _ _ | .yields _ _ | .print _ _
  | .forwardFunction _ _ _ | .function _ _ _ _ _ | .forwardCoroutine _ _ _
  | .coroutine _ _ _ _ _ | .entryPoint _ _ _ _ => 1

def sizeAll : List Stmt → Nat
  | [] => 0
  | first :: others => first.size + sizeAll others

end

theorem sizeAll_append (left right : List Stmt) :
    sizeAll (left ++ right) = sizeAll left + sizeAll right := by
  induction left with
  | nil => simp [sizeAll]
  | cons first others ih =>
      simp only [List.cons_append, sizeAll, ih]
      omega

end Stmt

namespace Interpretation

variable {σ ν : Type} (meaning : Interpretation σ ν)

/-- Runs statements up to the next yield. What cannot stand in the body of a coroutine
does nothing. -/
def run : List Stmt → σ → Progress σ ν
  | [], store => .finished store
  | .block body _ :: rest, store => run (body ++ rest) store
  | .expression value _ :: rest, store => run rest (meaning.eval value store).2
  | .define name value _ :: rest, store =>
      let (result, after) := meaning.eval value store
      run rest (meaning.assign name result after)
  | .ifThen condition thenBody _ :: rest, store =>
      let (result, after) := meaning.eval condition store
      if meaning.holds result then run (thenBody :: rest) after else run rest after
  | .ifElse condition thenBody elseBody _ :: rest, store =>
      let (result, after) := meaning.eval condition store
      if meaning.holds result then run (thenBody :: rest) after else run (elseBody :: rest) after
  | .yields value _ :: rest, store =>
      let (result, after) := meaning.eval value store
      .yielded result rest after
  | .print arguments _ :: rest, store => run rest (meaning.print arguments store)
  | .returns _ _ :: rest, store | .forwardFunction _ _ _ :: rest, store
  | .function _ _ _ _ _ :: rest, store | .forwardCoroutine _ _ _ :: rest, store
  | .coroutine _ _ _ _ _ :: rest, store | .entryPoint _ _ _ _ :: rest, store => run rest store
termination_by trees => Stmt.sizeAll trees
decreasing_by all_goals simp only [Stmt.sizeAll, Stmt.size, Stmt.sizeAll_append]; omega

/-- The answers to successive calls, up to the first that finds the coroutine over.
Before each call the caller may change the store. -/
def answers : List Stmt → σ → List (σ → σ) → List (Option ν)
  | _, _, [] => []
  | rest, store, change :: later =>
      match meaning.run rest (change store) with
      | .yielded value rest store => some value :: answers rest store later
      | .finished _ => [none]

end Interpretation

end Coroscript
