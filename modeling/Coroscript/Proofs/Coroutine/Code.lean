import Coroscript.Cpp.Resumable
import Coroscript.Proofs.Coroutine.Source

namespace Coroscript.Cpp

/-! The statements that the method `next` of an emitted class is made of: their texts,
and what a call of the method does. -/

inductive Code where
  | evaluate (value : Expr)
  | assign (name : String) (value : Expr)
  | print (arguments : List Expr)
  | block (body : List Code)
  | ifThen (condition : Expr) (thenBody : List Code)
  | ifElse (condition : Expr) (thenBody elseBody : List Code)
  | count
  | give (value : Expr)
  | label (name : String)
  -- Jumps to the label for the counter, and faults if there is none.
  | switch (cases : List (Nat × String))
  | fault

namespace Code

def caseText (target : Nat × String) : String :=
  "case " ++ toString target.1 ++ ": goto " ++ target.2 ++ ";"

mutual

def text : Code → String
  | .evaluate value => terminate (Emit.exprText value)
  | .assign name value => name ++ " = " ++ Emit.exprText value ++ ";"
  | .print arguments =>
      "std::cout" ++ String.join ((arguments.map Emit.streamText).map (" << " ++ ·)) ++
        " << \"\\n\";"
  | .block body => braced (texts body)
  | .ifThen condition thenBody =>
      "if " ++ Emit.inParens (Emit.exprText condition) ++ " " ++ braced (texts thenBody)
  | .ifElse condition thenBody elseBody =>
      "if " ++ Emit.inParens (Emit.exprText condition) ++ " " ++ braced (texts thenBody) ++
        " else " ++ braced (texts elseBody)
  | .count => stateField ++ "++;"
  | .give value => "return " ++ Emit.exprText value ++ ";"
  | .label name => name ++ ":;"
  | .switch cases =>
      "switch (" ++ stateField ++ ") " ++ braced (cases.map caseText ++ ["default: " ++ exhausted])
  | .fault => exhausted

def texts : List Code → List String
  | [] => []
  | first :: others => first.text :: texts others

end

mutual

def seek (name : String) : Code → Option (List Code)
  | .block body => seekAll name body
  | .ifThen _ thenBody => seekAll name thenBody
  | .ifElse _ thenBody elseBody => (seekAll name thenBody).or (seekAll name elseBody)
  | .label other => if other = name then some [] else none
  | .evaluate _ | .assign _ _ | .print _ | .count | .give _ | .switch _ | .fault => none

def seekAll (name : String) : List Code → Option (List Code)
  | [] => none
  | first :: others => ((seek name first).map (· ++ others)).or (seekAll name others)

end

end Code

inductive Outcome (σ ν : Type) where
  | value (value : ν) (counter : Nat) (store : σ)
  | fault (counter : Nat) (store : σ)

variable {σ ν : Type}

/-- How the method `program` ends if it goes on with some of its statements. -/
inductive Ends (meaning : Interpretation σ ν) (program : List Code) :
    List Code → Nat → σ → Outcome σ ν → Prop where
  | evaluate {value rest counter store outcome} :
      Ends meaning program rest counter (meaning.eval value store).2 outcome →
      Ends meaning program (.evaluate value :: rest) counter store outcome
  | assign {name value rest counter store outcome} :
      Ends meaning program rest counter
        (meaning.assign name (meaning.eval value store).1 (meaning.eval value store).2) outcome →
      Ends meaning program (.assign name value :: rest) counter store outcome
  | print {arguments rest counter store outcome} :
      Ends meaning program rest counter (meaning.print arguments store) outcome →
      Ends meaning program (.print arguments :: rest) counter store outcome
  | block {body rest counter store outcome} :
      Ends meaning program (body ++ rest) counter store outcome →
      Ends meaning program (.block body :: rest) counter store outcome
  | ifThen {condition thenBody rest counter store outcome} :
      Ends meaning program
        ((if meaning.holds (meaning.eval condition store).1 then thenBody else []) ++ rest)
        counter (meaning.eval condition store).2 outcome →
      Ends meaning program (.ifThen condition thenBody :: rest) counter store outcome
  | ifElse {condition thenBody elseBody rest counter store outcome} :
      Ends meaning program
        ((if meaning.holds (meaning.eval condition store).1 then thenBody else elseBody) ++ rest)
        counter (meaning.eval condition store).2 outcome →
      Ends meaning program (.ifElse condition thenBody elseBody :: rest) counter store outcome
  | count {rest counter store outcome} :
      Ends meaning program rest (counter + 1) store outcome →
      Ends meaning program (.count :: rest) counter store outcome
  | give {value rest counter store} :
      Ends meaning program (.give value :: rest) counter store
        (.value (meaning.eval value store).1 counter (meaning.eval value store).2)
  | label {name rest counter store outcome} :
      Ends meaning program rest counter store outcome →
      Ends meaning program (.label name :: rest) counter store outcome
  | jump {cases name rest target counter store outcome} :
      cases.lookup counter = some name → Code.seekAll name program = some target →
      Ends meaning program target counter store outcome →
      Ends meaning program (.switch cases :: rest) counter store outcome
  | noCase {cases rest counter store} :
      cases.lookup counter = none →
      Ends meaning program (.switch cases :: rest) counter store (.fault counter store)
  | fault {rest counter store} :
      Ends meaning program (.fault :: rest) counter store (.fault counter store)

theorem Ends.unique {meaning : Interpretation σ ν} {program code : List Code} {counter : Nat}
    {store : σ} {first second : Outcome σ ν}
    (hfirst : Ends meaning program code counter store first)
    (hsecond : Ends meaning program code counter store second) : first = second := by
  induction hfirst with
  | give =>
      cases hsecond
      rfl
  | fault =>
      cases hsecond
      rfl
  | noCase hnone =>
      cases hsecond with
      | noCase => rfl
      | jump hsome => rw [hnone] at hsome; contradiction
  | jump hname htarget _ ih =>
      cases hsecond with
      | noCase hnone => rw [hname] at hnone; contradiction
      | jump hname' htarget' htail =>
          obtain rfl := Option.some.inj (hname.symm.trans hname')
          obtain rfl := Option.some.inj (htarget.symm.trans htarget')
          exact ih htail
  | _ =>
      rename_i ih
      cases hsecond
      rename_i htail
      exact ih htail

/-- The answers to successive calls of the method, up to the first fault. Before each
call the caller may change the store, but not the counter. -/
inductive Answers (meaning : Interpretation σ ν) (program : List Code) :
    Nat → σ → List (σ → σ) → List (Option ν) → Prop where
  | done {counter store} : Answers meaning program counter store [] []
  | value {counter counter' store store' change later value answers} :
      Ends meaning program program counter (change store) (.value value counter' store') →
      Answers meaning program counter' store' later answers →
      Answers meaning program counter store (change :: later) (some value :: answers)
  | fault {counter counter' store store' change later} :
      Ends meaning program program counter (change store) (.fault counter' store') →
      Answers meaning program counter store (change :: later) [none]

theorem Answers.unique {meaning : Interpretation σ ν} {program : List Code} {counter : Nat}
    {store : σ} {changes : List (σ → σ)} {first second : List (Option ν)}
    (hfirst : Answers meaning program counter store changes first)
    (hsecond : Answers meaning program counter store changes second) : first = second := by
  induction hfirst generalizing second with
  | done =>
      cases hsecond
      rfl
  | value hcall _ ih =>
      cases hsecond with
      | value hcall' hlater =>
          cases hcall.unique hcall'
          rw [ih hlater]
      | fault hcall' => cases hcall.unique hcall'
  | fault hcall =>
      cases hsecond with
      | value hcall' _ => cases hcall.unique hcall'
      | fault _ => rfl

end Coroscript.Cpp
