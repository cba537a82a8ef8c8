import Coroscript.Proofs.Coroutine.Resumption

namespace Coroscript

/-! Coroutines none of whose yields stands in a branch: each call runs one stretch of the body,
from one yield to the next. -/

namespace Stmt

mutual

/-- The statements of a statement whose braces are left out. Those of branches stay. -/
def inline : Stmt → List Stmt
  | .block body _ => inlineAll body
  | tree => [tree]

def inlineAll : List Stmt → List Stmt
  | [] => []
  | first :: others => first.inline ++ inlineAll others

end

theorem inlineAll_append (left right : List Stmt) :
    inlineAll (left ++ right) = inlineAll left ++ inlineAll right := by
  induction left with
  | nil => rfl
  | cons first others ih => rw [List.cons_append, inlineAll, inlineAll, ih, List.append_assoc]

/-- A yield, or a statement that holds none. -/
def Simple (tree : Stmt) : Prop :=
  tree.yieldCount = 0 ∨ ∃ value span, tree = .yields value span

theorem Simple.yieldCount_eq_zero {tree : Stmt} (hsimple : tree.Simple)
    (htree : ∀ value span, tree = .yields value span → False) : tree.yieldCount = 0 := by
  rcases hsimple with hnone | ⟨value, span, rfl⟩
  · exact hnone
  · exact (htree value span rfl).elim

mutual

theorem simple_inline : ∀ (tree : Stmt), tree.Certain → ∀ part ∈ tree.inline, part.Simple
  | .block body _, hcertain => by
      rw [Certain] at hcertain
      exact simple_inlineAll body hcertain
  | .yields value span, _ => List.forall_mem_singleton.2 (.inr ⟨value, span, rfl⟩)
  | .ifThen _ _ _, hcertain => by
      rw [Certain] at hcertain
      exact List.forall_mem_singleton.2 (.inl hcertain)
  | .ifElse _ _ _ _, hcertain => by
      rw [Certain] at hcertain
      refine List.forall_mem_singleton.2 (.inl ?_)
      rw [yieldCount, hcertain.1, hcertain.2]
  | .expression _ _, _ | .define _ _ _, _ | .returns _ _, _ | .print _ _, _
  | .forwardFunction _ _ _, _ | .function _ _ _ _ _, _ | .forwardCoroutine _ _ _, _
  | .coroutine _ _ _ _ _, _ | .entryPoint _ _ _ _, _ => List.forall_mem_singleton.2 (.inl rfl)

theorem simple_inlineAll : ∀ (trees : List Stmt), CertainAll trees →
    ∀ part ∈ inlineAll trees, part.Simple
  | [], _ => by simp [inlineAll]
  | first :: others, hcertain => by
      rw [CertainAll] at hcertain
      rw [inlineAll]
      exact List.forall_mem_append.2
        ⟨simple_inline first hcertain.1, simple_inlineAll others hcertain.2⟩

end

mutual

theorem yieldCountAll_inline : ∀ tree : Stmt, yieldCountAll tree.inline = tree.yieldCount
  | .block body _ => yieldCountAll_inlineAll body
  | .yields _ _ | .ifThen _ _ _ | .ifElse _ _ _ _ | .expression _ _ | .define _ _ _ | .returns _ _
  | .print _ _ | .forwardFunction _ _ _ | .function _ _ _ _ _ | .forwardCoroutine _ _ _
  | .coroutine _ _ _ _ _ | .entryPoint _ _ _ _ => rfl

theorem yieldCountAll_inlineAll : ∀ trees : List Stmt,
    yieldCountAll (inlineAll trees) = yieldCountAll trees
  | [] => rfl
  | first :: others => by
      rw [inlineAll, yieldCountAll_append, yieldCountAll_inline first,
        yieldCountAll_inlineAll others, yieldCountAll]

end

theorem resumptionsAll_eq_nil {trees : List Stmt} (htrees : yieldCountAll trees = 0)
    (rest : List Stmt) : resumptionsAll rest trees = [] :=
  List.eq_nil_of_length_eq_zero ((length_resumptionsAll rest trees).trans htrees)

theorem inlineAll_resumptions_eq_nil {tree : Stmt} (htree : tree.yieldCount = 0)
    (rest : List Stmt) :
    (tree.resumptions rest).map inlineAll = resumptionsAll (inlineAll rest) [tree] := by
  rw [resumptions_eq_nil htree, List.map_nil, resumptionsAll, resumptions_eq_nil htree]
  rfl

mutual

/-- Without braces the places behind yields are the same. -/
theorem inlineAll_resumptions (rest : List Stmt) : ∀ (tree : Stmt), tree.Certain →
    (tree.resumptions rest).map inlineAll = resumptionsAll (inlineAll rest) tree.inline
  | .block body _, hcertain => by
      rw [Certain] at hcertain
      exact inlineAll_resumptionsAll rest body hcertain
  | .ifThen _ _ _, hcertain => by
      rw [Certain] at hcertain
      exact inlineAll_resumptions_eq_nil hcertain rest
  | .ifElse _ _ _ _, hcertain => by
      rw [Certain] at hcertain
      refine inlineAll_resumptions_eq_nil ?_ rest
      rw [yieldCount, hcertain.1, hcertain.2]
  | .yields _ _, _ => rfl
  | .expression _ _, _ | .define _ _ _, _ | .returns _ _, _ | .print _ _, _
  | .forwardFunction _ _ _, _ | .function _ _ _ _ _, _ | .forwardCoroutine _ _ _, _
  | .coroutine _ _ _ _ _, _ | .entryPoint _ _ _ _, _ => rfl

theorem inlineAll_resumptionsAll (rest : List Stmt) : ∀ (trees : List Stmt), CertainAll trees →
    (resumptionsAll rest trees).map inlineAll =
      resumptionsAll (inlineAll rest) (inlineAll trees)
  | [], _ => rfl
  | first :: others, hcertain => by
      rw [CertainAll] at hcertain
      rw [resumptionsAll, List.map_append, inlineAll_resumptions _ first hcertain.1,
        inlineAll_resumptionsAll rest others hcertain.2, inlineAll_append, inlineAll,
        resumptionsAll_append]

end

end Stmt

/-- The statements up to a yield, and the yield. -/
structure Stretch where
  statements : List Stmt
  value : Expr
  span : Span

namespace Stretch

def trees (stretch : Stretch) : List Stmt :=
  stretch.statements ++ [.yields stretch.value stretch.span]

/-- Stretches without other yields than their last statements, and a rest without any. -/
structure Divide (trees : List Stmt) (stretches : List Stretch) (tail : List Stmt) : Prop where
  joined : trees = stretches.flatMap Stretch.trees ++ tail
  statements : ∀ stretch ∈ stretches, Stmt.yieldCountAll stretch.statements = 0
  tail : Stmt.yieldCountAll tail = 0

/-- Cuts statements behind each yield that is one of them. -/
def cut : List Stmt → List Stretch × List Stmt
  | [] => ([], [])
  | .yields value span :: others => (⟨[], value, span⟩ :: (cut others).1, (cut others).2)
  | first :: others =>
      match cut others with
      | ([], tail) => ([], first :: tail)
      | (next :: stretches, tail) =>
          ({ next with statements := first :: next.statements } :: stretches, tail)

theorem divide_cut {trees : List Stmt} (htrees : ∀ tree ∈ trees, tree.Simple) :
    Divide trees (cut trees).1 (cut trees).2 := by
  fun_induction cut trees with
  | case1 => exact ⟨rfl, by simp, rfl⟩
  | case2 value span others ih =>
      have hdivide := ih (List.forall_mem_cons.1 htrees).2
      refine ⟨?_, List.forall_mem_cons.2 ⟨rfl, hdivide.statements⟩, hdivide.tail⟩
      exact congrArg (Stmt.yields value span :: ·) hdivide.joined
  | case3 first others hfirst tail hcut ih =>
      rw [List.forall_mem_cons] at htrees
      have hdivide := ih htrees.2
      rw [hcut] at hdivide
      refine ⟨congrArg (first :: ·) hdivide.joined, by simp, ?_⟩
      rw [Stmt.yieldCountAll, htrees.1.yieldCount_eq_zero hfirst, hdivide.tail]
  | case4 first others hfirst next stretches tail hcut ih =>
      rw [List.forall_mem_cons] at htrees
      have hdivide := ih htrees.2
      rw [hcut] at hdivide
      have hnext := List.forall_mem_cons.1 hdivide.statements
      refine ⟨congrArg (first :: ·) hdivide.joined, List.forall_mem_cons.2 ⟨?_, hnext.2⟩,
        hdivide.tail⟩
      rw [Stmt.yieldCountAll, htrees.1.yieldCount_eq_zero hfirst, hnext.1]

theorem Divide.length_eq {trees tail : List Stmt} {stretches : List Stretch}
    (hdivide : Divide trees stretches tail) : stretches.length = Stmt.yieldCountAll trees := by
  induction stretches generalizing trees with
  | nil =>
      rw [hdivide.joined]
      exact hdivide.tail.symm
  | cons first others ih =>
      have hstatements := List.forall_mem_cons.1 hdivide.statements
      have hothers := ih ⟨rfl, hstatements.2, hdivide.tail⟩
      rw [hdivide.joined, List.flatMap_cons, List.append_assoc, Stmt.yieldCountAll_append,
        Stretch.trees, Stmt.yieldCountAll_append, hstatements.1, ← hothers, List.length_cons,
        Nat.zero_add, Nat.add_comm]
      rfl

theorem lt_of_drop_eq_cons {stretches others : List Stretch} {stretch : Stretch} {count : Nat}
    (hstretch : stretches.drop count = stretch :: others) : count < stretches.length := by
  have hlength := congrArg List.length hstretch
  rw [List.length_drop, List.length_cons] at hlength
  omega

theorem resumptionsAll_trees {stretch : Stretch}
    (hstatements : Stmt.yieldCountAll stretch.statements = 0) (rest : List Stmt) :
    Stmt.resumptionsAll [] (stretch.trees ++ rest) = rest :: Stmt.resumptionsAll [] rest := by
  rw [trees, List.append_assoc, Stmt.resumptionsAll_append,
    Stmt.resumptionsAll_eq_nil hstatements, List.nil_append, List.singleton_append,
    Stmt.resumptionsAll, Stmt.resumptions, List.append_nil, List.singleton_append]

theorem Divide.resumptionsAll {trees tail : List Stmt} {stretches : List Stretch}
    (hdivide : Divide trees stretches tail) {index : Nat} (hindex : index < stretches.length) :
    (Stmt.resumptionsAll [] trees)[index]? =
      some ((stretches.drop (index + 1)).flatMap Stretch.trees ++ tail) := by
  induction stretches generalizing trees index with
  | nil => simp at hindex
  | cons first others ih =>
      have hstatements := List.forall_mem_cons.1 hdivide.statements
      rw [hdivide.joined, List.flatMap_cons, List.append_assoc,
        resumptionsAll_trees hstatements.1]
      cases index with
      | zero => rfl
      | succ index =>
          exact ih ⟨rfl, hstatements.2, hdivide.tail⟩ (Nat.lt_of_succ_lt_succ hindex)

/-- What stands behind the first `count` yields, without its braces. -/
theorem Divide.resumption {body tail : List Stmt} {stretches : List Stretch}
    (hdivide : Divide (Stmt.inlineAll body) stretches tail) (hcertain : Stmt.CertainAll body)
    {count : Nat} (hcount : count ≤ stretches.length) :
    Stmt.inlineAll (Stmt.resumption body count) =
      (stretches.drop count).flatMap Stretch.trees ++ tail := by
  cases count with
  | zero => exact hdivide.joined
  | succ index =>
      have hpoints := Stmt.inlineAll_resumptionsAll [] body hcertain
      have hpoint := hdivide.resumptionsAll hcount
      rw [show ([] : List Stmt) = Stmt.inlineAll [] from rfl, ← hpoints, List.getElem?_map,
        Option.map_eq_some_iff] at hpoint
      obtain ⟨point, hfound, heq⟩ := hpoint
      rw [Stmt.resumption, hfound]
      exact heq

end Stretch

namespace Interpretation

variable {σ ν : Type} (meaning : Interpretation σ ν)

theorem run_append (left right : List Stmt) (store : σ) :
    meaning.run (left ++ right) store =
      match meaning.run left store with
      | .finished after => meaning.run right after
      | .yielded value rest after => .yielded value (rest ++ right) after := by
  fun_induction run meaning left store with
  | case1 => rfl
  | case2 body span rest store ih =>
      rw [List.cons_append, run, ← List.append_assoc]
      exact ih
  | case4 name value span rest store result after heval ih =>
      rw [List.cons_append, run, heval]
      exact ih
  | case5 condition thenBody span rest store result after heval hholds ih
  | case6 condition thenBody span rest store result after heval hholds ih
  | case7 condition thenBody elseBody span rest store result after heval hholds ih
  | case8 condition thenBody elseBody span rest store result after heval hholds ih =>
      rw [List.cons_append, run]
      simp only [heval, hholds]
      exact ih
  | case9 value span rest store result after heval =>
      rw [List.cons_append, run, heval]
  | _ =>
      rename_i ih
      rw [List.cons_append, run]
      exact ih

/-- The store behind statements that yield nothing. -/
def execute (trees : List Stmt) (store : σ) : σ :=
  match meaning.run trees store with
  | .finished after => after
  | .yielded _ _ after => after

theorem run_append_of_yieldCountAll {left : List Stmt} (hleft : Stmt.yieldCountAll left = 0)
    (right : List Stmt) (store : σ) :
    meaning.run (left ++ right) store = meaning.run right (meaning.execute left store) := by
  obtain ⟨after, hrun⟩ := meaning.run_of_yieldCountAll_eq_zero hleft store
  rw [run_append, execute, hrun]

/-- Bodies that come to the same yield with the same store. -/
def Alike (left right : List Stmt) : Prop :=
  ∀ counter store, (meaning.run left store).outcome counter =
    (meaning.run right store).outcome counter

theorem Alike.behind {meaning : Interpretation σ ν} {left right : List Stmt}
    (halike : meaning.Alike left right) (before : List Stmt) :
    meaning.Alike (before ++ left) (before ++ right) := by
  intro counter store
  rw [run_append, run_append]
  cases meaning.run before store with
  | finished after => exact halike counter after
  | yielded value rest after => rfl

mutual

theorem alike_inline (rest : List Stmt) : ∀ tree : Stmt,
    meaning.Alike (tree :: rest) (tree.inline ++ rest)
  | .block body span => by
      intro counter store
      rw [run]
      exact alike_inlineAll rest body counter store
  | .yields _ _ | .ifThen _ _ _ | .ifElse _ _ _ _ | .expression _ _ | .define _ _ _ | .returns _ _
  | .print _ _ | .forwardFunction _ _ _ | .function _ _ _ _ _ | .forwardCoroutine _ _ _
  | .coroutine _ _ _ _ _ | .entryPoint _ _ _ _ => fun _ _ => rfl

/-- Braces do not matter. -/
theorem alike_inlineAll (rest : List Stmt) : ∀ trees : List Stmt,
    meaning.Alike (trees ++ rest) (Stmt.inlineAll trees ++ rest)
  | [] => fun _ _ => rfl
  | first :: others => by
      intro counter store
      rw [Stmt.inlineAll, List.append_assoc, List.cons_append]
      exact (alike_inline (others ++ rest) first counter store).trans
        ((alike_inlineAll rest others).behind first.inline counter store)

end

/-- What a stretch does: its statements, and then the value of its yield. -/
def deliver (stretch : Stretch) (store : σ) : ν × σ :=
  meaning.eval stretch.value (meaning.execute stretch.statements store)

/-- The outcomes of successive calls of a coroutine that has `stretches` left, and has yielded
`count` values. Before each call the caller may change the store. -/
def deliveries : List Stretch → Nat → σ → List (σ → σ) → List (Cpp.Outcome σ ν)
  | _, _, _, [] => []
  | [], count, store, change :: later =>
      .fault count (change store) :: deliveries [] count (change store) later
  | stretch :: others, count, store, change :: later =>
      let (result, after) := meaning.deliver stretch (change store)
      .value result (count + 1) after :: deliveries others (count + 1) after later

end Interpretation

namespace Cpp

variable {σ ν : Type}

def Outcome.counter : Outcome σ ν → Nat
  | .value _ counter _ | .fault counter _ => counter

def Outcome.store : Outcome σ ν → σ
  | .value _ _ store | .fault _ store => store

/-- The outcomes of successive calls of the method, those after a fault included. -/
inductive Calls (meaning : Interpretation σ ν) (program : List Code) :
    Nat → σ → List (σ → σ) → List (Outcome σ ν) → Prop where
  | done {counter store} : Calls meaning program counter store [] []
  | call {counter store change later outcome outcomes}
      (hcall : Ends meaning program program counter (change store) outcome)
      (hlater : Calls meaning program outcome.counter outcome.store later outcomes) :
      Calls meaning program counter store (change :: later) (outcome :: outcomes)

theorem Calls.unique {meaning : Interpretation σ ν} {program : List Code} {counter : Nat}
    {store : σ} {changes : List (σ → σ)} {first second : List (Outcome σ ν)}
    (hfirst : Calls meaning program counter store changes first)
    (hsecond : Calls meaning program counter store changes second) : first = second := by
  induction hfirst generalizing second with
  | done =>
      cases hsecond
      rfl
  | call hcall _ ih =>
      cases hsecond with
      | call hcall' hlater =>
          obtain rfl := hcall.unique hcall'
          rw [ih hlater]

end Cpp

section Calls

variable {σ ν : Type} {meaning : Interpretation σ ν} {body tail : List Stmt}
  {stretches : List Stretch}

/-- A call runs the next stretch. -/
theorem ends_stretch (hdivide : Stretch.Divide (Stmt.inlineAll body) stretches tail)
    (hcertain : Stmt.CertainAll body) {stretch : Stretch} {others : List Stretch} {count : Nat}
    (hstretch : stretches.drop count = stretch :: others) (store : σ) :
    Cpp.Ends meaning (Stmt.method body) (Stmt.method body) count store
      (.value (meaning.deliver stretch store).1 (count + 1) (meaning.deliver stretch store).2) := by
  have hcount : count < stretches.length := Stretch.lt_of_drop_eq_cons hstretch
  have hbody : count < Stmt.yieldCountAll body := by
    rwa [← Stmt.yieldCountAll_inlineAll, ← hdivide.length_eq]
  have hends := @ends_method _ _ meaning body count (.inr hbody) store
  have halike := meaning.alike_inlineAll [] (Stmt.resumption body count) count store
  rw [List.append_nil, List.append_nil, hdivide.resumption hcertain (Nat.le_of_lt hcount), hstretch,
    List.flatMap_cons, List.append_assoc, Stretch.trees, List.append_assoc,
    meaning.run_append_of_yieldCountAll (hdivide.statements stretch
      (List.mem_of_mem_drop (hstretch ▸ List.mem_cons_self)))] at halike
  rw [halike, List.singleton_append, Interpretation.run] at hends
  exact hends

theorem calls_deliveries (hdivide : Stretch.Divide (Stmt.inlineAll body) stretches tail)
    (hcertain : Stmt.CertainAll body) (hyields : 0 < Stmt.yieldCountAll body) {count : Nat}
    (hcount : count ≤ stretches.length) (store : σ) (changes : List (σ → σ)) :
    Cpp.Calls meaning (Stmt.method body) count store changes
      (meaning.deliveries (stretches.drop count) count store changes) := by
  have hlength : stretches.length = Stmt.yieldCountAll body :=
    hdivide.length_eq.trans (Stmt.yieldCountAll_inlineAll body)
  induction changes generalizing count store with
  | nil =>
      rw [Interpretation.deliveries]
      exact .done
  | cons change later ih =>
      cases hleft : stretches.drop count with
      | nil =>
          have hend : count = stretches.length :=
            Nat.le_antisymm hcount (List.drop_eq_nil_iff.1 hleft)
          rw [Interpretation.deliveries]
          refine .call (ends_method_exhausted (by omega) (by omega) _) ?_
          rw [← hleft]
          exact ih hcount _
      | cons stretch others =>
          have hnext : stretches.drop (count + 1) = others := by
            rw [← List.drop_drop, hleft]
            rfl
          rw [Interpretation.deliveries]
          refine .call (ends_stretch hdivide hcertain hleft (change store)) ?_
          rw [← hnext]
          exact ih (Stretch.lt_of_drop_eq_cons hleft) _

end Calls

/-- The class for an accepted coroutine with yields, none of which stands in a branch. Between
two yields there is a stretch of the body, and each call runs the next one, hands out the value of
its yield and counts it. Once all are run, every call faults and changes nothing. -/
theorem Emit.coroutine_delivers_in_order {name : String} {parameters : List Parameter}
    {body : List Stmt} {bodySpan span : Span} {state after : Emit.State} {text : String}
    (haccepted : Emit.coroutine name parameters body bodySpan span state = (.ok text, after))
    (hcertain : Stmt.CertainAll body) (hyields : 1 ≤ Stmt.yieldCountAll body) :
    (∃ emitted : Cpp.Resumable, text = emitted.render ∧
      emitted.fields.head? = some "int state = 0;" ∧
      emitted.nextMethod = "auto next() " ++ Cpp.braced (Cpp.Code.texts (Stmt.method body))) ∧
    ∃ stretches tail, Stretch.cut (Stmt.inlineAll body) = (stretches, tail) ∧
      Stretch.Divide (Stmt.inlineAll body) stretches tail ∧
      stretches.length = Stmt.yieldCountAll body ∧
      ∀ {σ ν : Type} (meaning : Interpretation σ ν) (store : σ) (changes : List (σ → σ)) outcomes,
        Cpp.Calls meaning (Stmt.method body) 0 store changes outcomes ↔
          outcomes = meaning.deliveries stretches 0 store changes := by
  obtain ⟨emitted, htext, hmethod⟩ := coroutine_eq_ok haccepted
  have hdivide := Stretch.divide_cut (Stmt.simple_inlineAll body hcertain)
  refine ⟨⟨emitted, htext, congrArg some (by decide), hmethod⟩, _, _, rfl, hdivide,
    hdivide.length_eq.trans (Stmt.yieldCountAll_inlineAll body), ?_⟩
  intro σ ν meaning store changes outcomes
  have hcalls := @calls_deliveries _ _ meaning body _ _ hdivide hcertain hyields 0
    (Nat.zero_le _) store changes
  exact ⟨fun hother => hother.unique hcalls, fun heq => heq ▸ hcalls⟩

/-- A body with a yield in braces: `\x7b yield 1; print(2); \x7d yield 3; 4;`. -/
def enclosing : List Stmt :=
  [.block [.yields (.number "1" default) default, .print [.number "2" default] default] default,
    .yields (.number "3" default) default, .expression (.number "4" default) default]

/-- Every evaluation and every line of output is kept in a list. -/
def recording : Interpretation (List String) String where
  eval value trace := (Emit.exprText value, trace ++ [Emit.exprText value])
  holds _ := true
  assign name result trace := trace ++ [name ++ " = " ++ result]
  print arguments trace := trace ++ arguments.map fun argument => "print " ++ Emit.exprText argument

theorem Emit.coroutine_delivers_in_order_enclosing :
    ∃ text after,
      Emit.coroutine "g" [] enclosing default default .initial = (.ok text, after) ∧
      Stmt.CertainAll enclosing ∧ 1 ≤ Stmt.yieldCountAll enclosing ∧
      (∃ emitted : Cpp.Resumable, text = emitted.render ∧ emitted.nextMethod =
        "auto next() " ++ Cpp.braced (Cpp.Code.texts (Stmt.method enclosing))) ∧
      Cpp.Calls recording (Stmt.method enclosing) 0 [] (List.replicate 4 id)
        [.value "1" 1 ["1"], .value "3" 2 ["1", "print 2", "3"],
          .fault 2 ["1", "print 2", "3"], .fault 2 ["1", "print 2", "3"]] := by
  obtain ⟨text, after, haccepted⟩ : ∃ text after,
      Emit.coroutine "g" [] enclosing default default .initial = (.ok text, after) :=
    ⟨_, _, rfl⟩
  have hcertain : Stmt.CertainAll enclosing := by
    simp [enclosing, Stmt.CertainAll, Stmt.Certain]
  have hyields : 1 ≤ Stmt.yieldCountAll enclosing := by decide
  obtain ⟨⟨emitted, htext, -, hmethod⟩, stretches, tail, hcut, -, -, hcalls⟩ :=
    Emit.coroutine_delivers_in_order haccepted hcertain hyields
  refine ⟨text, after, haccepted, hcertain, hyields, ⟨emitted, htext, hmethod⟩, ?_⟩
  rw [hcalls]
  have hstretches : stretches = [⟨[], .number "1" default, default⟩,
      ⟨[.print [.number "2" default] default], .number "3" default, default⟩] :=
    (congrArg Prod.fst hcut).symm.trans (by rfl)
  rw [hstretches]
  simp [Interpretation.deliveries, Interpretation.deliver, Interpretation.execute,
    Interpretation.run, recording, Emit.exprText]

end Coroscript
