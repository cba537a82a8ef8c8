import Coroscript.Tree.Stmt

namespace Coroscript

/-! The nodes of trees. -/

namespace Expr

/-- The parts of an expression, from left to right. The call that a coroutine is made from is a
part of its own. -/
def children : Expr → List Expr
  | .number _ _ | .symbol _ _ | .string _ _ => []
  | .binary left _ right _ => [left, right]
  | .unary _ operand _ => [operand]
  | .percent operand _ => [operand]
  | .grouping inner _ => [inner]
  | .conversion _ value _ => [value]
  | .call _ arguments _ => arguments
  | .next coroutine _ => [coroutine]
  | .create callee arguments callSpan _ => [.call callee arguments callSpan]

mutual

/-- All nodes of an expression, each before its parts and those from left to right. -/
def nodes : Expr → List Expr
  | .number text span => [.number text span]
  | .symbol name span => [.symbol name span]
  | .string bytes span => [.string bytes span]
  | .binary left operator right span =>
      .binary left operator right span :: (left.nodes ++ right.nodes)
  | .unary operator operand span => .unary operator operand span :: operand.nodes
  | .percent operand span => .percent operand span :: operand.nodes
  | .grouping inner span => .grouping inner span :: inner.nodes
  | .conversion target value span => .conversion target value span :: value.nodes
  | .call callee arguments span => .call callee arguments span :: nodesAll arguments
  | .next coroutine span => .next coroutine span :: coroutine.nodes
  | .create callee arguments callSpan span =>
      .create callee arguments callSpan span :: .call callee arguments callSpan ::
        nodesAll arguments

def nodesAll : List Expr → List Expr
  | [] => []
  | first :: others => first.nodes ++ nodesAll others

end

theorem nodesAll_eq_flatMap (trees : List Expr) : nodesAll trees = trees.flatMap nodes := by
  induction trees with
  | nil => rfl
  | cons first others ih => rw [nodesAll, ih, List.flatMap_cons]

theorem nodes_eq (tree : Expr) : tree.nodes = tree :: tree.children.flatMap nodes := by
  cases tree <;> simp [nodes, children, nodesAll_eq_flatMap]

theorem sizeOf_lt_of_mem_children {tree child : Expr} (hchild : child ∈ tree.children) :
    sizeOf child < sizeOf tree := by
  cases tree with
  | call callee arguments span =>
      have hless : sizeOf child < sizeOf arguments := List.sizeOf_lt_of_mem hchild
      simp only [call.sizeOf_spec]
      omega
  | create callee arguments callSpan span =>
      obtain ⟨start, stop⟩ := span
      rw [List.mem_singleton.1 hchild]
      simp only [call.sizeOf_spec, create.sizeOf_spec, Span.mk.sizeOf_spec]
      omega
  | binary left operator right span =>
      simp only [children, List.mem_cons, List.not_mem_nil, or_false] at hchild
      rcases hchild with rfl | rfl
      · simp only [binary.sizeOf_spec]
        omega
      · simp only [binary.sizeOf_spec]
        omega
  | number | symbol | string => contradiction
  | unary | percent | grouping | conversion | next =>
      rw [List.mem_singleton.1 hchild]
      simp +arith

/-- What passes from every expression to its parts holds of all its nodes. -/
theorem forall_mem_nodes {holds : Expr → Prop}
    (hinherit : ∀ tree child, holds tree → child ∈ tree.children → holds child) (tree : Expr)
    (htree : holds tree) : ∀ node ∈ tree.nodes, holds node := by
  rw [nodes_eq, List.forall_mem_cons]
  refine ⟨htree, ?_⟩
  intro node hnode
  obtain ⟨child, hchild, hnode⟩ := List.mem_flatMap.1 hnode
  exact forall_mem_nodes hinherit child (hinherit tree child htree hchild) node hnode
termination_by tree
decreasing_by exact sizeOf_lt_of_mem_children hchild

end Expr

namespace Stmt

mutual

/-- The expressions that stand in a statement, from left to right. Their parts are not listed. -/
def expressions : Stmt → List Expr
  | .block body _ => expressionsAll body
  | .expression value _ => [value]
  | .define _ value _ => [value]
  | .ifThen condition thenBody _ => condition :: thenBody.expressions
  | .ifElse condition thenBody elseBody _ =>
      condition :: (thenBody.expressions ++ elseBody.expressions)
  | .returns value? _ => value?.toList
  | .yields value _ => [value]
  | .print arguments _ => arguments
  | .forwardFunction _ _ _ | .forwardCoroutine _ _ _ => []
  | .function _ _ body _ _ => expressionsAll body
  | .coroutine _ _ body _ _ => expressionsAll body
  | .entryPoint _ body _ _ => expressionsAll body

def expressionsAll : List Stmt → List Expr
  | [] => []
  | first :: others => first.expressions ++ expressionsAll others

end

end Stmt

namespace Program

def expressions (program : Program) : List Expr :=
  Stmt.expressionsAll program.items

/-- All nodes of all expressions of a program. -/
def nodes (program : Program) : List Expr :=
  program.expressions.flatMap Expr.nodes

end Program

end Coroscript
