import Coroscript.Token.Basic

namespace Coroscript

/-! What each kind of token does where it stands: at the start of a statement,
at the start of an expression, or after an operand. -/

/-- How tightly an operator holds its operands, from the loosest on. -/
inductive Power where
  | lowest
  | logical
  | relational
  | additive
  | multiplicative
  | exponential
  | unary
  | trailing
  | call
  | primary
deriving DecidableEq, Repr

namespace Power

def rank : Power → Nat
  | lowest => 0
  | logical => 1
  | relational => 2
  | additive => 3
  | multiplicative => 4
  | exponential => 5
  | unary => 6
  | trailing => 7
  | call => 8
  | primary => 9

theorem rank_injective {left right : Power} (h : left.rank = right.rank) :
    left = right := by
  cases left <;> cases right <;> first | rfl | contradiction

end Power

/-- How an expression can start. -/
inductive LeadRule where
  | primary
  | unary
  | grouping
  | conversion
  | next
  | create
deriving DecidableEq, Repr

/-- How an expression can go on after an operand. -/
inductive FollowRule where
  | binary
  | exponent
  | percent
  | call
deriving DecidableEq, Repr

/-- How a statement or a definition can be read. -/
inductive StmtRule where
  | item
  | stmt
  | localDefine
  | define
  | branch
  | block
  | returns
  | yields
  | print
  | function
  | coroutine
deriving DecidableEq, Repr

/-- The rule, if any, for each kind of token in each place, and its power. -/
structure Grammar where
  stmt? : TokenKind → Option StmtRule
  lead? : TokenKind → Option LeadRule
  follow? : TokenKind → Option FollowRule
  power? : TokenKind → Option Power

namespace Grammar

/-- Overrides the answer of a table for one kind. -/
def override {α : Type} (table : TokenKind → Option α) (kind : TokenKind) (entry : α) :
    TokenKind → Option α :=
  fun other => if other = kind then some entry else table other

/-- Keeps the entry of a kind that has one. -/
def supply {α : Type} (table : TokenKind → Option α) (kind : TokenKind) (entry : α) :
    TokenKind → Option α :=
  override table kind ((table kind).getD entry)

def withFollow (grammar : Grammar) (kind : TokenKind) (power : Power) (rule : FollowRule) :
    Grammar :=
  { grammar with
    power? := override grammar.power? kind power
    follow? := override grammar.follow? kind rule }

/-- A kind that can also follow an operand keeps the power it has there. -/
def withLead (grammar : Grammar) (kind : TokenKind) (rule : LeadRule) : Grammar :=
  { grammar with
    power? := supply grammar.power? kind .primary
    lead? := override grammar.lead? kind rule }

def withStmt (grammar : Grammar) (kind : TokenKind) (rule : StmtRule) : Grammar :=
  { grammar with
    power? := supply grammar.power? kind .lowest
    stmt? := override grammar.stmt? kind rule }

/-- The language. The power of a percent sign depends on what follows it; the
entry here is not asked for. -/
def standard : Grammar where
  stmt?
    | .openCurly => some .block
    | .keyIf => some .branch
    | .keyReturn => some .returns
    | .keyYield => some .yields
    | .keyPrint => some .print
    | .keyDef => some .localDefine
    | _ => none
  lead?
    | .number | .identifier | .string => some .primary
    | .dash | .plus | .not => some .unary
    | .openParen => some .grouping
    | .keyInt | .keyFloat => some .conversion
    | .keyNext => some .next
    | .keyCreateCoroutine => some .create
    | _ => none
  follow?
    | .and | .or => some .binary
    | .less | .lessEquals | .greater | .greaterEquals | .equals | .notEquals => some .binary
    | .plus | .dash | .star | .slash => some .binary
    | .percent => some .percent
    | .caret => some .exponent
    | .openParen => some .call
    | _ => none
  power?
    | .and | .or => some .logical
    | .less | .lessEquals | .greater | .greaterEquals | .equals | .notEquals =>
        some .relational
    | .plus | .dash => some .additive
    | .star | .slash => some .multiplicative
    | .percent => some .trailing
    | .caret => some .exponential
    | .openParen => some .call
    | .number | .identifier | .string | .not | .keyInt | .keyFloat | .keyNext
    | .keyCreateCoroutine => some .primary
    | .openCurly | .keyIf | .keyReturn | .keyYield | .keyPrint | .keyDef => some .lowest
    | _ => none

end Grammar

end Coroscript
