namespace Coroscript.Shell

/-! Scripts as trees. -/

/-- What is done with the value of a parameter. -/
inductive Operation where
  | value
  | length
  | orDefault
  | orAssign
  | orFail
  | alternative
  | dropStart
  | dropLongestStart
  | dropEnd
  | dropLongestEnd
  /-- A text in braces that means nothing. -/
  | invalid
deriving DecidableEq, Repr

mutual

/-- A part of a word. What is quoted is neither split into fields nor read as a
pattern. -/
inductive Piece where
  | text (text : String) (quoted : Bool)
  /-- `empty` tells whether an empty value counts as none. -/
  | parameter (name : String) (operation : Operation) (empty : Bool) (word : List Piece)
      (quoted : Bool)
  | substitution (body : List Command) (quoted : Bool)
  | arithmetic (body : List Piece) (quoted : Bool)

/-- Where a descriptor is led to. -/
inductive Redirection where
  | file (descriptor : Nat) (operator : String) (target : List Piece)
  | document (descriptor : Nat) (text : List Piece)

inductive Command where
  | simple (line : Nat) (assignments : List (String × List Piece)) (words : List (List Piece))
      (redirections : List Redirection)
  | redirected (line : Nat) (command : Command) (redirections : List Redirection)
  | negate (command : Command)
  | pipeline (commands : List Command)
  | both (left right : Command)
  | either (left right : Command)
  | background (command : Command)
  | subshell (line : Nat) (body : List Command) (redirections : List Redirection)
  | group (body : List Command)
  | branch (condition body otherwise : List Command)
  /-- Repeats while the condition has the given outcome. -/
  | loop (outcome : Bool) (condition body : List Command)
  /-- Without words the loop goes over the arguments. -/
  | each (line : Nat) (name : String) (words? : Option (List (List Piece))) (body : List Command)
  | choose (line : Nat) (word : List Piece)
      (clauses : List (List (List Piece) × List Command))
  | define (name : String) (body : Command)

end

abbrev Word := List Piece

/-- Why a script cannot be read on, and where. -/
structure ReadError where
  line : Nat
  message : String
deriving DecidableEq, Repr

/-- The commands of a text as far as they can be read. -/
structure Script where
  commands : List Command
  error? : Option ReadError

end Coroscript.Shell
