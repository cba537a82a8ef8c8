namespace Coroscript.Cpp

/-! Templates. A source has no types, so every parameter has a type parameter of
its own. -/

/-- The type of the parameter at `index`. -/
def typeName (index : Nat) : String :=
  "T" ++ toString index

def templateHeader (arity : Nat) : String :=
  "template <" ++ ", ".intercalate ((List.range arity).map fun index => "class " ++ typeName index) ++
    ">"

/-- Puts the header for `arity` parameters before a declaration; none if there
are no parameters. -/
def template (arity : Nat) (declaration : String) : String :=
  if arity = 0 then declaration else templateHeader arity ++ "\n" ++ declaration

/-- Each parameter after its type. -/
def typedParameters (parameters : List String) : List String :=
  parameters.zipIdx.map fun (name, index) => typeName index ++ " " ++ name

end Coroscript.Cpp
