namespace Coroscript

/-! Frames of variable names. Visibility is flat: a name that any frame holds is
visible, so an inner frame never hides a name of an outer one. -/

/-- The names that one body or block declares. -/
abbrev Frame := List String

/-- The open frames: the global one and those opened inside it, the innermost
first. -/
structure Scopes where
  inner : List Frame
  global : Frame
deriving DecidableEq, Repr

namespace Scopes

def empty : Scopes :=
  ⟨[], []⟩

/-- All open frames, the innermost first. -/
def frames (scopes : Scopes) : List Frame :=
  scopes.inner ++ [scopes.global]

/-- The number of frames inside the global one. -/
def depth (scopes : Scopes) : Nat :=
  scopes.inner.length

def isDeclared (scopes : Scopes) (name : String) : Bool :=
  scopes.frames.any fun frame => frame.contains name

def enter (scopes : Scopes) : Scopes :=
  { scopes with inner := [] :: scopes.inner }

/-- Closes the innermost frame. The global frame stays open. -/
def exit? (scopes : Scopes) : Option Scopes :=
  match scopes.inner with
  | [] => none
  | _ :: inner => some { scopes with inner }

/-- Adds a name to the innermost frame. -/
def insert (scopes : Scopes) (name : String) : Scopes :=
  match scopes.inner with
  | [] => { scopes with global := name :: scopes.global }
  | frame :: inner => { scopes with inner := (name :: frame) :: inner }

theorem isDeclared_iff {scopes : Scopes} {name : String} :
    scopes.isDeclared name = true ↔ ∃ frame ∈ scopes.frames, name ∈ frame := by
  simp [isDeclared]

@[simp] theorem exit?_enter (scopes : Scopes) : scopes.enter.exit? = some scopes :=
  rfl

@[simp] theorem isDeclared_enter (scopes : Scopes) (name : String) :
    scopes.enter.isDeclared name = scopes.isDeclared name := by
  simp [isDeclared, enter, frames]

theorem isDeclared_insert (scopes : Scopes) (name other : String) :
    (scopes.insert name).isDeclared other =
      (decide (other = name) || scopes.isDeclared other) := by
  cases hinner : scopes.inner with
  | nil => simp [insert, isDeclared, frames, hinner]
  | cons frame inner => simp [insert, isDeclared, frames, hinner, Bool.or_assoc]

end Scopes

end Coroscript
