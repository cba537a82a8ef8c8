namespace Coroscript

/-! Texts measured in UTF-8 bytes. -/

/-- The number of bytes a text takes. -/
def byteLength : List Char → Nat
  | [] => 0
  | c :: text => c.utf8Size + byteLength text

@[simp] theorem byteLength_nil : byteLength [] = 0 :=
  rfl

@[simp] theorem byteLength_cons (c : Char) (text : List Char) :
    byteLength (c :: text) = c.utf8Size + byteLength text :=
  rfl

@[simp] theorem byteLength_append (left right : List Char) :
    byteLength (left ++ right) = byteLength left + byteLength right := by
  induction left with
  | nil => simp
  | cons c left ih => simp [ih, Nat.add_assoc]

/-- The characters that end within the first `count` bytes. -/
def takeBytes (count : Nat) : List Char → List Char
  | [] => []
  | c :: rest =>
      if c.utf8Size ≤ count then c :: takeBytes (count - c.utf8Size) rest else []

/-- What follows the characters that end within the first `count` bytes. -/
def dropBytes (count : Nat) : List Char → List Char
  | [] => []
  | c :: rest =>
      if c.utf8Size ≤ count then dropBytes (count - c.utf8Size) rest else c :: rest

@[simp] theorem takeBytes_append_dropBytes (count : Nat) (text : List Char) :
    takeBytes count text ++ dropBytes count text = text := by
  induction text generalizing count with
  | nil => rfl
  | cons c rest ih =>
      rw [takeBytes, dropBytes]
      split
      · simp [ih]
      · rfl

theorem byteLength_takeBytes_le (count : Nat) (text : List Char) :
    byteLength (takeBytes count text) ≤ count := by
  induction text generalizing count with
  | nil => exact Nat.zero_le count
  | cons c rest ih =>
      rw [takeBytes]
      split
      · have := ih (count - c.utf8Size)
        rw [byteLength_cons]
        omega
      · exact Nat.zero_le count

end Coroscript
