namespace Coroscript

/-! Places in a named source text. -/

/-- A byte offset into the source text of a named file. Offsets are 32-bit words. -/
structure Position where
  offset : UInt32
  file : String
deriving DecidableEq, Repr, Inhabited

namespace Position

/-- The place `offset` bytes into `file`, as far as 32 bits tell it. -/
def ofOffset (offset : Nat) (file : String) : Position :=
  ⟨UInt32.ofNat offset, file⟩

/-- The first place of `file`. -/
def start (file : String) : Position :=
  ⟨0, file⟩

@[simp] theorem offset_ofOffset (offset : Nat) (file : String) :
    (ofOffset offset file).offset = UInt32.ofNat offset :=
  rfl

theorem toNat_offset_ofOffset {offset : Nat} {file : String}
    (hoffset : offset < UInt32.size) :
    (ofOffset offset file).offset.toNat = offset :=
  Nat.mod_eq_of_lt hoffset

end Position

/-- The stretch of source text from `start` up to, not including, `stop`. -/
structure Span where
  start : Position
  stop : Position
deriving DecidableEq, Repr, Inhabited

/-- The stretch of `width` bytes that begins `offset` bytes into `file`. -/
def Span.ofOffset (offset width : Nat) (file : String) : Span :=
  ⟨.ofOffset offset file, .ofOffset (offset + width) file⟩

end Coroscript
