namespace Coroscript.Cpp

/-! Narrow string literals. -/

/-- The octal digits of a byte, always three. -/
def octal (byte : UInt8) : List Char :=
  [Nat.digitChar (byte.toNat / 64), Nat.digitChar (byte.toNat / 8 % 8),
    Nat.digitChar (byte.toNat % 8)]

/-- How one byte is written inside a literal. Three octal digits end an escape
whatever follows it. -/
def literalByte (byte : UInt8) : List Char :=
  if byte = 0x22 then ['\\', '"']
  else if byte = 0x5c then ['\\', '\\']
  else if byte = 0x0a then ['\\', 'n']
  else if byte = 0x09 then ['\\', 't']
  else if byte = 0x0d then ['\\', 'r']
  else if 0x20 ≤ byte ∧ byte ≤ 0x7e then [Char.ofNat byte.toNat]
  else '\\' :: octal byte

/-- The literal that denotes `bytes`. -/
def stringLiteral (bytes : List UInt8) : String :=
  .ofList ('"' :: bytes.flatMap literalByte ++ ['"'])

end Coroscript.Cpp
