namespace Coroscript

/-! The bytes a string literal denotes. -/

namespace Literal

/-- The byte named by the character after a backslash. -/
def namedEscape? : Char → Option UInt8
  | 'n' => some 0x0a
  | 't' => some 0x09
  | '\\' => some 0x5c
  | 'r' => some 0x0d
  | '"' => some 0x22
  | '0' => some 0x00
  | _ => none

/-- The value of a hexadecimal digit. -/
def hexDigit? (c : Char) : Option UInt8 :=
  if '0' ≤ c ∧ c ≤ '9' then some (c.toNat - '0'.toNat).toUInt8
  else if 'a' ≤ c ∧ c ≤ 'f' then some (c.toNat - 'a'.toNat + 10).toUInt8
  else if 'A' ≤ c ∧ c ≤ 'F' then some (c.toNat - 'A'.toNat + 10).toUInt8
  else none

/-- Resolves the escapes of a literal's text. `\x` takes one or two hexadecimal
digits; an escape that names nothing stands for itself. -/
def decode : List Char → List UInt8
  | [] => []
  | '\\' :: [] => [0x5c]
  | '\\' :: 'x' :: [] => [0x5c, 0x78]
  | '\\' :: 'x' :: high :: [] =>
      match hexDigit? high with
      | none => 0x5c :: 0x78 :: decode [high]
      | some h => [h]
  | '\\' :: 'x' :: high :: low :: rest =>
      match hexDigit? high, hexDigit? low with
      | none, _ => 0x5c :: 0x78 :: decode (high :: low :: rest)
      | some h, none => h :: decode (low :: rest)
      | some h, some l => (16 * h + l) :: decode rest
  | '\\' :: c :: rest =>
      match namedEscape? c with
      | some byte => byte :: decode rest
      | none => 0x5c :: decode (c :: rest)
  | c :: rest => String.utf8EncodeChar c ++ decode rest

theorem decode_plain {c : Char} (hplain : c ≠ '\\') (rest : List Char) :
    decode (c :: rest) = String.utf8EncodeChar c ++ decode rest := by
  rw [decode]
  all_goals simp [hplain]

/-- The bytes that the literal with `text` between its quotes denotes. -/
def bytes (text : String) : List UInt8 :=
  decode text.toList

end Literal

end Coroscript
