namespace Coroscript

/-! Texts as UTF-8 bytes. -/

def encodeUtf8 (text : String) : List UInt8 :=
  text.toList.flatMap String.utf8EncodeChar

namespace Utf8

/-- What the first byte of a sequence tells: its share of the code point, the
number of bytes that follow, and the bounds of the first of them. -/
structure Lead where
  value : Nat
  count : Nat
  low : UInt8
  high : UInt8

def lead? (byte : UInt8) : Option Lead :=
  if byte < 0x80 then some ⟨byte.toNat, 0, 0x80, 0xbf⟩
  else if byte < 0xc2 then none
  else if byte < 0xe0 then some ⟨byte.toNat - 0xc0, 1, 0x80, 0xbf⟩
  else if byte = 0xe0 then some ⟨0, 2, 0xa0, 0xbf⟩
  else if byte = 0xed then some ⟨0xd, 2, 0x80, 0x9f⟩
  else if byte < 0xf0 then some ⟨byte.toNat - 0xe0, 2, 0x80, 0xbf⟩
  else if byte = 0xf0 then some ⟨0, 3, 0x90, 0xbf⟩
  else if byte < 0xf4 then some ⟨byte.toNat - 0xf0, 3, 0x80, 0xbf⟩
  else if byte = 0xf4 then some ⟨4, 3, 0x80, 0x8f⟩
  else none

/-- Takes the `count` bytes that complete a sequence, the first of them between
`low` and `high`. Stops before the first byte that does not fit. -/
def complete (value : Nat) :
    (count : Nat) → (low high : UInt8) → List UInt8 → Option Nat × List UInt8
  | 0, _, _, rest => (some value, rest)
  | _ + 1, _, _, [] => (none, [])
  | count + 1, low, high, byte :: rest =>
      if low ≤ byte ∧ byte ≤ high then
        complete (64 * value + (byte.toNat - 0x80)) count 0x80 0xbf rest
      else (none, byte :: rest)

theorem length_complete_le (value count : Nat) (low high : UInt8) (bytes : List UInt8) :
    (complete value count low high bytes).2.length ≤ bytes.length := by
  fun_induction complete value count low high bytes with
  | case1 => exact Nat.le_refl _
  | case2 => exact Nat.le_refl _
  | case3 _ _ _ _ _ _ _ ih => exact Nat.le_succ_of_le ih
  | case4 => exact Nat.le_refl _

/-- The characters of a byte sequence; nothing for each stretch that is no
character, where a stretch is as long as the start of some character. -/
def decode : List UInt8 → List (Option Char)
  | [] => []
  | byte :: rest =>
      match lead? byte with
      | none => none :: decode rest
      | some lead =>
          let result := complete lead.value lead.count lead.low lead.high rest
          result.1.map Char.ofNat :: decode result.2
termination_by bytes => bytes.length
decreasing_by
  · exact Nat.lt_succ_self _
  · exact Nat.lt_succ_of_le (length_complete_le _ _ _ _ _)

end Utf8

/-- The text that the bytes spell, if they spell one. -/
def decodeUtf8? (bytes : List UInt8) : Option String :=
  ((Utf8.decode bytes).mapM id).map String.ofList

/-- The text that the bytes spell, with the replacement character where they
spell none. -/
def decodeUtf8Lossy (bytes : List UInt8) : String :=
  .ofList ((Utf8.decode bytes).map fun c => c.getD '\ufffd')

end Coroscript
