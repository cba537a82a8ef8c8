import Coroscript.Literal.Escape
import Mathlib.Data.List.Basic

namespace Coroscript.Literal

/-! The text of a literal is cut into pieces in one way only, and denotes what its pieces
denote, one after the other. -/

/-- The characters that name a byte behind a backslash. -/
def escapes : List (Char × UInt8) :=
  [('n', 0x0a), ('t', 0x09), ('\\', 0x5c), ('"', 0x22), ('r', 0x0d), ('0', 0x00)]

def hexDigits : List (Char × UInt8) :=
  [('0', 0), ('1', 1), ('2', 2), ('3', 3), ('4', 4), ('5', 5), ('6', 6), ('7', 7), ('8', 8),
    ('9', 9), ('a', 10), ('b', 11), ('c', 12), ('d', 13), ('e', 14), ('f', 15), ('A', 10),
    ('B', 11), ('C', 12), ('D', 13), ('E', 14), ('F', 15)]

/-- A character of a table, with the value that it has there. -/
structure Entry (table : List (Char × UInt8)) where
  char : Char
  value : UInt8
  listed : table.lookup char = some value

@[ext]
theorem Entry.ext {table : List (Char × UInt8)} {left right : Entry table}
    (hchar : left.char = right.char) : left = right := by
  obtain ⟨char, value, hleft⟩ := left
  obtain ⟨other, value', hright⟩ := right
  cases hchar
  cases hleft.symm.trans hright
  rfl

inductive Piece where
  | plain (c : Char) (hplain : c ≠ '\\')
  | named (escape : Entry escapes)
  | hexPair (high low : Entry hexDigits)
  | hexSingle (digit : Entry hexDigits)
  | hexBare
  | unknown (c : Char) (hunnamed : escapes.lookup c = none) (hhex : c ≠ 'x')
  | backslash

namespace Piece

def text : Piece → List Char
  | plain c _ => [c]
  | named escape => ['\\', escape.char]
  | hexPair high low => ['\\', 'x', high.char, low.char]
  | hexSingle digit => ['\\', 'x', digit.char]
  | hexBare => ['\\', 'x']
  | unknown c _ _ => ['\\', c]
  | backslash => ['\\']

def denotes : Piece → List UInt8
  | plain c _ => String.utf8EncodeChar c
  | named escape => [escape.value]
  | hexPair high low => [16 * high.value + low.value]
  | hexSingle digit => [digit.value]
  | hexBare => [0x5c, 0x78]
  | unknown c _ _ => 0x5c :: String.utf8EncodeChar c
  | backslash => [0x5c]

/-- Whether a piece ends where `rest` follows it. -/
def Ends (rest : List Char) : Piece → Prop
  | hexSingle _ | hexBare => ∀ c ∈ rest.head?, hexDigits.lookup c = none
  | backslash => rest = []
  | _ => True

end Piece

/-- `text` consists of `pieces`, from left to right. -/
inductive Splits : List Char → List Piece → Prop
  | nil : Splits [] []
  | cons {piece : Piece} {rest : List Char} {pieces : List Piece} (hends : piece.Ends rest)
      (hrest : Splits rest pieces) : Splits (piece.text ++ rest) (piece :: pieces)

/-! What a text denotes that starts with a piece. -/

theorem namedEscape?_eq_lookup (c : Char) : namedEscape? c = escapes.lookup c := by
  unfold namedEscape?
  split
  case h_7 =>
    rename_i hn ht hbackslash hr hquote hzero
    refine (List.lookup_eq_none_iff.2 ?_).symm
    simpa [escapes] using ⟨hn, ht, hbackslash, hquote, hr, hzero⟩
  all_goals rfl

theorem hexDigit?_eq_lookup (c : Char) : hexDigit? c = hexDigits.lookup c := by
  by_cases hc : c.toNat < 128
  · have hascii : ∀ n : Fin 128, hexDigit? (.ofNat n) = hexDigits.lookup (.ofNat n) := by decide
    have hsame := hascii ⟨c.toNat, hc⟩
    rwa [Char.ofNat_toNat] at hsame
  · -- Nothing so large is in the table, nor in one of the three ranges.
    have hlarge : ∀ d : Char, d.toNat < 128 → ¬ c ≤ d :=
      fun d hd hle => hc (Nat.lt_of_le_of_lt hle hd)
    have hlisted : ∀ entry ∈ hexDigits, entry.1.toNat < 128 := by decide
    have hlookup : hexDigits.lookup c = none := by
      rw [List.lookup_eq_none_iff]
      intro entry hentry
      rw [bne_iff_ne]
      rintro rfl
      exact hc (hlisted entry hentry)
    rw [hlookup, hexDigit?, if_neg, if_neg, if_neg]
    · exact fun hrange => hlarge 'F' (by decide) hrange.2
    · exact fun hrange => hlarge 'f' (by decide) hrange.2
    · exact fun hrange => hlarge '9' (by decide) hrange.2

theorem decode_named {c : Char} {byte : UInt8} (hc : namedEscape? c = some byte)
    (rest : List Char) : decode ('\\' :: c :: rest) = byte :: decode rest := by
  have hhex : c ≠ 'x' := by
    rintro rfl
    cases hc
  rw [decode, hc]
  all_goals simp [hhex]

theorem decode_unknown {c : Char} (hc : namedEscape? c = none) (hhex : c ≠ 'x')
    (rest : List Char) :
    decode ('\\' :: c :: rest) = 0x5c :: String.utf8EncodeChar c ++ decode rest := by
  have hplain : c ≠ '\\' := by
    rintro rfl
    cases hc
  rw [decode, hc, decode_plain hplain]
  · rfl
  all_goals simp [hhex]

theorem decode_hexPair {high low : Char} {highValue lowValue : UInt8}
    (hhigh : hexDigit? high = some highValue) (hlow : hexDigit? low = some lowValue)
    (rest : List Char) :
    decode ('\\' :: 'x' :: high :: low :: rest) = (16 * highValue + lowValue) :: decode rest := by
  rw [decode, hhigh, hlow]

theorem decode_hexSingle {digit : Char} {value : UInt8} (hdigit : hexDigit? digit = some value)
    {rest : List Char} (hrest : ∀ c ∈ rest.head?, hexDigit? c = none) :
    decode ('\\' :: 'x' :: digit :: rest) = value :: decode rest := by
  cases rest with
  | nil => simp [decode, hdigit]
  | cons c rest => rw [decode, hdigit, hrest c rfl]

theorem decode_hexBare {rest : List Char} (hrest : ∀ c ∈ rest.head?, hexDigit? c = none) :
    decode ('\\' :: 'x' :: rest) = 0x5c :: 0x78 :: decode rest := by
  match rest with
  | [] => rw [decode, decode]
  | [c] => rw [decode, hrest c rfl]
  | c :: next :: rest => rw [decode, hrest c rfl]

theorem Piece.decode_append {piece : Piece} {rest : List Char} (hends : piece.Ends rest) :
    decode (piece.text ++ rest) = piece.denotes ++ decode rest := by
  cases piece with
  | plain c hplain => exact decode_plain hplain rest
  | named escape => exact decode_named ((namedEscape?_eq_lookup _).trans escape.listed) rest
  | hexPair high low =>
      exact decode_hexPair ((hexDigit?_eq_lookup _).trans high.listed)
        ((hexDigit?_eq_lookup _).trans low.listed) rest
  | hexSingle digit =>
      refine decode_hexSingle ((hexDigit?_eq_lookup _).trans digit.listed) ?_
      exact fun c hc => (hexDigit?_eq_lookup c).trans (hends c hc)
  | hexBare => exact decode_hexBare fun c hc => (hexDigit?_eq_lookup c).trans (hends c hc)
  | unknown c hunnamed hhex =>
      exact decode_unknown ((namedEscape?_eq_lookup c).trans hunnamed) hhex rest
  | backslash =>
      subst hends
      rfl

theorem Splits.decode_eq {text : List Char} {pieces : List Piece} (hpieces : Splits text pieces) :
    decode text = pieces.flatMap Piece.denotes := by
  induction hpieces with
  | nil => rw [decode, List.flatMap_nil]
  | cons hends _ ih => rw [Piece.decode_append hends, ih, List.flatMap_cons]

/-! Every text starts with a piece, and with one only. -/

namespace Piece

theorem text_ne_nil (piece : Piece) : piece.text ≠ [] := by
  cases piece <;> exact List.cons_ne_nil _ _

theorem exists_hex (rest : List Char) :
    ∃ (piece : Piece) (after : List Char),
      '\\' :: 'x' :: rest = piece.text ++ after ∧ piece.Ends after := by
  cases rest with
  | nil => exact ⟨.hexBare, [], rfl, fun _ hnone => by contradiction⟩
  | cons high rest =>
      cases hhigh : hexDigits.lookup high with
      | none => exact ⟨.hexBare, high :: rest, rfl, by rintro _ ⟨⟩; exact hhigh⟩
      | some value =>
          cases rest with
          | nil =>
              exact ⟨.hexSingle ⟨high, value, hhigh⟩, [], rfl, fun _ hnone => by contradiction⟩
          | cons low rest =>
              cases hlow : hexDigits.lookup low with
              | none =>
                  refine ⟨.hexSingle ⟨high, value, hhigh⟩, low :: rest, rfl, ?_⟩
                  rintro _ ⟨⟩
                  exact hlow
              | some other =>
                  exact ⟨.hexPair ⟨high, value, hhigh⟩ ⟨low, other, hlow⟩, rest, rfl, trivial⟩

theorem exists_first (c : Char) (rest : List Char) :
    ∃ (piece : Piece) (after : List Char), c :: rest = piece.text ++ after ∧ piece.Ends after := by
  by_cases hplain : c = '\\'
  · subst hplain
    cases rest with
    | nil => exact ⟨.backslash, [], rfl, rfl⟩
    | cons d rest =>
        by_cases hhex : d = 'x'
        · exact hhex ▸ exists_hex rest
        · cases hnamed : escapes.lookup d with
          | none => exact ⟨.unknown d hnamed hhex, rest, rfl, trivial⟩
          | some byte => exact ⟨.named ⟨d, byte, hnamed⟩, rest, rfl, trivial⟩
  · exact ⟨.plain c hplain, rest, rfl, trivial⟩

theorem unique {piece other : Piece} {rest rest' : List Char} (hends : piece.Ends rest)
    (hother : other.Ends rest') (htext : piece.text ++ rest = other.text ++ rest') :
    piece = other ∧ rest = rest' := by
  have hhex : escapes.lookup 'x' = none := rfl
  have hescape : escapes.lookup '\\' = some 0x5c := rfl
  -- All pieces but the plain ones open with a backslash. The character behind it tells them
  -- apart, and behind `\x` it is the digits that follow.
  cases piece <;> cases other <;> grind [text, Ends, Entry.ext, Entry.listed]

end Piece

theorem exists_splits (text : List Char) : ∃ pieces, Splits text pieces := by
  cases text with
  | nil => exact ⟨[], .nil⟩
  | cons c rest =>
      obtain ⟨piece, after, htext, hends⟩ := Piece.exists_first c rest
      have hshorter : after.length < (c :: rest).length := by
        have hpositive := List.length_pos_iff.2 piece.text_ne_nil
        rw [htext, List.length_append]
        omega
      obtain ⟨pieces, hpieces⟩ := exists_splits after
      exact ⟨piece :: pieces, htext ▸ .cons hends hpieces⟩
termination_by text.length
decreasing_by exact hshorter

theorem splits_nil_iff {pieces : List Piece} : Splits [] pieces ↔ pieces = [] := by
  constructor
  · intro hpieces
    generalize htext : ([] : List Char) = text at hpieces
    cases hpieces with
    | nil => rfl
    | cons _ _ => exact absurd (List.append_eq_nil_iff.1 htext.symm).1 (Piece.text_ne_nil _)
  · rintro rfl
    exact .nil

theorem Splits.unique {text : List Char} {pieces others : List Piece}
    (hpieces : Splits text pieces) (hothers : Splits text others) : pieces = others := by
  induction hpieces generalizing others with
  | nil => exact (splits_nil_iff.1 hothers).symm
  | @cons piece rest pieces hends _ ih =>
      generalize htext : piece.text ++ rest = text at hothers
      cases hothers with
      | nil => exact absurd (List.append_eq_nil_iff.1 htext).1 piece.text_ne_nil
      | cons hother hothers =>
          obtain ⟨rfl, rfl⟩ := Piece.unique hends hother htext
          rw [ih hothers]

/-- A byte, written with two digits. -/
def hexByte (byte : UInt8) : List Char :=
  ['\\', 'x', Nat.digitChar (byte.toNat / 16), Nat.digitChar (byte.toNat % 16)]

theorem decode_hexByte (byte : UInt8) (rest : List Char) :
    decode (hexByte byte ++ rest) = byte :: decode rest := by
  have hdigits : ∀ n : Fin 16, hexDigit? (Nat.digitChar n) = some (UInt8.ofNat n) := by decide
  have hbyte : byte.toNat < 256 := byte.toNat_lt
  have hhigh := hdigits ⟨byte.toNat / 16, by omega⟩
  have hlow := hdigits ⟨byte.toNat % 16, by omega⟩
  have hvalue : 16 * UInt8.ofNat (byte.toNat / 16) + UInt8.ofNat (byte.toNat % 16) = byte := by
    apply UInt8.toNat_inj.1
    simp
    omega
  change decode ('\\' :: 'x' :: _ :: _ :: rest) = _
  rw [decode_hexPair hhigh hlow, hvalue]

theorem decode_flatMap_hexByte (bytes : List UInt8) : decode (bytes.flatMap hexByte) = bytes := by
  induction bytes with
  | nil => rfl
  | cons byte bytes ih => rw [List.flatMap_cons, decode_hexByte, ih]

/-- Every text has its pieces and denotes what they denote, and every sequence of bytes is
denoted by some text. -/
theorem bytes_of_pieces :
    (∀ text : String, (∃! pieces, Splits text.toList pieces) ∧
      ∃ pieces, Splits text.toList pieces ∧ bytes text = pieces.flatMap Piece.denotes) ∧
    ∀ all : List UInt8, bytes (.ofList (all.flatMap hexByte)) = all := by
  constructor
  · intro text
    obtain ⟨pieces, hpieces⟩ := exists_splits text.toList
    exact ⟨⟨pieces, hpieces, fun _ hothers => hothers.unique hpieces⟩,
      pieces, hpieces, hpieces.decode_eq⟩
  · intro all
    rw [bytes, String.toList_ofList, decode_flatMap_hexByte]

end Coroscript.Literal
