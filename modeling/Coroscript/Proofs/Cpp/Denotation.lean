import Coroscript.Proofs.Cpp.Lexer
import Mathlib.Data.List.TakeWhile

namespace Coroscript.Cpp

/-! What a narrow string literal denotes. -/

/-- Whether the character behind `before` is escaped: the one right before it is a
backslash that is not escaped itself. -/
def escapesNext (before : List Char) : Bool :=
  before.foldl (fun escaped c => c == '\\' && !escaped) false

def isPrintable (c : Char) : Bool :=
  ' ' ≤ c && c ≤ '~'

def isOctal (c : Char) : Bool :=
  '0' ≤ c && c ≤ '7'

def octalValue (digits : List Char) : Nat :=
  digits.foldl (fun value digit => 8 * value + (digit.toNat - '0'.toNat)) 0

/-- The byte that a backslash and one character stand for. -/
def simpleEscape? : Char → Option UInt8
  | '"' => some 0x22
  | '\\' => some 0x5c
  | 'n' => some 0x0a
  | 't' => some 0x09
  | 'r' => some 0x0d
  | _ => none

/-- The bytes of the first element of a literal, and the text behind it. An octal escape
takes as many digits as are there, but at most three. -/
def element? : List Char → Option (List UInt8 × List Char)
  | [] => none
  | c :: rest =>
      if c = '\\' then
        match rest.head?.bind simpleEscape? with
        | some byte => some ([byte], rest.tail)
        | none =>
            if octalValue ((rest.take 3).takeWhile isOctal) < UInt8.size ∧
                (rest.take 3).takeWhile isOctal ≠ [] then
              some ([.ofNat (octalValue ((rest.take 3).takeWhile isOctal))],
                rest.drop ((rest.take 3).takeWhile isOctal).length)
            else none
      else if c = '"' ∨ c = '\n' then none
      else some (String.utf8EncodeChar c, rest)

theorem element?_length_lt {text rest : List Char} {bytes : List UInt8}
    (helement : element? text = some (bytes, rest)) : rest.length < text.length := by
  cases text with
  | nil => contradiction
  | cons c tail =>
      rw [element?] at helement
      split at helement
      · split at helement
        · cases helement
          simp only [List.length_tail, List.length_cons]
          omega
        · split at helement
          · cases helement
            simp only [List.length_drop, List.length_cons]
            omega
          · contradiction
      · split at helement
        · contradiction
        · cases helement
          exact Nat.lt_succ_self _

/-- The bytes that a literal denotes, told by the text between its quotes. -/
def denoted? : List Char → Option (List UInt8)
  | [] => some []
  | c :: rest =>
      match _helement : element? (c :: rest) with
      | none => none
      | some (bytes, after) => (denoted? after).map (bytes ++ ·)
termination_by text => text.length
decreasing_by exact element?_length_lt _helement

theorem denoted?_of_element? {text rest : List Char} {bytes : List UInt8}
    (helement : element? text = some (bytes, rest)) :
    denoted? text = (denoted? rest).map (bytes ++ ·) := by
  cases text with
  | nil => contradiction
  | cons c tail =>
      rw [denoted?]
      split
      · rename_i hnone
        rw [helement] at hnone
        contradiction
      · rename_i hsome
        rw [helement] at hsome
        cases hsome
        rfl

/-! The three ways in which a byte is written. -/

theorem literalByte_cases (byte : UInt8) :
    (∃ c, literalByte byte = ['\\', c] ∧ simpleEscape? c = some byte) ∨
      (∃ c, literalByte byte = [c] ∧ isPrintable c = true ∧ c ≠ '"' ∧ c ≠ '\\' ∧
        String.utf8EncodeChar c = [byte]) ∨
      literalByte byte = '\\' :: octal byte := by
  unfold literalByte
  split
  · rename_i hbyte
    exact .inl ⟨'"', rfl, hbyte ▸ rfl⟩
  rename_i hquote
  split
  · rename_i hbyte
    exact .inl ⟨'\\', rfl, hbyte ▸ rfl⟩
  rename_i hbackslash
  split
  · rename_i hbyte
    exact .inl ⟨'n', rfl, hbyte ▸ rfl⟩
  split
  · rename_i hbyte
    exact .inl ⟨'t', rfl, hbyte ▸ rfl⟩
  split
  · rename_i hbyte
    exact .inl ⟨'r', rfl, hbyte ▸ rfl⟩
  split
  · rename_i hprintable
    have hlow : 0x20 ≤ byte.toNat := UInt8.le_iff_toNat_le.1 hprintable.1
    have hhigh : byte.toNat ≤ 0x7e := UInt8.le_iff_toNat_le.1 hprintable.2
    have hsmall : byte.toNat < 0xd800 := by omega
    have hne : ∀ other : UInt8, byte ≠ other → byte.toNat ≠ other.toNat :=
      fun other hother heq => hother (UInt8.toNat_inj.1 heq)
    have hvalue : (Char.ofNat byte.toNat).val.toNat = byte.toNat := by
      rw [Char.ofNat, dif_pos (.inl hsmall)]
      rfl
    refine .inr (.inl ⟨Char.ofNat byte.toNat, rfl, ?_, ofNat_ne hsmall (c := '"') (hne 0x22 hquote),
      ofNat_ne hsmall (c := '\\') (hne 0x5c hbackslash), ?_⟩)
    · simp only [isPrintable, Bool.and_eq_true, decide_eq_true_eq, Char.le_def,
        UInt32.le_iff_toNat_le, hvalue]
      exact ⟨hlow, hhigh⟩
    · rw [String.utf8EncodeChar]
      simp only [hvalue]
      rw [if_pos (by omega), UInt8.ofNat_toNat]
  · exact .inr (.inr rfl)

theorem octal_digits (byte : UInt8) :
    (∀ digit ∈ octal byte, isOctal digit = true) ∧ octalValue (octal byte) = byte.toNat := by
  have hdigits : ∀ n : Fin 8,
      isOctal (Nat.digitChar n) = true ∧ (Nat.digitChar n).toNat - '0'.toNat = n := by decide
  have hbyte : byte.toNat < 256 := byte.toNat_lt
  obtain ⟨hhigh, hhighValue⟩ := hdigits ⟨byte.toNat / 64, by omega⟩
  obtain ⟨hmiddle, hmiddleValue⟩ := hdigits ⟨byte.toNat / 8 % 8, by omega⟩
  obtain ⟨hlow, hlowValue⟩ := hdigits ⟨byte.toNat % 8, by omega⟩
  constructor
  · intro digit hdigit
    simp only [octal, List.mem_cons, List.not_mem_nil, or_false] at hdigit
    rcases hdigit with rfl | rfl | rfl
    · exact hhigh
    · exact hmiddle
    · exact hlow
  · simp only [octalValue, octal, List.foldl_cons, List.foldl_nil, hhighValue, hmiddleValue,
      hlowValue]
    omega

theorem isOctal_facts {c : Char} (hc : isOctal c = true) :
    isPrintable c = true ∧ c ≠ '"' ∧ c ≠ '\\' ∧ simpleEscape? c = none := by
  have hbounds : '0'.toNat ≤ c.toNat ∧ c.toNat ≤ '7'.toNat := by
    simpa [isOctal, Char.le_def, UInt32.le_iff_toNat_le] using hc
  obtain ⟨n, hn, rfl⟩ : ∃ n, n < 8 ∧ c = Char.ofNat ('0'.toNat + n) := by
    refine ⟨c.toNat - '0'.toNat, ?_, ?_⟩
    · have hzero : '0'.toNat = 48 := rfl
      have hseven : '7'.toNat = 55 := rfl
      omega
    · rw [Nat.add_sub_cancel' hbounds.1, Char.ofNat_toNat]
  have hall : ∀ m : Fin 8, isPrintable (Char.ofNat ('0'.toNat + m)) = true ∧
      Char.ofNat ('0'.toNat + m) ≠ '"' ∧ Char.ofNat ('0'.toNat + m) ≠ '\\' ∧
      simpleEscape? (Char.ofNat ('0'.toNat + m)) = none := by decide
  exact hall ⟨n, hn⟩

theorem element?_literalByte (byte : UInt8) (rest : List Char) :
    element? (literalByte byte ++ rest) = some ([byte], rest) := by
  obtain ⟨c, hbyte, hsimple⟩ | ⟨c, hbyte, hprintable, hquote, hbackslash, hcode⟩ | hbyte :=
    literalByte_cases byte
  · rw [hbyte]
    simp [element?, hsimple]
  · have hline : c ≠ '\n' := by
      rintro rfl
      exact absurd hprintable (by decide)
    rw [hbyte]
    simp [element?, hquote, hbackslash, hline, hcode]
  · obtain ⟨hdigits, hvalue⟩ := octal_digits byte
    -- The three digits are taken whole, and none of what follows them.
    have htaken : ((octal byte ++ rest).take 3).takeWhile isOctal = octal byte :=
      List.takeWhile_eq_self_iff.2 hdigits
    have hhead : (octal byte ++ rest).head?.bind simpleEscape? = none :=
      (isOctal_facts (hdigits _ List.mem_cons_self)).2.2.2
    rw [hbyte, List.cons_append, element?, if_pos rfl, hhead]
    simp only [htaken, hvalue]
    rw [if_pos ⟨byte.toNat_lt, List.cons_ne_nil _ _⟩, UInt8.ofNat_toNat]
    rfl

theorem denoted?_flatMap_literalByte (bytes : List UInt8) :
    denoted? (bytes.flatMap literalByte) = some bytes := by
  induction bytes with
  | nil => rw [List.flatMap_nil, denoted?]
  | cons byte bytes ih =>
      rw [List.flatMap_cons, denoted?_of_element? (element?_literalByte byte _), ih]
      rfl

theorem isPrintable_of_mem_literalByte {byte : UInt8} {c : Char} (hc : c ∈ literalByte byte) :
    isPrintable c = true := by
  obtain ⟨escape, hbyte, hsimple⟩ | ⟨plain, hbyte, hprintable, -⟩ | hbyte := literalByte_cases byte
  · rw [hbyte] at hc
    simp only [List.mem_cons, List.not_mem_nil, or_false] at hc
    rcases hc with rfl | rfl
    · rfl
    · unfold simpleEscape? at hsimple
      split at hsimple <;> first | rfl | contradiction
  · rw [hbyte, List.mem_singleton] at hc
    exact hc ▸ hprintable
  · rw [hbyte] at hc
    rcases List.mem_cons.1 hc with rfl | hdigit
    · rfl
    · exact (isOctal_facts ((octal_digits byte).1 c hdigit)).1

/-! Quotes inside a literal are escaped. -/

theorem escapesNext_append {before : List Char} (hbefore : escapesNext before = false)
    (after : List Char) : escapesNext (before ++ after) = escapesNext after := by
  unfold escapesNext at *
  rw [List.foldl_append, hbefore]

theorem escapesNext_literalByte (byte : UInt8) : escapesNext (literalByte byte) = false := by
  obtain ⟨c, hbyte, -⟩ | ⟨c, hbyte, -, -, hbackslash, -⟩ | hbyte := literalByte_cases byte
  · rw [hbyte]
    simp [escapesNext]
  · rw [hbyte]
    simp [escapesNext, hbackslash]
  · rw [hbyte]
    simp [escapesNext, octal]

theorem escapesNext_flatMap_literalByte (bytes : List UInt8) :
    escapesNext (bytes.flatMap literalByte) = false := by
  induction bytes with
  | nil => rfl
  | cons byte bytes ih =>
      rw [List.flatMap_cons, escapesNext_append (escapesNext_literalByte byte), ih]

theorem escapesNext_of_literalByte_eq {byte : UInt8} {left right : List Char}
    (hbyte : literalByte byte = left ++ '"' :: right) : escapesNext left = true := by
  obtain ⟨c, hshape, -⟩ | ⟨c, hshape, -, hquote, -⟩ | hshape := literalByte_cases byte
  · rw [hshape] at hbyte
    obtain ⟨rfl, heq⟩ | ⟨left, rfl, heq⟩ := List.cons_eq_append_iff.1 hbyte
    · cases heq
    · obtain ⟨rfl, -⟩ | ⟨left, rfl, hnil⟩ := List.cons_eq_append_iff.1 heq
      · rfl
      · simp at hnil
  · rw [hshape] at hbyte
    obtain ⟨-, heq⟩ | ⟨left, -, hnil⟩ := List.cons_eq_append_iff.1 hbyte
    · exact absurd (List.cons.inj heq).1.symm hquote
    · simp at hnil
  · rw [hshape] at hbyte
    have hmem : '"' ∈ '\\' :: octal byte := hbyte ▸ List.mem_append_right _ List.mem_cons_self
    rcases List.mem_cons.1 hmem with heq | hdigit
    · exact absurd heq (by decide)
    · exact absurd rfl (isOctal_facts ((octal_digits byte).1 _ hdigit)).2.1

theorem escapesNext_of_flatMap_eq {bytes : List UInt8} {left right : List Char}
    (hbytes : bytes.flatMap literalByte = left ++ '"' :: right) : escapesNext left = true := by
  induction bytes generalizing left with
  | nil => simp at hbytes
  | cons byte bytes ih =>
      rw [List.flatMap_cons] at hbytes
      -- The quote stands in what the first byte is written as, or behind it.
      obtain ⟨middle, hleft, htail⟩ | ⟨middle, hbyte, htail⟩ := List.append_eq_append_iff.1 hbytes
      · rw [hleft, escapesNext_append (escapesNext_literalByte byte)]
        exact ih htail
      · cases middle with
        | nil =>
            rw [List.append_nil] at hbyte
            have hrest : bytes.flatMap literalByte = [] ++ '"' :: right := htail.symm
            have hnext : escapesNext [] = true := ih hrest
            contradiction
        | cons c middle =>
            cases htail
            exact escapesNext_of_literalByte_eq hbyte

end Coroscript.Cpp
