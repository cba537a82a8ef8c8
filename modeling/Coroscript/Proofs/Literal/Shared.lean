import Coroscript.Proofs.Cpp.Denotation
import Coroscript.Proofs.Literal.Pieces
import Coroscript.Proofs.Token.Tiling

namespace Coroscript.Literal

/-! Literals as they are emitted, read as literals of the source. -/

open Cpp Computability

/-- The bytes that both languages write alike. -/
def Shared (byte : UInt8) : Prop :=
  0x20 ≤ byte ∧ byte ≤ 0x7e ∨ byte = 0x0a ∨ byte = 0x09 ∨ byte = 0x0d

/-! Emitted bytes stay inside the quotes. -/

theorem ne_newline_of_isPrintable {c : Char} (hc : isPrintable c = true) : c ≠ '\n' := by
  rintro rfl
  cases hc

theorem literalByte_mem_stringParts (byte : UInt8) {body : List Char}
    (hbody : body ∈ Lexeme.stringPart∗) : literalByte byte ++ body ∈ Lexeme.stringPart∗ := by
  have hline : ∀ c ∈ literalByte byte, c ≠ '\n' :=
    fun c hc => ne_newline_of_isPrintable (isPrintable_of_mem_literalByte hc)
  obtain ⟨c, hbyte, -⟩ | ⟨c, hbyte, -, hquote, hbackslash, -⟩ | hbyte := literalByte_cases byte
  · rw [hbyte] at hline ⊢
    exact Lexeme.append_mem_stringParts (Lexeme.escape_mem_stringPart (hline c (by simp))) hbody
  · rw [hbyte]
    exact Lexeme.append_mem_stringParts (Lexeme.plain_mem_stringPart hquote hbackslash) hbody
  · have hplain : ∀ n, [Nat.digitChar n] ∈ Lexeme.stringPart := fun n =>
      Lexeme.plain_mem_stringPart (Nat.digitChar_ne '"' (by decide))
        (Nat.digitChar_ne '\\' (by decide))
    rw [hbyte] at hline ⊢
    -- The backslash takes the first digit along, and the other two are plain.
    change ['\\', _] ++ ([_] ++ ([_] ++ body)) ∈ _
    apply Lexeme.append_mem_stringParts (Lexeme.escape_mem_stringPart (hline _ (by simp [octal])))
    exact Lexeme.append_mem_stringParts (hplain _) (Lexeme.append_mem_stringParts (hplain _) hbody)

theorem stringLiteral_mem_strings (all : List UInt8) :
    (stringLiteral all).toList ∈ Lexeme.strings := by
  rw [stringLiteral, String.toList_ofList]
  refine Lexeme.mem_strings_iff.2 ⟨all.flatMap literalByte, ?_, rfl⟩
  induction all with
  | nil => exact Language.nil_mem_kstar _
  | cons byte all ih =>
      rw [List.flatMap_cons]
      exact literalByte_mem_stringParts byte ih

/-! Shared bytes are read as themselves, and of the others more bytes are read than were
written. -/

theorem namedEscape?_of_simpleEscape? {c : Char} {byte : UInt8}
    (hc : simpleEscape? c = some byte) : namedEscape? c = some byte := by
  unfold simpleEscape? at hc
  split at hc
  all_goals first | contradiction | exact hc

theorem length_literalByte_le {byte : UInt8} (hbyte : Shared byte) :
    (literalByte byte).length ≤ 2 := by
  unfold literalByte
  split_ifs with hquote hbackslash hnewline htab hreturn hprintable
  case neg => exact absurd hbyte (by simp [Shared, *])
  all_goals simp

theorem decode_of_shared {byte : UInt8} (hbyte : Shared byte) (rest : List Char) :
    decode (literalByte byte ++ rest) = byte :: decode rest := by
  obtain ⟨c, heq, hsimple⟩ | ⟨c, heq, -, -, hbackslash, hcode⟩ | heq := literalByte_cases byte
  · rw [heq]
    exact decode_named (namedEscape?_of_simpleEscape? hsimple) rest
  · rw [heq]
    change decode (c :: rest) = _
    rw [decode_plain hbackslash, hcode]
    rfl
  · have hlength := length_literalByte_le hbyte
    rw [heq] at hlength
    contradiction

theorem length_decode_plain {c : Char} (hc : c ≠ '\\') (rest : List Char) :
    (decode rest).length < (decode (c :: rest)).length := by
  have hpositive := c.utf8Size_pos
  rw [decode_plain hc, List.length_append, String.length_utf8EncodeChar]
  omega

theorem length_decode_escape {c : Char} (hc : c ≠ 'x') (rest : List Char) :
    (decode rest).length < (decode ('\\' :: c :: rest)).length := by
  cases hnamed : namedEscape? c with
  | none =>
      rw [decode_unknown hnamed hc, List.length_append, List.length_cons]
      omega
  | some byte =>
      rw [decode_named hnamed, List.length_cons]
      omega

theorem literalByte_of_not_shared {byte : UInt8} (hbyte : ¬ Shared byte) :
    literalByte byte = '\\' :: octal byte := by
  unfold literalByte
  split_ifs with hquote hbackslash hnewline htab hreturn hprintable
  case neg => rfl
  all_goals exact absurd (by simp [Shared, *]) hbyte

theorem length_decode_of_not_shared {byte : UInt8} (hbyte : ¬ Shared byte) (rest : List Char) :
    (decode rest).length + 1 < (decode (literalByte byte ++ rest)).length := by
  have hplain : ∀ n, Nat.digitChar n ≠ '\\' := fun n => Nat.digitChar_ne '\\' (by decide)
  have hhex : ∀ n, Nat.digitChar n ≠ 'x' := fun n => Nat.digitChar_ne 'x' (by decide)
  rw [literalByte_of_not_shared hbyte]
  change _ < (decode ('\\' :: _ :: _ :: _ :: rest)).length
  calc
    (decode rest).length + 1 ≤ (decode (_ :: rest)).length := length_decode_plain (hplain _) rest
    _ < (decode (_ :: _ :: rest)).length := length_decode_plain (hplain _) _
    _ < _ := length_decode_escape (hhex _) _

theorem length_le_length_decode (all : List UInt8) :
    all.length ≤ (decode (all.flatMap literalByte)).length := by
  induction all with
  | nil => exact Nat.zero_le _
  | cons byte all ih =>
      rw [List.flatMap_cons, List.length_cons]
      by_cases hbyte : Shared byte
      · rw [decode_of_shared hbyte, List.length_cons]
        omega
      · have hmore := length_decode_of_not_shared hbyte (all.flatMap literalByte)
        omega

theorem decode_flatMap_literalByte_eq_iff (all : List UInt8) :
    decode (all.flatMap literalByte) = all ↔ ∀ byte ∈ all, Shared byte := by
  induction all with
  | nil => simp [decode]
  | cons byte all ih =>
      rw [List.flatMap_cons, List.forall_mem_cons, ← ih]
      by_cases hbyte : Shared byte
      · rw [decode_of_shared hbyte, List.cons.injEq, and_iff_right rfl, and_iff_right hbyte]
      · refine iff_of_false (fun hsame => ?_) fun hboth => hbyte hboth.1
        have hmore := length_decode_of_not_shared hbyte (all.flatMap literalByte)
        have hleast := length_le_length_decode all
        rw [hsame, List.length_cons] at hmore
        omega

/-- An emitted literal is one string of the source language, and that string denotes the bytes
of the literal exactly if all of them are shared. -/
theorem scan_stringLiteral (all : List UInt8) (file : String) :
    ∃ token position,
      Token.scan (stringLiteral all) file = .ok [token, Token.endMark position] ∧
        token.kind = .string ∧ (bytes token.value = all ↔ ∀ byte ∈ all, Shared byte) := by
  have hnext := Lexeme.next?_of_mem_strings (stringLiteral_mem_strings all) []
  rw [List.append_nil] at hnext
  refine ⟨_, _, Token.scan_of_cut file (Lexeme.cut_of_next? hnext Lexeme.cut_nil), rfl, ?_⟩
  have hvalue : Lexeme.value ⟨.token .string, (stringLiteral all).toList⟩ =
      .ofList (all.flatMap literalByte) := by
    simp [Lexeme.value, stringLiteral]
  rw [hvalue, bytes, String.toList_ofList, decode_flatMap_literalByte_eq_iff]

end Coroscript.Literal
