import Coroscript.Proofs.Cpp.Lexer

namespace Coroscript.Cpp

/-! Texts that are read as one expression, whatever follows them. -/

/-- `text` is read as `term` on `level`. On the tightest level it starts with a
character that no sign before it runs into. -/
def Legible (dotted : Bool) (level : Nat) (text : List Char) (term : Term) : Prop :=
  (∃ words, LexesAs dotted text words ∧ Derives level term words) ∧
    (level = 0 → ∃ c tail, text = c :: tail ∧ isOperandStart c = true)

namespace Legible

variable {dotted other : Bool} {level : Nat} {text left right : List Char} {term : Term}

theorem reads {code : String} (hcode : Legible dotted loosest code.toList term) :
    Reads code term := by
  obtain ⟨⟨words, hwords, hterm⟩, -⟩ := hcode
  exact ⟨words, hwords.lexes, hterm⟩

theorem undotted (htext : Legible dotted level text term) : Legible false level text term := by
  obtain ⟨⟨words, hwords, hterm⟩, hstart⟩ := htext
  exact ⟨⟨words, hwords.undotted, hterm⟩, hstart⟩

theorem loosen {looser : Nat} (hlevel : level ≤ looser) (htext : Legible dotted level text term) :
    Legible dotted looser text term := by
  obtain ⟨⟨words, hwords, hterm⟩, hstart⟩ := htext
  exact ⟨⟨words, hwords, hterm.loosen hlevel⟩, fun hlooser => hstart (by omega)⟩

theorem ofWord {c : Char} {tail : List Char} (hc : isLetter c = true)
    (htail : ∀ part ∈ tail, isWordPart part = true)
    (hname : String.ofList (c :: tail) ∉ keywords) :
    Legible true 0 (c :: tail) (.name (.ofList (c :: tail))) := by
  refine ⟨⟨_, lexesAs_word hc htail, ?_⟩, fun _ => ⟨c, tail, rfl, by simp [isOperandStart, hc]⟩⟩
  rw [Word.ofText, if_neg hname]
  exact (Primary.name _).derives

theorem ofNumber {c : Char} {tail : List Char} (hc : c.isDigit = true)
    (htail : ∀ part ∈ tail, part.isDigit = true ∨ part = '.') :
    Legible false 0 (c :: tail) (.number (.ofList (c :: tail))) :=
  ⟨⟨_, lexesAs_number hc htail, (Primary.number _).derives⟩,
    fun _ => ⟨c, tail, rfl, by simp [isOperandStart, hc]⟩⟩

theorem ofBytes (bytes : List UInt8) :
    Legible true 0 (stringLiteral bytes).toList
      (.string (.ofList (bytes.flatMap literalByte))) := by
  refine ⟨⟨_, lexesAs_stringLiteral bytes, (Primary.string _).derives⟩, fun _ => ?_⟩
  exact ⟨'"', _, by rw [stringLiteral, String.toList_ofList]; rfl, by decide⟩

theorem parens (htext : Legible dotted level text term) (hlevel : level ≤ loosest) :
    Legible true 0 ('(' :: text ++ [')']) term := by
  obtain ⟨⟨words, hwords, hterm⟩, -⟩ := htext
  exact ⟨⟨_, hwords.parens, (Primary.grouping (hterm.loosen hlevel)).derives⟩,
    fun _ => ⟨'(', _, rfl, by decide⟩⟩

theorem sign {operator : String} (hoperator : operator ∈ ["+", "-", "!"])
    (htext : Legible dotted 0 text term) :
    Legible dotted 1 (operator.toList ++ text) (.unary operator term) := by
  obtain ⟨⟨words, hwords, hterm⟩, hstart⟩ := htext
  obtain ⟨c, tail, rfl, hc⟩ := hstart rfl
  have hsign : operator ∈ signs := by
    simp only [List.mem_cons, List.not_mem_nil, or_false] at hoperator
    rcases hoperator with rfl | rfl | rfl <;> decide
  exact ⟨⟨_, hwords.sign hoperator hc, .signed hsign (.plain hterm)⟩, by simp⟩

theorem operator {operator : String} {leftTerm rightTerm : Term}
    (hoperator : operator ∈ ["*", "/", "+", "-", "<", "<=", ">", ">=", "==", "!=", "&&", "||"])
    (hlevel : operator ∈ operators (level + 2)) (hleft : Legible dotted (level + 2) left leftTerm)
    (hright : Legible other (level + 1) right rightTerm) :
    Legible false (level + 2) (left ++ ' ' :: operator.toList ++ ' ' :: right)
      (.binary operator leftTerm rightTerm) := by
  obtain ⟨⟨leftWords, hleftWords, hleftTerm⟩, -⟩ := hleft
  obtain ⟨⟨rightWords, hrightWords, hrightTerm⟩, -⟩ := hright
  exact ⟨⟨_, hleftWords.operator hoperator hrightWords.undotted,
    .operator hlevel hleftTerm hrightTerm⟩, by simp⟩

theorem hundredth (htext : Legible dotted 2 text term) :
    Legible false 2 (text ++ " * 0.01".toList) (.binary "*" term (.number "0.01")) := by
  have hnumber : Legible false 0 "0.01".toList (.number "0.01") :=
    ofNumber (by decide) (by simp; decide)
  have hproduct : Legible false 2 (text ++ ' ' :: "*".toList ++ ' ' :: "0.01".toList)
      (.binary "*" term (.number "0.01")) :=
    operator (by decide) (by decide) htext (hnumber.loosen (Nat.zero_le 1))
  simpa using hproduct

theorem next (htext : Legible true 0 text term) :
    Legible true 0 (text ++ ".next()".toList) (.call (.member term "next") []) := by
  obtain ⟨⟨words, hwords, hterm⟩, hstart⟩ := htext
  obtain ⟨c, tail, rfl, hc⟩ := hstart rfl
  refine ⟨⟨_, hwords.next, ?_⟩, fun _ => ⟨c, _, rfl, hc⟩⟩
  have hcall := (hterm.member "next").call .empty
  simpa using hcall

theorem cast {target : String} (htarget : target ∈ ["int", "double"])
    (htext : Legible dotted loosest text term) :
    Legible true 0 ("static_cast<".toList ++ target.toList ++ '>' :: ('(' :: text ++ [')']))
      (.cast target term) := by
  obtain ⟨⟨words, hwords, hterm⟩, -⟩ := htext
  refine ⟨⟨_, ?_, (Primary.cast hterm).derives⟩, fun _ => ⟨'s', _, rfl, by decide⟩⟩
  intro rest more hrest hmore
  have hangle : Lexes ('>' :: ('(' :: text ++ [')'] ++ rest))
      (.mark ">" :: (.mark "(" :: words ++ [.mark ")"] ++ more)) :=
    .word rfl (hwords.parens hrest hmore)
  rw [List.append_assoc]
  simp only [List.mem_cons, List.not_mem_nil, or_false] at htarget
  rcases htarget with rfl | rfl
  · exact .word rfl (.word rfl (.word rfl hangle))
  · exact .word rfl (.word rfl (.word rfl hangle))

theorem ofPow : Legible true 0 "std::pow".toList (.qualified "std" "pow") := by
  refine ⟨⟨_, ?_, (Primary.qualified "std" "pow").derives⟩, fun _ => ⟨'s', _, rfl, by decide⟩⟩
  intro rest more hrest hmore
  have hpow : LexesAs true ['p', 'o', 'w'] [.name "pow"] :=
    lexesAs_word (by decide) (List.all_eq_true.1 (by decide))
  exact .word rfl (.word rfl (hpow hrest hmore))

theorem call {function : Term} {arguments : List Term} {inner : List Char} {words : List Word}
    (hfunction : Legible dotted 0 text function) (hinner : LexesAs other inner words)
    (harguments : Arguments arguments (.mark "(" :: words ++ [.mark ")"])) :
    Legible true 0 (text ++ ('(' :: inner ++ [')'])) (.call function arguments) := by
  obtain ⟨⟨functionWords, hfunctionWords, hterm⟩, hstart⟩ := hfunction
  obtain ⟨c, tail, rfl, hc⟩ := hstart rfl
  exact ⟨⟨_, hfunctionWords.parens_behind hinner, hterm.call harguments⟩, fun _ => ⟨c, _, rfl, hc⟩⟩

end Legible

end Coroscript.Cpp
