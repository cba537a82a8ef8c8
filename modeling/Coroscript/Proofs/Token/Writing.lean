import Coroscript.Token.Scan

namespace Coroscript

/-! What the tokens of a source text look like. -/

def TokenKind.mark? : TokenKind → Option String
  | equals => some "=="
  | notEquals => some "!="
  | lessEquals => some "<="
  | greaterEquals => some ">="
  | or => some "||"
  | and => some "&&"
  | openCurly => some "\x7b"
  | closeCurly => some "\x7d"
  | openParen => some "("
  | closeParen => some ")"
  | not => some "!"
  | assignment => some "="
  | less => some "<"
  | greater => some ">"
  | semicolon => some ";"
  | comma => some ","
  | plus => some "+"
  | dash => some "-"
  | slash => some "/"
  | star => some "*"
  | percent => some "%"
  | caret => some "^"
  | _ => none

/-- The texts that are tokens of a kind. -/
def TokenKind.Writes (text : List Char) : TokenKind → Prop
  | number =>
      ∃ first tail, text = first :: tail ∧ first.isDigit = true ∧
        ∀ c ∈ tail, c.isDigit = true ∨ c = '.'
  | identifier =>
      ∃ first tail, text = first :: tail ∧ Lexeme.isWordStart first = true ∧
        ∀ c ∈ tail, Lexeme.isWordPart c = true
  | kind => ∀ mark ∈ kind.mark?, text = mark.toList

def Token.Fits (token : Token) : Prop :=
  token.kind.Writes token.value.toList

theorem TokenKind.ofWord_mem (word : String) :
    ofWord word ∈ identifier :: reserved.map Prod.snd := by
  unfold ofWord
  cases hlookup : reserved.lookup word with
  | none => exact .head _
  | some kind =>
      obtain ⟨before, after, hreserved, _⟩ := List.lookup_eq_some_iff.1 hlookup
      rw [hreserved]
      simp

theorem TokenKind.writes_ofWord {text : List Char} {first : Char} {tail : List Char}
    (htext : text = first :: tail) (hfirst : Lexeme.isWordStart first = true)
    (htail : ∀ c ∈ tail, Lexeme.isWordPart c = true) (word : String) :
    (ofWord word).Writes text := by
  rcases List.mem_cons.1 (ofWord_mem word) with hkind | hkind
  · rw [hkind]
    exact ⟨first, tail, htext, hfirst, htail⟩
  · simp only [reserved, List.map_cons, List.map_nil, List.mem_cons, List.not_mem_nil,
      or_false] at hkind
    rcases hkind with hkind | hkind | hkind | hkind | hkind | hkind | hkind | hkind | hkind |
      hkind | hkind
    all_goals
      rw [hkind]
      exact fun mark hmark => by contradiction

namespace Lexeme

theorem fraction_chars {rest : List Char} :
    ∀ c ∈ (fraction rest).1, c.isDigit = true ∨ c = '.' := by
  unfold fraction
  split
  · split
    · rename_i digit tail hdigit
      intro c hc
      rcases List.mem_cons.1 hc with rfl | hc
      · exact .inr rfl
      rcases List.mem_cons.1 hc with rfl | hc
      · exact .inl hdigit
      · exact .inl (List.all_eq_true.1 List.all_takeWhile c hc)
    · simp
  · simp

theorem mark?_writes {text rest : List Char} {lexeme : Lexeme}
    (hmark : mark? text = some (lexeme, rest)) :
    ∃ kind, lexeme.lexClass = .token kind ∧ kind.Writes lexeme.text := by
  unfold mark? symbol at hmark
  split at hmark <;> first
    | contradiction
    | (simp only [Option.some.injEq, Prod.mk.injEq] at hmark
       obtain ⟨rfl, rfl⟩ := hmark
       refine ⟨_, rfl, ?_⟩
       rintro _ ⟨⟩
       rfl)

theorem next?_writes {text rest : List Char} {lexeme : Lexeme} {kind : TokenKind}
    (hnext : next? text = some (lexeme, rest)) (hkind : lexeme.lexClass = .token kind) :
    kind.Writes lexeme.text := by
  unfold next? at hnext
  split at hnext
  · contradiction
  · simp only [comment, Option.some.injEq, Prod.mk.injEq] at hnext
    rw [← hnext.1] at hkind
    contradiction
  rename_i first tail _
  split at hnext
  · rename_i hfirst
    simp only [word, Option.some.injEq, Prod.mk.injEq] at hnext
    obtain ⟨rfl, rfl⟩ := hnext
    cases hkind
    exact TokenKind.writes_ofWord rfl hfirst (List.all_eq_true.1 List.all_takeWhile) _
  split at hnext
  · rename_i hfirst
    simp only [number, Option.some.injEq, Prod.mk.injEq] at hnext
    obtain ⟨rfl, rfl⟩ := hnext
    cases hkind
    refine ⟨first, _, rfl, hfirst, ?_⟩
    intro c hc
    rcases List.mem_append.1 hc with hc | hc
    · exact .inl (List.all_eq_true.1 List.all_takeWhile c hc)
    · exact fraction_chars c hc
  split at hnext
  · simp only [blank, Option.some.injEq, Prod.mk.injEq] at hnext
    rw [← hnext.1] at hkind
    contradiction
  split at hnext
  · obtain ⟨⟨body, after⟩, hclose, heq⟩ := Option.map_eq_some_iff.1 hnext
    simp only [Prod.mk.injEq] at heq
    obtain ⟨rfl, rfl⟩ := heq
    cases hkind
    exact fun mark hmark => by contradiction
  · obtain ⟨found, hfound, hwrites⟩ := mark?_writes hnext
    rw [hfound] at hkind
    cases hkind
    exact hwrites

theorem cut_writes (text : List Char) {lexeme : Lexeme} {kind : TokenKind}
    (hlexeme : lexeme ∈ (cut text).1) (hkind : lexeme.lexClass = .token kind) :
    kind.Writes lexeme.text := by
  fun_induction cut text with
  | case1 text hnext => simp at hlexeme
  | case2 text first rest hnext lexemes stuck hrest ih =>
      rcases List.mem_cons.1 hlexeme with rfl | hlexeme
      · exact next?_writes hnext hkind
      · exact ih (by rw [hrest]; exact hlexeme)

end Lexeme

namespace Token

theorem fits_ofLexemes {file : String} {lexemes : List Lexeme} {offset : Nat} {token : Token}
    (hlexemes : ∀ lexeme ∈ lexemes, ∀ kind, lexeme.lexClass = .token kind →
      kind.Writes lexeme.text)
    (htoken : token ∈ ofLexemes file offset lexemes) : token.Fits := by
  induction lexemes generalizing offset with
  | nil =>
      rw [ofLexemes, List.mem_singleton] at htoken
      subst htoken
      exact fun mark hmark => by contradiction
  | cons lexeme lexemes ih =>
      have hothers := fun other hother => hlexemes other (List.mem_cons_of_mem lexeme hother)
      have hlexeme := hlexemes lexeme List.mem_cons_self
      rw [ofLexemes] at htoken
      cases hclass : lexeme.lexClass with
      | token kind =>
          simp only [hclass] at htoken
          rcases List.mem_cons.1 htoken with rfl | htoken
          · have hwrites := hlexeme kind hclass
            by_cases hstring : kind = .string
            · subst hstring
              exact fun mark hmark => by contradiction
            · have hvalue : lexeme.value.toList = lexeme.text := by
                simp [Lexeme.value, hclass, hstring]
              exact hvalue ▸ hwrites
          · exact ih hothers htoken
      | blank =>
          simp only [hclass] at htoken
          exact ih hothers htoken
      | comment =>
          simp only [hclass] at htoken
          exact ih hothers htoken

theorem getLast?_ofLexemes (file : String) (lexemes : List Lexeme) (offset : Nat) :
    ∃ position, (ofLexemes file offset lexemes).getLast? = some (endMark position) := by
  induction lexemes generalizing offset with
  | nil => exact ⟨_, rfl⟩
  | cons lexeme lexemes ih =>
      obtain ⟨position, hlast⟩ := ih (offset + byteLength lexeme.text)
      refine ⟨position, ?_⟩
      rw [ofLexemes]
      cases lexeme.lexClass with
      | token kind => simp [List.getLast?_cons, hlast]
      | blank => exact hlast
      | comment => exact hlast

theorem getLast?_scan {source file : String} {tokens : List Token}
    (hscan : scan source file = .ok tokens) :
    ∃ position, tokens.getLast? = some (endMark position) := by
  rw [scan] at hscan
  split at hscan
  · exact Except.ok.inj hscan ▸ getLast?_ofLexemes _ _ _
  · contradiction

/-- Every token of a source text has a value of its kind. -/
theorem fits_of_mem_scan {source file : String} {tokens : List Token} {token : Token}
    (hscan : scan source file = .ok tokens) (htoken : token ∈ tokens) : token.Fits := by
  rw [scan] at hscan
  split at hscan
  · rename_i lexemes hcut
    rw [← Except.ok.inj hscan] at htoken
    refine fits_ofLexemes (fun lexeme hlexeme kind hkind => ?_) htoken
    exact Lexeme.cut_writes source.toList (by rw [hcut]; exact hlexeme) hkind
  · contradiction

end Token

end Coroscript
