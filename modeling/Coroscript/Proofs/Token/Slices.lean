import Coroscript.Proofs.Token.Tiling

namespace Coroscript

/-! A stretch of source text from the start of one token to the end of another, read alone, has
the same tokens. They only stand elsewhere. -/

def Position.shift (amount : UInt32) (position : Position) : Position :=
  ⟨position.offset + amount, position.file⟩

def Span.shift (amount : UInt32) (span : Span) : Span :=
  ⟨span.start.shift amount, span.stop.shift amount⟩

def Token.shift (amount : UInt32) (token : Token) : Token :=
  { token with span := token.span.shift amount }

theorem Position.ofOffset_add (base offset : Nat) (file : String) :
    ofOffset (base + offset) file = (ofOffset offset file).shift (UInt32.ofNat base) := by
  rw [ofOffset, shift, offset_ofOffset, UInt32.ofNat_add, UInt32.add_comm]
  rfl

namespace Lexeme

/-! What follows a lexeme may end earlier. -/

theorem mark_eq_of_next? {kind : TokenKind} {text rest after : List Char} {found : Lexeme}
    (hmark : kind.mark? = some (.ofList text)) (hnext : next? (text ++ rest) = some (found, after))
    (htext : found.text = text) : found = ⟨.token kind, text⟩ := by
  cases kind
  all_goals first | contradiction | cases String.ofList_injective (Option.some.inj hmark)
  case not | assignment | less | greater =>
    by_cases hpair : ∃ tail, rest = '=' :: tail
    · obtain ⟨tail, rfl⟩ := hpair
      cases hnext
      contradiction
    · have hsingle : mark? (_ :: rest) = some (found, after) := hnext
      rw [mark?] at hsingle
      · cases hsingle
        rfl
      · exact fun tail heq => hpair ⟨tail, heq⟩
  case slash =>
    by_cases hcomment : ∃ tail, rest = '/' :: tail
    · obtain ⟨tail, rfl⟩ := hcomment
      cases hnext
      simp at htext
    · rw [List.cons_append, List.nil_append, next?] at hnext
      · cases hnext
        rfl
      · exact fun tail _ heq => hcomment ⟨tail, heq⟩
  all_goals
    cases hnext
    rfl

theorem Belongs.eq_of_next? {lexeme found : Lexeme} {rest after : List Char}
    (hlexeme : lexeme.Belongs) (hnext : next? (lexeme.text ++ rest) = some (found, after))
    (htext : found.text = lexeme.text) : found = lexeme := by
  cases hlexeme with
  | word hword =>
      obtain ⟨first, tail, rfl, hfirst, -⟩ := mem_run_iff.1 hword
      cases (next?_of_isWordStart hfirst _).symm.trans hnext
      exact congrArg (fun text => Lexeme.mk (.token (.ofWord (.ofList text))) text) htext
  | number hnumber =>
      obtain ⟨first, whole, hfirst, -, rfl | ⟨part, -, rfl⟩⟩ := mem_numbers_iff.1 hnumber
      · cases (next?_of_isDigit hfirst _).symm.trans hnext
        exact congrArg (Lexeme.mk (.token .number)) htext
      · cases (next?_of_isDigit hfirst _).symm.trans hnext
        exact congrArg (Lexeme.mk (.token .number)) htext
  | string hstring =>
      cases (next?_of_mem_strings hstring rest).symm.trans hnext
      rfl
  | mark hmark => exact mark_eq_of_next? hmark hnext htext
  | blank hblank =>
      obtain ⟨first, tail, rfl, hfirst, -⟩ := mem_run_iff.1 hblank
      cases (next?_of_isBlank hfirst _).symm.trans hnext
      exact congrArg (Lexeme.mk .blank) htext
  | comment hcomment =>
      obtain ⟨tail, rfl, -⟩ := mem_comments_iff.1 hcomment
      cases hnext
      exact congrArg (Lexeme.mk .comment) htext

/-- A lexeme is cut as well from a text that ends earlier behind it. -/
theorem next?_of_shorter {lexeme : Lexeme} {rest fewer : List Char}
    (hnext : next? (lexeme.text ++ rest) = some (lexeme, rest)) (hfewer : fewer <+: rest) :
    next? (lexeme.text ++ fewer) = some (lexeme, fewer) := by
  obtain ⟨hbelongs, -, hlongest⟩ := longest_of_next? hnext
  obtain ⟨found, after, hfound, hle⟩ :=
    next?_longest hbelongs (List.prefix_append lexeme.text fewer)
  obtain ⟨happend, -⟩ := next?_append hfound
  -- What is found here stands in the longer text as well.
  have hstart : found.text <+: lexeme.text ++ rest :=
    List.IsPrefix.trans ⟨after, happend⟩ ((List.prefix_append_right_inj _).2 hfewer)
  have hlength := Nat.le_antisymm (hlongest found (next?_belongs hfound) hstart) hle
  obtain ⟨htext, hafter⟩ := List.append_inj happend hlength
  rw [hfound, hbelongs.eq_of_next? hfound htext, hafter]

theorem next?_of_cut {text stuck : List Char} {lexeme : Lexeme} {lexemes : List Lexeme}
    (hcut : cut text = (lexeme :: lexemes, stuck)) :
    ∃ rest, next? text = some (lexeme, rest) ∧ cut rest = (lexemes, stuck) := by
  rw [cut] at hcut
  split at hcut
  · cases hcut
  · rename_i found rest hnext
    cases hcut
    exact ⟨rest, hnext, rfl⟩

theorem cut_behind {text stuck : List Char} {left right : List Lexeme}
    (hcut : cut text = (left ++ right, stuck)) :
    ∃ rest, text = left.flatMap Lexeme.text ++ rest ∧ cut rest = (right, stuck) := by
  induction left generalizing text with
  | nil => exact ⟨text, rfl, hcut⟩
  | cons lexeme left ih =>
      obtain ⟨behind, hnext, hbehind⟩ := next?_of_cut hcut
      obtain ⟨rest, rfl, hrest⟩ := ih hbehind
      refine ⟨rest, ?_, hrest⟩
      rw [← (next?_append hnext).1, List.flatMap_cons, List.append_assoc]

theorem cut_before {text stuck : List Char} {run right : List Lexeme}
    (hcut : cut text = (run ++ right, stuck)) : cut (run.flatMap Lexeme.text) = (run, []) := by
  induction run generalizing text with
  | nil => exact cut_nil
  | cons lexeme run ih =>
      obtain ⟨behind, hnext, hbehind⟩ := next?_of_cut hcut
      obtain ⟨rest, rfl, -⟩ := cut_behind hbehind
      rw [← (next?_append hnext).1] at hnext
      exact cut_of_next? (next?_of_shorter hnext (List.prefix_append _ _)) (ih hbehind)

end Lexeme

namespace Token

/-- The tokens among `lexemes`, without an end mark. -/
def ofRun (file : String) (offset : Nat) : List Lexeme → List Token
  | [] => []
  | lexeme :: lexemes =>
      let width := byteLength lexeme.text
      let rest := ofRun file (offset + width) lexemes
      match lexeme.lexClass with
      | .token kind => ⟨kind, lexeme.value, .ofOffset offset width file⟩ :: rest
      | .blank => rest
      | .comment => rest

variable {file : String}

theorem ofLexemes_eq (offset : Nat) (lexemes : List Lexeme) :
    ofLexemes file offset lexemes = ofRun file offset lexemes ++
      [endMark (.ofOffset (offset + byteLength (lexemes.flatMap Lexeme.text)) file)] := by
  induction lexemes generalizing offset with
  | nil => rfl
  | cons lexeme lexemes ih =>
      rw [ofLexemes, ofRun, ih, List.flatMap_cons, byteLength_append, Nat.add_assoc]
      cases lexeme.lexClass <;> rfl

theorem ofRun_append (offset : Nat) (left right : List Lexeme) :
    ofRun file offset (left ++ right) = ofRun file offset left ++
      ofRun file (offset + byteLength (left.flatMap Lexeme.text)) right := by
  induction left generalizing offset with
  | nil => rfl
  | cons lexeme left ih =>
      rw [List.cons_append, ofRun, ofRun, ih, List.flatMap_cons, byteLength_append, Nat.add_assoc]
      cases lexeme.lexClass <;> rfl

theorem ofRun_add (base offset : Nat) (lexemes : List Lexeme) :
    ofRun file (base + offset) lexemes =
      (ofRun file offset lexemes).map (shift (UInt32.ofNat base)) := by
  induction lexemes generalizing offset with
  | nil => rfl
  | cons lexeme lexemes ih =>
      rw [ofRun, ofRun, Nat.add_assoc, ih]
      cases lexeme.lexClass with
      | token kind =>
          simp only [List.map_cons, shift, Span.shift, Span.ofOffset, Nat.add_assoc,
            Position.ofOffset_add base]
      | blank => rfl
      | comment => rfl

/-- Each token is one of the lexemes. -/
theorem exists_lexeme {offset : Nat} {lexemes : List Lexeme} {before after : List Token}
    {word : Token} (hwords : ofRun file offset lexemes = before ++ word :: after) :
    ∃ left lexeme right, lexemes = left ++ lexeme :: right ∧ ofRun file offset left = before ∧
      ofRun file (offset + byteLength (left.flatMap Lexeme.text)) [lexeme] = [word] ∧
      word.span = .ofOffset (offset + byteLength (left.flatMap Lexeme.text))
        (byteLength lexeme.text) file := by
  induction lexemes generalizing offset before with
  | nil => simp [ofRun] at hwords
  | cons lexeme lexemes ih =>
      have hlater {others : List Token} (hbefore : before = ofRun file offset [lexeme] ++ others)
          (hothers : ofRun file (offset + byteLength lexeme.text) lexemes =
            others ++ word :: after) :
          ∃ left found right, lexeme :: lexemes = left ++ found :: right ∧
            ofRun file offset left = before ∧
            ofRun file (offset + byteLength (left.flatMap Lexeme.text)) [found] = [word] ∧
            word.span = .ofOffset (offset + byteLength (left.flatMap Lexeme.text))
              (byteLength found.text) file := by
        obtain ⟨left, found, right, rfl, hleft, hword, hspan⟩ := ih hothers
        refine ⟨lexeme :: left, found, right, rfl, ?_, ?_, ?_⟩
        · rw [← List.singleton_append, ofRun_append, List.flatMap_singleton, hleft, hbefore]
        · rwa [List.flatMap_cons, byteLength_append, ← Nat.add_assoc]
        · rwa [List.flatMap_cons, byteLength_append, ← Nat.add_assoc]
      rw [ofRun] at hwords
      cases hclass : lexeme.lexClass with
      | token kind =>
          simp only [hclass] at hwords
          cases before with
          | nil =>
              obtain ⟨rfl, -⟩ := List.cons.inj hwords
              exact ⟨[], lexeme, lexemes, rfl, rfl, by simp [ofRun, hclass], rfl⟩
          | cons first others =>
              obtain ⟨rfl, hothers⟩ := List.cons.inj hwords
              exact hlater (by simp [ofRun, hclass]) hothers
      | blank =>
          simp only [hclass] at hwords
          exact hlater (by simp [ofRun, hclass]) hwords
      | comment =>
          simp only [hclass] at hwords
          exact hlater (by simp [ofRun, hclass]) hwords

/-- Tokens that follow each other come from lexemes that follow each other, the first and the last
of which are tokens. -/
theorem exists_run {lexemes : List Lexeme} {before words after : List Token} {first last : Token}
    (hwords : ofRun file 0 lexemes = before ++ words ++ after)
    (hfirst : words.head? = some first) (hlast : words.getLast? = some last) :
    ∃ left run right, lexemes = left ++ run ++ right ∧
      ofRun file (byteLength (left.flatMap Lexeme.text)) run = words ∧
      first.span.start = .ofOffset (byteLength (left.flatMap Lexeme.text)) file ∧
      last.span.stop = .ofOffset (byteLength ((left ++ run).flatMap Lexeme.text)) file := by
  obtain ⟨others, rfl⟩ := List.head?_eq_some_iff.1 hfirst
  obtain ⟨earlier, hearlier⟩ := List.getLast?_eq_some_iff.1 hlast
  rw [List.append_assoc, List.cons_append] at hwords
  obtain ⟨left, lexeme, right, rfl, hleft, -, hspan⟩ := exists_lexeme hwords
  rw [Nat.zero_add] at hspan
  rw [ofRun_append, hleft, Nat.zero_add] at hwords
  have hrest := List.append_cancel_left hwords
  rw [← List.cons_append, hearlier, List.append_assoc] at hrest
  obtain ⟨run, final, behind, hright, hrun, hfinal, hstop⟩ := exists_lexeme hrest
  refine ⟨left, run ++ [final], behind, ?_, ?_, ?_, ?_⟩
  · rw [hright]
    simp
  · rw [ofRun_append, hrun, hfinal, hearlier]
  · rw [hspan]
    rfl
  · rw [hstop]
    simp [Span.ofOffset, Nat.add_assoc]

variable {source : String} {tokens before words after : List Token}

theorem scan_slice {first last : Token} (hscan : scan source file = .ok tokens)
    (htokens : tokens = before ++ words ++ after) (hafter : after ≠ [])
    (hfirst : words.head? = some first) (hlast : words.getLast? = some last) :
    ∃ left slice right alone, source.toList = left ++ slice ++ right ∧
      first.span.start = .ofOffset (byteLength left) file ∧
      last.span.stop = .ofOffset (byteLength (left ++ slice)) file ∧
      scan (.ofList slice) file =
        .ok (alone ++ [endMark (.ofOffset (byteLength slice) file)]) ∧
      words = alone.map (shift (UInt32.ofNat (byteLength left))) := by
  obtain ⟨lexemes, hcut, hok⟩ | ⟨_, _, _, _, herror⟩ := scan_cases source file
  · cases hscan.symm.trans hok
    obtain ⟨others, mark, rfl⟩ : ∃ others mark, after = others ++ [mark] :=
      ⟨_, _, (List.dropLast_append_getLast hafter).symm⟩
    rw [ofLexemes_eq, ← List.append_assoc] at htokens
    obtain ⟨left, run, right, rfl, hrun, hstart, hstop⟩ :=
      exists_run (List.append_inj' htokens rfl).1 hfirst hlast
    have hsource := Lexeme.flatMap_text_cut source.toList
    rw [hcut] at hsource
    rw [List.append_assoc] at hcut
    obtain ⟨rest, -, hrest⟩ := Lexeme.cut_behind hcut
    refine ⟨left.flatMap Lexeme.text, run.flatMap Lexeme.text, right.flatMap Lexeme.text,
      ofRun file 0 run, ?_, hstart, ?_, ?_, ?_⟩
    · rw [← hsource]
      simp
    · rw [hstop, List.flatMap_append]
    · rw [scan, String.toList_ofList, Lexeme.cut_before hrest]
      simp only [ofLexemes_eq, Nat.zero_add]
    · rw [← hrun, ← ofRun_add, Nat.add_zero]
  · cases hscan.symm.trans herror

end Token

end Coroscript
