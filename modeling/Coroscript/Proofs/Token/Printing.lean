import Coroscript.Proofs.Token.Slices

namespace Coroscript

/-! Tokens that are written out again, with a space between each two of them, are read back as
they were. -/

namespace Lexeme

/-! A token ends where a blank follows it. -/

theorem run_of_ended {isPart : Char → Bool} {run after : List Char}
    (hrun : ∀ c ∈ run, isPart c = true) (hafter : ∀ c ∈ after.head?, isPart c = false) :
    (run ++ after).takeWhile isPart = run ∧ (run ++ after).dropWhile isPart = after := by
  rw [List.takeWhile_append_of_pos hrun, List.dropWhile_append_of_pos hrun]
  cases after with
  | nil => exact ⟨List.append_nil run, rfl⟩
  | cons c rest => simp [hafter c rfl]

/-- Where a text ends, or goes on with a blank. -/
def Ended (after : List Char) : Prop :=
  ∀ c ∈ after.head?, isBlank c = true

theorem ended_nil : Ended [] :=
  fun _ hnone => by contradiction

theorem Ended.isPart_eq_false {isPart : Char → Bool} {after : List Char} (hafter : Ended after)
    (hblanks : (blanks.all fun c => !isPart c) = true) : ∀ c ∈ after.head?, isPart c = false := by
  intro c hc
  simpa using List.all_eq_true.1 hblanks c (isBlank_iff.1 (hafter c hc))

theorem Ended.ne_cons {after : List Char} (hafter : Ended after) {c : Char}
    (hc : isBlank c = false) (rest : List Char) : after ≠ c :: rest := by
  rintro rfl
  cases hc.symm.trans (hafter c rfl)

theorem word_of_ended {first : Char} {tail after : List Char}
    (htail : ∀ c ∈ tail, isWordPart c = true) (hafter : Ended after) :
    word first (tail ++ after) =
      (⟨.token (.ofWord (.ofList (first :: tail))), first :: tail⟩, after) := by
  obtain ⟨htake, hdrop⟩ := run_of_ended htail (hafter.isPart_eq_false rfl)
  rw [word, htake, hdrop]

theorem fraction_of_ended {after : List Char} (hafter : Ended after) :
    fraction after = ([], after) := by
  unfold fraction
  split
  · exact absurd rfl (hafter.ne_cons rfl _)
  · rfl

theorem number_of_ended {text after : List Char} (htext : text ∈ numbers) (hafter : Ended after) :
    ∃ first tail, text = first :: tail ∧ first.isDigit = true ∧
      number first (tail ++ after) = (⟨.token .number, text⟩, after) := by
  obtain ⟨first, whole, hfirst, hwhole, rfl | ⟨_, hpart, rfl⟩⟩ := mem_numbers_iff.1 htext
  · refine ⟨first, whole, rfl, hfirst, ?_⟩
    obtain ⟨htake, hdrop⟩ := run_of_ended hwhole (hafter.isPart_eq_false rfl)
    rw [number, htake, hdrop, fraction_of_ended hafter]
    simp
  · refine ⟨first, _, rfl, hfirst, ?_⟩
    obtain ⟨digit, part, rfl, hdigit, hpart⟩ := mem_run_iff.1 hpart
    obtain ⟨htake, hdrop⟩ := @run_of_ended Char.isDigit whole ('.' :: digit :: (part ++ after))
      hwhole (by simp)
    obtain ⟨hpartTake, hpartDrop⟩ := run_of_ended hpart (hafter.isPart_eq_false rfl)
    rw [List.append_assoc, List.cons_append, List.cons_append, number, htake, hdrop, fraction,
      if_pos hdigit, hpartTake, hpartDrop]
    simp

theorem mark_of_ended {kind : TokenKind} {text after : List Char}
    (hmark : kind.mark? = some (.ofList text)) (hafter : Ended after) :
    next? (text ++ after) = some (⟨.token kind, text⟩, after) := by
  cases kind
  all_goals first | contradiction | cases String.ofList_injective (Option.some.inj hmark)
  -- Only these are the beginning of another mark or of a comment.
  case not | assignment | less | greater =>
    change mark? (_ :: after) = _
    rw [mark?]
    · rfl
    · exact fun rest => hafter.ne_cons rfl rest
  case slash =>
    rw [List.cons_append, List.nil_append, next?]
    · rfl
    · exact fun rest _ => hafter.ne_cons rfl rest
  all_goals rfl

theorem Belongs.next?_of_ended {kind : TokenKind} {text after : List Char}
    (hlexeme : Belongs ⟨.token kind, text⟩) (hafter : Ended after) :
    next? (text ++ after) = some (⟨.token kind, text⟩, after) := by
  cases hlexeme with
  | word htext =>
      obtain ⟨first, tail, rfl, hfirst, htail⟩ := mem_run_iff.1 htext
      rw [List.cons_append, next?_of_isWordStart hfirst, word_of_ended htail hafter]
  | number htext =>
      obtain ⟨first, tail, rfl, hfirst, hnumber⟩ := number_of_ended htext hafter
      rw [List.cons_append, next?_of_isDigit hfirst, hnumber]
  | string htext => exact next?_of_mem_strings htext after
  | mark hmark => exact mark_of_ended hmark hafter

theorem belongs_of_mem_cut {text : List Char} {lexeme : Lexeme} (hlexeme : lexeme ∈ (cut text).1) :
    lexeme.Belongs := by
  fun_induction cut text with
  | case1 text hnext => contradiction
  | case2 text first rest hnext lexemes stuck hrest ih =>
      rcases List.mem_cons.1 hlexeme with rfl | hlexeme
      · exact next?_belongs hnext
      · exact ih (by rw [hrest]; exact hlexeme)

theorem Belongs.text_eq_cons {kind : TokenKind} {text : List Char}
    (hlexeme : Belongs ⟨.token kind, text⟩) :
    ∃ first rest, text = first :: rest ∧ isBlank first = false := by
  have hnext := hlexeme.next?_of_ended ended_nil
  rw [List.append_nil] at hnext
  cases text with
  | nil => contradiction
  | cons first rest =>
      refine ⟨first, rest, rfl, ?_⟩
      cases hfirst : isBlank first with
      | false => rfl
      | true => cases hnext.symm.trans (next?_of_isBlank hfirst rest)

/-- The blank between two words that are written out. -/
def space : Lexeme :=
  ⟨.blank, [' ']⟩

theorem Belongs.next?_space {kind : TokenKind} {text : List Char}
    (hlexeme : Belongs ⟨.token kind, text⟩) (after : List Char) :
    next? (' ' :: (text ++ after)) = some (space, text ++ after) := by
  obtain ⟨first, rest, rfl, hfirst⟩ := hlexeme.text_eq_cons
  simp [@next?_of_isBlank ' ' rfl, Lexeme.blank, space, hfirst]

end Lexeme

namespace Token

/-- The text of a token in a source. -/
def written (token : Token) : String :=
  if token.kind = .string then "\"" ++ token.value ++ "\"" else token.value

/-- The tokens but the end mark, with a space between each two of them. -/
def printed (tokens : List Token) : String :=
  " ".intercalate ((tokens.filter (·.kind ≠ .eof)).map written)

def word (token : Token) : TokenKind × String :=
  (token.kind, token.value)

def lexeme (token : Token) : Lexeme :=
  ⟨.token token.kind, token.written.toList⟩

theorem value_lexeme (token : Token) : token.lexeme.value = token.value := by
  by_cases hkind : token.kind = .string
  · simp [lexeme, written, Lexeme.value, hkind]
  · simp [lexeme, written, Lexeme.value, hkind]

theorem Shows.eq_written {token : Token} {text : List Char} (hshows : token.Shows text) :
    text = token.written.toList := by
  by_cases hkind : token.kind = .string
  · simpa [Shows, written, hkind] using hshows
  · simpa [Shows, written, hkind] using hshows

theorem lexeme_belongs {file : String} {offset : Nat} {lexemes : List Lexeme} {token : Token}
    (hlexemes : ∀ lexeme ∈ lexemes, lexeme.Belongs) (htoken : token ∈ ofRun file offset lexemes) :
    token.lexeme.Belongs := by
  obtain ⟨before, after, hwords⟩ := List.append_of_mem htoken
  obtain ⟨left, lexeme, right, rfl, -, hword, -⟩ := exists_lexeme hwords
  have hlexeme := hlexemes lexeme (by simp)
  cases hclass : lexeme.lexClass with
  | token kind =>
      simp only [ofRun, hclass, List.cons.injEq, and_true] at hword
      subst hword
      rw [Token.lexeme, ← (shows_value hlexeme hclass _).eq_written, ← hclass]
      exact hlexeme
  | blank => simp [ofRun, hclass] at hword
  | comment => simp [ofRun, hclass] at hword

/-- Words that are written out behind other words. -/
def spaced (words : List Token) : List Char :=
  words.flatMap fun word => ' ' :: word.written.toList

def spacedLexemes (words : List Token) : List Lexeme :=
  words.flatMap fun word => [.space, word.lexeme]

theorem ended_spaced (words : List Token) : Lexeme.Ended (spaced words) := by
  cases words with
  | nil => exact Lexeme.ended_nil
  | cons first others =>
      rintro _ ⟨⟩
      rfl

theorem cut_spaced {words : List Token} (hwords : ∀ word ∈ words, word.lexeme.Belongs) :
    Lexeme.cut (spaced words) = (spacedLexemes words, []) := by
  induction words with
  | nil => exact Lexeme.cut_nil
  | cons first others ih =>
      rw [List.forall_mem_cons] at hwords
      have hword := hwords.1.next?_of_ended (ended_spaced others)
      have hspace := hwords.1.next?_space (spaced others)
      exact Lexeme.cut_of_next? hspace (Lexeme.cut_of_next? hword (ih hwords.2))

theorem words_ofRun_lexeme (file : String) (offset : Nat) (token : Token) (lexemes : List Lexeme) :
    (ofRun file offset (token.lexeme :: lexemes)).map word =
      token.word :: (ofRun file (offset + byteLength token.lexeme.text) lexemes).map word := by
  change word ⟨token.kind, token.lexeme.value, _⟩ :: _ = _
  rw [value_lexeme]
  rfl

theorem words_ofRun_spaced (file : String) (offset : Nat) (words : List Token) :
    (ofRun file offset (spacedLexemes words)).map word = words.map word := by
  induction words generalizing offset with
  | nil => rfl
  | cons first others ih =>
      change (ofRun file _ (first.lexeme :: spacedLexemes others)).map word = _
      rw [words_ofRun_lexeme, ih, List.map_cons]

theorem toList_intercalate_written (first : Token) (others : List Token) :
    (" ".intercalate ((first :: others).map written)).toList =
      first.written.toList ++ spaced others := by
  induction others generalizing first with
  | nil => simp [spaced]
  | cons second others ih =>
      rw [List.map_cons, List.map_cons, String.intercalate_cons_cons, String.toList_append,
        ← List.map_cons, ih]
      simp [spaced]

theorem cut_written {words : List Token} (hwords : ∀ word ∈ words, word.lexeme.Belongs) :
    ∃ lexemes, Lexeme.cut (" ".intercalate (words.map written)).toList = (lexemes, []) ∧
      ∀ file offset, (ofRun file offset lexemes).map word = words.map word := by
  cases words with
  | nil => exact ⟨[], Lexeme.cut_nil, fun _ _ => rfl⟩
  | cons first others =>
      rw [List.forall_mem_cons] at hwords
      have hnext := hwords.1.next?_of_ended (ended_spaced others)
      refine ⟨first.lexeme :: spacedLexemes others, ?_, fun file offset => ?_⟩
      · rw [toList_intercalate_written]
        exact Lexeme.cut_of_next? hnext (cut_spaced hwords.2)
      · rw [words_ofRun_lexeme, words_ofRun_spaced, List.map_cons]

theorem filter_words {words : List Token} (hwords : ∀ word ∈ words, word.lexeme.Belongs)
    (position : Position) :
    (words ++ [endMark position]).filter (·.kind ≠ .eof) = words := by
  rw [List.filter_append, List.filter_eq_self.2, List.filter_eq_nil_iff.2, List.append_nil]
  · simp [endMark]
  · intro word hword
    have hkind := (hwords word hword).kind_ne_eof
    simpa [lexeme] using hkind

/-- Tokens that are written out with single spaces between them are read again as they were. -/
theorem scan_printed {source file : String} {tokens : List Token}
    (hscan : scan source file = .ok tokens) (file' : String) :
    ∃ again, scan (printed tokens) file' = .ok again ∧ again.map word = tokens.map word := by
  obtain ⟨lexemes, hcut, hok⟩ | ⟨_, _, _, _, herror⟩ := scan_cases source file
  · cases hscan.symm.trans hok
    have hwords : ∀ word ∈ ofRun file 0 lexemes, word.lexeme.Belongs := by
      intro word hword
      refine lexeme_belongs (fun lexeme hlexeme => ?_) hword
      exact @Lexeme.belongs_of_mem_cut source.toList lexeme (by rwa [hcut])
    obtain ⟨spaced, hspaced, hsame⟩ := cut_written hwords
    refine ⟨ofLexemes file' 0 spaced, ?_, ?_⟩
    · rw [ofLexemes_eq, printed, filter_words hwords, scan, hspaced]
    · rw [ofLexemes_eq, ofLexemes_eq, List.map_append, List.map_append, hsame]
      rfl
  · cases hscan.symm.trans herror

/-- Marks that stand close together, and a string with a comment mark, a quote and the end of a
line in it: `x<=/"//\"` with the line after it `"//y`. -/
theorem scan_printed_adjacent :
    ∃ tokens again, scan "x<=/\"//\\\"\n\"//y" "f" = .ok tokens ∧
      printed tokens = "x <= / \"//\\\"\n\"" ∧
      scan (printed tokens) "g" = .ok again ∧ again.map word = tokens.map word := by
  have hscan : scan "x<=/\"//\\\"\n\"//y" "f" = .ok (ofLexemes "f" 0
      [⟨.token .identifier, ['x']⟩, ⟨.token .lessEquals, ['<', '=']⟩, ⟨.token .slash, ['/']⟩,
        ⟨.token .string, ['"', '/', '/', '\\', '"', '\n', '"']⟩, ⟨.comment, ['/', '/', 'y']⟩]) :=
    scan_of_cut "f" <| Lexeme.cut_of_next? rfl <| Lexeme.cut_of_next? rfl <|
      Lexeme.cut_of_next? rfl <| Lexeme.cut_of_next? rfl <| Lexeme.cut_of_next? rfl Lexeme.cut_nil
  obtain ⟨again, hagain, hwords⟩ := scan_printed hscan "g"
  exact ⟨_, again, hscan, rfl, hagain, hwords⟩

end Token

end Coroscript
