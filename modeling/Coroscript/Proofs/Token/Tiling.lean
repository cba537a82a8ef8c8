import Coroscript.Proofs.Token.Language

namespace Coroscript

/-! The tokens of a source text tile it: each is the longest lexeme at its place, and what
lies between them is blank or comment. -/

/-- The place right after `before`. -/
def Position.At (file : String) (before : List Char) (position : Position) : Prop :=
  position.file = file ∧ position.offset.toNat = byteLength before

theorem Position.at_ofOffset {file : String} {before after : List Char}
    (hsize : byteLength (before ++ after) < UInt32.size) :
    (ofOffset (byteLength before) file).At file before := by
  rw [byteLength_append] at hsize
  exact ⟨rfl, toNat_offset_ofOffset (Nat.lt_of_le_of_lt (Nat.le_add_right _ _) hsize)⟩

/-- Blank runs and comments, each comment up to the end of its line, with `after` behind
them. -/
inductive Lexeme.Skipped (after : List Char) : List Char → Prop
  | nil : Skipped after []
  | blank {run gap : List Char} (hrun : run ∈ blankRuns) (hgap : Skipped after gap) :
      Skipped after (run ++ gap)
  | comment {text gap : List Char} (htext : text ∈ comments)
      (hline : ∀ c ∈ (gap ++ after).head?, c = '\n') (hgap : Skipped after gap) :
      Skipped after (text ++ gap)

namespace Token

/-- Of a string literal the value leaves out the quotes. -/
def Shows (token : Token) (text : List Char) : Prop :=
  if token.kind = .string then text = '"' :: token.value.toList ++ ['"']
  else text = token.value.toList

/-- The token is made of `text`, which stands between `before` and `after`. -/
structure Covers (file : String) (before text after : List Char) (token : Token) : Prop where
  start : token.span.start.At file before
  stop : token.span.stop.At file (before ++ text)
  nonempty : token.span.start.offset < token.span.stop.offset
  notEnd : token.kind ≠ .eof
  value : token.Shows text
  longest : Lexeme.Longest ⟨.token token.kind, text⟩ (text ++ after)

/-- The tokens of `text`, which stands between `before` and `after`. -/
structure Tile (file : String) (before text after : List Char) (tokens : List Token) : Prop where
  covers : ∀ token ∈ tokens, ∃ left middle right, text = left ++ middle ++ right ∧
    token.Covers file (before ++ left) middle (right ++ after)
  disjoint : tokens.Pairwise fun first second =>
    first.span.stop.offset ≤ second.span.start.offset
  gaps : ∀ earlier later, tokens = earlier ++ later →
    ∃ left gap right, text = left ++ gap ++ right ∧ Lexeme.Skipped (right ++ after) gap ∧
      (earlier = [] → left = []) ∧
      (∀ token ∈ earlier.getLast?, token.span.stop.At file (before ++ left)) ∧
      (∀ token ∈ later.head?, token.span.start.At file (before ++ left ++ gap)) ∧
      (later = [] → right = [])

variable {file : String} {before text after : List Char} {tokens : List Token}

theorem Tile.nil : Tile file before [] after [] where
  covers := by
    intro token htoken
    contradiction
  disjoint := .nil
  gaps := by
    intro earlier later hsplit
    obtain ⟨rfl, rfl⟩ := List.append_eq_nil_iff.1 hsplit.symm
    refine ⟨[], [], [], rfl, .nil, ?_⟩
    simp

theorem Tile.skip {skipped : List Char}
    (hskipped : ∀ gap rest, text = gap ++ rest → Lexeme.Skipped (rest ++ after) gap →
      Lexeme.Skipped (rest ++ after) (skipped ++ gap))
    (htokens : Tile file (before ++ skipped) text after tokens) :
    Tile file before (skipped ++ text) after tokens where
  covers := by
    intro token htoken
    obtain ⟨left, middle, right, rfl, hcovers⟩ := htokens.covers token htoken
    refine ⟨skipped ++ left, middle, right, by simp only [List.append_assoc], ?_⟩
    rwa [← List.append_assoc]
  disjoint := htokens.disjoint
  gaps := by
    intro earlier later hsplit
    obtain ⟨left, gap, right, htext, hgap, hfirst, hstop, hstart, hlast⟩ :=
      htokens.gaps earlier later hsplit
    cases earlier with
    | nil =>
        obtain rfl := hfirst rfl
        refine ⟨[], skipped ++ gap, right, ?_, hskipped gap right htext hgap, ?_, ?_, ?_, hlast⟩
        · rw [htext]
          simp only [List.nil_append, List.append_assoc]
        · exact fun _ => rfl
        · exact fun token htoken => by contradiction
        · simpa only [List.append_nil, List.append_assoc] using hstart
    | cons first others =>
        refine ⟨skipped ++ left, gap, right, ?_, hgap, ?_, ?_, ?_, hlast⟩
        · rw [htext]
          simp only [List.append_assoc]
        · exact fun hnil => by contradiction
        · simpa only [List.append_assoc] using hstop
        · simpa only [List.append_assoc] using hstart

theorem Tile.cons {token : Token} {start : List Char}
    (hcovers : token.Covers file before start (text ++ after))
    (htokens : Tile file (before ++ start) text after tokens) :
    Tile file before (start ++ text) after (token :: tokens) where
  covers := by
    intro other hother
    cases hother with
    | head => exact ⟨[], start, text, rfl, by rwa [List.append_nil]⟩
    | tail _ hother =>
        obtain ⟨left, middle, right, rfl, hcovers⟩ := htokens.covers other hother
        refine ⟨start ++ left, middle, right, by simp only [List.append_assoc], ?_⟩
        rwa [← List.append_assoc]
  disjoint := by
    refine List.pairwise_cons.2 ⟨?_, htokens.disjoint⟩
    intro other hother
    obtain ⟨left, _, _, _, hother⟩ := htokens.covers other hother
    rw [UInt32.le_iff_toNat_le, hcovers.stop.2, hother.start.2, byteLength_append _ left]
    exact Nat.le_add_right _ _
  gaps := by
    intro earlier later hsplit
    cases earlier with
    | nil =>
        obtain rfl : token :: tokens = later := hsplit
        refine ⟨[], [], start ++ text, rfl, .nil, fun _ => rfl, ?_, ?_, ?_⟩
        · exact fun token htoken => by contradiction
        · intro first hfirst
          cases hfirst
          simpa only [List.append_nil] using hcovers.start
        · exact fun hnil => by contradiction
    | cons first others =>
        obtain ⟨rfl, hrest⟩ := List.cons.inj hsplit
        obtain ⟨left, gap, right, htext, hgap, hfirst, hstop, hstart, hlast⟩ :=
          htokens.gaps others later hrest
        refine ⟨start ++ left, gap, right, ?_, hgap, ?_, ?_, ?_, hlast⟩
        · rw [htext]
          simp only [List.append_assoc]
        · exact fun hnil => by contradiction
        · cases others with
          | nil =>
              obtain rfl := hfirst rfl
              intro other hother
              obtain rfl : token = other := Option.some.inj hother
              simpa only [List.append_nil] using hcovers.stop
          | cons second others =>
              rw [List.getLast?_cons_cons]
              simpa only [List.append_assoc] using hstop
        · simpa only [List.append_assoc] using hstart

end Token

theorem byteLength_pos {text : List Char} (htext : text ≠ []) : 0 < byteLength text := by
  cases text with
  | nil => contradiction
  | cons c text => exact Nat.lt_add_right _ c.utf8Size_pos

theorem byteLength_ofList (text : List Char) :
    byteLength text = (String.ofList text).utf8ByteSize := by
  induction text with
  | nil => rfl
  | cons c text ih =>
      rw [byteLength, ih, String.ofList_cons, String.utf8ByteSize_append,
        String.utf8ByteSize_singleton]

theorem dropBytes_append (text rest : List Char) :
    dropBytes (byteLength text) (text ++ rest) = rest := by
  induction text with
  | nil =>
      cases rest with
      | nil => rfl
      | cons c rest =>
          rw [byteLength, List.nil_append, dropBytes, if_neg (Nat.not_le.2 c.utf8Size_pos)]
  | cons c text ih =>
      rw [byteLength, List.cons_append, dropBytes, if_pos (Nat.le_add_right _ _),
        Nat.add_sub_cancel_left, ih]

theorem TokenKind.ofWord_ne {kind : TokenKind}
    (hkind : kind ∉ identifier :: reserved.map Prod.snd) (word : String) :
    ofWord word ≠ kind := by
  rintro rfl
  exact hkind (ofWord_mem word)

namespace Lexeme

theorem Belongs.kind_ne_eof {lexeme : Lexeme} (hlexeme : lexeme.Belongs) :
    lexeme.lexClass ≠ .token .eof := by
  intro hclass
  cases hlexeme with
  | word => exact TokenKind.ofWord_ne (by decide) _ (LexemeClass.token.inj hclass)
  | mark hmark =>
      cases hclass
      contradiction
  | number | string | blank | comment => cases hclass

theorem Belongs.mem_strings {lexeme : Lexeme} (hlexeme : lexeme.Belongs)
    (hclass : lexeme.lexClass = .token .string) : lexeme.text ∈ strings := by
  cases hlexeme with
  | word => exact absurd (LexemeClass.token.inj hclass) (TokenKind.ofWord_ne (by decide) _)
  | string htext => exact htext
  | mark hmark =>
      cases hclass
      contradiction
  | number | blank | comment => cases hclass

theorem Belongs.mem_blankRuns {lexeme : Lexeme} (hlexeme : lexeme.Belongs)
    (hclass : lexeme.lexClass = .blank) : lexeme.text ∈ blankRuns := by
  cases hlexeme with
  | blank htext => exact htext
  | word | number | string | mark | comment => cases hclass

theorem Belongs.mem_comments {lexeme : Lexeme} (hlexeme : lexeme.Belongs)
    (hclass : lexeme.lexClass = .comment) : lexeme.text ∈ comments := by
  cases hlexeme with
  | comment htext => exact htext
  | word | number | string | mark | blank => cases hclass

theorem Longest.ends_line {lexeme : Lexeme} {after : List Char}
    (hlongest : lexeme.Longest (lexeme.text ++ after)) (hclass : lexeme.lexClass = .comment) :
    ∀ c ∈ after.head?, c = '\n' := by
  intro c hc
  -- With another character of its line, the comment would be longer.
  by_contra hline
  obtain ⟨hbelongs, _, hlonger⟩ := hlongest
  obtain ⟨tail, htext, htail⟩ := mem_comments_iff.1 (hbelongs.mem_comments hclass)
  have hcomment : '/' :: '/' :: (tail ++ [c]) ∈ comments := by
    refine mem_comments_iff.2 ⟨tail ++ [c], rfl, ?_⟩
    simpa [or_imp, forall_and] using ⟨htail, hline⟩
  cases after with
  | nil => contradiction
  | cons next others =>
      cases hc
      have hle := hlonger _ (.comment hcomment) ⟨others, by simp [htext]⟩
      simp only [htext, List.length_append, List.length_cons, List.length_nil] at hle
      omega

theorem skipped_of_next? {text gap after : List Char} {lexeme : Lexeme}
    (hnext : next? text = some (lexeme, gap ++ after))
    (hclass : lexeme.lexClass = .blank ∨ lexeme.lexClass = .comment)
    (hgap : Skipped after gap) : Skipped after (lexeme.text ++ gap) := by
  have hlongest := longest_of_next? hnext
  rcases hclass with hclass | hclass
  · exact .blank (hlongest.1.mem_blankRuns hclass) hgap
  · rw [← (next?_append hnext).1] at hlongest
    exact .comment (hlongest.1.mem_comments hclass) (hlongest.ends_line hclass) hgap

theorem flatMap_text_cut (text : List Char) :
    (cut text).1.flatMap Lexeme.text ++ (cut text).2 = text := by
  fun_induction cut text with
  | case1 text hnext => rfl
  | case2 text lexeme rest hnext lexemes stuck hrest ih =>
      rw [hrest] at ih
      rw [List.flatMap_cons, List.append_assoc, ih]
      exact (next?_append hnext).1

theorem cut_of_next? {text rest stuck : List Char} {lexeme : Lexeme} {lexemes : List Lexeme}
    (hnext : next? text = some (lexeme, rest)) (hrest : cut rest = (lexemes, stuck)) :
    cut text = (lexeme :: lexemes, stuck) := by
  rw [cut]
  split
  · rename_i hnone
    rw [hnext] at hnone
    contradiction
  · rename_i hfound
    rw [hnext] at hfound
    cases hfound
    rw [hrest]

theorem cut_nil : cut [] = ([], []) := by
  rw [cut]
  rfl

theorem next?_stuck (text : List Char) : next? (cut text).2 = none := by
  fun_induction cut text with
  | case1 text hnext => exact hnext
  | case2 text lexeme rest hnext lexemes stuck hrest ih =>
      rw [hrest] at ih
      exact ih

end Lexeme

namespace Token

theorem shows_value {lexeme : Lexeme} {kind : TokenKind} (hlexeme : lexeme.Belongs)
    (hclass : lexeme.lexClass = .token kind) (span : Span) :
    Shows ⟨kind, lexeme.value, span⟩ lexeme.text := by
  rw [Shows]
  split
  · rename_i hkind
    cases hkind
    obtain ⟨body, _, htext⟩ := Lexeme.mem_strings_iff.1 (hlexeme.mem_strings hclass)
    simp [Lexeme.value, hclass, htext]
  · rename_i hkind
    simp [Lexeme.value, hclass, hkind]

theorem covers_of_next? {file : String} {before text rest : List Char} {lexeme : Lexeme}
    {kind : TokenKind} (hsize : byteLength (before ++ text) < UInt32.size)
    (hnext : Lexeme.next? text = some (lexeme, rest)) (hclass : lexeme.lexClass = .token kind) :
    Covers file before lexeme.text rest ⟨kind, lexeme.value,
      .ofOffset (byteLength before) (byteLength lexeme.text) file⟩ := by
  obtain ⟨rfl, htext⟩ := Lexeme.next?_append hnext
  have hstart : (Position.ofOffset (byteLength before) file).At file before :=
    Position.at_ofOffset hsize
  have hstop : (Position.ofOffset (byteLength before + byteLength lexeme.text) file).At file
      (before ++ lexeme.text) := by
    rw [← List.append_assoc] at hsize
    rw [← byteLength_append]
    exact Position.at_ofOffset hsize
  have hlongest := Lexeme.longest_of_next? hnext
  refine ⟨hstart, hstop, ?_, ?_, shows_value hlongest.1 hclass _, ?_⟩
  · rw [UInt32.lt_iff_toNat_lt]
    simp only [Span.ofOffset]
    rw [hstart.2, hstop.2, byteLength_append]
    exact Nat.lt_add_of_pos_right (byteLength_pos htext)
  · rintro rfl
    exact hlongest.1.kind_ne_eof hclass
  · rw [← hclass]
    exact hlongest

theorem tile_ofLexemes (file : String) (before text : List Char)
    (hsize : byteLength (before ++ text) < UInt32.size) :
    ∃ words, ofLexemes file (byteLength before) (Lexeme.cut text).1 =
        words ++ [endMark (.ofOffset (byteLength
          (before ++ (Lexeme.cut text).1.flatMap Lexeme.text)) file)] ∧
      Tile file before ((Lexeme.cut text).1.flatMap Lexeme.text) (Lexeme.cut text).2 words := by
  fun_induction Lexeme.cut text generalizing before with
  | case1 text hnext =>
      refine ⟨[], ?_, .nil⟩
      simp [ofLexemes]
  | case2 text lexeme rest hnext lexemes stuck hrest ih =>
      obtain ⟨htext, _⟩ := Lexeme.next?_append hnext
      have hsizes : byteLength (before ++ lexeme.text ++ rest) < UInt32.size := by
        rwa [List.append_assoc, htext]
      obtain ⟨words, hwords, htile⟩ := ih _ hsizes
      rw [hrest] at hwords htile
      have hafter : lexemes.flatMap Lexeme.text ++ stuck = rest := by
        have hcovered := Lexeme.flatMap_text_cut rest
        rwa [hrest] at hcovered
      simp only [List.flatMap_cons]
      rw [ofLexemes, ← byteLength_append, ← List.append_assoc, hwords]
      have hskip : lexeme.lexClass = .blank ∨ lexeme.lexClass = .comment →
          Tile file before (lexeme.text ++ lexemes.flatMap Lexeme.text) stuck words := by
        intro hclass
        refine htile.skip fun gap right hgaps hgap => ?_
        rw [← hafter, hgaps, List.append_assoc] at hnext
        exact Lexeme.skipped_of_next? hnext hclass hgap
      cases hclass : lexeme.lexClass with
      | token kind =>
          refine ⟨_ :: words, rfl, .cons ?_ htile⟩
          rw [hafter]
          exact covers_of_next? hsize hnext hclass
      | blank => exact ⟨words, rfl, hskip (.inl hclass)⟩
      | comment => exact ⟨words, rfl, hskip (.inr hclass)⟩

end Token

namespace Reader

def next? (reader : Reader) : Option Reader :=
  (Lexeme.next? reader.rest).map fun (lexeme, _) => reader.advance (byteLength lexeme.text)

/-- The readers that a source is read through, from its start on. -/
inductive Reads (source file : String) : Reader → Prop
  | start : Reads source file (ofSource source (some file))
  | step {reader after : Reader} (hreader : Reads source file reader)
      (hnext : reader.next? = some after) : Reads source file after

theorem next_of_next? {reader : Reader} {lexeme : Lexeme} {rest : List Char}
    (hnext : Lexeme.next? reader.rest = some (lexeme, rest)) :
    reader.next? = some ⟨reader.file, reader.offset + byteLength lexeme.text, rest⟩ := by
  obtain ⟨hrest, _⟩ := Lexeme.next?_append hnext
  have hdrop : dropBytes (byteLength lexeme.text) reader.rest = rest := by
    rw [← hrest, dropBytes_append]
  rw [next?, hnext]
  simp only [Option.map_some, advance, hdrop]

theorem Reads.stands {source file : String} {reader : Reader}
    (hreader : Reads source file reader) :
    ∃ before, source.toList = before ++ reader.rest ∧
      reader.position = .ofOffset (byteLength before) file := by
  have hstands : ∃ before, source.toList = before ++ reader.rest ∧ reader.file = file ∧
      reader.offset = byteLength before := by
    induction hreader with
    | start => exact ⟨[], rfl, rfl, rfl⟩
    | step _ hnext ih =>
        obtain ⟨before, hsource, hfile, hoffset⟩ := ih
        obtain ⟨⟨lexeme, rest⟩, hlexeme, _⟩ := Option.map_eq_some_iff.1 hnext
        rw [next_of_next? hlexeme] at hnext
        cases hnext
        refine ⟨before ++ lexeme.text, ?_, hfile, ?_⟩
        · rw [List.append_assoc, (Lexeme.next?_append hlexeme).1, hsource]
        · rw [hoffset, byteLength_append]
  obtain ⟨before, hsource, rfl, hoffset⟩ := hstands
  exact ⟨before, hsource, by rw [position, hoffset]⟩

theorem Reads.stuck {source file : String} {reader : Reader} (hreader : Reads source file reader) :
    ∃ last, Reads source file last ∧ last.rest = (Lexeme.cut reader.rest).2 := by
  generalize htext : reader.rest = text
  fun_induction Lexeme.cut text generalizing reader with
  | case1 text hnext => exact ⟨reader, hreader, htext⟩
  | case2 text lexeme rest hnext lexemes stuck hrest ih =>
      rw [hrest] at ih
      rw [← htext] at hnext
      exact ih (hreader.step (next_of_next? hnext)) rfl

end Reader

namespace Token

variable {source file : String}

theorem scan_of_cut {lexemes : List Lexeme} (file : String)
    (hcut : Lexeme.cut source.toList = (lexemes, [])) :
    scan source file = .ok (ofLexemes file 0 lexemes) := by
  rw [scan, hcut]

theorem scan_cases (source file : String) :
    (∃ lexemes, Lexeme.cut source.toList = (lexemes, []) ∧
      scan source file = .ok (ofLexemes file 0 lexemes)) ∨
    ∃ lexemes c after, Lexeme.cut source.toList = (lexemes, c :: after) ∧
      scan source file = .error ⟨.unrecognisedToken (.singleton c),
        .ofOffset (byteLength (lexemes.flatMap Lexeme.text)) file⟩ := by
  rw [scan]
  split
  · rename_i lexemes hcut
    exact .inl ⟨lexemes, hcut, rfl⟩
  · rename_i lexemes c after hcut
    exact .inr ⟨lexemes, c, after, hcut, rfl⟩

theorem tile_of_scan_eq_ok {tokens : List Token} (hsize : byteLength source.toList < UInt32.size)
    (hscan : scan source file = .ok tokens) :
    ∃ words position, tokens = words ++ [endMark position] ∧
      position.At file source.toList ∧ Tile file [] source.toList [] words := by
  obtain ⟨words, hwords, htile⟩ := tile_ofLexemes file [] source.toList hsize
  have hsource := Lexeme.flatMap_text_cut source.toList
  rcases scan_cases source file with ⟨lexemes, hcut, hok⟩ | ⟨lexemes, c, after, hcut, herror⟩
  · cases hscan.symm.trans hok
    rw [hcut] at hwords htile hsource
    rw [List.append_nil] at hsource
    simp only [hsource, List.nil_append] at hwords htile
    rw [← List.append_nil source.toList] at hsize
    exact ⟨words, _, hwords, Position.at_ofOffset hsize, htile⟩
  · cases hscan.symm.trans herror

theorem tile_of_scan_eq_error {error : Error} (hsize : byteLength source.toList < UInt32.size)
    (hscan : scan source file = .error error) :
    ∃ before c after words, source.toList = before ++ c :: after ∧
      error.cause = .unrecognisedToken (.singleton c) ∧ error.position.At file before ∧
      Tile file [] before (c :: after) words ∧
      ∀ lexeme : Lexeme, lexeme.Belongs → ¬ lexeme.text <+: c :: after := by
  obtain ⟨words, _, htile⟩ := tile_ofLexemes file [] source.toList hsize
  have hsource := Lexeme.flatMap_text_cut source.toList
  have hstuck := Lexeme.next?_stuck source.toList
  rcases scan_cases source file with ⟨lexemes, hcut, hok⟩ | ⟨lexemes, c, after, hcut, herror⟩
  · cases hscan.symm.trans hok
  · cases hscan.symm.trans herror
    rw [hcut] at htile hsource hstuck
    rw [← hsource] at hsize
    refine ⟨_, c, after, words, hsource.symm, rfl, Position.at_ofOffset hsize, htile, ?_⟩
    exact fun lexeme hlexeme => Lexeme.not_belongs_of_next? hstuck hlexeme

theorem scan_ends_reading (source file : String) :
    ∃ last, Reader.Reads source file last ∧ (scan source file).isOk = last.atEnd ∧
      ∀ error, scan source file = .error error → error.position = last.position := by
  have hstart : Reader.Reads source file (.ofSource source (some file)) := .start
  obtain ⟨last, hlast, hrest⟩ := hstart.stuck
  refine ⟨last, hlast, ?_⟩
  obtain ⟨before, hsource, hposition⟩ := hlast.stands
  have hcovered := Lexeme.flatMap_text_cut source.toList
  rw [Reader.ofSource] at hrest
  rcases scan_cases source file with ⟨lexemes, hcut, hok⟩ | ⟨lexemes, c, after, hcut, herror⟩
  · rw [hok, Reader.atEnd, hrest, hcut]
    exact ⟨rfl, fun error herror => by contradiction⟩
  · rw [hcut] at hrest hcovered
    rw [herror, Reader.atEnd, hrest]
    refine ⟨rfl, fun error hscan => ?_⟩
    cases hscan
    rw [hsource, hrest] at hcovered
    rw [hposition, List.append_cancel_right hcovered]

/-- Scanning tiles a source whose places can be told in 32 bits. -/
theorem scan_tiles (hsize : source.utf8ByteSize < UInt32.size) :
    (∀ tokens, scan source file = .ok tokens → ∃ words position,
      tokens = words ++ [endMark position] ∧ position.At file source.toList ∧
        Tile file [] source.toList [] words) ∧
    (∀ error, scan source file = .error error → ∃ before c after words,
      source.toList = before ++ c :: after ∧
        error.cause = .unrecognisedToken (.singleton c) ∧ error.position.At file before ∧
        Tile file [] before (c :: after) words ∧
        ∀ lexeme : Lexeme, lexeme.Belongs → ¬ lexeme.text <+: c :: after) ∧
    (∀ reader, Reader.Reads source file reader → ∃ before,
      source.toList = before ++ reader.rest ∧ reader.position.At file before) ∧
    ∃ last, Reader.Reads source file last ∧ (scan source file).isOk = last.atEnd ∧
      ∀ error, scan source file = .error error → error.position = last.position := by
  have hbytes : byteLength source.toList < UInt32.size := by
    rwa [byteLength_ofList, String.ofList_toList]
  refine ⟨fun tokens => tile_of_scan_eq_ok hbytes, fun error => tile_of_scan_eq_error hbytes,
    ?_, ?_⟩
  · intro reader hreader
    obtain ⟨before, hsource, hposition⟩ := hreader.stands
    refine ⟨before, hsource, ?_⟩
    rw [hsource] at hbytes
    rw [hposition]
    exact Position.at_ofOffset hbytes
  · exact scan_ends_reading source file

/-- A source with a mark of two characters, an escaped quote, a wide character and a comment
up to the end. -/
theorem scan_tiles_escaped_quote :
    "a==\"é\\\"\" //b".utf8ByteSize < UInt32.size ∧
    ∃ words position, scan "a==\"é\\\"\" //b" "f" = .ok (words ++ [endMark position]) ∧
      position.At "f" "a==\"é\\\"\" //b".toList ∧
      Tile "f" [] "a==\"é\\\"\" //b".toList [] words := by
  have hsize : "a==\"é\\\"\" //b".utf8ByteSize < UInt32.size := by decide
  have hcut : ∃ lexemes, Lexeme.cut "a==\"é\\\"\" //b".toList = (lexemes, []) :=
    ⟨_, Lexeme.cut_of_next? rfl <| Lexeme.cut_of_next? rfl <| Lexeme.cut_of_next? rfl <|
      Lexeme.cut_of_next? rfl <| Lexeme.cut_of_next? rfl Lexeme.cut_nil⟩
  obtain ⟨lexemes, hcut⟩ := hcut
  have hscan : scan "a==\"é\\\"\" //b" "f" = .ok (ofLexemes "f" 0 lexemes) := by
    rw [scan, hcut]
  obtain ⟨words, position, htokens, hposition, htile⟩ := (scan_tiles hsize).1 _ hscan
  exact ⟨hsize, words, position, by rw [hscan, htokens], hposition, htile⟩

end Token

end Coroscript
