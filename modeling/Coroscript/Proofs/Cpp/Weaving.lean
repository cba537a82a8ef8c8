import Coroscript.Cpp.Template
import Coroscript.Proofs.Cpp.Margins
import Coroscript.Proofs.Cpp.Reading

namespace Coroscript.Cpp

/-! Texts that are put together from pieces. -/

/-! Indentation changes nothing for a reader that passes over spaces at the start of a line. -/

structure Reader.Level {σ : Type} (reader : Reader σ) (AtLine : σ → Prop) : Prop where
  newline : ∀ {state after}, reader.step state '\n' = some after → AtLine after
  spaces : ∀ {state}, AtLine state → ∀ c, reader.run (indentation ++ [c]) (state, none) =
    reader.run [c] (state, none)

theorem Reader.Level.run_shift {σ : Type} {reader : Reader σ} {AtLine : σ → Prop}
    (hlevel : reader.Level AtLine) {start : Bool} {text : List Char}
    {state after : σ × Option Bool}
    (hstart : start = true → state.2 = none ∧ AtLine state.1)
    (hrun : reader.run text state = some after) :
    reader.run (shift indentation start text) state = some after := by
  induction text generalizing start state with
  | nil => exact hrun
  | cons c text ih =>
      rw [run_cons] at hrun
      obtain ⟨middle, hnext, hrest⟩ := Option.bind_eq_some_iff.1 hrun
      have hshifted : reader.run (shift indentation (c == '\n') text) middle = some after := by
        apply ih _ hrest
        intro hc
        obtain rfl := beq_iff_eq.1 hc
        obtain ⟨-, hstep, hmiddle⟩ := next_newline hnext
        exact ⟨hmiddle, hlevel.newline hstep⟩
      have hline : reader.run (c :: shift indentation (c == '\n') text) state = some after := by
        rw [run_cons, hnext, Option.bind_some, hshifted]
      rw [shift_cons]
      split
      · rename_i hindented
        obtain ⟨houtside, hatLine⟩ := hstart hindented.1
        obtain ⟨state, literal?⟩ := state
        cases houtside
        have hspaces := hlevel.spaces hatLine c
        have hcut : indentation ++ c :: shift indentation (c == '\n') text =
            (indentation ++ [c]) ++ shift indentation (c == '\n') text := by simp
        rw [hcut, run_append, hspaces, ← run_append]
        exact hline
      · exact hline

theorem brackets_level : brackets.Level fun state => state.last = '\n' where
  newline := by
    intro state after hstep
    simp only [brackets] at hstep
    split at hstep
    · contradiction
    · obtain ⟨awaited, -, rfl⟩ := Option.map_eq_some_iff.1 hstep
      rfl
  spaces := by
    rintro ⟨awaited, last⟩ rfl c
    have hmisread : misread ' ' c = misread '\n' c := by
      simp only [misread, show Lexeme.isWordPart ' ' = false from by decide,
        show Lexeme.isWordPart '\n' = false from by decide, Char.reduceBEq, Bool.false_and]
    have hspaces : brackets.run indentation (⟨awaited, '\n'⟩, none) =
        some (⟨awaited, ' '⟩, none) := rfl
    have hstep : brackets.step ⟨awaited, ' '⟩ c = brackets.step ⟨awaited, '\n'⟩ c := by
      simp only [brackets, hmisread]
    rw [Reader.run_append, hspaces, Option.bind_some, Reader.run_cons, Reader.run_cons, Reader.next,
      Reader.next, hstep]

/-! How the text `int main` is missed: no `t` and a space come before an `m`. -/

inductive Watch where
  | idle
  /-- Behind a `t`. -/
  | letter
  /-- Behind a `t` and a space. -/
  | gap
deriving DecidableEq

def watch : Reader Watch where
  step state c :=
    if state = .gap ∧ c = 'm' then none
    else some (if c = 't' then .letter else if state = .letter ∧ c = ' ' then .gap else .idle)

theorem watch_level : watch.Level fun state => state = .idle where
  newline := by
    intro state after hstep
    cases state <;> cases hstep <;> rfl
  spaces := by
    rintro state rfl c
    rfl

/-! The edges of a piece. -/

/-- Where two pieces meet: at the start of a line, where a word or a literal may begin, behind a
closing parenthesis, or where a word or a literal may have ended. -/
inductive Edge where
  | line
  | ready
  | shut
  | done
deriving DecidableEq

namespace Edge

/-- The characters that may be before the edge. -/
def admits : Edge → Char → Bool
  | line, last => last == '\n'
  | ready, last => !Lexeme.isWordPart last && last != '/' && last != '"'
  | shut, last => last == ')'
  | done, last => last != '/'

/-- The characters that may be behind the edge, whichever is before it. -/
def meets : Edge → Char → Bool
  | done, c => c != '\'' && c != '"' && !Lexeme.isWordPart c
  | _, c => c != '\''

def sample : Edge → Char
  | line => '\n'
  | ready => ' '
  | shut | done => ')'

def watches : Edge → Watch → Bool
  | done, state => state != .gap
  | _, state => state == .idle

/-- Whether the edge may be, or not be, at the start of a line. -/
def starts : Edge → Bool → Bool
  | line, start => start
  | ready, _ => true
  | shut, start | done, start => !start

theorem misread_eq_false {edge : Edge} {last c : Char} (hlast : edge.admits last = true)
    (hc : edge.meets c = true) : misread last c = false := by
  cases edge <;>
    simp only [admits, meets, Bool.and_eq_true, bne_iff_ne, beq_iff_eq,
      Bool.not_eq_true'] at hlast hc
  case line => subst hlast; simp [misread, hc, show Lexeme.isWordPart '\n' = false from by decide]
  case ready => simp [misread, hlast, hc]
  case shut => subst hlast; simp [misread, hc, show Lexeme.isWordPart ')' = false from by decide]
  case done => simp [misread, hlast, hc]

theorem admits_sample (edge : Edge) : edge.admits edge.sample = true := by
  cases edge <;> decide

end Edge

/-- A text between two edges, and what it is without indentation. Brackets that were awaited
before it are awaited behind it, less those that it closes and with those that it opens. Unless
it may be `headed`, the head of the entry point is not in it. -/
structure Woven (headed : Bool) (before : Edge) (awaited : List Char) (after : Edge)
    (awaited' : List Char) (text flat : String) : Prop where
  nests : ∀ last, before.admits last = true → ∃ last', after.admits last' = true ∧
    brackets.run text.toList (⟨awaited, last⟩, none) = some (⟨awaited', last'⟩, none)
  misses : headed = false → ∀ state, before.watches state = true →
    ∃ state', after.watches state' = true ∧
      watch.run text.toList (state, none) = some (state', none)
  flush : ∀ start, before.starts start = true →
    unindent start text.toList = flat.toList ∧
      after.starts (lineAfter start text.toList) = true
  unreturned : '\r' ∉ text.toList

namespace Woven

variable {headed : Bool} {before middle after : Edge} {awaited awaited' awaited'' : List Char}
  {left right text leftFlat rightFlat flat : String}

theorem append (hleft : Woven headed before awaited middle awaited' left leftFlat)
    (hright : Woven headed middle awaited' after awaited'' right rightFlat) :
    Woven headed before awaited after awaited'' (left ++ right) (leftFlat ++ rightFlat) where
  nests := by
    intro last hlast
    obtain ⟨between, hbetween, hfirst⟩ := hleft.nests last hlast
    obtain ⟨last', hlast', hsecond⟩ := hright.nests between hbetween
    refine ⟨last', hlast', ?_⟩
    rw [String.toList_append, Reader.run_append, hfirst, Option.bind_some, hsecond]
  misses := by
    intro hheaded state hstate
    obtain ⟨between, hbetween, hfirst⟩ := hleft.misses hheaded state hstate
    obtain ⟨state', hstate', hsecond⟩ := hright.misses hheaded between hbetween
    refine ⟨state', hstate', ?_⟩
    rw [String.toList_append, Reader.run_append, hfirst, Option.bind_some, hsecond]
  flush := by
    intro start hstart
    obtain ⟨hfirst, hbetween⟩ := hleft.flush start hstart
    obtain ⟨hsecond, hend⟩ := hright.flush _ hbetween
    rw [String.toList_append, String.toList_append, unindent_append, lineAfter_append, hfirst,
      hsecond]
    exact ⟨rfl, hend⟩
  unreturned := by
    rw [String.toList_append]
    exact List.not_mem_append hleft.unreturned hright.unreturned

theorem atLine (htext : Woven headed .ready awaited after awaited' text flat) :
    Woven headed .line awaited after awaited' text flat where
  nests := by
    intro last hlast
    rw [beq_iff_eq.1 hlast]
    exact htext.nests '\n' (by decide)
  misses := htext.misses
  flush := fun start _ => htext.flush start rfl
  unreturned := htext.unreturned

theorem ended (htext : Woven headed before awaited .shut awaited' text flat) :
    Woven headed before awaited .done awaited' text flat where
  nests := by
    intro last hlast
    obtain ⟨last', hlast', hrun⟩ := htext.nests last hlast
    rw [beq_iff_eq.1 hlast'] at hrun
    exact ⟨')', by decide, hrun⟩
  misses := by
    intro hheaded state hstate
    obtain ⟨state', hstate', hrun⟩ := htext.misses hheaded state hstate
    rw [beq_iff_eq.1 hstate'] at hrun
    exact ⟨.idle, by decide, hrun⟩
  flush := htext.flush
  unreturned := htext.unreturned

/-- Every line of a text may be indented where the text begins one. -/
theorem indent (htext : Woven headed .ready awaited .done awaited' text flat) :
    Woven headed .line awaited .done awaited' (Cpp.indent text) (indentBy [] flat) := by
  obtain ⟨hflat, hafter⟩ := htext.flush true rfl
  have hend : lineAfter true text.toList = false := by simpa [Edge.starts] using hafter
  have hshift : (Cpp.indent text).toList = shift indentation true text.toList := by
    rw [← indentBy_indentation, indentBy, String.toList_ofList]
    exact indented_eq_shift _ htext.unreturned (getLast?_of_lineAfter hend)
  have hspaces : ∀ c ∈ indentation, c = ' ' := fun c hc =>
    List.eq_of_mem_replicate (show c ∈ List.replicate 4 ' ' from hc)
  constructor
  · intro last hlast
    obtain ⟨last', hlast', hrun⟩ := htext.nests '\n' (by decide)
    rw [beq_iff_eq.1 hlast, hshift]
    exact ⟨last', hlast', brackets_level.run_shift (fun _ => ⟨rfl, rfl⟩) hrun⟩
  · intro hheaded state hstate
    obtain ⟨state', hstate', hrun⟩ := htext.misses hheaded state hstate
    rw [hshift]
    exact ⟨state', hstate', watch_level.run_shift (fun _ => ⟨rfl, beq_iff_eq.1 hstate⟩) hrun⟩
  · rintro start rfl
    have hflatEnd : flat.toList.getLast? ≠ some '\n' := by
      intro hlast
      rw [← hflat] at hlast
      exact absurd (lineAfter_of_getLast? hlast) (by simp [hend])
    have hflatReturn : '\r' ∉ flat.toList := by
      rw [← hflat]
      exact fun hmem => htext.unreturned (mem_of_mem_unindent hmem)
    obtain ⟨hunindent, hlineAfter⟩ :=
      unindent_shift hspaces (fun _ => rfl : true = true → true = true) text.toList
    rw [hshift, hunindent, hlineAfter, indentBy, String.toList_ofList,
      indented_eq_shift _ hflatReturn hflatEnd, shift_nil]
    exact ⟨hflat, hafter⟩
  · rw [hshift]
    intro hmem
    rcases mem_of_mem_shift hmem with hmargin | htexts
    · exact absurd (hspaces _ hmargin) (by decide)
    · exact htext.unreturned htexts

end Woven

/-! Pieces that are the same in every text. -/

theorem nest_append {c : Char} {awaited awaited' : List Char}
    (hnest : nest c awaited = some awaited') (base : List Char) :
    nest c (awaited ++ base) = some (awaited' ++ base) := by
  unfold nest at hnest ⊢
  split at hnest
  · rename_i hc
    cases hnest
    rw [if_pos hc]
    rfl
  rename_i hparen
  split at hnest
  · rename_i hc
    cases hnest
    rw [if_neg hparen, if_pos hc]
    rfl
  rename_i hbrace
  rw [if_neg hparen, if_neg hbrace]
  split at hnest
  · rename_i hclosing
    rw [if_pos hclosing]
    split at hnest
    · rename_i hhead
      cases hnest
      cases awaited with
      | nil => contradiction
      | cons d awaited => exact if_pos hhead
    · contradiction
  · rename_i hclosing
    cases hnest
    exact if_neg hclosing

theorem brackets_step_append {state after : Nesting} {c : Char} (base : List Char)
    (hstep : brackets.step state c = some after) :
    brackets.step ⟨state.awaited ++ base, state.last⟩ c =
      some ⟨after.awaited ++ base, after.last⟩ := by
  simp only [brackets] at hstep ⊢
  split at hstep
  · contradiction
  · rename_i hmisread
    obtain ⟨awaited, hnest, rfl⟩ := Option.map_eq_some_iff.1 hstep
    rw [if_neg hmisread, nest_append hnest, Option.map_some]

def nestsBy (before : Edge) (awaited : List Char) (after : Edge) (awaited' : List Char)
    (text : List Char) : Bool :=
  text.head?.any before.meets &&
    (brackets.run text (⟨awaited, before.sample⟩, none)).any fun state =>
      state.2.isNone && state.1.awaited == awaited' && after.admits state.1.last

def missesBy (before after : Edge) (text : List Char) : Bool :=
  [Watch.idle, Watch.letter, Watch.gap].all fun state =>
    !before.watches state || (watch.run text (state, none)).any fun state' =>
      state'.2.isNone && after.watches state'.1

def flushBy (before after : Edge) (text : List Char) : Bool :=
  [true, false].all fun start =>
    !before.starts start || unindent start text == text && after.starts (lineAfter start text)

/-- A text that may stand between its edges in every text. -/
def isPhrase (headed : Bool) (before : Edge) (awaited : List Char) (after : Edge)
    (awaited' : List Char) (text : List Char) : Bool :=
  nestsBy before awaited after awaited' text && (headed || missesBy before after text) &&
    flushBy before after text && !text.contains '\r'

section Phrases

variable {headed : Bool} {before after : Edge} {awaited awaited' : List Char} {text : String}

theorem run_of_nestsBy (hnests : nestsBy before awaited after awaited' text.toList = true)
    (base : List Char) (last : Char) (hlast : before.admits last = true) :
    ∃ last', after.admits last' = true ∧
      brackets.run text.toList (⟨awaited ++ base, last⟩, none) =
        some (⟨awaited' ++ base, last'⟩, none) := by
  rw [nestsBy, Bool.and_eq_true, Option.any_eq_true, Option.any_eq_true] at hnests
  obtain ⟨⟨c, hhead, hc⟩, ⟨⟨awaited'', last'⟩, literal?⟩, hrun, hend⟩ := hnests
  simp only [Bool.and_eq_true, Option.isNone_iff_eq_none, beq_iff_eq] at hend
  obtain ⟨⟨rfl, rfl⟩, hlast'⟩ := hend
  refine ⟨last', hlast', ?_⟩
  have hbase : brackets.run text.toList (⟨awaited ++ base, before.sample⟩, none) =
      some (⟨awaited'' ++ base, last'⟩, none) :=
    Reader.run_map (brackets_step_append base) hrun
  -- The first character is read in the same way behind every character that is admitted.
  have hstep : brackets.step ⟨awaited ++ base, last⟩ c =
      brackets.step ⟨awaited ++ base, before.sample⟩ c := by
    simp only [brackets, Edge.misread_eq_false hlast hc,
      Edge.misread_eq_false before.admits_sample hc]
  obtain ⟨rest, hrest⟩ := List.head?_eq_some_iff.1 hhead
  rw [hrest, Reader.run_cons, Reader.next] at hbase ⊢
  rw [hstep, hbase]

theorem woven_phrase_over
    (hphrase : isPhrase headed before awaited after awaited' text.toList = true)
    (base : List Char) :
    Woven headed before (awaited ++ base) after (awaited' ++ base) text text := by
  simp only [isPhrase, Bool.and_eq_true, Bool.not_eq_true'] at hphrase
  obtain ⟨⟨⟨hnests, hmisses⟩, hflush⟩, hreturn⟩ := hphrase
  constructor
  · exact run_of_nestsBy hnests base
  · intro hheaded state hstate
    rw [hheaded, Bool.false_or] at hmisses
    have hall := List.all_eq_true.1 hmisses state (by cases state <;> simp)
    rw [hstate, Bool.not_true, Bool.false_or, Option.any_eq_true] at hall
    obtain ⟨⟨state', literal?⟩, hrun, hend⟩ := hall
    rw [Bool.and_eq_true, Option.isNone_iff_eq_none] at hend
    obtain ⟨rfl, hstate'⟩ := hend
    exact ⟨state', hstate', hrun⟩
  · intro start hstart
    have hall := List.all_eq_true.1 hflush start (by cases start <;> simp)
    rw [hstart, Bool.not_true, Bool.false_or, Bool.and_eq_true, beq_iff_eq] at hall
    exact hall
  · intro hmem
    rw [List.contains_iff_mem.2 hmem] at hreturn
    contradiction

theorem woven_phrase (hphrase : isPhrase headed before [] after [] text.toList = true) :
    Woven headed before awaited after awaited text text :=
  woven_phrase_over hphrase awaited

theorem woven_opening {bracket : Char}
    (hphrase : isPhrase headed before [] after [bracket] text.toList = true) :
    Woven headed before awaited after (bracket :: awaited) text text :=
  woven_phrase_over hphrase awaited

theorem woven_closing {bracket : Char}
    (hphrase : isPhrase headed before [bracket] after [] text.toList = true) :
    Woven headed before (bracket :: awaited) after awaited text text :=
  woven_phrase_over hphrase awaited

end Phrases

/-! Pieces that stem from the source. -/

def isPlain (c : Char) : Bool :=
  Lexeme.isWordPart c || c == '.' || c == ' '

theorem not_plain {c : Char} (hplain : isPlain c = true) {other : Char}
    (hother : isPlain other = false) : c ≠ other := by
  rintro rfl
  rw [hplain] at hother
  contradiction

theorem brackets_run_plain {text : List Char} (hplain : ∀ c ∈ text, isPlain c = true)
    {last : Char} (hlast : last ≠ '"') (awaited : List Char) :
    brackets.run text (⟨awaited, last⟩, none) = some (⟨awaited, text.getLastD last⟩, none) := by
  induction text generalizing last with
  | nil => rfl
  | cons c text ih =>
      rw [List.forall_mem_cons] at hplain
      have hne {other : Char} (hother : isPlain other = false) : c ≠ other :=
        not_plain hplain.1 hother
      have hmisread : misread last c = false := by
        simp [misread, hlast, hne (by decide : isPlain '\'' = false),
          hne (by decide : isPlain '/' = false), hne (by decide : isPlain '*' = false),
          hne (by decide : isPlain '"' = false)]
      have hnest : nest c awaited = some awaited := by
        simp [nest, hne (by decide : isPlain '(' = false), hne (by decide : isPlain ')' = false),
          hne (by decide : isPlain '\x7b' = false), hne (by decide : isPlain '\x7d' = false)]
      have hstep : brackets.step ⟨awaited, last⟩ c = some ⟨awaited, c⟩ := by
        simp [brackets, hmisread, hnest]
      rw [Reader.run_cons, Reader.next_outside (hne (by decide)) hstep, Option.bind_some,
        ih hplain.2 (hne (by decide)), List.getLastD_cons]

theorem watch_run_word {text : List Char} (htext : ∀ c ∈ text, c ≠ ' ' ∧ c ≠ '"') {state : Watch}
    (hstate : state ≠ .gap) :
    ∃ state', state' ≠ .gap ∧ watch.run text (state, none) = some (state', none) := by
  induction text generalizing state with
  | nil => exact ⟨state, hstate, rfl⟩
  | cons c text ih =>
      rw [List.forall_mem_cons] at htext
      have hstep : watch.step state c = some (if c = 't' then .letter else .idle) := by
        simp [watch, hstate, htext.1.1]
      obtain ⟨state', hstate', hrun⟩ :=
        @ih htext.2 (if c = 't' then .letter else .idle) (by split <;> decide)
      refine ⟨state', hstate', ?_⟩
      rw [Reader.run_cons, Reader.next_outside htext.1.2 hstep, Option.bind_some, hrun]

theorem watch_run_idle {text : List Char} (htext : ∀ c ∈ text, c ≠ 't' ∧ c ≠ '"') :
    watch.run text (.idle, none) = some (.idle, none) := by
  induction text with
  | nil => rfl
  | cons c text ih =>
      rw [List.forall_mem_cons] at htext
      have hstep : watch.step .idle c = some .idle := by simp [watch, htext.1.1]
      rw [Reader.run_cons, Reader.next_outside htext.1.2 hstep, Option.bind_some, ih htext.2]

section Plain

variable {text : String} {after : Edge} {awaited : List Char}

theorem woven_plain (hplain : ∀ c ∈ text.toList, isPlain c = true) (hne : text.toList ≠ [])
    (hspace : text.toList.head? ≠ some ' ')
    (hlast : ∀ c ∈ text.toList.getLast?, after.admits c = true)
    (hstarts : after.starts false = true)
    (hwatch : ∃ state, after.watches state = true ∧
      watch.run text.toList (.idle, none) = some (state, none)) :
    Woven false .ready awaited after awaited text text := by
  have hline : '\n' ∉ text.toList := fun hmem => absurd (hplain _ hmem) (by decide)
  constructor
  · intro last hadmits
    have hquote : last ≠ '"' := by
      rintro rfl
      contradiction
    refine ⟨text.toList.getLastD last, ?_, brackets_run_plain hplain hquote awaited⟩
    rw [List.getLastD_eq_getLast?, List.getLast?_eq_some_getLast hne, Option.getD_some]
    exact hlast _ (List.getLast?_eq_some_getLast hne)
  · intro _ state hstate
    rw [beq_iff_eq.1 hstate]
    exact hwatch
  · intro start _
    rw [unindent_line hline fun _ => hspace, lineAfter_line hline hne fun _ => hspace]
    exact ⟨rfl, hstarts⟩
  · exact fun hmem => absurd (hplain _ hmem) (by decide)

end Plain

/-- A name or a number. -/
def IsWord (text : List Char) : Prop :=
  text ≠ [] ∧ ∀ c ∈ text, (Lexeme.isWordPart c || c == '.') = true

theorem isWord_append {left right : List Char} (hleft : IsWord left) (hright : IsWord right) :
    IsWord (left ++ right) :=
  ⟨List.append_ne_nil_of_left_ne_nil hleft.1 right, List.forall_mem_append.2 ⟨hleft.2, hright.2⟩⟩

theorem isWord_toString (n : Nat) : IsWord (toString n).toList := by
  rw [Nat.toString_eq_repr, Nat.toList_repr]
  refine ⟨Nat.toDigits_ne_nil, fun c hc => ?_⟩
  have hdigit : c.isDigit = true := Nat.isDigit_of_mem_toDigits (by decide) (by decide) hc
  simp [Lexeme.isWordPart, hdigit]

section Words

variable {text : String} {awaited : List Char}

theorem woven_word (hword : IsWord text.toList) :
    Woven false .ready awaited .done awaited text text := by
  obtain ⟨hne, hparts⟩ := hword
  have hplain : ∀ c ∈ text.toList, isPlain c = true := by
    intro c hc
    rw [isPlain, hparts c hc, Bool.true_or]
  have hbounds : ∀ c ∈ text.toList, c ≠ ' ' ∧ c ≠ '"' := by
    intro c hc
    refine ⟨?_, not_plain (hplain c hc) (by decide)⟩
    rintro rfl
    exact absurd (hparts _ hc) (by decide)
  refine woven_plain hplain hne ?_ ?_ rfl ?_
  · intro hspace
    exact (hbounds _ (List.mem_of_head? hspace)).1 rfl
  · intro c hc
    exact bne_iff_ne.2 (not_plain (hplain c (List.mem_of_getLast? hc)) (by decide))
  · obtain ⟨state, hstate, hrun⟩ := watch_run_word hbounds (by decide : Watch.idle ≠ .gap)
    exact ⟨state, bne_iff_ne.2 hstate, hrun⟩

/-- The type of a parameter, and the space between it and the name. -/
theorem woven_typeName (index : Nat) :
    Woven false .ready awaited .ready awaited (typeName index ++ " ") (typeName index ++ " ") := by
  have hdigits := isWord_toString index
  have htext : (typeName index ++ " ").toList = 'T' :: (toString index).toList ++ [' '] := by
    simp [typeName]
  have hplain : ∀ c ∈ (typeName index ++ " ").toList, isPlain c = true := by
    intro c hc
    rw [htext, List.cons_append, List.mem_cons, List.mem_append, List.mem_singleton] at hc
    rcases hc with rfl | hc | rfl
    · decide
    · rw [isPlain, hdigits.2 c hc, Bool.true_or]
    · decide
  refine woven_plain hplain (by simp [htext]) (by simp [htext]) ?_ rfl ⟨.idle, rfl, ?_⟩
  · rw [htext, List.getLast?_concat]
    rintro c ⟨⟩
    decide
  · apply watch_run_idle
    intro c hc
    refine ⟨?_, not_plain (hplain c hc) (by decide)⟩
    rw [htext, List.cons_append, List.mem_cons, List.mem_append, List.mem_singleton] at hc
    rcases hc with rfl | hc | rfl
    · decide
    · rintro rfl
      rw [Nat.toString_eq_repr, Nat.toList_repr] at hc
      exact absurd (Nat.isDigit_of_mem_toDigits (by decide) (by decide) hc) (by decide)
    · decide

theorem woven_literal (bytes : List UInt8) :
    Woven false .ready awaited .done awaited (stringLiteral bytes) (stringLiteral bytes) := by
  have htext : (stringLiteral bytes).toList = '"' :: bytes.flatMap literalByte ++ ['"'] :=
    String.toList_ofList
  have hprintable : ∀ c ∈ (stringLiteral bytes).toList, isPrintable c = true := by
    intro c hc
    rw [htext, List.cons_append, List.mem_cons, List.mem_append, List.mem_singleton] at hc
    rcases hc with rfl | hc | rfl
    · decide
    · obtain ⟨byte, -, hbyte⟩ := List.mem_flatMap.1 hc
      exact isPrintable_of_mem_literalByte hbyte
    · decide
  have hline : '\n' ∉ (stringLiteral bytes).toList := fun hmem =>
    absurd (hprintable _ hmem) (by decide)
  constructor
  · intro last hlast
    have hopen : brackets.step ⟨awaited, last⟩ '"' = some ⟨awaited, '"'⟩ := by
      simp only [brackets, Edge.misread_eq_false hlast (by decide : Edge.meets .ready '"' = true)]
      rfl
    have hclose : brackets.step ⟨awaited, '"'⟩ '"' = some ⟨awaited, '"'⟩ := rfl
    exact ⟨'"', by decide, Reader.run_stringLiteral hopen hclose bytes⟩
  · intro _ state hstate
    have hidle : watch.step .idle '"' = some .idle := rfl
    rw [beq_iff_eq.1 hstate]
    exact ⟨.idle, by decide, Reader.run_stringLiteral hidle hidle bytes⟩
  · intro start _
    have hspace : (stringLiteral bytes).toList.head? ≠ some ' ' := by simp [htext]
    rw [unindent_line hline fun _ => hspace,
      lineAfter_line hline (by simp [htext]) fun _ => hspace]
    exact ⟨rfl, rfl⟩
  · exact fun hmem => absurd (hprintable _ hmem) (by decide)

end Words

end Coroscript.Cpp
