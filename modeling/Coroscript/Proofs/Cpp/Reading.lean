import Coroscript.Proofs.Cpp.Quotes
import Coroscript.Token.Lexeme

namespace Coroscript.Cpp

/-! Reading a text outside its string literals. -/

/-- What a character outside of all literals does. The quotes of a literal are outside of it. -/
structure Reader (σ : Type) where
  step : σ → Char → Option σ

namespace Reader

variable {σ : Type} (reader : Reader σ)

/-- Within a literal, the second part of a state tells whether the next character is escaped.
A literal that is open at the end of a line is never closed. -/
def next : σ × Option Bool → Char → Option (σ × Option Bool)
  | (state, none), c =>
      (reader.step state c).map fun after => (after, if c = '"' then some false else none)
  | (state, some escaped), c =>
      if c = '\n' then none
      else if c = '"' ∧ escaped = false then
        (reader.step state c).map fun after => (after, none)
      else some (state, some (c == '\\' && !escaped))

def run (text : List Char) (state : σ × Option Bool) : Option (σ × Option Bool) :=
  text.foldlM reader.next state

theorem run_nil (state : σ × Option Bool) : reader.run [] state = some state :=
  rfl

theorem run_cons (c : Char) (text : List Char) (state : σ × Option Bool) :
    reader.run (c :: text) state = (reader.next state c).bind (reader.run text) :=
  List.foldlM_cons

theorem run_append (left right : List Char) (state : σ × Option Bool) :
    reader.run (left ++ right) state = (reader.run left state).bind (reader.run right) :=
  List.foldlM_append

variable {reader}

theorem next_outside {state after : σ} {c : Char} (hc : c ≠ '"')
    (hstep : reader.step state c = some after) :
    reader.next (state, none) c = some (after, none) := by
  rw [next, hstep, Option.map_some, if_neg hc]

theorem next_within {c : Char} {escaped : Bool} (hline : c ≠ '\n')
    (hquote : c = '"' → escaped = true) (state : σ) :
    reader.next (state, some escaped) c = some (state, some (c == '\\' && !escaped)) := by
  rw [next, if_neg hline, if_neg]
  rintro ⟨rfl, hescaped⟩
  rw [hquote rfl] at hescaped
  contradiction

theorem next_newline {state : σ} {literal? : Option Bool} {after : σ × Option Bool}
    (hnext : reader.next (state, literal?) '\n' = some after) :
    literal? = none ∧ reader.step state '\n' = some after.1 ∧ after.2 = none := by
  cases literal? with
  | none =>
      obtain ⟨middle, hstep, rfl⟩ := Option.map_eq_some_iff.1 hnext
      exact ⟨rfl, hstep, rfl⟩
  | some escaped => contradiction

theorem run_literalByte (byte : UInt8) (state : σ) :
    reader.run (literalByte byte) (state, some false) = some (state, some false) := by
  have hprintable : ∀ c ∈ literalByte byte, c ≠ '\n' := by
    rintro c hc rfl
    exact absurd (isPrintable_of_mem_literalByte hc) (by decide)
  obtain ⟨c, hbyte, -⟩ | ⟨c, hbyte, -, hquote, hbackslash, -⟩ | hbyte := literalByte_cases byte
  · rw [hbyte] at hprintable ⊢
    have hescaped : ('\\' == '\\' && !false) = true := rfl
    rw [run_cons, next_within (by decide) (by decide), Option.bind_some, hescaped, run_cons,
      next_within (hprintable c (by simp)) (fun _ => rfl), Option.bind_some, run_nil]
    simp
  · rw [hbyte] at hprintable ⊢
    rw [run_cons, next_within (hprintable c (by simp)) (fun heq => absurd heq hquote),
      Option.bind_some, run_nil]
    simp [hbackslash]
  · obtain ⟨hdigits, -⟩ := octal_digits byte
    have hrest : ∀ digits : List Char, (∀ d ∈ digits, isOctal d = true) → ∀ escaped,
        digits ≠ [] ∨ escaped = false →
          reader.run digits (state, some escaped) = some (state, some false) := by
      intro digits hall
      induction digits with
      | nil =>
          rintro escaped (hne | rfl)
          · exact absurd rfl hne
          · rfl
      | cons d digits ih =>
          rw [List.forall_mem_cons] at hall
          obtain ⟨hd, hquote, hbackslash, -⟩ := isOctal_facts hall.1
          intro escaped _
          have hline : d ≠ '\n' := by
            rintro rfl
            exact absurd hd (by decide)
          rw [run_cons, next_within hline (fun heq => absurd heq hquote), Option.bind_some]
          exact ih hall.2 _ (.inr (by simp [hbackslash]))
    rw [hbyte, run_cons, next_within (by decide) (by decide), Option.bind_some]
    exact hrest _ hdigits _ (.inl (List.cons_ne_nil _ _))

/-- A literal is read by its two quotes. -/
theorem run_stringLiteral {state middle after : σ} (hopen : reader.step state '"' = some middle)
    (hclose : reader.step middle '"' = some after) (bytes : List UInt8) :
    reader.run (stringLiteral bytes).toList (state, none) = some (after, none) := by
  have hbytes : reader.run (bytes.flatMap literalByte) (middle, some false) =
      some (middle, some false) := by
    induction bytes with
    | nil => rfl
    | cons byte bytes ih =>
        rw [List.flatMap_cons, run_append, run_literalByte, Option.bind_some, ih]
  have hfirst : reader.next (state, none) '"' = some (middle, some false) := by
    rw [next, hopen]
    rfl
  have hlast : reader.next (middle, some false) '"' = some (after, none) := by
    rw [next, hclose]
    rfl
  rw [stringLiteral, String.toList_ofList, List.cons_append, run_cons, hfirst, Option.bind_some,
    run_append, hbytes, Option.bind_some, run_cons, hlast, Option.bind_some, run_nil]

/-- A change of states that all steps keep is kept by reading. -/
theorem run_map {change : σ → σ}
    (hstep : ∀ {state after c}, reader.step state c = some after →
      reader.step (change state) c = some (change after))
    {text : List Char} {state after : σ × Option Bool} (hrun : reader.run text state = some after) :
    reader.run text (change state.1, state.2) = some (change after.1, after.2) := by
  induction text generalizing state with
  | nil =>
      cases hrun
      rfl
  | cons c text ih =>
      rw [run_cons] at hrun
      obtain ⟨middle, hnext, hrest⟩ := Option.bind_eq_some_iff.1 hrun
      have hchanged : reader.next (change state.1, state.2) c =
          some (change middle.1, middle.2) := by
        obtain ⟨state, literal?⟩ := state
        cases literal? with
        | none =>
            obtain ⟨outside, houtside, rfl⟩ := Option.map_eq_some_iff.1 hnext
            rw [next, hstep houtside, Option.map_some]
        | some escaped =>
            rw [next] at hnext ⊢
            split at hnext
            · contradiction
            split at hnext
            · obtain ⟨outside, houtside, rfl⟩ := Option.map_eq_some_iff.1 hnext
              rename_i hline hclose
              rw [if_neg hline, if_pos hclose, hstep houtside, Option.map_some]
            · cases hnext
              rename_i hline hclose
              rw [if_neg hline, if_neg hclose]
      rw [run_cons, hchanged, Option.bind_some]
      exact ih hrest

/-- What a reader gets through is read as literals in the same way. -/
theorem quoting_of_run {text : List Char} {state after : σ × Option Bool} {quoting : Quoting}
    (hstate : quoting.open?.map Prod.snd = state.2) (hrun : reader.run text state = some after) :
    ∃ read, Quoting.run text quoting = some read ∧ read.open?.map Prod.snd = after.2 := by
  induction text generalizing state quoting with
  | nil =>
      cases hrun
      exact ⟨quoting, rfl, hstate⟩
  | cons c text ih =>
      rw [run_cons] at hrun
      obtain ⟨middle, hnext, hrest⟩ := Option.bind_eq_some_iff.1 hrun
      have hstep : ∃ read, quoting.step c = some read ∧ read.open?.map Prod.snd = middle.2 := by
        obtain ⟨state, literal?⟩ := state
        obtain ⟨found, open?⟩ := quoting
        cases open? with
        | none =>
            cases hstate
            obtain ⟨outside, -, rfl⟩ := Option.map_eq_some_iff.1 hnext
            refine ⟨_, rfl, ?_⟩
            by_cases hc : c = '"' <;> simp [hc]
        | some part =>
            obtain ⟨inner, escaped⟩ := part
            cases hstate
            rw [next] at hnext
            rw [Quoting.step]
            split at hnext
            · contradiction
            split at hnext
            · obtain ⟨outside, -, rfl⟩ := Option.map_eq_some_iff.1 hnext
              rename_i hline hclose
              refine ⟨⟨found ++ [inner], none⟩, ?_, rfl⟩
              simp only [if_neg hline]
              exact if_pos hclose
            · cases hnext
              rename_i hline hclose
              refine ⟨⟨found, some (inner ++ [c], c == '\\' && !escaped)⟩, ?_, rfl⟩
              simp only [if_neg hline, if_neg hclose]
      obtain ⟨read, hread, hmiddle⟩ := hstep
      obtain ⟨last, hlast, hafter⟩ := ih hmiddle hrest
      exact ⟨last, by rw [Quoting.run_cons, hread, Option.bind_some, hlast], hafter⟩

end Reader

/-- All literals that `before` begins are closed in it. -/
def Outside (before : List Char) : Prop :=
  (literals? before).isSome = true

theorem Reader.outside_iff {σ : Type} {reader : Reader σ} {before : List Char} {state after : σ}
    {literal? : Option Bool} (hrun : reader.run before (state, none) = some (after, literal?)) :
    Outside before ↔ literal? = none := by
  obtain ⟨read, hread, hliteral⟩ := @quoting_of_run _ _ _ _ _ ⟨[], none⟩ rfl hrun
  have hopen : read.open?.map Prod.snd = literal? := hliteral
  rw [Outside, literals?, hread, Option.bind_some, ← hopen]
  cases read.open? <;> simp

/-! Brackets. -/

/-- Whether `c` behind `last` begins or goes on with something that is read by other rules: a
character literal, a comment, or a string literal with a prefix or a suffix. -/
def misread (last c : Char) : Bool :=
  c == '\'' || last == '/' && (c == '/' || c == '*') || c == '"' && Lexeme.isWordPart last ||
    last == '"' && Lexeme.isWordPart c

/-- The brackets that are awaited, the innermost first, and the character before. -/
structure Nesting where
  awaited : List Char
  last : Char
deriving DecidableEq

def nest (c : Char) (awaited : List Char) : Option (List Char) :=
  if c = '(' then some (')' :: awaited)
  else if c = '\x7b' then some ('\x7d' :: awaited)
  else if c = ')' ∨ c = '\x7d' then
    if awaited.head? = some c then some awaited.tail else none
  else some awaited

/-- Every closing bracket is the one that is awaited. -/
def brackets : Reader Nesting where
  step state c :=
    if misread state.last c then none
    else (nest c state.awaited).map fun awaited => ⟨awaited, c⟩

end Coroscript.Cpp
