import Coroscript.Proofs.Token.Writing
import Mathlib.Computability.Language

namespace Coroscript

/-! The lexemes as regular languages, and that cutting always takes the longest. -/

open Computability

namespace Lexeme

/-- The texts of a single character of a class. -/
def one (isPart : Char → Bool) : Language Char :=
  fun text => ∃ c, isPart c = true ∧ text = [c]

def exactly (text : List Char) : Language Char :=
  fun other => other = text

def words : Language Char :=
  one isWordStart * (one isWordPart)∗

def digits : Language Char :=
  one Char.isDigit * (one Char.isDigit)∗

def numbers : Language Char :=
  digits * (1 + exactly ['.'] * digits)

def blankRuns : Language Char :=
  one isBlank * (one isBlank)∗

/-- A character of a string literal: a backslash with the character after it, which is no
end of line, or any character but a quote or a backslash. -/
def stringPart : Language Char :=
  exactly ['\\'] * one (· != '\n') + one fun c => c != '"' && c != '\\'

def strings : Language Char :=
  exactly ['"'] * stringPart∗ * exactly ['"']

def comments : Language Char :=
  exactly ['/', '/'] * (one (· != '\n'))∗

/-- A piece of text that belongs to the class it is said to be of. -/
inductive Belongs : Lexeme → Prop
  | word {text : List Char} (htext : text ∈ words) :
      Belongs ⟨.token (.ofWord (.ofList text)), text⟩
  | number {text : List Char} (htext : text ∈ numbers) : Belongs ⟨.token .number, text⟩
  | string {text : List Char} (htext : text ∈ strings) : Belongs ⟨.token .string, text⟩
  | mark {kind : TokenKind} {text : List Char} (hmark : kind.mark? = some (.ofList text)) :
      Belongs ⟨.token kind, text⟩
  | blank {text : List Char} (htext : text ∈ blankRuns) : Belongs ⟨.blank, text⟩
  | comment {text : List Char} (htext : text ∈ comments) : Belongs ⟨.comment, text⟩

/-- The longest lexeme that a text starts with. -/
def Longest (lexeme : Lexeme) (text : List Char) : Prop :=
  lexeme.Belongs ∧ lexeme.text <+: text ∧
    ∀ other : Lexeme, other.Belongs → other.text <+: text →
      other.text.length ≤ lexeme.text.length

/-! Membership, seen through the characters. -/

theorem mem_one_kstar_iff {isPart : Char → Bool} {text : List Char} :
    text ∈ (one isPart)∗ ↔ ∀ c ∈ text, isPart c = true := by
  rw [Language.mem_kstar]
  constructor
  · intro hpieces c hc
    obtain ⟨pieces, rfl, hpieces⟩ := hpieces
    obtain ⟨piece, hpiece, hc⟩ := List.mem_flatten.1 hc
    obtain ⟨d, hd, rfl⟩ := hpieces piece hpiece
    exact List.mem_singleton.1 hc ▸ hd
  · intro hall
    refine ⟨text.map fun c => [c], ?_, ?_⟩
    · induction text with
      | nil => rfl
      | cons c text ih =>
          rw [List.map_cons, List.flatten_cons, ← ih fun d hd => hall d (.tail c hd)]
          rfl
    · intro piece hpiece
      obtain ⟨c, hc, rfl⟩ := List.mem_map.1 hpiece
      exact ⟨c, hall c hc, rfl⟩

theorem mem_one_mul_iff {isFirst : Char → Bool} {language : Language Char} {text : List Char} :
    text ∈ one isFirst * language ↔
      ∃ first tail, text = first :: tail ∧ isFirst first = true ∧ tail ∈ language := by
  rw [Language.mem_mul]
  constructor
  · intro hparts
    obtain ⟨_, ⟨first, hfirst, rfl⟩, tail, htail, rfl⟩ := hparts
    exact ⟨first, tail, rfl, hfirst, htail⟩
  · intro hparts
    obtain ⟨first, tail, rfl, hfirst, htail⟩ := hparts
    exact ⟨[first], ⟨first, hfirst, rfl⟩, tail, htail, rfl⟩

theorem mem_exactly_mul_iff {start : List Char} {language : Language Char} {text : List Char} :
    text ∈ exactly start * language ↔ ∃ tail ∈ language, text = start ++ tail := by
  rw [Language.mem_mul]
  constructor
  · intro hparts
    obtain ⟨_, rfl, tail, htail, rfl⟩ := hparts
    exact ⟨tail, htail, rfl⟩
  · intro hparts
    obtain ⟨tail, htail, rfl⟩ := hparts
    exact ⟨start, rfl, tail, htail, rfl⟩

/-- A first character of one class and then characters of another. -/
theorem mem_run_iff {isFirst isPart : Char → Bool} {text : List Char} :
    text ∈ one isFirst * (one isPart)∗ ↔
      ∃ first tail, text = first :: tail ∧ isFirst first = true ∧
        ∀ c ∈ tail, isPart c = true := by
  simp only [mem_one_mul_iff, mem_one_kstar_iff]

theorem mem_comments_iff {text : List Char} :
    text ∈ comments ↔ ∃ tail, text = '/' :: '/' :: tail ∧ ∀ c ∈ tail, c ≠ '\n' := by
  rw [comments, mem_exactly_mul_iff]
  constructor
  · intro hparts
    obtain ⟨tail, htail, rfl⟩ := hparts
    exact ⟨tail, rfl, by simpa using mem_one_kstar_iff.1 htail⟩
  · intro hparts
    obtain ⟨tail, rfl, htail⟩ := hparts
    exact ⟨tail, mem_one_kstar_iff.2 (by simpa using htail), rfl⟩

theorem mem_numbers_iff {text : List Char} :
    text ∈ numbers ↔ ∃ first whole, first.isDigit = true ∧ (∀ c ∈ whole, c.isDigit = true) ∧
      (text = first :: whole ∨ ∃ part ∈ digits, text = first :: (whole ++ '.' :: part)) := by
  simp only [numbers, Language.mem_mul, Language.mem_add, Language.mem_one]
  constructor
  · intro hparts
    obtain ⟨_, hwhole, tail, htail, rfl⟩ := hparts
    obtain ⟨first, whole, rfl, hfirst, hwhole⟩ := mem_run_iff.1 hwhole
    refine ⟨first, whole, hfirst, hwhole, ?_⟩
    cases htail with
    | inl hnil => exact .inl (by rw [hnil, List.append_nil])
    | inr hpoint =>
        obtain ⟨_, rfl, part, hpart, rfl⟩ := hpoint
        exact .inr ⟨part, hpart, rfl⟩
  · intro hparts
    obtain ⟨first, whole, hfirst, hwhole, htext⟩ := hparts
    have hdigits : first :: whole ∈ digits := mem_run_iff.2 ⟨first, whole, rfl, hfirst, hwhole⟩
    refine ⟨first :: whole, hdigits, ?_⟩
    cases htext with
    | inl heq => exact ⟨[], .inl rfl, by rw [heq, List.append_nil]⟩
    | inr hpoint =>
        obtain ⟨part, hpart, rfl⟩ := hpoint
        exact ⟨'.' :: part, .inr ⟨['.'], rfl, part, hpart, rfl⟩, rfl⟩

theorem mem_strings_iff {text : List Char} :
    text ∈ strings ↔ ∃ body ∈ stringPart∗, text = '"' :: body ++ ['"'] := by
  rw [strings, Language.mem_mul]
  constructor
  · intro hparts
    obtain ⟨_, hopen, _, rfl, rfl⟩ := hparts
    obtain ⟨body, hbody, rfl⟩ := mem_exactly_mul_iff.1 hopen
    exact ⟨body, hbody, rfl⟩
  · intro hparts
    obtain ⟨body, hbody, rfl⟩ := hparts
    exact ⟨'"' :: body, mem_exactly_mul_iff.2 ⟨body, hbody, rfl⟩, ['"'], rfl, rfl⟩

theorem append_mem_stringParts {part body : List Char} (hpart : part ∈ stringPart)
    (hbody : body ∈ stringPart∗) : part ++ body ∈ stringPart∗ := by
  obtain ⟨parts, rfl, hparts⟩ := Language.mem_kstar.1 hbody
  refine Language.mem_kstar.2 ⟨part :: parts, rfl, ?_⟩
  intro other hother
  cases hother with
  | head => exact hpart
  | tail _ hother => exact hparts other hother

theorem escape_mem_stringPart {c : Char} (hc : c ≠ '\n') : ['\\', c] ∈ stringPart :=
  .inl (mem_exactly_mul_iff.2 ⟨[c], ⟨c, by simpa using hc, rfl⟩, rfl⟩)

theorem plain_mem_stringPart {c : Char} (hquote : c ≠ '"') (hescape : c ≠ '\\') :
    [c] ∈ stringPart :=
  .inr ⟨c, by simp [hquote, hescape], rfl⟩

/-! What is cut belongs to its class. -/

theorem fraction_mem (rest : List Char) :
    (fraction rest).1 = [] ∨ ∃ part ∈ digits, (fraction rest).1 = '.' :: part := by
  unfold fraction
  split
  · split
    · rename_i hdigit
      refine .inr ⟨_, mem_run_iff.2 ⟨_, _, rfl, hdigit, ?_⟩, rfl⟩
      exact List.all_eq_true.1 List.all_takeWhile
    · exact .inl rfl
  · exact .inl rfl

theorem text_number (first : Char) (rest : List Char) :
    (number first rest).1.text =
      first :: (rest.takeWhile Char.isDigit ++ (fraction (rest.dropWhile Char.isDigit)).1) :=
  rfl

theorem number_mem {first : Char} (hfirst : first.isDigit = true) (rest : List Char) :
    (number first rest).1.text ∈ numbers := by
  rw [text_number]
  refine mem_numbers_iff.2
    ⟨first, _, hfirst, List.all_eq_true.1 (List.all_takeWhile (l := rest)), ?_⟩
  cases fraction_mem (rest.dropWhile Char.isDigit) with
  | inl hnone => exact .inl (by rw [hnone, List.append_nil])
  | inr hpoint =>
      obtain ⟨part, hpart, heq⟩ := hpoint
      exact .inr ⟨part, hpart, by rw [heq]⟩

theorem closeQuote?_mem {rest body after : List Char}
    (hclose : closeQuote? rest = some (body, after)) : body ∈ stringPart∗ := by
  fun_induction closeQuote? rest generalizing body with
  | case1 => contradiction
  | case2 rest =>
      cases hclose
      exact Language.nil_mem_kstar _
  | case3 => contradiction
  | case4 => contradiction
  | case5 c rest hc ih =>
      obtain ⟨⟨inner, _⟩, hinner, heq⟩ := Option.map_eq_some_iff.1 hclose
      cases heq
      exact append_mem_stringParts (escape_mem_stringPart (by simpa using hc)) (ih hinner)
  | case6 c rest hquote hend hescape ih =>
      obtain ⟨⟨inner, _⟩, hinner, heq⟩ := Option.map_eq_some_iff.1 hclose
      cases heq
      refine append_mem_stringParts (plain_mem_stringPart hquote ?_) (ih hinner)
      -- A lone backslash and a backslash before a character are the two cases above.
      rintro rfl
      cases rest with
      | nil => exact hend rfl rfl
      | cons next others => exact hescape next others rfl rfl

theorem mark?_belongs {text rest : List Char} {lexeme : Lexeme}
    (hmark : mark? text = some (lexeme, rest)) : lexeme.Belongs := by
  unfold mark? symbol at hmark
  split at hmark
  all_goals first
    | contradiction
    | (cases hmark
       exact .mark rfl)

theorem next?_belongs {text rest : List Char} {lexeme : Lexeme}
    (hnext : next? text = some (lexeme, rest)) : lexeme.Belongs := by
  unfold next? at hnext
  split at hnext
  · contradiction
  · cases hnext
    refine .comment (mem_comments_iff.2 ⟨_, rfl, ?_⟩)
    intro c hc
    exact bne_iff_ne.1 (List.all_eq_true.1 List.all_takeWhile c hc)
  split at hnext
  · rename_i hfirst
    cases hnext
    exact .word (mem_run_iff.2 ⟨_, _, rfl, hfirst, List.all_eq_true.1 List.all_takeWhile⟩)
  split at hnext
  · rename_i hfirst
    cases hnext
    exact .number (number_mem hfirst _)
  split at hnext
  · rename_i hfirst
    cases hnext
    exact .blank (mem_run_iff.2 ⟨_, _, rfl, hfirst, List.all_eq_true.1 List.all_takeWhile⟩)
  split at hnext
  · obtain ⟨⟨body, _⟩, hclose, heq⟩ := Option.map_eq_some_iff.1 hnext
    cases heq
    exact .string (mem_strings_iff.2 ⟨body, closeQuote?_mem hclose, rfl⟩)
  · exact mark?_belongs hnext

/-! No lexeme at the same place is longer. The first character tells the class, except
that a slash may be a mark or open a comment. -/

theorem length_le_takeWhile {isPart : Char → Bool} {run rest : List Char}
    (hrun : ∀ c ∈ run, isPart c = true) (hstart : run <+: rest) :
    run.length ≤ (rest.takeWhile isPart).length := by
  obtain ⟨after, rfl⟩ := hstart
  rw [List.takeWhile_append_of_pos hrun, List.length_append]
  exact Nat.le_add_right _ _

theorem next?_cons {first : Char} (hfirst : first ≠ '/') (rest : List Char) :
    next? (first :: rest) =
      if isWordStart first then some (word first rest)
      else if first.isDigit then some (number first rest)
      else if isBlank first then some (blank first rest)
      else if first == '"' then quoted? rest
      else mark? (first :: rest) := by
  rw [next?]
  exact fun _ hslash => absurd hslash hfirst

theorem ne_slash {isFirst : Char → Bool} (hslash : isFirst '/' = false) {c : Char}
    (hc : isFirst c = true) : c ≠ '/' := by
  rintro rfl
  rw [hslash] at hc
  contradiction

theorem next?_of_isWordStart {first : Char} (hfirst : isWordStart first = true)
    (rest : List Char) : next? (first :: rest) = some (word first rest) := by
  rw [next?_cons (ne_slash rfl hfirst), if_pos hfirst]

theorem isWordStart_of_isDigit {c : Char} (hc : c.isDigit = true) : isWordStart c = false := by
  cases hstart : isWordStart c with
  | false => rfl
  | true =>
      -- Digits come before the letters and the underscore.
      have habove : ∀ first : Char, '9'.val < first.val → ¬ first.val ≤ c.val := by
        intro first hfirst hle
        simp only [Char.isDigit, Bool.and_eq_true, decide_eq_true_eq] at hc
        exact UInt32.not_lt.2 (UInt32.le_trans hle hc.2) hfirst
      change (('A'.val ≤ c.val ∧ c.val ≤ 'Z'.val || 'a'.val ≤ c.val && c.val ≤ 'z'.val) ||
        c == '_') = true at hstart
      simp only [Bool.or_eq_true, Bool.and_eq_true, decide_eq_true_eq, beq_iff_eq] at hstart
      rcases hstart with (hletter | hletter) | hunderscore
      · exact absurd hletter.1 (habove 'A' (by decide))
      · exact absurd hletter.1 (habove 'a' (by decide))
      · exact absurd (hunderscore ▸ UInt32.le_refl _) (habove '_' (by decide))

theorem next?_of_isDigit {first : Char} (hfirst : first.isDigit = true) (rest : List Char) :
    next? (first :: rest) = some (number first rest) := by
  rw [next?_cons (ne_slash rfl hfirst), isWordStart_of_isDigit hfirst, if_neg Bool.false_ne_true,
    if_pos hfirst]

theorem next?_of_isBlank {first : Char} (hfirst : isBlank first = true) (rest : List Char) :
    next? (first :: rest) = some (blank first rest) := by
  have hblanks : (blanks.all fun c => !isWordStart c && !c.isDigit) = true := rfl
  have hclass := List.all_eq_true.1 hblanks first (isBlank_iff.1 hfirst)
  simp only [Bool.and_eq_true, Bool.not_eq_true'] at hclass
  obtain ⟨hword, hdigit⟩ := hclass
  rw [next?_cons (ne_slash rfl hfirst), hword, hdigit, if_neg Bool.false_ne_true,
    if_neg Bool.false_ne_true, if_pos hfirst]

theorem closeQuote?_of_mem {body : List Char} (hbody : body ∈ stringPart∗)
    (after : List Char) : closeQuote? (body ++ '"' :: after) = some (body, after) := by
  obtain ⟨parts, rfl, hparts⟩ := Language.mem_kstar.1 hbody
  clear hbody
  induction parts with
  | nil => rfl
  | cons part parts ih =>
      have hrest := ih fun other hother => hparts other (.tail part hother)
      cases hparts part (.head parts) with
      | inl hescape =>
          obtain ⟨_, ⟨c, hc, rfl⟩, rfl⟩ := mem_exactly_mul_iff.1 hescape
          simp only [List.flatten_cons, List.cons_append, List.nil_append]
          rw [closeQuote?, hrest, if_neg (by simpa using hc)]
          rfl
      | inr hplain =>
          obtain ⟨c, hc, rfl⟩ := hplain
          simp only [Bool.and_eq_true, bne_iff_ne] at hc
          simp only [List.flatten_cons, List.cons_append, List.nil_append]
          rw [closeQuote?, hrest]
          · rfl
          · exact hc.1
          · exact fun hslash => absurd hslash hc.2
          · exact fun _ _ hslash => absurd hslash hc.2

theorem next?_of_mem_strings {text : List Char} (htext : text ∈ strings) (after : List Char) :
    next? (text ++ after) = some (⟨.token .string, text⟩, after) := by
  obtain ⟨body, hbody, rfl⟩ := mem_strings_iff.1 htext
  rw [List.append_assoc, List.cons_append, next?_cons (by decide)]
  simp [isWordStart, isBlank, blanks, quoted?, closeQuote?_of_mem hbody after]

theorem length_le_number {first : Char} {whole : List Char}
    (hwhole : ∀ c ∈ whole, c.isDigit = true) (after : List Char) :
    (first :: whole).length ≤ (number first (whole ++ after)).1.text.length := by
  have hle := length_le_takeWhile hwhole (List.prefix_append whole after)
  rw [text_number, List.length_cons, List.length_cons, List.length_append]
  omega

theorem length_le_number_fraction {first digit : Char} {whole part : List Char}
    (hwhole : ∀ c ∈ whole, c.isDigit = true) (hdigit : digit.isDigit = true)
    (hpart : ∀ c ∈ part, c.isDigit = true) (after : List Char) :
    (first :: (whole ++ '.' :: digit :: part)).length ≤
      (number first (whole ++ '.' :: digit :: part ++ after)).1.text.length := by
  have hle := length_le_takeWhile hpart (List.prefix_append part after)
  have hpoint : Char.isDigit '.' = false := rfl
  have htake : (whole ++ '.' :: digit :: part ++ after).takeWhile Char.isDigit = whole := by
    simp [List.takeWhile_append_of_pos hwhole, hpoint]
  have hdrop : (whole ++ '.' :: digit :: part ++ after).dropWhile Char.isDigit =
      '.' :: digit :: (part ++ after) := by
    simp [List.dropWhile_append_of_pos hwhole, hpoint]
  rw [text_number, htake, hdrop, fraction, if_pos hdigit]
  simp only [List.length_cons, List.length_append]
  omega

theorem mark?_isSome {first : Char} (hfirst : first ∈ ['!', '=', '<', '>'])
    (rest : List Char) : (mark? (first :: rest)).isSome = true := by
  simp only [List.mem_cons, List.not_mem_nil, or_false] at hfirst
  by_cases hpair : ∃ tail, rest = '=' :: tail
  · obtain ⟨tail, rfl⟩ := hpair
    rcases hfirst with rfl | rfl | rfl | rfl <;> rfl
  · have hsingle : ∀ tail, rest = '=' :: tail → False := fun tail heq => hpair ⟨tail, heq⟩
    rcases hfirst with rfl | rfl | rfl | rfl
    all_goals
      rw [mark?]
      · rfl
      · exact hsingle

theorem next?_slash_isSome (rest : List Char) : (next? ('/' :: rest)).isSome = true := by
  unfold next?
  split
  · contradiction
  · rfl
  · rename_i heq
    cases heq
    rfl

/-- At a mark that another mark or a comment goes on from, one of them is cut. -/
theorem next?_extensible {first : Char} (hfirst : first ∈ ['!', '=', '<', '>', '/'])
    (rest : List Char) : ∃ lexeme after, next? (first :: rest) = some (lexeme, after) ∧
      1 ≤ lexeme.text.length := by
  have hsome : (next? (first :: rest)).isSome = true := by
    simp only [List.mem_cons, List.not_mem_nil, or_false] at hfirst
    rcases hfirst with rfl | rfl | rfl | rfl | rfl
    · exact mark?_isSome (by decide) rest
    · exact mark?_isSome (by decide) rest
    · exact mark?_isSome (by decide) rest
    · exact mark?_isSome (by decide) rest
    · exact next?_slash_isSome rest
  obtain ⟨⟨lexeme, after⟩, hnext⟩ := Option.isSome_iff_exists.1 hsome
  exact ⟨lexeme, after, hnext, List.length_pos_iff.2 (next?_append hnext).2⟩

theorem next?_mark {kind : TokenKind} {text : List Char}
    (hmark : kind.mark? = some (.ofList text)) (rest : List Char) :
    ∃ lexeme after, next? (text ++ rest) = some (lexeme, after) ∧
      text.length ≤ lexeme.text.length := by
  cases kind
  all_goals first | contradiction | cases String.ofList_injective (Option.some.inj hmark)
  case not | assignment | less | greater | slash => exact next?_extensible (by decide) rest
  all_goals exact ⟨_, _, rfl, Nat.le_refl _⟩

theorem next?_longest {text : List Char} {other : Lexeme} (hother : other.Belongs)
    (hstart : other.text <+: text) :
    ∃ lexeme rest, next? text = some (lexeme, rest) ∧
      other.text.length ≤ lexeme.text.length := by
  obtain ⟨after, rfl⟩ := hstart
  cases hother with
  | word htext =>
      obtain ⟨first, tail, rfl, hfirst, htail⟩ := mem_run_iff.1 htext
      refine ⟨_, _, next?_of_isWordStart hfirst _, ?_⟩
      exact Nat.succ_le_succ (length_le_takeWhile htail (List.prefix_append tail after))
  | number htext =>
      obtain ⟨first, whole, hfirst, hwhole, rfl | ⟨_, hpart, rfl⟩⟩ := mem_numbers_iff.1 htext
      · exact ⟨_, _, next?_of_isDigit hfirst _, length_le_number hwhole after⟩
      · obtain ⟨digit, part, rfl, hdigit, hpart⟩ := mem_run_iff.1 hpart
        refine ⟨_, _, next?_of_isDigit hfirst _, ?_⟩
        exact length_le_number_fraction hwhole hdigit hpart after
  | string htext => exact ⟨_, _, next?_of_mem_strings htext after, Nat.le_refl _⟩
  | mark hmark => exact next?_mark hmark after
  | blank htext =>
      obtain ⟨first, tail, rfl, hfirst, htail⟩ := mem_run_iff.1 htext
      refine ⟨_, _, next?_of_isBlank hfirst _, ?_⟩
      exact Nat.succ_le_succ (length_le_takeWhile htail (List.prefix_append tail after))
  | comment htext =>
      obtain ⟨tail, rfl, htail⟩ := mem_comments_iff.1 htext
      refine ⟨_, _, rfl, ?_⟩
      exact Nat.succ_le_succ (Nat.succ_le_succ
        (length_le_takeWhile (by simpa using htail) (List.prefix_append tail after)))

theorem longest_of_next? {text rest : List Char} {lexeme : Lexeme}
    (hnext : next? text = some (lexeme, rest)) : lexeme.Longest text := by
  refine ⟨next?_belongs hnext, ⟨rest, (next?_append hnext).1⟩, ?_⟩
  intro other hother hstart
  obtain ⟨found, after, hfound, hle⟩ := next?_longest hother hstart
  rw [hnext] at hfound
  cases hfound
  exact hle

theorem not_belongs_of_next? {text : List Char} (hnext : next? text = none) {lexeme : Lexeme}
    (hlexeme : lexeme.Belongs) : ¬ lexeme.text <+: text := by
  intro hstart
  obtain ⟨found, after, hfound, _⟩ := next?_longest hlexeme hstart
  rw [hnext] at hfound
  contradiction

end Lexeme

end Coroscript
