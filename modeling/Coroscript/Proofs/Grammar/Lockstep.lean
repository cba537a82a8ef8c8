import Coroscript.Proofs.Grammar.Programs
import Mathlib.Data.List.TakeWhile

namespace Coroscript

/-! Readers that see nothing behind an end mark. Two cursors have the same words before them, up
to the same end mark; what they have behind it may differ, and no reader tells them apart. -/

/-- An end mark, and what two cursors have behind it. -/
structure Horizon where
  mark : Token
  isMark : mark.kind = .eof
  left : List Token
  right : List Token

def Horizon.swap (horizon : Horizon) : Horizon :=
  { horizon with left := horizon.right, right := horizon.left }

namespace Token

/-- The tokens up to the first end mark, and the mark. -/
def upToMark (tokens : List Token) : List Token :=
  tokens.take ((beforeEnd tokens).length + 1)

/-- A list with an end mark is cut at the first one. -/
theorem exists_mark {tokens : List Token} {mark : Token} (hmem : mark ∈ tokens)
    (hmark : mark.kind = .eof) :
    ∃ words first behind, Unended words ∧ first.kind = .eof ∧
      tokens = words ++ first :: behind ∧ upToMark tokens = words ++ [first] := by
  obtain ⟨words, rest, rfl, hwords, hrest⟩ :
      ∃ words rest, tokens = words ++ rest ∧ Unended words ∧
        ∀ token ∈ rest.head?, token.kind = .eof := by
    refine ⟨beforeEnd tokens, tokens.dropWhile fun token => token.kind != .eof,
      List.takeWhile_append_dropWhile.symm, fun word hword => ?_, fun token htoken => ?_⟩
    · simpa using List.mem_takeWhile_imp hword
    · have hhead := List.head?_dropWhile_not (fun token : Token => token.kind != .eof) tokens
      rw [Option.mem_def.1 htoken] at hhead
      simpa using hhead
  cases rest with
  | nil =>
      rw [List.append_nil] at hmem
      exact absurd hmark (hwords mark hmem)
  | cons first behind =>
      refine ⟨words, first, behind, hwords, hrest first rfl, rfl, ?_⟩
      rw [upToMark, hwords.beforeEnd_append hrest, List.take_length_add_append]
      rfl

theorem upToMark_of_unended {tokens : List Token} (htokens : Unended tokens) :
    upToMark tokens = tokens := by
  have hbefore : beforeEnd tokens = tokens :=
    List.takeWhile_eq_self_iff.2 fun token htoken => bne_iff_ne.2 (htokens token htoken)
  rw [upToMark, hbefore, List.take_of_length_le (Nat.le_succ _)]

end Token

/-- The kind at a place before the end mark, or that of the mark. -/
def kindAt (words : List Token) (index : Nat) : TokenKind :=
  (words[index]?.map Token.kind).getD .eof

namespace Cursor

/-- Two cursors before the same words, none of them an end mark, and then the same end mark. -/
structure Abreast (horizon : Horizon) (words : List Token) (left right : Cursor) : Prop where
  left_tokens : left.tokens = words ++ horizon.mark :: horizon.left
  right_tokens : right.tokens = words ++ horizon.mark :: horizon.right
  unended : Unended words
  previousEnd_eq : left.previousEnd = right.previousEnd

theorem previousEnd_advance {cursor : Cursor} {token : Token} {rest : List Token}
    (htokens : cursor.tokens = token :: rest) (hrest : rest ≠ []) :
    cursor.advance.previousEnd = token.span.stop := by
  have hcursor : cursor.rest = rest := (List.cons.inj htokens).2
  cases rest with
  | nil => contradiction
  | cons next others => simp [advance, hcursor, current_eq htokens]

theorem peek_of_lt {cursor : Cursor} {count : Nat} {token : Token}
    (htoken : cursor.tokens[count]? = some token) : cursor.peek count = token := by
  rw [peek, htoken, Option.getD_some]

namespace Abreast

variable {horizon : Horizon} {words : List Token} {left right : Cursor}

theorem current_eq (habreast : left.Abreast horizon words right) :
    left.current = right.current := by
  cases words with
  | nil => rw [Cursor.current_eq habreast.left_tokens, Cursor.current_eq habreast.right_tokens]
  | cons word words =>
      rw [Cursor.current_eq habreast.left_tokens, Cursor.current_eq habreast.right_tokens]

theorem position_eq (habreast : left.Abreast horizon words right) :
    left.position = right.position := by
  rw [position, position, habreast.current_eq]

theorem peek_eq (habreast : left.Abreast horizon words right) {count : Nat}
    (hcount : count ≤ words.length) :
    left.peek count = right.peek count ∧ (left.peek count).kind = kindAt words count := by
  rcases Nat.lt_or_eq_of_le hcount with hcount | rfl
  · have htoken (behind : List Token) :
        (words ++ behind)[count]? = some words[count] := by
      rw [List.getElem?_append_left hcount, List.getElem?_eq_getElem hcount]
    rw [peek_of_lt (habreast.left_tokens ▸ htoken _), peek_of_lt (habreast.right_tokens ▸ htoken _)]
    simp [kindAt, hcount]
  · have htoken (behind : List Token) :
        (words ++ horizon.mark :: behind)[words.length]? = some horizon.mark := by
      rw [List.getElem?_append_right (Nat.le_refl _), Nat.sub_self]
      rfl
    rw [peek_of_lt (habreast.left_tokens ▸ htoken _), peek_of_lt (habreast.right_tokens ▸ htoken _)]
    simp [kindAt, horizon.isMark]

theorem peek_kinds (habreast : left.Abreast horizon words right) {count : Nat}
    (hcount : count ≤ words.length) :
    (left.peek count).kind = kindAt words count ∧ (right.peek count).kind = kindAt words count := by
  obtain ⟨hpeek, hkind⟩ := habreast.peek_eq hcount
  exact ⟨hkind, hpeek ▸ hkind⟩

theorem current_kind (habreast : left.Abreast horizon words right) :
    left.current.kind = kindAt words 0 :=
  (habreast.peek_eq (Nat.zero_le _)).2

theorem advance {word : Token} (habreast : left.Abreast horizon (word :: words) right) :
    left.advance.Abreast horizon words right.advance where
  left_tokens := tokens_advance habreast.left_tokens (by simp)
  right_tokens := tokens_advance habreast.right_tokens (by simp)
  unended := (List.forall_mem_cons.1 habreast.unended).2
  previousEnd_eq := by
    rw [previousEnd_advance habreast.left_tokens (by simp),
      previousEnd_advance habreast.right_tokens (by simp)]

theorem lt_remaining (habreast : left.Abreast horizon words right) :
    words.length < left.remaining ∧ words.length < right.remaining := by
  rw [remaining_eq_length, remaining_eq_length, habreast.left_tokens, habreast.right_tokens]
  simp only [List.length_append, List.length_cons]
  omega

theorem symm (habreast : left.Abreast horizon words right) :
    right.Abreast horizon.swap words left :=
  ⟨habreast.right_tokens, habreast.left_tokens, habreast.unended, habreast.previousEnd_eq.symm⟩

theorem self (habreast : left.Abreast horizon words right) :
    left.Abreast { horizon with right := horizon.left } words left :=
  ⟨habreast.left_tokens, habreast.left_tokens, habreast.unended, rfl⟩

/-- Cursors with the same tokens behind the end mark are the same. -/
theorem eq_of_same (habreast : left.Abreast horizon words right)
    (hsame : horizon.left = horizon.right) : left = right := by
  have htokens : left.tokens = right.tokens := by
    rw [habreast.left_tokens, habreast.right_tokens, hsame]
  obtain ⟨hcurrent, hrest⟩ := List.cons.inj htokens
  have hprevious := habreast.previousEnd_eq
  cases left
  cases right
  cases hcurrent
  cases hrest
  cases hprevious
  rfl

end Abreast

/-- There is an end mark at the cursor or ahead of it. -/
def Closed (cursor : Cursor) : Prop :=
  ∃ token ∈ cursor.tokens, token.kind = .eof

theorem Ended.closed {cursor : Cursor} (hended : cursor.Ended) : cursor.Closed := by
  obtain ⟨mark, hlast, hmark⟩ := hended
  exact ⟨mark, List.mem_of_getLast? hlast, hmark⟩

theorem Abreast.closed {horizon : Horizon} {words : List Token} {left right : Cursor}
    (habreast : left.Abreast horizon words right) : left.Closed ∧ right.Closed := by
  constructor
  · exact ⟨horizon.mark, habreast.left_tokens ▸ by simp, horizon.isMark⟩
  · exact ⟨horizon.mark, habreast.right_tokens ▸ by simp, horizon.isMark⟩

theorem Closed.abreast {cursor : Cursor} (hclosed : cursor.Closed) :
    ∃ horizon words, cursor.Abreast horizon words cursor := by
  obtain ⟨mark, hmem, hmark⟩ := hclosed
  obtain ⟨words, first, behind, hwords, hfirst, htokens, -⟩ := Token.exists_mark hmem hmark
  exact ⟨⟨first, hfirst, behind, behind⟩, words, htokens, htokens, hwords, rfl⟩

end Cursor

namespace Parser

variable {α β : Type}

/-- Before `words` both readers have the same result and stop before the same later words. If
they succeed, these are fewer than `bound`. -/
def Lockstep (bound : Nat) (words : List Token) (left right : Parser α) : Prop :=
  ∀ (horizon : Horizon) (cursor cursor' : Cursor), cursor.Abreast horizon words cursor' →
    ∃ rest, rest <:+ words ∧ (left cursor).1 = (right cursor').1 ∧
      (left cursor).2.Abreast horizon rest (right cursor').2 ∧
        ∀ a, (left cursor).1 = .ok a → rest.length < bound

namespace Lockstep

variable {bound : Nat} {words : List Token}

theorem pure (a : α) (hbound : words.length < bound) :
    Lockstep bound words (Pure.pure a) (Pure.pure a) :=
  fun _ _ _ habreast => ⟨words, List.suffix_refl words, rfl, habreast, fun _ _ => hbound⟩

theorem fail (error : Error) :
    Lockstep bound words (Action.fail error : Parser α) (Action.fail error) :=
  fun _ _ _ habreast =>
    ⟨words, List.suffix_refl words, rfl, habreast, fun _ herror => nomatch herror⟩

theorem mono {bound' : Nat} {left right : Parser α} (hsteps : Lockstep bound words left right)
    (hbound : bound ≤ bound') : Lockstep bound' words left right := by
  intro horizon cursor cursor' habreast
  obtain ⟨rest, hrest, hresult, hafter, hfewer⟩ := hsteps _ _ _ habreast
  exact ⟨rest, hrest, hresult, hafter, fun a ha => Nat.lt_of_lt_of_le (hfewer a ha) hbound⟩

theorem symm {left right : Parser α} (hsteps : Lockstep bound words left right) :
    Lockstep bound words right left := by
  intro horizon cursor cursor' habreast
  obtain ⟨rest, hrest, hresult, hafter, hfewer⟩ := hsteps _ _ _ habreast.symm
  exact ⟨rest, hrest, hresult.symm, hafter.symm, fun a ha => hfewer a (hresult.trans ha)⟩

theorem eq {left right : Parser α} (hsteps : Lockstep bound words left right)
    {horizon : Horizon} {cursor : Cursor} (habreast : cursor.Abreast horizon words cursor) :
    left cursor = right cursor := by
  obtain ⟨rest, -, hresult, hafter, -⟩ := hsteps _ _ _ habreast.self
  exact Prod.ext hresult (hafter.eq_of_same rfl)

theorem trans {left middle right : Parser α} (hleft : Lockstep bound words left middle)
    (hright : Lockstep bound words middle right) : Lockstep bound words left right := by
  intro horizon cursor cursor' habreast
  rw [hleft.eq habreast.self]
  exact hright _ _ _ habreast

theorem bind {bound' : Nat} {left right : Parser α} {next next' : α → Parser β}
    (hfirst : Lockstep bound' words left right)
    (hnext : ∀ a (rest : List Token), rest.length < bound' →
      Lockstep bound rest (next a) (next' a)) :
    Lockstep bound words (left >>= next) (right >>= next') := by
  intro horizon cursor cursor' habreast
  obtain ⟨rest, hrest, hresult, hafter, hfewer⟩ := hfirst _ _ _ habreast
  rw [Action.bind_apply, Action.bind_apply]
  revert hresult hafter hfewer
  rcases left cursor with ⟨result, after⟩
  rcases right cursor' with ⟨result', after'⟩
  rintro ⟨⟩ hafter hfewer
  cases result with
  | error error => exact ⟨rest, hrest, rfl, hafter, fun _ herror => nomatch herror⟩
  | ok a =>
      obtain ⟨further, hfurther, hlast⟩ := hnext a rest (hfewer a rfl) _ _ _ hafter
      exact ⟨further, hfurther.trans hrest, hlast⟩

/-- A look at what is ahead. -/
theorem gets_bind (sees : α → α → Prop) {view view' : Cursor → α} {next next' : α → Parser β}
    (hview : ∀ {horizon : Horizon} {cursor cursor' : Cursor},
      cursor.Abreast horizon words cursor' → sees (view cursor) (view' cursor'))
    (hnext : ∀ a a', sees a a' → Lockstep bound words (next a) (next' a')) :
    Lockstep bound words (Action.gets view >>= next) (Action.gets view' >>= next') :=
  fun _ _ _ habreast => hnext _ _ (hview habreast) _ _ _ habreast

theorem peekKind_bind {count : Nat} (hcount : count ≤ words.length)
    {next next' : TokenKind → Parser β}
    (hnext : Lockstep bound words (next (kindAt words count)) (next' (kindAt words count))) :
    Lockstep bound words (peekKind count >>= next) (peekKind count >>= next') := by
  apply gets_bind fun a a' => a = kindAt words count ∧ a' = kindAt words count
  · intro horizon cursor cursor' habreast
    exact habreast.peek_kinds hcount
  · rintro _ _ ⟨rfl, rfl⟩
    exact hnext

theorem kind_bind {next next' : TokenKind → Parser β}
    (hnext : Lockstep bound words (next (kindAt words 0)) (next' (kindAt words 0))) :
    Lockstep bound words (kind >>= next) (kind >>= next') :=
  peekKind_bind (Nat.zero_le _) hnext

/-- A look behind the end mark, which must not matter. -/
theorem peekKind_bind_any {count : Nat} {next next' : TokenKind → Parser β}
    (hnext : ∀ found found', Lockstep bound words (next found) (next' found')) :
    Lockstep bound words (peekKind count >>= next) (peekKind count >>= next') :=
  gets_bind (fun _ _ => True) (fun _ => trivial) fun found found' _ => hnext found found'

theorem look_bind {view : Cursor → α} {next next' : α → Parser β}
    (hview : ∀ {horizon : Horizon} {cursor cursor' : Cursor},
      cursor.Abreast horizon words cursor' → view cursor = view cursor')
    (hnext : ∀ a, Lockstep bound words (next a) (next' a)) :
    Lockstep bound words (Action.gets view >>= next) (Action.gets view >>= next') := by
  apply gets_bind Eq hview
  rintro a _ rfl
  exact hnext a

theorem advance (hwords : words ≠ []) :
    Lockstep words.length words Parser.advance Parser.advance := by
  intro horizon cursor cursor' habreast
  cases words with
  | nil => contradiction
  | cons word rest =>
      refine ⟨rest, List.suffix_cons word rest, ?_, habreast.advance, fun _ _ => ?_⟩
      · exact congrArg Except.ok habreast.current_eq
      · exact Nat.lt_succ_self rest.length

theorem unexpected : Lockstep bound words (Parser.unexpected : Parser α) Parser.unexpected := by
  intro horizon cursor cursor' habreast
  refine ⟨words, List.suffix_refl words, ?_, habreast, fun _ herror => nomatch herror⟩
  simp only [Parser.unexpected, Cursor.unexpected, Cursor.position, habreast.current_eq]

theorem unexpectedBecause (message : String) :
    Lockstep bound words (Parser.unexpectedBecause message : Parser α)
      (Parser.unexpectedBecause message) := by
  intro horizon cursor cursor' habreast
  refine ⟨words, List.suffix_refl words, ?_, habreast, fun _ herror => nomatch herror⟩
  simp only [Parser.unexpectedBecause, Cursor.unexpectedBecause, Cursor.position,
    habreast.current_eq]

/-- A choice by the kind of the current token. -/
theorem ite_kind {expected : TokenKind} {taken other : Parser α}
    (hword : expected ≠ .eof) (htaken : words ≠ [] → Lockstep bound words taken taken)
    (hother : Lockstep bound words other other) :
    Lockstep bound words
      (fun cursor => if cursor.current.kind = expected then taken cursor else other cursor)
      (fun cursor => if cursor.current.kind = expected then taken cursor else other cursor) := by
  intro horizon cursor cursor' habreast
  by_cases hkind : cursor.current.kind = expected
  · simp only [← habreast.current_eq, hkind, if_true]
    refine htaken ?_ _ _ _ habreast
    rintro rfl
    exact hword (hkind.symm.trans habreast.current_kind)
  · simp only [← habreast.current_eq, hkind, if_false]
    exact hother _ _ _ habreast

theorem expect {expected : TokenKind} (hword : expected ≠ .eof) :
    Lockstep words.length words (Parser.expect expected) (Parser.expect expected) :=
  ite_kind hword advance unexpected

theorem expectBecause {expected : TokenKind} (hword : expected ≠ .eof) (message : String) :
    Lockstep words.length words (Parser.expectBecause expected message)
      (Parser.expectBecause expected message) :=
  ite_kind hword advance (unexpectedBecause message)

/-- A reader that may take as many steps as there are tokens left. -/
theorem remaining {reader reader' : Nat → Parser α}
    (hreader : ∀ count count', words.length < count → words.length < count' →
      Lockstep bound words (reader count) (reader' count')) :
    Lockstep bound words (fun cursor => reader cursor.remaining cursor)
      (fun cursor => reader' cursor.remaining cursor) := by
  intro horizon cursor cursor' habreast
  obtain ⟨hleft, hright⟩ := habreast.lt_remaining
  exact hreader _ _ hleft hright _ _ _ habreast

end Lockstep

/-- Two readers in lockstep before fewer than `limit` words. If they succeed they have not more
than `spare - 1` words more before them than at first. -/
def LockstepBelow (spare limit : Nat) (left right : Parser α) : Prop :=
  ∀ words : List Token, words.length < limit →
    Lockstep (words.length + spare) words left right

/-- A reader that does not look behind an end mark and takes none. With nothing to spare it takes
a word whenever it succeeds. -/
def Steady (spare : Nat) (reader : Parser α) : Prop :=
  ∀ words : List Token, Lockstep (words.length + spare) words reader reader

section Lists

/-- One item, and `others` if a comma is behind it. -/
def separatedRound (item : Parser α) (others : Parser (List α)) : Parser (List α) := do
  let first ← item
  if (← kind) = .comma then
    let _ ← advance
    let others ← others
    return first :: others
  else return [first]

variable {item item' : Parser α} {limit : Nat}

theorem lockstep_separatedRound {others others' : Parser (List α)} {limit' : Nat}
    (hitem : LockstepBelow 0 limit item item') (hothers : LockstepBelow 0 limit' others others')
    {words : List Token} (hlimit : words.length < limit) (hlimit' : words.length ≤ limit') :
    Lockstep words.length words (separatedRound item others) (separatedRound item' others') := by
  apply Lockstep.bind (hitem words hlimit)
  intro first rest hrest
  apply Lockstep.kind_bind
  split
  · apply (Lockstep.advance (by rintro rfl; contradiction)).bind
    intro _ inner hinner
    apply Lockstep.bind (hothers inner (by omega))
    intro others after hafter
    exact .pure _ (by omega)
  · exact .pure _ hrest

theorem lockstep_separated (hitem : LockstepBelow 0 limit item item') (count count' : Nat) :
    LockstepBelow 0 (min limit (min count count')) (separated item count)
      (separated item' count') := by
  induction count generalizing count' with
  | zero => exact fun words hwords => absurd hwords (by omega)
  | succ count ih =>
      cases count' with
      | zero => exact fun words hwords => absurd hwords (by omega)
      | succ count' =>
          intro words hwords
          exact lockstep_separatedRound hitem (ih count') (by omega) (by omega)

theorem lockstep_parenthesised (hitem : LockstepBelow 0 limit item item') {words : List Token}
    (hlimit : words.length ≤ limit) :
    Lockstep words.length words (parenthesised item) (parenthesised item') := by
  rw [parenthesised, parenthesised]
  apply (Lockstep.expect (by decide)).bind
  intro _ inner hinner
  apply Lockstep.kind_bind
  split
  · apply (Lockstep.advance (by rintro rfl; contradiction)).bind
    intro _ after hafter
    exact .pure _ (by omega)
  · apply Lockstep.bind (Lockstep.remaining fun count count' hcount hcount' =>
      lockstep_separated hitem count count' inner (by omega))
    intro items rest hrest
    apply (Lockstep.expect (by decide)).bind
    intro _ after hafter
    exact .pure _ (by omega)

end Lists

/-! Equations. The readers are bounded recursions. Where an end mark is ahead they solve the
equation that has no bound, and nothing else solves it. -/

section Equations

variable {ι : Type} {spare : Nat} {body : (ι → Parser α) → ι → Parser α}

/-- A right side that asks its reader only before fewer words than there are at first. -/
def Contracts (spare : Nat) (body : (ι → Parser α) → ι → Parser α) : Prop :=
  ∀ (limit : Nat) (reader reader' : ι → Parser α),
    (∀ i, LockstepBelow spare limit (reader i) (reader' i)) →
      ∀ i, LockstepBelow spare (limit + 1) (body reader i) (body reader' i)

/-- Wherever an end mark is ahead, the recursion by `body` comes to an end with what `reader`
gives: no other reader satisfies its equation. -/
def OnlySolution (body : (ι → Parser α) → ι → Parser α) (reader : ι → Parser α) : Prop :=
  ∀ other : ι → Parser α,
    (∀ i cursor, cursor.Closed → other i cursor = body other i cursor) ↔
      ∀ i cursor, cursor.Closed → other i cursor = reader i cursor

namespace LockstepBelow

variable {limit : Nat} {left middle right : Parser α}

theorem symm (hsteps : LockstepBelow spare limit left right) :
    LockstepBelow spare limit right left :=
  fun words hwords => (hsteps words hwords).symm

theorem trans (hleft : LockstepBelow spare limit left middle)
    (hright : LockstepBelow spare limit middle right) : LockstepBelow spare limit left right :=
  fun words hwords => (hleft words hwords).trans (hright words hwords)

theorem mono {limit' : Nat} (hsteps : LockstepBelow spare limit left right)
    (hlimit : limit' ≤ limit) : LockstepBelow spare limit' left right :=
  fun words hwords => hsteps words (Nat.lt_of_lt_of_le hwords hlimit)

theorem congr {left' right' : Parser α} (hsteps : LockstepBelow spare limit left right)
    (hleft : ∀ cursor, cursor.Closed → left cursor = left' cursor)
    (hright : ∀ cursor, cursor.Closed → right cursor = right' cursor) :
    LockstepBelow spare limit left' right' := by
  intro words hwords horizon cursor cursor' habreast
  rw [← hleft cursor habreast.closed.1, ← hright cursor' habreast.closed.2]
  exact hsteps words hwords _ _ _ habreast

theorem eq_of_closed (hsteps : ∀ limit, LockstepBelow spare limit left right) {cursor : Cursor}
    (hclosed : cursor.Closed) : left cursor = right cursor := by
  obtain ⟨horizon, words, habreast⟩ := hclosed.abreast
  exact (hsteps _ words (Nat.lt_succ_self _)).eq habreast

end LockstepBelow

/-- A bounded recursion: with one step more it does what `body` does with the steps before. -/
structure Unrolls (spare : Nat) (body : (ι → Parser α) → ι → Parser α)
    (reader : Nat → ι → Parser α) : Prop where
  contracts : Contracts spare body
  step : ∀ count, (∀ i, LockstepBelow spare count (reader count i) (reader count i)) →
    ∀ i, LockstepBelow spare (count + 1) (reader (count + 1) i) (body (reader count) i)

theorem Unrolls.of_contracts {reader : Nat → ι → Parser α} (hcontracts : Contracts spare body)
    (hstep : ∀ count i, reader (count + 1) i = body (reader count) i) :
    Unrolls spare body reader := by
  refine ⟨hcontracts, fun count hcount i => ?_⟩
  rw [hstep]
  exact hcontracts count _ _ hcount i

namespace Unrolls

variable {reader : Nat → ι → Parser α} (hunrolls : Unrolls spare body reader)
include hunrolls

theorem refl (count : Nat) (i : ι) :
    LockstepBelow spare count (reader count i) (reader count i) := by
  induction count generalizing i with
  | zero => exact fun words hwords => absurd hwords (Nat.not_lt_zero _)
  | succ count ih => exact (hunrolls.step count ih i).trans (hunrolls.step count ih i).symm

/-- More steps than there are words make no difference. -/
theorem agree (count count' : Nat) (i : ι) :
    LockstepBelow spare (min count count') (reader count i) (reader count' i) := by
  induction count generalizing count' i with
  | zero => exact fun words hwords => absurd hwords (by omega)
  | succ count ih =>
      cases count' with
      | zero => exact fun words hwords => absurd hwords (by omega)
      | succ count' =>
          have hleft := hunrolls.step count (hunrolls.refl count) i
          have hright := hunrolls.step count' (hunrolls.refl count') i
          have hmiddle := hunrolls.contracts _ _ _ (ih count') i
          exact ((hleft.mono (by omega)).trans (hmiddle.mono (by omega))).trans
            (hright.mono (by omega)).symm

theorem agree_remaining (count : Nat) (i : ι) :
    LockstepBelow spare count (reader count i) fun cursor => reader cursor.remaining i cursor := by
  intro words hwords horizon cursor cursor' habreast
  have hremaining := habreast.lt_remaining.2
  exact hunrolls.agree count cursor'.remaining i words (by omega) _ _ _ habreast

theorem steady (i : ι) : Steady spare fun cursor => reader cursor.remaining i cursor := by
  intro words horizon cursor cursor' habreast
  obtain ⟨hleft, hright⟩ := habreast.lt_remaining
  exact hunrolls.agree cursor.remaining cursor'.remaining i words (by omega) _ _ _ habreast

theorem solves (i : ι) (cursor : Cursor) (hclosed : cursor.Closed) :
    reader cursor.remaining i cursor =
      body (fun j cursor => reader cursor.remaining j cursor) i cursor := by
  obtain ⟨horizon, words, habreast⟩ := hclosed.abreast
  have hwords : words.length < cursor.rest.length + 1 := habreast.lt_remaining.1
  have hstep := hunrolls.step _ (hunrolls.refl cursor.rest.length) i
  have hbody := hunrolls.contracts _ _ _ (hunrolls.agree_remaining cursor.rest.length) i
  exact ((hstep.trans hbody) words hwords).eq habreast

theorem agree_of_solves {other other' : ι → Parser α}
    (hother : ∀ i cursor, cursor.Closed → other i cursor = body other i cursor)
    (hother' : ∀ i cursor, cursor.Closed → other' i cursor = body other' i cursor)
    (limit : Nat) (i : ι) : LockstepBelow spare limit (other i) (other' i) := by
  induction limit generalizing i with
  | zero => exact fun words hwords => absurd hwords (Nat.not_lt_zero _)
  | succ limit ih =>
      exact (hunrolls.contracts limit _ _ ih i).congr
        (fun cursor hclosed => (hother i cursor hclosed).symm)
        (fun cursor hclosed => (hother' i cursor hclosed).symm)

theorem onlySolution : OnlySolution body fun i cursor => reader cursor.remaining i cursor := by
  have hsolves := hunrolls.solves
  intro other
  constructor
  · intro hother i cursor hclosed
    exact LockstepBelow.eq_of_closed
      (fun limit => hunrolls.agree_of_solves hother hsolves limit i) hclosed
  · intro hother i cursor hclosed
    refine (hother i cursor hclosed).trans ((hsolves i cursor hclosed).trans ?_)
    have hagree (limit : Nat) (j : ι) := (hunrolls.agree_of_solves hsolves hsolves limit j).congr
      (fun _ _ => rfl) (fun cursor hclosed => (hother j cursor hclosed).symm)
    exact LockstepBelow.eq_of_closed
      (fun limit => (hunrolls.contracts limit _ _ (hagree limit) i).mono (Nat.le_succ limit))
      hclosed

end Unrolls

theorem unrolls_separated {item : Parser α} (hitem : Steady 0 item) :
    Unrolls 0 (fun others (_ : Unit) => separatedRound item (others ()))
      (fun count _ => separated item count) := by
  refine .of_contracts ?_ fun _ _ => rfl
  intro limit others others' hothers _ words hwords
  exact lockstep_separatedRound (fun words _ => hitem words) (hothers ()) (Nat.lt_succ_self _)
    (Nat.le_of_lt_succ hwords)

end Equations

end Parser

end Coroscript
