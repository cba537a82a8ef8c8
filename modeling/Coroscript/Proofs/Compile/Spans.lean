import Coroscript.Proofs.Compile.Places
import Coroscript.Proofs.Grammar.Spans

namespace Coroscript

/-! The spans of expressions tell where they stand: the text there, read alone, is the same
expression, and the parts of an expression stand inside it one behind the other. -/

/-- Tokens that stand one behind the other. -/
structure Token.Ascending (words : List Token) : Prop where
  apart : words.Pairwise fun first second => first.span.stop.offset ≤ second.span.start.offset
  forward : ∀ word ∈ words, word.span.start.offset < word.span.stop.offset

namespace Token.Ascending

variable {words part : List Token} {word : Token}

theorem within (hwords : Ascending words) (hpart : part <:+: words) : Ascending part where
  apart := hwords.apart.sublist hpart.sublist
  forward := fun word hword => hwords.forward word (hpart.subset hword)

theorem start_le {first : Token} (hwords : Ascending words) (hfirst : words.head? = some first)
    (hword : word ∈ words) : first.span.start.offset ≤ word.span.start.offset := by
  obtain ⟨rest, rfl⟩ := List.head?_eq_some_iff.1 hfirst
  rcases List.mem_cons.1 hword with rfl | hrest
  · exact UInt32.le_refl _
  · exact UInt32.le_trans (UInt32.le_of_lt (hwords.forward first List.mem_cons_self))
      ((List.pairwise_cons.1 hwords.apart).1 word hrest)

theorem le_stop {last : Token} (hwords : Ascending words) (hlast : words.getLast? = some last)
    (hword : word ∈ words) : word.span.stop.offset ≤ last.span.stop.offset := by
  obtain ⟨earlier, rfl⟩ := List.getLast?_eq_some_iff.1 hlast
  rcases List.mem_append.1 hword with hearlier | hsame
  · exact UInt32.le_trans ((List.pairwise_append.1 hwords.apart).2.2 word hearlier last (by simp))
      (UInt32.le_of_lt (hwords.forward last (by simp)))
  · rw [List.mem_singleton.1 hsame]
    exact UInt32.le_refl _

end Token.Ascending

theorem Token.ascending_of_scan {source file : String} {tokens before words after : List Token}
    (hsize : source.utf8ByteSize < UInt32.size) (hscan : scan source file = .ok tokens)
    (htokens : tokens = before ++ words ++ after) (hafter : after ≠ []) : Ascending words := by
  obtain ⟨all, position, hall, -, htile⟩ :=
    tile_of_scan_eq_ok (byteLength_toList source ▸ hsize) hscan
  obtain ⟨others, mark, rfl⟩ : ∃ others mark, after = others ++ [mark] :=
    ⟨_, _, (List.dropLast_append_getLast hafter).symm⟩
  rw [htokens, ← List.append_assoc] at hall
  obtain ⟨rfl, -⟩ := List.append_inj' hall rfl
  have hascending : Ascending (before ++ words ++ others) := by
    refine ⟨htile.disjoint, fun word hword => ?_⟩
    obtain ⟨_, _, _, _, hcovers⟩ := htile.covers word hword
    exact hcovers.nonempty
  exact hascending.within (List.infix_append _ _ _)

namespace Expr

/-- The parts of an expression stand inside it, from left to right and without overlap. -/
structure Nested (node : Expr) : Prop where
  inside : ∀ child ∈ node.children, node.span.start.offset ≤ child.span.start.offset ∧
    child.span.start.offset < child.span.stop.offset ∧
    child.span.stop.offset ≤ node.span.stop.offset
  apart : node.children.Pairwise fun left right =>
    left.span.stop.offset ≤ right.span.start.offset

/-- The span of an expression cuts a slice out of the source that is read alone, up to its end, as
the same expression. Only its offsets count from the start of the slice. -/
def ReadsAlone (source file : String) (node : Expr) : Prop :=
  ∃ before slice after words found rest, source.toList = before ++ slice ++ after ∧
    node.span.start.At file before ∧ node.span.stop.At file (before ++ slice) ∧
    Token.scan (.ofList slice) file = .ok words ∧
    Grammar.standard.expr .lowest (.ofTokens words file) = (.ok found, rest) ∧
    rest.tokens = [.endMark (.ofOffset (byteLength slice) file)] ∧
    found.shift node.span.start.offset = node

end Expr

theorem InOrder.apart {trees : List Expr} {words : List Token}
    (htrees : InOrder Located trees words) (hwords : Token.Ascending words) :
    trees.Pairwise fun left right => left.span.stop.offset ≤ right.span.start.offset := by
  induction htrees with
  | nil => exact .nil
  | cons gap htree htrees ih =>
      obtain ⟨-, hrest, hacross⟩ := List.pairwise_append.1 hwords.apart
      refine List.pairwise_cons.2 ⟨?_, ih (hwords.within (List.suffix_append _ _).isInfix)⟩
      intro other hother
      obtain ⟨part, hpart, hother⟩ := htrees.exists_words hother
      obtain ⟨_, last, -, hlast, hleft⟩ := htree.ends
      obtain ⟨first, _, hfirst, -, hright⟩ := hother.ends
      rw [hleft, hright]
      exact hacross last (List.mem_append_right _ (List.mem_of_getLast? hlast)) first
        (hpart.subset (List.mem_of_head? hfirst))

theorem Located.nested {node : Expr} {words : List Token} (hnode : Located node words)
    (hwords : Token.Ascending words) : node.Nested := by
  refine ⟨?_, hnode.children.apart hwords⟩
  intro child hchild
  obtain ⟨part, hpart, hchild⟩ := hnode.children.exists_words hchild
  obtain ⟨first, last, hfirst, hlast, hspan⟩ := hnode.ends
  obtain ⟨first', last', hfirst', hlast', hspan'⟩ := hchild.ends
  have hmem : first' ∈ words := hpart.subset (List.mem_of_head? hfirst')
  have hmem' : last' ∈ words := hpart.subset (List.mem_of_getLast? hlast')
  rw [hspan, hspan']
  refine ⟨hwords.start_le hfirst hmem, ?_, hwords.le_stop hlast hmem'⟩
  exact UInt32.lt_of_lt_of_le (hwords.forward first' hmem)
    ((hwords.within hpart).le_stop hlast' (List.mem_of_head? hfirst'))

/-! The nodes of an expression are expressions. -/

theorem Stratified.child {level : Stratum} {tree child : Expr} (htree : Stratified level tree)
    (hchild : child ∈ tree.children) : ∃ level, Stratified level child := by
  induction htree with
  | number | symbol | string => contradiction
  | grouping _ hinner _ => exact ⟨_, List.mem_singleton.1 hchild ▸ hinner⟩
  | conversion _ _ hvalue _ => exact ⟨_, List.mem_singleton.1 hchild ▸ hvalue⟩
  | call _ _ harguments _ => exact ⟨_, harguments child hchild⟩
  | percent _ hoperand _ => exact ⟨_, List.mem_singleton.1 hchild ▸ hoperand⟩
  | unary _ _ hoperand _ => exact ⟨_, List.mem_singleton.1 hchild ▸ hoperand⟩
  | next _ hcoroutine _ => exact ⟨_, List.mem_singleton.1 hchild ▸ hcoroutine⟩
  | create callee callSpan _ harguments _ =>
      rw [List.mem_singleton.1 hchild]
      exact ⟨_, Stratified.call callee callSpan harguments⟩
  | exponent _ _ hleft hright _ _ | percentOf _ _ hleft hright _ _ _
  | binary _ _ hleft hright _ _ =>
      rcases List.mem_cons.1 hchild with rfl | hchild
      · exact ⟨_, hleft⟩
      · exact ⟨_, List.mem_singleton.1 hchild ▸ hright⟩
  | tighter _ _ ih => exact ih hchild

theorem Grammar.Placed.child {tree child : Expr} {words : List Token} (htree : Placed tree words)
    (hchild : child ∈ tree.children) : ∃ part, part <:+: words ∧ Placed child part := by
  obtain ⟨part, hpart, hlocated⟩ := htree.2.children.exists_words hchild
  obtain ⟨level, hlevel⟩ := htree.1.child hchild
  have hspells := spells_iff.2 ⟨hlevel, hlocated.renders⟩
  have hlogical : Spells .logical child part := hspells.loosen (by cases level <;> decide)
  exact ⟨part, hpart, hlogical.stratified, hlocated⟩

theorem Grammar.Placed.node {tree node : Expr} {words : List Token} (htree : Placed tree words)
    (hnode : node ∈ tree.nodes) : ∃ part, part <:+: words ∧ Placed node part := by
  have hinherit : ∀ tree child : Expr, (∃ part, part <:+: words ∧ Placed tree part) →
      child ∈ tree.children → ∃ part, part <:+: words ∧ Placed child part := by
    rintro tree child ⟨part, hpart, htree⟩ hchild
    obtain ⟨inner, hinner, hchild⟩ := htree.child hchild
    exact ⟨inner, hinner.trans hpart, hchild⟩
  exact Expr.forall_mem_nodes hinherit tree ⟨words, List.infix_refl words, htree⟩ node hnode

/-! Reading the words of an expression alone, wherever they stand. -/

theorem Grammar.Placed.reads_alone {node : Expr} {words alone : List Token} {amount : UInt32}
    {cursor : Cursor} {mark : Token} (hnode : Placed node words)
    (hwords : words = alone.map (Token.shift amount)) (hmark : mark.kind = .eof)
    (hcursor : cursor.tokens = alone ++ [mark]) :
    ∃ found rest, standard.expr .lowest cursor = (.ok found, rest) ∧ rest.tokens = [mark] ∧
      found.shift amount = node := by
  obtain ⟨hstratified, hlocated⟩ := hnode
  have hrenders : Renders node alone := by
    have hid : Token.shift (-amount) ∘ Token.shift amount = id :=
      funext fun token => Token.shift_neg amount token
    have hback := hlocated.renders.shift (-amount)
    rwa [hwords, List.map_map, hid, List.map_id] at hback
  have hreads : ReadsAs .logical node alone := (hstratified.spells hrenders).readsAs
  have hpower : standard.powerBefore [mark] = .lowest :=
    powerBefore_cons (by rw [hmark]; decide) (by rw [hmark]; rfl)
  obtain ⟨found, rest, hread, hsame, hrest⟩ :=
    hreads.whole hcursor (List.cons_ne_nil _ _) hpower (Nat.le_refl _)
  have hended : cursor.Ended := ⟨mark, by rw [hcursor, List.getLast?_concat], hmark⟩
  obtain ⟨taken, htaken, hfound⟩ := locates_expr .lowest cursor hended found rest hread
  rw [hcursor, hrest] at htaken
  obtain rfl := List.append_cancel_right htaken
  refine ⟨found, rest, hread, hrest, ?_⟩
  have hshift : (alone ++ []).map (Token.shift amount) = words ++ [] := by
    rw [List.append_nil, List.append_nil, hwords]
  exact (hfound.shift_eq hlocated hsame hshift).1

/-- Every expression of a source that is read stands where its span says, and its parts stand
inside it, one behind the other. -/
theorem Program.spans_cut_expressions {source file : String} {tokens : List Token}
    {program : Program} (hsize : source.utf8ByteSize < UInt32.size)
    (hscan : Token.scan source file = .ok tokens)
    (hread : ofTokens tokens file = .ok program) :
    ∀ node ∈ program.nodes, node.ReadsAlone source file ∧ node.Nested := by
  intro node hnode
  obtain ⟨tree, htree, hnode⟩ := List.mem_flatMap.1 hnode
  obtain ⟨all, hall, harranged⟩ := Grammar.takes_program_arranged file _
    (Cursor.ended_ofTokens tokens file) program _ (Prod.ext hread rfl)
  rw [Cursor.tokens_ofTokens_scan hscan] at hall
  obtain ⟨treeWords, htreeWords, htree⟩ := harranged.exists_words htree
  obtain ⟨words, hwords, hnode⟩ := htree.node hnode
  obtain ⟨before, behind, rfl⟩ := hwords.trans htreeWords
  rw [List.append_assoc] at hall
  have hbehind : ∀ cursor : Cursor, behind ++ cursor.tokens ≠ [] :=
    fun _ => List.append_ne_nil_of_right_ne_nil behind (List.cons_ne_nil _ _)
  refine ⟨?_, hnode.2.nested (Token.ascending_of_scan hsize hscan hall (hbehind _))⟩
  obtain ⟨first, last, hfirst, hlast, hspan⟩ := hnode.2.ends
  obtain ⟨left, slice, right, alone, hsource, hstart, hstop, halone, hshift⟩ :=
    Token.scan_slice hscan hall (hbehind _) hfirst hlast
  obtain ⟨found, rest, hfound, hrest, hsame⟩ :=
    hnode.reads_alone hshift rfl (Cursor.tokens_ofTokens_scan halone)
  rw [← byteLength_toList, hsource] at hsize
  refine ⟨left, slice, right, _, found, rest, hsource, ?_, ?_, halone, hfound, hrest, ?_⟩
  · rw [hspan, hstart]
    rw [List.append_assoc] at hsize
    exact Position.at_ofOffset hsize
  · rw [hspan, hstop]
    exact Position.at_ofOffset hsize
  · rw [hspan, hstart]
    exact hsame

/-- The percent sign stands before a minus, and a comment stands inside the product. -/
theorem Program.spans_cut_expressions_product :
    let source := "x = a % -b * // c\n g(1);"
    let within (start stop : UInt32) : Span := ⟨⟨start, "f"⟩, ⟨stop, "f"⟩⟩
    let node : Expr := .binary (.symbol "b" (within 9 10)) ⟨.star, "*", within 11 12⟩
      (.call "g" [.number "1" (within 21 22)] (within 19 23)) (within 9 23)
    ∃ tokens program, source.utf8ByteSize < UInt32.size ∧ Token.scan source "f" = .ok tokens ∧
      ofTokens tokens "f" = .ok program ∧ node ∈ program.nodes ∧
      node.ReadsAlone source "f" ∧ node.Nested := by
  intro source within node
  have hsize : source.utf8ByteSize < UInt32.size := by decide
  obtain ⟨tokens, hscan, htokens⟩ : ∃ tokens, Token.scan source "f" = .ok tokens ∧
      tokens = Token.ofLexemes "f" 0
      [⟨.token .identifier, ['x']⟩, ⟨.blank, [' ']⟩, ⟨.token .assignment, ['=']⟩,
        ⟨.blank, [' ']⟩, ⟨.token .identifier, ['a']⟩, ⟨.blank, [' ']⟩,
        ⟨.token .percent, ['%']⟩, ⟨.blank, [' ']⟩, ⟨.token .dash, ['-']⟩,
        ⟨.token .identifier, ['b']⟩, ⟨.blank, [' ']⟩, ⟨.token .star, ['*']⟩, ⟨.blank, [' ']⟩,
        ⟨.comment, "// c".toList⟩, ⟨.blank, "\n ".toList⟩, ⟨.token .identifier, ['g']⟩,
        ⟨.token .openParen, ['(']⟩, ⟨.token .number, ['1']⟩, ⟨.token .closeParen, [')']⟩,
        ⟨.token .semicolon, [';']⟩] := by
    refine ⟨_, ?_, rfl⟩
    change Token.scan "x = a % -b * // c\n g(1);" "f" = _
    exact Token.scan_of_cut "f" <| Lexeme.cut_of_next? rfl <| Lexeme.cut_of_next? rfl <|
      Lexeme.cut_of_next? rfl <| Lexeme.cut_of_next? rfl <| Lexeme.cut_of_next? rfl <|
      Lexeme.cut_of_next? rfl <| Lexeme.cut_of_next? rfl <| Lexeme.cut_of_next? rfl <|
      Lexeme.cut_of_next? rfl <| Lexeme.cut_of_next? rfl <| Lexeme.cut_of_next? rfl <|
      Lexeme.cut_of_next? rfl <| Lexeme.cut_of_next? rfl <| Lexeme.cut_of_next? rfl <|
      Lexeme.cut_of_next? rfl <| Lexeme.cut_of_next? rfl <| Lexeme.cut_of_next? rfl <|
      Lexeme.cut_of_next? rfl <| Lexeme.cut_of_next? rfl <| Lexeme.cut_of_next? rfl Lexeme.cut_nil
  obtain ⟨program, hread, hnode⟩ : ∃ program, ofTokens tokens "f" = .ok program ∧
      node ∈ program.nodes := by
    subst htokens
    refine ⟨⟨[.define "x" (.binary (.percent (.symbol "a" (within 4 5)) (within 4 7))
      ⟨.dash, "-", within 8 9⟩ node (within 4 23)) (within 0 24)], within 0 24⟩, rfl, ?_⟩
    simp [node, nodes, expressions, Stmt.expressions, Stmt.expressionsAll, Expr.nodes]
  exact ⟨tokens, program, hsize, hscan, hread, hnode,
    spans_cut_expressions hsize hscan hread node hnode⟩

end Coroscript
