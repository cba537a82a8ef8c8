import Coroscript.Proofs.Grammar.Programs
import Coroscript.Proofs.Token.Slices
import Coroscript.Proofs.Tree.Nodes

namespace Coroscript

/-! Every expression that is read has the span of its words. -/

mutual

/-- `Located tree words`: `words` are the tokens of `tree`, and the spans of the tree and of all
its parts run from the first to the last of their words. -/
inductive Located : Expr → List Token → Prop
  | number {word : Token} (hword : word.kind = .number) :
      Located (.number word.value word.span) [word]
  | symbol {word : Token} (hword : word.kind = .identifier) :
      Located (.symbol word.value word.span) [word]
  | string {word : Token} (hword : word.kind = .string) :
      Located (.string (Literal.bytes word.value) word.span) [word]
  | binary {left right : Expr} {sign : Token} {leftWords rightWords : List Token}
      (hleft : Located left leftWords) (hright : Located right rightWords) :
      Located (.binary left sign right ⟨left.span.start, right.span.stop⟩)
        (leftWords ++ sign :: rightWords)
  | unary {sign : Token} {operand : Expr} {words : List Token} (hoperand : Located operand words) :
      Located (.unary sign operand ⟨sign.span.start, operand.span.stop⟩) (sign :: words)
  | percent {operand : Expr} {words : List Token} {sign : Token}
      (hoperand : Located operand words) (hsign : sign.kind = .percent) :
      Located (.percent operand ⟨operand.span.start, sign.span.stop⟩) (words ++ [sign])
  | grouping {opening closing : Token} {inner : Expr} {words : List Token}
      (hopening : opening.kind = .openParen) (hinner : Located inner words)
      (hclosing : closing.kind = .closeParen) :
      Located (.grouping inner ⟨opening.span.start, closing.span.stop⟩)
        (opening :: words ++ [closing])
  | conversion {keyword opening closing : Token} {target : NumericType} {value : Expr}
      {words : List Token} (hkeyword : keyword.kind = target.keyword)
      (hopening : opening.kind = .openParen) (hvalue : Located value words)
      (hclosing : closing.kind = .closeParen) :
      Located (.conversion target value ⟨keyword.span.start, closing.span.stop⟩)
        (keyword :: opening :: words ++ [closing])
  | call {callee : Token} {arguments : List Expr} {words : List Token} {stop : Position}
      (hcallee : callee.kind = .identifier) (harguments : LocatedArguments arguments words stop) :
      Located (.call callee.value arguments ⟨callee.span.start, stop⟩) (callee :: words)
  | next {keyword : Token} {coroutine : Expr} {words : List Token}
      (hkeyword : keyword.kind = .keyNext) (hcoroutine : Located coroutine words) :
      Located (.next coroutine ⟨keyword.span.start, coroutine.span.stop⟩) (keyword :: words)
  | create {keyword : Token} {callee : String} {arguments : List Expr} {callSpan : Span}
      {words : List Token} (hkeyword : keyword.kind = .keyCreateCoroutine)
      (hcall : Located (.call callee arguments callSpan) words) :
      Located (.create callee arguments callSpan ⟨keyword.span.start, callSpan.stop⟩)
        (keyword :: words)

/-- The arguments of a call with their parentheses, which end at `stop`. -/
inductive LocatedArguments : List Expr → List Token → Position → Prop
  | empty {opening closing : Token} (hopening : opening.kind = .openParen)
      (hclosing : closing.kind = .closeParen) :
      LocatedArguments [] [opening, closing] closing.span.stop
  | items {opening closing : Token} {arguments : List Expr} {words : List Token}
      (hopening : opening.kind = .openParen) (harguments : LocatedSeparated arguments words)
      (hclosing : closing.kind = .closeParen) :
      LocatedArguments arguments (opening :: words ++ [closing]) closing.span.stop

inductive LocatedSeparated : List Expr → List Token → Prop
  | last {tree : Expr} {words : List Token} (htree : Located tree words) :
      LocatedSeparated [tree] words
  | cons {tree : Expr} {trees : List Expr} {words others : List Token} {comma : Token}
      (htree : Located tree words) (hcomma : comma.kind = .comma)
      (htrees : LocatedSeparated trees others) :
      LocatedSeparated (tree :: trees) (words ++ comma :: others)

end

mutual

theorem Located.renders :
    ∀ {tree : Expr} {words : List Token}, Located tree words → Renders tree words
  | _, _, .number hword => .number _ hword
  | _, _, .symbol hword => .symbol _ hword
  | _, _, .string hword => .string _ hword
  | _, _, .binary hleft hright => .binary _ ⟨rfl, rfl⟩ hleft.renders hright.renders
  | _, _, .unary hoperand => .unary _ ⟨rfl, rfl⟩ hoperand.renders
  | _, _, .percent hoperand hsign => .percent _ hoperand.renders hsign
  | _, _, .grouping hopening hinner hclosing => .grouping _ hopening hinner.renders hclosing
  | _, _, .conversion hkeyword hopening hvalue hclosing =>
      .conversion _ hkeyword hopening hvalue.renders hclosing
  | _, _, .call hcallee harguments => .call _ hcallee harguments.renders
  | _, _, .next hkeyword hcoroutine => .next _ hkeyword hcoroutine.renders
  | _, _, .create hkeyword hcall => by
      cases hcall.renders with
      | call _ hcallee harguments => exact .create _ _ hkeyword hcallee harguments

theorem LocatedArguments.renders :
    ∀ {arguments : List Expr} {words : List Token} {stop : Position},
      LocatedArguments arguments words stop → RendersArguments arguments words
  | _, _, _, .empty hopening hclosing => .empty hopening hclosing
  | _, _, _, .items hopening harguments hclosing => .items hopening harguments.renders hclosing

theorem LocatedSeparated.renders :
    ∀ {trees : List Expr} {words : List Token}, LocatedSeparated trees words →
      RendersSeparated trees words
  | _, _, .last htree => .last htree.renders
  | _, _, .cons htree hcomma htrees => .cons htree.renders hcomma htrees.renders

end

/-! The first and the last word. -/

theorem LocatedArguments.getLast? {arguments : List Expr} {words : List Token} {stop : Position}
    (harguments : LocatedArguments arguments words stop) :
    ∃ last, words.getLast? = some last ∧ last.span.stop = stop := by
  cases harguments with
  | empty _ _ => exact ⟨_, rfl, rfl⟩
  | items _ _ _ => exact ⟨_, List.getLast?_concat, rfl⟩

theorem Located.ends {tree : Expr} {words : List Token} (htree : Located tree words) :
    ∃ first last, words.head? = some first ∧ words.getLast? = some last ∧
      tree.span = ⟨first.span.start, last.span.stop⟩ := by
  cases htree with
  | number | symbol | string => exact ⟨_, _, rfl, rfl, rfl⟩
  | binary hleft hright =>
      obtain ⟨first, _, hfirst, -, hleft⟩ := hleft.ends
      obtain ⟨_, last, -, hlast, hright⟩ := hright.ends
      refine ⟨first, last, by simp [hfirst], by simp [List.getLast?_cons, hlast], ?_⟩
      rw [Expr.span, hleft, hright]
  | unary hoperand =>
      obtain ⟨_, last, -, hlast, hspan⟩ := hoperand.ends
      exact ⟨_, last, rfl, by simp [List.getLast?_cons, hlast], by rw [Expr.span, hspan]⟩
  | percent hoperand _ =>
      obtain ⟨first, _, hfirst, -, hspan⟩ := hoperand.ends
      exact ⟨first, _, by simp [hfirst], List.getLast?_concat, by rw [Expr.span, hspan]⟩
  | grouping _ _ _ => exact ⟨_, _, rfl, List.getLast?_concat, rfl⟩
  | conversion _ _ _ _ => exact ⟨_, _, rfl, List.getLast?_concat, rfl⟩
  | call _ harguments =>
      obtain ⟨last, hlast, hstop⟩ := harguments.getLast?
      exact ⟨_, last, rfl, by simp [List.getLast?_cons, hlast], by rw [Expr.span, hstop]⟩
  | next _ hcoroutine =>
      obtain ⟨_, last, -, hlast, hspan⟩ := hcoroutine.ends
      exact ⟨_, last, rfl, by simp [List.getLast?_cons, hlast], by rw [Expr.span, hspan]⟩
  | create _ hcall =>
      obtain ⟨_, last, -, hlast, hspan⟩ := hcall.ends
      rw [Expr.span] at hspan
      exact ⟨_, last, rfl, by simp [List.getLast?_cons, hlast], by rw [Expr.span, hspan]⟩
termination_by tree
decreasing_by all_goals exact Expr.sizeOf_lt_of_mem_children (by simp [Expr.children])

/-! Trees that stand one behind the other. -/

/-- The words of each tree stand among `words`, in the order of the trees. There may be other
words before, between and behind them. -/
inductive InOrder (places : Expr → List Token → Prop) : List Expr → List Token → Prop
  | nil (words : List Token) : InOrder places [] words
  | cons {tree : Expr} {trees : List Expr} {words rest : List Token} (gap : List Token)
      (htree : places tree words) (htrees : InOrder places trees rest) :
      InOrder places (tree :: trees) (gap ++ words ++ rest)

namespace InOrder

variable {places : Expr → List Token → Prop} {tree : Expr} {trees others : List Expr}
  {words more : List Token}

theorem single (htree : places tree words) : InOrder places [tree] words := by
  have hcons := InOrder.cons [] htree (.nil [])
  rwa [List.append_nil] at hcons

theorem behind (htrees : InOrder places trees words) (more : List Token) :
    InOrder places trees (more ++ words) := by
  cases htrees with
  | nil => exact .nil _
  | cons gap htree htrees =>
      rw [← List.append_assoc, ← List.append_assoc]
      exact .cons _ htree htrees

theorem append (htrees : InOrder places trees words) (hothers : InOrder places others more) :
    InOrder places (trees ++ others) (words ++ more) := by
  induction htrees with
  | nil => exact hothers.behind _
  | cons gap htree _ ih =>
      rw [List.cons_append, List.append_assoc]
      exact .cons gap htree ih

theorem within (htrees : InOrder places trees words) (hwords : words <:+: more) :
    InOrder places trees more := by
  obtain ⟨before, after, rfl⟩ := hwords
  have hafter := (htrees.behind before).append (.nil after)
  rwa [List.append_nil] at hafter

theorem exists_words (htrees : InOrder places trees words) (htree : tree ∈ trees) :
    ∃ part, part <:+: words ∧ places tree part := by
  induction htrees with
  | nil => contradiction
  | cons gap hfirst _ ih =>
      rcases List.mem_cons.1 htree with rfl | htree
      · exact ⟨_, List.infix_append _ _ _, hfirst⟩
      · obtain ⟨part, hpart, hplace⟩ := ih htree
        exact ⟨part, hpart.trans (List.suffix_append _ _).isInfix, hplace⟩

end InOrder

theorem LocatedSeparated.inOrder :
    ∀ {trees : List Expr} {words : List Token}, LocatedSeparated trees words →
      InOrder Located trees words
  | _, _, .last htree => .single htree
  | _, _, .cons htree _ htrees => (InOrder.single htree).append (htrees.inOrder.behind [_])

theorem LocatedArguments.inOrder {arguments : List Expr} {words : List Token} {stop : Position}
    (harguments : LocatedArguments arguments words stop) : InOrder Located arguments words := by
  cases harguments with
  | empty _ _ => exact .nil _
  | items _ harguments _ => exact harguments.inOrder.within ⟨[_], [_], rfl⟩

/-- The parts of an expression stand among its words from left to right. -/
theorem Located.children {tree : Expr} {words : List Token} (htree : Located tree words) :
    InOrder Located tree.children words := by
  cases htree with
  | number | symbol | string => exact .nil _
  | binary hleft hright =>
      exact (InOrder.single hleft).append ((InOrder.single hright).behind [_])
  | unary hoperand => exact (InOrder.single hoperand).behind [_]
  | percent hoperand _ => exact (InOrder.single hoperand).within ⟨[], [_], rfl⟩
  | grouping _ hinner _ => exact (InOrder.single hinner).within ⟨[_], [_], rfl⟩
  | conversion _ _ hvalue _ => exact (InOrder.single hvalue).within ⟨[_, _], [_], rfl⟩
  | call _ harguments => exact harguments.inOrder.behind [_]
  | next _ hcoroutine => exact (InOrder.single hcoroutine).behind [_]
  | create _ hcall => exact (InOrder.single hcall).behind [_]

/-! Trees and words that are moved in the source. -/

namespace Expr

mutual

def shift (amount : UInt32) : Expr → Expr
  | .number text span => .number text (span.shift amount)
  | .symbol name span => .symbol name (span.shift amount)
  | .string bytes span => .string bytes (span.shift amount)
  | .binary left operator right span =>
      .binary (left.shift amount) (operator.shift amount) (right.shift amount) (span.shift amount)
  | .unary operator operand span =>
      .unary (operator.shift amount) (operand.shift amount) (span.shift amount)
  | .percent operand span => .percent (operand.shift amount) (span.shift amount)
  | .grouping inner span => .grouping (inner.shift amount) (span.shift amount)
  | .conversion target value span => .conversion target (value.shift amount) (span.shift amount)
  | .call callee arguments span => .call callee (shiftAll amount arguments) (span.shift amount)
  | .next coroutine span => .next (coroutine.shift amount) (span.shift amount)
  | .create callee arguments callSpan span =>
      .create callee (shiftAll amount arguments) (callSpan.shift amount) (span.shift amount)

def shiftAll (amount : UInt32) : List Expr → List Expr
  | [] => []
  | first :: others => first.shift amount :: shiftAll amount others

end

theorem span_shift (amount : UInt32) (tree : Expr) :
    (tree.shift amount).span = tree.span.shift amount := by
  cases tree <;> simp only [shift, span]

end Expr

theorem Token.shift_neg (amount : UInt32) (token : Token) :
    (token.shift amount).shift (-amount) = token := by
  simp only [shift, Span.shift, Position.shift, UInt32.add_assoc, UInt32.add_right_neg,
    UInt32.add_zero]

mutual

/-- Where the words stand does not matter to what they render. -/
theorem Renders.shift (amount : UInt32) :
    ∀ {tree : Expr} {words : List Token}, Renders tree words →
      Renders tree (words.map (Token.shift amount))
  | _, _, .number span hword => @Renders.number (Token.shift amount _) span hword
  | _, _, .symbol span hword => @Renders.symbol (Token.shift amount _) span hword
  | _, _, .string span hword => @Renders.string (Token.shift amount _) span hword
  | _, _, .binary span hsame hleft hright => by
      rw [List.map_append, List.map_cons]
      exact .binary span ⟨hsame.1, hsame.2⟩ (hleft.shift amount) (hright.shift amount)
  | _, _, .unary span hsame hoperand => .unary span ⟨hsame.1, hsame.2⟩ (hoperand.shift amount)
  | _, _, .percent span hoperand hsign => by
      rw [List.map_append]
      exact .percent span (hoperand.shift amount) hsign
  | _, _, .grouping span hopening hinner hclosing => by
      rw [List.cons_append, List.map_cons, List.map_append]
      exact .grouping span hopening (hinner.shift amount) hclosing
  | _, _, .conversion span hkeyword hopening hvalue hclosing => by
      rw [List.cons_append, List.cons_append, List.map_cons, List.map_cons, List.map_append]
      exact .conversion span hkeyword hopening (hvalue.shift amount) hclosing
  | _, _, .call span hcallee harguments =>
      @Renders.call (Token.shift amount _) _ _ span hcallee (harguments.shift amount)
  | _, _, .next span hkeyword hcoroutine => .next span hkeyword (hcoroutine.shift amount)
  | _, _, .create callSpan span hkeyword hcallee harguments =>
      @Renders.create (Token.shift amount _) (Token.shift amount _) _ _ callSpan span hkeyword
        hcallee (harguments.shift amount)

theorem RendersArguments.shift (amount : UInt32) :
    ∀ {arguments : List Expr} {words : List Token}, RendersArguments arguments words →
      RendersArguments arguments (words.map (Token.shift amount))
  | _, _, .empty hopening hclosing => .empty hopening hclosing
  | _, _, .items hopening harguments hclosing => by
      rw [List.cons_append, List.map_cons, List.map_append]
      exact .items hopening (harguments.shift amount) hclosing

theorem RendersSeparated.shift (amount : UInt32) :
    ∀ {trees : List Expr} {words : List Token}, RendersSeparated trees words →
      RendersSeparated trees (words.map (Token.shift amount))
  | _, _, .last htree => .last (htree.shift amount)
  | _, _, .cons htree hcomma htrees => by
      rw [List.map_append, List.map_cons]
      exact .cons (htree.shift amount) hcomma (htrees.shift amount)

end

mutual

/-- Trees that differ in spans only, on words that differ in places only, differ as the words do.
The words may be followed by others, so that the parts of a tree divide them. -/
theorem Located.shift_eq {amount : UInt32} :
    ∀ {tree other : Expr} {words others rest more : List Token}, Located tree words →
      Located other others → tree.unspanned = other.unspanned →
      (words ++ rest).map (Token.shift amount) = others ++ more →
      tree.shift amount = other ∧ rest.map (Token.shift amount) = more
  | _, _, _, _, _, _, .number _, hother, hsame, hwords => by
      cases hother with
      | number _ =>
          obtain ⟨rfl, hrest⟩ := List.cons.inj hwords
          exact ⟨rfl, hrest⟩
      | _ => simp [Expr.unspanned] at hsame
  | _, _, _, _, _, _, .symbol _, hother, hsame, hwords => by
      cases hother with
      | symbol _ =>
          obtain ⟨rfl, hrest⟩ := List.cons.inj hwords
          exact ⟨rfl, hrest⟩
      | _ => simp [Expr.unspanned] at hsame
  | _, _, _, _, _, _, .string _, hother, hsame, hwords => by
      cases hother with
      | string _ =>
          obtain ⟨rfl, hrest⟩ := List.cons.inj hwords
          exact ⟨rfl, hrest⟩
      | _ => simp [Expr.unspanned] at hsame
  | _, _, _, _, _, _, .binary hleft hright, hother, hsame, hwords => by
      cases hother with
      | binary hleft' hright' =>
          simp only [Expr.unspanned, Expr.binary.injEq] at hsame
          rw [List.append_assoc, List.append_assoc] at hwords
          obtain ⟨rfl, hsign⟩ := hleft.shift_eq hleft' hsame.1 hwords
          obtain ⟨rfl, hbehind⟩ := List.cons.inj hsign
          obtain ⟨rfl, hrest⟩ := hright.shift_eq hright' hsame.2.2.1 hbehind
          simp only [Expr.shift, Expr.span_shift]
          exact ⟨rfl, hrest⟩
      | _ => simp [Expr.unspanned] at hsame
  | _, _, _, _, _, _, .unary hoperand, hother, hsame, hwords => by
      cases hother with
      | unary hoperand' =>
          simp only [Expr.unspanned, Expr.unary.injEq] at hsame
          obtain ⟨rfl, hbehind⟩ := List.cons.inj hwords
          obtain ⟨rfl, hrest⟩ := hoperand.shift_eq hoperand' hsame.2.1 hbehind
          simp only [Expr.shift, Expr.span_shift]
          exact ⟨rfl, hrest⟩
      | _ => simp [Expr.unspanned] at hsame
  | _, _, _, _, _, _, .percent hoperand _, hother, hsame, hwords => by
      cases hother with
      | percent hoperand' _ =>
          simp only [Expr.unspanned, Expr.percent.injEq] at hsame
          rw [List.append_assoc, List.append_assoc] at hwords
          obtain ⟨rfl, hbehind⟩ := hoperand.shift_eq hoperand' hsame.1 hwords
          obtain ⟨rfl, hrest⟩ := List.cons.inj hbehind
          simp only [Expr.shift, Expr.span_shift]
          exact ⟨rfl, hrest⟩
      | _ => simp [Expr.unspanned] at hsame
  | _, _, _, _, _, _, .grouping _ hinner _, hother, hsame, hwords => by
      cases hother with
      | grouping _ hinner' _ =>
          simp only [Expr.unspanned, Expr.grouping.injEq] at hsame
          rw [List.append_assoc, List.append_assoc] at hwords
          obtain ⟨rfl, hbehind⟩ := List.cons.inj hwords
          obtain ⟨rfl, hclosing⟩ := hinner.shift_eq hinner' hsame.1 hbehind
          obtain ⟨rfl, hrest⟩ := List.cons.inj hclosing
          exact ⟨rfl, hrest⟩
      | _ => simp [Expr.unspanned] at hsame
  | _, _, _, _, _, _, .conversion _ _ hvalue _, hother, hsame, hwords => by
      cases hother with
      | conversion _ _ hvalue' _ =>
          simp only [Expr.unspanned, Expr.conversion.injEq] at hsame
          obtain ⟨rfl, hvalues, -⟩ := hsame
          rw [List.append_assoc, List.append_assoc] at hwords
          obtain ⟨rfl, hopening⟩ := List.cons.inj hwords
          obtain ⟨rfl, hbehind⟩ := List.cons.inj hopening
          obtain ⟨rfl, hclosing⟩ := hvalue.shift_eq hvalue' hvalues hbehind
          obtain ⟨rfl, hrest⟩ := List.cons.inj hclosing
          exact ⟨rfl, hrest⟩
      | _ => simp [Expr.unspanned] at hsame
  | _, _, _, _, _, _, .call _ harguments, hother, hsame, hwords => by
      cases hother with
      | call _ harguments' =>
          simp only [Expr.unspanned, Expr.call.injEq] at hsame
          obtain ⟨rfl, hbehind⟩ := List.cons.inj hwords
          obtain ⟨rfl, rfl, hrest⟩ := harguments.shift_eq harguments' hsame.2.1 hbehind
          exact ⟨rfl, hrest⟩
      | _ => simp [Expr.unspanned] at hsame
  | _, _, _, _, _, _, .next _ hcoroutine, hother, hsame, hwords => by
      cases hother with
      | next _ hcoroutine' =>
          simp only [Expr.unspanned, Expr.next.injEq] at hsame
          obtain ⟨rfl, hbehind⟩ := List.cons.inj hwords
          obtain ⟨rfl, hrest⟩ := hcoroutine.shift_eq hcoroutine' hsame.1 hbehind
          simp only [Expr.shift, Expr.span_shift]
          exact ⟨rfl, hrest⟩
      | _ => simp [Expr.unspanned] at hsame
  | _, _, _, _, _, _, .create _ hcall, hother, hsame, hwords => by
      cases hother with
      | create _ hcall' =>
          simp only [Expr.unspanned, Expr.create.injEq] at hsame
          obtain ⟨rfl, hbehind⟩ := List.cons.inj hwords
          obtain ⟨hcalls, hrest⟩ := hcall.shift_eq hcall'
            (by simp only [Expr.unspanned, hsame.1, hsame.2.1]) hbehind
          cases hcalls
          exact ⟨rfl, hrest⟩
      | _ => simp [Expr.unspanned] at hsame

theorem LocatedArguments.shift_eq {amount : UInt32} :
    ∀ {trees others : List Expr} {words words' rest more : List Token} {stop stop' : Position},
      LocatedArguments trees words stop → LocatedArguments others words' stop' →
      Expr.unspannedAll trees = Expr.unspannedAll others →
      (words ++ rest).map (Token.shift amount) = words' ++ more →
      Expr.shiftAll amount trees = others ∧ stop.shift amount = stop' ∧
        rest.map (Token.shift amount) = more
  | _, _, _, _, _, _, _, _, .empty _ _, hothers, hsame, hwords => by
      cases hothers with
      | empty _ _ =>
          obtain ⟨-, hclosing⟩ := List.cons.inj hwords
          obtain ⟨rfl, hrest⟩ := List.cons.inj hclosing
          exact ⟨rfl, rfl, hrest⟩
      | items _ hothers _ => cases hothers <;> simp [Expr.unspannedAll] at hsame
  | _, _, _, _, _, _, _, _, .items _ htrees _, hothers, hsame, hwords => by
      cases hothers with
      | empty _ _ => cases htrees <;> simp [Expr.unspannedAll] at hsame
      | items _ hothers _ =>
          rw [List.append_assoc, List.append_assoc] at hwords
          obtain ⟨-, hbehind⟩ := List.cons.inj hwords
          obtain ⟨rfl, hclosing⟩ := htrees.shift_eq hothers hsame hbehind
          obtain ⟨rfl, hrest⟩ := List.cons.inj hclosing
          exact ⟨rfl, rfl, hrest⟩

theorem LocatedSeparated.shift_eq {amount : UInt32} :
    ∀ {trees others : List Expr} {words words' rest more : List Token},
      LocatedSeparated trees words → LocatedSeparated others words' →
      Expr.unspannedAll trees = Expr.unspannedAll others →
      (words ++ rest).map (Token.shift amount) = words' ++ more →
      Expr.shiftAll amount trees = others ∧ rest.map (Token.shift amount) = more
  | _, _, _, _, _, _, .last htree, hothers, hsame, hwords => by
      cases hothers with
      | last htree' =>
          simp only [Expr.unspannedAll, List.cons.injEq] at hsame
          obtain ⟨rfl, hrest⟩ := htree.shift_eq htree' hsame.1 hwords
          exact ⟨rfl, hrest⟩
      | cons _ _ hothers => cases hothers <;> simp [Expr.unspannedAll] at hsame
  | _, _, _, _, _, _, .cons htree _ htrees, hothers, hsame, hwords => by
      cases hothers with
      | last _ => cases htrees <;> simp [Expr.unspannedAll] at hsame
      | cons htree' _ hothers =>
          simp only [Expr.unspannedAll, List.cons.injEq] at hsame
          rw [List.append_assoc, List.append_assoc] at hwords
          obtain ⟨rfl, hcomma⟩ := htree.shift_eq htree' hsame.1 hwords
          obtain ⟨-, hbehind⟩ := List.cons.inj hcomma
          obtain ⟨rfl, hrest⟩ := htrees.shift_eq hothers hsame.2 hbehind
          exact ⟨rfl, hrest⟩

end

end Coroscript
