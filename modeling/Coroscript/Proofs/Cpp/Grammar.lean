namespace Coroscript.Cpp

/-! How the words of an output expression group. Operators of one level group to
the left; the levels are those of the C++ grammar. -/

inductive Word where
  | name (text : String)
  | keyword (text : String)
  | number (text : String)
  | string (text : String)
  | mark (text : String)
deriving DecidableEq, Repr

inductive Term where
  | name (text : String)
  | qualified (space text : String)
  | number (text : String)
  | string (text : String)
  | unary (operator : String) (operand : Term)
  | binary (operator : String) (left right : Term)
  | call (function : Term) (arguments : List Term)
  | member (object : Term) (field : String)
  | cast (target : String) (value : Term)

def signs : List String :=
  ["+", "-", "!", "~", "*", "&", "++", "--"]

/-- The operators between two operands, by level. Level 0 holds what is followed by
its arguments or its members, level 1 what has a sign before it. -/
def operators : Nat → List String
  | 2 => ["*", "/", "%"]
  | 3 => ["+", "-"]
  | 4 => ["<<", ">>"]
  | 5 => ["<", "<=", ">", ">="]
  | 6 => ["==", "!="]
  | 7 => ["&"]
  | 8 => ["^"]
  | 9 => ["|"]
  | 10 => ["&&"]
  | 11 => ["||"]
  | _ => []

def loosest : Nat :=
  11

mutual

/-- `Derives level term words`: the words are an expression of `level`, and `term`
is how they group. -/
inductive Derives : Nat → Term → List Word → Prop
  | followed {head term : Term} {words more : List Word} (hhead : Primary head words)
      (hmore : Follows head term more) : Derives 0 term (words ++ more)
  | signed {operator : String} {operand : Term} {words : List Word}
      (hoperator : operator ∈ signs) (hoperand : Derives 1 operand words) :
      Derives 1 (.unary operator operand) (.mark operator :: words)
  | plain {term : Term} {words : List Word} (hterm : Derives 0 term words) :
      Derives 1 term words
  | operation {level : Nat} {head term : Term} {words more : List Word}
      (hhead : Derives (level + 1) head words) (hmore : Operates (level + 1) head term more) :
      Derives (level + 2) term (words ++ more)

inductive Primary : Term → List Word → Prop
  | name (text : String) : Primary (.name text) [.name text]
  | qualified (space text : String) :
      Primary (.qualified space text) [.name space, .mark "::", .name text]
  | number (text : String) : Primary (.number text) [.number text]
  | string (text : String) : Primary (.string text) [.string text]
  | grouping {term : Term} {words : List Word} (hterm : Derives loosest term words) :
      Primary term (.mark "(" :: words ++ [.mark ")"])
  | cast {target : String} {value : Term} {words : List Word}
      (hvalue : Derives loosest value words) :
      Primary (.cast target value)
        (.keyword "static_cast" :: .mark "<" :: .keyword target :: .mark ">" :: .mark "(" ::
          words ++ [.mark ")"])

inductive Follows : Term → Term → List Word → Prop
  | none {head : Term} : Follows head head []
  | call {head term : Term} {arguments : List Term} {words more : List Word}
      (harguments : Arguments arguments words) (hmore : Follows (.call head arguments) term more) :
      Follows head term (words ++ more)
  | member {head term : Term} {field : String} {more : List Word}
      (hmore : Follows (.member head field) term more) :
      Follows head term (.mark "." :: .name field :: more)

/-- `Operates level left term words`: the words go on behind `left` with operators
whose right operands are of `level`, and make it `term`. -/
inductive Operates : Nat → Term → Term → List Word → Prop
  | none {level : Nat} {left : Term} : Operates level left left []
  | cons {level : Nat} {operator : String} {left right term : Term} {words more : List Word}
      (hoperator : operator ∈ operators (level + 1)) (hright : Derives level right words)
      (hmore : Operates level (.binary operator left right) term more) :
      Operates level left term (.mark operator :: words ++ more)

inductive Arguments : List Term → List Word → Prop
  | empty : Arguments [] [.mark "(", .mark ")"]
  | items {terms : List Term} {words : List Word} (hterms : Separated terms words) :
      Arguments terms (.mark "(" :: words ++ [.mark ")"])

inductive Separated : List Term → List Word → Prop
  | last {term : Term} {words : List Word} (hterm : Derives loosest term words) :
      Separated [term] words
  | cons {term : Term} {terms : List Term} {words others : List Word}
      (hterm : Derives loosest term words) (hterms : Separated terms others) :
      Separated (term :: terms) (words ++ .mark "," :: others)

end

/-! The first word of an expression. -/

theorem Primary.words_eq_cons {term : Term} {words : List Word} (hterm : Primary term words) :
    ∃ first rest, words = first :: rest ∧ ∀ text, first = .mark text → text = "(" := by
  cases hterm with
  | grouping hterm => exact ⟨_, _, rfl, fun text htext => (Word.mark.inj htext).symm⟩
  | _ => exact ⟨_, _, rfl, fun text htext => by contradiction⟩

theorem Derives.words_eq_cons :
    ∀ {level : Nat} {term : Term} {words : List Word}, Derives level term words →
      ∃ first rest, words = first :: rest ∧
        ∀ text, first = .mark text → text = "(" ∨ (text ∈ signs ∧ level ≠ 0)
  | _, _, _, .followed hhead _ => by
      obtain ⟨first, rest, rfl, hfirst⟩ := hhead.words_eq_cons
      exact ⟨first, _, rfl, fun text htext => .inl (hfirst text htext)⟩
  | _, _, _, .signed hoperator _ =>
      ⟨_, _, rfl, fun text htext => .inr ⟨Word.mark.inj htext ▸ hoperator, by decide⟩⟩
  | _, _, _, .plain hterm => by
      obtain ⟨first, rest, rfl, hfirst⟩ := hterm.words_eq_cons
      refine ⟨first, _, rfl, fun text htext => ?_⟩
      rcases hfirst text htext with hopen | ⟨_, hzero⟩
      · exact .inl hopen
      · contradiction
  | _, _, _, .operation hhead _ => by
      obtain ⟨first, rest, rfl, hfirst⟩ := hhead.words_eq_cons
      refine ⟨first, _, rfl, fun text htext => ?_⟩
      rcases hfirst text htext with hopen | ⟨hsign, _⟩
      · exact .inl hopen
      · exact .inr ⟨hsign, by omega⟩

theorem Arguments.words_eq_cons {terms : List Term} {words : List Word}
    (hterms : Arguments terms words) : ∃ rest, words = .mark "(" :: rest := by
  cases hterms with
  | empty => exact ⟨_, rfl⟩
  | items _ => exact ⟨_, rfl⟩

theorem Separated.words_eq_cons {terms : List Term} {words : List Word}
    (hterms : Separated terms words) :
    ∃ first rest, words = first :: rest ∧ first ≠ .mark ")" := by
  have hne : ∀ {term : Term} {words : List Word}, Derives loosest term words →
      ∃ first rest, words = first :: rest ∧ first ≠ .mark ")" := by
    intro term words hterm
    obtain ⟨first, rest, rfl, hfirst⟩ := hterm.words_eq_cons
    refine ⟨first, rest, rfl, fun hclosing => ?_⟩
    rcases hfirst _ hclosing with hopen | ⟨hsign, _⟩
    · contradiction
    · exact absurd hsign (by decide)
  cases hterms with
  | last hterm => exact hne hterm
  | cons hterm _ =>
      obtain ⟨first, rest, rfl, hfirst⟩ := hne hterm
      exact ⟨first, _, rfl, hfirst⟩

/-! Words that end an expression. -/

def Word.Continues (level : Nat) : Word → Prop
  | .mark text => text ∈ ["(", ".", "::"] ∨ ∃ tighter ≤ level, text ∈ operators tighter
  | _ => False

theorem continues_operator {level : Nat} {operator : String}
    (hoperator : operator ∈ operators level) : (Word.mark operator).Continues level :=
  .inr ⟨level, Nat.le_refl level, hoperator⟩

def Stops (level : Nat) (rest : List Word) : Prop :=
  ∀ word ∈ rest.head?, ¬ word.Continues level

theorem Stops.tighter {level tighter : Nat} {rest : List Word} (hlevel : tighter ≤ level)
    (hstops : Stops level rest) : Stops tighter rest := by
  intro word hword hcontinues
  refine hstops word hword ?_
  cases word with
  | mark text =>
      rcases hcontinues with hmark | ⟨other, hother, hoperator⟩
      · exact .inl hmark
      · exact .inr ⟨other, Nat.le_trans hother hlevel, hoperator⟩
  | _ => exact hcontinues

theorem not_mem_operators {level : Nat} {text : String}
    (htext : text ∈ ["(", ".", "::", ")", ","]) : text ∉ operators level := by
  simp only [List.mem_cons, List.not_mem_nil, or_false] at htext
  unfold operators
  rcases htext with rfl | rfl | rfl | rfl | rfl <;> split <;> decide

theorem stops_closing {level : Nat} {text : String} {rest : List Word}
    (htext : text = ")" ∨ text = ",") : Stops level (.mark text :: rest) := by
  rintro _ ⟨⟩ hcontinues
  rcases hcontinues with hmark | ⟨tighter, -, hoperator⟩
  · rcases htext with rfl | rfl <;> contradiction
  · refine not_mem_operators ?_ hoperator
    rcases htext with rfl | rfl <;> decide

theorem operators_disjoint {left right : Nat} {text : String} (hleft : text ∈ operators left)
    (hright : text ∈ operators right) : left = right := by
  unfold operators at hleft
  split at hleft <;> simp only [List.mem_cons, List.not_mem_nil, or_false] at hleft
  all_goals
    rcases hleft with rfl | rfl | rfl | rfl
    all_goals
      unfold operators at hright
      split at hright <;> first | rfl | (exact absurd hright (by decide))

/-! No text groups in two ways. -/

theorem Follows.head?_ne {head term : Term} {words rest : List Word}
    (hfollows : Follows head term words) (hstops : Stops 0 rest) :
    (words ++ rest).head? ≠ some (.mark "::") := by
  cases hfollows with
  | none => exact fun hhead => hstops _ hhead (.inl (by decide))
  | call harguments _ => cases harguments <;> simp
  | member _ => simp

theorem Operates.stops {level : Nat} {left term : Term} {words rest : List Word}
    (hoperates : Operates level left term words) (hstops : Stops (level + 1) rest) :
    Stops level (words ++ rest) := by
  cases hoperates with
  | none => exact hstops.tighter (Nat.le_succ level)
  | cons hoperator _ _ =>
      rintro _ ⟨⟩ hcontinues
      rcases hcontinues with hmark | ⟨tighter, htighter, hother⟩
      · exact not_mem_operators (List.mem_append_left [")", ","] hmark) hoperator
      · have hsame := operators_disjoint hoperator hother
        omega

mutual

theorem Derives.unique :
    ∀ {level : Nat} {term : Term} {words : List Word}, Derives level term words →
      ∀ {other : Term} {others rest behind : List Word}, Derives level other others →
        words ++ rest = others ++ behind → Stops level rest → Stops level behind →
        term = other ∧ words = others
  | _, _, _, .followed hhead hmore => by
      intro hother heq hrest hbehind
      cases hother with
      | followed hhead' hmore' =>
          -- Both heads end at the same word: neither goes on with what follows it.
          rw [List.append_assoc, List.append_assoc] at heq
          obtain ⟨rfl, rfl⟩ :=
            hhead.unique hhead' heq (hmore.head?_ne hrest) (hmore'.head?_ne hbehind)
          obtain ⟨rfl, rfl⟩ := hmore.unique hmore' (List.append_cancel_left heq) hrest hbehind
          exact ⟨rfl, rfl⟩
  | _, _, _, .signed hoperator hoperand => by
      intro hother heq hrest hbehind
      cases hother with
      | signed hoperator' hoperand' =>
          simp only [List.cons_append, List.cons.injEq, Word.mark.injEq] at heq
          obtain ⟨rfl, heq⟩ := heq
          obtain ⟨rfl, rfl⟩ := hoperand.unique hoperand' heq hrest hbehind
          exact ⟨rfl, rfl⟩
      | plain hterm =>
          obtain ⟨first, tail, rfl, hfirst⟩ := hterm.words_eq_cons
          simp only [List.cons_append, List.cons.injEq] at heq
          rcases hfirst _ heq.1.symm with rfl | ⟨_, hzero⟩
          · exact absurd hoperator (by decide)
          · contradiction
  | _, _, _, .plain hterm => by
      intro hother heq hrest hbehind
      cases hother with
      | signed hoperator' hoperand' =>
          obtain ⟨first, tail, rfl, hfirst⟩ := hterm.words_eq_cons
          simp only [List.cons_append, List.cons.injEq] at heq
          rcases hfirst _ heq.1 with rfl | ⟨_, hzero⟩
          · exact absurd hoperator' (by decide)
          · contradiction
      | plain hterm' =>
          exact hterm.unique hterm' heq (hrest.tighter (by decide)) (hbehind.tighter (by decide))
  | _, _, _, .operation hhead hmore => by
      intro hother heq hrest hbehind
      cases hother with
      | operation hhead' hmore' =>
          rw [List.append_assoc, List.append_assoc] at heq
          -- Operators of this level end the operand before them, which is of a tighter one.
          obtain ⟨rfl, rfl⟩ :=
            hhead.unique hhead' heq (hmore.stops hrest) (hmore'.stops hbehind)
          obtain ⟨rfl, rfl⟩ := hmore.unique hmore' (List.append_cancel_left heq) hrest hbehind
          exact ⟨rfl, rfl⟩

theorem Primary.unique :
    ∀ {term : Term} {words : List Word}, Primary term words →
      ∀ {other : Term} {others rest behind : List Word}, Primary other others →
        words ++ rest = others ++ behind → rest.head? ≠ some (.mark "::") →
        behind.head? ≠ some (.mark "::") → term = other ∧ words = others
  | _, _, .name text => by
      intro hother heq hrest hbehind
      cases hother with
      | qualified space other =>
          simp only [List.cons_append, List.nil_append, List.cons.injEq] at heq
          exact absurd (by rw [heq.2]; rfl) hrest
      | _ => simp_all
  | _, _, .qualified space text => by
      intro hother heq hrest hbehind
      cases hother with
      | name other =>
          simp only [List.cons_append, List.nil_append, List.cons.injEq] at heq
          exact absurd (by rw [← heq.2]; rfl) hbehind
      | _ => simp_all
  | _, _, .number text => by
      intro hother heq hrest hbehind
      cases hother <;> simp_all
  | _, _, .string text => by
      intro hother heq hrest hbehind
      cases hother <;> simp_all
  | _, _, .grouping hterm => by
      intro hother heq hrest hbehind
      cases hother with
      | grouping hterm' =>
          simp only [List.cons_append, List.append_assoc, List.nil_append, List.cons.injEq,
            true_and] at heq
          obtain ⟨rfl, rfl⟩ :=
            hterm.unique hterm' heq (stops_closing (.inl rfl)) (stops_closing (.inl rfl))
          exact ⟨rfl, rfl⟩
      | _ => simp at heq
  | _, _, .cast hvalue => by
      intro hother heq hrest hbehind
      cases hother with
      | cast hvalue' =>
          simp only [List.cons_append, List.append_assoc, List.nil_append, List.cons.injEq,
            true_and, Word.keyword.injEq] at heq
          obtain ⟨rfl, heq⟩ := heq
          obtain ⟨rfl, rfl⟩ :=
            hvalue.unique hvalue' heq (stops_closing (.inl rfl)) (stops_closing (.inl rfl))
          exact ⟨rfl, rfl⟩
      | _ => simp at heq

theorem Follows.unique :
    ∀ {head term : Term} {words : List Word}, Follows head term words →
      ∀ {other : Term} {others rest behind : List Word}, Follows head other others →
        words ++ rest = others ++ behind → Stops 0 rest → Stops 0 behind →
        term = other ∧ words = others
  | _, _, _, .none => by
      intro hother heq hrest hbehind
      cases hother with
      | none => exact ⟨rfl, rfl⟩
      | call harguments _ =>
          obtain ⟨tail, rfl⟩ := harguments.words_eq_cons
          rw [List.nil_append] at heq
          exact absurd (.inl (by decide)) (hrest (.mark "(") (by rw [heq]; rfl))
      | member _ =>
          rw [List.nil_append] at heq
          exact absurd (.inl (by decide)) (hrest (.mark ".") (by rw [heq]; rfl))
  | _, _, _, .call harguments hmore => by
      intro hother heq hrest hbehind
      cases hother with
      | none =>
          obtain ⟨tail, rfl⟩ := harguments.words_eq_cons
          rw [List.nil_append] at heq
          exact absurd (.inl (by decide)) (hbehind (.mark "(") (by rw [← heq]; rfl))
      | call harguments' hmore' =>
          rw [List.append_assoc, List.append_assoc] at heq
          obtain ⟨rfl, rfl⟩ := harguments.unique harguments' heq
          obtain ⟨rfl, rfl⟩ := hmore.unique hmore' (List.append_cancel_left heq) hrest hbehind
          exact ⟨rfl, rfl⟩
      | member _ =>
          obtain ⟨tail, rfl⟩ := harguments.words_eq_cons
          simp at heq
  | _, _, _, .member hmore => by
      intro hother heq hrest hbehind
      cases hother with
      | none =>
          rw [List.nil_append] at heq
          exact absurd (.inl (by decide)) (hbehind (.mark ".") (by rw [← heq]; rfl))
      | call harguments _ =>
          obtain ⟨tail, rfl⟩ := harguments.words_eq_cons
          simp at heq
      | member hmore' =>
          simp only [List.cons_append, List.cons.injEq, true_and, Word.name.injEq] at heq
          obtain ⟨rfl, heq⟩ := heq
          obtain ⟨rfl, rfl⟩ := hmore.unique hmore' heq hrest hbehind
          exact ⟨rfl, rfl⟩

theorem Operates.unique :
    ∀ {level : Nat} {left term : Term} {words : List Word}, Operates level left term words →
      ∀ {other : Term} {others rest behind : List Word}, Operates level left other others →
        words ++ rest = others ++ behind → Stops (level + 1) rest → Stops (level + 1) behind →
        term = other ∧ words = others
  | _, _, _, _, .none => by
      intro hother heq hrest hbehind
      cases hother with
      | none => exact ⟨rfl, rfl⟩
      | cons hoperator _ _ =>
          rw [List.nil_append] at heq
          exact absurd (continues_operator hoperator) (hrest _ (by rw [heq]; rfl))
  | _, _, _, _, .cons hoperator hright hmore => by
      intro hother heq hrest hbehind
      cases hother with
      | none =>
          rw [List.nil_append] at heq
          exact absurd (continues_operator hoperator) (hbehind _ (by rw [← heq]; rfl))
      | cons hoperator' hright' hmore' =>
          simp only [List.cons_append, List.append_assoc, List.cons.injEq, Word.mark.injEq] at heq
          obtain ⟨rfl, heq⟩ := heq
          obtain ⟨rfl, rfl⟩ :=
            hright.unique hright' heq (hmore.stops hrest) (hmore'.stops hbehind)
          obtain ⟨rfl, rfl⟩ := hmore.unique hmore' (List.append_cancel_left heq) hrest hbehind
          exact ⟨rfl, rfl⟩

theorem Arguments.unique :
    ∀ {terms : List Term} {words : List Word}, Arguments terms words →
      ∀ {other : List Term} {others rest behind : List Word}, Arguments other others →
        words ++ rest = others ++ behind → terms = other ∧ words = others
  | _, _, .empty => by
      intro hother heq
      cases hother with
      | empty => exact ⟨rfl, rfl⟩
      | items hterms =>
          obtain ⟨first, tail, rfl, hfirst⟩ := hterms.words_eq_cons
          simp only [List.cons_append, List.nil_append, List.cons.injEq, true_and] at heq
          exact absurd heq.1.symm hfirst
  | _, _, .items hterms => by
      intro hother heq
      cases hother with
      | empty =>
          obtain ⟨first, tail, rfl, hfirst⟩ := hterms.words_eq_cons
          simp only [List.cons_append, List.nil_append, List.cons.injEq, true_and] at heq
          exact absurd heq.1 hfirst
      | items hterms' =>
          simp only [List.cons_append, List.append_assoc, List.nil_append, List.cons.injEq,
            true_and] at heq
          obtain ⟨rfl, rfl⟩ := hterms.unique hterms' heq
          exact ⟨rfl, rfl⟩

theorem Separated.unique :
    ∀ {terms : List Term} {words : List Word}, Separated terms words →
      ∀ {other : List Term} {others rest behind : List Word}, Separated other others →
        words ++ .mark ")" :: rest = others ++ .mark ")" :: behind →
        terms = other ∧ words = others
  | _, _, .last hterm => by
      intro hother heq
      cases hother with
      | last hterm' =>
          obtain ⟨rfl, rfl⟩ :=
            hterm.unique hterm' heq (stops_closing (.inl rfl)) (stops_closing (.inl rfl))
          exact ⟨rfl, rfl⟩
      | cons hterm' hterms' =>
          rw [List.append_assoc] at heq
          obtain ⟨rfl, rfl⟩ :=
            hterm.unique hterm' heq (stops_closing (.inl rfl)) (stops_closing (.inr rfl))
          simp at heq
  | _, _, .cons hterm hterms => by
      intro hother heq
      rw [List.append_assoc] at heq
      cases hother with
      | last hterm' =>
          obtain ⟨rfl, rfl⟩ :=
            hterm.unique hterm' heq (stops_closing (.inr rfl)) (stops_closing (.inl rfl))
          simp at heq
      | cons hterm' hterms' =>
          rw [List.append_assoc] at heq
          obtain ⟨rfl, rfl⟩ :=
            hterm.unique hterm' heq (stops_closing (.inr rfl)) (stops_closing (.inr rfl))
          simp only [List.append_cancel_left_eq, List.cons_append, List.cons.injEq, true_and] at heq
          obtain ⟨rfl, rfl⟩ := hterms.unique hterms' heq
          exact ⟨rfl, rfl⟩

end

/-! Making larger expressions out of smaller ones. -/

theorem Derives.loosen {level looser : Nat} {term : Term} {words : List Word}
    (hlevel : level ≤ looser) (hterm : Derives level term words) :
    Derives looser term words := by
  induction hlevel with
  | refl => exact hterm
  | @step looser _ ih =>
      cases looser with
      | zero => exact .plain ih
      | succ looser =>
          have hsame := Derives.operation ih .none
          rwa [List.append_nil] at hsame

theorem Primary.derives {term : Term} {words : List Word} (hterm : Primary term words) :
    Derives 0 term words := by
  have hsame := Derives.followed hterm .none
  rwa [List.append_nil] at hsame

theorem Operates.append_operator {level : Nat} {operator : String} {right : Term}
    {rightWords : List Word} (hoperator : operator ∈ operators (level + 1))
    (hright : Derives level right rightWords) :
    ∀ {left term : Term} {words : List Word}, Operates level left term words →
      Operates level left (.binary operator term right) (words ++ .mark operator :: rightWords)
  | left, _, _, .none => by
      have hone : Operates level left _ (.mark operator :: rightWords ++ []) :=
        .cons hoperator hright .none
      rwa [List.append_nil] at hone
  | _, _, _, .cons hother hfirst hmore => by
      have hall := Operates.cons hother hfirst (hmore.append_operator hoperator hright)
      simpa using hall

theorem Derives.operator {level : Nat} {operator : String} {left right : Term}
    {leftWords rightWords : List Word} (hoperator : operator ∈ operators (level + 2))
    (hleft : Derives (level + 2) left leftWords) (hright : Derives (level + 1) right rightWords) :
    Derives (level + 2) (.binary operator left right)
      (leftWords ++ .mark operator :: rightWords) := by
  cases hleft with
  | operation hhead hmore =>
      rw [List.append_assoc]
      exact .operation hhead (hmore.append_operator hoperator hright)

theorem Follows.append_call {arguments : List Term} {argumentWords : List Word}
    (harguments : Arguments arguments argumentWords) :
    ∀ {head term : Term} {words : List Word}, Follows head term words →
      Follows head (.call term arguments) (words ++ argumentWords)
  | head, _, _, .none => by
      have hone : Follows head _ (argumentWords ++ []) := .call harguments .none
      rwa [List.append_nil] at hone
  | _, _, _, .call hfirst hmore => by
      rw [List.append_assoc]
      exact .call hfirst (hmore.append_call harguments)
  | _, _, _, .member hmore => .member (hmore.append_call harguments)

theorem Derives.call {function : Term} {arguments : List Term} {words argumentWords : List Word}
    (hfunction : Derives 0 function words) (harguments : Arguments arguments argumentWords) :
    Derives 0 (.call function arguments) (words ++ argumentWords) := by
  cases hfunction with
  | followed hhead hmore =>
      rw [List.append_assoc]
      exact .followed hhead (hmore.append_call harguments)

theorem Follows.append_member {field : String} :
    ∀ {head term : Term} {words : List Word}, Follows head term words →
      Follows head (.member term field) (words ++ [.mark ".", .name field])
  | _, _, _, .none => .member .none
  | _, _, _, .call hfirst hmore => by
      rw [List.append_assoc]
      exact .call hfirst hmore.append_member
  | _, _, _, .member hmore => .member hmore.append_member

theorem Derives.member {object : Term} {words : List Word} (hobject : Derives 0 object words)
    (field : String) : Derives 0 (.member object field) (words ++ [.mark ".", .name field]) := by
  cases hobject with
  | followed hhead hmore =>
      rw [List.append_assoc]
      exact .followed hhead hmore.append_member

/-! The names in an expression are words of its text. -/

mutual

def Term.names : Term → List String
  | .name text => [text]
  | .qualified _ _ | .number _ | .string _ => []
  | .unary _ operand => operand.names
  | .binary _ left right => left.names ++ right.names
  | .call function arguments => function.names ++ Term.namesAll arguments
  | .member object _ => object.names
  | .cast _ value => value.names

def Term.namesAll : List Term → List String
  | [] => []
  | first :: others => first.names ++ Term.namesAll others

end

mutual

theorem Derives.name_mem {name : String} : ∀ {level : Nat} {term : Term} {words : List Word},
    Derives level term words → name ∈ term.names → .name name ∈ words
  | _, _, _, .followed hhead hmore, hname => by
      rcases hmore.name_mem hname with hname | hname
      · exact List.mem_append_left _ (hhead.name_mem hname)
      · exact List.mem_append_right _ hname
  | _, _, _, .signed _ hoperand, hname => List.mem_cons_of_mem _ (hoperand.name_mem hname)
  | _, _, _, .plain hterm, hname => hterm.name_mem hname
  | _, _, _, .operation hhead hmore, hname => by
      rcases hmore.name_mem hname with hname | hname
      · exact List.mem_append_left _ (hhead.name_mem hname)
      · exact List.mem_append_right _ hname

theorem Primary.name_mem {name : String} : ∀ {term : Term} {words : List Word},
    Primary term words → name ∈ term.names → .name name ∈ words
  | _, _, .name text, hname => by
      rw [Term.names, List.mem_singleton] at hname
      exact hname ▸ List.mem_cons_self
  | _, _, .qualified _ _, hname | _, _, .number _, hname | _, _, .string _, hname => by
      contradiction
  | _, _, .grouping hterm, hname => by
      simp [hterm.name_mem hname]
  | _, _, .cast hvalue, hname => by
      rw [Term.names] at hname
      simp [hvalue.name_mem hname]

theorem Follows.name_mem {name : String} : ∀ {head term : Term} {words : List Word},
    Follows head term words → name ∈ term.names → name ∈ head.names ∨ .name name ∈ words
  | _, _, _, .none, hname => .inl hname
  | _, _, _, .call harguments hmore, hname => by
      rcases hmore.name_mem hname with hname | hname
      · rw [Term.names, List.mem_append] at hname
        rcases hname with hname | hname
        · exact .inl hname
        · exact .inr (List.mem_append_left _ (harguments.name_mem hname))
      · exact .inr (List.mem_append_right _ hname)
  | _, _, _, .member hmore, hname => by
      rcases hmore.name_mem hname with hname | hname
      · exact .inl hname
      · exact .inr (List.mem_cons_of_mem _ (List.mem_cons_of_mem _ hname))

theorem Operates.name_mem {name : String} : ∀ {level : Nat} {left term : Term} {words : List Word},
    Operates level left term words → name ∈ term.names →
      name ∈ left.names ∨ .name name ∈ words
  | _, _, _, _, .none, hname => .inl hname
  | _, _, _, _, .cons _ hright hmore, hname => by
      rcases hmore.name_mem hname with hname | hname
      · rw [Term.names, List.mem_append] at hname
        rcases hname with hname | hname
        · exact .inl hname
        · exact .inr (by simp [hright.name_mem hname])
      · exact .inr (List.mem_append_right _ hname)

theorem Arguments.name_mem {name : String} : ∀ {terms : List Term} {words : List Word},
    Arguments terms words → name ∈ Term.namesAll terms → .name name ∈ words
  | _, _, .empty, hname => by contradiction
  | _, _, .items hterms, hname => by simp [hterms.name_mem hname]

theorem Separated.name_mem {name : String} : ∀ {terms : List Term} {words : List Word},
    Separated terms words → name ∈ Term.namesAll terms → .name name ∈ words
  | _, _, .last hterm, hname => by
      rw [Term.namesAll, Term.namesAll, List.append_nil] at hname
      exact hterm.name_mem hname
  | _, _, .cons hterm hterms, hname => by
      rw [Term.namesAll, List.mem_append] at hname
      rcases hname with hname | hname
      · exact List.mem_append_left _ (hterm.name_mem hname)
      · exact List.mem_append_right _ (List.mem_cons_of_mem _ (hterms.name_mem hname))

end

end Coroscript.Cpp
