import Coroscript.Proofs.Coroutine.Lowering
import Coroscript.Proofs.Emit.Grouping
import Coroscript.Proofs.Grammar.Programs

namespace Coroscript

/-! The text of a `print` streams the values of its arguments one by one. -/

section Items

variable {α : Type} {renders : α → List Token → Prop} {items : List α} {item : α}
  {words : List Token}

theorem RendersCommas.exists_words (hwords : RendersCommas renders items words)
    (hitem : item ∈ items) : ∃ part, renders item part ∧ part ⊆ words := by
  induction hwords with
  | last hlast => exact ⟨_, List.mem_singleton.1 hitem ▸ hlast, List.Subset.refl _⟩
  | cons hfirst _ _ ih =>
      rcases List.mem_cons.1 hitem with rfl | hothers
      · exact ⟨_, hfirst, List.subset_append_left _ _⟩
      · obtain ⟨part, hpart, hsubset⟩ := ih hothers
        exact ⟨part, hpart, fun word hword => by simp [hsubset hword]⟩

theorem RendersParens.exists_words (hwords : RendersParens renders items words)
    (hitem : item ∈ items) : ∃ part, renders item part ∧ part ⊆ words := by
  cases hwords with
  | empty => contradiction
  | items _ hitems _ =>
      obtain ⟨part, hpart, hsubset⟩ := hitems.exists_words hitem
      exact ⟨part, hpart, fun word hword => by simp [hsubset hword]⟩

end Items

namespace Cpp

/-- `ReadsStatement text term`: the whole text is an expression and a semicolon behind it, and the
expression groups as `term`. -/
def ReadsStatement (text : String) (term : Term) : Prop :=
  ∃ words, Lexes text.toList (words ++ [.mark ";"]) ∧ Derives loosest term words

theorem ReadsStatement.unique {text : String} {left right : Term}
    (hleft : ReadsStatement text left) (hright : ReadsStatement text right) : left = right := by
  obtain ⟨words, hwords, hleft⟩ := hleft
  obtain ⟨others, hothers, hright⟩ := hright
  have hsame := List.append_cancel_right (hwords.unique hothers)
  subst hsame
  have hends : Stops loosest [] := fun word hword => by simp at hword
  exact (hleft.unique hright rfl hends hends).1

theorem ReadsStatement.name_not_keyword {text : String} {term : Term} {name : String}
    (hreads : ReadsStatement text term) (hname : name ∈ term.names) : name ∉ keywords := by
  obtain ⟨words, hwords, hterm⟩ := hreads
  exact hwords.name_not_keyword (List.mem_append_left _ (hterm.name_mem hname))

/-- `std::cout << first << second << ...`, which groups to the left. -/
def streamed (terms : List Term) : Term :=
  terms.foldl (.binary "<<") (.qualified "std" "cout")

theorem name_mem_streamed {terms : List Term} {term : Term} {name : String} (hterm : term ∈ terms)
    (hname : name ∈ term.names) : name ∈ (streamed terms).names := by
  have hfold : ∀ (terms : List Term) (head : Term), name ∈ head.names ∨ term ∈ terms →
      name ∈ (terms.foldl (.binary "<<") head).names := by
    intro terms
    induction terms with
    | nil =>
        rintro head (hhead | hnil)
        · exact hhead
        · contradiction
    | cons first others ih =>
        rintro head hfound
        refine ih _ ?_
        rw [Term.names, List.mem_append]
        rcases hfound with hhead | hmem
        · exact .inl (.inl hhead)
        · rcases List.mem_cons.1 hmem with rfl | hothers
          · exact .inl (.inr hname)
          · exact .inr hothers
  exact hfold terms _ (.inr hterm)

namespace Legible

theorem ofOut : Legible true 0 "std::cout".toList (.qualified "std" "cout") := by
  refine ⟨⟨_, ?_, (Primary.qualified "std" "cout").derives⟩, fun _ => ⟨'s', _, rfl, by decide⟩⟩
  intro rest more hrest hmore
  have hout : LexesAs true ['c', 'o', 'u', 't'] [.name "cout"] :=
    lexesAs_word (by decide) (List.all_eq_true.1 (by decide))
  exact .word rfl (.word rfl (hout hrest hmore))

theorem shift {dotted other : Bool} {left right : List Char} {leftTerm rightTerm : Term}
    (hleft : Legible dotted 4 left leftTerm) (hright : Legible other 3 right rightTerm) :
    Legible false 4 (left ++ " << ".toList ++ right) (.binary "<<" leftTerm rightTerm) := by
  obtain ⟨⟨leftWords, hleftWords, hleftTerm⟩, -⟩ := hleft
  obtain ⟨⟨rightWords, hrightWords, hrightTerm⟩, -⟩ := hright
  refine ⟨⟨_, ?_, hleftTerm.operator (by decide) hrightTerm⟩, by simp⟩
  intro rest more hrest hmore
  simp only [List.append_assoc, List.cons_append]
  exact hleftWords (boundary_of_mem (by decide))
    (.blank rfl (.word rfl (.blank rfl (hrightWords.undotted hrest hmore))))

theorem readsStatement {dotted : Bool} {code : String} {term : Term}
    (hcode : Legible dotted 4 code.toList term) :
    ReadsStatement (code ++ " << \"\\n\";") (.binary "<<" term (.string "\\n")) := by
  obtain ⟨⟨words, hwords, hterm⟩, -⟩ := hcode
  have hnewline : Derives 3 (.string "\\n") [.string "\\n"] :=
    (Primary.string "\\n").derives.loosen (by decide)
  have hlexes : Lexes " << \"\\n\";".toList [.mark "<<", .string "\\n", .mark ";"] :=
    .blank rfl (.word rfl (.blank rfl (.word rfl (.word rfl .nil))))
  refine ⟨_, ?_, (hterm.operator (by decide) hnewline).loosen (by decide)⟩
  rw [String.toList_append, List.append_assoc]
  exact hwords (boundary_of_mem (by decide)) hlexes

end Legible

end Cpp

namespace Emit

/-- No operator of the source has the level of `<<`, so the two sides of one need the same
parentheses. -/
theorem needsParens_shift (tree : Expr) :
    needsParens tree shiftPrecedence .left = needsParens tree shiftPrecedence .right := by
  cases tree with
  | binary left operator right span =>
      have hlevel : precedence operator.kind ≠ shiftPrecedence := by
        cases operator.kind <;> decide
      simp [needsParens, hlevel]
  | _ => rfl

theorem Keeps.streamText {tree : Expr} (htree : Keeps tree) :
    Cpp.Legible false 3 (streamText tree).toList tree.image := by
  have hright : Cpp.Legible false 3 _ tree.image := htree.right 5 (by decide) rfl
  rwa [operand, ← shiftPrecedence, ← needsParens_shift, ← operand] at hright

theorem legible_stream {arguments : List Expr} {head : String} {term : Cpp.Term}
    (hhead : Cpp.Legible false 4 head.toList term)
    (harguments : ∀ argument ∈ arguments, Keeps argument) :
    Cpp.Legible false 4
      (head ++ String.join ((arguments.map streamText).map (" << " ++ ·))).toList
      ((arguments.map Expr.image).foldl (.binary "<<") term) := by
  induction arguments generalizing head term with
  | nil => simpa using hhead
  | cons first others ih =>
      rw [List.forall_mem_cons] at harguments
      have hfirst := hhead.shift harguments.1.streamText
      rw [← String.toList_append, ← String.toList_append] at hfirst
      have hothers := ih hfirst harguments.2
      simpa [String.append_assoc] using hothers

theorem print_eq_ok {arguments : List Expr} {span : Span} {state : State}
    (hnames : ∀ argument ∈ arguments, ∀ reference ∈ argument.references,
      state.names.Resolves reference) :
    stmt (.print arguments span) state =
      (.ok ("std::cout" ++ String.join ((arguments.map streamText).map (" << " ++ ·)) ++
        " << \"\\n\";"), state) := by
  have htexts : ∃ texts, arguments.mapM (streamOperand state.names) = .ok texts := by
    rw [mapM_eq_ok_iff]
    intro argument hargument
    have htext := (expr_eq_ok_iff argument).2 ⟨hnames argument hargument, rfl⟩
    exact ⟨_, bind_eq_ok_iff.2 ⟨_, htext, rfl⟩⟩
  obtain ⟨texts, htexts⟩ := htexts
  rw [← streamOperands_eq_ok htexts, stmt, print, Action.bind_apply]
  simp only [Emitter.read, htexts]
  rfl

/-- The text of a `print` that a source holds streams what its arguments mean one by one, with no
operator of an argument regrouped, exactly if none of their names is a reserved word of the output
language. -/
theorem print_streams_images_iff {source file : String} {tokens : List Token}
    {cursor after : Cursor} {arguments : List Expr} {span : Span} {state : State}
    (hscan : Token.scan source file = .ok tokens) (hcursor : cursor.tokens <:+ tokens)
    (hread : Grammar.standard.stmt cursor = (.ok (.print arguments span), after))
    (hnext : ∀ argument ∈ arguments, argument.resumesNumber = false)
    (hnames : ∀ argument ∈ arguments, ∀ reference ∈ argument.references,
      state.names.Resolves reference) :
    ∃ text, stmt (.print arguments span) state = (.ok text, state) ∧
      ((∀ term, Cpp.ReadsStatement text term ↔
          term = Cpp.streamed (arguments.map Expr.image ++ [.string "\\n"])) ↔
        ∀ argument ∈ arguments, ∀ reference ∈ argument.references,
          reference.name ∉ Cpp.keywords) := by
  refine ⟨_, print_eq_ok hnames, ?_, ?_⟩
  · intro hreads argument hargument reference hreference
    have himage : argument.image ∈ arguments.map Expr.image ++ [.string "\\n"] :=
      List.mem_append_left _ (List.mem_map_of_mem hargument)
    exact ((hreads _).2 rfl).name_not_keyword
      (Cpp.name_mem_streamed himage (argument.name_mem_image hreference))
  · intro hkeywords
    have hended : cursor.Ended := by
      obtain ⟨position, hlast⟩ := Token.getLast?_scan hscan
      obtain ⟨before, htokens⟩ := hcursor
      exact Cursor.ended_of_getLast? hlast rfl htokens.symm
    obtain ⟨words, hwords, hcanonical, hrenders, -⟩ :=
      Grammar.takes_stmt cursor hended _ _ hread
    have hkeeps : ∀ argument ∈ arguments, Keeps argument := by
      intro argument hargument
      cases hrenders with
      | print _ hkeyword harguments hsemicolon =>
          obtain ⟨part, hpart, hsubset⟩ := harguments.exists_words hargument
          have hfits : ∀ word ∈ part, word.Fits := by
            intro word hword
            refine Token.fits_of_mem_scan hscan (hcursor.mem ?_)
            rw [hwords]
            simp [hsubset hword]
          exact keeps_of_spells (spells_iff.2 ⟨hcanonical argument hargument, hpart⟩) hfits
            (hkeywords argument hargument) (hnext argument hargument)
    have hhead := Cpp.Legible.ofOut.undotted.loosen (Nat.zero_le 4)
    have hreads := (legible_stream hhead hkeeps).readsStatement
    intro term
    rw [Cpp.streamed, List.foldl_append]
    constructor
    · exact fun hterm => hterm.unique hreads
    · rintro rfl
      exact hreads

theorem print_streams_images_iff_mixed :
    ∃ tokens arguments span after,
      Token.scan "print(a && b, -a % b, \"<<\", a - b);" "shell" = .ok tokens ∧
        Grammar.standard.stmt (.ofTokens tokens "shell") =
          (.ok (.print arguments span), after) ∧
        (∀ argument ∈ arguments, argument.resumesNumber = false) ∧
        (∀ argument ∈ arguments, ∀ reference ∈ argument.references,
          Names.Resolves ⟨⟨[], ["b", "a"]⟩, .empty⟩ reference) ∧
        ∃ text, stmt (.print arguments span) ⟨⟨⟨[], ["b", "a"]⟩, .empty⟩, .topLevel⟩ =
            (.ok text, ⟨⟨⟨[], ["b", "a"]⟩, .empty⟩, .topLevel⟩) ∧
          ((∀ term, Cpp.ReadsStatement text term ↔
              term = Cpp.streamed (arguments.map Expr.image ++ [.string "\\n"])) ↔
            ∀ argument ∈ arguments, ∀ reference ∈ argument.references,
              reference.name ∉ Cpp.keywords) := by
  obtain ⟨tokens, hscan, htokens⟩ : ∃ tokens,
      Token.scan "print(a && b, -a % b, \"<<\", a - b);" "shell" = .ok tokens ∧ tokens =
        [⟨.keyPrint, "print", .ofOffset 0 5 "shell"⟩, ⟨.openParen, "(", .ofOffset 5 1 "shell"⟩,
          ⟨.identifier, "a", .ofOffset 6 1 "shell"⟩, ⟨.and, "&&", .ofOffset 8 2 "shell"⟩,
          ⟨.identifier, "b", .ofOffset 11 1 "shell"⟩, ⟨.comma, ",", .ofOffset 12 1 "shell"⟩,
          ⟨.dash, "-", .ofOffset 14 1 "shell"⟩, ⟨.identifier, "a", .ofOffset 15 1 "shell"⟩,
          ⟨.percent, "%", .ofOffset 17 1 "shell"⟩, ⟨.identifier, "b", .ofOffset 19 1 "shell"⟩,
          ⟨.comma, ",", .ofOffset 20 1 "shell"⟩, ⟨.string, "<<", .ofOffset 22 4 "shell"⟩,
          ⟨.comma, ",", .ofOffset 26 1 "shell"⟩, ⟨.identifier, "a", .ofOffset 28 1 "shell"⟩,
          ⟨.dash, "-", .ofOffset 30 1 "shell"⟩, ⟨.identifier, "b", .ofOffset 32 1 "shell"⟩,
          ⟨.closeParen, ")", .ofOffset 33 1 "shell"⟩, ⟨.semicolon, ";", .ofOffset 34 1 "shell"⟩,
          .endMark (.ofOffset 35 "shell")] :=
    ⟨_, by cbv, rfl⟩
  have hcursor : (Cursor.ofTokens tokens "shell").tokens <:+ tokens := by
    subst htokens
    exact List.suffix_refl _
  obtain ⟨arguments, span, after, hread, hnext, hnames⟩ : ∃ arguments span after,
      Grammar.standard.stmt (.ofTokens tokens "shell") = (.ok (.print arguments span), after) ∧
        (∀ argument ∈ arguments, argument.resumesNumber = false) ∧
        ∀ argument ∈ arguments, ∀ reference ∈ argument.references,
          Names.Resolves ⟨⟨[], ["b", "a"]⟩, .empty⟩ reference := by
    subst htokens
    exact ⟨_, _, _, rfl, by decide, by decide⟩
  exact ⟨tokens, arguments, span, after, hscan, hread, hnext, hnames,
    print_streams_images_iff hscan hcursor hread hnext hnames⟩

/-- With reserved words as names an argument that compares three variables is streamed as a
conversion. -/
theorem reserved_names_stream_cast :
    ∃ tokens arguments span after,
      Token.scan "print(static_cast < double > (x));" "shell" = .ok tokens ∧
        Grammar.standard.stmt (.ofTokens tokens "shell") =
          (.ok (.print arguments span), after) ∧
        (∀ argument ∈ arguments, argument.resumesNumber = false) ∧
        stmt (.print arguments span)
            ⟨⟨⟨[], ["x", "double", "static_cast"]⟩, .empty⟩, .topLevel⟩ =
          (.ok "std::cout << (static_cast < double > (x)) << \"\\n\";",
            ⟨⟨⟨[], ["x", "double", "static_cast"]⟩, .empty⟩, .topLevel⟩) ∧
        Cpp.ReadsStatement "std::cout << (static_cast < double > (x)) << \"\\n\";"
          (Cpp.streamed [.cast "double" (.name "x"), .string "\\n"]) ∧
        ¬ Cpp.ReadsStatement "std::cout << (static_cast < double > (x)) << \"\\n\";"
          (Cpp.streamed (arguments.map Expr.image ++ [.string "\\n"])) := by
  have hscan : Token.scan "print(static_cast < double > (x));" "shell" =
      .ok [⟨.keyPrint, "print", .ofOffset 0 5 "shell"⟩, ⟨.openParen, "(", .ofOffset 5 1 "shell"⟩,
        ⟨.identifier, "static_cast", .ofOffset 6 11 "shell"⟩,
        ⟨.less, "<", .ofOffset 18 1 "shell"⟩, ⟨.identifier, "double", .ofOffset 20 6 "shell"⟩,
        ⟨.greater, ">", .ofOffset 27 1 "shell"⟩, ⟨.openParen, "(", .ofOffset 29 1 "shell"⟩,
        ⟨.identifier, "x", .ofOffset 30 1 "shell"⟩, ⟨.closeParen, ")", .ofOffset 31 1 "shell"⟩,
        ⟨.closeParen, ")", .ofOffset 32 1 "shell"⟩, ⟨.semicolon, ";", .ofOffset 33 1 "shell"⟩,
        .endMark (.ofOffset 34 "shell")] := by
    cbv
  have hcast : Cpp.ReadsStatement "std::cout << (static_cast < double > (x)) << \"\\n\";"
      (Cpp.streamed [.cast "double" (.name "x"), .string "\\n"]) := by
    have hname := (Cpp.Primary.name "x").derives.loosen (Nat.zero_le Cpp.loosest)
    have hvalue : Cpp.Legible false 0 "static_cast < double > (x)".toList
        (.cast "double" (.name "x")) := by
      refine ⟨⟨_, ?_, (Cpp.Primary.cast hname).derives⟩, fun _ => ⟨'s', _, rfl, by decide⟩⟩
      intro rest more hrest hmore
      exact .word rfl (.blank rfl (.word rfl (.blank rfl (.word rfl (.blank rfl (.word rfl
        (.blank rfl (.word rfl (.word rfl (.word rfl hmore))))))))))
    have hparens := (hvalue.parens (by decide)).loosen (Nat.zero_le 3)
    have hhead := Cpp.Legible.ofOut.undotted.loosen (Nat.zero_le 4)
    have hcode : Cpp.Legible false 4 "std::cout << (static_cast < double > (x))".toList _ :=
      hhead.shift hparens
    exact hcode.readsStatement
  refine ⟨_, _, _, _, hscan, rfl, ?_, ?_, hcast, ?_⟩
  · decide
  · cbv
  · intro himages
    have hstreams := (Cpp.Term.binary.inj (himages.unique hcast)).2.1
    have hsame := (Cpp.Term.binary.inj hstreams).2.2
    contradiction

end Emit

end Coroscript
