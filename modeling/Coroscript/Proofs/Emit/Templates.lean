import Coroscript.Proofs.Coroutine.Labels

namespace Coroscript

/-! The names in the templates of an emitted program: which of them stand together in one
parameter list, and which of them its type parameters capture. -/

namespace Cpp

def Expression.names (value : Expression) : List String :=
  value.term.names

namespace Statement

mutual

/-- The names of variables and callables in a statement. The counter of a coroutine is none. -/
def names : Statement → List String
  | .evaluate value | .suspend _ value => value.names
  | .declare name value | .assign name value => name :: value.names
  | .print arguments => arguments.flatMap Expression.names
  | .leave value? => value?.toList.flatMap Expression.names
  | .block body => namesAll body
  | .ifThen condition thenBody => condition.names ++ namesAll thenBody
  | .ifElse condition thenBody elseBody =>
      condition.names ++ namesAll thenBody ++ namesAll elseBody

def namesAll : List Statement → List String
  | [] => []
  | first :: others => first.names ++ namesAll others

end

theorem namesAll_contents (statement : Statement) :
    namesAll statement.contents = statement.names := by
  cases statement <;> simp [contents, names, namesAll]

end Statement

namespace Definition

/-- The names in each of the parameter lists: of a function, and of the members of a class and of
its constructor. The counter is a member too. -/
def parameterLists : Definition → List (List String)
  | .forwardFunction _ parameters | .function _ parameters _ => [parameters]
  | .resumable _ parameters _ _ => [stateField :: parameters, parameters]
  | .entryPoint _ => [[]]
  | .global _ _ | .forwardClass _ _ => []

def parameters : Definition → List String
  | .forwardFunction _ parameters | .function _ parameters _
  | .resumable _ parameters _ _ => parameters
  | .entryPoint _ | .global _ _ | .forwardClass _ _ => []

def body : Definition → List Statement
  | .function _ _ body | .resumable _ _ _ body | .entryPoint body => body
  | .forwardFunction _ _ | .forwardClass _ _ | .global _ _ => []

/-- The names inside a definition, less its own. -/
def innerNames : Definition → List String
  | .global _ value => value.names
  | definition => definition.parameters ++ Statement.namesAll definition.body

def arity : Definition → Nat
  | .forwardClass _ arity => arity
  | definition => definition.parameters.length

def typeParameters (definition : Definition) : List String :=
  (List.range definition.arity).map typeName

/-- The names inside a definition that its own type parameters hide. -/
def captured (definition : Definition) : List String :=
  definition.innerNames.filter (· ∈ definition.typeParameters)

/-- The type parameters are those in the header of the text. -/
theorem text_eq_template (definition : Definition) :
    ∃ declaration, definition.text = template definition.arity declaration := by
  cases definition <;> exact ⟨_, rfl⟩

end Definition

end Cpp

namespace Expr

mutual

theorem names_image : ∀ tree : Expr, tree.image.names = tree.mentions
  | .number _ _ | .string _ _ | .symbol _ _ => rfl
  | .binary left operator right _ => by
      have hleft := names_image left
      have hright := names_image right
      rw [mentions] at hleft hright
      rw [image, mentions, references, List.map_append]
      split <;> simp [Cpp.Term.names, Cpp.Term.namesAll, hleft, hright]
  | .unary _ operand _ => names_image operand
  | .percent operand _ => by
      rw [image, Cpp.Term.names, Cpp.Term.names, List.append_nil]
      exact names_image operand
  | .grouping inner _ => names_image inner
  | .conversion .int value _ => names_image value
  | .conversion .float value _ => names_image value
  | .call callee arguments _ => congrArg (callee :: ·) (namesAll_imageAll arguments)
  | .next coroutine _ => by
      rw [image, Cpp.Term.names, Cpp.Term.names, Cpp.Term.namesAll, List.append_nil]
      exact names_image coroutine
  | .create callee arguments _ _ => congrArg (callee :: ·) (namesAll_imageAll arguments)

theorem namesAll_imageAll : ∀ trees : List Expr,
    Cpp.Term.namesAll (imageAll trees) = (referencesAll trees).map Reference.name
  | [] => rfl
  | first :: others => by
      rw [imageAll, Cpp.Term.namesAll, referencesAll, List.map_append, names_image first,
        namesAll_imageAll others, mentions]

end

end Expr

namespace Stmt

mutual

theorem names_image : ∀ (tree : Stmt) (visible : List String) (index : Nat),
    (tree.image visible index).names = tree.mentions
  | .block body _, visible, index => namesAll_imageAll body visible index
  | .expression value _, _, _ | .yields value _, _, _ => value.names_image
  | .define name value _, visible, index => by
      rw [image, mentions, ← value.names_image]
      split <;> rfl
  | .ifThen condition thenBody _, visible, index => by
      rw [image, mentions, Cpp.Statement.names, Cpp.Statement.namesAll_contents,
        names_image thenBody, ← condition.names_image]
      rfl
  | .ifElse condition thenBody elseBody _, visible, index => by
      rw [image, mentions, Cpp.Statement.names, Cpp.Statement.namesAll_contents,
        Cpp.Statement.namesAll_contents, names_image thenBody, names_image elseBody,
        ← condition.names_image]
      rfl
  | .returns value? _, visible, index => by
      cases value? with
      | none => rfl
      | some value => exact congrArg (· ++ []) value.names_image
  | .print arguments _, visible, index => by
      rw [image, mentions, Cpp.Statement.names, List.flatMap_map]
      exact List.flatMap_congr fun argument _ => argument.names_image
  | .forwardFunction _ _ _, _, _ | .function _ _ _ _ _, _, _ | .forwardCoroutine _ _ _, _, _
  | .coroutine _ _ _ _ _, _, _ | .entryPoint _ _ _ _, _, _ => rfl

theorem namesAll_imageAll : ∀ (trees : List Stmt) (visible : List String) (index : Nat),
    Cpp.Statement.namesAll (imageAll visible index trees) = mentionsAll trees
  | [], _, _ => rfl
  | first :: others, visible, index => by
      rw [imageAll, Cpp.Statement.namesAll, mentionsAll, names_image first,
        namesAll_imageAll others]

end

theorem mem_mentions_of_defined {tree : Stmt} {name : String} (hname : name ∈ tree.defined?) :
    name ∈ tree.mentions := by
  cases tree with
  | define other value span =>
      rw [← Option.some.inj hname]
      exact .head _
  | _ => cases hname

mutual

/-- A body names what it finds and what it declares. -/
theorem has_or_declares : ∀ (tree : Stmt) {context : Context} {name : String} (index : Nat),
    tree.Legal context → name ∈ tree.mentions →
      context.Has name ∨ name ∈ (tree.image context.values index).declares
  | .block body _, _, _, index, hlegal, hname => hasAll_or_declares body index hlegal hname
  | .expression value _, _, _, _, hlegal, hname => .inl (Context.Covers.has hlegal hname)
  | .yields value _, _, _, _, hlegal, hname => .inl (Context.Covers.has hlegal.2 hname)
  | .define other value _, context, name, index, hlegal, hname => by
      rcases List.mem_cons.1 hname with rfl | hvalue
      · by_cases hvisible : name ∈ context.values
        · exact .inl (.inl hvisible)
        · rw [image, if_neg hvisible]
          exact .inr (.head _)
      · exact .inl (Context.Covers.has hlegal.1 hvalue)
  | .ifThen condition thenBody _, context, name, index, hlegal, hname => by
      rw [image, Cpp.Statement.declares, Cpp.Statement.declaresAll_contents]
      rcases List.mem_append.1 hname with hcondition | hthen
      · exact .inl (Context.Covers.has hlegal.1 hcondition)
      · exact has_or_declares thenBody index hlegal.2 hthen
  | .ifElse condition thenBody elseBody _, context, name, index, hlegal, hname => by
      rw [image, Cpp.Statement.declares, Cpp.Statement.declaresAll_contents,
        Cpp.Statement.declaresAll_contents, List.mem_append, ← or_assoc]
      rw [mentions, List.mem_append, List.mem_append] at hname
      rcases hname with (hcondition | hthen) | helse
      · exact .inl (.inl (Context.Covers.has hlegal.1 hcondition))
      · exact .inl (has_or_declares thenBody index hlegal.2.1 hthen)
      · rcases has_or_declares elseBody (index + thenBody.yieldCount) hlegal.2.2 helse with
          hhas | hdeclares
        · exact .inl (.inl hhas)
        · exact .inr hdeclares
  | .returns value? _, _, _, _, hlegal, hname => by
      obtain ⟨value, hvalue, hmentions⟩ := List.mem_flatMap.1 hname
      exact .inl (Context.Covers.has (hlegal.2 value (Option.mem_toList.1 hvalue)) hmentions)
  | .print arguments _, _, _, _, hlegal, hname => by
      obtain ⟨argument, hargument, hmentions⟩ := List.mem_flatMap.1 hname
      exact .inl (Context.Covers.has (hlegal argument hargument) hmentions)
  | .forwardFunction _ _ _, _, _, _, hlegal, _ | .function _ _ _ _ _, _, _, _, hlegal, _
  | .forwardCoroutine _ _ _, _, _, _, hlegal, _ | .coroutine _ _ _ _ _, _, _, _, hlegal, _
  | .entryPoint _ _ _ _, _, _, _, hlegal, _ => hlegal.elim

theorem hasAll_or_declares : ∀ (trees : List Stmt) {context : Context} {name : String}
    (index : Nat), LegalAll context trees → name ∈ mentionsAll trees →
      context.Has name ∨ name ∈ Cpp.Statement.declaresAll (imageAll context.values index trees)
  | [], _, _, _, _, hname => nomatch hname
  | first :: others, context, name, index, hlegal, hname => by
      rw [imageAll, Cpp.Statement.declaresAll, List.mem_append, ← or_assoc]
      rcases List.mem_append.1 hname with hfirst | hothers
      · exact .inl (has_or_declares first index hlegal.1 hfirst)
      · rcases hasAll_or_declares others (index + first.yieldCount) hlegal.2 hothers with
          (hvalue | hcallable) | hdeclares
        · rcases List.mem_append.1 hvalue with hdefined | hearlier
          · -- What is new in view was defined by the first statement.
            refine .inl (has_or_declares first index hlegal.1 ?_)
            exact mem_mentions_of_defined (Option.mem_toList.1 hdefined)
          · exact .inl (.inl (.inl hearlier))
        · exact .inl (.inl (.inr hcallable))
        · exact .inr hdeclares

end

/-! Definitions. -/

/-- The names inside a definition that come to stand in its text, less its own. -/
def innerNames : Stmt → List String
  | define _ value _ => value.mentions
  | forwardFunction _ parameters _ => parameters.map Parameter.name
  | function _ parameters body _ _ | coroutine _ parameters body _ _ =>
      parameters.map Parameter.name ++ mentionsAll body
  | entryPoint _ body _ _ => mentionsAll body
  | _ => []

def arity (tree : Stmt) : Nat :=
  tree.declaration?.elim 0 Signature.arity

theorem innerNames_imageItem (before : List Stmt) (tree : Stmt) :
    (tree.imageItem before).innerNames = tree.innerNames := by
  cases tree with
  | define name value span => exact value.names_image
  | forwardFunction name parameters span => exact List.append_nil _
  | function name parameters body bodySpan span | coroutine name parameters body bodySpan span =>
      exact congrArg (parameters.map Parameter.name ++ ·) (namesAll_imageAll body _ 0)
  | entryPoint parameters body bodySpan span => exact namesAll_imageAll body _ 0
  | _ => rfl

theorem arity_imageItem (before : List Stmt) (tree : Stmt) :
    (tree.imageItem before).arity = tree.arity := by
  cases tree with
  | forwardFunction | function | coroutine => exact List.length_map _
  | _ => rfl

theorem captured_imageItem_eq_nil_iff (before : List Stmt) (tree : Stmt) :
    (tree.imageItem before).captured = [] ↔
      ∀ index < tree.arity, Cpp.typeName index ∉ tree.innerNames := by
  rw [Cpp.Definition.captured, Cpp.Definition.typeParameters, innerNames_imageItem,
    arity_imageItem, List.filter_eq_nil_iff]
  simp only [decide_eq_true_eq, List.mem_map, List.mem_range, not_exists, not_and]
  constructor
  · intro hcaptured index hindex hname
    exact hcaptured _ hname index hindex rfl
  · rintro hfree _ hname index hindex rfl
    exact hfree index hindex hname

/-- What is true of the images of definitions, one by one. -/
theorem forall_mem_imageItems {property : Cpp.Definition → Prop} {before items : List Stmt} :
    (∀ definition ∈ imageItems before items, property definition) ↔
      ∀ earlier tree later, items = earlier ++ tree :: later →
        property (tree.imageItem (before ++ earlier)) := by
  induction items generalizing before with
  | nil => simp [imageItems]
  | cons first others ih =>
      rw [imageItems, List.forall_mem_cons, ih, Emit.forall_split_cons, List.append_nil]
      simp only [List.append_assoc, List.singleton_append]

/-- Where a name in a body comes from. -/
theorem in_view_of_mem_mentionsAll {before body : List Stmt} {tree : Stmt}
    {parameters : List Parameter} {inCoroutine : Bool} {name : String}
    (hlegal : LegalAll (bodyContext before tree parameters inCoroutine) body)
    (hname : name ∈ mentionsAll body) :
    name ∈ parameters.map Parameter.name ∨
      name ∈ Cpp.Statement.declaresAll
          (imageAll (parameters.map Parameter.name ++ globals before) 0 body) ∨
        name ∈ globals before ∨
          ∃ declaration ∈ declarations (before ++ [tree]), declaration.name = name := by
  rcases hasAll_or_declares body 0 hlegal hname with (hvalue | hcallable) | hdeclares
  · rcases List.mem_append.1 hvalue with hparameter | hglobal
    · exact .inl hparameter
    · exact .inr (.inr (.inl hglobal))
  · exact .inr (.inr (.inr hcallable))
  · exact .inr (.inl hdeclares)

/-- What is true of the images exactly if it is true of the definitions, wherever they stand. -/
theorem forall_mem_imageItems_iff {property : Cpp.Definition → Prop} {shape : Stmt → Prop}
    {items : List Stmt}
    (hshape : ∀ before tree later, items = before ++ tree :: later →
      (property (tree.imageItem before) ↔ shape tree)) :
    (∀ definition ∈ imageItems [] items, property definition) ↔ ∀ tree ∈ items, shape tree := by
  rw [forall_mem_imageItems]
  constructor
  · intro hproperty tree hmem
    obtain ⟨before, later, hitems⟩ := List.append_of_mem hmem
    exact (hshape before tree later hitems).1 (hproperty before tree later hitems)
  · intro hall before tree later hitems
    refine (hshape before tree later hitems).2 (hall tree ?_)
    rw [hitems]
    exact List.mem_append_right _ (.head _)

namespace LegalAfter

variable {before : List Stmt} {tree : Stmt} (hlegal : tree.LegalAfter before)
include hlegal

theorem nodup_parameterLists
    (htree : ∀ name parameters span, tree ≠ .forwardFunction name parameters span) :
    ∀ names ∈ (tree.imageItem before).parameterLists, names.Nodup := by
  have hcontents := hlegal.2
  cases tree with
  | forwardFunction name parameters span => exact absurd rfl (htree name parameters span)
  | function name parameters body bodySpan span =>
      obtain ⟨⟨hnodup, _⟩, _⟩ := hcontents
      exact List.forall_mem_singleton.2 hnodup
  | coroutine name parameters body bodySpan span =>
      obtain ⟨⟨hcounter, _⟩, ⟨hnodup, _⟩, _⟩ := hcontents
      refine List.forall_mem_cons.2 ⟨List.nodup_cons.2 ⟨?_, hnodup⟩,
        List.forall_mem_singleton.2 hnodup⟩
      rintro hstate
      obtain ⟨parameter, hparameter, hname⟩ := List.mem_map.1 hstate
      exact hcounter parameter hparameter hname
  | _ => simp [imageItem, Cpp.Definition.parameterLists]

theorem nodup_parameterLists_iff :
    (∀ names ∈ (tree.imageItem before).parameterLists, names.Nodup) ↔
      ∀ name parameters span, tree = .forwardFunction name parameters span →
        (parameters.map Parameter.name).Nodup := by
  constructor
  · rintro hnodup name parameters span rfl
    exact hnodup _ (.head _)
  · intro hforward
    by_cases htree : ∃ name parameters span, tree = .forwardFunction name parameters span
    · obtain ⟨name, parameters, span, rfl⟩ := htree
      exact List.forall_mem_singleton.2 (hforward name parameters span rfl)
    · refine hlegal.nodup_parameterLists fun name parameters span hsame => ?_
      exact htree ⟨name, parameters, span, hsame⟩

theorem innerNames_in_view {name : String} (hname : name ∈ (tree.imageItem before).innerNames) :
    name ∈ (tree.imageItem before).parameters ∨
      name ∈ Cpp.Statement.declaresAll (tree.imageItem before).body ∨
        name ∈ globals before ∨
          ∃ declaration ∈ declarations (before ++ [tree]), declaration.name = name := by
  have hcontents := hlegal.2
  rw [innerNames_imageItem] at hname
  cases tree with
  | define other value span =>
      rcases hcontents.1.has hname with hglobal | ⟨declaration, hdeclaration, hsame⟩
      · exact .inr (.inr (.inl hglobal))
      · refine .inr (.inr (.inr ⟨declaration, ?_, hsame⟩))
        rw [declarations, List.filterMap_append]
        exact List.mem_append_left _ hdeclaration
  | forwardFunction other parameters span => exact .inl hname
  | function other parameters body bodySpan span =>
      rcases List.mem_append.1 hname with hparameter | hbody
      · exact .inl hparameter
      · exact in_view_of_mem_mentionsAll hcontents.2 hbody
  | coroutine other parameters body bodySpan span =>
      rcases List.mem_append.1 hname with hparameter | hbody
      · exact .inl hparameter
      · exact in_view_of_mem_mentionsAll hcontents.2.2 hbody
  | entryPoint parameters body bodySpan span => exact in_view_of_mem_mentionsAll hcontents hname
  | _ => cases hname

theorem stateField_not_mem_innerNames {name : String} {parameters : List Parameter}
    {body : List Stmt} {bodySpan span : Span}
    (htree : tree = .coroutine name parameters body bodySpan span) :
    Cpp.stateField ∉ (tree.imageItem before).innerNames := by
  subst htree
  obtain ⟨_, ⟨hparameters, hglobals, hcallables⟩, _, hbody⟩ := hlegal
  rw [innerNames_imageItem, innerNames, List.mem_append]
  have hnone : Cpp.stateField ∉ parameters.map Parameter.name := by
    intro hmem
    obtain ⟨parameter, hparameter, hsame⟩ := List.mem_map.1 hmem
    exact hparameters parameter hparameter hsame
  rintro (hparameter | hmention)
  · exact hnone hparameter
  · rcases has_of_mem_mentionsAll body hbody rfl hmention with hvalue | ⟨declaration, hmem, hsame⟩
    · rcases List.mem_append.1 hvalue with hparameter | hglobal
      · exact hnone hparameter
      · exact hglobals hglobal
    · exact hcallables declaration hmem hsame

end LegalAfter

end Stmt

open Emit in
/-- What a program that has a text keeps to, and what the text is. -/
theorem Program.of_compile {program : Program} {code : String}
    (hcompile : program.compile = .ok code) :
    code = "\n\n".intercalate (headers :: program.image.map Cpp.Definition.text) ++ "\n" ∧
      ∀ before tree later, program.items = before ++ tree :: later → tree.LegalAfter before := by
  obtain ⟨texts, middle, hitems, hrest⟩ :=
    Action.bind_eq_ok_iff.1 (show unit program .initial = (.ok code, _) from Prod.ext hcompile rfl)
  constructor
  · rw [get_bind] at hrest
    split at hrest
    · rw [← (Action.pure_eq_ok_iff.1 hrest).1, shows_items State.agrees_initial hitems, image]
    · exact absurd ⟨_, hrest⟩ not_runs_fail
  · exact (items_run State.agrees_initial program.items).1.1 ⟨middle, texts, hitems⟩

/-- No parameter list of a definition repeats a name, and no list of the whole text does if and
only if no function that is declared ahead has two parameters of one name. -/
theorem Program.compile_parameters_nodup_iff {program : Program} {code : String}
    (hcompile : program.compile = .ok code) :
    code = "\n\n".intercalate (Emit.headers :: program.image.map Cpp.Definition.text) ++ "\n" ∧
      (∀ definition ∈ program.image,
        (∀ name parameters, definition ≠ .forwardFunction name parameters) →
          ∀ names ∈ definition.parameterLists, names.Nodup) ∧
      ((∀ definition ∈ program.image, ∀ names ∈ definition.parameterLists, names.Nodup) ↔
        ∀ name parameters span, Stmt.forwardFunction name parameters span ∈ program.items →
          (parameters.map Parameter.name).Nodup) := by
  obtain ⟨htext, hlegal⟩ := Program.of_compile hcompile
  refine ⟨htext, Stmt.forall_mem_imageItems.2 ?_, ?_⟩
  · intro before tree later hitems hdefinition
    refine (hlegal before tree later hitems).nodup_parameterLists ?_
    rintro name parameters span rfl
    exact hdefinition name _ rfl
  · have hshape : ∀ before tree later, program.items = before ++ tree :: later → _ :=
      fun before tree later hitems => (hlegal before tree later hitems).nodup_parameterLists_iff
    rw [Program.image, Stmt.forall_mem_imageItems_iff hshape]
    constructor
    · intro hnodup name parameters span hmem
      exact hnodup _ hmem name parameters span rfl
    · rintro hnodup _ hmem name parameters span rfl
      exact hnodup name parameters span hmem

/-- A function that is declared with one name twice, and defined with two names, and a coroutine. -/
theorem Program.compile_parameters_nodup_iff_repeated :
    let program : Program :=
      ⟨[.forwardFunction "f" [⟨"a", default⟩, ⟨"a", default⟩] default,
        .function "f" [⟨"a", default⟩, ⟨"b", default⟩]
          [.returns (some (.symbol "b" default)) default] default default,
        .coroutine "g" [⟨"a", default⟩, ⟨"b", default⟩]
          [.yields (.symbol "a" default) default] default default,
        .entryPoint [] [] default default], default⟩
    ∃ code, program.compile = .ok code ∧
      code = "\n\n".intercalate (Emit.headers :: program.image.map Cpp.Definition.text) ++ "\n" ∧
      (∀ definition ∈ program.image,
        (∀ name parameters, definition ≠ .forwardFunction name parameters) →
          ∀ names ∈ definition.parameterLists, names.Nodup) ∧
      ¬ ∀ definition ∈ program.image, ∀ names ∈ definition.parameterLists, names.Nodup := by
  intro program
  have hok : program.compile.isOk = true := by decide +kernel
  cases hcompile : program.compile with
  | error error => rw [hcompile] at hok; cases hok
  | ok code =>
      obtain ⟨htext, hdefinitions, hall⟩ := Program.compile_parameters_nodup_iff hcompile
      refine ⟨code, rfl, htext, hdefinitions, fun hnodup => ?_⟩
      have hnames := hall.1 hnodup "f" _ default (.head _)
      exact absurd hnames (by decide)

/-- The type parameters of a template capture a name of the source if and only if a definition
holds the name of one of them. Every name inside a definition is that of a parameter, of a variable
of its body, of a variable above it or of a callable; in a coroutine none is that of the counter. -/
theorem Program.compile_captures_nothing_iff {program : Program} {code : String}
    (hcompile : program.compile = .ok code) :
    code = "\n\n".intercalate (Emit.headers :: program.image.map Cpp.Definition.text) ++ "\n" ∧
      (∀ definition ∈ program.image,
        ∃ declaration, definition.text = Cpp.template definition.arity declaration) ∧
      ((∀ definition ∈ program.image, definition.captured = []) ↔
        ∀ tree ∈ program.items, ∀ index < tree.arity, Cpp.typeName index ∉ tree.innerNames) ∧
      ∀ before tree later, program.items = before ++ tree :: later →
        (∀ name ∈ (tree.imageItem before).innerNames,
          name ∈ (tree.imageItem before).parameters ∨
            name ∈ Cpp.Statement.declaresAll (tree.imageItem before).body ∨
              name ∈ globals before ∨
                ∃ declaration ∈ declarations (before ++ [tree]), declaration.name = name) ∧
        ∀ name parameters body bodySpan span,
          tree = .coroutine name parameters body bodySpan span →
            Cpp.stateField ∉ (tree.imageItem before).innerNames := by
  obtain ⟨htext, hlegal⟩ := Program.of_compile hcompile
  refine ⟨htext, fun definition _ => definition.text_eq_template, ?_, ?_⟩
  · exact Stmt.forall_mem_imageItems_iff fun before tree _ _ =>
      Stmt.captured_imageItem_eq_nil_iff before tree
  · intro before tree later hitems
    have htree := hlegal before tree later hitems
    exact ⟨fun name => htree.innerNames_in_view,
      fun name parameters body bodySpan span => htree.stateField_not_mem_innerNames⟩

/-- A parameter and a variable of the source with the names of type parameters, and a coroutine
whose names are its own. -/
theorem Program.compile_captures_nothing_iff_shadowing :
    let hidden : Stmt := .function "f" [⟨"T0", default⟩]
      [.returns (some (.symbol "T0" default)) default] default default
    let above : Stmt := .define "T1" (.number "1" default) default
    let reader : Stmt := .function "g" [⟨"a", default⟩, ⟨"b", default⟩]
      [.returns (some (.symbol "T1" default)) default] default default
    let counting : Stmt := .coroutine "h" [⟨"T", default⟩]
      [.yields (.call "f" [.symbol "T" default] default) default] default default
    let program : Program :=
      ⟨[hidden, above, reader, counting, .entryPoint [] [] default default], default⟩
    ∃ code, program.compile = .ok code ∧
      code = "\n\n".intercalate (Emit.headers :: program.image.map Cpp.Definition.text) ++ "\n" ∧
      program.image.map Cpp.Definition.captured = [["T0", "T0"], [], ["T1"], [], []] ∧
      (¬ ∀ definition ∈ program.image, definition.captured = []) ∧
      Cpp.stateField ∉ (counting.imageItem [hidden, above, reader]).innerNames := by
  intro hidden above reader counting program
  have hok : program.compile.isOk = true := by decide +kernel
  cases hcompile : program.compile with
  | error error => rw [hcompile] at hok; cases hok
  | ok code =>
      obtain ⟨htext, _, hfree, hnames⟩ := Program.compile_captures_nothing_iff hcompile
      refine ⟨code, rfl, htext, by decide +kernel, fun hnothing => ?_, ?_⟩
      · exact absurd (hfree.1 hnothing hidden (.head _) 0 (by decide)) (by decide +kernel)
      · exact (hnames _ counting _ rfl).2 _ _ _ _ _ rfl

end Coroscript
