import Coroscript.Proofs.Coroutine.Resumption
import Coroscript.Proofs.Emit.Output

namespace Coroscript

namespace Cpp

namespace Code

mutual

def innerPlaces : Code → List (List Code)
  | .block body => places body
  | .ifThen _ thenBody => places thenBody
  | .ifElse _ thenBody elseBody => places thenBody ++ places elseBody
  | .evaluate _ | .assign _ _ | .print _ | .count | .give _ | .label _ | .switch _ | .fault => []

/-- The places of a method in the order of its text, each with all that follows in the
same braces. -/
def places : List Code → List (List Code)
  | [] => []
  | first :: others => (first :: others) :: (first.innerPlaces ++ places others)

end

def label? : List Code → Option String
  | .label name :: _ => some name
  | _ => none

/-- A return, and the label directly behind it. -/
def return? : List Code → Option (Expr × Option String)
  | .give value :: rest => some (value, label? rest)
  | _ => none

def switch? : List Code → Option (List (Nat × String))
  | .switch cases :: _ => some cases
  | _ => none

def labels (code : List Code) : List String :=
  (places code).filterMap label?

def returns (code : List Code) : List (Expr × Option String) :=
  (places code).filterMap return?

def switches (code : List Code) : List (List (Nat × String)) :=
  (places code).filterMap switch?

/-- The labels and jumps of a method that hands out the values `yields`. A counter goes
to the label behind the yield that it counted last, and there is no going back behind the
last of them. -/
structure Consistent (yields : List Expr) (method : List Code) : Prop where
  labels_eq : labels method = startLabel :: (List.range yields.length).map resumeLabel
  labels_nodup : (labels method).Nodup
  returns_eq : returns method =
    yields.zipIdx.map fun yielded => (yielded.1, some (resumeLabel yielded.2))
  switches_eq : ∃ cases, switches method = [cases] ∧
    cases.map Prod.fst = List.range (max 1 yields.length) ∧
    cases.lookup 0 = some startLabel ∧
    (∀ index value label, (returns method)[index]? = some (value, some label) →
      index + 1 < yields.length → cases.lookup (index + 1) = some label) ∧
    ∀ target ∈ cases.map Prod.snd, target ∈ labels method

def isControl : Code → Bool
  | .count | .give _ | .label _ | .switch _ | .fault => true
  | .evaluate _ | .assign _ _ | .print _ | .block _ | .ifThen _ _ | .ifElse _ _ _ => false

/-- Of all that a body is lowered to, `look` sees only the yields, and `found` in each. -/
structure Sees {α : Type} (look : List Code → Option α) (found : Expr × Nat → Option α) :
    Prop where
  plain : ∀ {code : Code} {rest : List Code}, code.isControl = false → look (code :: rest) = none
  yields : ∀ (value : Expr) (index : Nat) (rest : List Code),
    [.count :: .give value :: .label (resumeLabel index) :: rest,
      .give value :: .label (resumeLabel index) :: rest,
      .label (resumeLabel index) :: rest].filterMap look = [(value, index)].filterMap found

theorem sees_label : Sees label? fun yielded => some (resumeLabel yielded.2) := by
  refine ⟨fun {code rest} hcode => ?_, fun value index rest => rfl⟩
  cases code <;> first | rfl | cases hcode

theorem sees_return :
    Sees return? fun yielded => some (yielded.1, some (resumeLabel yielded.2)) := by
  refine ⟨fun {code rest} hcode => ?_, fun value index rest => rfl⟩
  cases code <;> first | rfl | cases hcode

theorem sees_switch : Sees switch? fun _ => none := by
  refine ⟨fun {code rest} hcode => ?_, fun value index rest => rfl⟩
  cases code <;> first | rfl | cases hcode

end Code

end Cpp

namespace Stmt

mutual

/-- The values of the yields in a statement, in the order of its text. -/
def yielded : Stmt → List Expr
  | .block body _ => yieldedAll body
  | .ifThen _ thenBody _ => thenBody.yielded
  | .ifElse _ thenBody elseBody _ => thenBody.yielded ++ elseBody.yielded
  | .yields value _ => [value]
  | .expression _ _ | .define _ _ _ | .returns _ _ | .print _ _ | .forwardFunction _ _ _
  | .function _ _ _ _ _ | .forwardCoroutine _ _ _ | .coroutine _ _ _ _ _
  | .entryPoint _ _ _ _ => []

def yieldedAll : List Stmt → List Expr
  | [] => []
  | first :: others => first.yielded ++ yieldedAll others

end

mutual

theorem length_yielded : ∀ tree : Stmt, tree.yielded.length = tree.yieldCount
  | .block body _ => length_yieldedAll body
  | .ifThen _ thenBody _ => length_yielded thenBody
  | .ifElse _ thenBody elseBody _ => by
      rw [yielded, List.length_append, length_yielded thenBody, length_yielded elseBody,
        yieldCount]
  | .yields _ _ => rfl
  | .expression _ _ | .define _ _ _ | .returns _ _ | .print _ _ | .forwardFunction _ _ _
  | .function _ _ _ _ _ | .forwardCoroutine _ _ _ | .coroutine _ _ _ _ _
  | .entryPoint _ _ _ _ => rfl

theorem length_yieldedAll : ∀ trees : List Stmt,
    (yieldedAll trees).length = yieldCountAll trees
  | [] => rfl
  | first :: others => by
      rw [yieldedAll, List.length_append, length_yielded first, length_yieldedAll others,
        yieldCountAll]

end

section Places

open Cpp (Code)

variable {α : Type} {look : List Code → Option α} {found : Expr × Nat → Option α}

theorem filterMap_places_cons (hsees : Code.Sees look found) {code : Code}
    (hcode : code.isControl = false) (rest : List Code) :
    (Code.places (code :: rest)).filterMap look =
      code.innerPlaces.filterMap look ++ (Code.places rest).filterMap look := by
  rw [Code.places, List.filterMap_cons_none (hsees.plain hcode), List.filterMap_append]

theorem filterMap_places_inBraces (hsees : Code.Sees look found) (code : List Code) :
    (Code.places (inBraces code)).filterMap look = (Code.places code).filterMap look := by
  unfold inBraces
  split
  · rw [filterMap_places_cons hsees rfl, Code.innerPlaces, Code.places, List.filterMap_nil,
      List.append_nil]
  · rfl

mutual

theorem filterMap_places_lower (hsees : Code.Sees look found) :
    ∀ (tree : Stmt) (index : Nat) (rest : List Code),
      (Code.places (tree.lower index ++ rest)).filterMap look =
        (tree.yielded.zipIdx index).filterMap found ++ (Code.places rest).filterMap look
  | .block body _, index, rest => by
      have hbody := filterMap_places_lowerAll hsees body index []
      rw [List.append_nil] at hbody
      rw [lower, List.singleton_append, filterMap_places_cons hsees rfl, Code.innerPlaces, hbody]
      simp [Code.places, yielded]
  | .ifThen condition thenBody _, index, rest => by
      have hthen := filterMap_places_lower hsees thenBody index []
      rw [List.append_nil] at hthen
      rw [lower, List.singleton_append, filterMap_places_cons hsees rfl, Code.innerPlaces,
        filterMap_places_inBraces hsees, hthen]
      simp [Code.places, yielded]
  | .ifElse condition thenBody elseBody _, index, rest => by
      have hthen := filterMap_places_lower hsees thenBody index []
      have helse := filterMap_places_lower hsees elseBody (index + thenBody.yieldCount) []
      rw [List.append_nil] at hthen helse
      rw [lower, List.singleton_append, filterMap_places_cons hsees rfl, Code.innerPlaces,
        List.filterMap_append, filterMap_places_inBraces hsees, hthen,
        filterMap_places_inBraces hsees, helse]
      simp [Code.places, yielded, List.zipIdx_append, length_yielded]
  | .yields value _, index, rest => by
      have hyields := hsees.yields value index rest
      rw [yielded, List.zipIdx_singleton, ← hyields, ← List.filterMap_append]
      simp [lower, Code.places, Code.innerPlaces]
  | .expression _ _, _, _ | .define _ _ _, _, _ | .print _ _, _, _ =>
      filterMap_places_cons hsees rfl _
  | .returns _ _, _, _ | .forwardFunction _ _ _, _, _ | .function _ _ _ _ _, _, _
  | .forwardCoroutine _ _ _, _, _ | .coroutine _ _ _ _ _, _, _ | .entryPoint _ _ _ _, _, _ => rfl

theorem filterMap_places_lowerAll (hsees : Code.Sees look found) :
    ∀ (trees : List Stmt) (index : Nat) (rest : List Code),
      (Code.places (lowerAll index trees ++ rest)).filterMap look =
        ((yieldedAll trees).zipIdx index).filterMap found ++ (Code.places rest).filterMap look
  | [], _, _ => rfl
  | first :: others, index, rest => by
      rw [lowerAll, List.append_assoc, filterMap_places_lower hsees first,
        filterMap_places_lowerAll hsees others, yieldedAll, List.zipIdx_append,
        List.filterMap_append, length_yielded, List.append_assoc]

end

theorem filterMap_places_method (hsees : Code.Sees look found) (body : List Stmt) :
    (Code.places (method body)).filterMap look =
      [method body, .label Cpp.startLabel :: (lowerAll 0 body ++ [.fault])].filterMap look ++
        (yieldedAll body).zipIdx.filterMap found ++ [[Code.fault]].filterMap look := by
  have hplaces : Code.places (method body) =
      [method body, .label Cpp.startLabel :: (lowerAll 0 body ++ [.fault])] ++
        Code.places (lowerAll 0 body ++ [.fault]) := by
    simp [method, Code.places, Code.innerPlaces]
  rw [hplaces, List.filterMap_append, filterMap_places_lowerAll hsees, List.append_assoc]
  rfl

theorem labels_method (body : List Stmt) :
    Code.labels (method body) =
      Cpp.startLabel :: (List.range (yieldCountAll body)).map Cpp.resumeLabel := by
  rw [Code.labels, filterMap_places_method Code.sees_label, List.filterMap_eq_map',
    ← length_yieldedAll, List.range_eq_range', ← List.zipIdx_map_snd, List.map_map]
  exact congrArg (Cpp.startLabel :: ·) (List.append_nil _)

theorem returns_method (body : List Stmt) :
    Code.returns (method body) =
      (yieldedAll body).zipIdx.map fun yielded =>
        (yielded.1, some (Cpp.resumeLabel yielded.2)) := by
  rw [Code.returns, filterMap_places_method Code.sees_return, List.filterMap_eq_map']
  exact List.append_nil _

theorem switches_method (body : List Stmt) :
    Code.switches (method body) = [jumps (yieldCountAll body)] := by
  rw [Code.switches, filterMap_places_method Code.sees_switch]
  simp [method, Code.switch?]

theorem numbers_jumps (count : Nat) : (jumps count).map Prod.fst = List.range (max 1 count) := by
  have hcount : max 1 count = (count - 1) + 1 := by omega
  rw [hcount, List.range_succ_eq_map, jumps, List.map_cons, List.map_map]
  rfl

theorem nodup_labels_method (body : List Stmt) : (Code.labels (method body)).Nodup := by
  rw [labels_method, List.nodup_cons]
  constructor
  · intro hstart
    obtain ⟨index, _, heq⟩ := List.mem_map.1 hstart
    exact Cpp.startLabel_ne_resumeLabel index heq.symm
  · exact List.nodup_range.map fun _ _ heq => Cpp.resumeLabel_injective heq

theorem mem_labels_of_mem_jumps {body : List Stmt} {target : String}
    (htarget : target ∈ (jumps (yieldCountAll body)).map Prod.snd) :
    target ∈ Code.labels (method body) := by
  rw [labels_method]
  rw [jumps, List.map_cons, List.map_map] at htarget
  cases htarget with
  | head => exact .head _
  | tail _ hlater =>
      obtain ⟨index, hindex, rfl⟩ := List.mem_map.1 hlater
      rw [List.mem_range] at hindex
      exact .tail _ (List.mem_map_of_mem (List.mem_range.2 (by omega)))

theorem consistent_method (body : List Stmt) :
    Code.Consistent (yieldedAll body) (method body) where
  labels_eq := by rw [labels_method, length_yieldedAll]
  labels_nodup := nodup_labels_method body
  returns_eq := returns_method body
  switches_eq := by
    rw [length_yieldedAll]
    refine ⟨_, switches_method body, numbers_jumps _, rfl, ?_, fun _ => mem_labels_of_mem_jumps⟩
    intro index value label hreturn hindex
    rw [lookup_jumps, if_neg (Nat.succ_ne_zero index), if_pos hindex, Nat.add_sub_cancel]
    rw [returns_method, List.getElem?_map, List.getElem?_zipIdx, Option.map_map,
      Option.map_eq_some_iff] at hreturn
    obtain ⟨_, _, heq⟩ := hreturn
    simpa using congrArg Prod.snd heq

end Places

end Stmt

/-! The names in a body. -/

def Expr.mentions (value : Expr) : List String :=
  value.references.map Reference.name

namespace Stmt

mutual

/-- The names in the expressions and the assignments of a statement. -/
def mentions : Stmt → List String
  | .block body _ => mentionsAll body
  | .expression value _ | .yields value _ => value.mentions
  | .define name value _ => name :: value.mentions
  | .ifThen condition thenBody _ => condition.mentions ++ thenBody.mentions
  | .ifElse condition thenBody elseBody _ =>
      condition.mentions ++ thenBody.mentions ++ elseBody.mentions
  | .returns value? _ => value?.toList.flatMap Expr.mentions
  | .print arguments _ => arguments.flatMap Expr.mentions
  | .forwardFunction _ _ _ | .function _ _ _ _ _ | .forwardCoroutine _ _ _
  | .coroutine _ _ _ _ _ | .entryPoint _ _ _ _ => []

def mentionsAll : List Stmt → List String
  | [] => []
  | first :: others => first.mentions ++ mentionsAll others

end

end Stmt

namespace Cpp.Statement

mutual

/-- The variables that a statement declares, in whatever braces. -/
def declares : Statement → List String
  | .declare name _ => [name]
  | .block body => declaresAll body
  | .ifThen _ thenBody => declaresAll thenBody
  | .ifElse _ thenBody elseBody => declaresAll thenBody ++ declaresAll elseBody
  | .evaluate _ | .assign _ _ | .print _ | .leave _ | .suspend _ _ => []

def declaresAll : List Statement → List String
  | [] => []
  | first :: others => first.declares ++ declaresAll others

end

theorem declaresAll_contents (statement : Statement) :
    declaresAll statement.contents = statement.declares := by
  cases statement <;> simp [contents, declares, declaresAll]

end Cpp.Statement

section Bodies

variable {context : Context} {name : String}

/-- A variable or a callable has the name. -/
def Context.Has (context : Context) (name : String) : Prop :=
  name ∈ context.values ∨ context.IsCallable name

theorem Context.Covers.has {value : Expr} (hcovers : context.Covers value)
    (hname : name ∈ value.mentions) : context.Has name := by
  obtain ⟨reference, hreference, rfl⟩ := List.mem_map.1 hname
  have hmeans := hcovers reference hreference
  cases reference with
  | value name => exact .inl hmeans
  | call name count =>
      obtain ⟨declaration, hdeclaration, hsame, _⟩ := hmeans
      exact .inr ⟨declaration, hdeclaration, hsame⟩

theorem Stmt.Legal.mem_values {tree : Stmt} (hlegal : tree.Legal context)
    (hinside : context.inCoroutine = true) (hname : name ∈ tree.defined?) :
    name ∈ context.values := by
  cases tree with
  | define other value span =>
      obtain rfl : other = name := Option.some.inj hname
      rw [Stmt.Legal, hinside] at hlegal
      exact hlegal.2.resolve_right fun hnew => Bool.noConfusion hnew.1
  | _ => cases hname

theorem Stmt.Legal.has_of_declare {tree : Stmt} (hlegal : tree.Legal context)
    (hinside : context.inCoroutine = true) (hhas : (context.declare tree.defined?).Has name) :
    context.Has name := by
  rcases hhas with hvalue | hcallable
  · rcases List.mem_append.1 hvalue with hdefined | hearlier
    · exact .inl (hlegal.mem_values hinside (Option.mem_toList.1 hdefined))
    · exact .inl hearlier
  · exact .inr hcallable

namespace Stmt

mutual

/-- The body of a coroutine names only what it finds. -/
theorem has_of_mem_mentions : ∀ (tree : Stmt) {context : Context},
    tree.Legal context → context.inCoroutine = true → name ∈ tree.mentions → context.Has name
  | .block body _, _, hlegal, hinside, hname => has_of_mem_mentionsAll body hlegal hinside hname
  | .expression value _, _, hlegal, _, hname => Context.Covers.has hlegal hname
  | .yields value _, _, hlegal, _, hname => Context.Covers.has hlegal.2 hname
  | .define other value span, context, hlegal, hinside, hname => by
      have hdefine : (Stmt.define other value span).Legal context := hlegal
      rcases List.mem_cons.1 hname with rfl | hvalue
      · exact .inl (hdefine.mem_values hinside rfl)
      · exact Context.Covers.has hlegal.1 hvalue
  | .ifThen condition thenBody _, context, hlegal, hinside, hname => by
      rcases List.mem_append.1 hname with hcondition | hthen
      · exact Context.Covers.has hlegal.1 hcondition
      · exact has_of_mem_mentions thenBody hlegal.2 hinside hthen
  | .ifElse condition thenBody elseBody _, context, hlegal, hinside, hname => by
      rw [mentions, List.mem_append, List.mem_append] at hname
      rcases hname with (hcondition | hthen) | helse
      · exact Context.Covers.has hlegal.1 hcondition
      · exact has_of_mem_mentions thenBody hlegal.2.1 hinside hthen
      · exact has_of_mem_mentions elseBody hlegal.2.2 hinside helse
  | .returns value? _, context, hlegal, _, hname => by
      obtain ⟨value, hvalue, hmentions⟩ := List.mem_flatMap.1 hname
      exact Context.Covers.has (hlegal.2 value (Option.mem_toList.1 hvalue)) hmentions
  | .print arguments _, context, hlegal, _, hname => by
      obtain ⟨argument, hargument, hmentions⟩ := List.mem_flatMap.1 hname
      exact Context.Covers.has (hlegal argument hargument) hmentions
  | .forwardFunction _ _ _, _, hlegal, _, _ | .function _ _ _ _ _, _, hlegal, _, _
  | .forwardCoroutine _ _ _, _, hlegal, _, _ | .coroutine _ _ _ _ _, _, hlegal, _, _
  | .entryPoint _ _ _ _, _, hlegal, _, _ => hlegal.elim

theorem has_of_mem_mentionsAll : ∀ (trees : List Stmt) {context : Context},
    LegalAll context trees → context.inCoroutine = true → name ∈ mentionsAll trees →
      context.Has name
  | [], _, _, _, hname => nomatch hname
  | first :: others, context, hlegal, hinside, hname => by
      rcases List.mem_append.1 hname with hfirst | hothers
      · exact has_of_mem_mentions first hlegal.1 hinside hfirst
      · exact hlegal.1.has_of_declare hinside
          (has_of_mem_mentionsAll others hlegal.2 hinside hothers)

end

mutual

theorem declares_image : ∀ (tree : Stmt) {context : Context} (index : Nat),
    tree.Legal context → context.inCoroutine = true →
      (tree.image context.values index).declares = []
  | .block body _, _, index, hlegal, hinside => declaresAll_imageAll body index hlegal hinside
  | .define name value span, context, index, hlegal, hinside => by
      have hdefine : (Stmt.define name value span).Legal context := hlegal
      rw [image, if_pos (hdefine.mem_values hinside rfl), Cpp.Statement.declares]
  | .ifThen condition thenBody _, context, index, hlegal, hinside => by
      rw [image, Cpp.Statement.declares, Cpp.Statement.declaresAll_contents]
      exact declares_image thenBody index hlegal.2 hinside
  | .ifElse condition thenBody elseBody _, context, index, hlegal, hinside => by
      rw [image, Cpp.Statement.declares, Cpp.Statement.declaresAll_contents,
        Cpp.Statement.declaresAll_contents, declares_image thenBody index hlegal.2.1 hinside,
        declares_image elseBody _ hlegal.2.2 hinside, List.append_nil]
  | .expression _ _, _, _, _, _ | .returns _ _, _, _, _, _ | .yields _ _, _, _, _, _
  | .print _ _, _, _, _, _ | .forwardFunction _ _ _, _, _, _, _ | .function _ _ _ _ _, _, _, _, _
  | .forwardCoroutine _ _ _, _, _, _, _ | .coroutine _ _ _ _ _, _, _, _, _
  | .entryPoint _ _ _ _, _, _, _, _ => rfl

theorem declaresAll_imageAll : ∀ (trees : List Stmt) {context : Context} (index : Nat),
    LegalAll context trees → context.inCoroutine = true →
      Cpp.Statement.declaresAll (imageAll context.values index trees) = []
  | [], _, _, _, _ => rfl
  | first :: others, context, index, hlegal, hinside => by
      have hothers := declaresAll_imageAll others (index + first.yieldCount) hlegal.2 hinside
      rw [imageAll, Cpp.Statement.declaresAll, declares_image first index hlegal.1 hinside]
      exact hothers

end

end Stmt

end Bodies

namespace Emit

open Emitter Cpp

variable {state after : State} {text : String}

namespace State

/-- What can be used in a state. Of two signatures of one name the first counts. -/
def context (state : State) : Context :=
  ⟨state.names.scopes.frames.flatten,
    state.names.callables.signatures.filter fun signature =>
      state.names.callables.get? signature.name = some signature,
    state.inCoroutine⟩

theorem knows_context (state : State) : state.Knows state.context := by
  refine ⟨fun reference => ?_, rfl⟩
  cases reference with
  | value name =>
      rw [Names.Resolves, Scopes.isDeclared_iff, Context.Means, context, List.mem_flatten]
  | call name count =>
      simp only [Names.Resolves, Context.Means, context, Option.map_eq_some_iff, List.mem_filter,
        decide_eq_true_iff]
      constructor
      · rintro ⟨signature, hget, harity⟩
        have hname := Callables.get?_name hget
        exact ⟨signature, ⟨List.mem_of_find?_eq_some hget, hname ▸ hget⟩, hname, harity⟩
      · rintro ⟨signature, ⟨_, hget⟩, rfl, harity⟩
        exact ⟨signature, hget, harity⟩

end State

theorem not_isTaken_of_hiddenByState? {names : Names} {parameters : List Parameter} {span : Span}
    (hhidden : hiddenByState? names parameters span = none) :
    ¬ (names.enter.insertAll parameters).isTaken stateField = true := by
  unfold hiddenByState? at hhidden
  split at hhidden
  · cases hhidden
  · rename_i hfind
    have hparameters : stateField ∉ parameters.map Parameter.name := by
      simpa using hfind
    have hnames : ¬ names.isTaken stateField = true := by
      simpa using hhidden
    rw [Names.isTaken, Bool.or_eq_true] at hnames ⊢
    rw [Names.isDeclared_insertAll, Names.callables_insertAll, Names.enter,
      Scopes.isDeclared_enter]
    rintro ((hparameter | hdeclared) | hregistered)
    · exact hparameters hparameter
    · exact hnames (.inl hdeclared)
    · exact hnames (.inr hregistered)

/-- The class for an accepted coroutine. The yields of the body are counted, one by one, and the
labels and jumps of the method are those for that many; the body declares no variable that a jump
could pass by, and names nothing like the counter. -/
theorem coroutine_jumps_consistent {name : String} {parameters : List Parameter}
    {body : List Stmt} {bodySpan span : Span} {state after : State} {text : String}
    (haccepted : coroutine name parameters body bodySpan span state = (.ok text, after)) :
    ∃ entered left statements, ∃ emitted : Resumable,
      entered.body = .coroutine (.start parameters.length) ∧
      blockContents body bodySpan entered = (.ok emitted.body, left) ∧
      left.body = .coroutine emitted.lowering ∧
      emitted.lowering.yieldCount = (Stmt.yieldedAll body).length ∧
      text = emitted.render ∧
      emitted.nextMethod = "auto next() " ++ braced (Code.texts (Stmt.method body)) ∧
      Code.Consistent (Stmt.yieldedAll body) (Stmt.method body) ∧
      emitted.body = Statement.texts statements ∧
      Statement.declaresAll statements = [] ∧
      stateField ∉ Stmt.mentionsAll body := by
  obtain ⟨registered, declared, left, texts, _, hhidden, hdeclare, hcontents, htext⟩ :=
    of_coroutine haccepted
  obtain ⟨_, rfl⟩ := (runs_declareParameters parameters declared).1 ⟨(), hdeclare⟩
  have hfree := not_isTaken_of_hiddenByState? hhidden
  have hknows := State.knows_context
    ⟨registered.names.enter.insertAll parameters, .coroutine (.start parameters.length)⟩
  have hcounts := Body.counts_start parameters.length
  obtain ⟨hlegal, _⟩ := (runs_blockContents hknows body bodySpan left).1 ⟨texts, hcontents⟩
  obtain ⟨hstatements, hleft⟩ := shows_blockContents hknows hcounts hcontents
  obtain ⟨_, hinside, _⟩ := of_inFrame hcontents
  obtain ⟨hsame, _⟩ := lowers_stmts body rfl hinside
  refine ⟨_, _, _, Resumable.mk name (parameterNames parameters) _ texts, rfl, hcontents, hleft,
    ?_, htext _ hleft, ?_, Stmt.consistent_method body, hstatements,
    Stmt.declaresAll_imageAll body 0 hlegal rfl, ?_⟩
  · rw [Stmt.length_yieldedAll]
    exact Nat.zero_add _
  · simp only [Lowering.start, Nat.zero_add]
    exact nextMethod_eq hsame
  · intro hmentions
    exact hfree ((hknows.isTaken stateField).2
      (Stmt.has_of_mem_mentionsAll body hlegal rfl hmentions))

/-- A body with a yield on each way: `if (x) \x7b yield 1; \x7d else yield x; x = 2; yield x;`. -/
def branching : List Stmt :=
  [.ifElse (.symbol "x" default) (.block [.yields (.number "1" default) default] default)
      (.yields (.symbol "x" default) default) default,
    .define "x" (.number "2" default) default, .yields (.symbol "x" default) default]

theorem coroutine_jumps_consistent_branching :
    ∃ text after,
      coroutine "g" [⟨"x", default⟩] branching default default .initial = (.ok text, after) ∧
      (∃ emitted : Resumable, text = emitted.render ∧ emitted.lowering.yieldCount = 3) ∧
      Code.labels (Stmt.method branching) =
        [startLabel, resumeLabel 0, resumeLabel 1, resumeLabel 2] ∧
      stateField ∉ Stmt.mentionsAll branching := by
  obtain ⟨text, after, haccepted⟩ : ∃ text after,
      coroutine "g" [⟨"x", default⟩] branching default default .initial = (.ok text, after) :=
    ⟨_, _, rfl⟩
  obtain ⟨_, _, _, emitted, _, _, _, hcount, htext, _, hconsistent, _, _, hstate⟩ :=
    coroutine_jumps_consistent haccepted
  exact ⟨text, after, haccepted, ⟨emitted, htext, hcount⟩, hconsistent.labels_eq, hstate⟩

end Emit

end Coroscript
