import Coroscript.Proofs.Emit.Output

namespace Coroscript.Emit

/-! The frames and the scopes of the output find every name in the same place. -/

open Emitter Cpp

/-! What the frames find. -/

namespace State

def lookUp (state : State) (value : Expr) : List Occurrence :=
  Occurrence.uses state.names.scopes.frames value.reads

def opened (state : State) : State :=
  { state with names := state.names.enter }

/-- The state that a step leads to. -/
def behind {α : Type} (state : State) (step : Emitter α) : State :=
  (step state).2

theorem behind_of_runs {α : Type} {state after : State} {step : Emitter α}
    (hruns : Runs step state after) : state.behind step = after := by
  obtain ⟨a, hstep⟩ := hruns
  rw [behind, hstep]

def inBody (state : State) (body : Body) : State :=
  { state with body }

/-- The state in which the body of a branch is emitted. -/
def inBranch (state : State) (body : Stmt) : State :=
  match body with
  | .block _ _ => state
  | _ => state.opened

end State

mutual

/-- The places of a statement that name a variable, with the frames that hold the name when
the statement is emitted in `state`. -/
def lookups : Stmt → State → List Occurrence
  | .block body _, state => lookupsAll body state.opened
  | .expression value _, state => state.lookUp value
  | .define name value _, state =>
      ⟨if state.names.scopes.isDeclared name then .assignment else .declaration, name,
        ScopeChain.sites name state.names.scopes.frames⟩ :: state.lookUp value
  | .ifThen condition thenBody _, state =>
      state.lookUp condition ++ lookups thenBody (state.inBranch thenBody)
  | .ifElse condition thenBody elseBody _, state =>
      state.lookUp condition ++ lookups thenBody (state.inBranch thenBody) ++
        lookups elseBody ((state.behind (branch thenBody (stmt thenBody))).inBranch elseBody)
  | .returns value? _, state => value?.toList.flatMap state.lookUp
  | .yields value _, state => state.lookUp value
  | .print arguments _, state => arguments.flatMap state.lookUp
  | .forwardFunction _ _ _, _ | .function _ _ _ _ _, _ | .forwardCoroutine _ _ _, _
  | .coroutine _ _ _ _ _, _ | .entryPoint _ _ _ _, _ => []

def lookupsAll : List Stmt → State → List Occurrence
  | [], _ => []
  | first :: others, state => lookups first state ++ lookupsAll others (state.behind (stmt first))

end

def lookupsItem : Stmt → State → List Occurrence
  | .define name value _, state =>
      ⟨.declaration, name, ScopeChain.sites name state.names.scopes.frames⟩ :: state.lookUp value
  | .function name parameters body _ span, state =>
      let registered :=
        state.behind (register ⟨name, parameters.length, .function, true⟩ span.start)
      lookupsAll body
        ((registered.behind (declareParameters parameters)).inBody .function).opened
  | .coroutine name parameters body _ span, state =>
      let registered :=
        state.behind (register ⟨name, parameters.length, .coroutine, true⟩ span.start)
      lookupsAll body ((registered.behind (declareParameters parameters)).inBody
        (.coroutine (.start parameters.length))).opened
  | .entryPoint _ body _ span, state =>
      let registered := state.behind (register ⟨entryName, 0, .entryPoint, true⟩ span.start)
      lookupsAll body (registered.inBody .function).opened
  | _, _ => []

def lookupsItems : List Stmt → State → List Occurrence
  | [], _ => []
  | first :: others, state =>
      lookupsItem first state ++ lookupsItems others (state.behind (item first))

end Coroscript.Emit

namespace Coroscript

def Program.lookups (program : Program) : List Cpp.Occurrence :=
  Emit.lookupsItems program.items .initial

theorem Scopes.frames_insert (scopes : Scopes) (name : String) :
    (scopes.insert name).frames = Cpp.ScopeChain.declare name scopes.frames := by
  cases hinner : scopes.inner with
  | nil => simp [insert, frames, Cpp.ScopeChain.declare, hinner]
  | cons frame inner => simp [insert, frames, Cpp.ScopeChain.declare, hinner]

theorem Scopes.sites_frames_eq_nil_iff (scopes : Scopes) (name : String) :
    Cpp.ScopeChain.sites name scopes.frames = [] ↔ ¬ scopes.isDeclared name = true := by
  rw [Cpp.ScopeChain.sites_eq_nil_iff, Scopes.isDeclared_iff]
  simp

namespace Emit

open Emitter Cpp

/-! Scopes and frames. -/

/-- A scope chain of the output and the frames of the emitter declare the same names at the
same places, each once. In a coroutine the chain has the counter besides. -/
structure Mirrors (chain : ScopeChain) (state : State) : Prop where
  sites_eq : ∀ name, state.inCoroutine = false ∨ state.names.scopes.isDeclared name = true →
    chain.sites name = ScopeChain.sites name state.names.scopes.frames
  once : ∀ name, (ScopeChain.sites name state.names.scopes.frames).length ≤ 1

namespace Mirrors

variable {chain : ScopeChain} {state : State} {context : Context}

theorem opened (hmirrors : Mirrors chain state) : Mirrors ([] :: chain) state.opened := by
  constructor
  · intro name hname
    have hframes : state.opened.names.scopes.frames = [] :: state.names.scopes.frames := rfl
    rw [hframes, ScopeChain.sites_enter, ScopeChain.sites_enter, hmirrors.sites_eq name]
    exact hname.imp_right fun hdeclared => by
      rwa [State.opened, Names.enter, Scopes.isDeclared_enter] at hdeclared
  · intro name
    have hframes : state.opened.names.scopes.frames = [] :: state.names.scopes.frames := rfl
    rw [hframes, ScopeChain.sites_enter, List.length_map]
    exact hmirrors.once name

theorem advance (hmirrors : Mirrors chain state) (count : Nat) :
    Mirrors chain { state with body := state.body.advance count } := by
  refine ⟨fun name hname => hmirrors.sites_eq name (hname.imp_left fun hbody => ?_),
    hmirrors.once⟩
  cases hkind : state.body <;> simp_all [State.inCoroutine, Body.advance]

theorem declare (hmirrors : Mirrors chain state) {name : String}
    (hbody : state.inCoroutine = false) (hname : ¬ state.names.scopes.isDeclared name = true) :
    Mirrors (chain.declare name)
      { state with names.scopes := state.names.scopes.insert name } := by
  constructor
  · intro other _
    rw [Scopes.frames_insert, ScopeChain.sites_declare, ScopeChain.sites_declare,
      hmirrors.sites_eq other (.inl hbody)]
  · intro other
    rw [Scopes.frames_insert, ScopeChain.sites_declare]
    split
    · rename_i heq
      rw [← heq, (Scopes.sites_frames_eq_nil_iff _ _).2 hname]
      exact Nat.le_refl 1
    · exact hmirrors.once other

/-- In a coroutine, a scope may declare more than the frames do. -/
theorem beside {scope : List String} {outer : ScopeChain} {name : String}
    (hmirrors : Mirrors (scope :: outer) state) (hbody : state.inCoroutine = true)
    (hname : ¬ state.names.scopes.isDeclared name = true) :
    Mirrors ((scope ++ [name]) :: outer) state := by
  refine ⟨fun other hother => ?_, hmirrors.once⟩
  have hdeclared := hother.resolve_left (by simp [hbody])
  have hne : name ≠ other := fun heq => hname (heq ▸ hdeclared)
  rw [← hmirrors.sites_eq other hother]
  simp [ScopeChain.sites, List.count_append, hne]

theorem single (hmirrors : Mirrors chain state) {name : String}
    (hname : state.names.scopes.isDeclared name = true) :
    ∃ site, ScopeChain.sites name state.names.scopes.frames = [site] := by
  apply List.length_eq_one_iff.1
  have hpositive : 0 < (ScopeChain.sites name state.names.scopes.frames).length :=
    List.length_pos_iff.2 fun hnil => (Scopes.sites_frames_eq_nil_iff _ _).1 hnil hname
  have honce := hmirrors.once name
  omega

end Mirrors

/-! Statements. -/

/-- The output names variables where the frames found them, and each as it has to. -/
def Binds (occurrences found : List Occurrence) : Prop :=
  occurrences = found ∧ ∀ occurrence ∈ found, occurrence.Bound

namespace Binds

theorem nil : Binds [] [] :=
  ⟨rfl, fun _ hmem => nomatch hmem⟩

theorem append {left right left' right' : List Occurrence} (hleft : Binds left left')
    (hright : Binds right right') : Binds (left ++ right) (left' ++ right') :=
  ⟨congrArg₂ (· ++ ·) hleft.1 hright.1, List.forall_mem_append.2 ⟨hleft.2, hright.2⟩⟩

theorem cons {first : Occurrence} {others others' : List Occurrence} (hfirst : first.Bound)
    (hothers : Binds others others') : Binds (first :: others) (first :: others') :=
  ⟨congrArg (first :: ·) hothers.1, List.forall_mem_cons.2 ⟨hfirst, hothers.2⟩⟩

theorem flatMap {α : Type} {values : List α} {left right : α → List Occurrence}
    (hvalues : ∀ value ∈ values, Binds (left value) (right value)) :
    Binds (values.flatMap left) (values.flatMap right) := by
  induction values with
  | nil => exact nil
  | cons first others ih =>
      obtain ⟨hfirst, hothers⟩ := List.forall_mem_cons.1 hvalues
      exact hfirst.append (ih hothers)

end Binds

section Statements

variable {chain : ScopeChain} {state : State} {context : Context}

theorem isDeclared_of_covers (hknows : state.Knows context) {value : Expr}
    (hvalue : context.Covers value) :
    ∀ name ∈ value.reads, state.names.scopes.isDeclared name = true := by
  intro name hname
  obtain ⟨reference, hreference, hvariable⟩ := List.mem_filterMap.1 hname
  cases reference with
  | value other =>
      cases hvariable
      exact (hknows.means _).2 (hvalue _ hreference)
  | call other count => cases hvariable

theorem binds_value (hknows : state.Knows context) (hmirrors : Mirrors chain state)
    {value : Expr} (hvalue : context.Covers value) :
    Binds (value.emitted.occurrences chain) (state.lookUp value) := by
  have hdeclared := isDeclared_of_covers hknows hvalue
  rw [Expression.occurrences, Expr.emitted, Expr.reads_image]
  constructor
  · apply List.map_congr_left
    intro name hname
    rw [hmirrors.sites_eq name (.inr (hdeclared name hname))]
  · intro occurrence hoccurrence
    obtain ⟨name, hname, rfl⟩ := List.mem_map.1 hoccurrence
    exact hmirrors.single (hdeclared name hname)

/-- The initial value of a new name sees the name, but does not read it. -/
theorem binds_declaration (hknows : state.Knows context) (hmirrors : Mirrors chain state)
    {name : String} {value : Expr} (hvalue : context.Covers value)
    (hbody : state.inCoroutine = false) (hname : ¬ state.names.scopes.isDeclared name = true) :
    Binds (⟨.declaration, name, chain.sites name⟩ ::
        value.emitted.occurrences (chain.declare name))
      (⟨.declaration, name, ScopeChain.sites name state.names.scopes.frames⟩ ::
        state.lookUp value) := by
  have hinitial : value.emitted.occurrences (chain.declare name) =
      value.emitted.occurrences chain := by
    rw [Expression.occurrences, Expression.occurrences, Expr.emitted, Expr.reads_image]
    apply List.map_congr_left
    intro other hother
    rw [ScopeChain.sites_declare, if_neg]
    intro heq
    exact hname (heq ▸ isDeclared_of_covers hknows hvalue other hother)
  rw [hinitial, hmirrors.sites_eq name (.inl hbody)]
  exact .cons ((Scopes.sites_frames_eq_nil_iff _ _).2 hname) (binds_value hknows hmirrors hvalue)

theorem binds_define (hknows : state.Knows context) (hmirrors : Mirrors chain state)
    {name : String} {value : Expr} {span : Span}
    (hlegal : (Stmt.define name value span).Legal context) (index : Nat) :
    Binds (((Stmt.define name value span).image context.values index).occurrences chain)
      (lookups (.define name value span) state) := by
  have hvisible := hknows.isDeclared name
  rw [Stmt.Legal] at hlegal
  obtain ⟨hvalue, hplace⟩ := hlegal
  rw [Stmt.image, lookups]
  by_cases hdeclared : state.names.scopes.isDeclared name = true
  · rw [if_pos (hvisible.1 hdeclared), if_pos hdeclared, Statement.occurrences,
      hmirrors.sites_eq name (.inr hdeclared)]
    exact .cons (hmirrors.single hdeclared) (binds_value hknows hmirrors hvalue)
  · obtain ⟨hbody, _⟩ := hplace.resolve_left (mt hvisible.2 hdeclared)
    rw [if_neg (mt hvisible.2 hdeclared), if_neg hdeclared, Statement.occurrences]
    exact binds_declaration hknows hmirrors hvalue (hknows.inCoroutine.trans hbody) hdeclared

theorem Mirrors.past (hknows : state.Knows context) (hmirrors : Mirrors chain state)
    {tree : Stmt} (hlegal : tree.Legal context) (index : Nat) :
    Mirrors ((tree.image context.values index).past chain) (state.past tree) := by
  cases tree with
  | define name value span =>
      have hvisible := hknows.isDeclared name
      rw [Stmt.Legal] at hlegal
      rw [Stmt.image, State.past, Stmt.defined?, Stmt.yieldCount, Body.advance_zero]
      by_cases hdeclared : state.names.scopes.isDeclared name = true
      · rw [if_pos (hvisible.1 hdeclared), Names.introduce_of_declared hdeclared]
        exact hmirrors
      · obtain ⟨hbody, _⟩ := hlegal.2.resolve_left (mt hvisible.2 hdeclared)
        rw [if_neg (mt hvisible.2 hdeclared), Names.introduce_of_new hdeclared]
        exact hmirrors.declare (hknows.inCoroutine.trans hbody) hdeclared
  | block | expression | ifThen | ifElse | returns | yields | print =>
      rw [Stmt.image]
      exact hmirrors.advance _
  | forwardFunction | function | forwardCoroutine | coroutine | entryPoint =>
      rw [Stmt.Legal] at hlegal
      exact hlegal.elim

theorem behind_stmt (hknows : state.Knows context) {tree : Stmt}
    (hlegal : tree.Legal context) : state.behind (stmt tree) = state.past tree :=
  State.behind_of_runs ((runs_stmt tree hknows _).2 ⟨hlegal, rfl⟩)

theorem behind_branch (hknows : state.Knows context) {tree : Stmt}
    (hlegal : tree.Legal context) :
    state.behind (branch tree (stmt tree)) =
      { state with body := state.body.advance tree.yieldCount } :=
  State.behind_of_runs ((runs_branch (runs_stmt tree) hknows _).2 ⟨hlegal, rfl⟩)

def Located (tree : Stmt) : Prop :=
  ∀ {chain : ScopeChain} {state : State} {context : Context}, state.Knows context →
    Mirrors chain state → tree.Legal context → ∀ index,
      Binds ((tree.image context.values index).occurrences chain) (lookups tree state)

theorem binds_branch {tree : Stmt} (htree : Located tree) (hknows : state.Knows context)
    (hmirrors : Mirrors chain state) (hlegal : tree.Legal context) (index : Nat) :
    Binds (Statement.occurrencesAll ([] :: chain) (tree.image context.values index).contents)
      (lookups tree (state.inBranch tree)) := by
  by_cases hblock : ∃ inner span, tree = .block inner span
  · obtain ⟨inner, span, rfl⟩ := hblock
    exact htree hknows hmirrors hlegal index
  · have hstate : state.inBranch tree = state.opened := by
      cases tree with
      | block inner span => exact absurd ⟨inner, span, rfl⟩ hblock
      | _ => rfl
    rw [contents_image hblock (declaration?_of_legal hlegal), hstate,
      Statement.occurrencesAll, Statement.occurrencesAll, List.append_nil]
    exact htree hknows.enter hmirrors.opened hlegal index

mutual

theorem binds_stmt : ∀ tree : Stmt, Located tree
  | .expression value span, chain, state, context, hknows, hmirrors, hlegal, index => by
      rw [Stmt.Legal] at hlegal
      rw [Stmt.image, lookups, Statement.occurrences]
      exact binds_value hknows hmirrors hlegal
  | .block body span, chain, state, context, hknows, hmirrors, hlegal, index => by
      rw [Stmt.Legal] at hlegal
      rw [Stmt.image, lookups, Statement.occurrences]
      exact binds_stmts body hknows.enter hmirrors.opened hlegal index
  | .define name value span, _, _, _, hknows, hmirrors, hlegal, index =>
      binds_define hknows hmirrors hlegal index
  | .ifThen condition thenBody span, chain, state, context, hknows, hmirrors, hlegal, index => by
      rw [Stmt.Legal] at hlegal
      obtain ⟨hcondition, hthen⟩ := hlegal
      rw [Stmt.image, lookups, Statement.occurrences]
      exact (binds_value hknows hmirrors hcondition).append
        (binds_branch (binds_stmt thenBody) hknows hmirrors hthen index)
  | .ifElse condition thenBody elseBody span, chain, state, context, hknows, hmirrors, hlegal,
      index => by
      rw [Stmt.Legal] at hlegal
      obtain ⟨hcondition, hthen, helse⟩ := hlegal
      rw [Stmt.image, lookups, Statement.occurrences, behind_branch hknows hthen]
      exact ((binds_value hknows hmirrors hcondition).append
        (binds_branch (binds_stmt thenBody) hknows hmirrors hthen index)).append
        (binds_branch (binds_stmt elseBody) hknows.advance (hmirrors.advance _) helse _)
  | .returns value? span, chain, state, context, hknows, hmirrors, hlegal, index => by
      rw [Stmt.Legal] at hlegal
      rw [Stmt.image, lookups, Statement.occurrences]
      cases value? with
      | none => exact .nil
      | some value =>
          exact .append (binds_value hknows hmirrors (hlegal.2 value rfl)) .nil
  | .yields value span, chain, state, context, hknows, hmirrors, hlegal, index => by
      rw [Stmt.Legal] at hlegal
      rw [Stmt.image, lookups, Statement.occurrences]
      exact binds_value hknows hmirrors hlegal.2
  | .print arguments span, chain, state, context, hknows, hmirrors, hlegal, index => by
      rw [Stmt.Legal] at hlegal
      rw [Stmt.image, lookups, Statement.occurrences, List.flatMap_map]
      apply Binds.flatMap
      intro argument hargument
      exact binds_value hknows hmirrors (hlegal argument hargument)
  | .forwardFunction _ _ _, _, _, _, _, _, hlegal, _
  | .function _ _ _ _ _, _, _, _, _, _, hlegal, _
  | .forwardCoroutine _ _ _, _, _, _, _, _, hlegal, _
  | .coroutine _ _ _ _ _, _, _, _, _, _, hlegal, _
  | .entryPoint _ _ _ _, _, _, _, _, _, hlegal, _ => by
      rw [Stmt.Legal] at hlegal
      exact hlegal.elim

theorem binds_stmts : ∀ (trees : List Stmt) {chain : ScopeChain} {state : State}
    {context : Context}, state.Knows context → Mirrors chain state →
      Stmt.LegalAll context trees → ∀ index,
        Binds (Statement.occurrencesAll chain (Stmt.imageAll context.values index trees))
          (lookupsAll trees state)
  | [], _, _, _, _, _, _, _ => .nil
  | first :: others, chain, state, context, hknows, hmirrors, hlegal, index => by
      rw [Stmt.LegalAll] at hlegal
      obtain ⟨hfirst, hothers⟩ := hlegal
      rw [Stmt.imageAll, lookupsAll, Statement.occurrencesAll, behind_stmt hknows hfirst]
      exact (binds_stmt first hknows hmirrors hfirst index).append
        (binds_stmts others (hknows.past first) (.past hknows hmirrors hfirst index) hothers _)

end

end Statements

/-! Definitions. -/

section Definitions

variable {state after : State} {before : List Stmt} {outer : List String} {text : String}

theorem scopes_insertAll {names : Names} {frame : Frame} {inner : List Frame}
    (hinner : names.scopes.inner = frame :: inner) (parameters : List Parameter) :
    (names.insertAll parameters).scopes =
      ⟨((parameters.map Parameter.name).reverse ++ frame) :: inner, names.scopes.global⟩ := by
  induction parameters generalizing names frame with
  | nil => simp [Names.insertAll, ← hinner]
  | cons first others ih =>
      rw [Names.insertAll, List.foldl_cons, ← Names.insertAll]
      have hinsert : (names.scopes.insert first.name).inner = (first.name :: frame) :: inner := by
        rw [Scopes.insert, hinner]
      have hglobal : (names.scopes.insert first.name).global = names.scopes.global := by
        rw [Scopes.insert, hinner]
      rw [ih hinsert, hglobal]
      simp

theorem mirrors_of_nodup {chain : ScopeChain} (hframes : state.names.scopes.frames = chain)
    (hnodup : chain.flatten.Nodup) : Mirrors chain state := by
  subst hframes
  refine ⟨fun _ _ => rfl, fun name => ?_⟩
  rw [ScopeChain.length_sites]
  exact List.nodup_iff_count_le_one.1 hnodup name

/-- Between two definitions only the global frame is open. -/
structure Outermost (state : State) (before : List Stmt) (outer : List String) : Prop where
  agrees : state.Agrees before
  scopes : state.names.scopes = ⟨[], outer⟩
  nodup : outer.Nodup

namespace Outermost

theorem frames (houtermost : Outermost state before outer) :
    state.names.scopes.frames = [outer] := by
  rw [houtermost.scopes]
  rfl

theorem isDeclared_iff (houtermost : Outermost state before outer) (name : String) :
    state.names.scopes.isDeclared name = true ↔ name ∈ outer := by
  rw [Scopes.isDeclared_iff, houtermost.frames]
  simp

theorem mirrors (houtermost : Outermost state before outer) (kind : Body) :
    Mirrors [outer] { state with body := kind } :=
  mirrors_of_nodup houtermost.frames (by simpa using houtermost.nodup)

theorem mirrors_parameters (houtermost : Outermost state before outer)
    {parameters : List Parameter} (hdistinct : (parameters.map Parameter.name).Nodup)
    (hfree : ∀ parameter ∈ parameters, ¬ state.names.isTaken parameter.name = true)
    (kind : Body) :
    Mirrors [(parameters.map Parameter.name).reverse, outer]
      ⟨state.names.enter.insertAll parameters, kind⟩ := by
  apply mirrors_of_nodup
  · have hinner : state.names.enter.scopes.inner = [] :: [] := by
      simp [Names.enter, Scopes.enter, houtermost.scopes]
    rw [scopes_insertAll hinner, List.append_nil]
    simp [Scopes.frames, Names.enter, Scopes.enter, houtermost.scopes]
  · rw [List.flatten_cons, List.flatten_cons, List.flatten_nil, List.append_nil,
      List.nodup_append']
    refine ⟨List.nodup_reverse.2 hdistinct, houtermost.nodup, ?_⟩
    intro name hname houter
    obtain ⟨parameter, hparameter, rfl⟩ := List.mem_map.1 (List.mem_reverse.1 hname)
    apply hfree parameter hparameter
    rw [Names.isTaken, (houtermost.isDeclared_iff _).2 houter, Bool.true_or]

theorem register (houtermost : Outermost state before outer) (tree : Stmt)
    {declaration : Signature} (hdeclaration : tree.declaration? = some declaration)
    {position : Position} (hregister : Runs (register declaration position) state after) :
    Outermost after (before ++ [tree]) outer := by
  refine ⟨agrees_register houtermost.agrees hdeclaration hregister, ?_, houtermost.nodup⟩
  obtain ⟨_, callables, _, rfl⟩ := runs_register.1 hregister
  exact houtermost.scopes

theorem declareParameters {tree : Stmt} (houtermost : Outermost state (before ++ [tree]) outer)
    (hdeclaration : tree.declaration?.isSome = true) {parameters : List Parameter}
    (hfresh : tree.FreshParameters before parameters) :
    state.behind (declareParameters parameters) =
        { state with names := state.names.enter.insertAll parameters } ∧
      ∀ kind, Mirrors [(parameters.map Parameter.name).reverse, outer]
        ⟨state.names.enter.insertAll parameters, kind⟩ := by
  rw [Stmt.FreshParameters] at hfresh
  simp only [← houtermost.agrees.isTaken_iff hdeclaration] at hfresh
  have hdeclare := (runs_declareParameters parameters _).2 ⟨hfresh, rfl⟩
  exact ⟨State.behind_of_runs hdeclare, houtermost.mirrors_parameters hfresh.1 hfresh.2⟩

end Outermost

theorem binds_function {name : String} {parameters : List Parameter} {body : List Stmt}
    {bodySpan span : Span} (houtermost : Outermost state before outer)
    (hrun : function name parameters body bodySpan span state = (.ok text, after)) :
    Binds ((Stmt.imageItem before (.function name parameters body bodySpan span)).occurrences
        outer)
      (lookupsItem (.function name parameters body bodySpan span) state) := by
  obtain ⟨hregister, hfresh, hlegal⟩ := (@runs_item _ _ _ _
    (.function name parameters body bodySpan span) houtermost.agrees rfl).1 ⟨text, hrun⟩
  rw [Stmt.span] at hregister
  have hafter := houtermost.register (.function name parameters body bodySpan span) rfl hregister
  obtain ⟨hdeclared, hmirrors⟩ := hafter.declareParameters rfl hfresh
  rw [lookupsItem, State.behind_of_runs hregister, hdeclared]
  exact binds_stmts body (hafter.agrees.knows_body rfl parameters .function).enter
    (hmirrors .function).opened hlegal 0

theorem binds_entryPoint {parameters : List Parameter} {body : List Stmt}
    {bodySpan span : Span} (houtermost : Outermost state before outer)
    (hrun : entryPoint body bodySpan span state = (.ok text, after)) :
    Binds ((Stmt.imageItem before (.entryPoint parameters body bodySpan span)).occurrences outer)
      (lookupsItem (.entryPoint parameters body bodySpan span) state) := by
  obtain ⟨hregister, hlegal⟩ := (@runs_item _ _ _ _
    (.entryPoint parameters body bodySpan span) houtermost.agrees rfl).1 ⟨text, hrun⟩
  rw [Stmt.span] at hregister
  have hafter := houtermost.register (.entryPoint parameters body bodySpan span) rfl hregister
  rw [lookupsItem, State.behind_of_runs hregister]
  exact binds_stmts body hafter.agrees.knows_entryPoint.enter (hafter.mirrors .function).opened
    hlegal 0

theorem binds_coroutine {name : String} {parameters : List Parameter} {body : List Stmt}
    {bodySpan span : Span} (houtermost : Outermost state before outer)
    (hrun : coroutine name parameters body bodySpan span state = (.ok text, after)) :
    Binds ((Stmt.imageItem before (.coroutine name parameters body bodySpan span)).occurrences
        outer)
      (lookupsItem (.coroutine name parameters body bodySpan span) state) := by
  obtain ⟨hregister, hcounter, hfresh, hlegal⟩ := (@runs_item _ _ _ _
    (.coroutine name parameters body bodySpan span) houtermost.agrees rfl).1 ⟨text, hrun⟩
  rw [Stmt.span] at hregister
  have hafter := houtermost.register (.coroutine name parameters body bodySpan span) rfl hregister
  obtain ⟨hdeclared, hmirrors⟩ := hafter.declareParameters rfl hfresh
  -- Neither a parameter nor a global has the name of the counter.
  have hcounter : ¬ (after.names.enter.insertAll parameters).scopes.isDeclared stateField =
      true := by
    rw [Names.isDeclared_insertAll, Names.enter, Scopes.isDeclared_enter,
      hafter.agrees.declared, globals_append_callable before rfl]
    rintro (hparameter | hglobal)
    · obtain ⟨parameter, hmem, hname⟩ := List.mem_map.1 hparameter
      exact hcounter.1 parameter hmem hname
    · exact hcounter.2.1 hglobal
  have hmembers := (hmirrors (.coroutine (.start parameters.length))).beside rfl hcounter
  rw [← List.reverse_cons] at hmembers
  rw [lookupsItem, State.behind_of_runs hregister, hdeclared]
  exact binds_stmts body (hafter.agrees.knows_body rfl parameters _).enter hmembers.opened
    hlegal 0

theorem binds_global {name : String} {value : Expr} {span : Span}
    (houtermost : Outermost state before outer)
    (hrun : global name value span state = (.ok text, after)) :
    Binds ((Stmt.imageItem before (.define name value span)).occurrences outer)
      (lookupsItem (.define name value span) state) := by
  obtain ⟨hlegal, _⟩ := (runs_global houtermost.agrees name value span).1 ⟨text, hrun⟩
  obtain ⟨hvalue, hname, _⟩ := hlegal
  have hbody : state.inCoroutine = false := houtermost.agrees.knows.inCoroutine
  exact binds_declaration houtermost.agrees.knows (houtermost.mirrors state.body) hvalue hbody
    (mt (houtermost.agrees.declared name).1 hname)

theorem binds_item {tree : Stmt} (houtermost : Outermost state before outer)
    (hrun : item tree state = (.ok text, after)) :
    Binds ((tree.imageItem before).occurrences outer) (lookupsItem tree state) := by
  cases tree with
  | define name value span => exact binds_global houtermost hrun
  | function name parameters body bodySpan span => exact binds_function houtermost hrun
  | coroutine name parameters body bodySpan span => exact binds_coroutine houtermost hrun
  | entryPoint parameters body bodySpan span => exact binds_entryPoint houtermost hrun
  | forwardFunction | forwardCoroutine => exact .nil
  | block | expression | ifThen | ifElse | returns | yields | print =>
      exact absurd ⟨_, hrun⟩ not_runs_fail

theorem Outermost.item {tree : Stmt} (houtermost : Outermost state before outer)
    (hrun : item tree state = (.ok text, after)) :
    Outermost after (before ++ [tree]) ((tree.imageItem before).past outer) := by
  cases tree with
  | define name value span =>
      obtain ⟨hlegal, rfl⟩ := (runs_global houtermost.agrees name value span).1 ⟨text, hrun⟩
      refine ⟨agrees_global houtermost.agrees name value span, ?_, ?_⟩
      · rw [houtermost.scopes]
        rfl
      · refine List.nodup_cons.2 ⟨?_, houtermost.nodup⟩
        rw [← houtermost.isDeclared_iff, houtermost.agrees.declared]
        exact hlegal.2.1
  | function name parameters body bodySpan span | coroutine name parameters body bodySpan span
  | entryPoint parameters body bodySpan span | forwardFunction name parameters span
  | forwardCoroutine name parameters span =>
      exact houtermost.register _ rfl ((runs_item houtermost.agrees rfl).1 ⟨text, hrun⟩).1
  | block | expression | ifThen | ifElse | returns | yields | print =>
      exact absurd ⟨_, hrun⟩ not_runs_fail

theorem binds_items {trees : List Stmt} {texts : List String}
    (houtermost : Outermost state before outer) (hrun : items trees state = (.ok texts, after)) :
    Binds (Definition.occurrencesAll outer (Stmt.imageItems before trees))
      (lookupsItems trees state) := by
  induction trees generalizing state before outer texts with
  | nil => exact .nil
  | cons first others ih =>
      obtain ⟨text, middle, hfirst, hrest⟩ := Action.bind_eq_ok_iff.1 hrun
      obtain ⟨later, hothers, rfl⟩ := of_bind_pure hrest
      rw [Stmt.imageItems, Definition.occurrencesAll, lookupsItems,
        State.behind_of_runs ⟨text, hfirst⟩]
      exact (binds_item houtermost hfirst).append (ih (houtermost.item hfirst) hothers)

end Definitions

end Emit

open Emit in
/-- The code of a program is the text of its image, and wherever the image names a variable, the
scopes around the place declare the name where the frames found it: nowhere if the place declares
it, and once if it is assigned to or read. -/
theorem Program.compile_binds {program : Program} {code : String}
    (hcompile : program.compile = .ok code) :
    code = "\n\n".intercalate (headers :: program.image.map Cpp.Definition.text) ++ "\n" ∧
      Cpp.Definition.occurrencesAll [] program.image = program.lookups ∧
        ∀ occurrence ∈ Cpp.Definition.occurrencesAll [] program.image, occurrence.Bound := by
  obtain ⟨texts, middle, hitems, hrest⟩ :=
    Action.bind_eq_ok_iff.1 (show unit program .initial = (.ok code, _) from Prod.ext hcompile rfl)
  have houtermost : Outermost .initial [] [] := ⟨State.agrees_initial, rfl, .nil⟩
  obtain ⟨hbinds, hbound⟩ := binds_items houtermost hitems
  refine ⟨?_, hbinds, hbinds ▸ hbound⟩
  rw [get_bind] at hrest
  split at hrest
  · rw [← (Action.pure_eq_ok_iff.1 hrest).1, shows_items State.agrees_initial hitems, image]
  · exact absurd ⟨_, hrest⟩ not_runs_fail

/-- A name that both branches of an `if` declare and that is new again behind them, and a
coroutine that assigns to its parameter. -/
theorem Program.compile_binds_branches :
    let program : Program :=
      ⟨[.define "b" (.number "1" default) default,
        .coroutine "g" [⟨"a", default⟩]
          [.define "a" (.binary (.symbol "a" default) ⟨.plus, "+", default⟩ (.symbol "b" default)
            default) default, .yields (.symbol "a" default) default] default default,
        .entryPoint []
          [.define "x" (.symbol "b" default) default,
            .ifElse (.symbol "x" default) (.define "y" (.symbol "x" default) default)
              (.block [.define "y" (.number "2" default) default,
                .define "x" (.symbol "y" default) default] default) default,
            .define "y" (.number "3" default) default] default default], default⟩
    ∃ code, program.compile = .ok code ∧
      code = "\n\n".intercalate (Emit.headers :: program.image.map Cpp.Definition.text) ++ "\n" ∧
      Cpp.Definition.occurrencesAll [] program.image = program.lookups ∧
      (∀ occurrence ∈ Cpp.Definition.occurrencesAll [] program.image, occurrence.Bound) ∧
      Cpp.Definition.occurrencesAll [] program.image =
        [⟨.declaration, "b", []⟩, ⟨.assignment, "a", [1]⟩, ⟨.use, "a", [1]⟩, ⟨.use, "b", [2]⟩,
          ⟨.use, "a", [1]⟩, ⟨.declaration, "x", []⟩, ⟨.use, "b", [1]⟩, ⟨.use, "x", [0]⟩,
          ⟨.declaration, "y", []⟩, ⟨.use, "x", [1]⟩, ⟨.declaration, "y", []⟩,
          ⟨.assignment, "x", [1]⟩, ⟨.use, "y", [0]⟩, ⟨.declaration, "y", []⟩] := by
  intro program
  have hok : program.compile.isOk = true := by decide +kernel
  cases hcompile : program.compile with
  | error error => rw [hcompile] at hok; cases hok
  | ok code =>
      obtain ⟨htext, hlookups, hbound⟩ := Program.compile_binds hcompile
      exact ⟨code, rfl, htext, hlookups, hbound, by decide +kernel⟩

end Coroscript
