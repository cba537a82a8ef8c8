import Coroscript.Compile
import Coroscript.Proofs.Name.Registry
import Coroscript.Proofs.Static.Statements

namespace Coroscript

namespace Callables

/-- The declarations of one name, and what the table has of it. -/
inductive Recorded : List Signature → Option Signature → Prop where
  | unknown : Recorded [] none
  | single (signature : Signature) : Recorded [signature] (some signature)
  | completed (signature : Signature) (hdefined : signature.defined = true) :
      Recorded [{ signature with defined := false }, signature] (some signature)

theorem Recorded.map_eq_some_iff {α : Type} {view : Signature → α}
    (hview : ∀ signature, view { signature with defined := false } = view signature)
    {declared : List Signature} {signature? : Option Signature}
    (hrecorded : Recorded declared signature?) (a : α) :
    signature?.map view = some a ↔ ∃ declaration ∈ declared, view declaration = a := by
  cases hrecorded with
  | unknown => simp
  | single signature => simp
  | completed signature hdefined => simp [hview]

def Records (callables : Callables) (declared : List Signature) : Prop :=
  ∀ name, Recorded (declared.filter fun declaration => declaration.name == name)
    (callables.get? name)

theorem records_empty : empty.Records [] :=
  fun _ => .unknown

namespace Records

variable {callables after : Callables} {declared : List Signature} {declaration : Signature}

theorem resolves_iff (hrecords : callables.Records declared) (name : String) (count : Nat) :
    (callables.get? name).map Signature.arity = some count ↔
      ∃ declaration ∈ declared, declaration.name = name ∧ declaration.arity = count := by
  rw [(hrecords name).map_eq_some_iff fun _ => rfl]
  simp [and_assoc]

theorem register?_iff (hrecords : callables.Records declared) :
    (∃ after, callables.register? declaration = some after) ↔
      (∀ earlier ∈ declared, earlier.name ≠ declaration.name) ∨
        declaration.defined = true ∧
          declared.filter (fun earlier => earlier.name == declaration.name) =
            [{ declaration with defined := false }] := by
  have hrecorded := hrecords declaration.name
  have hnone : (∀ earlier ∈ declared, earlier.name ≠ declaration.name) ↔
      declared.filter (fun earlier => earlier.name == declaration.name) = [] := by
    simp
  rw [hnone, register?]
  generalize declared.filter (fun earlier => earlier.name == declaration.name) = earlier at *
  cases hget : callables.get? declaration.name with
  | none =>
      rw [hget] at hrecorded
      cases hrecorded
      simp
  | some signature =>
      have hname := get?_name hget
      rw [hget] at hrecorded
      cases hrecorded with
      | single =>
          -- Only here the declarations must agree: what is on record may wait for this one.
          have hsame : [signature] = [{ declaration with defined := false }] ↔
              signature.defined = false ∧ signature.kind = declaration.kind ∧
                signature.arity = declaration.arity := by
            cases signature
            cases declaration
            simp_all [and_comm, and_left_comm]
          simp [hsame]
      | completed _ hdefined => simp [hdefined]

theorem register (hrecords : callables.Records declared)
    (hregister : callables.register? declaration = some after) :
    after.Records (declared ++ [declaration]) := by
  intro name
  rw [get?_of_register? hregister, List.filter_append]
  by_cases hname : name = declaration.name
  · subst hname
    rw [if_pos rfl, List.filter_cons_of_pos (by simp), List.filter_nil]
    rcases hrecords.register?_iff.1 ⟨after, hregister⟩ with hnew | ⟨hdefined, hearlier⟩
    · rw [List.filter_eq_nil_iff.2 (by simpa using hnew)]
      exact .single declaration
    · rw [hearlier]
      exact .completed declaration hdefined
  · rw [if_neg hname, List.filter_cons_of_neg (by simpa using Ne.symm hname), List.filter_nil,
      List.append_nil]
    exact hrecords name

end Records

end Callables

theorem globals_append_callable (before : List Stmt) {tree : Stmt}
    (hdeclaration : tree.declaration?.isSome = true) :
    globals (before ++ [tree]) = globals before := by
  cases tree <;> first | contradiction | simp [globals, Stmt.defined?]

namespace Names

def insertAll (names : Names) (parameters : List Parameter) : Names :=
  parameters.foldl
    (fun names parameter => { names with scopes := names.scopes.insert parameter.name }) names

theorem isTaken_insert (names : Names) (name other : String) :
    isTaken { names with scopes := names.scopes.insert name } other = true ↔
      other = name ∨ names.isTaken other = true := by
  simp [isTaken, Scopes.isDeclared_insert, or_assoc]

theorem isDeclared_insertAll (names : Names) (parameters : List Parameter) (name : String) :
    (names.insertAll parameters).scopes.isDeclared name = true ↔
      name ∈ parameters.map Parameter.name ∨ names.scopes.isDeclared name = true := by
  induction parameters generalizing names with
  | nil => simp [insertAll]
  | cons first others ih =>
      rw [insertAll, List.foldl_cons, ← insertAll, ih, Scopes.isDeclared_insert]
      simp [or_left_comm, or_assoc]

theorem callables_insertAll (names : Names) (parameters : List Parameter) :
    (names.insertAll parameters).callables = names.callables := by
  induction parameters generalizing names with
  | nil => rfl
  | cons first others ih => exact ih _

theorem Within.insertAll {outer inner : Names} (hwithin : outer.Within inner)
    (parameters : List Parameter) : outer.Within (inner.insertAll parameters) := by
  induction parameters generalizing inner with
  | nil => exact hwithin
  | cons first others ih => exact ih (hwithin.insert first.name)

end Names

namespace Emit

open Emitter

namespace State

/-- Between two top-level definitions, the state knows those that came before. -/
structure Agrees (state : State) (items : List Stmt) : Prop where
  topLevel : state.body = .topLevel
  declared : ∀ name, state.names.scopes.isDeclared name = true ↔ name ∈ globals items
  records : state.names.callables.Records (declarations items)

theorem agrees_initial : initial.Agrees [] :=
  ⟨rfl, by simp [initial, Names.empty, Scopes.empty, Scopes.isDeclared, Scopes.frames, globals],
    Callables.records_empty⟩

namespace Agrees

variable {state : State} {items : List Stmt}

theorem knows (hagrees : state.Agrees items) :
    state.Knows ⟨globals items, declarations items, false⟩ := by
  constructor
  · intro reference
    cases reference with
    | value name => exact hagrees.declared name
    | call name count => exact hagrees.records.resolves_iff name count
  · rw [State.inCoroutine, hagrees.topLevel]

theorem knows_body {before : List Stmt} {tree : Stmt}
    (hagrees : state.Agrees (before ++ [tree])) (hdeclaration : tree.declaration?.isSome = true)
    (parameters : List Parameter) (kind : Body) :
    Knows ⟨state.names.enter.insertAll parameters, kind⟩
      (tree.bodyContext before parameters (State.inCoroutine ⟨state.names, kind⟩)) := by
  refine ⟨fun reference => ?_, rfl⟩
  have hmeans := hagrees.knows.means reference
  cases reference with
  | value name =>
      rw [globals_append_callable before hdeclaration] at hmeans
      simp only [Names.Resolves, Context.Means] at hmeans
      simp [Names.Resolves, Context.Means, Stmt.bodyContext, Names.isDeclared_insertAll,
        Names.enter, hmeans]
  | call name count =>
      simpa [Names.Resolves, Context.Means, Stmt.bodyContext, Names.callables_insertAll,
        Names.enter] using hmeans

theorem isTaken_iff {before : List Stmt} {tree : Stmt}
    (hagrees : state.Agrees (before ++ [tree])) (hdeclaration : tree.declaration?.isSome = true)
    (name : String) :
    ¬ state.names.isTaken name = true ↔
      name ∉ globals before ∧
        ∀ declaration ∈ declarations (before ++ [tree]), declaration.name ≠ name := by
  rw [hagrees.knows.isTaken, globals_append_callable before hdeclaration]
  simp [Context.IsCallable]

end Agrees

end State

variable {α : Type} {state after : State} {before : List Stmt} {declaration : Signature}
  {position : Position}

theorem runs_register :
    Runs (register declaration position) state after ↔
      ¬ state.names.scopes.isDeclared declaration.name = true ∧
        ∃ callables, state.names.callables.register? declaration = some callables ∧
          after = { state with names.callables := callables } := by
  rw [register, runs_update]
  by_cases hdeclared : state.names.scopes.isDeclared declaration.name = true
  · simp [Names.register, hdeclared]
  · cases hregister : state.names.callables.register? declaration with
    | none => simp [Names.register, hdeclared, hregister]
    | some callables => simp [Names.register, hdeclared, hregister]

theorem register_iff (hagrees : state.Agrees before) :
    (∃ after, Runs (register declaration position) state after) ↔
      declaration.Admissible before := by
  simp only [runs_register, Signature.Admissible, ← hagrees.records.register?_iff,
    ← hagrees.declared]
  constructor
  · rintro ⟨after, hdeclared, callables, hregister, _⟩
    exact ⟨hdeclared, callables, hregister⟩
  · rintro ⟨hdeclared, callables, hregister⟩
    exact ⟨_, hdeclared, callables, hregister, rfl⟩

theorem agrees_register (hagrees : state.Agrees before) {tree : Stmt}
    (hdeclaration : tree.declaration? = some declaration)
    (hregister : Runs (register declaration position) state after) :
    after.Agrees (before ++ [tree]) := by
  obtain ⟨_, callables, hcallables, rfl⟩ := runs_register.1 hregister
  refine ⟨hagrees.topLevel, fun name => ?_, ?_⟩
  · rw [globals_append_callable before (by rw [hdeclaration]; rfl)]
    exact hagrees.declared name
  · simpa [declarations, hdeclaration] using hagrees.records.register hcallables

theorem runs_declareAll (parameters : List Parameter) (state other : State) :
    Runs (parameters.forM fun parameter => declare parameter.name parameter.span.start)
        state other ↔
      ((parameters.map Parameter.name).Nodup ∧
        ∀ parameter ∈ parameters, ¬ state.names.isTaken parameter.name = true) ∧
      other = { state with names := state.names.insertAll parameters } := by
  induction parameters generalizing state with
  | nil => simp [runs_pure, Names.insertAll]
  | cons first others ih =>
      refine (runs_bind_of (fun other => runs_declare) fun _ => ih _).trans ?_
      simp only [Names.isTaken_insert, List.map_cons, List.nodup_cons, List.forall_mem_cons,
        not_or, List.mem_map, not_exists, not_and]
      constructor
      · rintro ⟨hfirst, ⟨hnodup, hothers⟩, hother⟩
        exact ⟨⟨⟨fun parameter hmem => (hothers parameter hmem).1, hnodup⟩, hfirst,
          fun parameter hmem => (hothers parameter hmem).2⟩, hother⟩
      · rintro ⟨⟨⟨hdistinct, hnodup⟩, hfirst, hothers⟩, hother⟩
        exact ⟨hfirst, ⟨hnodup, fun parameter hmem =>
          ⟨hdistinct parameter hmem, hothers parameter hmem⟩⟩, hother⟩

theorem runs_declareParameters (parameters : List Parameter) (other : State) :
    Runs (declareParameters parameters) state other ↔
      ((parameters.map Parameter.name).Nodup ∧
        ∀ parameter ∈ parameters, ¬ state.names.isTaken parameter.name = true) ∧
      other = { state with names := state.names.enter.insertAll parameters } := by
  rw [declareParameters, runs_bind_enter, runs_declareAll]
  simp [Names.isTaken, Names.enter]

theorem runs_withBody {run : Emitter α} {kind : Body} {legal : Prop} {middle : State}
    (hrun : ∀ other, Runs run { state with body := kind } other ↔ legal ∧ other = middle)
    (other : State) :
    Runs (withBody kind run) state other ↔ legal ∧ other = { middle with body := state.body } := by
  constructor
  · rintro ⟨result, hwith⟩
    unfold withBody at hwith
    cases hinside : run { state with body := kind } with
    | mk outcome after =>
        rw [hinside] at hwith
        cases outcome with
        | error error => cases congrArg Prod.fst hwith
        | ok a =>
            obtain ⟨hlegal, rfl⟩ := (hrun after).1 ⟨a, hinside⟩
            exact ⟨hlegal, (congrArg Prod.snd hwith).symm⟩
  · rintro ⟨hlegal, rfl⟩
    obtain ⟨a, ha⟩ := (hrun middle).2 ⟨hlegal, rfl⟩
    exact ⟨(a, middle.body), by rw [withBody, ha]⟩

theorem runs_blockContents {context : Context} (hknows : state.Knows context)
    (trees : List Stmt) (span : Span) (other : State) :
    Runs (blockContents trees span) state other ↔
      Stmt.LegalAll context trees ∧
        other = { state with body := state.body.advance (Stmt.yieldCountAll trees) } := by
  rw [blockContents, runs_inFrame (runs_stmts trees hknows.enter)
    (State.within_pastAll state.names.within_enter trees), State.body_pastAll]

theorem runs_block {context : Context} (hknows : state.Knows context)
    (trees : List Stmt) (span : Span) (other : State) :
    Runs (block trees span) state other ↔
      Stmt.LegalAll context trees ∧
        other = { state with body := state.body.advance (Stmt.yieldCountAll trees) } := by
  rw [block, runs_bind_pure, runs_blockContents hknows]

theorem runs_scoped {β : Type} {parameters : List Parameter} {kind kind' : Body}
    {run : Emitter α} {next : α × Body → Emitter β} {stop : Position} {legal : Prop}
    (hrun : ∀ other, Runs run ⟨state.names.enter.insertAll parameters, kind⟩ other ↔
      legal ∧ other = ⟨state.names.enter.insertAll parameters, kind'⟩)
    (hnext : ∀ result middle, Runs (next result) middle after ↔ Runs (exit stop) middle after) :
    Runs (declareParameters parameters >>= fun _ => withBody kind run >>= next) state after ↔
      (((parameters.map Parameter.name).Nodup ∧
        ∀ parameter ∈ parameters, ¬ state.names.isTaken parameter.name = true) ∧ legal) ∧
      after = state := by
  rw [and_assoc]
  refine runs_bind_of (runs_declareParameters parameters) fun _ => ?_
  refine runs_bind_of (runs_withBody hrun) fun result => ?_
  rw [hnext, exit, runs_update, (state.names.within_enter.insertAll parameters).exit]
  simp

theorem hiddenByState?_eq_none_iff {tree : Stmt} (hagrees : state.Agrees (before ++ [tree]))
    (hdeclaration : tree.declaration?.isSome = true) (parameters : List Parameter)
    (span : Span) :
    hiddenByState? state.names parameters span = none ↔ tree.CounterFree before parameters := by
  rw [Stmt.CounterFree, ← hagrees.isTaken_iff hdeclaration, hiddenByState?]
  cases hfind : parameters.find? fun parameter => parameter.name == Cpp.stateField with
  | some parameter =>
      have hmem := List.mem_of_find?_eq_some hfind
      have hname := List.find?_some hfind
      simp only [reduceCtorEq, false_iff, not_and]
      intro hparameters
      exact absurd (by simpa using hname) (hparameters parameter hmem)
  | none =>
      have hparameters : ∀ parameter ∈ parameters, parameter.name ≠ Cpp.stateField := by
        simpa using hfind
      simpa using fun _ => hparameters

theorem runs_callable {β : Type} {tree : Stmt} {next : Unit → Emitter β} {legal : Prop}
    (hagrees : state.Agrees before) (hdeclaration : tree.declaration? = some declaration)
    (hnext : ∀ {middle}, middle.Agrees (before ++ [tree]) →
      (Runs (next ()) middle after ↔ legal ∧ after = middle)) :
    Runs (register declaration position >>= next) state after ↔
      Runs (register declaration position) state after ∧ legal := by
  constructor
  · rintro ⟨b, hbind⟩
    obtain ⟨_, middle, hregister, hrest⟩ := Action.bind_eq_ok_iff.1 hbind
    have hmiddle := agrees_register hagrees hdeclaration ⟨(), hregister⟩
    obtain ⟨hlegal, rfl⟩ := (hnext hmiddle).1 ⟨b, hrest⟩
    exact ⟨⟨(), hregister⟩, hlegal⟩
  · rintro ⟨⟨_, hregister⟩, hlegal⟩
    have hafter := agrees_register hagrees hdeclaration ⟨(), hregister⟩
    obtain ⟨b, hb⟩ := (hnext hafter).2 ⟨hlegal, rfl⟩
    exact ⟨b, Action.bind_eq_ok_iff.2 ⟨(), after, hregister, hb⟩⟩

theorem runs_item {tree : Stmt} (hagrees : state.Agrees before)
    (hdeclaration : tree.declaration? = some declaration) :
    Runs (item tree) state after ↔
      Runs (register declaration tree.span.start) state after ∧ tree.LegalContents before := by
  cases tree with
  | forwardFunction name parameters span =>
      obtain rfl := Option.some.inj hdeclaration
      refine runs_callable hagrees hdeclaration fun _ => ?_
      rw [runs_pure, Stmt.LegalContents, true_and]
  | forwardCoroutine name parameters span =>
      obtain rfl := Option.some.inj hdeclaration
      refine runs_callable hagrees hdeclaration fun _ => ?_
      rw [runs_pure, Stmt.LegalContents, true_and]
  | function name parameters body bodySpan span =>
      obtain rfl := Option.some.inj hdeclaration
      refine runs_callable hagrees hdeclaration fun hmiddle => ?_
      rw [Stmt.LegalContents, Stmt.FreshParameters]
      simp only [← hmiddle.isTaken_iff rfl]
      exact runs_scoped (runs_block (hmiddle.knows_body rfl parameters .function) body bodySpan)
        fun result middle => runs_bind_pure
  | coroutine name parameters body bodySpan span =>
      obtain rfl := Option.some.inj hdeclaration
      refine runs_callable hagrees hdeclaration fun {middle} hmiddle => runs_get.trans ?_
      have hhidden := hiddenByState?_eq_none_iff hmiddle rfl parameters span
      rw [Stmt.LegalContents, Stmt.FreshParameters, ← hhidden]
      simp only [← hmiddle.isTaken_iff rfl]
      cases hiddenByState? middle.names parameters span with
      | some position => simp [not_runs_fail]
      | none =>
          simp only [true_and]
          exact runs_scoped (runs_blockContents
            (hmiddle.knows_body rfl parameters (.coroutine (.start parameters.length)))
            body bodySpan) fun result middle => runs_bind_pure
  | entryPoint parameters body bodySpan span =>
      obtain rfl := Option.some.inj hdeclaration
      refine runs_callable hagrees hdeclaration fun hmiddle => ?_
      have hglobals :=
        @globals_append_callable before (.entryPoint parameters body bodySpan span) rfl
      have hknows : State.Knows ⟨_, .function⟩ (Stmt.bodyContext before _ [] false) :=
        ⟨hglobals ▸ hmiddle.knows.means, rfl⟩
      rw [Stmt.LegalContents, runs_bind_pure]
      exact runs_withBody (runs_block hknows body bodySpan) after
  | _ => contradiction

theorem runs_global (hagrees : state.Agrees before) (name : String) (value : Expr)
    (span : Span) :
    Runs (global name value span) state after ↔
      (Stmt.define name value span).LegalContents before ∧
        after = { state with names.scopes := state.names.scopes.insert name } := by
  rw [Stmt.LegalContents, and_assoc]
  refine runs_bind_of (runs_expr hagrees.knows value) fun text => ?_
  rw [runs_bind_pure, runs_declare, hagrees.knows.isTaken]
  simp [Context.IsCallable]

theorem agrees_global (hagrees : state.Agrees before) (name : String) (value : Expr)
    (span : Span) :
    State.Agrees { state with names.scopes := state.names.scopes.insert name }
      (before ++ [.define name value span]) := by
  refine ⟨hagrees.topLevel, fun other => ?_, ?_⟩
  · rw [Scopes.isDeclared_insert, Bool.or_eq_true, decide_eq_true_iff, hagrees.declared]
    simp [globals, Stmt.defined?, or_comm]
  · simpa [declarations, List.filterMap_cons, Stmt.declaration?] using hagrees.records

theorem item_step (hagrees : state.Agrees before) (tree : Stmt) :
    ((∃ after, Runs (item tree) state after) ↔ tree.LegalAfter before) ∧
      ∀ after, Runs (item tree) state after → after.Agrees (before ++ [tree]) := by
  cases hdeclaration : tree.declaration? with
  | some declaration =>
      simp only [runs_item hagrees hdeclaration, Stmt.LegalAfter, hdeclaration, exists_and_right,
        register_iff hagrees, Option.mem_some_iff, forall_eq']
      exact ⟨trivial, fun after hrun => agrees_register hagrees hdeclaration hrun.1⟩
  | none =>
      have hlegal : tree.LegalAfter before ↔ tree.LegalContents before := by
        simp [Stmt.LegalAfter, hdeclaration]
      rw [hlegal]
      cases tree with
      | define name value span =>
          simp only [item, runs_global hagrees, exists_and_left, exists_eq, and_true, true_and]
          rintro _ ⟨_, rfl⟩
          exact agrees_global hagrees name value span
      | _ =>
          first
          | contradiction
          | exact ⟨⟨fun ⟨_, hrun⟩ => absurd hrun not_runs_fail, False.elim⟩,
              fun after hrun => absurd hrun not_runs_fail⟩

theorem forall_split_cons {first : Stmt} {others : List Stmt} {legal : List Stmt → Stmt → Prop} :
    (∀ earlier tree later, first :: others = earlier ++ tree :: later → legal earlier tree) ↔
      legal [] first ∧
        ∀ earlier tree later, others = earlier ++ tree :: later →
          legal (first :: earlier) tree := by
  constructor
  · intro hall
    exact ⟨hall [] first others rfl, fun earlier tree later hothers =>
      hall (first :: earlier) tree later (congrArg (first :: ·) hothers)⟩
  · rintro ⟨hfirst, hothers⟩ earlier tree later heq
    cases earlier with
    | nil =>
        obtain ⟨rfl, _⟩ := List.cons.inj heq
        exact hfirst
    | cons head earlier =>
        obtain ⟨rfl, hrest⟩ := List.cons.inj heq
        exact hothers earlier tree later hrest

theorem items_run (hagrees : state.Agrees before) (trees : List Stmt) :
    ((∃ after, Runs (items trees) state after) ↔
        ∀ earlier tree later, trees = earlier ++ tree :: later →
          tree.LegalAfter (before ++ earlier)) ∧
      ∀ after, Runs (items trees) state after → after.Agrees (before ++ trees) := by
  -- What one definition adds to `before` is what the later ones stand behind.
  induction trees generalizing state before with
  | nil =>
      rw [items, List.append_nil]
      simp only [runs_pure, exists_eq, List.nil_eq, List.append_eq_nil_iff, reduceCtorEq,
        and_false, false_implies, implies_true, true_and]
      rintro _ rfl
      exact hagrees
  | cons first others ih =>
      obtain ⟨hfirst, hmiddle⟩ := item_step hagrees first
      have hrest : ∀ after, Runs (items (first :: others)) state after ↔
          ∃ middle, Runs (item first) state middle ∧ Runs (items others) middle after := by
        intro after
        rw [items]
        exact runs_bind fun text middle => runs_bind_pure
      have hothers : ∀ middle, Runs (item first) state middle → _ := fun middle hrun =>
        ih (hmiddle middle hrun)
      simp only [List.append_assoc, List.singleton_append] at hothers
      simp only [hrest]
      constructor
      · rw [forall_split_cons, List.append_nil, ← hfirst]
        constructor
        · rintro ⟨after, middle, hrun, hlast⟩
          exact ⟨⟨middle, hrun⟩, (hothers middle hrun).1.1 ⟨after, hlast⟩⟩
        · rintro ⟨⟨middle, hrun⟩, hlegal⟩
          obtain ⟨after, hlast⟩ := (hothers middle hrun).1.2 hlegal
          exact ⟨after, middle, hrun, hlast⟩
      · rintro after ⟨middle, hrun, hlast⟩
        exact (hothers middle hrun).2 after hlast

theorem hasEntryPoint_iff {trees : List Stmt} (hagrees : state.Agrees trees) :
    hasEntryPoint state.names = true ↔
      ∃ parameters body bodySpan span, Stmt.entryPoint parameters body bodySpan span ∈ trees := by
  have hkind : hasEntryPoint state.names = true ↔
      (state.names.callables.get? entryName).map Signature.kind = some .entryPoint := by
    cases hget : state.names.callables.get? entryName <;> simp [hasEntryPoint, hget]
  rw [hkind, (hagrees.records entryName).map_eq_some_iff fun _ => rfl]
  constructor
  · rintro ⟨declaration, hmem, hentry⟩
    obtain ⟨tree, htree, hdeclaration⟩ := List.mem_filterMap.1 (List.mem_filter.1 hmem).1
    cases tree with
    | entryPoint parameters body bodySpan span => exact ⟨parameters, body, bodySpan, span, htree⟩
    | _ =>
        first
        | contradiction
        | (obtain rfl := Option.some.inj hdeclaration
           contradiction)
  · rintro ⟨parameters, body, bodySpan, span, htree⟩
    refine ⟨⟨entryName, 0, .entryPoint, true⟩, List.mem_filter.2 ⟨?_, by simp⟩, rfl⟩
    exact List.mem_filterMap.2 ⟨_, htree, rfl⟩

theorem runs_unit_iff (program : Program) (after : State) :
    Runs (unit program) .initial after ↔
      Runs (items program.items) .initial after ∧ hasEntryPoint after.names = true := by
  have hfinish : ∀ (texts : List String) (middle : State),
      Runs (Action.get >>= fun state =>
        if hasEntryPoint state.names then
          pure ("\n\n".intercalate (headers :: texts) ++ "\n")
        else Action.fail ⟨.undefinedFunction entryName, program.span.stop⟩) middle after ↔
        after = middle ∧ hasEntryPoint middle.names = true := by
    intro texts middle
    rw [runs_get]
    by_cases hentry : hasEntryPoint middle.names = true
    · simp [hentry, runs_pure]
    · simp [hentry, not_runs_fail]
  rw [unit, runs_bind hfinish]
  constructor
  · rintro ⟨middle, hitems, rfl, hentry⟩
    exact ⟨hitems, hentry⟩
  · rintro ⟨hitems, hentry⟩
    exact ⟨after, hitems, rfl, hentry⟩

end Emit

open Emit in
/-- A program has a text exactly if it keeps the static rules. -/
theorem Program.compile_ok_iff_wellFormed (program : Program) :
    (∃ code, program.compile = .ok code) ↔ program.WellFormed := by
  have hcompile : (∃ code, program.compile = .ok code) ↔
      ∃ after, Runs (unit program) .initial after := by
    constructor
    · rintro ⟨code, hcode⟩
      exact ⟨_, code, Prod.ext hcode rfl⟩
    · rintro ⟨after, code, hrun⟩
      exact ⟨code, congrArg Prod.fst hrun⟩
  obtain ⟨hlegal, hagrees⟩ := items_run State.agrees_initial program.items
  simp only [List.nil_append] at hlegal hagrees
  rw [hcompile, WellFormed, ← hlegal]
  simp only [runs_unit_iff]
  constructor
  · rintro ⟨after, hitems, hentry⟩
    exact ⟨⟨after, hitems⟩, (hasEntryPoint_iff (hagrees after hitems)).1 hentry⟩
  · rintro ⟨⟨after, hitems⟩, hentry⟩
    exact ⟨after, hitems, (hasEntryPoint_iff (hagrees after hitems)).2 hentry⟩

end Coroscript
