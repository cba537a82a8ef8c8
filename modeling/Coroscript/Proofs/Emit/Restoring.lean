import Coroscript.Proofs.Coroutine.Labels

namespace Coroscript

/-! What the emission of a tree leaves of the frames, the callables and the kind of body: behind
a tree that was emitted, and where the emission gave up. -/

theorem Action.bind_eq_error_iff {ε σ α β : Type} {first : Action ε σ α}
    {next : α → Action ε σ β} {s after : σ} {error : ε} :
    (first >>= next) s = (.error error, after) ↔
      first s = (.error error, after) ∨
        ∃ a middle, first s = (.ok a, middle) ∧ next a middle = (.error error, after) := by
  rw [bind_apply]
  cases hfirst : first s with
  | mk result middle => cases result <;> simp

theorem Scopes.exists_innermost (scopes : Scopes) :
    ∃ frame outer, scopes.frames = frame :: outer ∧
      ∀ name, (scopes.insert name).frames = (name :: frame) :: outer := by
  unfold insert frames
  cases scopes.inner with
  | nil => exact ⟨scopes.global, [], rfl, fun _ => rfl⟩
  | cons frame inner => exact ⟨frame, inner ++ [scopes.global], rfl, fun _ => rfl⟩

theorem Names.Within.frames_suffix {outer inner : Names} (hwithin : outer.Within inner) :
    outer.scopes.frames <:+ inner.scopes.frames := by
  obtain ⟨frame, rfl⟩ := hwithin
  exact List.suffix_cons frame _

/-- The variable that a statement declares, if the name is not in view yet. -/
def Stmt.declared (names : Names) : Stmt → Frame
  | define name _ _ => if names.scopes.isDeclared name then [] else [name]
  | _ => []

namespace Emit

open Emitter

namespace State

/-- `after` is what is left of a state behind a statement. The innermost frame has got the names
`new`, and in a coroutine `yields` more yields have been counted. -/
structure Passed (state : State) (new : Frame) (yields : Nat) (after : State) : Prop where
  frames : ∃ frame outer, state.names.scopes.frames = frame :: outer ∧
    after.names.scopes.frames = (new ++ frame) :: outer
  callables : after.names.callables = state.names.callables
  body : after.body = state.body.advance yields

/-- `after` is what is left of a state where statements were given up. Frames that were opened
there are open still, inside the ones that were there before; of the yields in the statements,
`yields` of them, some have been counted. -/
structure GivenUp (state : State) (yields : Nat) (after : State) : Prop where
  frames : state.names.scopes.frames <:+ after.names.scopes.frames
  callables : after.names.callables = state.names.callables
  body : ∃ count ≤ yields, after.body = state.body.advance count

/-- `after` is what is left of a state behind the definition of a callable: the callable has been
taken in, and nothing else has changed. -/
def Registered (state : State) (declaration : Signature) (after : State) : Prop :=
  ∃ callables, state.names.callables.register? declaration = some callables ∧
    after = { state with names.callables := callables }

/-- `after` is what is left of a state where the definition of a callable was given up. -/
structure Abandoned (state : State) (declaration : Signature) (after : State) : Prop where
  frames : state.names.scopes.frames <:+ after.names.scopes.frames
  body : after.body = state.body
  record : after.names.callables = state.names.callables ∨
    state.names.callables.register? declaration = some after.names.callables
  others : ∀ name, name ≠ declaration.name →
    after.names.callables.get? name = state.names.callables.get? name

theorem passed_past (state : State) (tree : Stmt) :
    state.Passed (tree.declared state.names) tree.yieldCount (state.past tree) := by
  obtain ⟨frame, outer, hframes, hinsert⟩ := state.names.scopes.exists_innermost
  refine ⟨⟨frame, outer, hframes, ?_⟩, Names.callables_introduce _ _, rfl⟩
  cases tree with
  | define name value span =>
      by_cases hname : state.names.scopes.isDeclared name = true
      · simpa [past, Stmt.defined?, Stmt.declared, Names.introduce, hname] using hframes
      · simpa [past, Stmt.defined?, Stmt.declared, Names.introduce, hname] using hinsert name
  | _ => exact hframes

namespace GivenUp

variable {state after : State} {yields : Nat}

theorem refl (state : State) (yields : Nat) : state.GivenUp yields state :=
  ⟨List.suffix_refl _, rfl, 0, Nat.zero_le _, (Body.advance_zero _).symm⟩

theorem outside {outer inner : Names} {body : Body} (hgiven : GivenUp ⟨inner, body⟩ yields after)
    (hframes : outer.scopes.frames <:+ inner.scopes.frames)
    (hcallables : inner.callables = outer.callables) : GivenUp ⟨outer, body⟩ yields after :=
  ⟨hframes.trans hgiven.frames, hgiven.callables.trans hcallables, hgiven.body⟩

theorem mono {more : Nat} (hgiven : state.GivenUp yields after) (hyields : yields ≤ more) :
    state.GivenUp more after := by
  obtain ⟨count, hcount, hbody⟩ := hgiven.body
  exact ⟨hgiven.frames, hgiven.callables, count, Nat.le_trans hcount hyields, hbody⟩

/-- What was counted before counts as well. -/
theorem advanced {names : Names} {body : Body} {earlier : Nat}
    (hgiven : GivenUp ⟨names, body.advance earlier⟩ yields after) :
    GivenUp ⟨names, body⟩ (earlier + yields) after := by
  obtain ⟨count, hcount, hbody⟩ := hgiven.body
  refine ⟨hgiven.frames, hgiven.callables, earlier + count, Nat.add_le_add_left hcount _, ?_⟩
  rw [hbody, Body.advance_advance]

end GivenUp

end State

section Steps

variable {α β : Type} {state after : State} {error : Error}

theorem of_read_error {view : Names → Except Error α}
    (hread : read view state = (.error error, after)) : after = state :=
  (congrArg Prod.snd hread).symm

theorem of_fail {cause : Error}
    (hfail : (Action.fail cause : Emitter α) state = (.error error, after)) : after = state :=
  (congrArg Prod.snd hfail).symm

theorem of_update_error {change : Names → Except Error Names}
    (hupdate : update change state = (.error error, after)) : after = state := by
  unfold update at hupdate
  split at hupdate
  · cases congrArg Prod.fst hupdate
  · exact (congrArg Prod.snd hupdate).symm

theorem of_bind_pure_error {step : Emitter α} {wrap : α → β}
    (hrun : (step >>= fun a => pure (wrap a)) state = (.error error, after)) :
    step state = (.error error, after) := by
  rcases Action.bind_eq_error_iff.1 hrun with hstep | ⟨_, _, _, hwrap⟩
  · exact hstep
  · cases congrArg Prod.fst hwrap

/-- A step that gives the frames back as it found them cannot fail when its own frame is closed. -/
theorem of_inFrame_error {stop : Position} {run : Emitter α}
    (hframe : inFrame stop run state = (.error error, after))
    (hwithin : ∀ {a middle}, run { state with names := state.names.enter } = (.ok a, middle) →
      state.names.Within middle.names) :
    run { state with names := state.names.enter } = (.error error, after) := by
  change (run >>= fun a => exit stop >>= fun _ => pure a)
    { state with names := state.names.enter } = (.error error, after) at hframe
  rcases Action.bind_eq_error_iff.1 hframe with hrun | ⟨a, middle, hrun, hexit⟩
  · exact hrun
  · have hleave := of_bind_pure_error hexit
    rw [exit, update, (hwithin hrun).exit] at hleave
    cases congrArg Prod.fst hleave

theorem eq_of_withBody {kind : Body} {run : Emitter α} {result : α × Body}
    (hrun : withBody kind run state = (.ok result, after)) :
    ∃ middle, run { state with body := kind } = (.ok result.1, middle) ∧
      after = { middle with body := state.body } := by
  unfold withBody at hrun
  cases hinside : run { state with body := kind } with
  | mk outcome middle =>
      rw [hinside] at hrun
      cases outcome with
      | ok a =>
          obtain ⟨hresult, rfl⟩ := Prod.mk.inj hrun
          exact ⟨middle, by rw [← Except.ok.inj hresult], rfl⟩
      | error cause => cases congrArg Prod.fst hrun

theorem of_withBody_error {kind : Body} {run : Emitter α}
    (hrun : withBody kind run state = (.error error, after)) :
    ∃ middle, run { state with body := kind } = (.error error, middle) ∧
      after = { middle with body := state.body } := by
  unfold withBody at hrun
  cases hinside : run { state with body := kind } with
  | mk outcome middle =>
      rw [hinside] at hrun
      cases outcome with
      | ok a => cases congrArg Prod.fst hrun
      | error cause =>
          obtain ⟨hcause, rfl⟩ := Prod.mk.inj hrun
          exact ⟨middle, by rw [Except.error.inj hcause], rfl⟩

end Steps

/-! Statements. -/

variable {state after : State} {error : Error}

theorem eq_past_of_stmt {tree : Stmt} {text : String} (hrun : stmt tree state = (.ok text, after)) :
    after = state.past tree :=
  ((runs_stmt tree state.knows_context after).1 ⟨text, hrun⟩).2

theorem eq_pastAll_of_stmts {trees : List Stmt} {texts : List String}
    (hrun : stmts trees state = (.ok texts, after)) : after = state.pastAll trees :=
  ((runs_stmts trees state.knows_context after).1 ⟨texts, hrun⟩).2

theorem eq_of_branch {body : Stmt} {text : String}
    (hrun : branch body (stmt body) state = (.ok text, after)) :
    after = { state with body := state.body.advance body.yieldCount } :=
  ((runs_branch (runs_stmt body) state.knows_context after).1 ⟨text, hrun⟩).2

theorem eq_of_define_error {name : String} {value : Expr} {span : Span}
    (hrun : define name value span state = (.error error, after)) : after = state := by
  rcases Action.bind_eq_error_iff.1 hrun with hread | ⟨text, middle, hread, hrest⟩
  · exact of_read_error hread
  · obtain ⟨_, rfl⟩ := Prod.mk.inj hread
    rw [get_bind] at hrest
    split at hrest
    · cases congrArg Prod.fst hrest
    · split at hrest
      · exact of_fail hrest
      · exact of_update_error (of_bind_pure_error hrest)

theorem eq_of_returns_error {value? : Option Expr} {span : Span}
    (hrun : returns value? span state = (.error error, after)) : after = state := by
  unfold returns at hrun
  rw [get_bind] at hrun
  split at hrun
  · exact of_fail hrun
  · cases value? with
    | none => cases congrArg Prod.fst hrun
    | some value => exact of_read_error (of_bind_pure_error hrun)

theorem eq_of_yields_error {value : Expr} {span : Span}
    (hrun : yields value span state = (.error error, after)) : after = state := by
  rw [yields, get_bind] at hrun
  cases hbody : state.body with
  | topLevel | function =>
      simp only [hbody] at hrun
      exact of_fail hrun
  | coroutine lowering =>
      simp only [hbody] at hrun
      rcases Action.bind_eq_error_iff.1 hrun with hread | ⟨_, _, _, hset⟩
      · exact of_read_error hread
      · cases congrArg Prod.fst hset

def GivesUp (tree : Stmt) : Prop :=
  ∀ {state after : State} {error : Error}, stmt tree state = (.error error, after) →
    state.GivenUp tree.yieldCount after

theorem givenUp_branch {body : Stmt} (hbody : GivesUp body)
    (hrun : branch body (stmt body) state = (.error error, after)) :
    state.GivenUp body.yieldCount after := by
  by_cases hblock : ∃ inner span, body = .block inner span
  · obtain ⟨inner, span, rfl⟩ := hblock
    exact hbody hrun
  · rw [branch_of_not_block hblock] at hrun
    have hinside := of_inFrame_error (of_bind_pure_error hrun) fun hrun =>
      eq_past_of_stmt hrun ▸ state.names.within_enter.introduce _
    exact (hbody hinside).outside state.names.within_enter.frames_suffix rfl

mutual

theorem givenUp_stmt : ∀ (tree : Stmt), GivesUp tree
  | .expression value span, state, after, error, hrun => by
      obtain rfl := of_read_error (of_bind_pure_error hrun)
      exact .refl _ _
  | .block body span, state, after, error, hrun => by
      have hinside := of_inFrame_error (of_bind_pure_error hrun) fun hrun =>
        eq_pastAll_of_stmts hrun ▸ State.within_pastAll state.names.within_enter body
      exact @givenUp_stmts body state.names ⟨state.names.enter, state.body⟩ _ _
        state.names.within_enter hinside
  | .define name value span, state, after, error, hrun => by
      obtain rfl := eq_of_define_error hrun
      exact .refl _ _
  | .ifThen condition thenBody span, state, after, error, hrun => by
      rcases Action.bind_eq_error_iff.1 hrun with hread | ⟨test, middle, hread, hrest⟩
      · obtain rfl := of_read_error hread
        exact .refl _ _
      · obtain ⟨_, rfl⟩ := Prod.mk.inj hread
        have hthen := givenUp_branch (givenUp_stmt thenBody) (of_bind_pure_error hrest)
        exact hthen
  | .ifElse condition thenBody elseBody span, state, after, error, hrun => by
      rcases Action.bind_eq_error_iff.1 hrun with hread | ⟨test, middle, hread, hrest⟩
      · obtain rfl := of_read_error hread
        exact .refl _ _
      obtain ⟨_, rfl⟩ := Prod.mk.inj hread
      rcases Action.bind_eq_error_iff.1 hrest with hthen | ⟨thenText, middle, hthen, helse⟩
      · exact (givenUp_branch (givenUp_stmt thenBody) hthen).mono (Nat.le_add_right _ _)
      · -- The first branch gave its frame back, but its yields are counted.
        obtain rfl := eq_of_branch hthen
        exact (givenUp_branch (givenUp_stmt elseBody) (of_bind_pure_error helse)).advanced
  | .returns value? span, state, after, error, hrun => by
      obtain rfl := eq_of_returns_error hrun
      exact .refl _ _
  | .yields value span, state, after, error, hrun => by
      obtain rfl := eq_of_yields_error hrun
      exact .refl _ _
  | .print arguments span, state, after, error, hrun => by
      obtain rfl := of_read_error (of_bind_pure_error hrun)
      exact .refl _ _
  | .forwardFunction _ _ _, _, _, _, hrun | .function _ _ _ _ _, _, _, _, hrun
  | .forwardCoroutine _ _ _, _, _, _, hrun | .coroutine _ _ _ _ _, _, _, _, hrun
  | .entryPoint _ _ _ _, _, _, _, hrun => of_fail hrun ▸ .refl _ _

/-- The frame that the statements stand in may have got names from those that were emitted; the
frames outside it have not. -/
theorem givenUp_stmts : ∀ (trees : List Stmt) {outer : Names} {state after : State} {error : Error},
    outer.Within state.names → stmts trees state = (.error error, after) →
      State.GivenUp ⟨outer, state.body⟩ (Stmt.yieldCountAll trees) after
  | [], _, _, _, _, _, hrun => by cases congrArg Prod.fst hrun
  | first :: others, outer, state, after, error, hwithin, hrun => by
      rcases Action.bind_eq_error_iff.1 hrun with hfirst | ⟨text, middle, hfirst, hrest⟩
      · have hfewer := Nat.le_add_right first.yieldCount (Stmt.yieldCountAll others)
        refine ((givenUp_stmt first hfirst).mono hfewer).outside hwithin.frames_suffix ?_
        obtain ⟨frame, hframe⟩ := hwithin
        rw [hframe]
      · obtain rfl := eq_past_of_stmt hfirst
        exact (givenUp_stmts others (hwithin.introduce _) (of_bind_pure_error hrest)).advanced

end

theorem givenUp_blockContents {body : List Stmt} {span : Span}
    (hrun : blockContents body span state = (.error error, after)) :
    state.GivenUp (Stmt.yieldCountAll body) after := by
  have hinside := of_inFrame_error hrun fun hrun =>
    eq_pastAll_of_stmts hrun ▸ State.within_pastAll state.names.within_enter body
  exact @givenUp_stmts body state.names ⟨state.names.enter, state.body⟩ _ _
    state.names.within_enter hinside

theorem givenUp_block {body : List Stmt} {span : Span}
    (hrun : block body span state = (.error error, after)) :
    state.GivenUp (Stmt.yieldCountAll body) after :=
  givenUp_blockContents (of_bind_pure_error hrun)

/-! Definitions. -/

theorem within_of_declareAll_error {outer : Names} (hwithin : outer.Within state.names)
    {parameters : List Parameter}
    (hrun : parameters.forM (fun parameter => declare parameter.name parameter.span.start) state =
      (.error error, after)) : outer.Within after.names ∧ after.body = state.body := by
  induction parameters generalizing state with
  | nil => cases congrArg Prod.fst hrun
  | cons first others ih =>
      rcases Action.bind_eq_error_iff.1 hrun with hfirst | ⟨_, middle, hfirst, hrest⟩
      · obtain rfl := of_update_error hfirst
        exact ⟨hwithin, rfl⟩
      · obtain ⟨_, rfl⟩ := runs_declare.1 ⟨_, hfirst⟩
        exact @ih { state with names.scopes := state.names.scopes.insert first.name }
          (hwithin.insert first.name) hrest

/-- The parameters of a definition and its body. Behind the body the frame of the parameters is
the innermost one, so that it can be closed. -/
theorem givenUp_scoped {α β : Type} {parameters : List Parameter} {kind : Body}
    {run : Emitter α} {yields : Nat} {stop : Position} {wrap : α × Body → β}
    (hok : ∀ {state after : State} {a : α}, run state = (.ok a, after) → after.names = state.names)
    (herror : ∀ {state after : State} {error : Error}, run state = (.error error, after) →
      state.GivenUp yields after)
    (hrun : (declareParameters parameters >>= fun _ => withBody kind run >>= fun result =>
      exit stop >>= fun _ => pure (wrap result)) state = (.error error, after)) :
    state.GivenUp 0 after := by
  rcases Action.bind_eq_error_iff.1 hrun with hdeclare | ⟨_, declared, hdeclare, hrest⟩
  · obtain ⟨hwithin, hbody⟩ := within_of_declareAll_error state.names.within_enter hdeclare
    obtain ⟨frame, hframe⟩ := id hwithin
    refine ⟨hwithin.frames_suffix, by rw [hframe], 0, Nat.le_refl 0, ?_⟩
    rw [hbody, Body.advance_zero]
  obtain ⟨_, rfl⟩ := (runs_declareParameters parameters declared).1 ⟨_, hdeclare⟩
  have hwithin := state.names.within_enter.insertAll parameters
  rcases Action.bind_eq_error_iff.1 hrest with hwith | ⟨⟨a, finished⟩, left, hwith, hexit⟩
  · obtain ⟨middle, hinside, rfl⟩ := of_withBody_error hwith
    have hgiven := herror hinside
    refine ⟨hwithin.frames_suffix.trans hgiven.frames, ?_, 0, Nat.le_refl 0,
      (Body.advance_zero _).symm⟩
    exact hgiven.callables.trans (Names.callables_insertAll _ _)
  · obtain ⟨middle, hinside, rfl⟩ := eq_of_withBody hwith
    have hleave := of_bind_pure_error hexit
    rw [exit, update, hok hinside, hwithin.exit] at hleave
    cases congrArg Prod.fst hleave

theorem registered_of_register {α : Type} {declaration : Signature} {position : Position}
    {next : Unit → Emitter α} {a : α}
    (hnext : ∀ {middle : State}, Runs (next ()) middle after → after = middle)
    (hrun : (register declaration position >>= next) state = (.ok a, after)) :
    state.Registered declaration after := by
  obtain ⟨_, middle, hregister, hrest⟩ := Action.bind_eq_ok_iff.1 hrun
  obtain ⟨_, callables, hcallables, rfl⟩ := runs_register.1 ⟨_, hregister⟩
  exact ⟨callables, hcallables, hnext ⟨a, hrest⟩⟩

theorem abandoned_of_register {α : Type} {declaration : Signature} {position : Position}
    {next : Unit → Emitter α}
    (hnext : ∀ {middle : State}, next () middle = (.error error, after) → middle.GivenUp 0 after)
    (hrun : (register declaration position >>= next) state = (.error error, after)) :
    state.Abandoned declaration after := by
  rcases Action.bind_eq_error_iff.1 hrun with hregister | ⟨_, middle, hregister, hrest⟩
  · obtain rfl := of_update_error hregister
    exact ⟨List.suffix_refl _, rfl, .inl rfl, fun _ _ => rfl⟩
  · obtain ⟨_, callables, hcallables, rfl⟩ := runs_register.1 ⟨_, hregister⟩
    obtain ⟨hframes, hsame, count, hcount, hbody⟩ := hnext hrest
    obtain rfl := Nat.le_zero.1 hcount
    refine ⟨hframes, hbody.trans (Body.advance_zero _), .inr (hsame ▸ hcallables), ?_⟩
    intro name hname
    rw [hsame, Callables.get?_of_register? hcallables, if_neg hname]

theorem registered_of_item {tree : Stmt} {declaration : Signature} {text : String}
    (hdeclaration : tree.declaration? = some declaration)
    (hrun : item tree state = (.ok text, after)) : state.Registered declaration after := by
  cases tree with
  | forwardFunction | forwardCoroutine =>
      obtain rfl := Option.some.inj hdeclaration
      refine registered_of_register (fun hrest => ?_) hrun
      exact runs_pure.1 hrest
  | function name parameters body bodySpan span =>
      obtain rfl := Option.some.inj hdeclaration
      refine registered_of_register (fun {middle} hrest => ?_) hrun
      have hbody := runs_block (State.knows_context
        ⟨middle.names.enter.insertAll parameters, .function⟩) body bodySpan
      exact ((runs_scoped hbody fun result middle => runs_bind_pure).1 hrest).2
  | coroutine name parameters body bodySpan span =>
      obtain rfl := Option.some.inj hdeclaration
      refine registered_of_register (fun {middle} hrest => ?_) hrun
      rw [runs_get] at hrest
      cases hhidden : hiddenByState? middle.names parameters span with
      | some position =>
          rw [hhidden] at hrest
          exact absurd hrest not_runs_fail
      | none =>
          rw [hhidden] at hrest
          have hbody := runs_blockContents (State.knows_context
            ⟨middle.names.enter.insertAll parameters, .coroutine (.start parameters.length)⟩)
            body bodySpan
          exact ((runs_scoped hbody fun result middle => runs_bind_pure).1 hrest).2
  | entryPoint parameters body bodySpan span =>
      obtain rfl := Option.some.inj hdeclaration
      refine registered_of_register (fun {middle} hrest => ?_) hrun
      have hbody := runs_block (State.knows_context ⟨middle.names, .function⟩) body bodySpan
      exact ((runs_withBody hbody after).1 (runs_bind_pure.1 hrest)).2
  | _ => contradiction

theorem names_of_block {body : List Stmt} {span : Span} {text : String}
    (hrun : block body span state = (.ok text, after)) : after.names = state.names := by
  obtain ⟨_, rfl⟩ := (runs_block state.knows_context body span after).1 ⟨text, hrun⟩
  rfl

theorem names_of_blockContents {body : List Stmt} {span : Span} {texts : List String}
    (hrun : blockContents body span state = (.ok texts, after)) : after.names = state.names := by
  obtain ⟨_, rfl⟩ := (runs_blockContents state.knows_context body span after).1 ⟨texts, hrun⟩
  rfl

theorem abandoned_of_item {tree : Stmt} {declaration : Signature}
    (hdeclaration : tree.declaration? = some declaration)
    (hrun : item tree state = (.error error, after)) : state.Abandoned declaration after := by
  cases tree with
  | forwardFunction | forwardCoroutine =>
      obtain rfl := Option.some.inj hdeclaration
      refine abandoned_of_register (fun hrest => ?_) hrun
      cases congrArg Prod.fst hrest
  | function name parameters body bodySpan span =>
      obtain rfl := Option.some.inj hdeclaration
      exact abandoned_of_register (givenUp_scoped names_of_block givenUp_block) hrun
  | coroutine name parameters body bodySpan span =>
      obtain rfl := Option.some.inj hdeclaration
      refine abandoned_of_register (fun {middle} hrest => ?_) hrun
      rw [get_bind] at hrest
      cases hhidden : hiddenByState? middle.names parameters span with
      | some position =>
          rw [hhidden] at hrest
          exact of_fail hrest ▸ .refl _ _
      | none =>
          rw [hhidden] at hrest
          exact givenUp_scoped names_of_blockContents givenUp_blockContents hrest
  | entryPoint parameters body bodySpan span =>
      obtain rfl := Option.some.inj hdeclaration
      refine abandoned_of_register (fun hrest => ?_) hrun
      obtain ⟨middle, hinside, rfl⟩ := of_withBody_error (of_bind_pure_error hrest)
      have hgiven := givenUp_block hinside
      exact ⟨hgiven.frames, hgiven.callables, 0, Nat.le_refl 0, (Body.advance_zero _).symm⟩
  | _ => contradiction

/-! Both ways to end together. -/

/-- How a step leaves the state when it succeeds and when it fails. -/
structure Leaves {α : Type} (run : Emitter α) (state : State) (done failed : State → Prop) :
    Prop where
  ok : ∀ {a : α} {after : State}, run state = (.ok a, after) → done after
  error : ∀ {error : Error} {after : State}, run state = (.error error, after) → failed after

/-- Whatever tree is emitted in whatever state. Statements, blocks and definitions give back the
frames they found; only a statement that declares a variable adds it to the innermost frame.
Where they fail, the frames they found are still there, and only a definition has touched the
callables. -/
theorem emission_restores_state (state : State) :
    (∀ tree : Stmt, Leaves (stmt tree) state
      (state.Passed (tree.declared state.names) tree.yieldCount)
      (state.GivenUp tree.yieldCount)) ∧
    (∀ (body : List Stmt) (span : Span), Leaves (blockContents body span) state
      (· = { state with body := state.body.advance (Stmt.yieldCountAll body) })
      (state.GivenUp (Stmt.yieldCountAll body))) ∧
    (∀ (body : List Stmt) (span : Span), Leaves (block body span) state
      (· = { state with body := state.body.advance (Stmt.yieldCountAll body) })
      (state.GivenUp (Stmt.yieldCountAll body))) ∧
    ∀ (tree : Stmt) (declaration : Signature), tree.declaration? = some declaration →
      Leaves (item tree) state (state.Registered declaration) (state.Abandoned declaration) := by
  refine ⟨fun tree => ⟨fun hrun => ?_, givenUp_stmt tree⟩, fun body span => ⟨fun hrun => ?_, ?_⟩,
    fun body span => ⟨fun hrun => ?_, ?_⟩, fun tree declaration hdeclaration => ?_⟩
  · exact eq_past_of_stmt hrun ▸ state.passed_past tree
  · exact ((runs_blockContents state.knows_context body span _).1 ⟨_, hrun⟩).2
  · exact givenUp_blockContents
  · exact ((runs_block state.knows_context body span _).1 ⟨_, hrun⟩).2
  · exact givenUp_block
  · exact ⟨registered_of_item hdeclaration, abandoned_of_item hdeclaration⟩

/-- A coroutine with an unknown name behind two yields:
`def coroutine g(x) \x7b yield x; \x7b yield x; y; \x7d \x7d`. -/
def interrupted : Stmt :=
  .coroutine "g" [⟨"x", default⟩]
    [.yields (.symbol "x" default) default,
      .block [.yields (.symbol "x" default) default, .expression (.symbol "y" default) default]
        default] default default

/-- Three frames stay open inside the global one, and the coroutine is known. -/
theorem emission_restores_state_interrupted :
    ∃ before after : State, before.names.scopes.frames = [["z"]] ∧
      item interrupted before = (.error ⟨.undefinedVariable "y", default⟩, after) ∧
      after.names.scopes.frames = [[], [], ["x"], ["z"]] ∧
      before.Abandoned ⟨"g", 1, .coroutine, true⟩ after := by
  obtain ⟨after, hrun, hframes⟩ : ∃ after : State,
      item interrupted ⟨⟨⟨[], ["z"]⟩, .empty⟩, .topLevel⟩ =
        (.error ⟨.undefinedVariable "y", default⟩, after) ∧
      after.names.scopes.frames = [[], [], ["x"], ["z"]] :=
    ⟨_, rfl, rfl⟩
  obtain ⟨_, _, _, hitem⟩ := emission_restores_state ⟨⟨⟨[], ["z"]⟩, .empty⟩, .topLevel⟩
  exact ⟨_, after, rfl, hrun, hframes, (hitem interrupted _ rfl).error hrun⟩

end Emit

end Coroscript
