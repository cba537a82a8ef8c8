import Coroscript.Proofs.Emit.Bookkeeping
import Coroscript.Proofs.Static.Programs

namespace Coroscript

/-! What becomes of callables in the course of a run, whichever of its operations fail. -/

namespace Callables

/-- Every record of `earlier` is on record in `later`, where it may have become that of a
definition. -/
def Extends (earlier later : Callables) : Prop :=
  ∀ name record, earlier.get? name = some record →
    ∃ defined, later.get? name = some { record with defined } ∧
      (record.defined = true → defined = true)

namespace Extends

variable {first second third : Callables}

theorem refl (callables : Callables) : callables.Extends callables := by
  intro name record hrecord
  exact ⟨record.defined, hrecord, id⟩

theorem trans (hfirst : first.Extends second) (hsecond : second.Extends third) :
    first.Extends third := by
  intro name record hrecord
  obtain ⟨middle, hmiddle, hdefined⟩ := hfirst name record hrecord
  obtain ⟨last, hlast, hkept⟩ := hsecond name _ hmiddle
  exact ⟨last, hlast, fun hrecord => hkept (hdefined hrecord)⟩

theorem register {declaration : Signature} (hregister : first.register? declaration = some second) :
    first.Extends second := by
  intro name record hrecord
  rw [get?_of_register? hregister]
  by_cases hname : name = declaration.name
  · subst hname
    have hsame := get?_name hrecord
    -- A name that has a record can only be registered again to complete it.
    unfold register? at hregister
    rw [hrecord] at hregister
    obtain ⟨⟨hdefined, _, hkind, harity⟩, _⟩ := Option.ite_none_right_eq_some.1 hregister
    refine ⟨true, ?_, fun _ => rfl⟩
    rw [if_pos rfl, hsame, hkind, harity, ← hdefined]
  · rw [if_neg hname]
    exact ⟨record.defined, hrecord, id⟩

theorem resolve {earlier later : Names} (hextends : earlier.callables.Extends later.callables)
    {name : String} {count : Nat} {position other : Position} {record : Signature}
    (hresolve : earlier.resolve name count position = .ok record) :
    ∃ defined, later.resolve name count other = .ok { record with defined } := by
  unfold Names.resolve at hresolve
  cases hget : earlier.callables.get? name with
  | none => simp [hget] at hresolve
  | some found =>
      simp only [hget] at hresolve
      split at hresolve
      · rename_i harity
        obtain rfl := Except.ok.inj hresolve
        obtain ⟨defined, hlater, _⟩ := hextends name found hget
        exact ⟨defined, by simp [Names.resolve, hlater, harity]⟩
      · contradiction

end Extends

end Callables

namespace Names

theorem tolerant_extends :
    Tolerant fun names after => names.callables.Extends after.callables where
  refl names := .refl names.callables
  trans := .trans
  enter names := .refl names.callables
  exit _ := .refl _
  declare _ := .refl _

theorem atRegistration_extends :
    AtRegistration fun names after => names.callables.Extends after.callables := by
  intro names declaration callables _ hregister
  exact .register hregister

theorem tolerant_sameCallables :
    Tolerant fun names after => after.callables = names.callables where
  refl _ := rfl
  trans hfirst hsecond := hsecond.trans hfirst
  enter _ := rfl
  exit _ := rfl
  declare _ := rfl

end Names

namespace Emit

/-- A registration, at the state in which an operation makes it. -/
structure Attempt where
  operation : Operation
  declaration : Signature
  position : Position
  before : State

namespace Attempt

def outcome (attempt : Attempt) : Except Error Unit × State :=
  Emitter.register attempt.declaration attempt.position attempt.before

def succeeds (attempt : Attempt) : Bool :=
  attempt.outcome.1.isOk

/-- What comes of a name that may not be registered: nothing is changed. -/
def refusal (attempt : Attempt) : Except Error Unit × State :=
  (.error ⟨.redefinition attempt.declaration.name, attempt.position⟩, attempt.before)

def successes (attempts : List Attempt) : List Signature :=
  (attempts.filter succeeds).map declaration

theorem successes_append (earlier later : List Attempt) :
    successes (earlier ++ later) = successes earlier ++ successes later := by
  simp [successes]

end Attempt

theorem register_cases (declaration : Signature) (position : Position) (state : State) :
    (∃ callables, state.names.callables.register? declaration = some callables ∧
      Emitter.register declaration position state =
        (.ok (), { state with names.callables := callables })) ∨
    Emitter.register declaration position state =
      (.error ⟨.redefinition declaration.name, position⟩, state) := by
  unfold Emitter.register Emitter.update Names.register
  by_cases hdeclared : state.names.scopes.isDeclared declaration.name = true
  · exact .inr (by simp [hdeclared])
  · cases hregister : state.names.callables.register? declaration with
    | none => exact .inr (by simp [hdeclared, hregister])
    | some callables => exact .inl ⟨callables, rfl, by simp [hdeclared, hregister]⟩

namespace Operation

mutual

/-- The registrations that an operation makes. -/
def attempts : Operation → State → List Attempt
  | .inBody body inside, state => attemptsAll inside { state with body }
  | operation, state =>
      (operation.registration?.map fun (declaration, position) =>
        Attempt.mk operation declaration position state).toList

def attemptsAll : List Operation → State → List Attempt
  | [], _ => []
  | first :: others, state => first.attempts state ++ attemptsAll others (first.perform state)

end

mutual

/-- The states that an operation comes through, the last one included: those behind the
operations inside it and the one behind its registration. What else an operation does leaves
the callables alone. -/
def points : Operation → State → List State
  | .inBody body inside, state =>
      { state with body } :: pointsAll inside { state with body } ++
        [(Operation.inBody body inside).perform state]
  | operation, state =>
      (operation.registration?.map fun (declaration, position) =>
        (Emitter.register declaration position state).2).toList ++ [operation.perform state]

def pointsAll : List Operation → State → List State
  | [], _ => []
  | first :: others, state => first.points state ++ pointsAll others (first.perform state)

end

variable {operation : Operation} {state : State}

theorem attempts_plain (hplain : operation.isPlain = true) (state : State) :
    operation.attempts state =
      (operation.registration?.map fun (declaration, position) =>
        Attempt.mk operation declaration position state).toList := by
  cases operation with
  | inBody body inside => contradiction
  | _ => rfl

theorem points_plain (hplain : operation.isPlain = true) (state : State) :
    operation.points state =
      (operation.registration?.map fun (declaration, position) =>
        (Emitter.register declaration position state).2).toList ++ [operation.perform state] := by
  cases operation with
  | inBody body inside => contradiction
  | _ => rfl

section Registration

variable {declaration : Signature} {position : Position}
  (hregistration : operation.registration? = some (declaration, position))

include hregistration

/-- Behind its registration, an operation is done with the callables. -/
theorem callables_perform (state : State) :
    (operation.perform state).names.callables =
      (Emitter.register declaration position state).2.names.callables := by
  obtain ⟨rest, hrun, hrest⟩ := run_eq_register hregistration
  rw [← run_snd, hrun, Action.bind_apply]
  cases hstep : Emitter.register declaration position state with
  | mk result after =>
      cases result with
      | error error => rfl
      | ok _ => exact hrest Names.tolerant_sameCallables after

theorem run_of_refused {error : Error} {after : State}
    (hrefused : Emitter.register declaration position state = (.error error, after)) :
    operation.run state = (.error error, after) := by
  obtain ⟨rest, hrun, _⟩ := run_eq_register hregistration
  rw [hrun, Action.bind_apply, hrefused]

end Registration

theorem mem_attempts_plain (hplain : operation.isPlain = true) {attempt : Attempt}
    (hattempt : attempt ∈ operation.attempts state) :
    attempt.operation.registration? = some (attempt.declaration, attempt.position) := by
  rw [attempts_plain hplain, Option.mem_toList, Option.map_eq_some_iff] at hattempt
  obtain ⟨registration, hregistration, rfl⟩ := hattempt
  exact hregistration

/-! The table records the registrations that succeeded. -/

theorem records_plain (hplain : operation.isPlain = true) {declared : List Signature}
    (hrecords : state.names.callables.Records declared) :
    (operation.perform state).names.callables.Records
      (declared ++ Attempt.successes (operation.attempts state)) := by
  rw [attempts_plain hplain]
  cases hregistration : operation.registration? with
  | none =>
      have hsame :=
        respects_perform_of_none Names.tolerant_sameCallables hplain hregistration state
      rw [hsame]
      simpa [Attempt.successes] using hrecords
  | some registration =>
      rw [callables_perform hregistration]
      rcases register_cases registration.1 registration.2 state with
        ⟨callables, hregister, hstep⟩ | hstep
      · have hsuccess :
            Attempt.succeeds ⟨operation, registration.1, registration.2, state⟩ = true :=
          congrArg (fun outcome => outcome.1.isOk) hstep
        rw [hstep]
        simpa [Attempt.successes, hsuccess] using hrecords.register hregister
      · have hfailure :
            Attempt.succeeds ⟨operation, registration.1, registration.2, state⟩ = false :=
          congrArg (fun outcome => outcome.1.isOk) hstep
        rw [hstep]
        simpa [Attempt.successes, hfailure] using hrecords

mutual

theorem records_perform : ∀ (operation : Operation) (state : State) {declared : List Signature},
    state.names.callables.Records declared →
      (operation.perform state).names.callables.Records
        (declared ++ Attempt.successes (operation.attempts state))
  | .inBody body inside, state, _, hrecords =>
      records_performAll inside { state with body } hrecords
  | .enter, _, _, hrecords | .exit _, _, _, hrecords | .declare _ _, _, _, hrecords
  | .register _ _, _, _, hrecords | .declareParameters _, _, _, hrecords
  | .setBody _, _, _, hrecords | .expr _, _, _, hrecords | .stmt _, _, _, hrecords
  | .blockContents _ _, _, _, hrecords | .function _ _ _ _ _, _, _, hrecords
  | .coroutine _ _ _ _ _, _, _, hrecords | .entryPoint _ _ _, _, _, hrecords
  | .item _, _, _, hrecords => records_plain rfl hrecords

theorem records_performAll : ∀ (operations : List Operation) (state : State)
    {declared : List Signature}, state.names.callables.Records declared →
      (performAll operations state).names.callables.Records
        (declared ++ Attempt.successes (attemptsAll operations state))
  | [], state, declared, hrecords => by
      rw [attemptsAll, Attempt.successes, List.filter_nil, List.map_nil, List.append_nil]
      exact hrecords
  | first :: others, state, declared, hrecords => by
      rw [attemptsAll, Attempt.successes_append, ← List.append_assoc]
      exact records_performAll others _ (records_perform first state hrecords)

end

/-! What a point of a run has on record, every later point has. -/

def Precedes (earlier later : State) : Prop :=
  earlier.names.callables.Extends later.names.callables

theorem precedes_perform (operation : Operation) (state : State) :
    Precedes state (operation.perform state) :=
  respects_perform Names.tolerant_extends Names.atRegistration_extends operation state

/-- From `start` on, the points come in order, and the run goes on from `finish`. -/
structure Ordered (start : State) (points : List State) (finish : State) : Prop where
  pairwise : (start :: points).Pairwise Precedes
  finish : ∀ point ∈ start :: points, Precedes point finish

theorem ordered_nil (state : State) : Ordered state [] state where
  pairwise := List.pairwise_singleton _ _
  finish := List.forall_mem_singleton.2 (.refl _)

theorem Ordered.append {start middle finish : State} {earlier later : List State}
    (hearlier : Ordered start earlier middle) (hlater : Ordered middle later finish) :
    Ordered start (earlier ++ later) finish := by
  obtain ⟨hmiddle, hpairwise⟩ := List.pairwise_cons.1 hlater.pairwise
  obtain ⟨hfinish, hfinishes⟩ := List.forall_mem_cons.1 hlater.finish
  constructor
  · rw [← List.cons_append, List.pairwise_append]
    refine ⟨hearlier.pairwise, hpairwise, ?_⟩
    intro point hpoint other hother
    exact (hearlier.finish point hpoint).trans (hmiddle other hother)
  · rw [← List.cons_append, List.forall_mem_append]
    exact ⟨fun point hpoint => (hearlier.finish point hpoint).trans hfinish, hfinishes⟩

theorem ordered_step {start finish : State} (hstep : Precedes start finish) :
    Ordered start [finish] finish where
  pairwise := by simpa using hstep
  finish := by simpa using ⟨hstep, .refl _⟩

theorem ordered_plain (hplain : operation.isPlain = true) (state : State) :
    Ordered state (operation.points state) (operation.perform state) := by
  rw [points_plain hplain]
  cases hregistration : operation.registration? with
  | none => exact ordered_step (precedes_perform operation state)
  | some registration =>
      refine (ordered_step ?_).append (ordered_step ?_)
      · exact respects_register Names.tolerant_extends.refl Names.atRegistration_extends _ _ state
      · rw [Precedes, callables_perform hregistration]
        exact .refl _

mutual

theorem ordered_points : ∀ (operation : Operation) (state : State),
    Ordered state (operation.points state) (operation.perform state)
  | .inBody body inside, state => by
      -- The kind of body has no part in the order.
      have hentered : Ordered state [{ state with body }] { state with body } :=
        ordered_step (.refl _)
      have hinside := hentered.append (ordered_pointsAll inside { state with body })
      exact hinside.append (ordered_step (.refl _))
  | .enter, state | .exit _, state | .declare _ _, state | .register _ _, state
  | .declareParameters _, state | .setBody _, state | .expr _, state | .stmt _, state
  | .blockContents _ _, state | .function _ _ _ _ _, state | .coroutine _ _ _ _ _, state
  | .entryPoint _ _ _, state | .item _, state => ordered_plain rfl state

theorem ordered_pointsAll : ∀ (operations : List Operation) (state : State),
    Ordered state (pointsAll operations state) (performAll operations state)
  | [], state => ordered_nil state
  | first :: others, state =>
      (ordered_points first state).append (ordered_pointsAll others (first.perform state))

end

/-! A registration that is refused is the failure of its operation. -/

mutual

theorem registration_of_mem : ∀ (operation : Operation) (state : State) {attempt : Attempt},
    attempt ∈ operation.attempts state →
      attempt.operation.registration? = some (attempt.declaration, attempt.position)
  | .inBody body inside, state, _, hattempt =>
      registration_of_memAll inside { state with body } hattempt
  | .enter, _, _, hattempt | .exit _, _, _, hattempt | .declare _ _, _, _, hattempt
  | .register _ _, _, _, hattempt | .declareParameters _, _, _, hattempt
  | .setBody _, _, _, hattempt | .expr _, _, _, hattempt | .stmt _, _, _, hattempt
  | .blockContents _ _, _, _, hattempt | .function _ _ _ _ _, _, _, hattempt
  | .coroutine _ _ _ _ _, _, _, hattempt | .entryPoint _ _ _, _, _, hattempt
  | .item _, _, _, hattempt => mem_attempts_plain rfl hattempt

theorem registration_of_memAll : ∀ (operations : List Operation) (state : State)
    {attempt : Attempt}, attempt ∈ attemptsAll operations state →
      attempt.operation.registration? = some (attempt.declaration, attempt.position)
  | [], _, _, hattempt => by contradiction
  | first :: others, state, _, hattempt => by
      rcases List.mem_append.1 hattempt with hattempt | hattempt
      · exact registration_of_mem first state hattempt
      · exact registration_of_memAll others (first.perform state) hattempt

end

/-- A callable that is on record stays there, of the same arity and kind and defined once it
is, and calls that resolve go on to. Of each name, at most one definition, or one forward
declaration and then its definition, is ever taken in; every other registration is refused,
and the operation that made it does nothing else. -/
theorem registrations_are_permanent (operations : List Operation) :
    (State.initial :: pointsAll operations .initial).Pairwise (fun earlier later =>
        earlier.names.callables.Extends later.names.callables ∧
          ∀ {name count position record}, earlier.names.resolve name count position = .ok record →
            ∀ other, ∃ defined,
              later.names.resolve name count other = .ok { record with defined }) ∧
      (performAll operations .initial).names.callables.Records
        (Attempt.successes (attemptsAll operations .initial)) ∧
      ∀ attempt ∈ attemptsAll operations .initial,
        attempt.outcome.1 = .ok () ∨ attempt.outcome = attempt.refusal ∧
          attempt.operation.run attempt.before = attempt.refusal := by
  refine ⟨?_, ?_, ?_⟩
  · apply (ordered_pointsAll operations .initial).pairwise.imp
    intro earlier later hextends
    exact ⟨hextends, fun hresolve other => hextends.resolve hresolve⟩
  · exact records_performAll operations .initial Callables.records_empty
  · intro attempt hattempt
    have hregistration := registration_of_memAll operations .initial hattempt
    rcases register_cases attempt.declaration attempt.position attempt.before with
      ⟨callables, _, hstep⟩ | hstep
    · exact .inl (congrArg Prod.fst hstep)
    · exact .inr ⟨hstep, run_of_refused hregistration hstep⟩

/-- A function that is declared, then defined, cannot be defined again as a coroutine. -/
theorem registrations_are_permanent_completed :
    let operations : List Operation :=
      [.register ⟨"f", 1, .function, false⟩ default,
        .item (.function "f" [⟨"x", default⟩] [] default default),
        .register ⟨"f", 1, .coroutine, true⟩ default]
    ∃ attempt ∈ attemptsAll operations .initial,
      attempt.declaration = ⟨"f", 1, .coroutine, true⟩ ∧
      (performAll operations .initial).names.callables.Records
        (Attempt.successes (attemptsAll operations .initial)) ∧
      attempt.outcome = attempt.refusal ∧
      attempt.operation.run attempt.before =
        (.error ⟨.redefinition "f", default⟩, attempt.before) := by
  intro operations
  obtain ⟨_, hrecords, hattempts⟩ := registrations_are_permanent operations
  obtain ⟨first, second, last, hlist, hdeclaration, hposition, hrefused⟩ :
      ∃ first second last : Attempt, attemptsAll operations .initial = [first, second, last] ∧
        last.declaration = ⟨"f", 1, .coroutine, true⟩ ∧ last.position = default ∧
        last.outcome.1 ≠ .ok () :=
    ⟨_, _, _, rfl, rfl, rfl, fun hok => nomatch hok⟩
  have hlast : last ∈ attemptsAll operations .initial := by
    rw [hlist]
    simp
  obtain ⟨houtcome, hrun⟩ := (hattempts last hlast).resolve_left hrefused
  refine ⟨last, hlast, hdeclaration, hrecords, houtcome, ?_⟩
  rw [hrun, Attempt.refusal, hdeclaration, hposition]

end Operation

end Emit

end Coroscript
