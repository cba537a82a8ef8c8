import Coroscript.Proofs.Coroutine.Order

namespace Coroscript

/-! Bodies that forget where they were suspended, and only know how many yields have
been executed. -/

namespace Interpretation

variable {σ ν : Type} (meaning : Interpretation σ ν)

/-- The answers of a body that goes on behind as many yields of its text as have been
executed, whichever those were. -/
def countedAnswers (body : List Stmt) : Nat → σ → List (σ → σ) → List (Option ν)
  | _, _, [] => []
  | count, store, change :: later =>
      match meaning.run (Stmt.resumption body count) (change store) with
      | .yielded value _ store => some value :: countedAnswers body (count + 1) store later
      | .finished _ => [none]

end Interpretation

def Progress.seen {σ ν : Type} : Progress σ ν → Option (ν × σ)
  | .yielded value _ store => some (value, store)
  | .finished _ => none

namespace Stmt

/-- A run of `body` can have executed `count` yields and be left with `rest`. -/
inductive Reaches (body : List Stmt) : Nat → List Stmt → Prop where
  | start : Reaches body 0 body
  | yielded {σ ν : Type} {meaning : Interpretation σ ν} {count : Nat} {rest next : List Stmt}
      {store after : σ} {value : ν} :
      Reaches body count rest → meaning.run rest store = .yielded value next after →
      Reaches body (count + 1) next

def Alike (left right : List Stmt) : Prop :=
  ∀ {σ ν : Type} (meaning : Interpretation σ ν) (store : σ),
    (meaning.run left store).seen = (meaning.run right store).seen

/-- Up to the next yield, the same follows behind the yields that a run has executed as
behind as many yields of the text. -/
def CountSuffices (body : List Stmt) : Prop :=
  ∀ count rest, Reaches body count rest → Alike (resumption body count) rest

end Stmt

namespace Interpretation

variable {σ ν : Type} (meaning : Interpretation σ ν)

theorem countedAnswers_eq_answers {body : List Stmt} (hsuffices : Stmt.CountSuffices body)
    (changes : List (σ → σ)) {count : Nat} {rest : List Stmt}
    (hreaches : Stmt.Reaches body count rest) (store : σ) :
    meaning.countedAnswers body count store changes = meaning.answers rest store changes := by
  induction changes generalizing count rest store with
  | nil => rw [countedAnswers, answers]
  | cons change later ih =>
      have halike := hsuffices count rest hreaches meaning (change store)
      cases hcounted : meaning.run (Stmt.resumption body count) (change store) with
      | finished after =>
          cases hrest : meaning.run rest (change store) with
          | finished after' => simp only [countedAnswers, answers, hcounted, hrest]
          | yielded value next after' =>
              rw [hcounted, hrest] at halike
              contradiction
      | yielded value next after =>
          cases hrest : meaning.run rest (change store) with
          | finished after' =>
              rw [hcounted, hrest] at halike
              contradiction
          | yielded value' next' after' =>
              rw [hcounted, hrest] at halike
              obtain ⟨rfl, rfl⟩ := Prod.mk.inj (Option.some.inj halike)
              simp only [countedAnswers, answers, hcounted, hrest, ih (hreaches.yielded hrest)]

/-- An interpretation that can be led anywhere: on a list of choices every value is the
next choice, and on a store of `meaning` it is as `meaning` says, and tells the store. -/
def guided : Interpretation (List Bool ⊕ σ) (Bool ⊕ ν × σ) where
  eval value
    | .inl choices => (.inl (choices.headD false), .inl choices.tail)
    | .inr store => (.inr (meaning.eval value store), .inr (meaning.eval value store).2)
  holds
    | .inl choice => choice
    | .inr result => meaning.holds result.1
  assign name
    | .inr result, .inr store => .inr (meaning.assign name result.1 store)
    | _, store => store
  print arguments
    | .inl choices => .inl choices
    | .inr store => .inr (meaning.print arguments store)

theorem run_guided_inr (trees : List Stmt) (store : σ) :
    meaning.guided.run trees (.inr store) =
      match meaning.run trees store with
      | .yielded value rest after => .yielded (.inr (value, after)) rest (.inr after)
      | .finished after => .finished (.inr after) := by
  fun_induction run meaning trees store
  case case1 => rw [run]
  case case9 heval =>
    rw [run]
    simp only [guided, heval]
  case case4 heval ih =>
    rw [run]
    simp only [guided, heval]
    exact ih
  case case5 heval hholds ih | case6 heval hholds ih | case7 heval hholds ih
      | case8 heval hholds ih =>
    rw [run]
    simp only [guided, heval, hholds]
    exact ih
  all_goals
    rename_i ih
    rw [run]
    exact ih

theorem run_guided_inl {σ' ν' : Type} {other : Interpretation σ' ν'} {trees rest : List Stmt}
    {store after : σ'} {value : ν'} (hrun : other.run trees store = .yielded value rest after) :
    ∃ choices result more,
      meaning.guided.run trees (.inl choices) = .yielded result rest (.inl more) := by
  fun_induction run other trees store
  case case1 => contradiction
  case case9 =>
    obtain ⟨_, rfl, _⟩ := Progress.yielded.inj hrun
    refine ⟨[false], .inl false, [], ?_⟩
    rw [run]
    rfl
  -- Every evaluation takes a choice off the list; only a condition that holds needs `true`.
  case case5 ih | case7 ih =>
    obtain ⟨choices, result, more, hguided⟩ := ih hrun
    refine ⟨true :: choices, result, more, ?_⟩
    rw [run]
    exact hguided
  case case3 ih | case4 ih | case6 ih | case8 ih =>
    obtain ⟨choices, result, more, hguided⟩ := ih hrun
    refine ⟨false :: choices, result, more, ?_⟩
    rw [run]
    exact hguided
  all_goals
    rename_i ih
    obtain ⟨choices, result, more, hguided⟩ := ih hrun
    refine ⟨choices, result, more, ?_⟩
    rw [run]
    exact hguided

theorem agrees_of_reaches {body : List Stmt}
    (hagrees : ∀ store changes, meaning.guided.countedAnswers body 0 store changes =
      meaning.guided.answers body store changes)
    {count : Nat} {rest : List Stmt} (hreaches : Stmt.Reaches body count rest) :
    ∀ store changes, meaning.guided.countedAnswers body count store changes =
      meaning.guided.answers rest store changes := by
  induction hreaches with
  | start => exact hagrees
  | @yielded σ' ν' other count rest next store after value _ hrun ih =>
      intro store' changes
      obtain ⟨choices, result, more, hguided⟩ := meaning.run_guided_inl hrun
      cases changes with
      | nil => rw [countedAnswers, answers]
      | cons change later =>
          -- The first call is led to `next`, and the second starts from the store given.
          have hboth := ih (.inl []) ((fun _ => .inl choices) :: (fun _ => change store') :: later)
          rw [countedAnswers, answers, hguided] at hboth
          cases hcounted : meaning.guided.run (Stmt.resumption body count) (.inl choices) with
          | finished after' =>
              rw [hcounted] at hboth
              simp at hboth
          | yielded value' next' after' =>
              rw [hcounted] at hboth
              exact (List.cons.inj hboth).2

end Interpretation

theorem Stmt.countSuffices_iff (body : List Stmt) :
    Stmt.CountSuffices body ↔
      ∀ {σ ν : Type} (meaning : Interpretation σ ν) (store : σ) (changes : List (σ → σ)),
        meaning.countedAnswers body 0 store changes = meaning.answers body store changes := by
  constructor
  · intro hsuffices σ ν meaning store changes
    exact meaning.countedAnswers_eq_answers hsuffices changes .start store
  · intro hagrees count rest hreaches σ ν meaning store
    have hcall := meaning.agrees_of_reaches (hagrees meaning.guided) hreaches (.inr store) [id]
    simp only [Interpretation.countedAnswers, Interpretation.answers, id_eq,
      Interpretation.run_guided_inr] at hcall
    cases hcounted : meaning.run (resumption body count) store with
    | finished after =>
        cases hrest : meaning.run rest store with
        | finished after' => rfl
        | yielded value next after' => simp [hcounted, hrest] at hcall
    | yielded value next after =>
        cases hrest : meaning.run rest store with
        | finished after' => simp [hcounted, hrest] at hcall
        | yielded value' next' after' => simpa [hcounted, hrest, Progress.seen] using hcall

theorem Stmt.Reaches.of_sequentialAll {body rest : List Stmt} {count : Nat}
    (hbody : SequentialAll body) (hreaches : Reaches body count rest) :
    SequentialAll rest ∧ resumption body count = rest ∧
      (resumptionsAll [] body).drop count = resumptionsAll [] rest := by
  induction hreaches with
  | start => exact ⟨hbody, rfl, rfl⟩
  | @yielded σ ν meaning count rest next store after value _ hrun ih =>
      obtain ⟨hrest, _, hdrop⟩ := ih
      obtain ⟨hnext, hsequential⟩ := meaning.resumptionsAll_of_run hrest hrun
      rw [hnext] at hdrop
      refine ⟨hsequential, ?_, ?_⟩
      · rw [resumption, ← List.head?_drop, hdrop, List.head?_cons, Option.getD_some]
      · rw [← List.drop_drop, hdrop, List.drop_one, List.tail_cons]

theorem Stmt.SequentialAll.countSuffices {body : List Stmt} (hbody : SequentialAll body) :
    CountSuffices body := by
  intro count rest hreaches σ ν meaning store
  rw [(hreaches.of_sequentialAll hbody).2.1]

end Coroscript
