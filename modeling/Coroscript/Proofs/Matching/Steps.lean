import Coroscript.Action
import Mathlib.Data.List.Forall2

namespace Coroscript

/-! Two computations side by side: both give results that are related, or both
fail with related errors. -/

variable {ε σ α α' β β' : Type}

inductive Agree (results : α → α' → Prop) (errors : ε → ε → Prop) :
    Except ε α → Except ε α' → Prop
  | ok {a : α} {a' : α'} (hresults : results a a') : Agree results errors (.ok a) (.ok a')
  | error {e e' : ε} (herrors : errors e e') : Agree results errors (.error e) (.error e')

namespace Agree

variable {results : α → α' → Prop} {errors : ε → ε → Prop}

theorem bind {further : β → β' → Prop} {left : Except ε α} {right : Except ε α'}
    {next : α → Except ε β} {next' : α' → Except ε β'}
    (hfirst : Agree results errors left right)
    (hnext : ∀ a a', results a a' → Agree further errors (next a) (next' a')) :
    Agree further errors (left >>= next) (right >>= next') := by
  cases hfirst with
  | ok hresults => exact hnext _ _ hresults
  | error herrors => exact .error herrors

theorem bind_pure {left right : Except ε α} (hfirst : Agree Eq errors left right)
    (view : α → β) :
    Agree Eq errors (left >>= fun a => pure (view a)) (right >>= fun a => pure (view a)) := by
  apply hfirst.bind
  intro a a' ha
  exact .ok (congrArg view ha)

theorem mono {results' : α → α' → Prop} {errors' : ε → ε → Prop}
    {left : Except ε α} {right : Except ε α'} (hagree : Agree results errors left right)
    (hresults : ∀ a a', results a a' → results' a a')
    (herrors : ∀ e e', errors e e' → errors' e e') : Agree results' errors' left right := by
  cases hagree with
  | ok h => exact .ok (hresults _ _ h)
  | error h => exact .error (herrors _ _ h)

theorem mapM {items : List β} {items' : List β'} {related : β → β' → Prop}
    {step : β → Except ε α} {step' : β' → Except ε α'}
    (hitems : List.Forall₂ related items items')
    (hstep : ∀ b b', related b b' → Agree results errors (step b) (step' b')) :
    Agree (List.Forall₂ results) errors (items.mapM step) (items'.mapM step') := by
  induction hitems with
  | nil => exact .ok .nil
  | cons hfirst _ ih =>
      rw [List.mapM_cons, List.mapM_cons]
      apply (hstep _ _ hfirst).bind
      intro a a' ha
      apply ih.bind
      intro as as' has
      exact .ok (.cons ha has)

end Agree

namespace Action

/-- From states that are related `before`, both steps end with related results,
in states that are related `after`, or both fail. -/
def Relates (before after : σ → σ → Prop) (results : α → α' → Prop) (errors : ε → ε → Prop)
    (left : Action ε σ α) (right : Action ε σ α') : Prop :=
  ∀ s s', before s s' →
    Agree results errors (left s).1 (right s').1 ∧
      ∀ a, (left s).1 = .ok a → after (left s).2 (right s').2

namespace Relates

variable {before middle after : σ → σ → Prop} {results : α → α' → Prop}
  {further : β → β' → Prop} {errors : ε → ε → Prop}

theorem pure {a : α} {a' : α'} (hresults : results a a') :
    Relates before before results errors (Pure.pure a) (Pure.pure a') := by
  intro s s' hbefore
  exact ⟨.ok hresults, fun _ _ => hbefore⟩

theorem fail {e e' : ε} (herrors : errors e e') :
    Relates before after results errors (Action.fail e) (Action.fail e') := by
  intro s s' _
  exact ⟨.error herrors, fun _ herror => nomatch herror⟩

theorem gets {view : σ → α} {view' : σ → α'}
    (hview : ∀ s s', before s s' → results (view s) (view' s')) :
    Relates before before results errors (Action.gets view) (Action.gets view') := by
  intro s s' hbefore
  exact ⟨.ok (hview s s' hbefore), fun _ _ => hbefore⟩

theorem bind {left : Action ε σ α} {right : Action ε σ α'} {next : α → Action ε σ β}
    {next' : α' → Action ε σ β'} (hfirst : Relates before middle results errors left right)
    (hnext : ∀ a a', results a a' → Relates middle after further errors (next a) (next' a')) :
    Relates before after further errors (left >>= next) (right >>= next') := by
  intro s s' hbefore
  obtain ⟨hagree, hmiddle⟩ := hfirst s s' hbefore
  rw [bind_apply, bind_apply]
  revert hagree hmiddle
  rcases left s with ⟨result, after⟩
  rcases right s' with ⟨result', after'⟩
  intro hagree hmiddle
  cases hagree with
  | ok hresults => exact hnext _ _ hresults after after' (hmiddle _ rfl)
  | error herrors => exact ⟨.error herrors, fun _ herror => nomatch herror⟩

theorem bind_pure {left right : Action ε σ α} (hfirst : Relates before after Eq errors left right)
    (view : α → β) :
    Relates before after Eq errors (left >>= fun a => Pure.pure (view a))
      (right >>= fun a => Pure.pure (view a)) := by
  apply hfirst.bind
  intro a a' ha
  exact pure (congrArg view ha)

theorem mono {results' : α → α' → Prop} {left : Action ε σ α} {right : Action ε σ α'}
    (hsteps : Relates before after results errors left right)
    (hresults : ∀ a a', results a a' → results' a a') :
    Relates before after results' errors left right := by
  intro s s' hbefore
  obtain ⟨hagree, hafter⟩ := hsteps s s' hbefore
  exact ⟨hagree.mono hresults fun _ _ h => h, hafter⟩

theorem forM {items : List β} {items' : List β'} {related : β → β' → Prop}
    {step : β → Action ε σ Unit} {step' : β' → Action ε σ Unit}
    (hitems : List.Forall₂ related items items')
    (hstep : ∀ b b', related b b' → Relates before before Eq errors (step b) (step' b')) :
    Relates before before Eq errors (items.forM step) (items'.forM step') := by
  induction hitems with
  | nil => exact pure rfl
  | cons hfirst _ ih => exact (hstep _ _ hfirst).bind fun _ _ _ => ih

end Relates

end Action

end Coroscript
