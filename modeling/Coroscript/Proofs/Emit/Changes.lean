import Coroscript.Proofs.Emit.Respects

namespace Coroscript

/-! Whatever is emitted, and whether or not it fails, the names in use change by four
kinds of steps only. -/

namespace Names

/-- One change of the names in use. -/
inductive Change where
  | enter
  | exit
  | declare (name : String)
  | register (declaration : Signature)
deriving DecidableEq, Repr

/-- The names after a change, if the change is allowed. -/
def change? (names : Names) : Change → Option Names
  | .enter => some names.enter
  | .exit => names.scopes.exit?.map fun scopes => { names with scopes }
  | .declare name =>
      if names.isTaken name then none
      else some { names with scopes := names.scopes.insert name }
  | .register declaration =>
      if names.scopes.isDeclared declaration.name then none
      else (names.callables.register? declaration).map fun callables => { names with callables }

def changeAll? (names : Names) (changes : List Change) : Option Names :=
  changes.foldlM change? names

theorem changeAll?_append {names middle after : Names} {first second : List Change}
    (hfirst : names.changeAll? first = some middle)
    (hsecond : middle.changeAll? second = some after) :
    names.changeAll? (first ++ second) = some after := by
  rw [changeAll?, List.foldlM_append]
  exact Option.bind_eq_some_iff.2 ⟨middle, hfirst, hsecond⟩

/-- What every change keeps, a run of changes keeps. -/
theorem changeAll?_induction {keeps : Names → Prop}
    (hstep : ∀ names change after, names.change? change = some after → keeps names → keeps after)
    {names after : Names} {changes : List Change}
    (hrun : names.changeAll? changes = some after) (hnames : keeps names) : keeps after := by
  induction changes generalizing names with
  | nil => exact Option.some.inj hrun ▸ hnames
  | cons change changes ih =>
      obtain ⟨middle, hchange, hrun⟩ := Option.bind_eq_some_iff.1 hrun
      exact ih hrun (hstep names change middle hchange hnames)

/-- Every step that statements are made of is a change. -/
theorem tolerant_changes :
    Tolerant fun names after => ∃ changes, names.changeAll? changes = some after where
  refl names := ⟨[], rfl⟩
  trans := by
    intro first second third hfirst hsecond
    obtain ⟨changes, hchanges⟩ := hfirst
    obtain ⟨others, hothers⟩ := hsecond
    exact ⟨changes ++ others, changeAll?_append hchanges hothers⟩
  enter names := ⟨[.enter], rfl⟩
  exit := by
    intro names scopes hexit
    exact ⟨[.exit], by simp [changeAll?, change?, hexit]⟩
  declare := by
    intro names name hfree
    exact ⟨[.declare name], by simp [changeAll?, change?, hfree]⟩

theorem atRegistration_changes :
    AtRegistration fun names after => ∃ changes, names.changeAll? changes = some after := by
  intro names declaration callables hundeclared hregister
  exact ⟨[.register declaration], by simp [changeAll?, change?, hundeclared, hregister]⟩

end Names

end Coroscript
