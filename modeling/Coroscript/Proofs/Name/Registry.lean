import Coroscript.Name.Callable

namespace Coroscript

namespace Callables

/-! Looking up after a declaration. -/

theorem get?_eq_none_iff {callables : Callables} {name : String} :
    callables.get? name = none ↔ ∀ signature ∈ callables.signatures, signature.name ≠ name := by
  simp [get?]

theorem get?_append (callables : Callables) (declaration : Signature) (name : String) :
    (⟨callables.signatures ++ [declaration]⟩ : Callables).get? name =
      (callables.get? name).or (if declaration.name = name then some declaration else none) := by
  simp only [get?, List.find?_append, List.find?_singleton, beq_iff_eq]

theorem get?_complete (callables : Callables) (completed name : String) :
    (callables.complete completed).get? name =
      (callables.get? name).map fun signature =>
        if signature.name == completed then { signature with defined := true } else signature := by
  rw [get?, complete, List.find?_map]
  congr 2
  funext signature
  by_cases hname : signature.name = completed
  · simp [hname]
  · simp [hname]

theorem get?_of_register? {callables after : Callables} {declaration : Signature}
    (hregister : callables.register? declaration = some after) (name : String) :
    after.get? name =
      if name = declaration.name then some declaration else callables.get? name := by
  unfold register? at hregister
  cases hget : callables.get? declaration.name with
  | none =>
      rw [hget] at hregister
      obtain rfl := Option.some.inj hregister
      by_cases hname : name = declaration.name
      · subst hname
        rw [get?] at hget
        simp [get?, hget]
      · simp [get?, hname, Ne.symm hname]
  | some signature =>
      rw [hget] at hregister
      obtain ⟨⟨hdefined, _, hkind, harity⟩, rfl⟩ :
          (declaration.defined = true ∧ ¬ signature.defined = true ∧
            signature.kind = declaration.kind ∧ signature.arity = declaration.arity) ∧
          callables.complete declaration.name = after := by
        simpa using hregister
      rw [get?_complete]
      by_cases hname : name = declaration.name
      · subst hname
        have hsignature := get?_name hget
        cases declaration
        simp_all
      · rw [if_neg hname]
        cases hother : callables.get? name with
        | none => rfl
        | some other =>
            have hotherName := get?_name hother
            simp [hotherName, hname]

/-! The table is one from names. -/

/-- Every record is found under its own name, and nothing else is found. -/
def Keyed (callables : Callables) : Prop :=
  ∀ name signature, callables.get? name = some signature ↔
    signature ∈ callables.signatures ∧ signature.name = name

theorem keyed_empty : empty.Keyed := by
  intro name signature
  simp [empty, get?]

theorem Keyed.append {callables : Callables} (hkeyed : callables.Keyed) {declaration : Signature}
    (hnew : callables.get? declaration.name = none) :
    Keyed ⟨callables.signatures ++ [declaration]⟩ := by
  intro name signature
  rw [get?_append, List.mem_append, List.mem_singleton]
  by_cases hname : declaration.name = name
  · subst hname
    rw [hnew, Option.none_or, if_pos rfl, Option.some.injEq]
    constructor
    · intro hsame
      exact ⟨.inr hsame.symm, by rw [hsame]⟩
    · intro hboth
      cases hboth.1 with
      | inl hold => exact absurd hboth.2 (get?_eq_none_iff.1 hnew signature hold)
      | inr hsame => exact hsame.symm
  · rw [if_neg hname, Option.or_none, hkeyed]
    constructor
    · intro hold
      exact ⟨.inl hold.1, hold.2⟩
    · intro hboth
      cases hboth.1 with
      | inl hold => exact ⟨hold, hboth.2⟩
      | inr hsame => exact absurd (hsame ▸ hboth.2) hname

theorem Keyed.complete {callables : Callables} (hkeyed : callables.Keyed) (completed : String) :
    (callables.complete completed).Keyed := by
  intro name signature
  rw [get?_complete, Option.map_eq_some_iff, Callables.complete, List.mem_map]
  constructor
  · intro hfound
    obtain ⟨old, hold, hsame⟩ := hfound
    obtain ⟨hmem, hname⟩ := (hkeyed name old).1 hold
    refine ⟨⟨old, hmem, hsame⟩, ?_⟩
    rw [← hsame, ← hname]
    split <;> rfl
  · intro hboth
    obtain ⟨⟨old, hmem, hsame⟩, hname⟩ := hboth
    refine ⟨old, (hkeyed name old).2 ⟨hmem, ?_⟩, hsame⟩
    rw [← hname, ← hsame]
    split <;> rfl

theorem Keyed.register {callables after : Callables} (hkeyed : callables.Keyed)
    {declaration : Signature} (hregister : callables.register? declaration = some after) :
    after.Keyed := by
  unfold register? at hregister
  split at hregister
  · rename_i hnew
    exact Option.some.inj hregister ▸ hkeyed.append hnew
  · split at hregister
    · exact Option.some.inj hregister ▸ hkeyed.complete declaration.name
    · contradiction

end Callables

end Coroscript
