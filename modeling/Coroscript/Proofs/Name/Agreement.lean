import Coroscript.Proofs.Matching.Steps
import Coroscript.Proofs.Name.Registry
import Coroscript.Proofs.Static.Statements

namespace Coroscript

/-! Tables that tell the same of some names. What is asked or changed under such a name has the
same outcome in both. -/

theorem Callables.isSome_register? {callables callables' : Callables} {declaration : Signature}
    (hget : callables.get? declaration.name = callables'.get? declaration.name) :
    (callables.register? declaration).isSome = (callables'.register? declaration).isSome := by
  unfold register?
  rw [hget]
  split
  · rfl
  · split <;> rfl

namespace Names

structure AgreeOn (known : List String) (names names' : Names) : Prop where
  declared : ∀ name ∈ known, names.scopes.isDeclared name = names'.scopes.isDeclared name
  registered : ∀ name ∈ known, names.callables.get? name = names'.callables.get? name

namespace AgreeOn

variable {known : List String} {names names' : Names} (hagree : names.AgreeOn known names')
include hagree

theorem isTaken {name : String} (hname : name ∈ known) :
    names.isTaken name = names'.isTaken name := by
  rw [Names.isTaken, Names.isTaken, Callables.isRegistered, Callables.isRegistered,
    hagree.declared name hname, hagree.registered name hname]

theorem enter : names.enter.AgreeOn known names'.enter := by
  refine ⟨fun name hname => ?_, hagree.registered⟩
  rw [Names.enter, Names.enter, Scopes.isDeclared_enter, Scopes.isDeclared_enter]
  exact hagree.declared name hname

theorem insert (name : String) :
    AgreeOn known { names with scopes := names.scopes.insert name }
      { names' with scopes := names'.scopes.insert name } := by
  refine ⟨fun other hother => ?_, hagree.registered⟩
  rw [Scopes.isDeclared_insert, Scopes.isDeclared_insert, hagree.declared other hother]

theorem register {declaration : Signature} (hname : declaration.name ∈ known)
    (position : Position) :
    Agree (AgreeOn known) Eq (names.register declaration position)
      (names'.register declaration position) := by
  unfold Names.register
  rw [hagree.declared _ hname]
  split
  · exact .error rfl
  have hsome := Callables.isSome_register? (hagree.registered _ hname)
  cases hafter : names.callables.register? declaration with
  | none =>
      have hafter' : names'.callables.register? declaration = none := by
        simpa [hafter] using hsome
      rw [hafter']
      exact .error rfl
  | some after =>
      rw [hafter, Option.isSome_some] at hsome
      obtain ⟨after', hafter'⟩ := Option.isSome_iff_exists.1 hsome.symm
      rw [hafter']
      refine .ok ⟨hagree.declared, fun name hknown => ?_⟩
      rw [Callables.get?_of_register? hafter, Callables.get?_of_register? hafter',
        hagree.registered name hknown]

theorem resolve {name : String} (hname : name ∈ known) (count : Nat) (position : Position) :
    names.resolve name count position = names'.resolve name count position := by
  rw [Names.resolve, Names.resolve, hagree.registered name hname]

end AgreeOn

/-- The tables agree, and still do when up to `depth` frames are closed again. -/
def Aligned (known : List String) : Nat → Names → Names → Prop
  | 0, names, names' => names.AgreeOn known names'
  | depth + 1, names, names' =>
      names.AgreeOn known names' ∧
        ∃ outer outer' : Names, outer.Within names ∧ outer'.Within names' ∧
          outer.Aligned known depth outer'

namespace Aligned

variable {known : List String} {depth : Nat} {names names' : Names}

theorem agree (haligned : names.Aligned known depth names') : names.AgreeOn known names' := by
  cases depth with
  | zero => exact haligned
  | succ depth => exact haligned.1

theorem enter (haligned : names.Aligned known depth names') :
    names.enter.Aligned known (depth + 1) names'.enter :=
  ⟨haligned.agree.enter, names, names', names.within_enter, names'.within_enter, haligned⟩

theorem exit (haligned : names.Aligned known (depth + 1) names') (stop : Position) :
    Agree (Aligned known depth) Eq (names.exit stop) (names'.exit stop) := by
  obtain ⟨_, outer, outer', hwithin, hwithin', houter⟩ := haligned
  rw [hwithin.exit, hwithin'.exit]
  exact .ok houter

theorem declare (haligned : names.Aligned known depth names') {name : String}
    (hname : name ∈ known) (position : Position) :
    Agree (Aligned known depth) Eq (names.declare name position)
      (names'.declare name position) := by
  unfold Names.declare
  rw [haligned.agree.isTaken hname]
  split
  · exact .error rfl
  -- Only the innermost frame changes. What is behind it stays aligned as it was.
  have hinsert := haligned.agree.insert name
  cases depth with
  | zero => exact .ok hinsert
  | succ depth =>
      obtain ⟨_, outer, outer', hwithin, hwithin', houter⟩ := haligned
      exact .ok ⟨hinsert, outer, outer', hwithin.insert name, hwithin'.insert name, houter⟩

end Aligned

end Names

end Coroscript
