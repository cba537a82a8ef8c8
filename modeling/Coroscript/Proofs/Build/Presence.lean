import Coroscript.Build.Output
import Coroscript.Proofs.Files.Walking

namespace Coroscript

/-! Whether the binary is there after a run of the compiler that changed nothing. -/

open FileTree Coroscript.Path

section Writing

variable {programs : Host.Programs} {config : BuildConfig} {code path directory : String}
  {tree cleared written : FileTree}

theorem clearOutput_eq_ok
    (hclear : (clearOutput (.ofTree programs) directory).run tree = (.ok (), cleared)) :
    ∃ made, makeDirectories directory tree = (.ok (), made) ∧
      emptyDirectory directory made = (.ok (), cleared) := by
  simp only [clearOutput, Host.ofTree, StateT.run, bind, StateT.bind] at hclear
  rcases hmade : makeDirectories directory tree with ⟨error | _, made⟩
  · rw [hmade] at hclear
    cases hclear
  · rw [hmade] at hclear
    refine ⟨made, rfl, ?_⟩
    dsimp only [StateT.bind, bind] at hclear
    rcases hempty : emptyDirectory directory made with ⟨error | _, after⟩
    · rw [hempty] at hclear
      cases hclear
    · rw [hempty] at hclear
      cases hclear
      rfl

/-- The three changes of a successful write. -/
theorem writeOutput_eq_ok
    (hwrite : (writeOutput (.ofTree programs) config code).run tree = (.ok path, written)) :
    ∃ made cleared, makeDirectories config.outDir tree = (.ok (), made) ∧
      emptyDirectory config.outDir made = (.ok (), cleared) ∧
        write config.sourcePath (encodeUtf8 code) cleared = (.ok (), written) := by
  rw [writeOutput, StateT.run_bind] at hwrite
  rcases hclear : (clearOutput (.ofTree programs) config.outDir).run tree with
    ⟨error | _, cleared⟩
  · rw [hclear] at hwrite
    cases hwrite
  · rw [hclear] at hwrite
    obtain ⟨made, hmade, hempty⟩ := clearOutput_eq_ok hclear
    refine ⟨made, cleared, hmade, hempty, ?_⟩
    dsimp only [bind, StateT.bind, StateT.run, Host.ofTree] at hwrite
    rcases hput : write config.sourcePath (encodeUtf8 code) cleared with ⟨error | _, after⟩
    · rw [hput] at hwrite
      cases hwrite
    · rw [hput] at hwrite
      cases hwrite
      rfl

/-- The tree behind the compiler's run decides. -/
theorem build_of_has (hidle : (programs config.compiler config.arguments written).2 = written)
    (hhas : written.has config.binaryPath = true) :
    (build (.ofTree programs) config).run written = (.built config.binaryPath, written) := by
  simp only [build, Host.ofTree, StateT.run, bind, StateT.bind, hidle, hhas, if_true]
  rfl

theorem build_of_not_has
    (hidle : (programs config.compiler config.arguments written).2 = written)
    (hhas : written.has config.binaryPath = false) :
    ∃ output, ((build (.ofTree programs) config).run written).1 =
      .failed config.compiler output := by
  simp only [build, Host.ofTree, StateT.run, bind, StateT.bind, hidle, hhas, Bool.false_eq_true,
    if_false]
  cases (programs config.compiler config.arguments written).1 <;> exact ⟨_, rfl⟩

theorem build_failed_iff_not_has
    (hidle : (programs config.compiler config.arguments written).2 = written) :
    (∃ output, ((build (.ofTree programs) config).run written).1 =
        .failed config.compiler output) ↔ written.has config.binaryPath = false := by
  refine ⟨fun hfails => ?_, build_of_not_has hidle⟩
  cases hhas : written.has config.binaryPath with
  | false => rfl
  | true =>
      rw [build_of_has hidle hhas] at hfails
      obtain ⟨output, houtput⟩ := hfails
      cases houtput

end Writing

/-- What a successful write leaves of `made`, where the output directory stands: the file at
`source`, and what is not in the output directory. -/
structure OnlyOutput (config : BuildConfig) (made : FileTree) (directory source : Address)
    (written : FileTree) : Prop where
  output : made.stat config.outDir = .ok (directory, .directory)
  working : written.working = made.working
  located : written.locate config.sourcePath = .ok source
  present : ∃ node, written.get? source = some node ∧ node ≠ .directory
  elsewhere : ∀ address ≠ source,
    written.get? address = if isInside directory address then none else made.get? address

theorem onlyOutput_of_writeOutput {programs : Host.Programs} {config : BuildConfig}
    {code path : String} {tree written : FileTree}
    (hwrite : (writeOutput (.ofTree programs) config code).run tree = (.ok path, written)) :
    ∃ directory source,
      OnlyOutput config (makeDirectories config.outDir tree).2 directory source written := by
  obtain ⟨made, cleared, hmade, hempty, hput⟩ := writeOutput_eq_ok hwrite
  obtain ⟨directory, hdirectory, rfl⟩ := emptyDirectory_eq_ok hempty
  obtain ⟨source, hsource, hfile⟩ := write_eq_ok hput
  rw [hmade]
  refine ⟨directory, source, hdirectory, hfile.working, ?_, hfile.present, ?_⟩
  · exact locate_of_directories hfile.working (fun _ => hfile.get?_of_directory) hsource
  · intro address haddress
    rw [hfile.elsewhere address haddress, get?_emptyAt]

namespace OnlyOutput

variable {config : BuildConfig} {made written : FileTree} {directory source target : Address}
  (hwritten : OnlyOutput config made directory source written)
include hwritten

theorem get?_eq_none_iff :
    written.get? target = none ↔
      target ≠ source ∧ (isInside directory target ∨ made.get? target = none) := by
  by_cases htarget : target = source
  · obtain ⟨node, hnode, _⟩ := hwritten.present
    subst htarget
    rw [hnode]
    exact ⟨nofun, fun h => absurd rfl h.1⟩
  · rw [hwritten.elsewhere target htarget]
    cases isInside directory target <;> simp [htarget]

theorem directory_of_directory {address : Address}
    (haddress : written.get? address = some .directory) :
    made.get? address = some .directory := by
  obtain ⟨node, hnode, hfile⟩ := hwritten.present
  have hne : address ≠ source := by
    rintro rfl
    rw [hnode] at haddress
    exact hfile (Option.some.inj haddress)
  rw [hwritten.elsewhere address hne] at haddress
  split at haddress
  · contradiction
  · exact haddress

/-- A name in the output directory is a name in the directory that was made. -/
theorem eq_of_locate {name : String} (hname : IsName name)
    (hlocate : written.locate (join config.outDir name) = .ok target) :
    target = directory ++ [name] := by
  obtain ⟨hleft, hwalk⟩ := walk_of_stat hwritten.output
  obtain ⟨above, habove, rfl⟩ := of_locate_join hleft hname hlocate
  rw [startOf, hwritten.working] at habove
  have hsame := walk_of_directories (fun _ => hwritten.directory_of_directory) habove
  rw [startOf, hsame] at hwalk
  rw [Except.ok.inj hwalk]

end OnlyOutput

theorem isInside_append_singleton (directory : Address) (name : String) :
    isInside directory (directory ++ [name]) = true := by
  rw [isInside, Bool.and_eq_true, List.isPrefixOf_iff_prefix, bne_iff_ne]
  exact ⟨List.prefix_append directory [name], fun h => by simpa using congrArg List.length h⟩

/-- Behind a successful write and a compiler that changed nothing, a build fails exactly if the
binary's path leads neither to the file that was written nor to what was there outside of the
output directory. A binary with a name of its own in the output directory is therefore missed. -/
theorem build_failed_iff_of_idle {programs : Host.Programs} {config : BuildConfig}
    {code path : String} {tree written : FileTree}
    (hwrite : (writeOutput (.ofTree programs) config code).run tree = (.ok path, written))
    (hidle : (programs config.compiler config.arguments written).2 = written) :
    let made := (makeDirectories config.outDir tree).2
    let fails := ∃ output, ((build (.ofTree programs) config).run written).1 =
      .failed config.compiler output
    ∃ directory source node,
      made.stat config.outDir = .ok (directory, .directory) ∧
      written.stat config.sourcePath = .ok (source, node) ∧
      (fails ↔ ∀ target, written.locate config.binaryPath = .ok target →
        target ≠ source ∧ (isInside directory target ∨ made.get? target = none)) ∧
      (IsName config.binaryName → source ≠ directory ++ [config.binaryName] → fails) ∧
      (IsName config.binaryName → IsName config.sourceName →
        (fails ↔ config.binaryName ≠ config.sourceName)) := by
  intro made fails
  obtain ⟨directory, source, hwritten⟩ := onlyOutput_of_writeOutput hwrite
  obtain ⟨node, hnode, _⟩ := hwritten.present
  have hfails : fails ↔ ∀ target, written.locate config.binaryPath = .ok target →
      target ≠ source ∧ (isInside directory target ∨ made.get? target = none) := by
    refine (build_failed_iff_not_has hidle).trans (has_eq_false_iff.trans ?_)
    exact forall_congr' fun target => imp_congr_right fun _ => hwritten.get?_eq_none_iff
  have hnamed : IsName config.binaryName → source ≠ directory ++ [config.binaryName] → fails := by
    intro hbinary hne
    refine hfails.2 fun target htarget => ?_
    obtain rfl := hwritten.eq_of_locate hbinary htarget
    exact ⟨hne.symm, .inl (isInside_append_singleton ..)⟩
  refine ⟨directory, source, node, hwritten.output, stat_eq_ok_iff.2 ⟨hwritten.located, hnode⟩,
    hfails, hnamed, fun hbinary hsource => ?_⟩
  have hplace := hwritten.eq_of_locate hsource hwritten.located
  constructor
  · intro hfail hsame
    have hlocated : written.locate config.binaryPath = .ok source := by
      rw [BuildConfig.binaryPath, hsame]
      exact hwritten.located
    exact (hfails.1 hfail source hlocated).1 rfl
  · intro hne
    refine hnamed hbinary fun hsource => hne ?_
    simpa using hsource.symm.trans hplace

theorem exists_eq_ok {ε σ α : Type} {result : Except ε α × σ} {value : α}
    (hvalue : result.1.toOption = some value) : ∃ after, result = (.ok value, after) := by
  obtain ⟨error | found, after⟩ := result
  · cases hvalue
  · exact ⟨after, congrArg (Except.ok ·, after) (Option.some.inj hvalue)⟩

/-- A compiler that is not there, and a binary that an earlier one left. -/
theorem build_failed_iff_of_idle_stale :
    let programs : Host.Programs := fun _ _ tree => (.error .notFound, tree)
    let config := BuildConfig.standard
    let tree := FileTree.scratch.install "out/main" (.file [127] true)
    tree.has config.binaryPath = true ∧
      ∃ written, (writeOutput (.ofTree programs) config "int main() {}\n").run tree =
          (.ok config.sourcePath, written) ∧
        (programs config.compiler config.arguments written).2 = written ∧
        IsName config.binaryName ∧ IsName config.sourceName ∧
        ∃ output, ((build (.ofTree programs) config).run written).1 =
          .failed config.compiler output := by
  intro programs config tree
  obtain ⟨written, hwrite⟩ : ∃ written, (writeOutput (.ofTree programs) config
      "int main() {}\n").run tree = (.ok config.sourcePath, written) :=
    exists_eq_ok (by decide +kernel)
  have hidle : (programs config.compiler config.arguments written).2 = written := rfl
  have hbinary : IsName config.binaryName := by constructor <;> decide +kernel
  have hsource : IsName config.sourceName := by constructor <;> decide +kernel
  obtain ⟨directory, source, node, _, _, _, _, hfails⟩ := build_failed_iff_of_idle hwrite hidle
  exact ⟨by decide +kernel, written, hwrite, hidle, hbinary, hsource,
    (hfails hbinary hsource).2 (by decide +kernel)⟩

/-- A binary of this name is reported as built in an empty directory, where no compiler is. -/
def BuiltByNone (name : String) : Prop :=
  let programs : Host.Programs := fun _ _ tree => (.error .notFound, tree)
  let config : BuildConfig := { BuildConfig.standard with binaryName := name }
  ∃ written, (writeOutput (.ofTree programs) config "").run .scratch =
      (.ok config.sourcePath, written) ∧
    (programs config.compiler config.arguments written).2 = written ∧
      (build (.ofTree programs) config).run written = (.built config.binaryPath, written)

theorem builtByNone {name : String}
    (hwritten :
      let config : BuildConfig := { BuildConfig.standard with binaryName := name }
      let result := (writeOutput (.ofTree fun _ _ tree => (.error .notFound, tree)) config "").run
        .scratch
      result.1.toOption = some config.sourcePath ∧ result.2.has config.binaryPath = true) :
    BuiltByNone name := by
  obtain ⟨hpath, hhas⟩ := hwritten
  obtain ⟨written, hwrite⟩ := exists_eq_ok hpath
  rw [hwrite] at hhas
  exact ⟨written, hwrite, rfl, build_of_has rfl hhas⟩

/-- The name of the file that was written, the output directory itself, the directory above it,
and a file that is always there. -/
theorem build_built_of_idle :
    BuiltByNone "main.cpp" ∧ BuiltByNone "" ∧ BuiltByNone "." ∧ BuiltByNone ".." ∧
      BuiltByNone "/dev/null" :=
  ⟨builtByNone (by decide +kernel), builtByNone (by decide +kernel),
    builtByNone (by decide +kernel), builtByNone (by decide +kernel),
    builtByNone (by decide +kernel)⟩

end Coroscript
