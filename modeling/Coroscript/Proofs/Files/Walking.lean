import Coroscript.Files.Tree

namespace Coroscript

/-! Where paths lead, and what stands there after a change. -/

namespace Path

/-- A character that is no slash goes into the first name. -/
theorem splitSlashes_cases (text : List Char) :
    ∃ name names, splitSlashes text = name :: names ∧
      ∀ c ≠ '/', splitSlashes (c :: text) = (c :: name) :: names := by
  induction text with
  | nil =>
      refine ⟨[], [], rfl, fun c hc => ?_⟩
      rw [splitSlashes, if_neg hc]
      rfl
  | cons d text ih =>
      obtain ⟨name, names, _, hnext⟩ := ih
      by_cases hd : d = '/'
      · subst hd
        refine ⟨[], splitSlashes text, rfl, fun c hc => ?_⟩
        rw [splitSlashes, if_neg hc]
        rfl
      · refine ⟨d :: name, names, hnext d hd, fun c hc => ?_⟩
        rw [splitSlashes, if_neg hc, hnext d hd]

theorem splitSlashes_append (left right : List Char) :
    splitSlashes (left ++ '/' :: right) = splitSlashes left ++ splitSlashes right := by
  induction left with
  | nil => rfl
  | cons c left ih =>
      by_cases hc : c = '/'
      · subst hc
        exact congrArg ([] :: ·) ih
      · obtain ⟨name, names, hleft, hcons⟩ := splitSlashes_cases left
        obtain ⟨name', names', hall, hcons'⟩ := splitSlashes_cases (left ++ '/' :: right)
        rw [hall, hleft] at ih
        obtain ⟨rfl, rfl⟩ := List.cons.inj ih
        rw [List.cons_append, hcons c hc, hcons' c hc]
        rfl

theorem splitSlashes_of_not_mem {text : List Char} (htext : '/' ∉ text) :
    splitSlashes text = [text] := by
  induction text with
  | nil => rfl
  | cons c rest ih =>
      rw [List.mem_cons, not_or] at htext
      obtain ⟨name, names, hrest, hcons⟩ := splitSlashes_cases rest
      rw [ih htext.2] at hrest
      obtain ⟨rfl, rfl⟩ := List.cons.inj hrest
      exact hcons c (Ne.symm htext.1)

/-- A name that a file in a directory can have. -/
structure IsName (name : String) : Prop where
  nonempty : name.toList ≠ []
  slashless : '/' ∉ name.toList
  not_here : name ≠ "."
  not_above : name ≠ ".."

namespace IsName

variable {name : String} (hname : IsName name)
include hname

theorem isAbsolute : Path.isAbsolute name = false := by
  rw [Path.isAbsolute, decide_eq_false_iff_not]
  intro hhead
  exact hname.slashless (List.mem_of_head? hhead)

theorem names : Path.names name = [name] := by
  rw [Path.names, splitSlashes_of_not_mem hname.slashless]
  simp [hname.nonempty]

end IsName

variable {left right : String}

/-- A path into a directory: all of the path to the directory, and then the rest. -/
theorem toList_join (hleft : left.toList ≠ []) (hright : isAbsolute right = false) :
    ∃ between, (between = [] ∧ left.toList.getLast? = some '/' ∨ between = ['/']) ∧
      (join left right).toList = left.toList ++ between ++ right.toList := by
  have hempty : left.isEmpty = false := by
    simpa using hleft
  rw [join, hright, hempty, Bool.or_self, if_neg Bool.false_ne_true]
  split
  · rename_i hlast
    exact ⟨[], .inl ⟨rfl, hlast⟩, by simp⟩
  · exact ⟨['/'], .inr rfl, by simp⟩

theorem names_join (hleft : left.toList ≠ []) (hright : isAbsolute right = false) :
    names (join left right) = names left ++ names right := by
  obtain ⟨between, hbetween, htext⟩ := toList_join hleft hright
  rw [names, htext, names, names, ← List.map_append, ← List.filter_append]
  rcases hbetween with ⟨rfl, hlast⟩ | rfl
  · -- The slash at the end of the directory makes an empty name.
    obtain ⟨front, hfront⟩ := List.getLast?_eq_some_iff.1 hlast
    rw [hfront, List.append_nil, List.append_assoc, List.singleton_append, splitSlashes_append,
      splitSlashes_append]
    simp [splitSlashes]
  · rw [List.append_assoc, List.singleton_append, splitSlashes_append]

theorem isAbsolute_join (hleft : left.toList ≠ []) (hright : isAbsolute right = false) :
    isAbsolute (join left right) = isAbsolute left := by
  obtain ⟨between, _, htext⟩ := toList_join hleft hright
  have hhead : (join left right).toList.head? = left.toList.head? := by
    rw [htext, List.append_assoc, List.head?_append]
    cases hlist : left.toList with
    | nil => exact absurd hlist hleft
    | cons c rest => rfl
  rw [isAbsolute, isAbsolute, hhead]

end Path

namespace FileTree

open Coroscript.Path

variable {tree other : FileTree} {address target start : Address}

/-! Changes. -/

theorem lookup_filter (keep : Address → Bool) (entries : List (Address × Node))
    (address : Address) :
    (entries.filter fun entry => keep entry.1).lookup address =
      if keep address then entries.lookup address else none := by
  induction entries with
  | nil => simp
  | cons entry entries ih =>
      obtain ⟨place, node⟩ := entry
      rw [List.filter_cons, List.lookup_cons]
      by_cases hplace : address = place
      · subst hplace
        by_cases hkeep : keep address = true
        · simp [hkeep]
        · simp [hkeep, ih]
      · rw [beq_false_of_ne hplace]
        split
        · rw [List.lookup_cons, beq_false_of_ne hplace, ih]
        · exact ih

theorem get?_emptyAt (tree : FileTree) (directory address : Address) :
    (tree.emptyAt directory).get? address =
      if isInside directory address then none else tree.get? address := by
  rw [get?, get?, emptyAt]
  by_cases hroot : address = []
  · have houtside : isInside directory address = false := by
      subst hroot
      cases directory <;> rfl
    rw [if_pos hroot, if_pos hroot, houtside, if_neg Bool.false_ne_true]
  · rw [if_neg hroot, if_neg hroot]
    rw [lookup_filter fun place => !isInside directory place]
    cases isInside directory address <;> rfl

theorem get?_set_of_ne {node : Node} (hne : target ≠ address) :
    (tree.set address node).get? target = tree.get? target := by
  rw [get?, get?, set, erase]
  split
  · rfl
  · rw [List.lookup_append, lookup_filter fun place => place != address]
    have hkeep : (target != address) = true := bne_iff_ne.2 hne
    simp [hkeep, List.lookup_cons, beq_false_of_ne hne]

theorem get?_set_self {node : Node} (hroot : address ≠ []) :
    (tree.set address node).get? address = some node := by
  rw [get?, set, erase, if_neg hroot, List.lookup_append,
    lookup_filter fun place => place != address]
  simp

/-! Ways. -/

/-- Where a name leads from a directory. -/
def Enters (start : Address) (name : String) (next : Address) : Prop :=
  if name = "." then next = start
  else if name = ".." then next = start.dropLast
  else name.utf8ByteSize ≤ maxNameBytes ∧ next = start ++ [name]

/-- One step of a way, and then the others. -/
theorem walk_cons_eq_ok_iff {name : String} {names : List String} :
    tree.walk start (name :: names) = .ok target ↔
      tree.get? start = some .directory ∧
        ∃ next, Enters start name next ∧ tree.walk next names = .ok target := by
  rw [walk]
  by_cases hstart : tree.get? start = some .directory
  · simp only [hstart, true_and]
    unfold Enters
    by_cases hhere : name = "."
    · simp only [if_pos hhere, exists_eq_left]
    · by_cases habove : name = ".."
      · simp only [if_neg hhere, if_pos habove, exists_eq_left]
      · by_cases hlong : maxNameBytes < name.utf8ByteSize
        · simp only [if_neg hhere, if_neg habove, if_pos hlong, Nat.not_le.2 hlong, false_and,
            exists_false, reduceCtorEq]
        · simp only [if_neg hhere, if_neg habove, if_neg hlong, Nat.not_lt.1 hlong, true_and,
            exists_eq_left]
  · -- Nothing, or a file, is at the start.
    refine iff_of_false ?_ fun hwalk => hstart hwalk.1
    split
    · nofun
    · exact absurd ‹_› hstart
    · nofun

theorem walk_append_eq_ok_iff {names more : List String} :
    tree.walk start (names ++ more) = .ok target ↔
      ∃ middle, tree.walk start names = .ok middle ∧ tree.walk middle more = .ok target := by
  induction names generalizing start with
  | nil =>
      refine ⟨fun hwalk => ⟨start, rfl, hwalk⟩, ?_⟩
      rintro ⟨middle, hmiddle, hwalk⟩
      cases hmiddle
      exact hwalk
  | cons name names ih =>
      simp only [List.cons_append, walk_cons_eq_ok_iff, ih]
      constructor
      · rintro ⟨hstart, next, hnext, middle, hmiddle, hwalk⟩
        exact ⟨middle, ⟨hstart, next, hnext, hmiddle⟩, hwalk⟩
      · rintro ⟨middle, ⟨hstart, next, hnext, hmiddle⟩, hwalk⟩
        exact ⟨hstart, next, hnext, middle, hmiddle, hwalk⟩

/-- A way through directories that are there in another tree too. -/
theorem walk_of_directories {names : List String}
    (hdirectories : ∀ address, tree.get? address = some .directory →
      other.get? address = some .directory)
    (hwalk : tree.walk start names = .ok target) : other.walk start names = .ok target := by
  induction names generalizing start with
  | nil => exact hwalk
  | cons name names ih =>
      obtain ⟨hstart, next, hnext, hrest⟩ := walk_cons_eq_ok_iff.1 hwalk
      exact walk_cons_eq_ok_iff.2 ⟨hdirectories start hstart, next, hnext, ih hrest⟩

/-- A step down by a name. -/
theorem walk_name {name : String} (hname : Path.IsName name)
    (hwalk : tree.walk start [name] = .ok target) : target = start ++ [name] := by
  obtain ⟨_, next, hnext, hend⟩ := walk_cons_eq_ok_iff.1 hwalk
  rw [Enters, if_neg hname.not_here, if_neg hname.not_above] at hnext
  exact (Except.ok.inj hend).symm.trans hnext.2

theorem walk_here (hwalk : tree.walk start ["."] = .ok target) : target = start := by
  obtain ⟨_, next, hnext, hend⟩ := walk_cons_eq_ok_iff.1 hwalk
  rw [Enters, if_pos rfl] at hnext
  exact (Except.ok.inj hend).symm.trans hnext

/-! What a path means. -/

/-- The address that the first name of a path is looked up in. -/
def startOf (tree : FileTree) (path : String) : Address :=
  if isAbsolute path then [] else tree.working

theorem stat_eq_ok_iff {path : String} {node : Node} :
    tree.stat path = .ok (target, node) ↔
      tree.locate path = .ok target ∧ tree.get? target = some node := by
  rw [stat]
  cases tree.locate path with
  | error error => exact ⟨fun h => by contradiction, fun h => by cases h.1⟩
  | ok address =>
      dsimp only [bind, Except.bind]
      constructor
      · intro hstat
        split at hstat
        · rename_i hnode
          cases hstat
          exact ⟨rfl, hnode⟩
        · contradiction
      · rintro ⟨haddress, hnode⟩
        cases haddress
        rw [hnode]
        rfl

theorem has_eq_false_iff {path : String} :
    tree.has path = false ↔ ∀ target, tree.locate path = .ok target → tree.get? target = none := by
  rw [has]
  cases hstat : tree.stat path with
  | ok result =>
      obtain ⟨hlocate, hnode⟩ := stat_eq_ok_iff.1 hstat
      refine ⟨nofun, fun hnone => ?_⟩
      rw [hnone _ hlocate] at hnode
      cases hnode
  | error error =>
      refine ⟨fun _ target hlocate => ?_, fun _ => rfl⟩
      cases hnode : tree.get? target with
      | none => rfl
      | some node =>
          rw [stat_eq_ok_iff.2 ⟨hlocate, hnode⟩] at hstat
          cases hstat

/-- The step that a slash at the end of a path asks for. -/
def lastStep (path : String) : List String :=
  if path.toList.getLast? = some '/' then ["."] else []

theorem locate_eq_ok_iff {path : String} :
    tree.locate path = .ok target ↔
      (¬ path.toList.contains '\x00' ∧ ¬ path.isEmpty) ∧
        tree.walk (tree.startOf path) (names path ++ lastStep path) = .ok target := by
  rw [locate]
  by_cases hpath : ¬ path.toList.contains '\x00' ∧ ¬ path.isEmpty
  · rw [if_neg hpath.1, if_neg hpath.2]
    exact ⟨fun hwalk => ⟨hpath, hwalk⟩, fun hwalk => hwalk.2⟩
  · refine iff_of_false (fun hlocate => hpath ?_) fun hwalk => hpath hwalk.1
    split at hlocate
    · cases hlocate
    · rename_i hnul
      split at hlocate
      · cases hlocate
      · rename_i hempty
        exact ⟨hnul, hempty⟩

theorem locate_of_directories {path : String} (hworking : other.working = tree.working)
    (hdirectories : ∀ address, tree.get? address = some .directory →
      other.get? address = some .directory)
    (hlocate : tree.locate path = .ok target) : other.locate path = .ok target := by
  obtain ⟨hpath, hwalk⟩ := locate_eq_ok_iff.1 hlocate
  refine locate_eq_ok_iff.2 ⟨hpath, ?_⟩
  rw [startOf, hworking]
  exact walk_of_directories hdirectories hwalk

/-- The way to a directory. -/
theorem walk_of_stat {path : String} {node : Node} (hstat : tree.stat path = .ok (target, node)) :
    path.toList ≠ [] ∧ tree.walk (tree.startOf path) (names path) = .ok target := by
  obtain ⟨⟨_, hnonempty⟩, hwalk⟩ := locate_eq_ok_iff.1 (stat_eq_ok_iff.1 hstat).1
  obtain ⟨middle, hmiddle, hlast⟩ := walk_append_eq_ok_iff.1 hwalk
  refine ⟨by simpa using hnonempty, ?_⟩
  rw [lastStep] at hlast
  split at hlast
  · rw [walk_here hlast, hmiddle]
  · rw [hmiddle]
    exact hlast

/-- The way to a name in a directory. -/
theorem of_locate_join {left name : String} (hleft : left.toList ≠ []) (hname : IsName name)
    (hlocate : tree.locate (join left name) = .ok target) :
    ∃ directory, tree.walk (tree.startOf left) (names left) = .ok directory ∧
      target = directory ++ [name] := by
  obtain ⟨_, hwalk⟩ := locate_eq_ok_iff.1 hlocate
  have hlast : lastStep (join left name) = [] := by
    obtain ⟨between, _, htext⟩ := toList_join hleft hname.isAbsolute
    rw [lastStep, htext, List.getLast?_append, Option.or_of_isSome (by simp [hname.nonempty])]
    exact if_neg fun hslash => hname.slashless (List.mem_of_getLast? hslash)
  rw [hlast, List.append_nil, names_join hleft hname.isAbsolute, hname.names, startOf,
    isAbsolute_join hleft hname.isAbsolute, walk_append_eq_ok_iff] at hwalk
  obtain ⟨directory, hdirectory, hstep⟩ := hwalk
  exact ⟨directory, hdirectory, walk_name hname hstep⟩

/-- What a successful write at `address` leaves: a file there, and all else as it was. -/
structure OnlyFile (tree : FileTree) (address : Address) (other : FileTree) : Prop where
  not_directory : tree.get? address ≠ some .directory
  working : other.working = tree.working
  present : ∃ node, other.get? address = some node ∧ node ≠ .directory
  elsewhere : ∀ target ≠ address, other.get? target = tree.get? target

theorem OnlyFile.get?_of_directory (hfile : OnlyFile tree address other)
    (htarget : tree.get? target = some .directory) : other.get? target = some .directory := by
  rw [hfile.elsewhere target, htarget]
  rintro rfl
  exact hfile.not_directory htarget

theorem onlyFile_set {contents : List UInt8} {executable : Bool}
    (hold : tree.get? address ≠ some .directory) :
    OnlyFile tree address (tree.set address (.file contents executable)) := by
  -- The root is a directory, so it is not what is written.
  have hroot : address ≠ [] := by
    rintro rfl
    exact hold rfl
  exact ⟨hold, rfl, ⟨_, get?_set_self hroot, nofun⟩, fun _ => get?_set_of_ne⟩

theorem write_eq_ok {path : String} {contents : List UInt8}
    (hwrite : write path contents tree = (.ok (), other)) :
    ∃ address, tree.locate path = .ok address ∧ OnlyFile tree address other := by
  rw [write] at hwrite
  split at hwrite
  · cases hwrite
  · rename_i address haddress
    split at hwrite
    · cases hwrite
    · rename_i htrim
      have hpath : path = trimSlashes path := by
        simpa only [bne_iff_ne, Decidable.not_not, ne_eq] using htrim
      rw [← hpath] at haddress
      refine ⟨address, haddress, ?_⟩
      split at hwrite
      · rename_i hnode
        cases hwrite
        exact onlyFile_set (by rw [hnode]; nofun)
      · rename_i hnode
        cases hwrite
        exact onlyFile_set (by rw [hnode]; nofun)
      · -- A sink stays what it is.
        rename_i hnode
        cases hwrite
        exact ⟨by rw [hnode]; nofun, rfl, ⟨_, hnode, nofun⟩, fun _ _ => rfl⟩
      · cases hwrite

theorem emptyDirectory_eq_ok {path : String}
    (hempty : emptyDirectory path tree = (.ok (), other)) :
    ∃ directory, tree.stat path = .ok (directory, .directory) ∧ other = tree.emptyAt directory := by
  rw [emptyDirectory] at hempty
  split at hempty
  · cases hempty
  · rename_i directory hstat
    cases hempty
    exact ⟨directory, hstat, rfl⟩
  · cases hempty

end FileTree

end Coroscript
