import Coroscript.Proofs.Cpp.Quotes
import Coroscript.Proofs.Token.Tiling
import Mathlib.Data.Prod.Lex
import Mathlib.Order.Bounds.Basic

namespace Coroscript

/-! A line and a column tell a place. Every text is cut behind its last newline into whole
lines and the part of a line that is not ended. -/

def endLines (lines : List (List Char)) : List Char :=
  lines.flatMap (· ++ ['\n'])

def firstLine (text : List Char) : List Char :=
  (splitLines text).head?.getD []

theorem exists_endLines (text : List Char) :
    ∃ lines part, text = endLines lines ++ part ∧ (∀ line ∈ lines, '\n' ∉ line) ∧
      '\n' ∉ part := by
  induction text with
  | nil => exact ⟨[], [], rfl, by simp, by simp⟩
  | cons c text ih =>
      obtain ⟨lines, part, rfl, hlines, hpart⟩ := ih
      by_cases hc : c = '\n'
      · exact ⟨[] :: lines, part, by simp [endLines, hc], by simpa using hlines, hpart⟩
      · have hne : '\n' ≠ c := Ne.symm hc
        cases lines with
        | nil => exact ⟨[], c :: part, rfl, by simp, by simp [hne, hpart]⟩
        | cons line lines =>
            rw [List.forall_mem_cons] at hlines
            refine ⟨(c :: line) :: lines, part, by simp [endLines], ?_, hpart⟩
            rw [List.forall_mem_cons]
            exact ⟨by simp [hne, hlines.1], hlines.2⟩

section Lines

variable {lines : List (List Char)} (hlines : ∀ line ∈ lines, '\n' ∉ line)
include hlines

theorem splitLines_endLines (rest : List Char) :
    splitLines (endLines lines ++ rest) = lines.map (· ++ ['\n']) ++ splitLines rest := by
  induction lines with
  | nil => rfl
  | cons line lines ih =>
      rw [List.forall_mem_cons] at hlines
      have htext : endLines (line :: lines) ++ rest = line ++ '\n' :: (endLines lines ++ rest) := by
        simp [endLines]
      rw [htext, Cpp.splitLines_append hlines.1, ih hlines.2]
      rfl

theorem count_endLines : (endLines lines).count '\n' = lines.length := by
  induction lines with
  | nil => rfl
  | cons line lines ih =>
      rw [List.forall_mem_cons] at hlines
      have hcount := ih hlines.2
      simp only [endLines, List.flatMap_cons, List.count_append] at hcount ⊢
      rw [hcount, List.count_eq_zero.2 hlines.1, List.count_singleton_self, List.length_cons]
      omega

theorem takeWhile_reverse_endLines :
    (endLines lines).reverse.takeWhile (· != '\n') = [] := by
  cases lines using List.reverseRecOn with
  | nil => rfl
  | append_singleton lines line => simp [endLines]

theorem Location.after_endLines {part : List Char} (hpart : '\n' ∉ part) :
    after (endLines lines ++ part) = ⟨lines.length + 1, part.length⟩ := by
  have hcolumn : (endLines lines ++ part).reverse.takeWhile (· != '\n') = part.reverse := by
    have hall : ∀ c ∈ part.reverse, (c != '\n') = true := by
      intro c hc
      rw [bne_iff_ne]
      rintro rfl
      exact hpart (List.mem_reverse.1 hc)
    rw [List.reverse_append, List.takeWhile_append_of_pos hall, takeWhile_reverse_endLines hlines,
      List.append_nil]
  rw [after, hcolumn, List.count_append, count_endLines hlines, List.count_eq_zero.2 hpart,
    List.length_reverse, Nat.add_zero]

theorem Location.lineText_endLines {part : List Char} (hpart : '\n' ∉ part) (rest : List Char) :
    (after (endLines lines ++ part)).lineText (endLines lines ++ rest) = firstLine rest := by
  rw [after_endLines hlines hpart, lineText, splitLines_endLines hlines, Nat.add_sub_cancel,
    List.getElem?_append_right (by simp), List.length_map, Nat.sub_self, firstLine,
    List.head?_eq_getElem?]

end Lines

theorem firstLine_cons {c : Char} (hc : c ≠ '\n') (rest : List Char) :
    firstLine (c :: rest) = c :: firstLine rest := by
  rw [firstLine, firstLine, splitLines, if_neg hc]
  cases splitLines rest with
  | nil => rfl
  | cons line lines => rfl

theorem firstLine_append {part : List Char} (hpart : '\n' ∉ part) (rest : List Char) :
    firstLine (part ++ rest) = part ++ firstLine rest := by
  induction part with
  | nil => rfl
  | cons c part ih =>
      rw [List.mem_cons, not_or] at hpart
      rw [List.cons_append, firstLine_cons (Ne.symm hpart.1), ih hpart.2, List.cons_append]

namespace Location

/-- The whole lines before a place, and the characters before it in its own line. -/
theorem text_before (before rest : List Char) :
    ((splitLines (before ++ rest)).take ((after before).line - 1)).flatten ++
        ((after before).lineText (before ++ rest)).take (after before).column = before ∧
      (after before).column ≤ ((after before).lineText (before ++ rest)).length ∧
      '\n' ∉ ((after before).lineText (before ++ rest)).take (after before).column := by
  obtain ⟨lines, part, rfl, hlines, hpart⟩ := exists_endLines before
  rw [List.append_assoc, lineText_endLines hlines hpart, after_endLines hlines hpart,
    firstLine_append hpart, splitLines_endLines hlines, Nat.add_sub_cancel, List.take_left,
    List.take_left' (List.length_map _), List.length_append]
  exact ⟨by rw [endLines, List.flatMap_def], Nat.le_add_right _ _, hpart⟩

/-- A place further on is in a later line, or further on in the same line. -/
theorem after_lt (before : List Char) {more : List Char} (hmore : more ≠ []) :
    toLex ((after before).line, (after before).column) <
      toLex ((after (before ++ more)).line, (after (before ++ more)).column) := by
  rw [Prod.Lex.toLex_lt_toLex]
  obtain ⟨lines, part, rfl, hlines, hpart⟩ := exists_endLines before
  by_cases hline : '\n' ∈ more
  · have hcount : 0 < more.count '\n' := List.count_pos_iff.2 hline
    left
    show (endLines lines ++ part).count '\n' + 1 < (endLines lines ++ part ++ more).count '\n' + 1
    have happend := @List.count_append _ _ '\n' (endLines lines ++ part) more
    omega
  · have hboth : '\n' ∉ part ++ more := List.not_mem_append hpart hline
    have hlength : 0 < more.length := List.length_pos_iff.2 hmore
    right
    rw [List.append_assoc, after_endLines hlines hpart, after_endLines hlines hboth,
      List.length_append]
    exact ⟨rfl, Nat.lt_add_of_pos_right hlength⟩

end Location

/-! Boundaries of characters. -/

theorem takeBytes_append (text rest : List Char) :
    takeBytes (byteLength text) (text ++ rest) = text := by
  have hall := takeBytes_append_dropBytes (byteLength text) (text ++ rest)
  rw [dropBytes_append] at hall
  exact List.append_cancel_right hall

theorem prefix_takeBytes {count : Nat} {left text : List Char} (hleft : left <+: text)
    (hcount : byteLength left ≤ count) : left <+: takeBytes count text := by
  induction text generalizing left count with
  | nil => exact hleft
  | cons c text ih =>
      cases left with
      | nil => exact List.nil_prefix
      | cons d left =>
          obtain ⟨rfl, htail⟩ := List.cons_prefix_cons.1 hleft
          rw [byteLength_cons] at hcount
          rw [takeBytes, if_pos (Nat.le_of_add_right_le hcount), List.cons_prefix_cons]
          exact ⟨rfl, ih htail (by omega)⟩

theorem byteLength_mono {left text : List Char} (hleft : left <+: text) :
    byteLength left ≤ byteLength text := by
  obtain ⟨rest, rfl⟩ := hleft
  rw [byteLength_append]
  exact Nat.le_add_right _ _

theorem isValid_iff_exists {source : String} {offset : Nat} :
    (⟨offset⟩ : String.Pos.Raw).IsValid source ↔
      ∃ before, before <+: source.toList ∧ byteLength before = offset := by
  rw [String.Pos.Raw.isValid_iff_exists_append]
  constructor
  · rintro ⟨left, right, rfl, hoffset⟩
    refine ⟨left.toList, ⟨right.toList, String.toList_append.symm⟩, ?_⟩
    rw [byteLength_ofList, String.ofList_toList]
    exact (congrArg String.Pos.Raw.byteIdx hoffset).symm
  · rintro ⟨before, ⟨rest, hsource⟩, rfl⟩
    refine ⟨.ofList before, .ofList rest, ?_, ?_⟩
    · rw [← String.ofList_append, hsource, String.ofList_toList]
    · rw [byteLength_ofList]
      rfl

theorem isGreatest_takeBytes (source : String) (offset : Nat) :
    IsGreatest {boundary : ℕ | (⟨boundary⟩ : String.Pos.Raw).IsValid source ∧
        boundary ≤ min offset source.utf8ByteSize}
      (byteLength (takeBytes offset source.toList)) := by
  have hprefix : takeBytes offset source.toList <+: source.toList :=
    ⟨_, takeBytes_append_dropBytes offset source.toList⟩
  have hsize : byteLength source.toList = source.utf8ByteSize := by
    rw [byteLength_ofList, String.ofList_toList]
  constructor
  · refine ⟨isValid_iff_exists.2 ⟨_, hprefix, rfl⟩, le_min (byteLength_takeBytes_le _ _) ?_⟩
    exact hsize ▸ byteLength_mono hprefix
  · rintro boundary ⟨hvalid, hbound⟩
    obtain ⟨left, hleft, rfl⟩ := isValid_iff_exists.1 hvalid
    exact byteLength_mono (prefix_takeBytes hleft (hbound.trans (min_le_left _ _)))

theorem exists_more {low high : Nat} {source : String} (hlt : low < high)
    (hlow : (⟨low⟩ : String.Pos.Raw).IsValid source)
    (hhigh : (⟨high⟩ : String.Pos.Raw).IsValid source) :
    ∃ more, more ≠ [] ∧
      takeBytes high source.toList = takeBytes low source.toList ++ more := by
  obtain ⟨before, ⟨after, hbefore⟩, rfl⟩ := isValid_iff_exists.1 hlow
  obtain ⟨longer, ⟨rest, hlonger⟩, rfl⟩ := isValid_iff_exists.1 hhigh
  have hleft := takeBytes_append before after
  have hright := takeBytes_append longer rest
  rw [hbefore] at hleft
  rw [hlonger] at hright
  obtain ⟨more, rfl⟩ : before <+: longer := by
    rw [← hright]
    exact prefix_takeBytes ⟨after, hbefore⟩ hlt.le
  refine ⟨more, ?_, by rw [hleft, hright]⟩
  rintro rfl
  rw [List.append_nil] at hlt
  exact Nat.lt_irrefl _ hlt

namespace Location

theorem strictMonoOn_ofOffset (source : String) :
    StrictMonoOn
      (fun offset => toLex ((ofOffset source.toList offset).line,
        (ofOffset source.toList offset).column))
      {boundary : ℕ | (⟨boundary⟩ : String.Pos.Raw).IsValid source} := by
  intro low hlow high hhigh hlt
  obtain ⟨more, hmore, hlonger⟩ := exists_more hlt hlow hhigh
  simp only [ofOffset, hlonger]
  exact after_lt _ hmore

/-- The bytes of the lines before a location, and of the characters before it in its line, are
those before the last boundary of a character that the offset reaches. So no two boundaries
have one location, and locations are ordered as boundaries are. -/
theorem ofOffset_determines_boundary (source : String) :
    (∀ offset : UInt32,
      let location := ofOffset source.toList offset.toNat
      let line := location.lineText source.toList
      IsGreatest {boundary : ℕ | (⟨boundary⟩ : String.Pos.Raw).IsValid source ∧
          boundary ≤ min offset.toNat source.utf8ByteSize}
        (byteLength ((splitLines source.toList).take (location.line - 1)).flatten +
          byteLength (line.take location.column)) ∧
        location.column ≤ line.length ∧ '\n' ∉ line.take location.column) ∧
    Set.InjOn (ofOffset source.toList)
      {boundary : ℕ | (⟨boundary⟩ : String.Pos.Raw).IsValid source} ∧
    StrictMonoOn
      (fun offset => toLex ((ofOffset source.toList offset).line,
        (ofOffset source.toList offset).column))
      {boundary : ℕ | (⟨boundary⟩ : String.Pos.Raw).IsValid source} := by
  refine ⟨?_, ?_, strictMonoOn_ofOffset source⟩
  · intro offset location line
    obtain ⟨hbefore, hcolumn, hline⟩ :=
      text_before (takeBytes offset.toNat source.toList) (dropBytes offset.toNat source.toList)
    rw [takeBytes_append_dropBytes] at hbefore hcolumn hline
    refine ⟨?_, hcolumn, hline⟩
    have hgreatest := isGreatest_takeBytes source offset.toNat
    rwa [← hbefore, byteLength_append] at hgreatest
  · intro low hlow high hhigh heq
    exact (strictMonoOn_ofOffset source).injOn hlow hhigh (by simp only [heq])

end Location

end Coroscript
