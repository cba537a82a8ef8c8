import Coroscript.Diagnostic
import Coroscript.Proofs.Source.Locations

namespace Coroscript

/-! Where the caret of a report stands. -/

theorem trimEnd_append {c : Char} (hc : isBlank c = false) (body rest : List Char) :
    trimEnd (body ++ c :: rest) = body ++ c :: trimEnd rest := by
  have hreverse : (body ++ c :: rest).reverse = rest.reverse ++ c :: body.reverse := by simp
  rw [trimEnd, hreverse, List.dropWhile_append]
  split
  · rename_i hrest
    rw [List.dropWhile_cons_of_neg (by simp [hc]), trimEnd, List.isEmpty_iff.1 hrest]
    simp
  · simp [trimEnd]

/-- A newline stands only at the end of a line, where it is trimmed. -/
theorem newline_not_mem_trimEnd (text : List Char) : '\n' ∉ trimEnd (firstLine text) := by
  obtain ⟨line, rest, hline, htext⟩ : ∃ line rest, '\n' ∉ line ∧
      (text = line ++ '\n' :: rest ∨ text = line) := by
    by_cases hmem : '\n' ∈ text
    · obtain ⟨line, rest, heq, hline⟩ := List.eq_append_cons_of_mem hmem
      exact ⟨line, rest, hline, .inl heq⟩
    · exact ⟨text, [], hmem, .inr rfl⟩
  have hsub : ∀ c ∈ trimEnd (firstLine text), c ∈ line := by
    intro c hc
    rcases htext with rfl | rfl
    · rw [firstLine_append hline, firstLine, splitLines, if_pos rfl, trimEnd, List.head?_cons,
        Option.getD_some, List.reverse_append, List.reverse_singleton, List.singleton_append,
        List.dropWhile_cons_of_pos (by decide), List.mem_reverse] at hc
      exact List.mem_reverse.1 ((List.dropWhile_sublist _).mem hc)
    · have happend := firstLine_append hline []
      rw [List.append_nil] at happend
      rw [happend, firstLine, splitLines, List.head?_nil, Option.getD_none, List.append_nil,
        trimEnd, List.mem_reverse] at hc
      exact List.mem_reverse.1 ((List.dropWhile_sublist _).mem hc)
  exact fun hmem => hline (hsub _ hmem)

theorem intercalate_append {separator : List Char} {lines more : List (List Char)}
    (hlines : lines ≠ []) (hmore : more ≠ []) :
    List.intercalate separator (lines ++ more) =
      List.intercalate separator lines ++ separator ++ List.intercalate separator more := by
  induction lines with
  | nil => contradiction
  | cons line lines ih =>
      cases lines with
      | nil =>
          obtain ⟨next, others, rfl⟩ := List.exists_cons_of_ne_nil hmore
          rw [List.singleton_append, List.intercalate_cons_cons, List.intercalate_singleton]
      | cons next lines =>
          have hrest := ih (List.cons_ne_nil next lines)
          rw [List.cons_append] at hrest
          rw [List.cons_append, List.cons_append, List.intercalate_cons_cons, hrest,
            List.intercalate_cons_cons]
          simp only [List.append_assoc]

namespace Error

theorem padLeft_singleton (fill c : Char) (width : Nat) :
    padLeft fill (width + 1) [c] = List.replicate width fill ++ [c] := by
  rw [padLeft, List.length_singleton, Nat.add_sub_cancel]

theorem isIndentation_of_not_blank {c : Char} (hc : isBlank c = false) :
    isIndentation c = false := by
  rw [isIndentation, Bool.or_eq_false_iff, beq_eq_false_iff_ne, beq_eq_false_iff_ne]
  constructor
  · rintro rfl
    exact absurd hc (by decide)
  · rintro rfl
    exact absurd hc (by decide)

/-- The indentation of a line ends before its first character that is not blank. -/
theorem indentation_append {c : Char} (hc : isBlank c = false) (part rest : List Char) :
    ∃ margin body, part = margin ++ body ∧
      (part ++ c :: rest).takeWhile isIndentation = margin ∧
      (part ++ c :: rest).dropWhile isIndentation = body ++ c :: rest := by
  have hstop := isIndentation_of_not_blank hc
  refine ⟨part.takeWhile isIndentation, part.dropWhile isIndentation,
    List.takeWhile_append_dropWhile.symm, ?_, ?_⟩
  · induction part with
    | nil => simp [hstop]
    | cons d part ih => cases hd : isIndentation d <;> simp [hd, ih]
  · induction part with
    | nil => simp [hstop]
    | cons d part ih => cases hd : isIndentation d <;> simp [hd, ih]

theorem digit_of_mem_toString {n : Nat} {c : Char} (hc : c ∈ (toString n).toList) :
    c.isDigit = true := by
  rw [Nat.toString_eq_ofList_toDigits, String.toList_ofList] at hc
  exact Nat.isDigit_of_mem_toDigits (by decide) (by decide) hc

theorem reportLines_eq (error : Error) (source : List Char) (file : String) :
    ∃ first, first ≠ [] ∧ error.reportLines source file = first ++
      [(toString (error.location source).line).toList ++ [' ', '|', ' '] ++
          trimEnd (((error.location source).lineText source).dropWhile isIndentation),
        padLeft ' ' ((toString (error.location source).line).toList.length + 2) ['|'] ++ ' ' ::
          padLeft '-' ((error.location source).column -
            (((error.location source).lineText source).takeWhile isIndentation).length + 1)
            ['^']] := by
  unfold reportLines
  cases error.cause.tip? with
  | none => exact ⟨[_, _, _], List.cons_ne_nil _ _, rfl⟩
  | some tip => exact ⟨[_, _, _, _], List.cons_ne_nil _ _, rfl⟩

/-- The caret is under `c`, and bar under bar, whatever the number of the line is. -/
theorem caret_aligned {number : List Char} (hnumber : '|' ∉ number) (body rest : List Char)
    (c : Char) :
    (number ++ ' ' :: '|' :: ' ' :: (body ++ c :: rest))[(List.replicate (number.length + 1) ' ' ++
        '|' :: ' ' :: (List.replicate body.length '-' ++ ['^'])).length - 1]? = some c ∧
      (number ++ ' ' :: '|' :: ' ' :: (body ++ c :: rest)).idxOf '|' =
        (List.replicate (number.length + 1) ' ' ++
          '|' :: ' ' :: (List.replicate body.length '-' ++ ['^'])).idxOf '|' := by
  constructor
  · have hindex : (List.replicate (number.length + 1) ' ' ++
        '|' :: ' ' :: (List.replicate body.length '-' ++ ['^'])).length - 1 =
          (number ++ ' ' :: '|' :: ' ' :: body).length := by
      simp
      omega
    have hline : number ++ ' ' :: '|' :: ' ' :: (body ++ c :: rest) =
        (number ++ ' ' :: '|' :: ' ' :: body) ++ c :: rest := by
      simp
    rw [hindex, hline, List.getElem?_append_right (Nat.le_refl _), Nat.sub_self,
      List.getElem?_cons_zero]
  · have hspaces : '|' ∉ List.replicate (number.length + 1) ' ' := by simp
    rw [List.idxOf_append_of_notMem hnumber, List.idxOf_append_of_notMem hspaces,
      List.length_replicate]
    rfl

section Place

variable {error : Error} {source : String} {before after : List Char} {c : Char}
  (hsource : source.toList = before ++ c :: after)
  (hoffset : error.position.offset.toNat = byteLength before) (hc : isBlank c = false)
include hsource hoffset

theorem line_location : (error.location source.toList).line = before.count '\n' + 1 := by
  rw [location, Location.ofOffset, hoffset, hsource, takeBytes_append]
  rfl

include hc

/-- The line of an error at `c`: what is cut off it, what stands before `c` and what behind. -/
theorem exists_shown :
    ∃ margin body rest,
      (error.location source.toList).column = margin.length + body.length ∧
        ((error.location source.toList).lineText source.toList).takeWhile isIndentation = margin ∧
        trimEnd (((error.location source.toList).lineText source.toList).dropWhile isIndentation) =
          body ++ c :: rest ∧ '\n' ∉ body ++ c :: rest := by
  have hnewline : c ≠ '\n' := by
    rintro rfl
    exact absurd hc (by decide)
  obtain ⟨lines, part, rfl, hlines, hpart⟩ := exists_endLines before
  obtain ⟨margin, body, rfl, hmargin, hshown⟩ := indentation_append hc part (firstLine after)
  have hlocation : error.location source.toList = .after (endLines lines ++ (margin ++ body)) := by
    rw [location, Location.ofOffset, hoffset, hsource, takeBytes_append]
  have hline : (error.location source.toList).lineText source.toList =
      margin ++ body ++ c :: firstLine after := by
    rw [hlocation, hsource, List.append_assoc, Location.lineText_endLines hlines hpart,
      firstLine_append hpart, firstLine_cons hnewline]
  refine ⟨margin, body, trimEnd (firstLine after), ?_, ?_, ?_, ?_⟩
  · rw [hlocation, Location.after_endLines hlines hpart, List.length_append]
  · rw [hline, hmargin]
  · rw [hline, hshown, trimEnd_append hc]
  · rw [List.mem_append, List.mem_cons]
    rintro (hbody | rfl | hrest)
    · exact hpart (List.mem_append_right _ hbody)
    · contradiction
    · exact newline_not_mem_trimEnd after hrest

/-- Where an error is at a character that is not blank, the last line of its report is a caret
behind dashes, a bar and spaces. The line above it begins with the number of the line of that
character, has its bar over that bar, and the character over the caret. -/
theorem report_caret_below (file : String) :
    ∃ (text above last shown : List Char) (width dashes : Nat),
      (error.report source file).toList = text ++ '\n' :: (above ++ '\n' :: last) ∧
        '\n' ∉ above ∧ '\n' ∉ last ∧
        last = List.replicate width ' ' ++ '|' :: ' ' :: (List.replicate dashes '-' ++ ['^']) ∧
        above[last.length - 1]? = some c ∧
        above = (toString (before.count '\n' + 1)).toList ++ ' ' :: '|' :: ' ' :: shown ∧
        above.idxOf '|' = last.idxOf '|' := by
  obtain ⟨first, hfirst, hlines⟩ := reportLines_eq error source.toList file
  obtain ⟨margin, body, rest, hcolumn, hmargin, hshown, hnewline⟩ :=
    exists_shown hsource hoffset hc
  rw [hmargin, hcolumn, Nat.add_sub_cancel_left, hshown, line_location hsource hoffset,
    padLeft_singleton, padLeft_singleton] at hlines
  have hdigits : ∀ d, d.isDigit = false → d ∉ (toString (before.count '\n' + 1)).toList := by
    intro d hd hmem
    rw [digit_of_mem_toString hmem] at hd
    contradiction
  obtain ⟨hcaret, hbar⟩ := caret_aligned (hdigits '|' (by decide)) body rest c
  refine ⟨List.intercalate ['\n'] first, _, _, body ++ c :: rest,
    (toString (before.count '\n' + 1)).toList.length + 1, body.length, ?_, ?_, ?_, rfl, hcaret, rfl,
    hbar⟩
  · rw [report, String.toList_ofList, hlines, intercalate_append hfirst (List.cons_ne_nil _ _),
      List.intercalate_cons_cons, List.intercalate_singleton]
    simp
  · rw [List.mem_append, not_or]
    exact ⟨hdigits '\n' (by decide), by simpa using hnewline⟩
  · simp

end Place

/-- In the second line, behind a tab and a character of two bytes, before a carriage return. -/
theorem report_caret_below_tab :
    "a\n\té#\r\n".toList = ['a', '\n', '\t', 'é'] ++ '#' :: ['\r', '\n'] ∧
      ∃ (text above last shown : List Char) (width dashes : Nat),
        ((⟨.unrecognisedToken "#", ⟨5, "f"⟩⟩ : Error).report "a\n\té#\r\n" "f").toList =
            text ++ '\n' :: (above ++ '\n' :: last) ∧
          '\n' ∉ above ∧ '\n' ∉ last ∧
          last = List.replicate width ' ' ++ '|' :: ' ' :: (List.replicate dashes '-' ++ ['^']) ∧
          above[last.length - 1]? = some '#' ∧
          above = (toString (['a', '\n', '\t', 'é'].count '\n' + 1)).toList ++
            ' ' :: '|' :: ' ' :: shown ∧
          above.idxOf '|' = last.idxOf '|' :=
  have hsource : "a\n\té#\r\n".toList = ['a', '\n', '\t', 'é'] ++ '#' :: ['\r', '\n'] := by simp
  ⟨hsource, report_caret_below hsource (by decide) (by decide) "f"⟩

end Error

end Coroscript
