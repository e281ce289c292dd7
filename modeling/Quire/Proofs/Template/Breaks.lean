import Quire.Proofs.Template.BodyBreaks

/-!
Where a template breaks off: in its header, or in the body behind it. Main statement: a template is
refused exactly where it breaks off, on the line of that place, and there stands what the cause is
about.
-/

namespace Quire.Template

variable {imports seen : List Import} {before : Text} {line opening : Nat} {cause : Cause}
  {f : Fault}

/-- What is wrong with a line of a header behind lines that say the given imports. -/
inductive LineOffends (seen : List Import) (l : Text) : Cause → Prop
  | malformed (hfence : l.trim ≠ fence) (hblank : l.trim ≠ []) (hmeans : ∀ i, ¬ IsImport l.trim i) :
      LineOffends seen l (.malformedImport l.trim)
  | duplicate {i : Import} (hl : IsImport l.trim i) (hi : i.name ∈ seen.map (·.name)) :
      LineOffends seen l (.duplicateImport i.name)

/-- Lines whose header breaks off, and the lines before the one that is wrong. A header that nothing
closes is wrong at the fence that opens it. -/
inductive HeaderBreaks : List Text → List Text → Cause → Prop
  | unterminated {above lines : List Text} {opening : Text} {imports : List Import}
      (habove : ∀ l ∈ above, l.trim = []) (hopening : opening.trim = fence)
      (hlines : AreImports lines imports) (hdistinct : (imports.map (·.name)).Nodup) :
      HeaderBreaks (above ++ opening :: lines) above .unterminatedHeader
  | line {above front rest : List Text} {opening l : Text} {imports : List Import} {cause : Cause}
      (habove : ∀ l ∈ above, l.trim = []) (hopening : opening.trim = fence)
      (hfront : AreImports front imports) (hdistinct : (imports.map (·.name)).Nodup)
      (hl : LineOffends imports l cause) :
      HeaderBreaks (above ++ opening :: (front ++ l :: rest)) (above ++ opening :: front) cause

theorem importLines_of_lineOffends {l : Text} (opening line : Nat) (rest : List Text)
    (h : LineOffends seen l cause) :
    importLines opening line seen (l :: rest) = .error ⟨line, cause⟩ := by
  cases h with
  | malformed hfence hblank hmeans =>
      have hnone : Import.ofLine? l.trim = none :=
        Option.eq_none_iff_forall_ne_some.2 fun i hi => hmeans i (ofLine?_eq_some_iff.1 hi)
      rw [importLines, if_neg hfence, if_neg hblank]
      simp only [hnone]
  | @duplicate i hl hi =>
      have hany : seen.any (·.name = i.name) := by simpa using hi
      rw [importLines, if_neg hl.ne_fence, if_neg hl.ne_nil]
      simp only [ofLine?_eq_some_iff.2 hl, if_pos hany]

/-- Lines after a fence are refused at their end, or at a line that is wrong behind imports. -/
theorem offends_of_importLines {lines : List Text} (hseen : (seen.map (·.name)).Nodup)
    (h : importLines opening line seen lines = .error f) :
    ∃ front rest imports, lines = front ++ rest ∧ AreImports front imports ∧
      ((seen ++ imports).map (·.name)).Nodup ∧
      ((rest = [] ∧ f = ⟨opening, .unterminatedHeader⟩) ∨
        ∃ l more, rest = l :: more ∧ LineOffends (seen ++ imports) l f.cause ∧
          f.line = line + front.length) := by
  fun_induction importLines opening line seen lines with
  | case1 line seen =>
      obtain rfl := Except.error.inj h
      exact ⟨[], [], [], rfl, .nil, by simpa using hseen, Or.inl ⟨rfl, rfl⟩⟩
  | case2 => cases h
  | case3 line seen l rest t _ hblank ih =>
      obtain ⟨front, rest, imports, rfl, hmeans, hnodup, hend⟩ := ih hseen h
      refine ⟨l :: front, rest, imports, rfl, .blank hblank hmeans, hnodup, ?_⟩
      rw [List.length_cons, ← Nat.add_assoc, Nat.add_right_comm]
      exact hend
  | case4 line seen l rest t hfence hblank hnone =>
      obtain rfl := Except.error.inj h
      refine ⟨[], l :: rest, [], rfl, .nil, by simpa using hseen, Or.inr ⟨l, rest, rfl, ?_, rfl⟩⟩
      refine .malformed hfence hblank fun i hi => ?_
      rw [ofLine?_eq_some_iff.2 hi] at hnone
      cases hnone
  | case5 line seen l rest t _ _ i hi hany =>
      obtain rfl := Except.error.inj h
      refine ⟨[], l :: rest, [], rfl, .nil, by simpa using hseen, Or.inr ⟨l, rest, rfl, ?_, rfl⟩⟩
      exact .duplicate (ofLine?_eq_some_iff.1 hi) (by simpa using hany)
  | case6 line seen l rest t _ _ i hi hfresh ih =>
      obtain ⟨front, rest, imports, rfl, hmeans, hnodup, hend⟩ := ih (nodup_concat hseen hfresh) h
      rw [List.append_assoc, List.singleton_append] at hnodup hend
      refine ⟨l :: front, rest, i :: imports, rfl, .line (ofLine?_eq_some_iff.1 hi) hmeans,
        hnodup, ?_⟩
      rw [List.length_cons, ← Nat.add_assoc, Nat.add_right_comm]
      exact hend

theorem splitHeader_eq_error_iff {source : Text} : splitHeader source = .error f ↔
    ∃ before, HeaderBreaks source.wholeLines before f.cause ∧ f.line = 1 + before.length := by
  obtain ⟨l, cause⟩ := f
  unfold splitHeader
  constructor
  · intro h
    by_cases hopens : OpensHeader source.wholeLines
    · obtain ⟨above, opening, lines, hlines, habove, hopening⟩ := hopens
      rw [hlines, openHeader?_of_opens habove hopening, Option.getD_some] at h
      rw [hlines]
      obtain ⟨front, rest, imports, rfl, hfront, hnodup, ⟨rfl, hf⟩ | ⟨l, more, rfl, hl, hline⟩⟩ :=
        offends_of_importLines (by simp) h
      · obtain ⟨rfl, rfl⟩ := Fault.mk.inj hf
        rw [List.append_nil]
        exact ⟨above, .unterminated habove hopening hfront hnodup, rfl⟩
      · refine ⟨_, .line habove hopening hfront hnodup hl, hline.trans ?_⟩
        rw [List.length_append, List.length_cons]
        omega
    · rw [openHeader?_eq_none hopens, Option.getD_none] at h
      cases h
  · rintro ⟨before, hbreaks, rfl⟩
    dsimp only at hbreaks
    generalize source.wholeLines = lines at hbreaks
    cases hbreaks with
    | @unterminated _ lines opening imports habove hopening hlines hdistinct =>
        have hread := importLines_append (1 + before.length) (1 + before.length + 1) [] []
          hlines (by simpa using hdistinct)
        rw [List.append_nil] at hread
        rw [openHeader?_of_opens habove hopening, Option.getD_some, hread]
        rfl
    | @line above front rest opening l imports _ habove hopening hfront hdistinct hl =>
        rw [openHeader?_of_opens habove hopening, Option.getD_some,
          importLines_append _ _ [] _ hfront (by simpa using hdistinct), List.nil_append,
          importLines_of_lineOffends _ _ rest hl, List.length_append, List.length_cons]
        congr 2
        omega

/-- A template that breaks off for a cause, and all that stands before the place that is wrong. -/
inductive Breaks (source : Text) : Text → Cause → Prop
  | header {before : List Text} {cause : Cause}
      (hbreaks : HeaderBreaks source.wholeLines before cause) : Breaks source before.flatten cause
  | plain {before : Text} {cause : Cause} (hplain : ¬ OpensHeader source.wholeLines)
      (hbody : BodyBreaks [] source before cause) : Breaks source before cause
  | headed {h : Header} {lines : List Text} {imports : List Import} {before : Text} {cause : Cause}
      (hlines : source.wholeLines = h.all ++ lines) (hfits : h.Fits imports)
      (hbody : BodyBreaks imports lines.flatten before cause) :
      Breaks source (h.all.flatten ++ before) cause

theorem head?_of_wholeLines {source l : Text} {above rest : List Text}
    (h : source.wholeLines = above ++ l :: rest) :
    Text.wholeLines (l :: rest).flatten = l :: rest ∧ lineEnds above.flatten = above.length ∧
      source = above.flatten ++ (l :: rest).flatten := by
  obtain ⟨hrest, habove⟩ := Text.wholeLines_of_append h (by simp)
  exact ⟨hrest, habove, by rw [← List.flatten_append, ← h, Text.flatten_wholeLines]⟩

theorem HeaderBreaks.standsAt {source : Text} {above : List Text}
    (h : HeaderBreaks source.wholeLines above cause) :
    lineEnds above.flatten = above.length ∧
      ∃ after, source = above.flatten ++ after ∧ cause.StandsAt above.flatten after := by
  generalize hlines : source.wholeLines = lines at h
  cases h with
  | @unterminated _ lines opening imports habove hopening hmeans hdistinct =>
      obtain ⟨hrest, hcount, hsource⟩ := head?_of_wholeLines hlines
      refine ⟨hcount, _, hsource, ?_⟩
      rw [Cause.StandsAt, hrest, List.head?_cons, Option.map_some, hopening]
  | @line above front rest opening l imports _ habove hopening hfront hdistinct hl =>
      rw [← List.cons_append, ← List.append_assoc] at hlines
      obtain ⟨hrest, hcount, hsource⟩ := head?_of_wholeLines hlines
      refine ⟨hcount, _, hsource, ?_⟩
      cases hl with
      | malformed =>
          rw [Cause.StandsAt, hrest]
          rfl
      | @duplicate i hmeans hi => exact ⟨i, rfl, l.trim, by rw [hrest]; rfl, hmeans⟩

theorem Breaks.standsAt {source : Text} (h : Breaks source before cause) :
    ∃ after, source = before ++ after ∧ cause.StandsAt before after := by
  cases h with
  | header hbreaks => exact hbreaks.standsAt.2
  | plain hplain hbody => exact hbody.standsAt
  | @headed h lines imports before _ hlines hfits hbody =>
      obtain ⟨after, hafter, hstands⟩ := hbody.standsAt
      refine ⟨after, ?_, hstands.append _⟩
      rw [List.append_assoc, ← hafter, ← List.flatten_append, ← hlines, Text.flatten_wholeLines]

theorem read_eq_error_iff {source : Text} : read source = .error f ↔
    splitHeader source = .error f ∨
      ∃ parts, splitHeader source = .ok parts ∧
        pieces parts.imports parts.bodyLine parts.body = .error f := by
  unfold read
  cases splitHeader source with
  | error e => simp [bind, Except.bind]
  | ok parts =>
      simp only [bind, Except.bind, reduceCtorEq, false_or, Except.ok.injEq, exists_eq_left']
      cases pieces parts.imports parts.bodyLine parts.body <;> simp [pure, Except.pure]

/-- All lines of a header end, if anything follows them. -/
theorem lineEnds_header {source : Text} {h : Header} {lines : List Text}
    (hlines : source.wholeLines = h.all ++ lines)
    (hbody : BodyBreaks imports lines.flatten before cause) :
    lineEnds h.all.flatten = h.all.length := by
  refine (Text.wholeLines_of_append hlines ?_).2
  rintro rfl
  generalize ht : List.flatten ([] : List Text) = t at hbody
  obtain ⟨-, hrest⟩ := hbody
  cases hrest <;> simp at ht

theorem read_eq_error_iff_breaks {source : Text} : read source = .error f ↔
    ∃ before, Breaks source before f.cause ∧ f.line = 1 + lineEnds before := by
  rw [read_eq_error_iff, splitHeader_eq_error_iff]
  constructor
  · rintro (⟨above, hbreaks, hline⟩ | ⟨parts, hsplit, hpieces⟩)
    · exact ⟨_, .header hbreaks, by rw [hline, hbreaks.standsAt.1]⟩
    · rcases splitHeader_eq_ok_iff.1 hsplit with
        ⟨h, lines, hlines, hfits, hbody, hbodyLine⟩ | ⟨hplain, rfl⟩
      · obtain ⟨before, hbreaks, hline⟩ := (pieces_eq_error_iff hfits.between.capital).1 hpieces
        rw [hbody] at hbreaks
        refine ⟨_, .headed hlines hfits hbreaks, ?_⟩
        rw [hline, hbodyLine, lineEnds_append, lineEnds_header hlines hbreaks]
        omega
      · obtain ⟨before, hbreaks, hline⟩ := (pieces_eq_error_iff (by simp [Capital])).1 hpieces
        exact ⟨before, .plain hplain hbreaks, hline⟩
  · rintro ⟨before, hbreaks, hline⟩
    cases hbreaks with
    | @header above _ hbreaks => exact Or.inl ⟨above, hbreaks, by rw [hline, hbreaks.standsAt.1]⟩
    | plain hplain hbody =>
        exact Or.inr ⟨_, splitHeader_eq_ok_iff.2 (Or.inr ⟨hplain, rfl⟩),
          (pieces_eq_error_iff (by simp [Capital])).2 ⟨before, hbody, hline⟩⟩
    | @headed h lines imports before _ hlines hfits hbody =>
        refine Or.inr ⟨⟨imports, lines.flatten, h.all.length + 1⟩,
          splitHeader_eq_ok_iff.2 (Or.inl ⟨h, lines, hlines, hfits, rfl, rfl⟩),
          (pieces_eq_error_iff hfits.between.capital).2 ⟨before, hbody, ?_⟩⟩
        rw [hline, lineEnds_append, lineEnds_header hlines hbody, ← Nat.add_assoc, Nat.add_comm 1]

/-- A template is refused exactly where it breaks off, on the line of that place: one more than the
line ends before it. There stands what the cause is about, so the line is one of the template. -/
theorem compile_eq_error_iff (ext : Extensions) (moduleId source : Text) (f : Fault) :
    (compile ext moduleId source = .error f ↔
      ∃ before, Breaks source before f.cause ∧ f.line = 1 + lineEnds before) ∧
    (∀ before cause, Breaks source before cause →
      ∃ after, source = before ++ after ∧ cause.StandsAt before after) ∧
    (compile ext moduleId source = .error f → 1 ≤ f.line ∧ f.line ≤ lineEnds source + 1) := by
  have hrefused : compile ext moduleId source = .error f ↔
      ∃ before, Breaks source before f.cause ∧ f.line = 1 + lineEnds before := by
    rw [compile, map_eq_error_iff, read_eq_error_iff_breaks]
  refine ⟨hrefused, fun before cause hbreaks => hbreaks.standsAt, fun h => ?_⟩
  obtain ⟨before, hbreaks, hline⟩ := hrefused.1 h
  obtain ⟨after, rfl, -⟩ := hbreaks.standsAt
  have hle := lineEnds_le_of_isPrefix (List.prefix_append before after)
  omega

theorem compile_eq_error_iff_value :
    let source := "\r\n---\r\nimport A from \"./a.pw\"\r\n---\r\n<A\r\n x=y />".toList
    (∃ before after, source = before ++ after ∧ 6 = 1 + lineEnds before ∧
      (Cause.malformedAttribute "A".toList).StandsAt before after) ∧ 6 ≤ lineEnds source + 1 := by
  intro source
  have hread : read source = .error ⟨6, .malformedAttribute "A".toList⟩ := by decide +kernel
  obtain ⟨hrefused, hstands, hline⟩ := compile_eq_error_iff ⟨"pw".toList, "js".toList⟩ "page".toList
    source ⟨6, .malformedAttribute "A".toList⟩
  have hcompile : compile ⟨"pw".toList, "js".toList⟩ "page".toList source =
      .error ⟨6, .malformedAttribute "A".toList⟩ := map_eq_error_iff.2 hread
  obtain ⟨before, hbreaks, hsix⟩ := hrefused.1 hcompile
  obtain ⟨after, hsource, hafter⟩ := hstands before _ hbreaks
  exact ⟨⟨before, after, hsource, hsix, hafter⟩, (hline hcompile).2⟩

end Quire.Template
