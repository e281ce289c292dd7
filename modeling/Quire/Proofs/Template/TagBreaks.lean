import Quire.Proofs.Template.Lines

/-!
Where a tag breaks off. What is wrong behind the name of a tag is said in the words of its grammar,
with all that stands before the place it is wrong at. Main statement: attributes are refused exactly
where they break off, with the cause of that, on the line of that place.
-/

namespace Quire.Template

open Text (StopsAt)

variable {t tag before : Text} {line start : Nat} {cause : Cause} {f : Fault} {place : Option Text}

/-- What stands at the place that is wrong: the fence, the import, the brace, the angle bracket of
the tag, or the quotes. A malformed attribute does not begin as one, or behind its equals sign there
is neither brace nor quotes. -/
def Cause.StandsAt (before after : Text) : Cause → Prop
  | .unterminatedHeader => after.wholeLines.head?.map Text.trim = some fence
  | .malformedImport line => after.wholeLines.head?.map Text.trim = some line
  | .duplicateImport name =>
      ∃ i, i.name = name ∧
        ∃ line, after.wholeLines.head?.map Text.trim = some line ∧ IsImport line i
  | .emptyExpression => ['{'] <+: after
  | .unterminatedBrace => ['{'] <+: after
  | .unknownComponent name => '<' :: name <+: after
  | .notSelfClosing name => '<' :: name <+: after
  | .unterminatedTag name => '<' :: name <+: after
  | .malformedAttribute _ => ¬ after.head?.any startsAttribute ∨
      ['='] <:+ before ∧ after.head? ≠ some '{' ∧ after.head? ≠ some '"'
  | .unterminatedAttribute _ => ['"'] <+: after

theorem Cause.StandsAt.append {after : Text} (h : cause.StandsAt before after) (front : Text) :
    cause.StandsAt (front ++ before) after := by
  cases cause with
  | malformedAttribute tag =>
      exact h.imp id fun ⟨hequals, hneither⟩ => ⟨hequals.trans (List.suffix_append _ _), hneither⟩
  | _ => exact h

theorem map_eq_error_iff {α β : Type} {x : Except Fault α} {g : α → β} :
    x.map g = .error f ↔ x = .error f := by
  cases x <;> simp [Except.map]

/-- What follows a brace that nothing closes. -/
def Unclosed (t : Text) : Prop := ∀ inner after, t = inner ++ '}' :: after → ¬ Balanced inner

theorem closing_eq_none_iff : closing .code 0 t = none ↔ Unclosed t := by
  rw [Option.eq_none_iff_forall_ne_some]
  constructor
  · intro h inner after ht hinner
    exact h (inner, after) (closing_eq_some_iff.2 ⟨ht, hinner⟩)
  · rintro h ⟨inner, after⟩ hclosing
    obtain ⟨ht, hinner⟩ := closing_eq_some_iff.1 hclosing
    exact h inner after ht hinner

/-- What is wrong with the value of an attribute, which is to follow the equals sign. -/
inductive ValueBreaks (tag : Text) : Text → Cause → Prop
  | braces {rest : Text} (hrest : Unclosed rest) : ValueBreaks tag ('{' :: rest) .unterminatedBrace
  | quotes {rest : Text} (hrest : '"' ∉ rest) :
      ValueBreaks tag ('"' :: rest) (.unterminatedAttribute tag)
  | neither {t : Text} (hbrace : t.head? ≠ some '{') (hquote : t.head? ≠ some '"') :
      ValueBreaks tag t (.malformedAttribute tag)

/-- What is wrong behind the name of a tag, and what stands there before the place that it is wrong
at. Where nothing is told of the place, it is the tag as a whole. -/
inductive TagBreaks (tag : Text) : Text → Option Text → Cause → Prop
  | unterminated {gap : Text} (hgap : ∀ c ∈ gap, Text.isBlank c) :
      TagBreaks tag gap none (.unterminatedTag tag)
  | notClosing {gap rest : Text} (hgap : ∀ c ∈ gap, Text.isBlank c) :
      TagBreaks tag (gap ++ '>' :: rest) none (.notSelfClosing tag)
  | malformed {gap rest : Text} {c : Char} (hgap : ∀ c ∈ gap, Text.isBlank c)
      (hblank : ¬ Text.isBlank c) (hclose : ¬ (c = '/' ∧ rest.head? = some '>')) (hend : c ≠ '>')
      (hstart : ¬ startsAttribute c) :
      TagBreaks tag (gap ++ c :: rest) (some gap) (.malformedAttribute tag)
  | value {gap name rest : Text} {cause : Cause} (hgap : ∀ c ∈ gap, Text.isBlank c)
      (hstart : name.head?.any startsAttribute) (hname : ∀ c ∈ name, isTagChar c)
      (hvalue : ValueBreaks tag rest cause) :
      TagBreaks tag (gap ++ (name ++ '=' :: rest)) (some (gap ++ (name ++ ['=']))) cause
  | slot {s : Slot} {rest : Text} {place : Option Text} {cause : Cause}
      (hgap : ∀ c ∈ s.gap, Text.isBlank c) (hstart : s.name.head?.any startsAttribute)
      (hname : IsName s.name (s.written.spelled ++ rest)) (hfits : s.written.Fits)
      (hbare : s.written = .bare → rest.head? ≠ some '=') (hrest : TagBreaks tag rest place cause) :
      TagBreaks tag (s.spelled ++ rest) (place.map (s.spelled ++ ·)) cause

theorem attributeValue_eq_error_iff :
    attributeValue tag line t = .error f ↔ ValueBreaks tag t f.cause ∧ f.line = line := by
  constructor
  · intro h
    unfold attributeValue at h
    split at h
    · split at h
      · next hnone =>
          obtain rfl := Except.error.inj h
          exact ⟨.braces (closing_eq_none_iff.1 hnone), rfl⟩
      · cases h
    · split at h
      · next hnone =>
          obtain rfl := Except.error.inj h
          exact ⟨.quotes (Text.cutFirst_singleton_eq_none_iff.1 hnone), rfl⟩
      · cases h
    · next hbrace hquote =>
        obtain rfl := Except.error.inj h
        refine ⟨.neither (fun hhead => ?_) fun hhead => ?_, rfl⟩
        · obtain ⟨rest, hrest⟩ := List.head?_eq_some_iff.1 hhead
          exact hbrace rest hrest
        · obtain ⟨rest, hrest⟩ := List.head?_eq_some_iff.1 hhead
          exact hquote rest hrest
  · obtain ⟨l, cause⟩ := f
    rintro ⟨hbreaks, rfl⟩
    cases hbreaks with
    | braces hrest => simp [attributeValue, closing_eq_none_iff.2 hrest]
    | quotes hrest =>
        simp [attributeValue, Text.cutFirst_singleton_eq_none_iff.2 hrest]
    | neither hbrace hquote =>
        unfold attributeValue
        split
        · exact absurd rfl hbrace
        · exact absurd rfl hquote
        · rfl

/-- An attribute is wrong where its value is. -/
theorem oneAttribute_eq_error_iff : oneAttribute tag line t = .error f ↔
    ∃ rest, t.dropWhile isTagChar = '=' :: rest ∧ ValueBreaks tag rest f.cause ∧ f.line = line := by
  unfold oneAttribute
  constructor
  · intro h
    split at h
    · next rest hrest =>
        exact ⟨rest, hrest, attributeValue_eq_error_iff.1 (map_eq_error_iff.1 h)⟩
    · cases h
  · rintro ⟨rest, hrest, hvalue⟩
    rw [hrest]
    exact map_eq_error_iff.2 (attributeValue_eq_error_iff.2 hvalue)

/-- The line of a place behind the name of a tag; `start` is the line of the tag itself. -/
def placeLine (start line : Nat) (place : Option Text) : Nat :=
  place.elim start fun before => line + lineEnds before

/-- Past an attribute, the places behind it are on the lines they were on. -/
theorem placeLine_slot {s : Slot} {a : Read Attribute} (start : Nat) (place : Option Text)
    (h : oneAttribute tag (line + lineEnds s.gap) (s.name ++ (s.written.spelled ++ a.rest)) =
      .ok a) :
    placeLine start a.line place = placeLine start line (place.map (s.spelled ++ ·)) := by
  have hline := line_oneAttribute h
  simp only [lineEnds_append] at hline
  cases place with
  | none => rfl
  | some before =>
      simp only [placeLine, Option.map_some, Option.elim_some, Slot.spelled, lineEnds_append]
      omega

theorem isBlank_of_mem_takeWhile (t : Text) : ∀ c ∈ t.takeWhile Text.isBlank, Text.isBlank c :=
  fun _ hc => List.mem_takeWhile_imp hc

theorem takeWhile_append_trimStart (t : Text) : t.takeWhile Text.isBlank ++ t.trimStart = t :=
  List.takeWhile_append_dropWhile

section

variable {c : Char} {rest : Text} (start : Nat) (ht : t.trimStart = c :: rest)
  (hc : startsAttribute c)

include ht hc

/-- A tag breaks off where its first attribute does. -/
theorem tagBreaks_of_oneAttribute
    (h : oneAttribute tag (line + lineEnds (t.takeWhile Text.isBlank)) (c :: rest) = .error f) :
    ∃ place, TagBreaks tag t place f.cause ∧ f.line = placeLine start line place := by
  obtain ⟨after, hafter, hvalue, hline⟩ := oneAttribute_eq_error_iff.1 h
  have hname : (c :: rest).takeWhile isTagChar = c :: rest.takeWhile isTagChar :=
    List.takeWhile_cons_of_pos (isTagChar_of_startsAttribute hc)
  have hchars : ∀ c' ∈ (c :: rest).takeWhile isTagChar, isTagChar c' := fun _ hc' =>
    List.mem_takeWhile_imp hc'
  have hstart : ((c :: rest).takeWhile isTagChar).head?.any startsAttribute := by
    simp [hname, hc]
  have hbreaks := TagBreaks.value (isBlank_of_mem_takeWhile t) hstart hchars hvalue
  rw [← hafter, List.takeWhile_append_dropWhile, ← ht, takeWhile_append_trimStart] at hbreaks
  refine ⟨_, hbreaks, ?_⟩
  rw [placeLine, Option.elim_some, lineEnds_append, lineEnds_append, ht, lineEnds_name hchars,
    hline]
  rfl

/-- A tag breaks off where it does behind its first attribute. -/
theorem tagBreaks_of_later {a : Read Attribute}
    (ha : oneAttribute tag (line + lineEnds (t.takeWhile Text.isBlank)) (c :: rest) = .ok a)
    (hplace : TagBreaks tag a.rest place cause) :
    ∃ place', TagBreaks tag t place' cause ∧
      placeLine start a.line place = placeLine start line place' := by
  obtain ⟨s, hgap, hstart, hname, hfits, hspelled, -, hbare⟩ := slot_of_oneAttribute ht hc ha
  have htrim : t.trimStart = s.name ++ (s.written.spelled ++ a.rest) := by
    rw [hspelled]
    exact Text.dropWhile_run hgap hname.stopsAt_isBlank
  have hblank : t.takeWhile Text.isBlank = s.gap := by
    rw [hspelled, Text.takeWhile_run hgap hname.stopsAt_isBlank]
  rw [hblank, ← ht, htrim] at ha
  have hbreaks := TagBreaks.slot hgap hstart hname hfits hbare hplace
  rw [Slot.spelled, List.append_assoc, List.append_assoc, ← hspelled] at hbreaks
  exact ⟨_, hbreaks, placeLine_slot start place ha⟩

end

theorem tagBreaks_of_attributes (h : attributes tag start line t = .error f) :
    ∃ place, TagBreaks tag t place f.cause ∧ f.line = placeLine start line place := by
  fun_induction attributes tag start line t with
  | case1 line t ht =>
      obtain rfl := Except.error.inj h
      have hbreaks : TagBreaks tag (t.takeWhile Text.isBlank) none (.unterminatedTag tag) :=
        .unterminated (isBlank_of_mem_takeWhile t)
      have hwhole := takeWhile_append_trimStart t
      rw [ht, List.append_nil] at hwhole
      rw [hwhole] at hbreaks
      exact ⟨none, hbreaks, rfl⟩
  | case2 => cases h
  | case3 line t =>
      rename_i rest ht _
      obtain rfl := Except.error.inj h
      have hbreaks : TagBreaks tag (t.takeWhile Text.isBlank ++ '>' :: rest) none
          (.notSelfClosing tag) := .notClosing (isBlank_of_mem_takeWhile t)
      rw [← ht, takeWhile_append_trimStart] at hbreaks
      exact ⟨none, hbreaks, rfl⟩
  | case4 line t =>
      rename_i c rest ht _ _ hc e ha
      obtain rfl := Except.error.inj h
      exact tagBreaks_of_oneAttribute start ht hc ha
  | case5 line t =>
      rename_i c rest ht _ _ hc a ha ih
      obtain ⟨place, hplace, hline⟩ := ih (map_eq_error_iff.1 h)
      obtain ⟨place', hplace', hlines⟩ := tagBreaks_of_later start ht hc ha hplace
      exact ⟨place', hplace', hline.trans hlines⟩
  | case6 line t =>
      rename_i c rest ht hclose hend hc
      obtain rfl := Except.error.inj h
      have hblank : ¬ Text.isBlank c := by
        have hstops := Text.stopsAt_dropWhile Text.isBlank t
        rw [show t.dropWhile Text.isBlank = c :: rest from ht, Text.stopsAt_cons] at hstops
        simp [hstops]
      have hbreaks : TagBreaks tag (t.takeWhile Text.isBlank ++ c :: rest)
          (some (t.takeWhile Text.isBlank)) (.malformedAttribute tag) :=
        .malformed (isBlank_of_mem_takeWhile t) hblank hclose hend hc
      rw [← ht, takeWhile_append_trimStart] at hbreaks
      exact ⟨_, hbreaks, rfl⟩

theorem attributes_of_tagBreaks (start line : Nat) (h : TagBreaks tag t place cause) :
    attributes tag start line t = .error ⟨placeLine start line place, cause⟩ := by
  induction h generalizing line with
  | @unterminated gap hgap =>
      have htrim : gap.trimStart = [] := List.dropWhile_eq_nil_iff.2 hgap
      unfold attributes
      split
      · rfl
      · next c rest hc => simp [htrim] at hc
  | @notClosing gap rest hgap =>
      have htrim : Text.trimStart (gap ++ '>' :: rest) = '>' :: rest :=
        Text.dropWhile_run hgap (Text.stopsAt_cons.2 (by decide))
      unfold attributes
      split
      · next hnil => simp [htrim] at hnil
      · next c behind hc =>
          obtain ⟨rfl, rfl⟩ := List.cons_eq_cons.1 (htrim.symm.trans hc)
          rfl
  | @malformed gap rest c hgap hblank hclose hend hstart =>
      have hstops : StopsAt Text.isBlank (c :: rest) := Text.stopsAt_cons.2 (by simpa using hblank)
      have htrim : Text.trimStart (gap ++ c :: rest) = c :: rest := Text.dropWhile_run hgap hstops
      unfold attributes
      split
      · next hnil => simp [htrim] at hnil
      · next d behind hd =>
          obtain ⟨rfl, rfl⟩ := List.cons_eq_cons.1 (htrim.symm.trans hd)
          rw [if_neg hclose, if_neg hend, dif_neg hstart, Text.takeWhile_run hgap hstops]
          rfl
  | @value gap name rest cause hgap hstart hname hvalue =>
      have hstops : StopsAt isTagChar ('=' :: rest) := Text.stopsAt_cons.2 (by decide)
      have hone : oneAttribute tag (line + lineEnds gap) (name ++ '=' :: rest) =
          .error ⟨line + lineEnds gap, cause⟩ :=
        oneAttribute_eq_error_iff.2 ⟨rest, Text.dropWhile_run hname hstops, hvalue, rfl⟩
      rw [attributes_of_name tag start line _ hgap hstart, hone, Except.bind, placeLine,
        Option.elim_some, lineEnds_append, lineEnds_append, lineEnds_name hname]
      rfl
  | @slot s rest place cause hgap hstart hname hfits hbare hrest ih =>
      obtain ⟨line', hone⟩ := oneAttribute_of_slot tag (line + lineEnds s.gap) hname hfits hbare
      rw [Slot.spelled, List.append_assoc, List.append_assoc,
        attributes_of_name tag start line _ hgap hstart, hone, Except.bind, ih line',
        placeLine_slot (a := ⟨s.toAttribute, line', rest⟩) start place hone]
      rfl

theorem attributes_eq_error_iff : attributes tag start line t = .error f ↔
    ∃ place, TagBreaks tag t place f.cause ∧ f.line = placeLine start line place := by
  refine ⟨tagBreaks_of_attributes, ?_⟩
  obtain ⟨l, cause⟩ := f
  rintro ⟨place, hbreaks, rfl⟩
  exact attributes_of_tagBreaks start line hbreaks

theorem placeLine_self (line : Nat) (name : Text) (hname : ∀ c ∈ name, isTagChar c)
    (place : Option Text) :
    placeLine line line place =
      line + lineEnds (place.elim [] fun before => '<' :: (name ++ before)) := by
  cases place with
  | none => rfl
  | some before =>
      simp only [placeLine, Option.elim_some, lineEnds_append, lineEnds_name hname,
        lineEnds_cons (show '<' ≠ '\n' by decide), Nat.zero_add]

theorem ValueBreaks.standsAt (h : ValueBreaks tag t cause) : cause.StandsAt ['='] t := by
  cases h with
  | braces => exact ⟨_, rfl⟩
  | quotes => exact ⟨_, rfl⟩
  | neither hbrace hquote => exact Or.inr ⟨List.suffix_refl _, hbrace, hquote⟩

/-- Behind the name of a tag the place that is wrong is found; where none is told, the cause is
about the tag. -/
theorem TagBreaks.standsAt (h : TagBreaks tag t place cause) :
    match place with
    | none => ∀ before after, '<' :: tag <+: after → cause.StandsAt before after
    | some before => ∃ after, t = before ++ after ∧ cause.StandsAt before after := by
  induction h with
  | unterminated => exact fun _ _ h => h
  | notClosing => exact fun _ _ h => h
  | malformed hgap hblank hclose hend hstart => exact ⟨_, rfl, Or.inl (by simpa using hstart)⟩
  | @value gap name rest cause hgap hstart hname hvalue =>
      refine ⟨rest, by simp, ?_⟩
      rw [← List.append_assoc]
      exact hvalue.standsAt.append (gap ++ name)
  | @slot s rest place cause hgap hstart hname hfits hbare hrest ih =>
      cases place with
      | none => exact ih
      | some before =>
          obtain ⟨after, rfl, hstands⟩ := ih
          exact ⟨after, by simp, hstands.append s.spelled⟩

end Quire.Template
