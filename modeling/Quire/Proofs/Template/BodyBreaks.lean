import Quire.Proofs.Template.TagBreaks

/-!
Where a body breaks off: at a brace that nothing closes or that holds only blanks, or at a tag that
is unknown or breaks off itself. Main statement: a body is refused exactly where it breaks off
behind a front that can be derived.
-/

namespace Quire.Template

open Text (StopsAt)

variable {imports : List Import} {t gap before : Text} {line : Nat} {cause : Cause} {f : Fault}

/-- What a body that breaks off goes on with, and what stands there before the place that is wrong.
-/
inductive Offends (imports : List Import) : Text → Text → Cause → Prop
  | unclosed {rest : Text} (hrest : Unclosed rest) :
      Offends imports ('{' :: rest) [] .unterminatedBrace
  | empty {inner rest : Text} (hinner : Balanced inner) (hblank : inner.trim = []) :
      Offends imports ('{' :: (inner ++ '}' :: rest)) [] .emptyExpression
  | unknown {name behind : Text} (hfirst : name.head?.any Char.isUpper) (hname : IsName name behind)
      (himport : name ∉ imports.map (·.name)) :
      Offends imports ('<' :: (name ++ behind)) [] (.unknownComponent name)
  | tag {name behind : Text} {place : Option Text} {cause : Cause} (hname : IsName name behind)
      (himport : name ∈ imports.map (·.name)) (hbreaks : TagBreaks name behind place cause) :
      Offends imports ('<' :: (name ++ behind))
        (place.elim [] fun before => '<' :: (name ++ before)) cause

/-- Where a body breaks off, and what stands before that place: a front that can be derived, and a
part of what is wrong. -/
inductive BodyBreaks (imports : List Import) : Text → Text → Cause → Prop
  | mk {front rest within : Text} {items : List Item} {cause : Cause}
      (hfront : Body startsAttribute imports front items)
      (hrest : Offends imports rest within cause) :
      BodyBreaks imports (front ++ rest) (front ++ within) cause

theorem component_eq_error_iff {name behind : Text} (hname : IsName name behind) :
    component imports line (name ++ behind) = .error f ↔
      (name ∉ imports.map (·.name) ∧ f = ⟨line, .unknownComponent name⟩) ∨
      name ∈ imports.map (·.name) ∧ ∃ place, TagBreaks name behind place f.cause ∧
        f.line = placeLine line line place := by
  simp only [component, Text.takeWhile_run hname.chars hname.stops,
    Text.dropWhile_run hname.chars hname.stops, ← attributes_eq_error_iff]
  by_cases himport : name ∈ imports.map (·.name)
  · have hany : imports.any (·.name = name) := by simpa using himport
    rw [if_pos hany, map_eq_error_iff]
    simp [himport]
  · have hany : ¬ imports.any (·.name = name) := by simpa using himport
    rw [if_neg hany, Except.error.injEq]
    simp [himport, eq_comm]

theorem isName_append_iff {name a b : Text} (ha : a ≠ []) :
    IsName name (a ++ b) ↔ IsName name a := by
  have hstops : StopsAt isTagChar (a ++ b) ↔ StopsAt isTagChar a := by
    rw [StopsAt, StopsAt, List.head?_append_of_ne_nil a ha]
  exact ⟨fun h => ⟨h.nonempty, h.chars, hstops.1 h.stops⟩,
    fun h => ⟨h.nonempty, h.chars, hstops.2 h.stops⟩⟩

theorem Slots.ne_nil {starts : Char → Bool} {after : Text} {slots : List Slot}
    (h : Slots starts gap after t slots) : t ≠ [] := by
  cases h with
  | close => simp
  | slot _ _ hname => simp [hname.nonempty]

/-- What follows a tag goes on as it likes. -/
theorem Slots.append {starts : Char → Bool} {after : Text} {slots : List Slot}
    (h : Slots starts gap after t slots) (more : Text) :
    Slots starts gap (after ++ more) (t ++ more) slots := by
  induction h with
  | close hgap =>
      have hclose : Slots starts gap (after ++ more) (gap ++ '/' :: '>' :: (after ++ more)) [] :=
        .close hgap
      simpa using hclose
  | @slot s rest slots hgap hstart hname hfits hrest ih =>
      have hne : s.written.spelled ++ rest ≠ [] := by simp [hrest.ne_nil]
      have hname' : IsName s.name (s.written.spelled ++ (rest ++ more)) := by
        rw [← List.append_assoc]
        exact (isName_append_iff hne).2 hname
      simpa using Slots.slot hgap hstart hname' hfits ih

/-- What is far behind a tag can be left out. -/
theorem Slots.exists_of_append {starts : Char → Bool} {after more : Text} {slots : List Slot}
    (h : Slots starts gap (after ++ more) t slots) :
    ∃ t', t = t' ++ more ∧ Slots starts gap after t' slots := by
  generalize hall : after ++ more = all at h
  induction h with
  | close hgap => exact ⟨_, by simp [← hall], .close hgap⟩
  | @slot s rest slots hgap hstart hname hfits hrest ih =>
      obtain ⟨t', rfl, hslots⟩ := ih
      have hne : s.written.spelled ++ t' ≠ [] := by simp [hslots.ne_nil]
      rw [← List.append_assoc] at hname
      exact ⟨_, by simp, .slot hgap hstart ((isName_append_iff hne).1 hname) hfits hslots⟩

theorem ofBraces?_eq_none_iff {inner : Text} : Piece.ofBraces? inner = none ↔ inner.trim = [] := by
  constructor
  · intro h
    by_contra hne
    obtain ⟨p, hp⟩ := exists_ofBraces? hne
    rw [h] at hp
    cases hp
  · intro h
    refine Option.eq_none_iff_forall_ne_some.2 fun p hp => ?_
    exact (covers_of_ofBraces? hp).2.2 h

/-- A body that begins with what is wrong is refused there. -/
theorem pieces_of_offends {within : Text} (line : Nat) (hcapital : Capital imports)
    (h : Offends imports t within cause) :
    pieces imports line t = .error ⟨line + lineEnds within, cause⟩ := by
  cases h with
  | @unclosed rest hrest =>
      rw [pieces, if_pos rfl]
      split
      · rfl
      · next hsome => simp [closing_eq_none_iff.2 hrest] at hsome
  | @empty inner rest hinner hblank =>
      simp only [pieces_braces imports line rest hinner, ofBraces?_eq_none_iff.2 hblank]
      rfl
  | @unknown name behind hfirst hname himport =>
      have hhead : (name ++ behind).head?.any Char.isUpper := by
        rw [List.head?_append_of_ne_nil name hname.nonempty, hfirst]
      rw [pieces_tag imports line hhead,
        (component_eq_error_iff hname).2 (Or.inl ⟨himport, rfl⟩), Except.bind]
      rfl
  | @tag name behind place _ hname himport hbreaks =>
      have hcomponent : component imports line (name ++ behind) =
          .error ⟨placeLine line line place, cause⟩ :=
        (component_eq_error_iff hname).2 (Or.inr ⟨himport, place, hbreaks, rfl⟩)
      rw [pieces_tag imports line (hcapital.head? himport), hcomponent, Except.bind,
        placeLine_self line name hname.chars]

/-- What a body breaks off with does not begin with a letter. -/
theorem Offends.head?_isUpper {within : Text} (h : Offends imports t within cause) :
    ¬ t.head?.any Char.isUpper := by
  cases h <;> simp

/-- A body is refused where it breaks off. -/
theorem pieces_of_bodyBreaks (line : Nat) (hcapital : Capital imports)
    (h : BodyBreaks imports t before cause) :
    pieces imports line t = .error ⟨line + lineEnds before, cause⟩ := by
  obtain ⟨hfront, hrest⟩ := h
  rename_i front rest within items
  induction hfront generalizing line with
  | nil => exact pieces_of_offends line hcapital hrest
  | @char c front items hbrace htag hfront ih =>
      have htag' : ¬ (c = '<' ∧ (front ++ rest).head?.any Char.isUpper) := by
        rintro ⟨hc, hupper⟩
        cases front with
        | nil => exact hrest.head?_isUpper hupper
        | cons d front => exact htag ⟨hc, hupper⟩
      rw [List.cons_append, pieces_char line hbrace htag', ih, List.cons_append]
      by_cases hc : c = '\n'
      · rw [if_pos hc, hc, lineEnds_cons_self, ← Nat.add_assoc]
        rfl
      · simp only [if_neg hc, lineEnds_cons hc, Except.map]
  | @braces inner front items hinner hblank hfront ih =>
      obtain ⟨p, hp⟩ := exists_ofBraces? hblank
      rw [List.cons_append, List.append_assoc, List.cons_append]
      simp only [pieces_braces imports line (front ++ rest) hinner, hp, ih, Except.map]
      simp only [List.cons_append, List.append_assoc, lineEnds_append,
        lineEnds_cons (show '{' ≠ '\n' by decide), lineEnds_cons (show '}' ≠ '\n' by decide),
        Nat.add_assoc]
  | @tag name behind gap front slots items himport hname hslots hfront ih =>
      have hslots' := hslots.append rest
      have hname' : IsName name (behind ++ rest) := (isName_append_iff hslots.ne_nil).2 hname
      obtain ⟨p, line', hcomponent⟩ := component_of_slots line himport hname' hslots'
      have hline := line_component hcomponent
      rw [List.cons_append, List.append_assoc, pieces_tag imports line (hcapital.head? himport),
        hcomponent, Except.bind, ih]
      simp only [lineEnds_append, List.cons_append, lineEnds_cons (show '<' ≠ '\n' by decide),
        Except.map, Except.error.injEq, Fault.mk.injEq, and_true] at hline ⊢
      omega

/-- A tag that is refused is one that is unknown or that breaks off. -/
theorem exists_offends_of_component {rest : Text} (hfirst : rest.head?.any Char.isUpper)
    (h : component imports line rest = .error f) :
    ∃ within, Offends imports ('<' :: rest) within f.cause := by
  have hsplit : rest.takeWhile isTagChar ++ rest.dropWhile isTagChar = rest :=
    List.takeWhile_append_dropWhile
  have hname := isName_of_first hfirst
  rw [← hsplit, component_eq_error_iff hname] at h
  rcases h with ⟨himport, rfl⟩ | ⟨himport, place, hplace, -⟩
  · have hhead : (rest.takeWhile isTagChar).head?.any Char.isUpper := by
      rwa [← List.head?_append_of_ne_nil _ hname.nonempty, hsplit]
    have hunknown := Offends.unknown hhead hname himport
    rw [hsplit] at hunknown
    exact ⟨_, hunknown⟩
  · have htag := Offends.tag hname himport hplace
    rw [hsplit] at htag
    exact ⟨_, htag⟩

/-- A tag that is read stands before where the rest of a body breaks off. -/
theorem bodyBreaks_of_component {rest : Text} {p : Read Piece}
    (hfirst : rest.head?.any Char.isUpper) (hp : component imports line rest = .ok p)
    (h : BodyBreaks imports p.rest before cause) :
    ∃ before, BodyBreaks imports ('<' :: rest) before cause := by
  obtain ⟨slots, gap, himport, hslots, -⟩ := slots_of_component hp
  have hname := isName_of_first hfirst
  have hsplit : rest.takeWhile isTagChar ++ rest.dropWhile isTagChar = rest :=
    List.takeWhile_append_dropWhile
  generalize p.rest = after at hslots h
  obtain ⟨hfront, hrest⟩ := h
  obtain ⟨behind, hbehind, hslots⟩ := hslots.exists_of_append
  rw [hbehind, isName_append_iff hslots.ne_nil] at hname
  have hbreaks := BodyBreaks.mk (.tag himport hname hslots hfront) hrest
  rw [List.cons_append, List.append_assoc, ← hbehind, hsplit] at hbreaks
  exact ⟨_, hbreaks⟩

theorem bodyBreaks_of_pieces (h : pieces imports line t = .error f) :
    ∃ before, BodyBreaks imports t before f.cause := by
  fun_induction pieces imports line t with
  | case1 => cases h
  | case2 line rest hclosing =>
      obtain rfl := Except.error.inj h
      exact ⟨_, .mk .nil (.unclosed (closing_eq_none_iff.1 hclosing))⟩
  | case3 line rest inner after hclosing hp =>
      obtain rfl := Except.error.inj h
      obtain ⟨rfl, hinner⟩ := closing_eq_some_iff.1 hclosing
      exact ⟨_, .mk .nil (.empty hinner (ofBraces?_eq_none_iff.1 hp))⟩
  | case4 line rest inner after hclosing p hp ih =>
      obtain ⟨before, ⟨hfront, hrest⟩⟩ := ih (map_eq_error_iff.1 h)
      obtain ⟨-, -, hblank⟩ := covers_of_ofBraces? hp
      obtain ⟨rfl, hinner⟩ := closing_eq_some_iff.1 hclosing
      have hbreaks := BodyBreaks.mk (.braces hinner hblank hfront) hrest
      rw [List.cons_append, List.append_assoc, List.cons_append] at hbreaks
      exact ⟨_, hbreaks⟩
  | case5 line c rest hbrace htag e he =>
      obtain rfl := Except.error.inj h
      obtain ⟨rfl, hfirst⟩ := htag
      obtain ⟨within, hoffends⟩ := exists_offends_of_component hfirst he
      exact ⟨_, .mk .nil hoffends⟩
  | case6 line c rest hbrace htag p hp ih =>
      obtain ⟨before, hbreaks⟩ := ih (map_eq_error_iff.1 h)
      obtain ⟨rfl, hfirst⟩ := htag
      exact bodyBreaks_of_component hfirst hp hbreaks
  | case7 line c rest hbrace htag ih =>
      obtain ⟨before, ⟨hfront, hrest⟩⟩ := ih (map_eq_error_iff.1 h)
      rename_i front rest within items
      have htag' : ¬ (c = '<' ∧ front.head?.any Char.isUpper) := by
        rintro ⟨hc, hupper⟩
        cases front with
        | nil => cases hupper
        | cons d front => exact htag ⟨hc, hupper⟩
      exact ⟨_, .mk (.char hbrace htag' hfront) hrest⟩

theorem pieces_eq_error_iff (hcapital : Capital imports) : pieces imports line t = .error f ↔
    ∃ before, BodyBreaks imports t before f.cause ∧ f.line = line + lineEnds before := by
  constructor
  · intro h
    obtain ⟨before, hbreaks⟩ := bodyBreaks_of_pieces h
    rw [pieces_of_bodyBreaks line hcapital hbreaks, Except.error.injEq] at h
    exact ⟨before, hbreaks, by rw [← h]⟩
  · obtain ⟨l, cause⟩ := f
    rintro ⟨before, hbreaks, rfl⟩
    exact pieces_of_bodyBreaks line hcapital hbreaks

theorem Offends.standsAt {within : Text} (h : Offends imports t within cause) :
    ∃ after, t = within ++ after ∧ cause.StandsAt within after := by
  cases h with
  | unclosed => exact ⟨_, rfl, _, rfl⟩
  | empty => exact ⟨_, rfl, _, rfl⟩
  | unknown => exact ⟨_, rfl, _, rfl⟩
  | @tag name behind place _ hname himport hbreaks =>
      have hstands := hbreaks.standsAt
      cases place with
      | none => exact ⟨_, rfl, hstands _ _ ⟨behind, rfl⟩⟩
      | some before =>
          obtain ⟨after, rfl, hstands⟩ := hstands
          exact ⟨after, by simp, hstands.append ('<' :: name)⟩

theorem BodyBreaks.standsAt (h : BodyBreaks imports t before cause) :
    ∃ after, t = before ++ after ∧ cause.StandsAt before after := by
  cases h with
  | @mk front rest within items _ hfront hrest =>
      obtain ⟨after, rfl, hstands⟩ := hrest.standsAt
      exact ⟨after, by simp, hstands.append front⟩

end Quire.Template
