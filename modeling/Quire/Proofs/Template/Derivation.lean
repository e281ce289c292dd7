import Mathlib.Data.List.Forall2
import Quire.Proofs.Template.Grammar
import Quire.Proofs.Template.Heading
import Quire.Template.Module

/-!
The grammar of templates. A layout is a derivation of a whole template: its header, what the header
imports, and the items of the body. Main statement: the templates that become modules are those
with a layout, a layout is the only one of its template and spells it again, and the pieces that
are read cover the items one stretch after the other.
-/

namespace Quire.Template

/-- The items that a piece is read from. -/
inductive Covers : Piece → List Item → Prop
  | text {t : Text} (ht : t ≠ []) : Covers (.text t) (t.map .char)
  | expr {inner : Text} (hblank : inner.trim ≠ [])
      (hmark : ∀ c rest, inner.trim = rawMark ++ c :: rest → ¬ Text.isBlank c) :
      Covers (.expr inner.trim) [.braces inner]
  | raw {inner : Text} {c : Char} {rest : Text} (hmark : inner.trim = rawMark ++ c :: rest)
      (hc : Text.isBlank c) : Covers (.raw (Text.trim (c :: rest))) [.braces inner]
  | component {name gap : Text} {slots : List Slot} :
      Covers (.component name ((slots.map Slot.toAttribute).filter (· ≠ clientMark))
        ((slots.map Slot.toAttribute).contains clientMark)) [.tag name slots gap]

/-- Whether a piece is literal text. -/
def Piece.isText : Piece → Bool
  | .text _ => true
  | _ => false

/-- Pieces that cover items one stretch after the other, with no two texts in a row. -/
structure Arranged (pieces : List Piece) (items : List Item) : Prop where
  covers : ∃ stretches, List.Forall₂ Covers pieces stretches ∧ stretches.flatten = items
  apart : pieces.IsChain fun p q => ¬ (p.isText ∧ q.isText)

variable {imports : List Import} {t inner source : Text} {ps : List Piece} {p : Piece}
  {items : List Item} {item : Item} {line : Nat} {c : Char}

theorem arranged_nil : Arranged [] [] := ⟨⟨[], .nil, rfl⟩, .nil⟩

theorem Arranged.cons_item (h : Arranged ps items) (hp : Covers p [item]) (htext : ¬ p.isText) :
    Arranged (p :: ps) (item :: items) := by
  obtain ⟨⟨stretches, hcovers, rfl⟩, hapart⟩ := h
  refine ⟨⟨[item] :: stretches, .cons hp hcovers, rfl⟩, ?_⟩
  cases ps with
  | nil => exact .singleton p
  | cons q ps => exact List.isChain_cons_cons.2 ⟨fun hboth => htext hboth.1, hapart⟩

theorem Arranged.cons_char (h : Arranged ps items) :
    Arranged (consText c ps) (.char c :: items) := by
  obtain ⟨⟨stretches, hcovers, rfl⟩, hapart⟩ := h
  cases ps with
  | nil =>
      cases hcovers
      exact ⟨⟨[[.char c]], .cons (.text (t := [c]) (by simp)) .nil, rfl⟩, .singleton _⟩
  | cons p ps =>
      by_cases htext : p.isText
      · -- the text in front takes the character up
        cases p with
        | text t =>
            cases hcovers with
            | cons hp hcovers =>
                cases hp with
                | text ht =>
                    refine ⟨⟨(c :: t).map .char :: _, .cons (.text (by simp)) hcovers, rfl⟩, ?_⟩
                    cases ps with
                    | nil => exact .singleton _
                    | cons q ps =>
                        exact List.isChain_cons_cons.2 (List.isChain_cons_cons.1 hapart)
        | _ => cases htext
      · have hnew : consText c (p :: ps) = .text [c] :: p :: ps := by
          cases p with
          | text t => exact absurd rfl htext
          | _ => rfl
        rw [hnew]
        refine ⟨⟨[.char c] :: stretches, .cons (.text (t := [c]) (by simp)) hcovers, rfl⟩, ?_⟩
        exact List.isChain_cons_cons.2 ⟨fun hboth => htext hboth.2, hapart⟩

theorem covers_of_ofBraces? (h : Piece.ofBraces? inner = some p) :
    Covers p [.braces inner] ∧ ¬ p.isText ∧ inner.trim ≠ [] := by
  simp only [Piece.ofBraces?] at h
  split at h
  · next c rest hmark =>
      have hmark := Text.isPrefixOf?_iff.1 hmark
      have hne : inner.trim ≠ [] := by simp [hmark]
      split at h
      · next hc =>
          split at h
          · cases h
          · obtain rfl := Option.some.inj h
            exact ⟨.raw hmark hc, by simp [Piece.isText], hne⟩
      · next hc =>
          obtain rfl := Option.some.inj h
          refine ⟨.expr hne fun d behind hbehind => ?_, by simp [Piece.isText], hne⟩
          obtain ⟨rfl, -⟩ := List.cons_eq_cons.1 (List.append_cancel_left (hmark.symm.trans hbehind))
          exact hc
  · next hmark =>
      split at h
      · cases h
      · next hne =>
          obtain rfl := Option.some.inj h
          refine ⟨.expr hne fun c rest hbehind => ?_, by simp [Piece.isText], hne⟩
          exact absurd (Text.isPrefixOf?_iff.2 hbehind) (hmark c rest)

theorem exists_ofBraces? (h : inner.trim ≠ []) : ∃ p, Piece.ofBraces? inner = some p := by
  simp only [Piece.ofBraces?]
  split
  · next c rest hmark =>
      split
      · -- what follows the mark does not end in a blank
        obtain ⟨d, hd, hblank⟩ := Text.exists_not_isBlank_of_trim (Text.isPrefixOf?_iff.1 hmark)
          (by simp)
        rw [if_neg fun hnil => hblank (Text.trim_eq_nil_iff.1 hnil d hd)]
        exact ⟨_, rfl⟩
      · exact ⟨_, rfl⟩
  · exact ⟨_, if_neg h⟩

theorem isTagChar_of_isUpper (h : c.isUpper) : isTagChar c := by
  have halpha : c.isAlpha = (c.isUpper || c.isLower) := rfl
  simp [isTagChar, Char.isAlphanum, halpha, h]

theorem slots_of_component {p : Read Piece} (h : component imports line t = .ok p) :
    ∃ slots gap, t.takeWhile isTagChar ∈ imports.map (·.name) ∧
      Slots startsAttribute gap p.rest (t.dropWhile isTagChar) slots ∧
      Covers p.value [.tag (t.takeWhile isTagChar) slots gap] ∧ ¬ p.value.isText := by
  simp only [component] at h
  split at h
  · next himport =>
      obtain ⟨as, has, rfl⟩ := map_eq_ok_iff.1 h
      obtain ⟨slots, gap, hslots, hvalue⟩ := slots_of_attributes has
      refine ⟨slots, gap, by simpa using himport, hslots, ?_, by simp [Piece.isText]⟩
      simp only [hvalue]
      exact .component
  · cases h

theorem component_of_slots (line : Nat) {name behind gap rest : Text} {slots : List Slot}
    (himport : name ∈ imports.map (·.name)) (hname : IsName name behind)
    (hslots : Slots startsAttribute gap rest behind slots) :
    ∃ p line', component imports line (name ++ behind) = .ok ⟨p, line', rest⟩ := by
  obtain ⟨line', hattributes⟩ := attributes_of_slots name line line hslots
  have hany : imports.any (·.name = name) := by simpa using himport
  simp only [component, Text.takeWhile_run hname.chars hname.stops,
    Text.dropWhile_run hname.chars hname.stops, hattributes, if_pos hany]
  exact ⟨_, line', rfl⟩

theorem isName_of_first (h : t.head?.any Char.isUpper) :
    IsName (t.takeWhile isTagChar) (t.dropWhile isTagChar) := by
  refine ⟨?_, fun c hc => List.mem_takeWhile_imp hc, Text.stopsAt_dropWhile isTagChar t⟩
  cases t with
  | nil => cases h
  | cons c t => simp [isTagChar_of_isUpper (c := c) (by simpa using h)]

/-- A body that is read can be derived, and its pieces cover the derivation. -/
theorem body_of_pieces (h : pieces imports line t = .ok ps) :
    ∃ items, Body startsAttribute imports t items ∧ Arranged ps items := by
  fun_induction pieces imports line t generalizing ps with
  | case1 =>
      obtain rfl := Except.ok.inj h
      exact ⟨[], .nil, arranged_nil⟩
  | case2 => cases h
  | case3 => cases h
  | case4 line rest inner after hclosing p hp ih =>
      obtain ⟨ps, hps, rfl⟩ := map_eq_ok_iff.1 h
      obtain ⟨items, hbody, harranged⟩ := ih hps
      obtain ⟨hcovers, htext, hblank⟩ := covers_of_ofBraces? hp
      obtain ⟨rfl, hinner⟩ := closing_eq_some_iff.1 hclosing
      exact ⟨_, .braces hinner hblank hbody, harranged.cons_item hcovers htext⟩
  | case5 => cases h
  | case6 line c rest hbrace htag p hp ih =>
      obtain ⟨ps, hps, rfl⟩ := map_eq_ok_iff.1 h
      obtain ⟨items, hbody, harranged⟩ := ih hps
      obtain ⟨slots, gap, himport, hslots, hcovers, htext⟩ := slots_of_component hp
      obtain ⟨rfl, hupper⟩ := htag
      have htag := Body.tag himport (isName_of_first hupper) hslots hbody
      rw [List.takeWhile_append_dropWhile] at htag
      exact ⟨_, htag, harranged.cons_item hcovers htext⟩
  | case7 line c rest hbrace htag ih =>
      obtain ⟨ps, hps, rfl⟩ := map_eq_ok_iff.1 h
      obtain ⟨items, hbody, harranged⟩ := ih hps
      exact ⟨_, .char hbrace htag hbody, harranged.cons_char⟩

theorem pieces_char (line : Nat) (hbrace : c ≠ '{')
    (htag : ¬ (c = '<' ∧ t.head?.any Char.isUpper)) :
    pieces imports line (c :: t) =
      (pieces imports (if c = '\n' then line + 1 else line) t).map (consText c) := by
  rw [pieces, if_neg hbrace, if_neg htag]

theorem pieces_braces (imports : List Import) (line : Nat) (t : Text) (hinner : Balanced inner) :
    pieces imports line ('{' :: (inner ++ '}' :: t)) =
      match Piece.ofBraces? inner with
      | none => .error ⟨line, .emptyExpression⟩
      | some p => (pieces imports (line + lineEnds inner) t).map (p :: ·) := by
  have hclosing : closing .code 0 (inner ++ '}' :: t) = some (inner, t) :=
    closing_eq_some_iff.2 ⟨rfl, hinner⟩
  rw [pieces, if_pos rfl]
  split
  · next hnone => simp [hclosing] at hnone
  · next hsome =>
      obtain ⟨rfl, rfl⟩ := Prod.mk.inj (Option.some.inj (hclosing.symm.trans hsome))
      rfl

theorem pieces_tag (imports : List Import) (line : Nat) (hfirst : t.head?.any Char.isUpper) :
    pieces imports line ('<' :: t) = (component imports line t).bind fun r =>
      (pieces imports r.line r.rest).map (r.value :: ·) := by
  rw [pieces, if_neg (by decide), if_pos ⟨rfl, hfirst⟩]
  split
  · next e he => rw [he, Except.bind]
  · next r hr => rw [hr, Except.bind]

/-- A body that can be derived is read. -/
theorem pieces_of_body (line : Nat) (hcapital : Capital imports)
    (h : Body startsAttribute imports t items) :
    ∃ ps, pieces imports line t = .ok ps := by
  induction h generalizing line with
  | nil => exact ⟨[], by simp [pieces]⟩
  | @char c rest items hbrace htag hrest ih =>
      obtain ⟨ps, hps⟩ := ih (if c = '\n' then line + 1 else line)
      rw [pieces_char line hbrace htag, hps]
      exact ⟨consText c ps, rfl⟩
  | @braces inner rest items hinner hblank hrest ih =>
      obtain ⟨p, hp⟩ := exists_ofBraces? hblank
      obtain ⟨ps, hps⟩ := ih (line + lineEnds inner)
      simp only [pieces_braces imports line rest hinner, hp, hps]
      exact ⟨p :: ps, rfl⟩
  | @tag name behind gap rest slots items himport hname hslots hrest ih =>
      obtain ⟨p, line', hcomponent⟩ := component_of_slots line himport hname hslots
      obtain ⟨ps, hps⟩ := ih line'
      rw [pieces_tag imports line (hcapital.head? himport), hcomponent, Except.bind, hps]
      exact ⟨p :: ps, rfl⟩

/-- A derivation of a whole template: its header if it has one, what that imports, and the items of
the body. -/
structure Layout where
  header : Option Header
  imports : List Import
  items : List Item

/-- All that a layout spells. -/
def Layout.spelled (l : Layout) : Text :=
  (l.header.elim [] fun h => h.all.flatten) ++ l.items.flatMap Item.spelled

/-- The templates that can be derived. The lines of one with a header begin with those of the
header; one without a header does not begin as if it had one. -/
inductive Derives (starts : Char → Bool) (source : Text) : Layout → Prop
  | plain {items : List Item} (hplain : ¬ OpensHeader source.wholeLines)
      (hbody : Body starts [] source items) : Derives starts source ⟨none, [], items⟩
  | headed {h : Header} {lines : List Text} {imports : List Import} {items : List Item}
      (hlines : source.wholeLines = h.all ++ lines) (hfits : h.Fits imports)
      (hbody : Body starts imports lines.flatten items) :
      Derives starts source ⟨some h, imports, items⟩

variable {l l' : Layout} {starts : Char → Bool}

theorem Derives.spelled (h : Derives starts source l) : l.spelled = source := by
  cases h with
  | plain hplain hbody => exact hbody.spelled
  | headed hlines hfits hbody =>
      rw [← Text.flatten_wholeLines source, hlines, List.flatten_append, ← hbody.spelled]
      rfl

theorem read_eq_ok_iff {s : Source} : read source = .ok s ↔
    ∃ parts, splitHeader source = .ok parts ∧ parts.imports = s.imports ∧
      pieces parts.imports parts.bodyLine parts.body = .ok s.pieces := by
  obtain ⟨imports, ps⟩ := s
  unfold read
  constructor
  · intro h
    cases hsplit : splitHeader source with
    | error e =>
        rw [hsplit] at h
        cases h
    | ok parts =>
        rw [hsplit] at h
        obtain ⟨ps', hps, hs⟩ := map_eq_ok_iff.1 h
        obtain ⟨rfl, rfl⟩ := Source.mk.inj hs
        exact ⟨parts, rfl, rfl, hps⟩
  · rintro ⟨parts, hsplit, rfl, hps⟩
    rw [hsplit]
    exact map_eq_ok_iff.2 ⟨ps, hps, rfl⟩

/-- A template that is read can be derived, and its pieces cover the derivation. -/
theorem derives_of_read {s : Source} (h : read source = .ok s) :
    ∃ l, Derives startsAttribute source l ∧ l.imports = s.imports ∧ Arranged s.pieces l.items := by
  obtain ⟨parts, hsplit, himports, hps⟩ := read_eq_ok_iff.1 h
  obtain ⟨items, hbody, harranged⟩ := body_of_pieces hps
  rcases splitHeader_eq_ok_iff.1 hsplit with ⟨h, lines, hlines, hfits, hrest, -⟩ | ⟨hplain, rfl⟩
  · rw [hrest] at hbody
    exact ⟨_, .headed hlines hfits hbody, himports, harranged⟩
  · exact ⟨_, .plain hplain hbody, himports, harranged⟩

/-- A template that can be derived is read. -/
theorem exists_read_of_derives (h : Derives startsAttribute source l) :
    ∃ ps, read source = .ok ⟨l.imports, ps⟩ := by
  cases h with
  | @plain items hplain hbody =>
      have hsplit : splitHeader source = .ok ⟨[], source, 1⟩ :=
        splitHeader_eq_ok_iff.2 (Or.inr ⟨hplain, rfl⟩)
      obtain ⟨ps, hps⟩ := pieces_of_body 1 (by simp [Capital]) hbody
      exact ⟨ps, read_eq_ok_iff.2 ⟨_, hsplit, rfl, hps⟩⟩
  | @headed h lines imports items hlines hfits hbody =>
      have hsplit : splitHeader source = .ok ⟨imports, lines.flatten, h.all.length + 1⟩ :=
        splitHeader_eq_ok_iff.2 (Or.inl ⟨h, lines, hlines, hfits, rfl, rfl⟩)
      obtain ⟨ps, hps⟩ := pieces_of_body (h.all.length + 1) hfits.between.capital hbody
      exact ⟨ps, read_eq_ok_iff.2 ⟨_, hsplit, rfl, hps⟩⟩

/-- A template has one layout. -/
theorem Derives.unique (h : Derives startsAttribute source l)
    (h' : Derives startsAttribute source l') : l = l' := by
  cases h with
  | plain hplain hbody =>
      cases h' with
      | plain _ hbody' => rw [hbody.unique (by simp [Capital]) hbody']
      | headed hlines hfits => exact absurd (hlines ▸ Header.opens _ hfits _) hplain
  | headed hlines hfits hbody =>
      cases h' with
      | plain hplain => exact absurd (hlines ▸ Header.opens _ hfits _) hplain
      | headed hlines' hfits' hbody' =>
          obtain ⟨rfl, rfl, rfl⟩ := hfits.unique hfits' (hlines.symm.trans hlines')
          rw [hbody.unique hfits.between.capital hbody']

/-- The templates that become modules are those that can be derived. Each has one layout, which
spells it, and the pieces that are read cover the items of the layout. -/
theorem compile_iff_derives (ext : Extensions) (moduleId source : Text) :
    ((∃ made, compile ext moduleId source = .ok made) ↔
      ∃ l, Derives startsAttribute source l) ∧
    ∀ l, Derives startsAttribute source l →
      (∀ l', Derives startsAttribute source l' → l' = l) ∧ l.spelled = source ∧
      ∃ ps, read source = .ok ⟨l.imports, ps⟩ ∧ Arranged ps l.items := by
  refine ⟨⟨?_, ?_⟩, ?_⟩
  · rintro ⟨made, hmade⟩
    obtain ⟨s, hs, -⟩ := map_eq_ok_iff.1 hmade
    obtain ⟨l, hl, -⟩ := derives_of_read hs
    exact ⟨l, hl⟩
  · rintro ⟨l, hl⟩
    obtain ⟨ps, hps⟩ := exists_read_of_derives hl
    exact ⟨_, map_eq_ok_iff.2 ⟨_, hps, rfl⟩⟩
  · intro l hl
    refine ⟨fun l' hl' => hl'.unique hl, hl.spelled, ?_⟩
    obtain ⟨ps, hps⟩ := exists_read_of_derives hl
    obtain ⟨l', hl', -, harranged⟩ := derives_of_read hps
    obtain rfl := hl'.unique hl
    exact ⟨ps, hps, harranged⟩

/-- A header that imports one component. -/
def oneImport : Header where
  above := []
  opening := "---\n".toList
  lines := ["import A from \"./a.pw\"\n".toList]
  closing := "---\n".toList

theorem oneImport_fits : oneImport.Fits [⟨"A".toList, "./a.pw".toList⟩] where
  above := by simp [oneImport]
  opening := by decide
  between := .line (ofLine?_eq_some_iff.1 (by decide)) .nil
  distinct := by decide
  closing := by decide

/-- A tag with one bare attribute, if the class of first characters admits its name. -/
theorem body_flag (starts : Char → Bool) (c : Char) (hstart : starts c) (hc : isTagChar c) :
    Body starts [⟨"A".toList, "./a.pw".toList⟩] ('<' :: ['A'] ++ ' ' :: c :: " />".toList)
      [.tag ['A'] [⟨[' '], [c], .bare⟩] [' ']] := by
  have hgap : ∀ d ∈ [' '], Text.isBlank d := List.forall_mem_singleton.2 (by decide)
  have hclose : Slots starts [' '] [] " />".toList [] := .close hgap
  have hslots : Slots starts [' '] [] (' ' :: c :: " />".toList) [⟨[' '], [c], .bare⟩] :=
    .slot (s := ⟨[' '], [c], .bare⟩) hgap hstart
      ⟨by simp, by simpa using hc, Text.stopsAt_cons.2 (by decide)⟩ .bare hclose
  have hname : IsName ['A'] (' ' :: c :: " />".toList) :=
    ⟨by simp, List.forall_mem_singleton.2 (by decide), Text.stopsAt_cons.2 (by decide)⟩
  exact .tag (by decide) hname hslots .nil

theorem compile_iff_derives_flag :
    Derives startsAttribute "---\nimport A from \"./a.pw\"\n---\n<A x />".toList
        ⟨some oneImport, [⟨"A".toList, "./a.pw".toList⟩], [.tag ['A'] [⟨[' '], ['x'], .bare⟩] [' ']]⟩ ∧
      ∃ ps, read "---\nimport A from \"./a.pw\"\n---\n<A x />".toList =
        .ok ⟨[⟨"A".toList, "./a.pw".toList⟩], ps⟩ := by
  have hlines : Text.wholeLines "---\nimport A from \"./a.pw\"\n---\n<A x />".toList =
      oneImport.all ++ ["<A x />".toList] := by decide
  have hderives := Derives.headed hlines oneImport_fits
    (body_flag startsAttribute 'x' (by decide) (by decide))
  obtain ⟨-, -, ps, hps, -⟩ :=
    (compile_iff_derives ⟨"pw".toList, "js".toList⟩ "page".toList _).2 _ hderives
  exact ⟨hderives, ps, hps⟩

/-- The name of an attribute is more than a run of name characters: one that begins with a digit is
refused. -/
theorem compile_refuses_digit :
    (∃ l, Derives isTagChar "---\nimport A from \"./a.pw\"\n---\n<A 1 />".toList l) ∧
      ¬ ∃ made, compile ⟨"pw".toList, "js".toList⟩ "page".toList
        "---\nimport A from \"./a.pw\"\n---\n<A 1 />".toList = .ok made := by
  constructor
  · have hlines : Text.wholeLines "---\nimport A from \"./a.pw\"\n---\n<A 1 />".toList =
        oneImport.all ++ ["<A 1 />".toList] := by decide
    exact ⟨_, .headed hlines oneImport_fits (body_flag isTagChar '1' (by decide) (by decide))⟩
  · have hread : read "---\nimport A from \"./a.pw\"\n---\n<A 1 />".toList =
        .error ⟨4, .malformedAttribute "A".toList⟩ := by decide +kernel
    rintro ⟨made, hmade⟩
    rw [compile, hread] at hmade
    cases hmade

end Quire.Template
