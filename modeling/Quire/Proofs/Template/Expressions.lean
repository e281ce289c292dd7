import Quire.Proofs.Template.Strands

/-!
The expressions of a template in its module. An expression that stands between braces in the text of
a page is never blank, for a template with such braces is refused; the braces behind the name of an
attribute are not looked into. Main statement: a module holds a blank expression exactly if the
template has an attribute with blank braces.
-/

namespace Quire

namespace Text

variable {t rest : Text} {c : Char}

/-- What is left without the blanks at the ends is not blank, if anything is. -/
theorem trim_trim_ne_nil (h : t.trim ≠ []) : t.trim.trim ≠ [] := by
  obtain ⟨c, hc, hblank⟩ := exists_not_isBlank_of_trim (List.nil_append t.trim).symm h
  exact fun hnil => hblank (trim_eq_nil_iff.1 hnil c hc)

theorem trim_ne_nil_of_trim {front : Text} (h : t.trim = front ++ c :: rest) :
    Text.trim (c :: rest) ≠ [] := by
  obtain ⟨d, hd, hblank⟩ := exists_not_isBlank_of_trim h (List.cons_ne_nil c rest)
  exact fun hnil => hblank (trim_eq_nil_iff.1 hnil d hd)

end Text

namespace Template

/-- The attributes of an item, as they are written. -/
def Item.slots : Item → List Slot
  | .tag _ slots _ => slots
  | _ => []

/-- Whether the braces behind the name of an attribute, if there are any, hold more than blanks. -/
def Slot.IsFilled (s : Slot) : Prop := ∀ inner, s.written = .braces inner → inner.trim ≠ []

variable {ext : Extensions} {moduleId source e : Text} {p : Piece} {pieces : List Piece}
  {item : Item} {items stretch : List Item} {slot : Slot} {made : Module}

/-- Each item is read into a piece. -/
theorem Arranged.exists_piece (h : Arranged pieces items) (hitem : item ∈ items) :
    ∃ p ∈ pieces, ∃ stretch, Covers p stretch ∧ item ∈ stretch := by
  obtain ⟨⟨stretches, hcovers, rfl⟩, -⟩ := h
  induction hcovers with
  | nil => simp at hitem
  | @cons p stretch ps stretches hp _ ih =>
      rcases List.mem_append.1 hitem with hitem | hitem
      · exact ⟨p, List.mem_cons_self, stretch, hp, hitem⟩
      · obtain ⟨q, hq, rest⟩ := ih hitem
        exact ⟨q, List.mem_cons_of_mem p hq, rest⟩

/-- Each piece is read from some of the items. -/
theorem Arranged.exists_stretch (h : Arranged pieces items) (hp : p ∈ pieces) :
    ∃ stretch, Covers p stretch ∧ stretch ⊆ items := by
  obtain ⟨⟨stretches, hcovers, rfl⟩, -⟩ := h
  induction hcovers with
  | nil => cases hp
  | @cons q stretch ps stretches hq _ ih =>
      rcases List.mem_cons.1 hp with rfl | hp
      · exact ⟨stretch, hq, List.subset_append_left _ _⟩
      · obtain ⟨found, hfound, hsubset⟩ := ih hp
        exact ⟨found, hfound, List.subset_append_of_subset_right _ hsubset⟩

theorem mem_expressions_attribute {a : Attribute} : e ∈ a.expressions ↔ a.value = .expr e := by
  obtain ⟨name, value⟩ := a
  cases value <;> simp [Attribute.expressions, eq_comm]

/-- An attribute carries an expression exactly if it is written with braces. -/
theorem value_toAttribute_iff :
    slot.toAttribute.value = .expr e ↔ ∃ inner, slot.written = .braces inner ∧ inner.trim = e := by
  obtain ⟨gap, name, written⟩ := slot
  cases written <;> simp [Slot.toAttribute, Written.value]

/-- The expressions of a use of a component are those of its attributes, the client mark having
none. -/
theorem mem_expressions_slots {slots : List Slot} :
    e ∈ ((slots.map Slot.toAttribute).filter (· ≠ clientMark)).flatMap Attribute.expressions ↔
      ∃ slot ∈ slots, ∃ inner, slot.written = .braces inner ∧ inner.trim = e := by
  simp only [List.mem_flatMap, mem_expressions_attribute, List.mem_filter, List.mem_map]
  constructor
  · rintro ⟨_, ⟨⟨slot, hslot, rfl⟩, -⟩, hvalue⟩
    exact ⟨slot, hslot, value_toAttribute_iff.1 hvalue⟩
  · rintro ⟨slot, hslot, hwritten⟩
    have hvalue := value_toAttribute_iff.2 hwritten
    refine ⟨slot.toAttribute, ⟨⟨slot, hslot, rfl⟩, decide_eq_true fun hmark => ?_⟩, hvalue⟩
    rw [hmark] at hvalue
    cases hvalue

theorem Covers.trim_ne_nil (h : Covers p stretch) (hp : p = .expr e ∨ p = .raw e) :
    e.trim ≠ [] := by
  cases h with
  | expr hblank =>
      obtain rfl : _ = e := by simpa using hp
      exact Text.trim_trim_ne_nil hblank
  | raw hmark =>
      obtain rfl : _ = e := by simpa using hp
      exact Text.trim_trim_ne_nil (Text.trim_ne_nil_of_trim hmark)
  | _ => simp at hp

theorem Covers.blank_iff (h : Covers p stretch) :
    (∃ e ∈ p.expressions, e.trim = []) ↔
      ∃ item ∈ stretch, ∃ slot ∈ item.slots, ¬ slot.IsFilled := by
  cases h with
  | text => simp [Piece.expressions, Item.slots]
  | expr hblank hmark =>
      have hfilled := (Covers.expr hblank hmark).trim_ne_nil (Or.inl rfl)
      simpa [Piece.expressions, Item.slots] using hfilled
  | raw hmark hc =>
      have hfilled := (Covers.raw hmark hc).trim_ne_nil (Or.inr rfl)
      simpa [Piece.expressions, Item.slots] using hfilled
  | component =>
      simp only [Piece.expressions, mem_expressions_slots, List.mem_singleton, exists_eq_left,
        Item.slots, Slot.IsFilled, not_forall, not_not]
      constructor
      · rintro ⟨e, ⟨slot, hslot, inner, hwritten, rfl⟩, hblank⟩
        refine ⟨slot, hslot, inner, hwritten, ?_⟩
        by_contra hne
        exact Text.trim_trim_ne_nil hne hblank
      · rintro ⟨slot, hslot, inner, hwritten, hblank⟩
        exact ⟨_, ⟨slot, hslot, inner, hwritten, rfl⟩, by rw [hblank]; rfl⟩

/-- A body has a blank expression exactly if some attribute is written with blank braces. -/
theorem Arranged.filled_iff (h : Arranged pieces items) :
    (∀ e ∈ pieces.flatMap Piece.expressions, e.trim ≠ []) ↔
      ∀ item ∈ items, ∀ slot ∈ item.slots, slot.IsFilled := by
  constructor
  · intro hfilled item hitem slot hslot
    obtain ⟨p, hp, stretch, hcovers, hmem⟩ := h.exists_piece hitem
    by_contra hblank
    obtain ⟨e, he, htrim⟩ := hcovers.blank_iff.2 ⟨item, hmem, slot, hslot, hblank⟩
    exact hfilled e (List.mem_flatMap.2 ⟨p, hp, he⟩) htrim
  · intro hfilled e he htrim
    obtain ⟨p, hp, he⟩ := List.mem_flatMap.1 he
    obtain ⟨stretch, hcovers, hsubset⟩ := h.exists_stretch hp
    obtain ⟨item, hitem, slot, hslot, hblank⟩ := hcovers.blank_iff.1 ⟨e, he, htrim⟩
    exact hblank (hfilled item (hsubset hitem) slot hslot)

/-- A module is spelled by strands. The expressions that stand between braces in the text of the
page are not blank, and none at all is blank exactly if no attribute of the template is written
with blank braces. -/
theorem spliced_compile_iff (h : compile ext moduleId source = .ok made) :
    ∃ s l, read source = .ok s ∧ Derives startsAttribute source l ∧
      made.code = (moduleStrands ext moduleId s).flatMap Strand.spelled ∧
      (∀ e, .expr e ∈ s.pieces ∨ .raw e ∈ s.pieces → e.trim ≠ []) ∧
      ((∀ e ∈ (moduleStrands ext moduleId s).flatMap Strand.expressions, e.trim ≠ []) ↔
        ∀ item ∈ l.items, ∀ slot ∈ item.slots, slot.IsFilled) := by
  obtain ⟨s, hs, rfl⟩ := map_eq_ok_iff.1 h
  obtain ⟨l, hl, -, harranged⟩ := derives_of_read hs
  refine ⟨s, l, hs, hl, (spelled_module ext moduleId s).symm, ?_, ?_⟩
  · rintro e (he | he)
    · obtain ⟨stretch, hcovers, -⟩ := harranged.exists_stretch he
      exact hcovers.trim_ne_nil (Or.inl rfl)
    · obtain ⟨stretch, hcovers, -⟩ := harranged.exists_stretch he
      exact hcovers.trim_ne_nil (Or.inr rfl)
  · rw [expressions_module]
    exact harranged.filled_iff

/-- A template with an expression on each of the three ways into a module. -/
def threeTemplate : Text :=
  "---\nimport A from \"./a.pw\"\n---\n\x7ba\x7d\x7b@html b\x7d<A x=\x7b c \x7d/>".toList

theorem spliced_compile_iff_three :
    ∃ s l made, read threeTemplate = .ok s ∧
      compile ⟨"pw".toList, "js".toList⟩ "page".toList threeTemplate = .ok made ∧
      (moduleStrands ⟨"pw".toList, "js".toList⟩ "page".toList s).flatMap Strand.expressions =
        [['a'], ['b'], ['c']] ∧
      Derives startsAttribute threeTemplate l ∧
      ∀ item ∈ l.items, ∀ slot ∈ item.slots, slot.IsFilled := by
  have hread : read threeTemplate = .ok ⟨[⟨"A".toList, "./a.pw".toList⟩],
      [.expr ['a'], .raw ['b'], .component "A".toList [⟨['x'], .expr ['c']⟩] false]⟩ := by
    decide +kernel
  have hmade : compile ⟨"pw".toList, "js".toList⟩ "page".toList threeTemplate = .ok _ :=
    map_eq_ok_iff.2 ⟨_, hread, rfl⟩
  obtain ⟨s, l, hs, hl, -, -, hiff⟩ := spliced_compile_iff hmade
  obtain rfl := Except.ok.inj (hread.symm.trans hs)
  have hexpressions : (moduleStrands ⟨"pw".toList, "js".toList⟩ "page".toList
      ⟨[⟨"A".toList, "./a.pw".toList⟩],
        [.expr ['a'], .raw ['b'], .component "A".toList [⟨['x'], .expr ['c']⟩] false]⟩).flatMap
      Strand.expressions = [['a'], ['b'], ['c']] := expressions_module _ _ _
  exact ⟨_, l, _, hs, hmade, hexpressions, hl, hiff.1 (by rw [hexpressions]; decide)⟩

/-- A template with an attribute whose braces hold nothing. -/
def emptyTemplate : Text := "---\nimport A from \"./a.pw\"\n---\n<A x=\x7b\x7d />".toList

/-- The module calls a component with an expression that is empty. -/
theorem spliced_compile_empty :
    ∃ s made, read emptyTemplate = .ok s ∧
      compile ⟨"pw".toList, "js".toList⟩ "page".toList emptyTemplate = .ok made ∧
      made.code =
        (moduleStrands ⟨"pw".toList, "js".toList⟩ "page".toList s).flatMap Strand.spelled ∧
      ¬ ∀ e ∈ (moduleStrands ⟨"pw".toList, "js".toList⟩ "page".toList s).flatMap
        Strand.expressions, e.trim ≠ [] := by
  have hread : read emptyTemplate =
      .ok ⟨[⟨"A".toList, "./a.pw".toList⟩], [.component "A".toList [⟨['x'], .expr []⟩] false]⟩ := by
    decide +kernel
  refine ⟨_, _, hread, map_eq_ok_iff.2 ⟨_, hread, rfl⟩, (spelled_module _ _ _).symm,
    fun hfilled => ?_⟩
  rw [expressions_module] at hfilled
  exact hfilled [] (by decide) rfl

end Template

end Quire
