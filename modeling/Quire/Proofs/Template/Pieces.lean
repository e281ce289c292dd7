import Quire.Proofs.Template.Derivation

/-!
What is known of the pieces of a template that has been read, since they come from a derivation:
literal text holds no opening brace, expressions are balanced, and the components that are used
were imported.
-/

namespace Quire

namespace Text

/-- A character of a quoted text stands behind a backslash, or as its number, or for itself. -/
theorem escape_cases (c : Char) :
    (∃ d, d ≠ '\n' ∧ escape c = ['\\', d]) ∨
      (∃ m < 16, ∃ n < 16, escape c = ['\\', 'u', '0', '0', hexDigit m, hexDigit n]) ∨
      c ≠ '"' ∧ c ≠ '\\' ∧ c ≠ '\n' ∧ escape c = [c] := by
  generalize hescape : escape c = escaped
  unfold escape at hescape
  split_ifs at hescape with hquote hslash _ _ hnewline _ _ hsmall
  · exact .inl ⟨'"', by decide, hescape.symm⟩
  · exact .inl ⟨'\\', by decide, hescape.symm⟩
  · exact .inl ⟨'b', by decide, hescape.symm⟩
  · exact .inl ⟨'f', by decide, hescape.symm⟩
  · exact .inl ⟨'n', by decide, hescape.symm⟩
  · exact .inl ⟨'r', by decide, hescape.symm⟩
  · exact .inl ⟨'t', by decide, hescape.symm⟩
  · exact .inr (.inl ⟨c.toNat / 16, by omega, c.toNat % 16, by omega, hescape.symm⟩)
  · exact .inr (.inr ⟨hquote, hslash, hnewline, hescape.symm⟩)

end Text

namespace Template

variable {q c : Char} {t a b rest : Text} {starts : Char → Bool} {imports : List Import}
  {items : List Item} {item : Item} {ps : List Piece} {p : Piece} {stretch : List Item}

theorem Balanced.of_inert_cons (hc : isInert c) (h : Balanced (c :: t)) : Balanced t := by
  obtain ⟨hquote, hopen, -⟩ := not_isQuote_of_isInert hc
  cases h with
  | inert _ hrest => exact hrest
  | quoted hq => simp [hquote] at hq
  | group => exact absurd rfl hopen

theorem Balanced.of_inert_append (ha : a.all isInert) (h : Balanced (a ++ b)) : Balanced b := by
  induction a with
  | nil => exact h
  | cons c a ih =>
      rw [List.all_cons, Bool.and_eq_true] at ha
      exact ih ha.2 (Balanced.of_inert_cons ha.1 h)

/-- One character of a quoted text does not end the quotes. -/
theorem Enclosed.escape_append (h : Enclosed '"' rest) : Enclosed '"' (Text.escape c ++ rest) := by
  have hdigit : ∀ n < 16, Text.hexDigit n ≠ '\\' ∧ Text.hexDigit n ≠ '"' := by decide
  rcases Text.escape_cases c with ⟨d, -, hescape⟩ | ⟨m, hm, n, hn, hescape⟩ |
    ⟨hquote, hslash, -, hescape⟩
  · rw [hescape]
    exact .escaped h
  · have hhigh := hdigit m hm
    have hlow := hdigit n hn
    rw [hescape]
    exact .escaped (.plain (by decide) (by decide) (.plain (by decide) (by decide)
      (.plain hhigh.1 hhigh.2 (.plain hlow.1 hlow.2 h))))
  · rw [hescape]
    exact .plain hslash hquote h

theorem balanced_quoted (t : Text) : Balanced (Text.quoted t) := by
  have hinner : Enclosed '"' (t.flatMap Text.escape) := by
    induction t with
    | nil => exact .nil
    | cons c t ih => exact ih.escape_append
  exact .quoted (by decide) hinner .nil

theorem Written.Fits.balanced {w : Written} (h : w.Fits) : Balanced w.value.code := by
  cases h with
  | bare => exact balanced_of_inert (by decide)
  | text ht => exact balanced_quoted _
  | braces hinner =>
      exact .inert (by decide) (hinner.trim.append (balanced_of_inert (by decide)))

/-- What is known of an item of a derivation. -/
inductive Item.Sound (imports : List Import) : Item → Prop
  | char {c : Char} (hc : c ≠ '{') : Item.Sound imports (.char c)
  | braces {inner : Text} (hinner : Balanced inner) : Item.Sound imports (.braces inner)
  | tag {name gap : Text} {slots : List Slot} (himport : name ∈ imports.map (·.name))
      (hname : ∀ c ∈ name, isTagChar c) (hslots : ∀ s ∈ slots, s.written.Fits) :
      Item.Sound imports (.tag name slots gap)

/-- What is known of a piece that has been read. -/
inductive Piece.Sound (imports : List Import) : Piece → Prop
  | text {t : Text} (ht : '{' ∉ t) : Piece.Sound imports (.text t)
  | expr {e : Text} (he : Balanced e) : Piece.Sound imports (.expr e)
  | raw {e : Text} (he : Balanced e) : Piece.Sound imports (.raw e)
  | component {name : Text} {attributes : List Attribute} {client : Bool}
      (himport : name ∈ imports.map (·.name)) (hname : ∀ c ∈ name, isTagChar c)
      (hattributes : ∀ a ∈ attributes, Balanced a.value.code) :
      Piece.Sound imports (.component name attributes client)

theorem Slots.fits {gap after : Text} {slots : List Slot} (h : Slots starts gap after t slots) :
    ∀ s ∈ slots, s.written.Fits := by
  induction h with
  | close => simp
  | slot _ _ _ hfits _ ih =>
      intro s hs
      rcases List.mem_cons.1 hs with rfl | hs
      · exact hfits
      · exact ih s hs

theorem Body.sound (h : Body starts imports t items) : ∀ item ∈ items, item.Sound imports := by
  induction h with
  | nil => simp
  | char hbrace _ _ ih => exact List.forall_mem_cons.2 ⟨.char hbrace, ih⟩
  | braces hinner _ _ ih => exact List.forall_mem_cons.2 ⟨.braces hinner, ih⟩
  | tag himport hname hslots _ ih =>
      exact List.forall_mem_cons.2 ⟨.tag himport hname.chars hslots.fits, ih⟩

theorem Covers.sound (h : Covers p stretch) (hitems : ∀ item ∈ stretch, item.Sound imports) :
    p.Sound imports := by
  cases h with
  | @text t ht =>
      refine .text fun hmem => ?_
      cases hitems _ (List.mem_map_of_mem hmem) with
      | char hc => exact hc rfl
  | expr _ _ =>
      cases hitems _ (List.mem_singleton.2 rfl) with
      | braces hinner => exact .expr hinner.trim
  | raw hmark _ =>
      cases hitems _ (List.mem_singleton.2 rfl) with
      | braces hinner =>
          have hmarked := hinner.trim
          rw [hmark] at hmarked
          exact .raw (hmarked.of_inert_append (by decide)).trim
  | component =>
      cases hitems _ (List.mem_singleton.2 rfl) with
      | tag himport hname hslots =>
          refine .component himport hname fun a ha => ?_
          obtain ⟨s, hs, rfl⟩ := List.mem_map.1 (List.mem_filter.1 ha).1
          exact (hslots s hs).balanced

theorem Arranged.sound (h : Arranged ps items) (hitems : ∀ item ∈ items, item.Sound imports) :
    ∀ p ∈ ps, p.Sound imports := by
  obtain ⟨stretches, hcovers, rfl⟩ := h.covers
  clear h
  induction hcovers with
  | nil => simp
  | @cons p stretch ps stretches hp _ ih =>
      rw [List.flatten_cons] at hitems
      refine List.forall_mem_cons.2 ⟨hp.sound fun item hitem => ?_, ih fun item hitem => ?_⟩
      · exact hitems item (List.mem_append_left _ hitem)
      · exact hitems item (List.mem_append_right _ hitem)

/-- The pieces of a template that has been read are sound. -/
theorem sound_of_read {source : Text} {s : Source} (h : read source = .ok s) :
    ∀ p ∈ s.pieces, p.Sound s.imports := by
  obtain ⟨l, hl, himports, harranged⟩ := derives_of_read h
  rw [← himports]
  cases hl with
  | plain _ hbody => exact harranged.sound hbody.sound
  | headed _ _ hbody => exact harranged.sound hbody.sound

/-- What a template imports stands on the lines of its header, each component under a name of its
own. -/
theorem imports_of_read {source : Text} {s : Source} (h : read source = .ok s) :
    (s.imports.map (·.name)).Nodup ∧ ∀ i ∈ s.imports, ∃ t, IsImport t i := by
  obtain ⟨l, hl, himports, -⟩ := derives_of_read h
  rw [← himports]
  cases hl with
  | plain => simp
  | headed _ hfits => exact ⟨hfits.distinct, hfits.between.exists_line⟩

end Template

end Quire
