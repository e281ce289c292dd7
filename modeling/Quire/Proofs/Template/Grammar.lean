import Quire.Proofs.Template.Balance
import Quire.Proofs.Template.Heading
import Quire.Template.Piece

/-!
The grammar of the body of a template: groups in braces that are balanced and not blank, tags that
close themselves, and characters that begin neither. A derivation keeps all that is written, blanks
within tags included, so that it spells the body again. Main statements: the reader accepts the
bodies that can be derived and no others, and a body has one derivation.
-/

namespace Quire.Template

open Text (StopsAt)

/-- What is written behind the name of an attribute. -/
inductive Written
  | bare
  | text (t : Text)
  | braces (inner : Text)

namespace Written

/-- What is written, character by character. -/
def spelled : Written → Text
  | .bare => []
  | .text t => '=' :: '"' :: (t ++ ['"'])
  | .braces inner => '=' :: '{' :: (inner ++ ['}'])

/-- What the attribute carries then. -/
def value : Written → AttributeValue
  | .bare => .flag
  | .text t => .text t
  | .braces inner => .expr inner.trim

/-- Whether the quotes or the braces end where they seem to end. -/
inductive Fits : Written → Prop
  | bare : Fits .bare
  | text {t : Text} (ht : '"' ∉ t) : Fits (.text t)
  | braces {inner : Text} (hinner : Balanced inner) : Fits (.braces inner)

end Written

/-- An attribute as it is written: blanks, its name, and what is behind the name. -/
structure Slot where
  gap : Text
  name : Text
  written : Written

namespace Slot

def spelled (s : Slot) : Text := s.gap ++ (s.name ++ s.written.spelled)

def toAttribute (s : Slot) : Attribute := ⟨s.name, s.written.value⟩

end Slot

/-- What a body is made of. -/
inductive Item
  | char (c : Char)
  | braces (inner : Text)
  | tag (name : Text) (slots : List Slot) (gap : Text)

/-- An item, character by character. -/
def Item.spelled : Item → Text
  | .char c => [c]
  | .braces inner => '{' :: (inner ++ ['}'])
  | .tag name slots gap => '<' :: (name ++ (slots.flatMap Slot.spelled ++ (gap ++ ['/', '>'])))

/-- A run of name characters that what follows does not go on with. -/
structure IsName (name after : Text) : Prop where
  nonempty : name ≠ []
  chars : ∀ c ∈ name, isTagChar c
  stops : StopsAt isTagChar after

/-- The attributes of a tag, its end, and what follows the tag. The names of attributes begin with
a character of the given class. -/
inductive Slots (starts : Char → Bool) (gap after : Text) : Text → List Slot → Prop
  | close (hgap : ∀ c ∈ gap, Text.isBlank c) : Slots starts gap after (gap ++ '/' :: '>' :: after) []
  | slot {s : Slot} {rest : Text} {slots : List Slot} (hgap : ∀ c ∈ s.gap, Text.isBlank c)
      (hstart : s.name.head?.any starts) (hname : IsName s.name (s.written.spelled ++ rest))
      (hfits : s.written.Fits) (hrest : Slots starts gap after rest slots) :
      Slots starts gap after (s.gap ++ (s.name ++ (s.written.spelled ++ rest))) (s :: slots)

/-- The bodies in which the given components may be used, each with its derivation. -/
inductive Body (starts : Char → Bool) (imports : List Import) : Text → List Item → Prop
  | nil : Body starts imports [] []
  | char {c : Char} {rest : Text} {items : List Item} (hbrace : c ≠ '{')
      (htag : ¬ (c = '<' ∧ rest.head?.any Char.isUpper)) (hrest : Body starts imports rest items) :
      Body starts imports (c :: rest) (.char c :: items)
  | braces {inner rest : Text} {items : List Item} (hinner : Balanced inner)
      (hblank : inner.trim ≠ []) (hrest : Body starts imports rest items) :
      Body starts imports ('{' :: (inner ++ '}' :: rest)) (.braces inner :: items)
  | tag {name behind gap rest : Text} {slots : List Slot} {items : List Item}
      (himport : name ∈ imports.map (·.name)) (hname : IsName name behind)
      (hslots : Slots starts gap rest behind slots) (hrest : Body starts imports rest items) :
      Body starts imports ('<' :: (name ++ behind)) (.tag name slots gap :: items)

variable {starts : Char → Bool} {imports : List Import} {t rest gap after tag : Text}
  {slots : List Slot} {items : List Item} {line start : Nat} {w : Written} {c : Char}

theorem map_eq_ok_iff {α β : Type} {x : Except Fault α} {f : α → β} {b : β} :
    x.map f = .ok b ↔ ∃ a, x = .ok a ∧ f a = b := by
  cases x <;> simp [Except.map]

theorem Slots.spelled (h : Slots starts gap after t slots) :
    slots.flatMap Slot.spelled ++ (gap ++ '/' :: '>' :: after) = t := by
  induction h with
  | close hgap => rfl
  | slot hgap hstart hname hfits hrest ih => simp [List.flatMap_cons, Slot.spelled, ← ih]

/-- A derivation spells its body: no character is lost, doubled or moved. -/
theorem Body.spelled (h : Body starts imports t items) : items.flatMap Item.spelled = t := by
  induction h with
  | nil => rfl
  | char hbrace htag hrest ih => simp [List.flatMap_cons, Item.spelled, ih]
  | braces hinner hblank hrest ih => simp [List.flatMap_cons, Item.spelled, ih]
  | tag himport hname hslots hrest ih =>
      simp [List.flatMap_cons, Item.spelled, ih, ← hslots.spelled]

theorem not_isBlank_of_isTagChar (h : isTagChar c) : Text.isBlank c = false := by
  have halpha : c.isAlpha = (c.isUpper || c.isLower) := rfl
  have hupper : c.isUpper = decide ('A' ≤ c ∧ c ≤ 'Z') := rfl
  have hlower : c.isLower = ('a' ≤ c && c ≤ 'z') := rfl
  have hdigit : c.isDigit = ('0' ≤ c && c ≤ '9') := rfl
  simp only [isTagChar, Char.isAlphanum, halpha, hupper, hlower, hdigit, Bool.or_eq_true,
    Bool.and_eq_true, decide_eq_true_eq, Char.le_def, UInt32.le_iff_toNat_le, Char.toNat_val] at h
  have hrange : 45 ≤ c.toNat ∧ c.toNat ≤ 122 := by
    rcases h with (((h | h) | h) | rfl) | rfl
    · exact ⟨le_trans (by decide) h.1, le_trans h.2 (by decide)⟩
    · exact ⟨le_trans (by decide) h.1, le_trans h.2 (by decide)⟩
    · exact ⟨le_trans (by decide) h.1, le_trans h.2 (by decide)⟩
    · decide
    · decide
  simp only [Text.isBlank, Bool.or_eq_false_iff, decide_eq_false_iff_not, Bool.and_eq_false_iff]
  omega

theorem IsName.stopsAt_isBlank {name : Text} (h : IsName name after) :
    StopsAt Text.isBlank (name ++ t) := by
  obtain ⟨c, name, rfl⟩ := List.exists_cons_of_ne_nil h.nonempty
  exact Text.stopsAt_cons.2 (not_isBlank_of_isTagChar (h.chars c List.mem_cons_self))

/-- What follows an attribute does not begin with an equals sign. -/
theorem Slots.head?_ne_equals (h : Slots startsAttribute gap after t slots) : t.head? ≠ some '=' := by
  have hgap : ∀ {gap : Text}, (∀ c ∈ gap, Text.isBlank c) → gap.head? ≠ some '=' := by
    intro gap hgap hhead
    cases hgap '=' (List.mem_of_mem_head? hhead)
  cases h with
  | close hblank => exact Text.head?_append_ne (hgap hblank) (by simp)
  | @slot s rest slots hblank hstart hname hfits hrest =>
      refine Text.head?_append_ne (hgap hblank) fun hhead => ?_
      obtain ⟨c, name, hs⟩ := List.exists_cons_of_ne_nil hname.nonempty
      simp only [hs, List.cons_append, List.head?_cons, Option.some.injEq] at hhead hstart
      rw [hhead] at hstart
      cases hstart

theorem written_of_attributeValue {v : Read AttributeValue}
    (h : attributeValue tag line t = .ok v) :
    ∃ w : Written, w.Fits ∧ '=' :: t = w.spelled ++ v.rest ∧ w.value = v.value ∧ w ≠ .bare := by
  unfold attributeValue at h
  split at h
  · split at h
    · cases h
    · next rest inner after hclosing =>
        obtain rfl := Except.ok.inj h
        obtain ⟨rfl, hinner⟩ := closing_eq_some_iff.1 hclosing
        exact ⟨.braces inner, .braces hinner, by simp [Written.spelled], rfl, by simp⟩
  · split at h
    · cases h
    · next rest t after hcut =>
        obtain rfl := Except.ok.inj h
        obtain ⟨rfl, ht⟩ := Text.cutFirst_singleton_iff.1 hcut
        exact ⟨.text t, .text ht, by simp [Written.spelled], rfl, by simp⟩
  · cases h

theorem written_of_oneAttribute {a : Read Attribute} (h : oneAttribute tag line t = .ok a) :
    ∃ w : Written, w.Fits ∧ t.dropWhile isTagChar = w.spelled ++ a.rest ∧
      a.value = ⟨t.takeWhile isTagChar, w.value⟩ ∧ (w = .bare → a.rest.head? ≠ some '=') := by
  unfold oneAttribute at h
  split at h
  · next rest hrest =>
      obtain ⟨v, hvalue, rfl⟩ := map_eq_ok_iff.1 h
      obtain ⟨w, hfits, hspelled, hv, hbare⟩ := written_of_attributeValue hvalue
      exact ⟨w, hfits, hrest.trans hspelled, by rw [hv], fun hw => absurd hw hbare⟩
  · next hequals =>
      obtain rfl := Except.ok.inj h
      refine ⟨.bare, .bare, rfl, rfl, fun _ hhead => ?_⟩
      obtain ⟨rest, hrest⟩ := List.head?_eq_some_iff.1 hhead
      exact hequals rest hrest

/-- The attribute that is read behind blanks, as it is written. -/
theorem slot_of_oneAttribute {a : Read Attribute} (ht : t.trimStart = c :: rest)
    (hc : startsAttribute c) (h : oneAttribute tag line (c :: rest) = .ok a) :
    ∃ s : Slot, (∀ c ∈ s.gap, Text.isBlank c) ∧ s.name.head?.any startsAttribute ∧
      IsName s.name (s.written.spelled ++ a.rest) ∧ s.written.Fits ∧
      t = s.gap ++ (s.name ++ (s.written.spelled ++ a.rest)) ∧ a.value = s.toAttribute ∧
      (s.written = .bare → a.rest.head? ≠ some '=') := by
  obtain ⟨w, hfits, hspelled, hattribute, hbare⟩ := written_of_oneAttribute h
  have hname : (c :: rest).takeWhile isTagChar = c :: rest.takeWhile isTagChar :=
    List.takeWhile_cons_of_pos (isTagChar_of_startsAttribute hc)
  have hstops := Text.stopsAt_dropWhile isTagChar (c :: rest)
  have hsplit : t.takeWhile Text.isBlank ++ t.trimStart = t := List.takeWhile_append_dropWhile
  rw [hspelled] at hstops
  refine ⟨⟨t.takeWhile Text.isBlank, (c :: rest).takeWhile isTagChar, w⟩,
    fun c hc => List.mem_takeWhile_imp hc, by simp [hname, hc],
    ⟨by simp [hname], fun c hc => List.mem_takeWhile_imp hc, hstops⟩, hfits, ?_, hattribute, hbare⟩
  dsimp only
  rw [← hspelled, List.takeWhile_append_dropWhile, ← ht, hsplit]

/-- The attributes that are read can be derived. -/
theorem slots_of_attributes {as : Read (List Attribute)} (h : attributes tag start line t = .ok as) :
    ∃ slots gap, Slots startsAttribute gap as.rest t slots ∧ as.value = slots.map Slot.toAttribute := by
  have hblanks : ∀ (t : Text), ∀ c ∈ t.takeWhile Text.isBlank, Text.isBlank c := fun _ c hc =>
    List.mem_takeWhile_imp hc
  have hsplit : ∀ (t : Text), t.takeWhile Text.isBlank ++ t.trimStart = t := fun _ =>
    List.takeWhile_append_dropWhile
  fun_induction attributes tag start line t generalizing as with
  | case1 => cases h
  | case2 line t =>
      rename_i c rest ht hend
      obtain rfl := Except.ok.inj h
      obtain ⟨rfl, hhead⟩ := hend
      obtain ⟨rest, rfl⟩ := List.head?_eq_some_iff.1 hhead
      have hclose : Slots startsAttribute (t.takeWhile Text.isBlank) rest
          (t.takeWhile Text.isBlank ++ '/' :: '>' :: rest) [] := .close (hblanks t)
      rw [← ht, hsplit] at hclose
      exact ⟨[], _, hclose, rfl⟩
  | case3 => cases h
  | case4 => cases h
  | case5 line t =>
      rename_i c rest ht _ _ hc a ha ih
      obtain ⟨more, hmore, rfl⟩ := map_eq_ok_iff.1 h
      obtain ⟨slots, gap, hslots, hvalue⟩ := ih hmore
      obtain ⟨s, hgap, hstart, hname, hfits, hspelled, hattribute, -⟩ := slot_of_oneAttribute ht hc ha
      refine ⟨s :: slots, gap, ?_, ?_⟩
      · rw [hspelled]
        exact .slot hgap hstart hname hfits hslots
      · rw [List.map_cons, ← hvalue, ← hattribute]
  | case6 => cases h

theorem attributeValue_of_fits (tag : Text) (line : Nat) (rest : Text) (hfits : w.Fits)
    (hw : w ≠ .bare) :
    ∃ s line', w.spelled ++ rest = '=' :: s ∧
      attributeValue tag line s = .ok ⟨w.value, line', rest⟩ := by
  cases hfits with
  | bare => exact absurd rfl hw
  | @text t ht =>
      refine ⟨'"' :: (t ++ '"' :: rest), line + lineEnds t, by simp [Written.spelled], ?_⟩
      simp [attributeValue, Text.cutFirst_singleton_iff.2 ⟨rfl, ht⟩, Written.value]
  | @braces inner hinner =>
      refine ⟨'{' :: (inner ++ '}' :: rest), line + lineEnds inner, by simp [Written.spelled], ?_⟩
      simp [attributeValue, closing_eq_some_iff.2 ⟨rfl, hinner⟩, Written.value]

/-- An attribute that can be derived is read. -/
theorem oneAttribute_of_slot (tag : Text) (line : Nat) {s : Slot}
    (hname : IsName s.name (s.written.spelled ++ rest))
    (hfits : s.written.Fits) (hrest : s.written = .bare → rest.head? ≠ some '=') :
    ∃ line', oneAttribute tag line (s.name ++ (s.written.spelled ++ rest)) =
      .ok ⟨s.toAttribute, line', rest⟩ := by
  obtain ⟨gap, name, w⟩ := s
  unfold oneAttribute
  simp only [Text.takeWhile_run hname.chars hname.stops, Text.dropWhile_run hname.chars hname.stops]
  by_cases hw : w = .bare
  · subst hw
    refine ⟨line, ?_⟩
    split
    · next s hs => exact absurd (by rw [show rest = '=' :: s from hs]; rfl) (hrest rfl)
    · rfl
  · obtain ⟨s, line', hs, hvalue⟩ := attributeValue_of_fits tag line rest hfits hw
    exact ⟨line', by simp [hs, hvalue, Slot.toAttribute, Except.map]⟩

theorem attributes_of_close (ht : t.trimStart = '/' :: '>' :: after) :
    ∃ line', attributes tag start line t = .ok ⟨[], line', after⟩ := by
  unfold attributes
  split
  · next hnil => simp [ht] at hnil
  · next c rest hc =>
      obtain ⟨rfl, rfl⟩ := List.cons_eq_cons.1 (ht.symm.trans hc)
      exact ⟨_, if_pos ⟨rfl, rfl⟩⟩

/-- Behind blanks and the first character of a name, one attribute and then the others are read. -/
theorem attributes_of_name (tag : Text) (start line : Nat) {name : Text} (behind : Text)
    (hgap : ∀ c ∈ gap, Text.isBlank c) (hstart : name.head?.any startsAttribute) :
    attributes tag start line (gap ++ (name ++ behind)) =
      (oneAttribute tag (line + lineEnds gap) (name ++ behind)).bind fun a =>
        (attributes tag start a.line a.rest).map fun more =>
          { more with value := a.value :: more.value } := by
  obtain ⟨c, name, rfl⟩ := List.exists_cons_of_ne_nil (l := name) (by rintro rfl; cases hstart)
  rw [List.head?_cons, Option.any_some] at hstart
  have hslash : c ≠ '/' := by
    rintro rfl
    cases hstart
  have hend : c ≠ '>' := by
    rintro rfl
    cases hstart
  have hstops : StopsAt Text.isBlank (c :: (name ++ behind)) :=
    Text.stopsAt_cons.2 (not_isBlank_of_isTagChar (isTagChar_of_startsAttribute hstart))
  have htrim : Text.trimStart (gap ++ c :: (name ++ behind)) = c :: (name ++ behind) :=
    Text.dropWhile_run hgap hstops
  rw [List.cons_append]
  conv_lhs => unfold attributes
  split
  · next hnil => simp [htrim] at hnil
  · next d rest hd =>
      obtain ⟨rfl, rfl⟩ := List.cons_eq_cons.1 (htrim.symm.trans hd)
      simp only [hslash, hend, hstart, false_and, if_false, dif_pos]
      split
      · next e he =>
          rw [Text.takeWhile_run hgap hstops] at he
          rw [he, Except.bind]
      · next a ha =>
          rw [Text.takeWhile_run hgap hstops] at ha
          rw [ha, Except.bind]

/-- The attributes that can be derived are read. -/
theorem attributes_of_slots (tag : Text) (start line : Nat)
    (h : Slots startsAttribute gap after t slots) :
    ∃ line', attributes tag start line t = .ok ⟨slots.map Slot.toAttribute, line', after⟩ := by
  induction h generalizing line with
  | close hgap =>
      exact attributes_of_close (Text.dropWhile_run hgap (Text.stopsAt_cons.2 (by decide)))
  | @slot s rest slots hgap hstart hname hfits hrest ih =>
      obtain ⟨line', hone⟩ := oneAttribute_of_slot tag (line + lineEnds s.gap) hname hfits
        fun _ => hrest.head?_ne_equals
      obtain ⟨line'', hmore⟩ := ih line'
      rw [attributes_of_name tag start line _ hgap hstart, hone, Except.bind, hmore]
      exact ⟨line'', rfl⟩

/-- What is written behind a name can be told from what follows it. -/
theorem Written.Fits.unique {w' : Written} {rest' : Text} (hfits : w.Fits) (hfits' : w'.Fits)
    (hrest : rest.head? ≠ some '=') (hrest' : rest'.head? ≠ some '=')
    (h : w.spelled ++ rest = w'.spelled ++ rest') : w = w' ∧ rest = rest' := by
  cases hfits with
  | bare =>
      cases hfits' with
      | bare => exact ⟨rfl, h⟩
      | text => exact absurd (congrArg List.head? h) hrest
      | braces => exact absurd (congrArg List.head? h) hrest
  | @text t ht =>
      cases hfits' with
      | bare => exact absurd (congrArg List.head? h.symm) hrest'
      | @text t' ht' =>
          simp only [spelled, List.cons_append, List.append_assoc, List.nil_append, List.cons.injEq,
            true_and] at h
          have hcut : Text.cutFirst ['"'] (t ++ '"' :: rest) = some (t, rest) :=
            Text.cutFirst_singleton_iff.2 ⟨rfl, ht⟩
          have hcut' : Text.cutFirst ['"'] (t ++ '"' :: rest) = some (t', rest') :=
            Text.cutFirst_singleton_iff.2 ⟨h, ht'⟩
          obtain ⟨rfl, rfl⟩ := Prod.mk.inj (Option.some.inj (hcut.symm.trans hcut'))
          exact ⟨rfl, rfl⟩
      | braces => simp [spelled] at h
  | @braces inner hinner =>
      cases hfits' with
      | bare => exact absurd (congrArg List.head? h.symm) hrest'
      | text => simp [spelled] at h
      | @braces inner' hinner' =>
          simp only [spelled, List.cons_append, List.append_assoc, List.nil_append, List.cons.injEq,
            true_and] at h
          obtain ⟨rfl, rfl⟩ := hinner.unique hinner' h
          exact ⟨rfl, rfl⟩

/-- The attributes of a tag, its end, and what follows it can be told from one another. -/
theorem Slots.unique {gap' after' : Text} {slots' : List Slot}
    (h : Slots startsAttribute gap after t slots) (h' : Slots startsAttribute gap' after' t slots') :
    slots = slots' ∧ gap = gap' ∧ after = after' := by
  have hclose : ∀ {after : Text}, StopsAt Text.isBlank ('/' :: '>' :: after) := fun {_} =>
    Text.stopsAt_cons.2 (by decide)
  -- a name does not begin with the slash that the end of a tag begins with
  have hstart : ∀ {s : Slot} {rest after : Text}, s.name.head?.any startsAttribute →
      '/' :: '>' :: after ≠ s.name ++ (s.written.spelled ++ rest) := by
    intro s rest after hs heq
    cases hname : s.name with
    | nil => simp [hname] at hs
    | cons c name =>
        rw [hname, List.cons_append] at heq
        rw [hname, ← (List.cons_eq_cons.1 heq).1] at hs
        cases hs
  induction h generalizing slots' with
  | close hgap =>
      generalize ht : gap ++ '/' :: '>' :: after = t at h'
      cases h' with
      | close hgap' =>
          obtain ⟨rfl, hend⟩ := Text.eq_of_run hgap hclose hgap' hclose ht
          simp only [List.cons.injEq, true_and] at hend
          exact ⟨rfl, rfl, hend⟩
      | slot hgap' hs hname hfits hrest =>
          obtain ⟨-, hend⟩ := Text.eq_of_run hgap hclose hgap' hname.stopsAt_isBlank ht
          exact absurd hend (hstart hs)
  | @slot s rest slots hgap hs hname hfits hrest ih =>
      generalize ht : s.gap ++ (s.name ++ (s.written.spelled ++ rest)) = t at h'
      cases h' with
      | close hgap' =>
          obtain ⟨-, hend⟩ := Text.eq_of_run hgap hname.stopsAt_isBlank hgap' hclose ht
          exact absurd hend.symm (hstart hs)
      | @slot s' rest' slots' hgap' hs' hname' hfits' hrest' =>
          obtain ⟨hgaps, ht⟩ :=
            Text.eq_of_run hgap hname.stopsAt_isBlank hgap' hname'.stopsAt_isBlank ht
          obtain ⟨hnames, ht⟩ :=
            Text.eq_of_run hname.chars hname.stops hname'.chars hname'.stops ht
          obtain ⟨hwritten, rfl⟩ :=
            hfits.unique hfits' hrest.head?_ne_equals hrest'.head?_ne_equals ht
          obtain ⟨rfl, rfl, rfl⟩ := ih hrest'
          have hslot : s = s' := by
            cases s
            cases s'
            simp_all
          exact ⟨by rw [hslot], rfl, rfl⟩

theorem Capital.head? {name behind : Text} (h : Capital imports)
    (himport : name ∈ imports.map (·.name)) : (name ++ behind).head?.any Char.isUpper := by
  obtain ⟨i, hi, rfl⟩ := List.mem_map.1 himport
  have hi := h i hi
  cases hname : i.name with
  | nil => simp [hname] at hi
  | cons c name => simpa [hname] using hi

/-- A body has one derivation. -/
theorem Body.unique {items' : List Item} (hcapital : Capital imports)
    (h : Body startsAttribute imports t items) (h' : Body startsAttribute imports t items') :
    items = items' := by
  induction h generalizing items' with
  | nil =>
      cases h'
      rfl
  | @char c rest items hbrace htag hrest ih =>
      cases h' with
      | char _ _ hrest' => rw [ih hrest']
      | braces => exact absurd rfl hbrace
      | tag himport hname hslots hrest' => exact absurd ⟨rfl, hcapital.head? himport⟩ htag
  | @braces inner rest items hinner hblank hrest ih =>
      generalize ht : '{' :: (inner ++ '}' :: rest) = t at h'
      cases h' with
      | nil => cases ht
      | char hbrace => exact absurd (List.cons_eq_cons.1 ht).1.symm hbrace
      | braces hinner' hblank' hrest' =>
          obtain ⟨rfl, rfl⟩ := hinner.unique hinner' (List.cons_eq_cons.1 ht).2
          rw [ih hrest']
      | tag => exact absurd (List.cons_eq_cons.1 ht).1 (by decide)
  | @tag name behind gap rest slots items himport hname hslots hrest ih =>
      generalize ht : '<' :: (name ++ behind) = t at h'
      cases h' with
      | nil => cases ht
      | char _ htag =>
          obtain ⟨rfl, rfl⟩ := List.cons_eq_cons.1 ht
          exact absurd ⟨rfl, hcapital.head? himport⟩ htag
      | braces => exact absurd (List.cons_eq_cons.1 ht).1 (by decide)
      | tag _ hname' hslots' hrest' =>
          obtain ⟨rfl, rfl⟩ := Text.eq_of_run hname.chars hname.stops hname'.chars hname'.stops
            (List.cons_eq_cons.1 ht).2
          obtain ⟨rfl, rfl, rfl⟩ := hslots.unique hslots'
          rw [ih hrest']

end Quire.Template
