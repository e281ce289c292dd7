import Mathlib.Data.Option.Basic
import Quire.Proofs.Text.Cuts
import Quire.Template.Header

/-!
The grammar of the header of a template: blank lines, a fence, lines that are blank or say an
import, and a second fence. Main statement: a template is cut in two exactly where its lines begin
with such a header, and not at all where its first line that is not blank is no fence.
-/

namespace Quire.Template

open Text (StopsAt)

/-- Blanks that set the words of an import apart. -/
def IsGap (g : Text) : Prop := g ≠ [] ∧ ∀ c ∈ g, isGap c

/-- What an import line says, its own blanks at both ends left out. -/
inductive IsImport : Text → Import → Prop
  | mk {g₁ name g₂ g₃ path g₄ ending : Text} (hg₁ : IsGap g₁)
      (hfirst : name.head?.any Char.isUpper) (hname : ∀ c ∈ name, isNameChar c) (hg₂ : IsGap g₂)
      (hg₃ : IsGap g₃) (hpath : path ≠ []) (hquote : '"' ∉ path) (hg₄ : ∀ c ∈ g₄, isGap c)
      (hend : ending = [] ∨ ending = [';']) :
      IsImport ("import".toList ++ (g₁ ++ (name ++ (g₂ ++ ("from".toList ++ (g₃ ++
        '"' :: (path ++ '"' :: (g₄ ++ ending)))))))) ⟨name, path⟩

variable {t rest line : Text} {i : Import} {imports seen : List Import} {parts : Parts}

theorem afterGap?_eq_some_iff :
    afterGap? t = some rest ↔ ∃ g, IsGap g ∧ t = g ++ rest ∧ StopsAt isGap rest := by
  constructor
  · intro h
    cases t with
    | nil => cases h
    | cons c t =>
        by_cases hc : isGap c
        · simp only [afterGap?, hc, if_true, Option.some.injEq] at h
          refine ⟨c :: t.takeWhile isGap, ⟨by simp, ?_⟩, ?_, h ▸ Text.stopsAt_dropWhile isGap t⟩
          · intro d hd
            rcases List.mem_cons.1 hd with rfl | hd
            · exact hc
            · exact List.mem_takeWhile_imp hd
          · rw [← h, List.cons_append, List.takeWhile_append_dropWhile]
        · simp [afterGap?, hc] at h
  · rintro ⟨g, ⟨hne, hg⟩, rfl, hstop⟩
    obtain ⟨c, g, rfl⟩ := List.exists_cons_of_ne_nil hne
    have hrest := Text.dropWhile_run (fun d hd => hg d (List.mem_cons_of_mem c hd)) hstop
    simp [afterGap?, hg c List.mem_cons_self, hrest]

theorem isImportEnd_iff : isImportEnd t ↔ ∃ g ending, (∀ c ∈ g, isGap c) ∧
    (ending = [] ∨ ending = [';']) ∧ t = g ++ ending := by
  unfold isImportEnd
  simp only [Bool.or_eq_true, decide_eq_true_eq]
  constructor
  · intro h
    exact ⟨t.takeWhile isGap, t.dropWhile isGap, fun c hc => List.mem_takeWhile_imp hc, h,
      List.takeWhile_append_dropWhile.symm⟩
  · rintro ⟨g, ending, hg, hend, rfl⟩
    have hstop : StopsAt isGap ending := by
      rcases hend with rfl | rfl
      · exact Text.stopsAt_nil
      · exact Text.stopsAt_cons.2 (by decide)
    rwa [Text.dropWhile_run hg hstop]

theorem not_isGap_of_isNameChar {c : Char} (h : isNameChar c) : isGap c = false := by
  have hne : ∀ d, isNameChar d = false → c ≠ d := by
    rintro d hd rfl
    rw [h] at hd
    cases hd
  simp [isGap, hne ' ' (by decide), hne '\t' (by decide)]

theorem not_isNameChar_of_isGap {c : Char} (h : isGap c) : isNameChar c = false := by
  by_contra hname
  rw [not_isGap_of_isNameChar (by simpa using hname)] at h
  cases h

theorem IsGap.stopsAt {g : Text} (hg : IsGap g) : StopsAt isNameChar (g ++ rest) := by
  obtain ⟨c, g, rfl⟩ := List.exists_cons_of_ne_nil hg.1
  exact Text.stopsAt_cons.2 (not_isNameChar_of_isGap (hg.2 c List.mem_cons_self))

/-- A line is read as an import exactly if it says one. -/
theorem ofLine?_eq_some_iff : Import.ofLine? line = some i ↔ IsImport line i := by
  simp only [Import.ofLine?, Option.bind_eq_bind, Option.bind_eq_some_iff, Option.guard_eq_some',
    Option.pure_def, Option.some.injEq, Prod.exists, exists_const, Text.isPrefixOf?_iff]
  constructor
  · rintro ⟨r₁, rfl, r₂, hgap, hfirst, r₃, hgap', r₄, rfl, r₅, hgap'', r₆, rfl, path, r₇, hcut,
      ⟨hpath, hfinish⟩, rfl⟩
    obtain ⟨g₁, hg₁, rfl, -⟩ := afterGap?_eq_some_iff.1 hgap
    obtain ⟨g₂, hg₂, hrest, -⟩ := afterGap?_eq_some_iff.1 hgap'
    obtain ⟨g₃, hg₃, rfl, -⟩ := afterGap?_eq_some_iff.1 hgap''
    obtain ⟨rfl, hquote⟩ := Text.cutFirst_singleton_iff.1 hcut
    obtain ⟨g₄, ending, hg₄, hend, rfl⟩ := isImportEnd_iff.1 hfinish
    have hchars : ∀ c ∈ r₂.takeWhile isNameChar, isNameChar c := fun c hc =>
      List.mem_takeWhile_imp hc
    have hsplit : r₂.takeWhile isNameChar ++ r₂.dropWhile isNameChar = r₂ :=
      List.takeWhile_append_dropWhile
    rw [hrest] at hsplit
    generalize r₂.takeWhile isNameChar = name at hfirst hchars hsplit
    subst hsplit
    exact .mk hg₁ hfirst hchars hg₂ hg₃ hpath hquote hg₄ hend
  · rintro ⟨hg₁, hfirst, hname, hg₂, hg₃, hpath, hquote, hg₄, hend⟩
    rename_i g₁ name g₂ g₃ path g₄ ending
    have hstart : StopsAt isGap (name ++ (g₂ ++ ("from".toList ++ (g₃ ++
        '"' :: (path ++ '"' :: (g₄ ++ ending)))))) := by
      cases name with
      | nil => cases hfirst
      | cons c name => exact Text.stopsAt_cons.2 (not_isGap_of_isNameChar (hname c List.mem_cons_self))
    refine ⟨_, rfl, _, afterGap?_eq_some_iff.2 ⟨g₁, hg₁, rfl, hstart⟩, ?_⟩
    rw [Text.takeWhile_run hname hg₂.stopsAt, Text.dropWhile_run hname hg₂.stopsAt]
    have hfrom : StopsAt isGap ("from".toList ++ (g₃ ++ '"' :: (path ++ '"' :: (g₄ ++ ending)))) :=
      Text.stopsAt_cons.2 (by decide)
    have hopen : StopsAt isGap ('"' :: (path ++ '"' :: (g₄ ++ ending))) :=
      Text.stopsAt_cons.2 (by decide)
    exact ⟨hfirst, _, afterGap?_eq_some_iff.2 ⟨g₂, hg₂, rfl, hfrom⟩, _, rfl, _,
      afterGap?_eq_some_iff.2 ⟨g₃, hg₃, rfl, hopen⟩, _, rfl, path, _,
      Text.cutFirst_singleton_iff.2 ⟨rfl, hquote⟩,
      ⟨hpath, isImportEnd_iff.2 ⟨g₄, ending, hg₄, hend, rfl⟩⟩, rfl⟩

/-- The lines between two fences, and the imports that they say. -/
inductive AreImports : List Text → List Import → Prop
  | nil : AreImports [] []
  | blank {l : Text} {lines : List Text} {imports : List Import} (hl : l.trim = [])
      (hlines : AreImports lines imports) : AreImports (l :: lines) imports
  | line {l : Text} {lines : List Text} {i : Import} {imports : List Import}
      (hl : IsImport l.trim i) (hlines : AreImports lines imports) :
      AreImports (l :: lines) (i :: imports)

/-- Components that are all named with a capital letter first. -/
def Capital (imports : List Import) : Prop := ∀ i ∈ imports, i.name.head?.any Char.isUpper

theorem IsImport.capital (h : IsImport t i) : i.name.head?.any Char.isUpper := by
  cases h with
  | mk _ hfirst => exact hfirst

theorem IsImport.isNameChar (h : IsImport t i) : ∀ c ∈ i.name, isNameChar c := by
  cases h with
  | mk _ _ hname => exact hname

theorem IsImport.path_ne_nil (h : IsImport t i) : i.path ≠ [] := by
  cases h with
  | mk _ _ _ _ _ hpath => exact hpath

/-- Each import stands on a line of its own. -/
theorem AreImports.exists_line {lines : List Text} (h : AreImports lines imports) :
    ∀ i ∈ imports, ∃ t, IsImport t i := by
  induction h with
  | nil => simp
  | blank _ _ ih => exact ih
  | line hmeans _ ih => exact List.forall_mem_cons.2 ⟨⟨_, hmeans⟩, ih⟩

theorem AreImports.capital {lines : List Text} (h : AreImports lines imports) : Capital imports := by
  intro i hi
  obtain ⟨t, hmeans⟩ := h.exists_line i hi
  exact hmeans.capital

theorem IsImport.ne_nil (h : IsImport t i) : t ≠ [] := by
  cases h
  simp

theorem IsImport.ne_fence (h : IsImport t i) : t ≠ fence := by
  cases h
  simp [fence]

theorem AreImports.noFence {lines : List Text} (h : AreImports lines imports) :
    ∀ l ∈ lines, l.trim ≠ fence := by
  induction h with
  | nil => simp
  | blank hl _ ih =>
      intro l hmem
      rcases List.mem_cons.1 hmem with rfl | hmem
      · rw [hl]
        decide
      · exact ih l hmem
  | line hl _ ih =>
      intro l hmem
      rcases List.mem_cons.1 hmem with rfl | hmem
      · exact hl.ne_fence
      · exact ih l hmem

/-- What some lines say is one thing. -/
theorem AreImports.unique {lines : List Text} {imports' : List Import} (h : AreImports lines imports)
    (h' : AreImports lines imports') : imports = imports' := by
  induction h generalizing imports' with
  | nil =>
      cases h'
      rfl
  | blank hl _ ih =>
      cases h' with
      | blank _ hlines => exact ih hlines
      | line hmeans _ => exact absurd hl hmeans.ne_nil
  | line hmeans _ ih =>
      cases h' with
      | blank hl _ => exact absurd hl hmeans.ne_nil
      | line hmeans' hlines =>
          have hsame : some _ = some _ :=
            (ofLine?_eq_some_iff.2 hmeans).symm.trans (ofLine?_eq_some_iff.2 hmeans')
          rw [Option.some.inj hsame, ih hlines]

/-- The lines of a header. -/
structure Header where
  above : List Text
  opening : Text
  lines : List Text
  closing : Text

namespace Header

/-- All lines of a header, one after the other. -/
def all (h : Header) : List Text := h.above ++ h.opening :: (h.lines ++ [h.closing])

/-- Whether lines make a header that imports the given components, each under a name of its own. -/
structure Fits (h : Header) (imports : List Import) : Prop where
  above : ∀ l ∈ h.above, l.trim = []
  opening : h.opening.trim = fence
  between : AreImports h.lines imports
  distinct : (imports.map (·.name)).Nodup
  closing : h.closing.trim = fence

end Header

/-- Whether the first line that is not blank is a fence. -/
def OpensHeader (lines : List Text) : Prop :=
  ∃ above opening rest, lines = above ++ opening :: rest ∧ (∀ l ∈ above, l.trim = []) ∧
    opening.trim = fence

/-- Lines that say imports are gone over, whatever follows them. -/
theorem importLines_append (opening line : Nat) (seen : List Import) {front : List Text}
    (rest : List Text) (hmeans : AreImports front imports)
    (hnodup : ((seen ++ imports).map (·.name)).Nodup) :
    importLines opening line seen (front ++ rest) =
      importLines opening (line + front.length) (seen ++ imports) rest := by
  induction hmeans generalizing line seen with
  | nil => simp
  | @blank l lines imports hl _ ih =>
      have hfence : l.trim ≠ fence := by
        rw [hl]
        decide
      rw [List.cons_append, importLines, if_neg hfence, if_pos hl, ih _ _ hnodup, List.length_cons,
        Nat.add_right_comm, Nat.add_assoc]
  | @line l lines i imports hl _ ih =>
      have hfresh : ¬ seen.any (·.name = i.name) := by
        rw [List.map_append, List.map_cons, List.nodup_append] at hnodup
        intro hany
        obtain ⟨j, hj, hname⟩ := List.any_eq_true.1 hany
        exact hnodup.2.2 _ (List.mem_map_of_mem hj) _ List.mem_cons_self (of_decide_eq_true hname)
      have hnodup' : ((seen ++ [i] ++ imports).map (·.name)).Nodup := by simpa using hnodup
      rw [List.cons_append, importLines, if_neg hl.ne_fence, if_neg hl.ne_nil]
      simp only [ofLine?_eq_some_iff.2 hl, if_neg hfresh]
      rw [ih _ _ hnodup', List.append_assoc, List.singleton_append, List.length_cons,
        Nat.add_right_comm, Nat.add_assoc]

theorem importLines_of_areImports (opening line : Nat) (seen : List Import) {front : List Text}
    {closing : Text} (rest : List Text) (hmeans : AreImports front imports)
    (hclosing : closing.trim = fence) (hnodup : ((seen ++ imports).map (·.name)).Nodup) :
    importLines opening line seen (front ++ closing :: rest) =
      .ok ⟨seen ++ imports, rest.flatten, line + front.length + 1⟩ := by
  rw [importLines_append opening line seen _ hmeans hnodup, importLines, if_pos hclosing]

/-- A name that is new keeps the names apart. -/
theorem nodup_concat (hseen : (seen.map (·.name)).Nodup) (hfresh : ¬ seen.any (·.name = i.name)) :
    ((seen ++ [i]).map (·.name)).Nodup := by
  rw [List.map_append, List.nodup_append]
  refine ⟨hseen, by simp, ?_⟩
  rintro _ hmem _ hlast rfl
  obtain ⟨j, hj, hname⟩ := List.mem_map.1 hmem
  rw [List.map_singleton, List.mem_singleton] at hlast
  exact hfresh (List.any_eq_true.2 ⟨j, hj, decide_eq_true (hname.trans hlast)⟩)

theorem areImports_of_importLines {opening line : Nat} {lines : List Text}
    (hseen : (seen.map (·.name)).Nodup) (h : importLines opening line seen lines = .ok parts) :
    ∃ front closing rest imports, lines = front ++ closing :: rest ∧ AreImports front imports ∧
      Text.trim closing = fence ∧ ((seen ++ imports).map (·.name)).Nodup ∧
      parts = ⟨seen ++ imports, rest.flatten, line + front.length + 1⟩ := by
  fun_induction importLines opening line seen lines with
  | case1 => cases h
  | case2 line seen l rest t hfence =>
      obtain rfl := Except.ok.inj h
      exact ⟨[], l, rest, [], rfl, .nil, hfence, by simpa using hseen, by simp⟩
  | case3 line seen l rest t _ hblank ih =>
      obtain ⟨front, closing, rest, imports, rfl, hmeans, hclosing, hnodup, rfl⟩ := ih hseen h
      refine ⟨l :: front, closing, rest, imports, rfl, .blank hblank hmeans, hclosing, hnodup, ?_⟩
      rw [List.length_cons]
      congr 1
      omega
  | case4 => cases h
  | case5 => cases h
  | case6 line seen l rest t _ _ i hline hfresh ih =>
      obtain ⟨front, closing, rest, imports, rfl, hmeans, hclosing, hnodup, rfl⟩ :=
        ih (nodup_concat hseen hfresh) h
      refine ⟨l :: front, closing, rest, i :: imports, rfl, .line (ofLine?_eq_some_iff.1 hline) hmeans,
        hclosing, by simpa using hnodup, ?_⟩
      rw [List.length_cons, List.append_assoc, List.singleton_append]
      congr 1
      omega

theorem openHeader?_of_opens {line : Nat} {above : List Text} {opening : Text} {rest : List Text}
    (habove : ∀ l ∈ above, Text.trim l = []) (hopening : opening.trim = fence) :
    openHeader? line (above ++ opening :: rest) =
      some (importLines (line + above.length) (line + above.length + 1) [] rest) := by
  induction above generalizing line with
  | nil =>
      have hne : opening.trim ≠ [] := by
        rw [hopening]
        decide
      rw [List.nil_append, openHeader?, if_neg hne, if_pos hopening]
      rfl
  | cons l above ih =>
      have hnext := @ih (line + 1) fun x hx => habove x (List.mem_cons_of_mem l hx)
      rw [List.cons_append, openHeader?, if_pos (habove l List.mem_cons_self), hnext, List.length_cons,
        show line + 1 + above.length = line + (above.length + 1) by omega]

theorem openHeader?_eq_none {line : Nat} {lines : List Text} (h : ¬ OpensHeader lines) :
    openHeader? line lines = none := by
  induction lines generalizing line with
  | nil => rfl
  | cons l lines ih =>
      rw [openHeader?]
      split
      · next hblank =>
          refine ih fun ⟨above, opening, rest, hlines, habove, hopening⟩ => h ?_
          refine ⟨l :: above, opening, rest, by rw [hlines]; rfl, fun x hx => ?_, hopening⟩
          rcases List.mem_cons.1 hx with rfl | hx
          · exact hblank
          · exact habove x hx
      · split
        · next hfence => exact absurd ⟨[], l, lines, rfl, by simp, hfence⟩ h
        · rfl

theorem Header.opens (h : Header) (hfits : h.Fits imports) (rest : List Text) :
    OpensHeader (h.all ++ rest) := by
  refine ⟨h.above, h.opening, h.lines ++ h.closing :: rest, ?_, hfits.above, hfits.opening⟩
  simp [Header.all]

/-- The lines of a header tell where it ends and what it imports. -/
theorem Header.Fits.unique {h h' : Header} {imports' : List Import} {after after' : List Text}
    (hfits : h.Fits imports) (hfits' : h'.Fits imports') (hlines : h.all ++ after = h'.all ++ after') :
    h = h' ∧ imports = imports' ∧ after = after' := by
  obtain ⟨above, opening, lines, closing⟩ := h
  obtain ⟨above', opening', lines', closing'⟩ := h'
  obtain ⟨habove, hopening, hmeans, -, hclosing⟩ := hfits
  obtain ⟨habove', hopening', hmeans', -, hclosing'⟩ := hfits'
  simp only [Header.all, List.append_assoc, List.cons_append, List.nil_append] at hlines
  have hfence : ∀ {l : Text} {after : List Text}, l.trim = fence →
      StopsAt (fun l : Text => decide (l.trim = [])) (l :: after) := fun hl =>
    Text.stopsAt_cons.2 (by simp [hl, fence])
  have hclose : ∀ {l : Text} {after : List Text}, l.trim = fence →
      StopsAt (fun l : Text => decide (l.trim ≠ fence)) (l :: after) := fun hl =>
    Text.stopsAt_cons.2 (by simp [hl])
  obtain ⟨rfl, hbehind⟩ := Text.eq_of_run (by simpa using habove) (hfence hopening)
    (by simpa using habove') (hfence hopening') hlines
  obtain ⟨rfl, hbelow⟩ := List.cons_eq_cons.1 hbehind
  obtain ⟨rfl, hlast⟩ := Text.eq_of_run (by simpa using hmeans.noFence) (hclose hclosing)
    (by simpa using hmeans'.noFence) (hclose hclosing') hbelow
  obtain ⟨rfl, rfl⟩ := List.cons_eq_cons.1 hlast
  exact ⟨rfl, hmeans.unique hmeans', rfl⟩

/-- A template is cut behind its header, or not cut at all. -/
theorem splitHeader_eq_ok_iff {source : Text} : splitHeader source = .ok parts ↔
    (∃ h rest, source.wholeLines = Header.all h ++ rest ∧ h.Fits parts.imports ∧
      parts.body = rest.flatten ∧ parts.bodyLine = h.all.length + 1) ∨
    ¬ OpensHeader source.wholeLines ∧ parts = ⟨[], source, 1⟩ := by
  unfold splitHeader
  constructor
  · intro h
    by_cases hopens : OpensHeader source.wholeLines
    · obtain ⟨above, opening, lines, hlines, habove, hopening⟩ := hopens
      rw [hlines, openHeader?_of_opens habove hopening, Option.getD_some] at h
      obtain ⟨front, closing, rest, imports, rfl, hmeans, hclosing, hnodup, rfl⟩ :=
        areImports_of_importLines (by simp) h
      refine Or.inl ⟨⟨above, opening, front, closing⟩, rest, ?_, ?_, rfl, ?_⟩
      · simp [Header.all, hlines]
      · exact ⟨habove, hopening, hmeans, hnodup, hclosing⟩
      · simp only [Header.all, List.length_append, List.length_cons, List.length_nil]
        omega
    · rw [openHeader?_eq_none hopens, Option.getD_none, Except.ok.injEq] at h
      exact Or.inr ⟨hopens, h.symm⟩
  · rintro (⟨h, rest, hall, hfits, hbody, hline⟩ | ⟨hopens, rfl⟩)
    · have hlines : source.wholeLines = h.above ++ h.opening :: (h.lines ++ h.closing :: rest) := by
        simp [hall, Header.all]
      have hread := importLines_of_areImports (1 + h.above.length) (1 + h.above.length + 1) [] rest
        hfits.between hfits.closing (by simpa using hfits.distinct)
      rw [hlines, openHeader?_of_opens hfits.above hfits.opening, Option.getD_some, hread,
        List.nil_append, ← hbody]
      obtain ⟨imports, body, bodyLine⟩ := parts
      simp only [Header.all, List.length_append, List.length_cons, List.length_nil] at hline
      simp only [Except.ok.injEq, Parts.mk.injEq, true_and]
      omega
    · rw [openHeader?_eq_none hopens, Option.getD_none]

end Quire.Template
