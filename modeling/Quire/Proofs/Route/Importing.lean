import Quire.Proofs.Route.Tabling

/-!
What a script takes from other ones, by its tokens alone. Main statement: `specifiers_render`, since
a table takes the modules of its routes, in their order, and nothing else.
-/

namespace Quire

namespace Script

open Interchange (Value indent separator)
open Text (quoted)

/-- The strings right behind a word that tells where something comes from. `behind` says whether
such a word was passed last. There are at most as many steps as the first text is long. -/
def specifiersFrom (behind : Bool) : (steps : Text) → Text → List Text
  | [], _ => []
  | _ :: n, t =>
    match (token t).1.lexeme with
    | .finish => []
    | .text v _ => if behind then v :: specifiersFrom false n (token t).2
      else specifiersFrom false n (token t).2
    | l => specifiersFrom (l.isWord "import" || l.isWord "from") n (token t).2

/-- The modules that a script names where it takes something from them, as scripts read strings. -/
def specifiers (t : Text) : List Text := specifiersFrom false (' ' :: t) t

variable {behind : Bool} {c : Char} {a b t u w rest steps : Text} {l : Lexeme}

theorem specifiersFrom_text (s : Char) {v : Text} (h : Starts t (.text v false) rest) :
    specifiersFrom behind (s :: steps) t =
      if behind then v :: specifiersFrom false steps rest else specifiersFrom false steps rest := by
  rw [specifiersFrom, h.lexeme, h.rest]

theorem specifiersFrom_other (behind : Bool) (s : Char) (steps : Text) (h : Starts t l rest)
    (htext : ∀ v broken, l ≠ .text v broken) (hfinish : l ≠ .finish) :
    specifiersFrom behind (s :: steps) t =
      specifiersFrom (l.isWord "import" || l.isWord "from") steps rest := by
  rw [specifiersFrom, h.lexeme, h.rest]
  cases l with
  | finish => exact absurd rfl hfinish
  | text v broken => exact absurd rfl (htext v broken)
  | _ => rfl

theorem specifiersFrom_nil : specifiersFrom behind steps [] = [] := by
  cases steps with
  | nil => rfl
  | cons s steps => rfl

theorem specifiersFrom_congr (hlexeme : (token t).1.lexeme = (token u).1.lexeme)
    (hrest : (token t).2 = (token u).2) :
    specifiersFrom behind steps t = specifiersFrom behind steps u := by
  cases steps with
  | nil => rfl
  | cons s steps => rw [specifiersFrom, specifiersFrom, hlexeme, hrest]

theorem specifiersFrom_of_gap (behind : Bool) (gap t steps : Text) (hgap : gap.all isGapChar) :
    specifiersFrom behind steps (gap ++ t) = specifiersFrom behind steps t :=
  specifiersFrom_congr (token_of_gap hgap t).1 (token_of_gap hgap t).2

/-- A text that takes nothing, whatever stands behind it, as long as a word may end there. -/
def Silent (t : Text) : Prop :=
  ∃ count ≤ t.length, ∀ steps u, count ≤ steps.length → Stops u →
    specifiersFrom false steps (t ++ u) = specifiersFrom false (steps.drop count) u

theorem Silent.append (ha : Silent a) (hb : Silent b) (hstops : ∀ u, Stops u → Stops (b ++ u)) :
    Silent (a ++ b) := by
  obtain ⟨m, hm, ha⟩ := ha
  obtain ⟨n, hn, hb⟩ := hb
  refine ⟨m + n, by rw [List.length_append]; omega, fun steps u hsteps hu => ?_⟩
  rw [List.append_assoc, ha steps _ (by omega) (hstops u hu),
    hb _ u (by rw [List.length_drop]; omega) hu, List.drop_drop]

theorem Silent.of_gap (gap : Text) (hgap : gap.all isGapChar) (h : Silent t) :
    Silent (gap ++ t) := by
  obtain ⟨n, hn, h⟩ := h
  refine ⟨n, by rw [List.length_append]; omega, fun steps u hsteps hu => ?_⟩
  rw [List.append_assoc, specifiersFrom_of_gap false gap _ _ hgap, h steps u hsteps hu]

/-- A single token takes nothing, unless it is a word that tells where something comes from. -/
theorem silent_of_starts (hne : t ≠ [])
    (hword : l.isWord "import" = false ∧ l.isWord "from" = false) (hfinish : l ≠ .finish)
    (hbroken : ∀ v, l ≠ .text v true) (h : ∀ u, Stops u → Starts (t ++ u) l u) : Silent t := by
  refine ⟨1, List.length_pos_iff.2 hne, fun steps u hsteps hu => ?_⟩
  obtain ⟨s, steps, rfl⟩ := List.exists_cons_of_length_pos hsteps
  cases l with
  | text v broken =>
      cases broken with
      | true => exact absurd rfl (hbroken v)
      | false => exact specifiersFrom_text s (h u hu)
  | _ =>
      rw [specifiersFrom_other false s steps (h u hu) (fun _ _ => Lexeme.noConfusion) hfinish,
        hword.1, hword.2]
      rfl

theorem silent_quoted (t : Text) : Silent (quoted t) :=
  silent_of_starts (List.cons_ne_nil _ _) ⟨rfl, rfl⟩ Lexeme.noConfusion (by simp)
    fun _ _ => starts_quoted t _

theorem silent_word (hc : c.isAlpha) (hw : w.all isWordPart)
    (hne : c :: w ≠ "import".toList ∧ c :: w ≠ "from".toList) : Silent (c :: w) :=
  silent_of_starts (l := .word (c :: w) false) (List.cons_ne_nil _ _)
    ⟨decide_eq_false hne.1, decide_eq_false hne.2⟩ Lexeme.noConfusion
    (fun _ => Lexeme.noConfusion) fun _ hu => starts_word hc hw hu

theorem silent_mark (h : ∀ u, Stops u → Starts (c :: u) (.mark [c]) u) : Silent [c] :=
  silent_of_starts (List.cons_ne_nil _ _) ⟨rfl, rfl⟩ Lexeme.noConfusion
    (fun _ => Lexeme.noConfusion) h

theorem silent_nil : Silent [] := ⟨0, Nat.le_refl 0, fun _ _ _ _ => rfl⟩

theorem Silent.assigned (h : Silent t) : Silent ('=' :: ' ' :: t) := by
  obtain ⟨n, hn, h⟩ := h
  refine ⟨n + 1, by simp only [List.length_cons]; omega, fun steps u hsteps hu => ?_⟩
  obtain ⟨s, steps, rfl⟩ := List.exists_cons_of_length_pos (Nat.zero_lt_of_lt hsteps)
  have hstarts : Starts ('=' :: ' ' :: (t ++ u)) (.mark ['=']) (' ' :: (t ++ u)) :=
    starts_of_isSolid (by decide) _
  have hequals := specifiersFrom_other false s steps hstarts
    (fun _ _ => Lexeme.noConfusion) Lexeme.noConfusion
  have hgap := specifiersFrom_of_gap false [' '] (t ++ u) steps rfl
  exact hequals.trans (hgap.trans (h steps u (Nat.le_of_succ_le_succ hsteps) hu))

/-- What a word ends before in the notation. -/
theorem stops_of_mem (hc : c ∈ [' ', '\n', ',', ':', ';', ']', '}']) (u : Text) :
    Stops (c :: u) := by
  have hall : [' ', '\n', ',', ':', ';', ']', '}'].all fun x => x ≠ '\\' && !isWordPart x := by
    decide
  intro x hx
  obtain rfl := Option.mem_some.1 hx
  simpa using List.all_eq_true.1 hall c hc

theorem stops_indent (hc : c ∈ [' ', '\n', ',', ':', ';', ']', '}']) (level : Nat) (u : Text) :
    Stops (indent level ++ c :: u) := by
  cases level with
  | zero => exact stops_of_mem hc u
  | succ level => exact stops_of_mem (by decide) _

theorem silent_lined (depth : Nat) {ts : List Text} (h : ∀ t ∈ ts, Silent t) :
    Silent (lined depth ts) := by
  induction ts with
  | nil => exact silent_nil
  | cons t ts ih =>
      have hrest := ih fun t' h' => h t' (List.mem_cons_of_mem t h')
      have hline : Silent (t ++ (separator ts.isEmpty ++ lined depth ts)) := by
        cases ts with
        | nil =>
            exact (h t List.mem_cons_self).append (hrest.of_gap ['\n'] rfl)
              fun u _ => stops_of_mem (by decide) _
        | cons t' ts =>
            have hcomma : Silent [','] := silent_mark fun u _ => starts_comma u
            refine (h t List.mem_cons_self).append (hcomma.append (hrest.of_gap ['\n'] rfl)
              fun u _ => stops_of_mem (by decide) _) fun u _ => stops_of_mem (by decide) _
      simpa only [lined, List.append_assoc] using hline.of_gap _ (all_isGapChar_indent depth)

/-- Items between marks take nothing if none of them does. -/
theorem silent_body {d : Char} (level : Nat) {ts : List Text} (hopen : d = '[' ∨ d = '{')
    (hclose : c = ']' ∨ c = '}') (h : ∀ t ∈ ts, Silent t) : Silent (d :: body level ts c []) := by
  have hfirst : Silent [d] := silent_mark fun u _ => by
    rcases hopen with rfl | rfl <;> exact starts_of_isSolid (by decide) u
  have hlast : Silent [c] := silent_mark fun u _ => by
    rcases hclose with rfl | rfl <;> exact starts_of_isSolid (by decide) u
  have hmem : c ∈ [' ', '\n', ',', ':', ';', ']', '}'] := by
    rcases hclose with rfl | rfl <;> decide
  cases ts with
  | nil => exact hfirst.append hlast fun u _ => stops_of_mem hmem u
  | cons t ts =>
      have hend := hlast.of_gap _ (all_isGapChar_indent level)
      have hitems := (silent_lined (level + 1) h).append hend fun u _ => by
        rw [List.append_assoc]
        exact stops_indent hmem level _
      exact hfirst.append (hitems.of_gap ['\n'] rfl) fun u _ => stops_of_mem (by decide) _

/-- An array takes nothing if its items do not. -/
theorem silent_array (level : Nat) {items : List Value}
    (h : ∀ v ∈ items, Silent (v.write (level + 1))) : Silent ((Value.array items).write level) := by
  rw [← List.append_nil ((Value.array items).write level), write_array]
  refine silent_body level (.inl rfl) (.inl rfl) fun t ht => ?_
  obtain ⟨v, hv, rfl⟩ := List.mem_map.1 ht
  exact h v hv

/-- An object takes nothing if the values of its fields do not. -/
theorem silent_object (level : Nat) {fields : List (Text × Value)}
    (h : ∀ f ∈ fields, Silent (f.2.write (level + 1))) :
    Silent ((Value.object fields).write level) := by
  rw [← List.append_nil ((Value.object fields).write level), write_object]
  refine silent_body level (.inr rfl) (.inr rfl) fun t ht => ?_
  obtain ⟨f, hf, rfl⟩ := List.mem_map.1 ht
  have hcolon : Silent [':'] := silent_mark fun u _ => starts_of_isSolid (by decide) u
  have hvalue := hcolon.append ((h f hf).of_gap [' '] rfl) fun u _ => stops_of_mem (by decide) _
  simpa using (silent_quoted f.1).append hvalue fun u _ => stops_of_mem (by decide) _

end Script

namespace Route

open Script
open Interchange (Value)
open Text (quoted)

variable {t u steps binding reference ext : Text}

theorem IsBinding.silent (h : IsBinding t) : Silent t := by
  have hne : t ≠ "import".toList ∧ t ≠ "from".toList := ⟨h.ne (by decide), h.ne (by decide)⟩
  obtain ⟨c, w, rfl, hc, hw⟩ := h.exists_cons
  exact silent_word hc hw hne

theorem silent_null : Silent "null".toList := silent_word (by decide) (by decide) (by decide)

theorem silent_tableEntry (level n : Nat) (route : Route) :
    Silent ((tableEntry route n).write level) := by
  refine silent_object level fun f hf => ?_
  simp only [List.mem_cons, List.not_mem_nil, or_false] at hf
  rcases hf with rfl | rfl | rfl
  · exact silent_quoted _
  · exact (isBinding_page n).silent
  · cases route.layout with
    | none => exact silent_null
    | some layout => exact (isBinding_layout n).silent

theorem silent_metadataEntry (level : Nat) (route : Route) :
    Silent ((metadataEntry route).write level) := by
  refine silent_object level fun f hf => ?_
  simp only [List.mem_cons, List.not_mem_nil, or_false] at hf
  rcases hf with rfl | rfl | rfl
  · exact silent_quoted _
  · exact silent_quoted _
  · cases route.layout with
    | none => exact silent_null
    | some layout => exact silent_quoted layout

/-- A declaration takes nothing if its value does not. -/
theorem silent_declaration {name v : Text} (hname : Silent name) (hv : Silent v) (hu : Silent u)
    (hstops : ∀ x, Stops x → Stops (u ++ x)) :
    Silent ("export".toList ++ ' ' :: ("const".toList ++ ' ' :: declarationTail name v u)) := by
  have hexport : Silent "export".toList := silent_word (by decide) (by decide) (by decide)
  have hconst : Silent "const".toList := silent_word (by decide) (by decide) (by decide)
  have hsemicolon : Silent [';'] := silent_mark fun u _ => starts_of_isSolid (by decide) u
  have hvalue := hv.append (hsemicolon.append hu hstops) fun x _ => stops_of_mem (by decide) _
  have hnamed := hname.append (hvalue.assigned.of_gap [' '] rfl) fun x _ =>
    stops_of_mem (by decide) _
  have hfixed := hconst.append (hnamed.of_gap [' '] rfl) fun x _ => stops_of_mem (by decide) _
  exact hexport.append (hfixed.of_gap [' '] rfl) fun x _ => stops_of_mem (by decide) _

theorem silent_declarations (routes : List Route) : Silent (declarations routes) := by
  have hroutes : Silent "routes".toList := silent_word (by decide) (by decide) (by decide)
  have hmetadata : Silent "metadata".toList := silent_word (by decide) (by decide) (by decide)
  have hend : Silent ['\n'] := silent_nil.of_gap ['\n'] rfl
  refine silent_declaration hroutes ?_ ((silent_declaration hmetadata ?_ hend fun x _ =>
    stops_of_mem (by decide) _).of_gap ['\n', '\n'] rfl) fun x _ => stops_of_mem (by decide) _
  · refine silent_array 0 fun v hv => ?_
    obtain ⟨⟨route, n⟩, -, rfl⟩ := List.mem_map.1 hv
    exact silent_tableEntry 1 n route
  · refine silent_object 0 fun f hf => ?_
    simp only [List.mem_cons, List.not_mem_nil, or_false] at hf
    rcases hf with rfl | rfl
    · exact silent_quoted _
    · refine silent_array 1 fun v hv => ?_
      obtain ⟨route, -, rfl⟩ := List.mem_map.1 hv
      exact silent_metadataEntry 2 route

/-- A word is passed by, and what it tells is remembered. -/
theorem specifiersFrom_word (s : Char) (h : Starts t (.word w false) u) :
    specifiersFrom behind (s :: steps) t =
      specifiersFrom (w = "import".toList ∨ w = "from".toList) steps u := by
  rw [specifiersFrom_other behind s steps h (fun _ _ => Lexeme.noConfusion) Lexeme.noConfusion]
  simp [Lexeme.isWord]

/-- An import takes the module that it names. -/
theorem specifiersFrom_import (spec : Text) (hbinding : IsBinding binding)
    (hsteps : 5 ≤ steps.length) :
    specifiersFrom false steps ("import".toList ++ ' ' :: importTail spec binding u) =
      spec :: specifiersFrom false (steps.drop 5) u := by
  obtain ⟨c₁, c₂, c₃, c₄, c₅, steps, rfl⟩ : ∃ c₁ c₂ c₃ c₄ c₅ more,
      steps = c₁ :: c₂ :: c₃ :: c₄ :: c₅ :: more := by
    match steps, hsteps with
    | c₁ :: c₂ :: c₃ :: c₄ :: c₅ :: more, _ => exact ⟨c₁, c₂, c₃, c₄, c₅, more, rfl⟩
  have himport : ∀ x, Starts ("import".toList ++ ' ' :: x) (.word "import".toList false)
      (' ' :: x) := starts_plain (by decide)
  have hname : ∀ x, Starts (' ' :: (binding ++ ' ' :: x)) (.word binding false) (' ' :: x) :=
    fun x => (hbinding.starts (stops_blank x)).of_gap [' '] rfl
  have hfrom : ∀ x, Starts (' ' :: ("from".toList ++ ' ' :: x)) (.word "from".toList false)
      (' ' :: x) := fun x => (starts_plain (k := "from".toList) (by decide) x).of_gap [' '] rfl
  have htext : ∀ x, Starts (' ' :: (quoted spec ++ x)) (.text spec false) x :=
    fun x => (starts_quoted spec x).of_gap [' '] rfl
  have hend : ∀ x, Starts (';' :: x) (.mark [';']) x := starts_of_isSolid (by decide)
  have hnot : ¬ (binding = "import".toList ∨ binding = "from".toList) :=
    not_or.2 ⟨hbinding.ne (by decide), hbinding.ne (by decide)⟩
  rw [importTail, specifiersFrom_word c₁ (himport _), specifiersFrom_word c₂ (hname _),
    specifiersFrom_word c₃ (hfrom _), specifiersFrom_text c₄ (htext _),
    specifiersFrom_other false c₅ steps (hend _) (fun _ _ => Lexeme.noConfusion) Lexeme.noConfusion]
  simp [Lexeme.isWord]

/-- Imports take the modules that they name, one after the other. -/
theorem specifiersFrom_imports (ext u steps : Text) (imports : List (Text × Text))
    (hbindings : ∀ i ∈ imports, IsBinding i.1) (hsteps : 5 * imports.length ≤ steps.length) :
    specifiersFrom false steps (importText ext imports ++ u) =
      imports.map (moduleSpecifier ext ·.2) ++
        specifiersFrom false (steps.drop (5 * imports.length)) u := by
  induction imports generalizing steps with
  | nil => rfl
  | cons i imports ih =>
      rw [List.length_cons] at hsteps ⊢
      have hgap := specifiersFrom_of_gap false ['\n'] (importText ext imports ++ u)
        (steps.drop 5) rfl
      have hrest := ih (steps.drop 5) (fun i h => hbindings i (List.mem_cons_of_mem _ h))
        (by rw [List.length_drop]; omega)
      rw [List.singleton_append] at hgap
      rw [importText_cons_append,
        specifiersFrom_import _ (hbindings i List.mem_cons_self) (by omega), hgap, hrest,
        List.drop_drop, Nat.mul_succ, Nat.add_comm 5, List.map_cons, List.cons_append]

/-- What the table of some routes takes: their pages and layouts, in their order. -/
theorem map_importsOf (ext : Text) (routes : List Route) :
    (importsOf routes).map (moduleSpecifier ext ·.2) =
      routes.flatMap fun r => (r.page :: r.layout.toList).map (moduleSpecifier ext) := by
  have hfirst : routes = routes.zipIdx.map Prod.fst := (List.zipIdx_map_fst 0 routes).symm
  conv_rhs => rw [hfirst, List.flatMap_map]
  rw [importsOf, List.map_flatMap]
  simp [Function.comp_def]

/-- A table takes the modules of its routes, in their order, and nothing else. -/
theorem specifiers_render (ext : Text) (routes : List Route) :
    specifiers (render ext routes) =
      routes.flatMap fun r => (r.page :: r.layout.toList).map (moduleSpecifier ext) := by
  obtain ⟨gap, hgap, hrender⟩ : ∃ gap : Text, gap.all isGapChar ∧ render ext routes =
      tableHead ++ '\n' :: (importText ext (importsOf routes) ++ (gap ++ declarations routes)) := by
    refine ⟨if routes.isEmpty then [] else ['\n'], ?_, render_eq ext routes⟩
    cases routes.isEmpty <;> decide
  obtain ⟨count, hcount, hdeclarations⟩ := silent_declarations routes
  have hlength := length_le_length_imports ext (gap ++ declarations routes) (importsOf routes)
  rw [List.length_append] at hlength
  obtain ⟨steps, hsteps⟩ : ∃ steps, steps = ' ' :: render ext routes := ⟨_, rfl⟩
  have hlong : 5 * (importsOf routes).length + count ≤ steps.length := by
    rw [hsteps, hrender, List.length_cons, List.length_append, List.length_cons]
    omega
  have hhead : specifiersFrom false steps (render ext routes) = specifiersFrom false steps
      (importText ext (importsOf routes) ++ (gap ++ declarations routes)) := by
    obtain ⟨hlexeme, hrest⟩ := token_of_comment (t := headNote) (by decide)
      ('\n' :: (importText ext (importsOf routes) ++ (gap ++ declarations routes)))
    rw [hrender, tableHead_append, specifiersFrom_congr hlexeme hrest]
    exact specifiersFrom_of_gap false ['\n'] _ steps rfl
  have hend := hdeclarations (steps.drop (5 * (importsOf routes).length)) []
    (by rw [List.length_drop]; omega) (by simp [Stops])
  rw [List.append_nil, specifiersFrom_nil, ← specifiersFrom_of_gap _ gap _ _ hgap] at hend
  rw [specifiers, ← hsteps, hhead, specifiersFrom_imports ext _ steps _
    (fun i => isBinding_of_mem_importsOf) (by omega), hend, List.append_nil, map_importsOf]

end Route

end Quire
