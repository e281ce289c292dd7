import Quire.Proofs.Build.Locating
import Quire.Proofs.Interchange.Statements
import Quire.Proofs.Path.Inside
import Quire.Proofs.Template.Closure

/-!
What the module of a template imports for the server. The path of an import is kept as it is
declared, but for the extension at its end; so it leads to the module of the imported template only
where the path is relative, stays below the source, and ends in the name of the template. Main
statement: `loads_of_isPlain`.
-/

namespace Quire

namespace Template

open Interchange (readImport IsWord)

variable {ext : Extensions} {i : Import} {moduleId source code a stem name : Text} {made : Module}
  {s : Source}

/-- What a module imports: the names, each with the module that it is for. -/
def importsIn (code : Text) : List (Text × Text) :=
  (importLinesOf code).filterMap fun line => (readImport line).map Prod.fst

theorem isWordPart_of_isNameChar {c : Char} (h : isNameChar c) : Script.isWordPart c := by
  rcases Bool.or_eq_true_iff.1 h with h | h
  · rcases Bool.or_eq_true_iff.1 h with h | h
    · simp [Script.isWordPart, Script.isWordStart, Script.toNat_lt_of_isAlpha h, h]
    · simp [Script.isWordPart, Script.toNat_lt_of_isDigit h, h]
  · rw [of_decide_eq_true h]
    decide

theorem isWord_of_isImport {t : Text} (h : IsImport t i) : IsWord i.name where
  parts c hc := isWordPart_of_isNameChar (h.isNameChar c hc)
  start := by
    have hcapital := h.capital
    cases hhead : i.name.head? with
    | none => simp [hhead] at hcapital
    | some c =>
        have halpha : c.isAlpha := by
          rw [hhead] at hcapital
          exact Bool.or_eq_true_iff.2 (.inl hcapital)
        simp [Script.isWordStart, Script.toNat_lt_of_isAlpha halpha, halpha]

theorem readImport_line {t : Text} (h : IsImport t i) :
    readImport (i.line ext) = some ((i.name, ext.specifier i.path), ['\n']) := by
  have htext : i.line ext = "import".toList ++ ' ' :: (i.name ++ ' ' :: ("from".toList ++ ' ' ::
      (Text.quoted (ext.specifier i.path) ++ [';', '\n']))) := by
    have himport : "import ".toList = "import".toList ++ [' '] := by decide
    have hfrom : " from ".toList = ' ' :: ("from".toList ++ [' ']) := by decide
    have hend : ";\n".toList = [';', '\n'] := by decide
    unfold Import.line
    simp only [himport, hfrom, hend, List.append_assoc, List.cons_append, List.nil_append]
  rw [htext]
  exact Interchange.readImport_statement (List.forall_mem_nil _) (isWord_of_isImport h) _ _

/-- Each import with a use on the server is an import of the module. -/
theorem mem_importsIn (hmade : compile ext moduleId source = .ok made)
    (hread : read source = .ok s) (hi : i ∈ s.imports) {attributes : List Attribute}
    (huse : .component i.name attributes false ∈ s.pieces) :
    (i.name, ext.specifier i.path) ∈ importsIn made.code := by
  obtain ⟨s', hs', rfl⟩ := map_eq_ok_iff.1 hmade
  obtain rfl := Except.ok.inj (hread.symm.trans hs')
  obtain ⟨-, hlines⟩ := imports_of_read hread
  have hused : i ∈ serverImports s.imports s.pieces :=
    List.mem_filter.2 ⟨hi, exists_serverUse.2 ⟨attributes, huse⟩⟩
  obtain ⟨t, ht⟩ := hlines i hi
  refine List.mem_filterMap.2 ⟨i.line ext, ?_, by rw [readImport_line ht]; rfl⟩
  rw [importLinesOf_generate (isNameChar_of_read hread)]
  exact List.mem_map_of_mem hused

theorem specifier_append (a stem : Text) :
    ext.specifier (a ++ (stem ++ '.' :: ext.template)) = a ++ (stem ++ '.' :: ext.module) := by
  have hcut : Text.cutEnd? ('.' :: ext.template) (a ++ (stem ++ '.' :: ext.template)) =
      some (a ++ stem) := by
    rw [← List.append_assoc, Text.cutEnd?, if_pos (List.isSuffixOf_iff_suffix.2 ⟨_, rfl⟩),
      List.length_append, Nat.add_sub_cancel, List.take_left]
  rw [Extensions.specifier, hcut]
  exact List.append_assoc a stem _

end Template

namespace Build

open Quire.Path (Ordinary)
open Template (Extensions Import importsIn)

variable {pass : Pass} {output p rest : Path} {dir names : List Text} {n stem text : Text}
  {i : Import}

/-- Whether scripts take a specifier to be relative. -/
def isRelative (specifier : Text) : Bool :=
  "./".toList.isPrefixOf specifier || "../".toList.isPrefixOf specifier

/-- Whether a module at one path imports the module at another under a name: by a relative specifier
that leads there from the directory of the first. -/
def loads (code name : Text) (source target : Path) : Bool :=
  (importsIn code).any fun i => i.1 = name && isRelative i.2 &&
    source.parent?.any fun dir => dir.resolve ⟨i.2⟩ = target.normalize

/-- A path that a template of a directory is declared with is relative, stays below the source, and
ends in the name of the template, whose stem is not a single dot. -/
structure IsPlain (ext : Extensions) (dir : List Text) (path : Text) (target : Path) : Prop where
  relative : isRelative path
  stays : Path.stays dir (Path.mk path).inner
  last : (Path.mk path).fields.getLast? = target.fileName?
  stem : target.fileName? ≠ some ('.' :: '.' :: ext.template)

theorem isRelative_iff {t : Text} :
    isRelative t ↔ ['.'] ++ ['/'] <+: t ∨ ['.', '.'] ++ ['/'] <+: t := by
  rw [isRelative, Bool.or_eq_true, List.isPrefixOf_iff_prefix, List.isPrefixOf_iff_prefix]
  exact Iff.rfl

theorem not_isAbsolute_of_isRelative {t : Text} (h : isRelative t) : ¬ (Path.mk t).isAbsolute := by
  rcases isRelative_iff.1 h with ⟨u, rfl⟩ | ⟨u, rfl⟩ <;> exact Bool.false_ne_true

/-- Whether a path is relative is up to the front of its last stretch. -/
theorem isRelative_append {a m : Text} (h : isRelative (a ++ n)) (hn : '/' ∉ n) :
    isRelative (a ++ m) := by
  rcases isRelative_iff.1 h with h | h
  · have ha := (Path.isPrefix_of_isPrefix_append h hn).trans (List.prefix_append a m)
    exact isRelative_iff.2 (.inl ha)
  · have ha := (Path.isPrefix_of_isPrefix_append h hn).trans (List.prefix_append a m)
    exact isRelative_iff.2 (.inr ha)

/-- The directory of what is below a root in a directory. -/
theorem parent?_below {root : Path} (hroot : root.isAbsolute) (hnames : ∀ m ∈ dir, Ordinary m)
    (hn : '/' ∉ n) (hidle : ¬ Path.isIdle n) :
    ∃ above, ((below root dir).child n).parent? = some above ∧ above.isAbsolute ∧
      above.place = root.place ++ dir := by
  have hbelow := isAbsolute_below hroot dir
  exact ⟨_, Path.parent?_child hbelow hn hidle, Path.isAbsolute_trimmed hbelow,
    (Path.place_trimmed hbelow).trans (place_below hroot hnames)⟩

theorem place_dirOf_below (hroot : pass.root.isAbsolute) (hnames : ∀ m ∈ dir, Ordinary m)
    (hn : Ordinary n) :
    (pass.dirOf (below pass.root (dir ++ [n]))).place = pass.root.place ++ dir := by
  obtain ⟨above, habove, -, hplace⟩ := parent?_below hroot hnames hn.noSlash hn.not_isIdle
  have hdirOf : pass.dirOf (below pass.root (dir ++ [n])) = above := by
    rw [Pass.dirOf, below_concat, habove]
    rfl
  rw [hdirOf, hplace]

/-- What is below a root by a path that stays there is where the steps of the path lead. -/
theorem exists_names_of_stays {root base : Path} (hroot : root.isAbsolute)
    (hbase : base.isAbsolute) (hplace : base.place = root.place ++ dir) (hp : ¬ p.isAbsolute)
    (hstays : Path.stays dir p.inner) (hrest : Path.containment root (base.resolve p) = some rest) :
    ∃ names, names ≠ [] ∧ (∀ m ∈ names, Ordinary m) ∧ rest = relativePath names ∧
      names = Path.placeFrom dir p.inner := by
  have habs := Path.isAbsolute_resolve hbase p
  obtain ⟨names, hne, hnames, rfl⟩ := (Path.containment_eq_some_iff hroot habs).1 hrest
  have hway : ∀ s ∈ p.inner, s.IsWay := fun s hs => Path.isWay_of_mem_inner hs
  refine ⟨names, hne, fun m hm => ?_, rfl, ?_⟩
  · exact Path.ordinary_of_mem_place habs m (hnames ▸ List.mem_append_right _ hm)
  · rw [Path.place_resolve hbase hp, hplace, Path.placeFrom_append_of_stays hway hstays] at hnames
    exact (List.append_cancel_left hnames).symm

/-- A name with the extension of templates, as it is with that of modules. -/
theorem renamed_of_nameParts {ext : Extensions} (hn : Ordinary (stem ++ '.' :: ext.template))
    (hparts : Path.nameParts (stem ++ '.' :: ext.template) = (stem, some ext.template))
    (hdot : stem ≠ ['.']) (hslash : '/' ∉ ext.module) (hmodule : ext.module ≠ []) :
    Path.renamed (stem ++ '.' :: ext.template) ext.module = stem ++ '.' :: ext.module ∧
      Ordinary (stem ++ '.' :: ext.module) := by
  have hrenamed : Path.renamed (stem ++ '.' :: ext.template) ext.module =
      stem ++ '.' :: ext.module := by
    simp [Path.renamed, hparts, hdot, Path.dotted, hmodule]
  refine ⟨hrenamed, ?_⟩
  rcases Path.renamed_cases hn hslash with h | h
  · rwa [hrenamed] at h
  · -- a stem and an extension that both have a character are more than two dots
    have hstem := (Path.nameParts_eq_some hparts).2.2
    have hlength := congrArg List.length (hrenamed.symm.trans h)
    have hpos := List.length_pos_iff.2 hstem
    have hpos' := List.length_pos_iff.2 hmodule
    simp only [List.length_append, List.length_cons, List.length_nil] at hlength
    omega

/-- What a plain path is made of: steps that stay below the source, and the name of the template,
which becomes that of the module. -/
structure Parts (ext : Extensions) (dir : List Text) (path : Text) (names : List Text)
    (steps : List Path.Step) (m : Text) : Prop where
  names : names = Path.placeFrom dir steps ++ [m]
  way : ∀ s ∈ steps, s.IsWay
  stays : Path.stays dir steps
  ordinary : Ordinary (Path.renamed m ext.module)
  inner : (Path.mk (ext.specifier path)).inner = steps ++ [.name (Path.renamed m ext.module)]
  relative : isRelative (ext.specifier path)

theorem IsPlain.exists_parts {ext : Extensions} {path : Text} (hslash : '/' ∉ ext.module)
    (hmodule : ext.module ≠ []) (hnames : ∀ m ∈ names, Ordinary m) (hne : names ≠ [])
    (hplace : names = Path.placeFrom dir (Path.mk path).inner)
    (htemplate : (relativePath names).extension? = some ext.template)
    (h : IsPlain ext dir path (relativePath names)) :
    ∃ steps m, Parts ext dir path names steps m := by
  obtain ⟨front, m, rfl⟩ := (List.eq_nil_or_concat' names).resolve_left hne
  have hm : Ordinary m := hnames m (by simp)
  have hpath : relativePath (front ++ [m]) = (relativePath front).child m := by
    rw [relativePath, List.map_append, List.map_singleton, Path.ofSteps_concat]
    rfl
  obtain ⟨hrelative, hstays, hlast, hstem⟩ := h
  rw [hpath, Path.extension?_child _ hm] at htemplate
  rw [hpath, Path.fileName?_child _ hm] at hlast hstem
  have hparts : Path.nameParts m = ((Path.nameParts m).1, some ext.template) :=
    Prod.ext rfl htemplate
  generalize (Path.nameParts m).1 = stem at hparts
  obtain ⟨rfl, -, -⟩ := Path.nameParts_eq_some hparts
  have hdot : stem ≠ ['.'] := by
    rintro rfl
    exact hstem rfl
  obtain ⟨hrenamed, hordinary⟩ := renamed_of_nameParts hm hparts hdot hslash hmodule
  obtain ⟨a, ha, htext, -⟩ := Path.exists_front_of_getLast? hlast
  obtain ⟨steps, hway, hinner⟩ := ha.exists_inner
  have hspecifier : ext.specifier path = a ++ (stem ++ '.' :: ext.module) := by
    have hpathText : path = a ++ (stem ++ '.' :: ext.template) := htext
    rw [hpathText, Template.specifier_append]
  have hsteps : (Path.mk path).inner = steps ++ [.name (stem ++ '.' :: ext.template)] := by
    rw [← hinner _ hm, ← htext]
  rw [hsteps] at hplace hstays
  rw [Path.placeFrom_append] at hplace
  refine ⟨steps, _, ⟨hplace, hway, Path.stays_append_left hstays, ?_, ?_, ?_⟩⟩
  · rwa [hrenamed]
  · rw [hspecifier, hinner _ hordinary, hrenamed]
  · rw [hspecifier]
    have hpathText : path = a ++ (stem ++ '.' :: ext.template) := htext
    exact isRelative_append (hpathText ▸ hrelative) hm.noSlash

/-- What a plain path becomes leads from the module of the template that declares it to the module
of the template that it leads to. -/
theorem Parts.resolve {ext : Extensions} {path m : Text} {steps : List Path.Step} {above : Path}
    (h : Parts ext dir path names steps m) (hout : output.isAbsolute)
    (habove : above.isAbsolute) (hplace : above.place = output.place ++ dir)
    (hfront : ∀ n ∈ Path.placeFrom dir steps, Ordinary n) :
    above.resolve ⟨ext.specifier path⟩ =
      ((below output (Path.placeFrom dir steps)).child (Path.renamed m ext.module)).normalize := by
  have hbelow := isAbsolute_below hout (Path.placeFrom dir steps)
  have hstep : ∀ (start : List Text) (n : Text),
      Path.placeFrom start [.name n] = start ++ [n] := fun _ _ => rfl
  rw [Path.resolve_eq_ofNames habove (not_isAbsolute_of_isRelative h.relative), hplace, h.inner,
    Path.placeFrom_append, Path.placeFrom_append_of_stays h.way h.stays, hstep,
    Path.normalize_of_isAbsolute (Path.isAbsolute_child hbelow _),
    Path.place_child hbelow h.ordinary, place_below hout hfront]

/-- Where imports are declared by plain paths, the module of a template imports the modules of other
templates from where the walk writes them, and a use of one of them in the browser loads the same
module. -/
theorem loads_of_isPlain {moduleId : Text} {made : Template.Module} {s : Template.Source}
    {attributes : List Template.Attribute} (hroot : pass.root.isAbsolute)
    (hout : output.isAbsolute) (hslash : '/' ∉ pass.ext.module) (hmodule : pass.ext.module ≠ [])
    (hdir : ∀ m ∈ dir ++ [n], Ordinary m)
    (hmade : Template.compile pass.ext moduleId text = .ok made)
    (hread : Template.read text = .ok s) (hi : i ∈ s.imports)
    (huse : .component i.name attributes false ∈ s.pieces)
    (hrest : Path.containment pass.root
      ((pass.dirOf (below pass.root (dir ++ [n]))).resolve ⟨i.path⟩) = some rest)
    (htemplate : rest.extension? = some pass.ext.template)
    (hplain : IsPlain pass.ext dir i.path rest) :
    ∃ source target, pass.outputPath (relativePath (dir ++ [n])) output = .ok source ∧
      pass.outputPath rest output = .ok target ∧ loads made.code i.name source target ∧
      ∀ id, ∃ r, pass.reference (pass.dirOf (below pass.root (dir ++ [n]))) ⟨id, i.name, i.path⟩ =
        .ok r ∧ (output.join ⟨r.importPath⟩).normalize = target.normalize := by
  obtain ⟨hdir, hn⟩ := List.forall_mem_append.1 hdir
  rw [List.forall_mem_singleton] at hn
  have hbelow := isAbsolute_below hroot (dir ++ [n])
  have hbase := isAbsolute_dirOf hroot hbelow
  have hp := Path.isAbsolute_resolve hbase ⟨i.path⟩
  obtain ⟨target, htarget, hsame⟩ := outputPath_of_containment hroot hout hslash hp hrest
  have himportPath := importPath_of_containment hroot hslash hp hrest htemplate
  obtain ⟨names, hne, hnames, rfl, hinside⟩ := exists_names_of_stays hroot hbase
    (place_dirOf_below hroot hdir hn) (not_isAbsolute_of_isRelative hplain.relative) hplain.stays
    hrest
  obtain ⟨steps, m, hparts⟩ :=
    IsPlain.exists_parts hslash hmodule hnames hne hinside htemplate hplain
  obtain ⟨hfront, hm⟩ := List.forall_mem_append.1 (hparts.names ▸ hnames)
  rw [List.forall_mem_singleton] at hm
  have htarget' : pass.outputPath (relativePath names) output =
      .ok ((below output (Path.placeFrom dir steps)).child
        (Path.renamed m pass.ext.module)) := by
    rw [hparts.names]
    exact outputPath_of_noSlash pass output hfront hm hslash
  obtain rfl := Except.ok.inj (htarget.symm.trans htarget')
  -- the module of the template that declares the path is in the directory of the same names
  obtain ⟨above, hsource, habove, hplace⟩ := parent?_below hout hdir
    (Path.noSlash_renamed hn hslash) (Path.not_isIdle_renamed hn hslash)
  have hresolve := hparts.resolve hout habove hplace hfront
  refine ⟨_, _, outputPath_of_noSlash pass output hdir hn hslash, htarget, ?_, fun id =>
    ⟨_, reference_of_importPath himportPath, hsame.symm⟩⟩
  refine List.any_eq_true.2 ⟨_, Template.mem_importsIn hmade hread hi huse, ?_⟩
  simp [hparts.relative, hsource, hresolve]

/-- A page that declares its card with the given path. -/
def cardPage (path : Text) : Text :=
  "---\nimport Card from \"".toList ++ path ++ "\"\n---\n<Card />".toList

/-- What is read from such a page. -/
def cardSource (path : Text) : Template.Source :=
  ⟨[⟨"Card".toList, path⟩], [.component "Card".toList [] false]⟩

/-- The module of such a page. -/
def cardModule (path : Text) : Template.Module :=
  Template.generate cardPass.ext [] (cardSource path).imports (cardSource path).pieces

theorem compile_cardPage {path : Text}
    (h : Template.read (cardPage path) = .ok (cardSource path)) :
    Template.compile cardPass.ext [] (cardPage path) = .ok (cardModule path) :=
  Template.map_eq_ok_iff.2 ⟨_, h, rfl⟩

theorem loads_of_isPlain_card :
    ∃ made source target,
      Template.compile cardPass.ext [] (cardPage "../cards/./card.pw".toList) = .ok made ∧
      cardPass.outputPath ⟨"pages/page.pw".toList⟩ ⟨"/p/out".toList⟩ = .ok source ∧
      cardPass.outputPath ⟨"cards/card.pw".toList⟩ ⟨"/p/out".toList⟩ = .ok target ∧
      loads made.code "Card".toList source target := by
  have hread : Template.read (cardPage "../cards/./card.pw".toList) =
      .ok (cardSource "../cards/./card.pw".toList) := by decide +kernel
  have hnames : ∀ m ∈ ["pages".toList] ++ ["page.pw".toList], Ordinary m := by decide
  have hleads : Path.containment cardPass.root
      ((cardPass.dirOf (below cardPass.root (["pages".toList] ++ ["page.pw".toList]))).resolve
        ⟨"../cards/./card.pw".toList⟩) = some ⟨"cards/card.pw".toList⟩ := by decide
  have hplain : IsPlain cardPass.ext ["pages".toList] "../cards/./card.pw".toList
      ⟨"cards/card.pw".toList⟩ := ⟨by decide, by decide, by decide, by decide⟩
  obtain ⟨source, target, hsource, htarget, hloads, -⟩ := loads_of_isPlain
    (by decide : cardPass.root.isAbsolute) (by decide : (Path.mk "/p/out".toList).isAbsolute)
    (by decide) (by decide) hnames (compile_cardPage hread) hread (List.mem_singleton_self _)
    (List.mem_singleton_self _) hleads (by decide) hplain
  exact ⟨_, source, target, compile_cardPage hread, hsource, htarget, hloads⟩

/-- A page at the top of the site declares a path that leads to a template there, but its module
does not import the module of the template from where it is written. -/
structure Astray (path card : Text) : Prop where
  read : Template.read (cardPage path) = .ok (cardSource path)
  made : Template.compile cardPass.ext [] (cardPage path) = .ok (cardModule path)
  leads : Path.containment cardPass.root
    ((cardPass.dirOf ⟨"/p/site/page.pw".toList⟩).resolve ⟨path⟩) = some ⟨card⟩
  template : (Path.mk card).extension? = some "pw".toList
  not_loads : ∃ source target,
    cardPass.outputPath ⟨"page.pw".toList⟩ ⟨"/p/out".toList⟩ = .ok source ∧
    cardPass.outputPath ⟨card⟩ ⟨"/p/out".toList⟩ = .ok target ∧
    loads (cardModule path).code "Card".toList source target = false

theorem astray_of_read {path card : Text}
    (hread : Template.read (cardPage path) = .ok (cardSource path))
    (hleads : Path.containment cardPass.root
      ((cardPass.dirOf ⟨"/p/site/page.pw".toList⟩).resolve ⟨path⟩) = some ⟨card⟩)
    (htemplate : (Path.mk card).extension? = some "pw".toList)
    (hloads : loads (cardModule path).code "Card".toList ⟨"/p/out/page.js".toList⟩
      ((Path.mk "/p/out".toList).join ⟨card⟩ |>.withExtension "js".toList) = false) :
    Astray path card where
  read := hread
  made := compile_cardPage hread
  leads := hleads
  template := htemplate
  not_loads := ⟨_, _, rfl, rfl, hloads⟩

/-- So it is with a path that is a mere name, that is absolute, that leads out of the source and
back, or that ends in a slash, and with a template whose stem is a dot. -/
theorem astray_card :
    Astray "card.pw".toList "card.pw".toList ∧ Astray "/p/site/card.pw".toList "card.pw".toList ∧
      Astray "../site/card.pw".toList "card.pw".toList ∧
      Astray "./card.pw/".toList "card.pw".toList ∧ Astray "./..pw".toList "..pw".toList :=
  ⟨astray_of_read (by decide +kernel) (by decide) (by decide) (by decide +kernel),
    astray_of_read (by decide +kernel) (by decide) (by decide) (by decide +kernel),
    astray_of_read (by decide +kernel) (by decide) (by decide) (by decide +kernel),
    astray_of_read (by decide +kernel) (by decide) (by decide) (by decide +kernel),
    astray_of_read (by decide +kernel) (by decide) (by decide) (by decide +kernel)⟩

end Build

end Quire
