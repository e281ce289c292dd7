import Quire.Proofs.Build.Housing
import Quire.Proofs.Interchange.Strings
import Quire.Proofs.Path.Onward

/-!
Where the browser finds the modules of islands. What a reference loads from among the files for the
browser is what it says that it loads, seen from the output; and if that is the module of a template
of the source, then it is where the walk writes it. Main statement: `locates_reference`.
-/

namespace Quire

namespace Path

variable {base p rest : Path} {n ext : Text}

theorem extension?_child_up (p : Path) : (p.child ['.', '.']).extension? = none := by
  obtain ⟨a, ha, hchild⟩ := exists_front_child p
  have hsplit := ha.splitName? (hchild ['.', '.'] (by decide)) (by decide) (by decide)
  rw [extension?, fileName?, hsplit]
  rfl

theorem ofSteps_concat (steps : List Step) (s : Step) :
    ofSteps (steps ++ [s]) = (ofSteps steps).child s.text := by
  rw [ofSteps, List.foldl_append]
  rfl

theorem inner_ofSteps_name {names : List Text} (hnames : ∀ n ∈ names, Ordinary n) :
    (ofSteps (names.map .name)).inner = names.map .name := by
  rw [ofSteps_map_name, inner_foldl_child hnames]
  rfl

/-- What the way to a path becomes with another extension is relative, as the way is. -/
theorem not_isAbsolute_withExtension_relativize (hbase : base.isAbsolute) (hp : p.isAbsolute)
    (hext : '/' ∉ ext) (hsome : (base.relativize p).extension? ≠ none) :
    ¬ ((base.relativize p).withExtension ext).isAbsolute := by
  have hway := isWay_of_mem_way (a := base.place) (ordinary_of_mem_place hp)
  rw [relativize_of_isAbsolute hbase hp] at hsome ⊢
  rcases List.eq_nil_or_concat' (way base.place p.place) with hnil | ⟨front, s, hfront⟩
  · rw [if_pos hnil] at hsome
    exact absurd (by decide) hsome
  · have hfrontRel := (placeFrom_ofSteps fun s hs =>
      Or.inr (hway s (hfront ▸ List.mem_append_left _ hs))).1
    rw [if_neg (by simp [hfront]), hfront, ofSteps_concat] at hsome ⊢
    rcases hway s (by simp [hfront]) with rfl | ⟨n, hn, rfl⟩
    · exact absurd (extension?_child_up _) hsome
    · rw [Step.text, (withExtension_child _ hn hext).1]
      exact not_isAbsolute_child hfrontRel (noSlash_renamed hn hext)

/-- What is below a directory is seen from there as the rest that its containment gives. -/
theorem relativize_of_containment (hbase : base.isAbsolute) (hp : p.isAbsolute)
    (h : containment base p = some rest) : base.relativize p = rest := by
  obtain ⟨names, hne, hplace, rfl⟩ := (containment_eq_some_iff hbase hp).1 h
  rw [relativize_of_isAbsolute hbase hp, hplace, way_append, if_neg (by simpa using hne)]

end Path

namespace Build

open Interchange (specifier? lazyImport)
open Quire.Path (Ordinary)

variable {pass : Pass} {output src p rest : Path}

theorem isAbsolute_dirOf (hroot : pass.root.isAbsolute) (hsrc : src.isAbsolute) :
    (pass.dirOf src).isAbsolute := by
  unfold Pass.dirOf
  cases habove : src.parent? with
  | none => exact hroot
  | some above => exact (Path.isAbsolute_of_parent? hsrc habove).1

/-- Where a module is, seen from the output, is told by a relative path. -/
theorem exists_importPath (hroot : pass.root.isAbsolute) (hext : '/' ∉ pass.ext.module)
    (hp : p.isAbsolute) :
    ∃ module, pass.importPath (pass.root.relativize p) = .ok module ∧ ¬ module.isAbsolute := by
  unfold Pass.importPath
  split
  · next htemplate =>
      have hsome : (pass.root.relativize p).extension? ≠ none := by simp [htemplate]
      rw [withExtension, if_pos (by simpa [Path.isExtension] using hext)]
      exact ⟨_, rfl, Path.not_isAbsolute_withExtension_relativize hroot hp hext hsome⟩
  · exact ⟨_, rfl, Path.not_isAbsolute_relativize hroot hp⟩

/-- The module of a template stands at the same place whether the extension is put before or behind
the output. -/
theorem outputPath_of_containment (hroot : pass.root.isAbsolute) (hout : output.isAbsolute)
    (hext : '/' ∉ pass.ext.module) (hp : p.isAbsolute)
    (h : Path.containment pass.root p = some rest) :
    ∃ dst, pass.outputPath rest output = .ok dst ∧
      dst.normalize = (output.join ⟨(rest.withExtension pass.ext.module).slashed⟩).normalize := by
  obtain ⟨names, hne, hplace, rfl⟩ := (Path.containment_eq_some_iff hroot hp).1 h
  have hnames : ∀ n ∈ names, Ordinary n := fun n hn =>
    Path.ordinary_of_mem_place hp n (hplace ▸ List.mem_append_right _ hn)
  obtain ⟨front, n, rfl⟩ := (List.eq_nil_or_concat' names).resolve_left hne
  obtain ⟨hfront, hn⟩ := List.forall_mem_append.1 hnames
  rw [List.forall_mem_singleton] at hn
  have hslash := Path.noSlash_renamed hn hext
  have hrel : ¬ (Path.mk (Path.renamed n pass.ext.module)).isAbsolute :=
    Path.not_isAbsolute_of_noSlash hslash
  have hfrontRel := Path.not_isAbsolute_ofSteps hfront
  have hmodule : (Path.ofSteps ((front ++ [n]).map .name)).withExtension pass.ext.module =
      (Path.ofSteps (front.map .name)).child (Path.renamed n pass.ext.module) := by
    rw [List.map_append, List.map_singleton, Path.ofSteps_concat, Path.Step.text,
      (Path.withExtension_child _ hn hext).1]
  have hmoduleRel := Path.not_isAbsolute_child hfrontRel hslash
  obtain ⟨hslashedRel, hslashedInner⟩ := Path.inner_slashed hmoduleRel
  have hbelow : (below output front).isAbsolute := isAbsolute_below hout front
  refine ⟨_, outputPath_of_noSlash pass output hfront hn hext, ?_⟩
  rw [hmodule, Path.normalize_of_isAbsolute (Path.isAbsolute_child hbelow _),
    Path.normalize_of_isAbsolute (Path.isAbsolute_join hout _), Path.child,
    Path.place_join hbelow hrel, Path.place_join hout hslashedRel, hslashedInner, Path.child,
    Path.inner_join hrel, Path.placeFrom_append, place_below hout hfront,
    Path.inner_ofSteps_name hfront, Path.placeFrom_names]

theorem importPath_of_containment (hroot : pass.root.isAbsolute) (hext : '/' ∉ pass.ext.module)
    (hp : p.isAbsolute) (h : Path.containment pass.root p = some rest)
    (htemplate : rest.extension? = some pass.ext.template) :
    pass.importPath (pass.root.relativize p) = .ok (rest.withExtension pass.ext.module) := by
  rw [Path.relativize_of_containment hroot hp h, Pass.importPath, if_pos htemplate, withExtension,
    if_pos (by simpa [Path.isExtension] using hext)]

theorem reference_of_importPath {dir module : Path} {i : Template.Island}
    (h : pass.importPath (pass.root.relativize (dir.resolve ⟨i.path⟩)) = .ok module) :
    pass.reference dir i = .ok
      { id := i.id
        name := i.name
        sourcePath := (pass.root.relativize (dir.resolve ⟨i.path⟩)).slashed
        importPath := module.slashed
        importExpr := lazyImport (clientDir.relativize module).specifier } := by
  unfold Pass.reference
  simp only [h]
  rfl

/-- What a reference tells of the module of an island, which is at a path of the source or beside
it: what it loads from among the files for the browser is the module, and the module of a template
is where the walk writes it. -/
structure Locates (pass : Pass) (output p : Path) (r : Reference) : Prop where
  loads : ∃ specifier, specifier? r.importExpr = some specifier ∧
    (output.join clientDir).resolve ⟨specifier⟩ = (output.join ⟨r.importPath⟩).normalize
  written : ∀ relative, Path.containment pass.root p = some relative →
    relative.extension? = some pass.ext.template →
      r.sourcePath = relative.slashed ∧ ∃ dst, pass.outputPath relative output = .ok dst ∧
        dst.normalize = (output.join ⟨r.importPath⟩).normalize

/-- The templates of a site that has cards. -/
def cardPass : Pass := ⟨⟨"/p/site".toList⟩, ⟨"pw".toList, "js".toList⟩⟩

/-- A use of a card, with a detour in its path. -/
def cardIsland : Template.Island where
  id := "5f-0".toList
  name := "Card".toList
  path := "../.././cards/x/../card.pw".toList

/-- A page with an island, whose path goes through a link and up again. -/
def linkedPage : Text :=
  "---\nimport B from \"../link/../b.pw\"\n---\n<B client/>".toList

/-- A site with this page, where the link leads two directories down. -/
def linkedSite : Disk where
  root := .dir [("p".toList, .dir [("site".toList, .dir [
    ("deep".toList, .dir [("b.pw".toList, .file "<p>b</p>".toUTF8), ("dir".toList, .dir [])]),
    ("link".toList, .link "deep/dir".toList),
    ("pages".toList, .dir [("page.pw".toList, .file linkedPage.toBytes)])])])]
  cwd := []

/-- The island of this page. -/
def linkedIsland : Template.Island where
  id := Template.islandId (Template.idStem "pages/page".toList) 0
  name := "B".toList
  path := "../link/../b.pw".toList

end Build

end Quire
