import Quire.Proofs.Build.Confinement
import Quire.Proofs.Build.Products
import Quire.Proofs.Disk.Preorder
import Quire.Proofs.Path.Relative
import Quire.Proofs.Template.Islands

/-!
Whether the ids of one build tell its islands apart. The id of a module is its template's path
without the extension, and two templates have the same id only where the stem of one is two dots,
which lead up out of its directory.
-/

namespace Quire.Build

open Disk (Place Plain IsName Node)
open Quire.Path (Ordinary Step)

variable {pass : Pass} {dir src output : Path} {names names' : List Text}
  {references : List Reference}

/-- What comes of a list is what comes of each of its items. -/
theorem forall₂_of_mapM_ok {α β ε : Type} {f : α → Except ε β} {items : List α} {all : List β}
    (h : items.mapM f = .ok all) : List.Forall₂ (fun a b => f a = .ok b) items all := by
  induction items generalizing all with
  | nil =>
      obtain rfl := Except.ok.inj h
      exact .nil
  | cons a items ih =>
      rw [List.mapM_cons] at h
      cases hfirst : f a with
      | error e => simp [hfirst, bind, Except.bind] at h
      | ok b =>
          cases hrest : items.mapM f with
          | error e => simp [hfirst, hrest, bind, Except.bind] at h
          | ok rest =>
              simp only [hfirst, hrest, bind, Except.bind] at h
              obtain rfl := Except.ok.inj h
              exact .cons hfirst (ih hrest)

/-- A reference has the id and the name of its island. -/
theorem id_name_of_reference {i : Template.Island} {r : Reference}
    (h : pass.reference dir i = .ok r) : r.id = i.id ∧ r.name = i.name := by
  unfold Pass.reference at h
  cases hmodule : pass.importPath (pass.root.relativize (dir.resolve ⟨i.path⟩)) with
  | error e => simp [hmodule, bind, Except.bind] at h
  | ok module =>
      simp only [hmodule, bind, Except.bind] at h
      obtain rfl := Except.ok.inj h
      exact ⟨rfl, rfl⟩

theorem ids_names_of_mapM_reference {islands : List Template.Island}
    (h : islands.mapM (pass.reference dir) = .ok references) :
    references.map (·.id) = islands.map (·.id) ∧ references.map (·.name) = islands.map (·.name) := by
  have hall := forall₂_of_mapM_ok h
  clear h
  induction hall with
  | nil => exact ⟨rfl, rfl⟩
  | cons hfirst _ ih =>
      obtain ⟨hid, hname⟩ := id_name_of_reference hfirst
      simp only [List.map_cons]
      rw [hid, hname, ih.1, ih.2]
      exact ⟨rfl, rfl⟩

/-- A text that gives a module was compiled, and each of its islands has a reference. -/
theorem compiled_of_outcomeOf {text code : Text}
    (h : pass.outcomeOf src text = .ok (.module code references)) :
    ∃ made, Template.compile pass.ext (pass.moduleId src) text = .ok made ∧ made.code = code ∧
      made.islands.mapM (pass.reference (pass.dirOf src)) = .ok references := by
  unfold Pass.outcomeOf at h
  split at h
  · cases h
  · cases hcompile : Template.compile pass.ext (pass.moduleId src) text with
    | error e => simp [hcompile] at h
    | ok made =>
        simp only [hcompile] at h
        cases hmap : made.islands.mapM (pass.reference (pass.dirOf src)) with
        | error e => simp [hmap, bind, Except.bind] at h
        | ok rs =>
            simp only [hmap, bind, Except.bind] at h
            obtain ⟨hcode, rfl⟩ := Outcome.module.inj (Except.ok.inj h)
            exact ⟨made, rfl, hcode, hmap⟩

/-- The references of a template are numbered from zero on. -/
theorem ids_of_outcomeOf {text code : Text}
    (h : pass.outcomeOf src text = .ok (.module code references)) :
    references.map (·.id) =
      Template.islandIds (Template.idStem (pass.moduleId src)) references.length := by
  obtain ⟨made, hcompile, -, hmap⟩ := compiled_of_outcomeOf h
  have hids := (ids_names_of_mapM_reference hmap).1
  have hlength := congrArg List.length hids
  simp only [List.length_map] at hlength
  rw [hids, Template.ids_of_compile hcompile, hlength]

/-- What the ids of a product begin with. -/
def Product.stem (pass : Pass) (p : Product) : Text :=
  Template.idStem (pass.moduleId (below pass.root p.names))

theorem Product.ids {p : Product} (h : p.Faithful pass output) :
    p.references.map (·.id) = Template.islandIds (p.stem pass) p.references.length := by
  cases p with
  | copy names bytes => rfl
  | module names dst text code references => exact ids_of_outcomeOf h.2.2

theorem nodup_ids_iff {made : List Product} (h : ∀ p ∈ made, p.Faithful pass output) :
    ((made.flatMap (·.references)).map (·.id)).Nodup ↔ made.Pairwise fun p q =>
      p.references ≠ [] → q.references ≠ [] → p.stem pass ≠ q.stem pass := by
  rw [List.map_flatMap, List.nodup_flatMap]
  have hself : ∀ p ∈ made, (p.references.map (·.id)).Nodup := by
    intro p hp
    rw [Product.ids (h p hp)]
    exact Template.nodup_islandIds _ _
  rw [and_iff_right hself]
  refine List.Pairwise.iff_of_mem fun {p q} hp hq => ?_
  rw [Function.onFun_apply, Product.ids (h p hp), Product.ids (h q hq), Template.disjoint_islandIds]
  simp only [ne_eq, List.length_eq_zero_iff]

/-- The names that the id of a module spells: those of its template without the extension. A stem
of two dots is no name, it leads up. -/
def idNames (root : Place) (names : List Text) : Place :=
  Path.placeFrom (root ++ names.dropLast)
    (Step.ofField? (Path.renamed (names.getLastD []) [])).toList

theorem place_withExtension_below (hroot : pass.root.isAbsolute) (hnames : ∀ n ∈ names, IsName n)
    (hne : names ≠ []) :
    ((below pass.root names).withExtension []).isAbsolute ∧
      ((below pass.root names).withExtension []).place = idNames pass.root.place names := by
  obtain ⟨dir, n, rfl⟩ := (List.eq_nil_or_concat' names).resolve_left hne
  have hdir : ∀ m ∈ dir, Ordinary m := fun m hm => (hnames m (List.mem_append_left [n] hm)).toOrdinary
  have hn : Ordinary n := (hnames n (by simp)).toOrdinary
  have habove := isAbsolute_below hroot dir
  have hplace := place_below hroot hdir
  rw [below_concat, (Path.withExtension_child _ hn (by simp)).1]
  refine ⟨Path.isAbsolute_child habove _, ?_⟩
  have hlast : idNames pass.root.place (dir ++ [n]) = Path.placeFrom (pass.root.place ++ dir)
      (Step.ofField? (Path.renamed n [])).toList := by
    simp [idNames]
  rw [hlast, ← hplace]
  rcases Path.renamed_cases hn List.not_mem_nil with hname | hdots
  · rw [Path.place_child habove hname, hname.ofField?]
    rfl
  · rw [hdots, Path.child, Path.place_join habove (by decide)]
    rfl

/-- Two modules have one id exactly where their ids spell the same names. -/
theorem moduleId_below_inj (hroot : pass.root.isAbsolute) (hnames : ∀ n ∈ names, IsName n)
    (hne : names ≠ []) (hnames' : ∀ n ∈ names', IsName n) (hne' : names' ≠ []) :
    pass.moduleId (below pass.root names) = pass.moduleId (below pass.root names') ↔
      idNames pass.root.place names = idNames pass.root.place names' := by
  obtain ⟨habs, hplace⟩ := place_withExtension_below hroot hnames hne
  obtain ⟨habs', hplace'⟩ := place_withExtension_below hroot hnames' hne'
  rw [Pass.moduleId, Pass.moduleId, Path.slashed_relativize_inj hroot habs habs', hplace, hplace']

/-- Only a template with a stem of two dots can have the id of another one. -/
theorem idNames_inj {root : Place} {ext : Text} (hnames : ∀ n ∈ names, IsName n) (hne : names ≠ [])
    (hnames' : ∀ n ∈ names', IsName n) (hne' : names' ≠ [])
    (hext : (Path.nameParts (names.getLastD [])).2 = some ext)
    (hext' : (Path.nameParts (names'.getLastD [])).2 = some ext)
    (hstem : Path.renamed (names.getLastD []) [] ≠ ['.', '.'])
    (hstem' : Path.renamed (names'.getLastD []) [] ≠ ['.', '.'])
    (h : idNames root names = idNames root names') : names = names' := by
  have hspelled : ∀ {names : List Text}, (∀ n ∈ names, IsName n) → names ≠ [] →
      (Path.nameParts (names.getLastD [])).2 = some ext →
      Path.renamed (names.getLastD []) [] ≠ ['.', '.'] →
      ∃ dir stem, names = dir ++ [stem ++ '.' :: ext] ∧ idNames root names = root ++ dir ++ [stem] := by
    intro names hnames hne hext hstem
    obtain ⟨dir, n, rfl⟩ := (List.eq_nil_or_concat' names).resolve_left hne
    have hlast : (dir ++ [n]).getLastD [] = n := by simp
    rw [hlast] at hext hstem
    have hn : Ordinary n := (hnames n (by simp)).toOrdinary
    have hordinary := (Path.renamed_cases hn List.not_mem_nil).resolve_right hstem
    rcases hparts : Path.nameParts n with ⟨stem, ending⟩
    obtain rfl : ending = some ext := by rw [← hext, hparts]
    obtain ⟨rfl, _, _⟩ := Path.nameParts_eq_some hparts
    have hrenamed : Path.renamed (stem ++ '.' :: ext) [] = stem := by
      unfold Path.renamed at hstem ⊢
      rw [hparts] at hstem ⊢
      by_cases hdot : stem = ['.']
      · simp [hdot] at hstem
      · simp [hdot, Path.dotted]
    refine ⟨dir, stem, rfl, ?_⟩
    rw [hrenamed] at hordinary
    rw [idNames, hlast, hrenamed, hordinary.ofField?, List.dropLast_concat]
    rfl
  obtain ⟨dir, stem, rfl, hid⟩ := hspelled hnames hne hext hstem
  obtain ⟨dir', stem', rfl, hid'⟩ := hspelled hnames' hne' hext' hstem'
  rw [hid, hid', List.append_assoc, List.append_assoc] at h
  obtain ⟨hdir, hlast⟩ := List.append_inj' (List.append_cancel_left h) rfl
  rw [hdir, List.singleton_inj.1 hlast]

/-- Names that lead from the root of a pass to a template. -/
structure IsTemplate (pass : Pass) (d : Disk) (names : List Text) : Prop where
  isName : ∀ n ∈ names, IsName n
  ne_nil : names ≠ []
  there : (d.root.bytesAt (below pass.root names).place).isSome
  extension : (below pass.root names).extension? = some pass.ext.template

/-- Whether the hash tells the modules of all templates apart that have different ids. -/
def HashesApart (pass : Pass) (d : Disk) : Prop :=
  ∀ a b, IsTemplate pass d a → IsTemplate pass d b →
    Template.idStem (pass.moduleId (below pass.root a)) =
        Template.idStem (pass.moduleId (below pass.root b)) →
      pass.moduleId (below pass.root a) = pass.moduleId (below pass.root b)

theorem isSome_bytesAt_of_kindAt {root : Node} {place : Place}
    (h : root.kindAt place = some .file) : (root.bytesAt place).isSome := by
  unfold Node.kindAt at h
  unfold Node.bytesAt
  cases hget : root.get? place with
  | none => simp [hget] at h
  | some m => cases m <;> simp [hget, Node.kind] at h ⊢

theorem exists_visit_of_takeTree {copyDirs : List Text} {w after : Work} {y : Yield}
    (h : (pass.takeTree output copyDirs).result w = (.ok y, after)) :
    ∃ y' mid, (Visit.run ⟨pass.root, output.isWithin, pass.take output⟩ {}).result w =
      (.ok y', mid) ∧ y.references = y'.references := by
  unfold Pass.takeTree at h
  simp only [Job.result_bind] at h
  rcases hrun : (Visit.run ⟨pass.root, output.isWithin, pass.take output⟩ {}).result w with
    ⟨answer, mid⟩
  rw [hrun] at h
  cases answer with
  | error e => cases (Prod.mk.inj h).1
  | ok y' =>
      refine ⟨y', mid, rfl, ?_⟩
      simp only at h
      rcases hcopy : (copyVerbatim pass.root output copyDirs).result mid with ⟨answer, last⟩
      rw [hcopy] at h
      cases answer with
      | error e => cases (Prod.mk.inj h).1
      | ok count => rw [← Except.ok.inj (Prod.mk.inj h).1]

/-- A walk gives every island an id of its own exactly if no two of its templates with islands
spell the same id, as long as the hash tells different ids apart. -/
theorem nodup_ids_takeTree {copyDirs : List Text} {w after : Work} {y : Yield}
    (hd : w.disk.Plain) (hroot : pass.root.isAbsolute) (hout : output.isAbsolute)
    (hfile : w.disk.root.bytesAt pass.root.place = none) (hhash : HashesApart pass w.disk)
    (h : (pass.takeTree output copyDirs).result w = (.ok y, after)) :
    ∃ made : List Product, (made.map (·.names)).Nodup ∧
      (∀ p ∈ made, p.Faithful pass output ∧ (p.references ≠ [] → IsTemplate pass w.disk p.names)) ∧
      y.references = made.flatMap (·.references) ∧
      ((y.references.map (·.id)).Nodup ↔ ∀ p ∈ made, ∀ q ∈ made, p.references ≠ [] →
        q.references ≠ [] → idNames pass.root.place p.names = idNames pass.root.place q.names →
          p.names = q.names) ∧
      ((y.references.map (·.id)).Nodup →
        ∀ r ∈ y.references, ∀ r' ∈ y.references, r.id = r'.id → r = r') := by
  obtain ⟨y', mid, hrun, hreferences⟩ := exists_visit_of_takeTree h
  have hhoused : Housed output (Confined (Inside output.place) w.disk) :=
    housed_confined hout (fun _ hq => hq) w.disk
  obtain ⟨_, made, hmade, hordered, hmet⟩ :=
    exists_made_run hhoused hroot hfile (Confined.refl hd) hrun
  have hnodup : (made.map (·.names)).Nodup :=
    Disk.Node.nodup_of_pairwise_lt (List.pairwise_map.2 hordered)
  have htemplate : ∀ p ∈ made, p.references ≠ [] → IsTemplate pass w.disk p.names := by
    intro p hp hne
    obtain ⟨hne', hskip, e, he, hkind⟩ := (hmet p hp).file rfl
    have hinside := not_inside_of_not_isWithin hout (isAbsolute_below hroot p.names) hskip
    refine ⟨(hmet p hp).isName, hne', ?_, ?_⟩
    · rw [← he.bytes _ hinside]
      exact isSome_bytesAt_of_kindAt hkind
    · have hfaithful := hmade.faithful p hp
      cases p with
      | copy names bytes => exact absurd rfl hne
      | module names dst text code references => exact hfaithful.1
  refine ⟨made, hnodup, fun p hp => ⟨hmade.faithful p hp, htemplate p hp⟩, ?_, ?_, ?_⟩
  · rw [hreferences, hmade.references]
    rfl
  · have happart : (y.references.map (·.id)).Nodup ↔ made.Pairwise fun p q =>
        p.references ≠ [] → q.references ≠ [] →
          idNames pass.root.place p.names ≠ idNames pass.root.place q.names := by
      rw [hreferences, hmade.references]
      refine (nodup_ids_iff hmade.faithful).trans (List.Pairwise.iff_of_mem fun {p q} hp hq => ?_)
      refine forall_congr' fun hne => forall_congr' fun hne' => not_congr ?_
      have hp' := htemplate p hp hne
      have hq' := htemplate q hq hne'
      rw [← moduleId_below_inj hroot hp'.isName hp'.ne_nil hq'.isName hq'.ne_nil]
      exact ⟨hhash _ _ hp' hq', congrArg Template.idStem⟩
    have hdifferent : made.Pairwise fun p q => p.names ≠ q.names := List.pairwise_map.1 hnodup
    rw [happart]
    constructor
    · intro hpair p hp q hq hne hne' heq
      have hsymm : Std.Symm fun p q : Product => p.references ≠ [] → q.references ≠ [] →
          idNames pass.root.place p.names ≠ idNames pass.root.place q.names :=
        ⟨fun _ _ hpq hne hne' => (hpq hne' hne).symm⟩
      by_contra hnames
      have hpq : p ≠ q := fun h => hnames (congrArg Product.names h)
      exact hpair.forall hp hq hpq hne hne' heq
    · intro hall
      refine hdifferent.imp_of_mem fun {p q} hp hq hnames hne hne' heq => ?_
      exact hnames (hall p hp q hq hne hne' heq)
  · intro hids r hr r' hr' heq
    exact List.inj_on_of_nodup_map hids hr hr' heq

theorem mem_files_of_isTemplate {d : Disk} (hroot : pass.root.isAbsolute)
    (h : IsTemplate pass d names) : pass.root.place ++ names ∈ d.root.files := by
  rw [← place_below hroot fun n hn => (h.isName n hn).toOrdinary]
  exact Node.mem_files_of_bytesAt h.there

/-- It is enough to look at the files of the disk. -/
theorem hashesApart_of_files {d : Disk} (hroot : pass.root.isAbsolute)
    (h : ∀ p ∈ d.root.files, ∀ q ∈ d.root.files,
      Template.idStem (pass.moduleId (below pass.root (p.drop pass.root.place.length))) =
          Template.idStem (pass.moduleId (below pass.root (q.drop pass.root.place.length))) →
        pass.moduleId (below pass.root (p.drop pass.root.place.length)) =
          pass.moduleId (below pass.root (q.drop pass.root.place.length))) :
    HashesApart pass d := by
  intro a b ha hb hstems
  have hfile := h _ (mem_files_of_isTemplate hroot ha) _ (mem_files_of_isTemplate hroot hb)
  rw [List.drop_left, List.drop_left] at hfile
  exact hfile hstems

/-- The sources of a pass over the default extensions. -/
def sitePass : Pass := ⟨⟨"/p/site".toList⟩, ⟨"pw".toList, "js".toList⟩⟩

/-- A project of two templates: one in the source directory, and one two directories further down.
Each leaves an island. -/
def twoIslands (upper lower : Text) : Work where
  disk :=
    { root := .dir [("p".toList, .dir [("site".toList, .dir [
        ("x".toList, .dir [("d".toList, .dir [
          (lower, .file "---\nimport D from \"./d.pw\"\n---\n<D client />".toUTF8)])]),
        (upper, .file "---\nimport C from \"./c.pw\"\n---\n<C client />".toUTF8)])])]
      cwd := [] }

theorem nodup_ids_takeTree_plain :
    Plain (twoIslands "x.pw".toList "y.pw".toList).disk ∧
      HashesApart sitePass (twoIslands "x.pw".toList "y.pw".toList).disk ∧
      ∃ y after, (sitePass.takeTree ⟨"/p/out".toList⟩ []).result
          (twoIslands "x.pw".toList "y.pw".toList) = (.ok y, after) ∧
        y.references.map (·.name) = ["D".toList, "C".toList] ∧
        (y.references.map (·.id)).Nodup ∧ ∃ made : List Product,
          y.references = made.flatMap (·.references) ∧
            ∀ p ∈ made, ∀ q ∈ made, p.references ≠ [] → q.references ≠ [] →
              idNames sitePass.root.place p.names = idNames sitePass.root.place q.names →
                p.names = q.names := by
  have hplain : Plain (twoIslands "x.pw".toList "y.pw".toList).disk := ⟨by decide, by decide⟩
  have hhash : HashesApart sitePass (twoIslands "x.pw".toList "y.pw".toList).disk :=
    hashesApart_of_files (by decide) (by decide +kernel)
  have hrun : ((sitePass.takeTree ⟨"/p/out".toList⟩ []).result
      (twoIslands "x.pw".toList "y.pw".toList)).1.toOption.any (fun y =>
        y.references.map (·.name) = ["D".toList, "C".toList] ∧
          (y.references.map (·.id)).Nodup) := by
    decide +kernel
  refine ⟨hplain, hhash, ?_⟩
  rcases h : (sitePass.takeTree ⟨"/p/out".toList⟩ []).result
    (twoIslands "x.pw".toList "y.pw".toList) with ⟨answer, after⟩
  rw [h] at hrun
  cases answer with
  | error e => cases hrun
  | ok y =>
      obtain ⟨hname, hids⟩ := of_decide_eq_true hrun
      obtain ⟨made, _, _, hmade, hiff, _⟩ :=
        nodup_ids_takeTree hplain (by decide) (by decide) (by decide) hhash h
      exact ⟨y, after, rfl, hname, hids, made, hmade, hiff.1 hids⟩

/-- A template whose stem is two dots: its islands get the ids of another template's. -/
theorem ids_takeTree_dots :
    Plain (twoIslands "x.pw".toList "...pw".toList).disk ∧
      HashesApart sitePass (twoIslands "x.pw".toList "...pw".toList).disk ∧
      ∃ y after, (sitePass.takeTree ⟨"/p/out".toList⟩ []).result
          (twoIslands "x.pw".toList "...pw".toList) = (.ok y, after) ∧
        y.references.map (·.name) = ["D".toList, "C".toList] ∧
        ¬ (y.references.map (·.id)).Nodup := by
  have hrun : ((sitePass.takeTree ⟨"/p/out".toList⟩ []).result
      (twoIslands "x.pw".toList "...pw".toList)).1.toOption.any (fun y =>
        y.references.map (·.name) = ["D".toList, "C".toList] ∧
          ¬ (y.references.map (·.id)).Nodup) := by
    decide +kernel
  have hsame : ∀ p ∈ (twoIslands "x.pw".toList "...pw".toList).disk.root.files,
      ∀ q ∈ (twoIslands "x.pw".toList "...pw".toList).disk.root.files,
        sitePass.moduleId (below sitePass.root (p.drop sitePass.root.place.length)) =
          sitePass.moduleId (below sitePass.root (q.drop sitePass.root.place.length)) := by
    decide +kernel
  refine ⟨⟨by decide, by decide⟩,
    hashesApart_of_files (by decide) fun p hp q hq _ => hsame p hp q hq, ?_⟩
  rcases h : (sitePass.takeTree ⟨"/p/out".toList⟩ []).result
    (twoIslands "x.pw".toList "...pw".toList) with ⟨answer, after⟩
  rw [h] at hrun
  cases answer with
  | error e => cases hrun
  | ok y => exact ⟨y, after, rfl, of_decide_eq_true hrun⟩

end Quire.Build
