import Quire.Proofs.Build.Keeping

/-!
What a build keeps below its output directory. A property of the disk that outlives directories and
files coming below the output is kept by everything that a build does there: by each meeting of its
visit, by the route table and by the entry script.
-/

namespace Quire.Build

open Disk (Place Plain Node IsName Wrote)
open Quire.Path (Ordinary)

variable {d d' : Disk} {out place : Place} {p output : Path} {n : Text} {names : List Text}
  {P : Disk → Prop}

/-- Strictly below a place. -/
def Inside (out q : Place) : Prop := ∃ n rest, q = out ++ n :: rest

theorem inside_append (hne : names ≠ []) : Inside out (out ++ names) := by
  obtain ⟨n, rest, rfl⟩ := List.exists_cons_of_ne_nil hne
  exact ⟨n, rest, rfl⟩

theorem inside_append_concat : Inside out (out ++ names ++ [n]) := by
  rw [List.append_assoc]
  exact inside_append (by simp)

/-- A property of plain disks that outlives whatever comes below an output directory. -/
structure Housed (output : Path) (P : Disk → Prop) : Prop where
  isAbsolute : output.isAbsolute
  plain : ∀ d, P d → d.Plain
  home : ∀ d, P d → P (Disk.makeDirs output d).2
  dirs : ∀ d names, (∀ n ∈ names, IsName n) → P d →
    P (Disk.makeDirs (below output names).trimmed d).2
  file : ∀ d d' place bytes, Inside output.place place → Wrote place bytes d d' → P d → P d'

theorem makeParents_child (hp : p.isAbsolute) (hn : '/' ∉ n) (hidle : ¬ Path.isIdle n) :
    Disk.makeParents (p.child n) = Disk.makeDirs p.trimmed := by
  rw [Disk.makeParents, Path.parent?_child hp hn hidle]

theorem furnished_makeParents (hd : d.Plain) (p : Path) :
    Disk.Furnished d (Disk.makeParents p d).2 := by
  unfold Disk.makeParents
  cases p.parent? with
  | none => exact Disk.Furnished.refl hd
  | some above => exact hd.furnished_makeDirs above

namespace Housed

theorem parents (h : Housed output P) (hnames : ∀ n ∈ names, IsName n) (hn : '/' ∉ n)
    (hidle : ¬ Path.isIdle n) (hd : P d) :
    P (Disk.makeParents ((below output names).child n) d).2 := by
  rw [makeParents_child (isAbsolute_below h.isAbsolute names) hn hidle]
  exact h.dirs d names hnames hd

theorem write {t : Text} (h : Housed output P) (hp : p.isAbsolute)
    (hplace : ∀ d', d.write p t.toBytes = .ok d' → Inside output.place p.place) (hd : P d) :
    P (Disk.Change.ofWhole (·.writeText p t) d).2 := by
  cases hwrite : d.writeText p t with
  | error e =>
      rw [Disk.ofWhole_error hwrite]
      exact hd
  | ok after =>
      rw [Disk.ofWhole_ok hwrite]
      have hwrote := Disk.wrote_write (h.plain d hd) hp hwrite
      exact h.file d after p.place t.toBytes (hplace after hwrite) hwrote hd

theorem copyInto {source : Path} (h : Housed output P) (hsource : source.isAbsolute)
    (hnames : ∀ n ∈ names, IsName n) (hn : IsName n) (hd : P d) :
    P (Disk.copyInto source ((below output names).child n) d).2 := by
  have hbelow := isAbsolute_below h.isAbsolute names
  have hordinary : ∀ m ∈ names, Ordinary m := fun m hm => (hnames m hm).toOrdinary
  have hparents := h.parents hnames hn.noSlash hn.toOrdinary.not_isIdle hd
  unfold Disk.copyInto Disk.Change.andThen
  rcases hmake : Disk.makeParents ((below output names).child n) d with ⟨answer, after⟩
  rw [hmake] at hparents
  cases answer with
  | error e => exact hparents
  | ok u =>
      simp only
      cases hcopy : after.copy source ((below output names).child n) with
      | error e =>
          rw [Disk.ofWhole_error hcopy]
          exact hparents
      | ok last =>
          rw [Disk.ofWhole_ok hcopy]
          obtain ⟨bytes, _, hwrote⟩ := Disk.wrote_copy (h.plain after hparents) hsource
            (Path.isAbsolute_child hbelow n) hcopy
          refine h.file after last _ _ ?_ hwrote hparents
          rw [Path.place_child hbelow hn.toOrdinary, place_below h.isAbsolute hordinary]
          exact inside_append_concat

end Housed

/-- The module of a template stands below the output, in the directory of the template. -/
theorem outputPath_of_noSlash (pass : Pass) (output : Path) (hnames : ∀ n ∈ names, Ordinary n)
    (hn : Ordinary n) (hslash : '/' ∉ pass.ext.module) :
    pass.outputPath (relativePath (names ++ [n])) output =
      .ok ((below output names).child (Path.renamed n pass.ext.module)) := by
  have hall : ∀ m ∈ names ++ [n], Ordinary m :=
    List.forall_mem_append.2 ⟨hnames, List.forall_mem_singleton.2 hn⟩
  have hjoin : output.join (relativePath (names ++ [n])) = (below output names).child n := by
    rw [relativePath, Path.join_ofSteps hall (by simp), List.foldl_append]
    rfl
  rw [Pass.outputPath, withExtension, if_pos (by simpa [Path.isExtension] using hslash), hjoin,
    (Path.withExtension_child _ hn hslash).1]

theorem outputPath_relativePath (pass : Pass) (hnames : ∀ n ∈ names, Ordinary n) (hn : Ordinary n)
    {dst : Path} (h : pass.outputPath (relativePath (names ++ [n])) output = .ok dst) :
    '/' ∉ pass.ext.module ∧
      dst = (below output names).child (Path.renamed n pass.ext.module) := by
  have hslash : '/' ∉ pass.ext.module := by
    intro hmem
    rw [Pass.outputPath, withExtension, if_neg (by simpa [Path.isExtension] using hmem)] at h
    cases h
  rw [outputPath_of_noSlash pass output hnames hn hslash] at h
  exact ⟨hslash, (Except.ok.inj h).symm⟩

theorem keeps_put (y : Yield) (src : Path) (f : Failure) : Keeps P (y.put src f) :=
  (Keeps.say _ _).bind fun _ => Keeps.pure _

theorem Housed.takeTemplate (h : Housed output P) (pass : Pass) (y : Yield)
    (hnames : ∀ n ∈ names, IsName n) (hne : names ≠ []) :
    Keeps P (pass.takeTemplate output y names) := by
  obtain ⟨dir, n, rfl⟩ := (List.eq_nil_or_concat' names).resolve_left hne
  have hdir : ∀ m ∈ dir, IsName m := fun m hm => hnames m (List.mem_append_left [n] hm)
  have hordinary : ∀ m ∈ dir, Ordinary m := fun m hm => (hdir m hm).toOrdinary
  have hn : Ordinary n := (hnames n (by simp)).toOrdinary
  have habove := isAbsolute_below h.isAbsolute dir
  unfold Pass.takeTemplate
  apply Keeps.lift
  intro dst hdst
  obtain ⟨hslash, rfl⟩ := outputPath_relativePath pass hordinary hn hdst
  have hrenamed := Path.noSlash_renamed hn hslash
  have hidle := Path.not_isIdle_renamed hn hslash
  refine Keeps.bind (Keeps.attempt ?_) fun answer => ?_
  · unfold Pass.transpile
    apply Keeps.look
    intro w hw
    refine (Keeps.lift fun outcome _ => ?_ : Keeps P _) w hw
    cases outcome with
    | clientOnly => exact Keeps.pure _
    | module code references =>
        refine Keeps.bind (Keeps.change (fun _ hd => ?_) _) fun _ => ?_
        · exact h.parents hdir hrenamed hidle hd
        · refine Keeps.bind (Keeps.change (fun d hd => ?_) _) fun _ => Keeps.pure _
          refine h.write (Path.isAbsolute_child habove _) (fun d' hwrite => ?_) hd
          rcases Path.renamed_cases hn hslash with hname | hdots
          · rw [Path.place_child habove hname, place_below h.isAbsolute hordinary]
            exact inside_append_concat
          · rw [hdots] at hwrite
            exact absurd hwrite (Disk.write_up_ne_ok (h.plain d hd) habove)
  · cases answer with
    | error f => exact keeps_put y _ f
    | ok outcome =>
        cases outcome with
        | module _ _ => exact (Keeps.detail _ _).bind fun _ => Keeps.pure _
        | clientOnly => exact (Keeps.detail _ _).bind fun _ => Keeps.pure _

/-- The copy of a file stands below the output, in the directory of the file. -/
theorem join_relativePath (hnames : ∀ n ∈ names, IsName n) (hn : IsName n) :
    output.join (relativePath (names ++ [n])) = (below output names).child n := by
  rw [relativePath, Path.join_ofSteps (fun m hm => ?_) (by simp), List.foldl_append]
  · rfl
  · rcases List.mem_append.1 hm with hm | hm
    · exact (hnames m hm).toOrdinary
    · rw [List.mem_singleton.1 hm]
      exact hn.toOrdinary

theorem Housed.takeAsset (h : Housed output P) (pass : Pass) (hroot : pass.root.isAbsolute)
    (y : Yield) (hnames : ∀ n ∈ names, IsName n) (hne : names ≠ []) :
    Keeps P (pass.takeAsset output y names) := by
  obtain ⟨dir, n, rfl⟩ := (List.eq_nil_or_concat' names).resolve_left hne
  have hdir : ∀ m ∈ dir, IsName m := fun m hm => hnames m (List.mem_append_left [n] hm)
  have hn : IsName n := hnames n (by simp)
  unfold Pass.takeAsset
  refine Keeps.bind (Keeps.attempt (Keeps.change (fun _ hd => ?_) _)) fun answer => ?_
  · rw [join_relativePath hdir hn]
    exact h.copyInto (isAbsolute_below hroot _) hdir hn hd
  · cases answer with
    | error f => exact keeps_put y _ f
    | ok _ => exact (Keeps.detail _ _).bind fun _ => Keeps.pure _

/-- Every meeting of a build's visit keeps what is housed. -/
theorem Housed.take (h : Housed output P) (pass : Pass) (hroot : pass.root.isAbsolute) (y : Yield)
    (m : Met) (hnames : ∀ n ∈ names, IsName n) (hm : m = .file → names ≠ []) :
    Keeps P (pass.take output y names m) := by
  cases m with
  | unlisted e => exact keeps_put y _ _
  | file =>
      rw [Pass.take]
      split
      · exact Keeps.pure y
      · split
        · exact h.takeTemplate pass y hnames (hm rfl)
        · split
          · exact h.takeAsset pass hroot y hnames (hm rfl)
          · exact Keeps.pure y

theorem located {source dir : Path} (hsource : source.isAbsolute)
    (h : locate d source n = some dir) : dir.isAbsolute ∧ d.isDir dir := by
  unfold locate at h
  refine ⟨?_, List.find?_some h⟩
  rcases List.mem_append.1 (List.mem_of_find?_eq_some h) with hmem | hmem
  · obtain ⟨above, habove, rfl⟩ := Option.map_eq_some_iff.1 (Option.mem_toList.1 hmem)
    exact Path.isAbsolute_child (Path.isAbsolute_of_parent? hsource habove).1 n
  · rw [List.mem_singleton.1 hmem]
    exact Path.isAbsolute_child hsource n

theorem Housed.emitFile {t : Text} (h : Housed output P) (hn : Ordinary n) :
    Keeps P (emitFile (output.child n) t) := by
  refine Keeps.change (fun d hd => ?_) _
  refine h.write (Path.isAbsolute_child h.isAbsolute n) (fun _ _ => ?_) hd
  rw [Path.place_child h.isAbsolute hn]
  exact inside_append (by simp)

theorem Housed.emit (h : Housed output P) (ext : Text) (routes : List Route) :
    Keeps P (emit output ext routes) := by
  unfold Build.emit
  refine Keeps.bind (Keeps.ask _) fun fault => ?_
  cases fault with
  | some fault => exact Keeps.fail _
  | none =>
      apply Keeps.bind (Keeps.change h.home _)
      intro _
      apply Keeps.bind (h.emitFile (by decide))
      intro _
      exact (h.emitFile (by decide)).bind fun _ => Keeps.pure _

theorem Housed.emitRoutes (h : Housed output P) (c : Config) : Keeps P (emitRoutes c output) := by
  unfold Build.emitRoutes
  refine Keeps.bind (Keeps.ask _) fun missing => ?_
  split
  · exact (Keeps.say _ _).bind fun _ => Keeps.pure _
  · refine Keeps.bind (Keeps.ask _) fun scanned => ?_
    cases scanned with
    | error unlisted => exact (Keeps.say _ _).bind fun _ => Keeps.pure _
    | ok routes =>
        dsimp only
        split
        · exact (Keeps.say _ _).bind fun _ => Keeps.pure _
        · apply Keeps.bind (Keeps.attempt (h.emit c.build.moduleExt routes))
          intro answer
          cases answer with
          | ok table => exact (Keeps.say _ _).bind fun _ => Keeps.pure _
          | error f => exact (Keeps.say _ _).bind fun _ => Keeps.pure _

theorem isName_clientDir : IsName clientDir.text := by decide

/-- The directory of the entry script is one name below the output. -/
theorem join_clientDir (output : Path) : output.join clientDir = below output [clientDir.text] :=
  rfl

theorem Housed.writeManifest {b : Config.Bundler} (h : Housed output P) (hb : b.enable = false)
    (references : List Reference) : Keeps P (writeManifest b output references) := by
  have hdir := isAbsolute_below h.isAbsolute [clientDir.text]
  have htrimmed : (below output [clientDir.text]).trimmed = below output [clientDir.text] :=
    Path.trimmed_child h.isAbsolute isName_clientDir.toOrdinary
  unfold Build.writeManifest
  split
  · exact Keeps.pure _
  · refine Keeps.bind (Keeps.orFail _) fun script => ?_
    refine Keeps.bind (Keeps.change (fun d hd => ?_) _) fun _ => ?_
    · rw [join_clientDir, ← htrimmed]
      exact h.dirs d _ (by simp [isName_clientDir]) hd
    · refine Keeps.bind (Keeps.change (fun d hd => ?_) _) fun _ => ?_
      · refine h.write (Path.isAbsolute_child hdir _) (fun _ _ => ?_) hd
        rw [join_clientDir, Path.place_child hdir (by decide),
          place_below h.isAbsolute (by simp [isName_clientDir.toOrdinary])]
        exact inside_append_concat
      · rw [if_neg (by simp [hb])]
        exact Keeps.pure _

theorem keeps_report (output : Path) (references : List Reference)
    (m : Manifest) : Keeps P (m.report output references) := by
  cases m with
  | empty => exact Keeps.say _ _
  | written entry made =>
      refine (Keeps.forM references fun _ => Keeps.detail _ _).bind fun _ => ?_
      refine (Keeps.say _ _).bind fun _ => ?_
      cases made with
      | none => exact Keeps.pure _
      | some b =>
          cases b with
          | built => exact Keeps.say _ _
          | unavailable _ => exact Keeps.say _ _
          | failed _ _ => exact Keeps.say _ _

theorem Housed.finish {c : Config} (h : Housed output P) (hbundler : c.bundler.enable = false)
    (y : Yield) : Keeps P (finish c output y) := by
  unfold Build.finish
  apply (h.emitRoutes c).bind
  intro routes
  apply (Keeps.attempt (h.writeManifest hbundler _)).bind
  intro answer
  cases answer with
  | error f => exact (Keeps.say _ _).bind fun _ => Keeps.pure _
  | ok manifest =>
      refine (keeps_report output _ manifest).bind fun _ => ?_
      cases manifest <;> exact Keeps.pure _

end Quire.Build
