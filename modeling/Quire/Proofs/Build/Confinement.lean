import Quire.Proofs.Build.Housing

/-!
Where a build writes. Every file that a build writes has a path that is put together from the
output directory; where the directories to be copied do not lead out of it, no file outside of the
output is made, taken away or changed.
-/

namespace Quire.Build

open Disk (Place Plain Node IsName)
open Quire.Path (Ordinary)

variable {d d' d'' : Disk} {free : Place → Prop} {place : Place} {p output : Path} {n : Text}
  {names : List Text}

/-- Files outside of some places have the bytes that they had, and what was there is still of its
kind. -/
structure Confined (free : Place → Prop) (d d' : Disk) : Prop where
  plain : d'.Plain
  kinds : ∀ q k, d.root.kindAt q = some k → d'.root.kindAt q = some k
  bytes : ∀ q, ¬ free q → d'.root.bytesAt q = d.root.bytesAt q

namespace Confined

theorem refl (hd : d.Plain) : Confined free d d := ⟨hd, fun _ _ h => h, fun _ _ => rfl⟩

theorem trans (h : Confined free d d') (h' : Confined free d' d'') : Confined free d d'' := by
  refine ⟨h'.plain, fun q k hq => h'.kinds q k (h.kinds q k hq), fun q hq => ?_⟩
  rw [h'.bytes q hq, h.bytes q hq]

theorem of_furnished (h : Disk.Furnished d d') : Confined free d d' :=
  ⟨h.plain, fun _ _ => h.kindAt, fun q _ => h.bytesAt q⟩

theorem of_wrote {bytes : ByteArray} (hd : d.Plain) (h : Disk.Wrote place bytes d d')
    (hplace : free place) : Confined free d d' := by
  refine ⟨h.plain, fun _ _ => h.kindAt hd, fun q hq => Node.bytesAt_congr (h.seen_of_ne ?_)⟩
  rintro rfl
  exact hq hplace

end Confined

theorem confined_makeDirs (hd : Confined free d d') (hp : p.isAbsolute) :
    Confined free d (Disk.makeDirs p d').2 :=
  hd.trans (Confined.of_furnished (Disk.furnished_makeDirs hd.plain hp))

theorem confined_copyInto {source dest : Path} (hd : Confined free d d')
    (hsource : source.isAbsolute) (hdest : dest.isAbsolute) (hplace : free dest.place) :
    Confined free d (Disk.copyInto source dest d').2 := by
  have hparents : Confined free d (Disk.makeParents dest d').2 :=
    hd.trans (Confined.of_furnished (furnished_makeParents hd.plain dest))
  unfold Disk.copyInto Disk.Change.andThen
  rcases hmake : Disk.makeParents dest d' with ⟨answer, after⟩
  rw [hmake] at hparents
  cases answer with
  | error e => exact hparents
  | ok u =>
      simp only
      cases hcopy : after.copy source dest with
      | error e =>
          rw [Disk.ofWhole_error hcopy]
          exact hparents
      | ok last =>
          rw [Disk.ofWhole_ok hcopy]
          obtain ⟨bytes, _, hwrote⟩ := Disk.wrote_copy hparents.plain hsource hdest hcopy
          exact hparents.trans (Confined.of_wrote hparents.plain hwrote hplace)

theorem housed_confined (hout : output.isAbsolute) (hfree : ∀ q, Inside output.place q → free q)
    (d : Disk) : Housed output (Confined free d) where
  isAbsolute := hout
  plain _ h := h.plain
  home _ h := confined_makeDirs h hout
  dirs _ names _ h := confined_makeDirs h (Path.isAbsolute_trimmed (isAbsolute_below hout names))
  file _ _ _ _ hplace hwrote h := h.trans (Confined.of_wrote h.plain hwrote (hfree _ hplace))

theorem isPrefix_of_inside {out q : Place} (h : Inside out q) : out <+: q := by
  obtain ⟨n, rest, rfl⟩ := h
  exact List.prefix_append _ _

theorem keeps_copyFile {dir dst : Path} (hdir : dir.isAbsolute) (hdst : dst.isAbsolute)
    (hfree : ∀ q, dst.place <+: q → free q) (count : Nat) (m : Met)
    (hnames : ∀ n ∈ names, IsName n) (d : Disk) :
    Keeps (Confined free d) (copyFile dir dst count names m) := by
  cases m with
  | unlisted e => exact (Keeps.say _ _).bind fun _ => Keeps.pure _
  | file =>
      rw [copyFile]
      split
      · exact Keeps.pure count
      · refine Keeps.bind (Keeps.attempt (Keeps.change (fun _ hd => ?_) _)) fun answer => ?_
        · apply confined_copyInto hd (isAbsolute_below hdir names) (isAbsolute_below hdst names)
          rw [place_below hdst fun n hn => (hnames n hn).toOrdinary]
          exact hfree _ (List.prefix_append _ _)
        · cases answer with
          | error f => exact (Keeps.say _ _).bind fun _ => Keeps.pure _
          | ok _ => exact (Keeps.detail _ _).bind fun _ => Keeps.pure _

theorem keeps_copyVerbatim {source : Path} (hsource : source.isAbsolute)
    (hout : output.isAbsolute) {copyDirs : List Text}
    (hcopy : ∀ name ∈ copyDirs, output.place <+: (output.child name).place) (d : Disk) :
    Keeps (Confined (output.place <+: ·) d) (copyVerbatim source output copyDirs) := by
  refine Keeps.foldlM copyDirs (fun count name hname => ?_) 0
  apply Keeps.look
  intro w hw
  cases hlocate : locate w.disk source name with
  | none => exact hw
  | some dir =>
      obtain ⟨hdir, hthere⟩ := located hsource hlocate
      have hkind := Disk.kindAt_of_isDir hw.plain hdir hthere
      have hdst := Path.isAbsolute_child hout name
      apply hw.trans
      show Confined (output.place <+: ·) w.disk
        ((copyDir output dir (output.child name) count).result w).2.disk
      unfold copyDir
      split
      · exact Confined.refl hw.plain
      · refine Keeps.visit (P := Confined (output.place <+: ·) w.disk) hdir (fun _ h => h.plain)
          (fun _ h => ?_) (fun s names m hnames _ => keeps_copyFile hdir hdst
            (fun _ hq => (hcopy name hname).trans hq) s m hnames w.disk) count w
          (Confined.refl hw.plain)
        exact Node.bytesAt_of_kindAt_dir (h.kinds _ _ hkind)

/-- Once the output directory is there, a build stays in it. -/
theorem keeps_buildBelow {c : Config} {source : Path} (hsource : source.isAbsolute)
    (hout : output.isAbsolute) (hwithin : ¬ output.isWithin source)
    (hfile : d.root.bytesAt source.place = none) (hthere : d.root.kindAt output.place = some .dir)
    (hbundler : c.bundler.enable = false)
    (hcopy : ∀ name ∈ c.build.copyDirs, output.place <+: (output.child name).place) :
    Keeps (Confined (output.place <+: ·) d) (buildBelow c source output) := by
  have hhoused : Housed output (Confined (output.place <+: ·) d) :=
    housed_confined hout (fun _ => isPrefix_of_inside) d
  have hroot : ∀ d', Confined (output.place <+: ·) d d' →
      d'.root.bytesAt source.place = none := by
    intro d' h
    by_cases hplace : output.place <+: source.place
    · have heq : output.place = source.place := by
        by_contra hne
        exact hwithin (Path.isWithin_of_place_isPrefix hout hsource hplace hne)
      rw [← heq]
      exact Node.bytesAt_of_kindAt_dir (h.kinds _ _ hthere)
    · rw [h.bytes _ hplace, hfile]
  unfold buildBelow
  refine (Keeps.say _ _).bind fun _ => ?_
  refine Keeps.bind ?_ fun y => ?_
  · unfold Pass.takeTree
    refine Keeps.bind ?_ fun y => ?_
    · refine Keeps.visit (P := Confined (output.place <+: ·) d)
        (v := ⟨source, output.isWithin, (passOf c source).take output⟩) hsource
        (fun _ h => h.plain) hroot (fun s names m hnames hm => ?_) {}
      exact hhoused.take (passOf c source) hsource s m hnames hm
    · exact (keeps_copyVerbatim hsource hout hcopy d).bind fun _ => Keeps.pure _
  · exact hhoused.finish hbundler y

/-- Whatever comes of a build whose copied directories do not lead out of its output, no file
outside of the output has been made, taken away or changed. -/
theorem bytesAt_buildProject_of_outside {c : Config} {source output : Path} {w : Work}
    (hd : w.disk.Plain) (hsource : source.isAbsolute) (hout : output.isAbsolute)
    (hfile : w.disk.root.bytesAt source.place = none) (hbundler : c.bundler.enable = false)
    (hcopy : ∀ name ∈ c.build.copyDirs, output.place <+: (output.child name).place)
    {q : Place} (hq : ¬ output.place <+: q) :
    ((buildProject c source output).result w).2.disk.root.bytesAt q = w.disk.root.bytesAt q := by
  by_cases hwithin : output.isWithin source
  · rw [buildProject_eq, if_pos hwithin]
    rfl
  · have hmade := Disk.furnished_makeDirs hd hout
    rw [result_buildProject hwithin]
    cases hanswer : (Disk.makeDirs output w.disk).1 with
    | error e => exact hmade.bytesAt q
    | ok u =>
        have hthere := Disk.kindAt_of_makeDirs hd hout hanswer
        have hfile' : (Disk.makeDirs output w.disk).2.root.bytesAt source.place = none := by
          rw [hmade.bytesAt, hfile]
        have hkeeps := keeps_buildBelow hsource hout hwithin hfile' hthere hbundler hcopy
        rw [← hmade.bytesAt q]
        exact (hkeeps { w with disk := (Disk.makeDirs output w.disk).2 }
          (Confined.refl hmade.plain)).bytes q hq

/-- A configuration that copies one directory of the given name and bundles nothing. -/
def copying (name : Text) : Config :=
  { build := { copyDirs := [name] }, bundler := { enable := false } }

/-- A project with a page and a file that accompanies it, and beside it a directory to be copied and
another one. -/
def besideProject : Work where
  disk :=
    { root := .dir [("p".toList, .dir [
        ("assets".toList, .dir [("style.css".toList, .file "p { }".toUTF8)]),
        ("shared".toList, .dir [("keep.txt".toList, .file "keep".toUTF8)]),
        ("site".toList, .dir [("pages".toList, .dir [
          ("logo.svg".toList, .file "<svg/>".toUTF8),
          ("page.pw".toList, .file "<p>home</p>".toUTF8)])])])]
      cwd := [] }

/-- The build of this project writes three kinds of files into its output and leaves what is beside
the output as it is. -/
theorem bytesAt_buildProject_assets :
    Plain besideProject.disk ∧
      besideProject.disk.root.bytesAt (Path.place ⟨"/p/site".toList⟩) = none ∧
      (let after := ((buildProject (copying "assets".toList) ⟨"/p/site".toList⟩
        ⟨"/p/out".toList⟩).result besideProject).2.disk.root
      (after.bytesAt ["p".toList, "out".toList, "pages".toList, "page.js".toList]).isSome ∧
        after.bytesAt ["p".toList, "out".toList, "pages".toList, "logo.svg".toList] =
          some "<svg/>".toUTF8 ∧
        after.bytesAt ["p".toList, "out".toList, "assets".toList, "style.css".toList] =
          some "p { }".toUTF8) ∧
      ∀ q, ¬ Path.place ⟨"/p/out".toList⟩ <+: q →
        ((buildProject (copying "assets".toList) ⟨"/p/site".toList⟩ ⟨"/p/out".toList⟩).result
          besideProject).2.disk.root.bytesAt q = besideProject.disk.root.bytesAt q := by
  have hplain : Plain besideProject.disk := ⟨by decide, by decide⟩
  have hfile : besideProject.disk.root.bytesAt (Path.place ⟨"/p/site".toList⟩) = none := by decide
  refine ⟨hplain, hfile, by decide +kernel, fun q hq => ?_⟩
  exact bytesAt_buildProject_of_outside hplain (by decide) (by decide) hfile rfl (by decide) hq

/-- A name that leads out of the output: the file is copied onto itself, and loses its bytes. -/
theorem bytesAt_buildProject_shared :
    Plain besideProject.disk ∧ (copying "../shared".toList).validate = .ok () ∧
      ¬ Path.place ⟨"/p/out".toList⟩ <+: ["p".toList, "shared".toList, "keep.txt".toList] ∧
      besideProject.disk.root.bytesAt ["p".toList, "shared".toList, "keep.txt".toList] =
        some "keep".toUTF8 ∧
      ((buildProject (copying "../shared".toList) ⟨"/p/site".toList⟩ ⟨"/p/out".toList⟩).result
        besideProject).2.disk.root.bytesAt ["p".toList, "shared".toList, "keep.txt".toList] =
        some .empty := by
  refine ⟨⟨by decide, by decide⟩, rfl, by decide, by decide, ?_⟩
  decide +kernel

end Quire.Build
