import Mathlib.Data.List.Sort
import Quire.Proofs.Build.Twinning

/-!
One template among other sources. Two walks through sources that differ in the text of one template
take courses through the same files, and end alike for all others, whatever comes of that one. Only
why a source fails may differ, where the output's own path takes a detour.
-/

namespace Quire.Build

open Disk (Place Plain Leads Node IsName Direct)

variable {d d' e e' last last' : Disk} {pass : Pass} {output : Path} {names t x : List Text}
  {f : Finding} {found found' : List Finding} {strict : Prop}

/-! The course of a walk. -/

/-- Whether a file was met. -/
def Met.isFile : Met → Bool
  | .file => true
  | .unlisted _ => false

/-- What was found of the files. -/
def files (found : List Finding) : List Finding := found.filter (·.met.isFile)

/-- What was found of all files but one. -/
def others (t : List Text) (found : List Finding) : List Finding :=
  (files found).filter (·.names ≠ t)

/-- From one disk to another by what was done with the files of some findings. -/
inductive Course (pass : Pass) (output : Path) (d : Disk) : Disk → List Finding → Disk → Prop
  | nil (e : Disk) : Course pass output d e [] e
  | cons {e last : Disk} {found : List Finding} (f : Finding)
      (hw : Confined (Inside output.place) d e) (hends : Ends pass output d e f.names .file f.fate)
      (hrest : Course pass output d (pass.after output e f.names) found last) :
      Course pass output d e (f :: found) last

theorem Course.append (h : Course pass output d e found last)
    (h' : Course pass output d last found' last') :
    Course pass output d e (found ++ found') last' := by
  induction h with
  | nil e => exact h'
  | cons f hw hends _ ih => exact .cons f hw hends (ih h')

/-- A walk takes a course. -/
theorem exists_course_takeTree {w : Work} (hd : w.disk.Plain) (hroot : pass.root.isAbsolute)
    (hout : output.isAbsolute) (hdir : w.disk.isDir pass.root) (hext : '/' ∉ pass.ext.module) :
    ∃ found y after, (pass.takeTree output []).result w = (.ok y, after) ∧
      Accounted pass output w.disk found y ∧
      Course pass output w.disk w.disk (files found) after.disk := by
  have hunhindered := unhindered_visit hd hroot hout hdir hext
  obtain ⟨met, hmet, htour⟩ := exists_tour_run hunhindered {} rfl
  obtain ⟨found, y, after, hanswer, htally, hmap, hends, hcourse⟩ :=
    exists_found_keeping (P := fun found d => Course pass output w.disk w.disk (files found) d) hd
      hunhindered.leads hout hext (meetable_of_tour htour)
      (fun before f y w' after hw hbefore _ hends htake => by
        have hcarry := carry_take pass output y f.names f.met w'
        rw [htake] at hcarry
        unfold files at hbefore ⊢
        rw [List.filter_append]
        obtain ⟨names, m, fate⟩ := f
        cases m with
        | file =>
            refine hbefore.append (.cons ⟨names, .file, fate⟩ hw hends ?_)
            rw [← hcarry]
            exact .nil _
        | unlisted fault =>
            have hkept : after.disk = w'.disk := hcarry.symm
            rw [hkept]
            simpa [Met.isFile] using hbefore)
      [] {} (Confined.refl hd) (.nil _)
  refine ⟨found, y, after, ?_, accounted_of_found htour htally hmap hends, hcourse⟩
  rw [takeTree_nil]
  exact hmet.trans hanswer

theorem direct_mono (h : Direct d.root output)
    (hkinds : ∀ q, d.root.kindAt q = some .dir → e.root.kindAt q = some .dir) :
    Direct e.root output := fun q hq => (h q hq).imp_right (hkinds q)

/-- Side by side, two courses through the same files end alike for each of them but the template. -/
theorem Lone.courses (hl : Lone pass output t) (hd : d.Plain) (hd' : d'.Plain)
    (hleads : Leads d pass.root) (hleads' : Leads d' pass.root)
    (hstrict : strict → Direct d.root output ∧ Direct d'.root output)
    (hsame : ∀ x, Due (pass.visit output) d x → x ≠ t →
      pass.outcome d' (below pass.root x) = pass.outcome d (below pass.root x))
    (hapart : ∀ x, Due (pass.visit output) d x → x ≠ t → pass.Compiles x ∨ pass.Carries x →
      Apart (pass.mirror t) (pass.mirror x))
    (hcourse : Course pass output d e found last) (hcourse' : Course pass output d' e' found' last')
    (hnames : found'.map (·.names) = found.map (·.names))
    (hdue : ∀ f ∈ found, Due (pass.visit output) d f.names)
    (hdue' : ∀ f ∈ found', Due (pass.visit output) d' f.names) (h : pass.Twins output t e e') :
    pass.Twins output t last last' ∧
      List.Forall₂ (fun f g => g.names = f.names ∧ (f.names ≠ t → Fate.Like strict f.fate g.fate))
        found found' := by
  induction hcourse generalizing e' found' with
  | nil e =>
      obtain rfl := List.map_eq_nil_iff.1 hnames
      cases hcourse'
      exact ⟨h, .nil⟩
  | @cons e last found f hw hends hrest ih =>
      cases hcourse' with
      | nil => simp at hnames
      | @cons _ _ found' g hw' hends' hrest' =>
          obtain ⟨hhead, htail⟩ := List.cons.inj hnames
          simp only at hhead
          have hf := hdue f List.mem_cons_self
          have hg := hdue' g List.mem_cons_self
          rw [hhead] at hends' hrest' hg
          have hall : pass.Twins output t (pass.after output e f.names)
                (pass.after output e' f.names) ∧
              (f.names ≠ t → Fate.Like strict f.fate g.fate) := by
            by_cases hother : f.names = t
            · rw [hother]
              exact ⟨(hl.take_alone (hl.take_alone h).symm).symm, fun hne => absurd rfl hne⟩
            · have hisName : ∀ n ∈ f.names, IsName n := isName_of_kindAt hd (by rw [hf.file]; rfl)
              have houtside := not_inside_of_not_isWithin hl.out (isAbsolute_below hl.root f.names)
                hf.skips
              rw [place_below hl.root (ordinary_of_isName hisName)] at houtside
              obtain ⟨hlike, htwins⟩ := hl.take_other h (hleads.of_kinds hw.kinds)
                (hleads'.of_kinds hw'.kinds) hisName hf.ne_nil hother
                (fun hs => ⟨direct_mono (hstrict hs).1 fun q => hw.kinds q .dir,
                  direct_mono (hstrict hs).2 fun q => hw'.kinds q .dir⟩)
                (hw.kinds _ _ hf.file) houtside (hapart _ hf hother)
                (outcome_of_confined hd hleads hl.out hf hw)
                (outcome_of_confined hd' hleads' hl.out hg hw') (hsame _ hf hother) hends hends'
              exact ⟨htwins, fun _ => hlike⟩
          obtain ⟨htwins, hfates⟩ := ih hrest' htail
            (fun f hf => hdue f (List.mem_cons_of_mem _ hf))
            (fun g hg => hdue' g (List.mem_cons_of_mem _ hg)) hall.1
          exact ⟨htwins, .cons ⟨hhead, hall.2⟩ hfates⟩

/-- What is alike for all files but one is alike for all others. -/
theorem forall₂_filter
    (h : List.Forall₂ (fun f g => g.names = f.names ∧
      (f.names ≠ t → Fate.Like strict f.fate g.fate)) found found') :
    List.Forall₂ (fun f g => g.names = f.names ∧ Fate.Like strict f.fate g.fate)
      (found.filter (·.names ≠ t)) (found'.filter (·.names ≠ t)) := by
  induction h with
  | nil => exact .nil
  | @cons f g _ _ hhead _ ih =>
      by_cases hother : f.names = t
      · rwa [List.filter_cons_of_neg (by simp [hother]),
          List.filter_cons_of_neg (by simp [hhead.1, hother])]
      · rw [List.filter_cons_of_pos (by simp [hother]),
          List.filter_cons_of_pos (by simp [hhead.1, hother])]
        exact .cons ⟨hhead.1, hhead.2 hother⟩ ih

theorem flatMap_references
    (h : List.Forall₂ (fun f g => g.names = f.names ∧ Fate.Like strict f.fate g.fate)
      found found') :
    found'.flatMap (·.fate.references) = found.flatMap (·.fate.references) := by
  induction h with
  | nil => rfl
  | cons hhead _ ih => rw [List.flatMap_cons, List.flatMap_cons, ih, hhead.2.references]

theorem Accounted.due_of_mem_files {y : Yield} (h : Accounted pass output d found y)
    (hf : f ∈ files found) : Due (pass.visit output) d f.names := by
  obtain ⟨hf, hmet⟩ := List.mem_filter.1 hf
  refine (h.file f.names).1 ⟨f, hf, rfl, ?_⟩
  cases hm : f.met with
  | file => rfl
  | unlisted fault => simp [hm, Met.isFile] at hmet

/-- The files that are found are told by what is to be met, since they are found in order. -/
theorem names_files {y y' : Yield} (h : Accounted pass output d found y)
    (h' : Accounted pass output d' found' y')
    (hdue : ∀ x, Due (pass.visit output) d' x ↔ Due (pass.visit output) d x) :
    (files found').map (·.names) = (files found).map (·.names) := by
  have hmem : ∀ {d : Disk} {found : List Finding} {y : Yield}, Accounted pass output d found y →
      ∀ x, x ∈ (files found).map (·.names) ↔ Due (pass.visit output) d x := by
    intro d found y h x
    rw [← h.file, List.mem_map]
    constructor
    · rintro ⟨f, hf, rfl⟩
      exact (h.file f.names).2 (h.due_of_mem_files hf)
    · rintro ⟨f, hf, rfl, hmet⟩
      exact ⟨f, List.mem_filter.2 ⟨hf, by rw [hmet]; rfl⟩, rfl⟩
  have hordered : ∀ {d : Disk} {found : List Finding} {y : Yield},
      Accounted pass output d found y → ((files found).map (·.names)).Pairwise (· < ·) := fun h =>
    List.pairwise_map.2 (h.ordered.sublist List.filter_sublist)
  exact (hordered h').eq_of_mem_iff (hordered h) fun x => by rw [hmem h', hmem h, hdue]

theorem mirror_ne_nil (hne : names ≠ []) (h : pass.Compiles names ∨ pass.Carries names) :
    pass.mirror names ≠ [] := by
  rcases h with htemplate | hasset
  · obtain ⟨dir, n, rfl⟩ := (List.eq_nil_or_concat' names).resolve_left hne
    rw [mirror_of_compiles htemplate]
    simp
  · rwa [mirror_of_carries hasset]

/-- The failure of one template does not matter to any other source. -/
theorem takeTree_isolated {w w' : Work} (hd : w.disk.Plain) (hd' : w'.disk.Plain)
    (hcwd : w'.disk.cwd = w.disk.cwd) (hroot : pass.root.isAbsolute) (hout : output.isAbsolute)
    (hdir : w.disk.isDir pass.root) (hext : '/' ∉ pass.ext.module) (htemplate : pass.Compiles t)
    (houtside : ¬ output.isWithin (below pass.root t))
    (hfile : w.disk.root.kindAt (pass.root.place ++ t) = some .file)
    (hfile' : w'.disk.root.kindAt (pass.root.place ++ t) = some .file)
    (hseen : ∀ q, q ≠ pass.root.place ++ t → w'.disk.root.seen q = w.disk.root.seen q)
    (hapart : ∀ x, Due (pass.visit output) w.disk x → x ≠ t → pass.Compiles x ∨ pass.Carries x →
      Apart (pass.mirror t) (pass.mirror x)) :
    ∃ found y after found' y' after',
      (pass.takeTree output []).result w = (.ok y, after) ∧
      Accounted pass output w.disk found y ∧
      (pass.takeTree output []).result w' = (.ok y', after') ∧
      Accounted pass output w'.disk found' y' ∧
      List.Forall₂ (fun f g => g.names = f.names ∧
          Fate.Like (Direct w.disk.root output) f.fate g.fate) (others t found) (others t found') ∧
      (others t found').flatMap (·.fate.references) = (others t found).flatMap (·.fate.references) ∧
      ∀ x, Due (pass.visit output) w.disk x → x ≠ t → pass.Compiles x ∨ pass.Carries x →
        after'.disk.root.bytesAt (output.place ++ pass.mirror x) =
          after.disk.root.bytesAt (output.place ++ pass.mirror x) := by
  have hkinds : ∀ q, w'.disk.root.kindAt q = w.disk.root.kindAt q := fun q => by
    by_cases hq : q = pass.root.place ++ t
    · rw [hq, hfile, hfile']
    · exact Node.kindAt_congr (hseen q hq)
  have hleads := Disk.leads_of_isDir hd hroot hdir
  have hleads' : Leads w'.disk pass.root := hleads.of_kinds fun q k hq => (hkinds q).trans hq
  have hisName : ∀ n ∈ t, IsName n := isName_of_kindAt hd (by rw [hfile]; rfl)
  have hoff := not_inside_of_not_isWithin hout (isAbsolute_below hroot t) houtside
  rw [place_below hroot (ordinary_of_isName hisName)] at hoff
  have hl : Lone pass output t := {
    root := hroot
    out := hout
    ext := hext
    ne_nil := by
      rintro rfl
      rw [List.append_nil, hleads.dir] at hfile
      cases hfile
    isName := hisName
    compiles := htemplate
    outside := hoff }
  have hdue : ∀ x, Due (pass.visit output) w'.disk x ↔ Due (pass.visit output) w.disk x := fun x =>
    ⟨fun h => ⟨h.ne_nil, (hkinds _).symm.trans h.file, h.skips, h.short⟩,
      fun h => ⟨h.ne_nil, (hkinds _).trans h.file, h.skips, h.short⟩⟩
  have hstrict : Direct w.disk.root output →
      Direct w.disk.root output ∧ Direct w'.disk.root output := fun h =>
    ⟨h, direct_mono h fun q hq => (hkinds q).trans hq⟩
  obtain ⟨found, y, after, hrun, haccounted, hcourse⟩ :=
    exists_course_takeTree hd hroot hout hdir hext
  obtain ⟨found', y', after', hrun', haccounted', hcourse'⟩ :=
    exists_course_takeTree hd' hroot hout (hleads'.isDir hd') hext
  have hsame : ∀ x, Due (pass.visit output) w.disk x → x ≠ t →
      pass.outcome w'.disk (below pass.root x) = pass.outcome w.disk (below pass.root x) := by
    intro x hx hother
    obtain ⟨bytes, hbytes⟩ := Node.kindAt_file_iff.1 hx.file
    have hbytes' : w'.disk.root.bytesAt (pass.root.place ++ x) = some bytes :=
      (Node.bytesAt_congr (hseen _ fun heq => hother (List.append_cancel_left heq))).trans hbytes
    unfold Pass.outcome
    rw [readText_below hd hd' hleads hleads' (isName_of_kindAt hd (by rw [hx.file]; rfl)) hx.ne_nil
      hbytes hbytes']
  obtain ⟨htwins, hfates⟩ := hl.courses hd hd' hleads hleads' hstrict hsame hapart hcourse hcourse'
    (names_files haccounted haccounted' hdue) (fun _ => haccounted.due_of_mem_files)
    (fun _ => haccounted'.due_of_mem_files)
    ⟨hd, hd', hcwd, hfile, hfile', fun q hq => Or.inl (hseen q hq)⟩
  have hothers := forall₂_filter hfates
  refine ⟨found, y, after, found', y', after', hrun, haccounted, hrun', haccounted', hothers,
    flatMap_references hothers, fun x hx hother hsource => htwins.bytesAt (fun heq => ?_)
      fun heq => ?_⟩
  · exact hl.outside (heq ▸ inside_append (mirror_ne_nil hx.ne_nil hsource))
  · exact (hapart x hx hother hsource).1 (by rw [List.append_cancel_left heq])

/-- A project whose first template has the given text, and which has other sources. -/
def besideFirst (text : String) : Work where
  disk := Disk.put
    { root := .dir [("p".toList, .dir [
        ("out".toList, .dir [("f".toList, .file "f".toUTF8)]),
        ("site".toList, .dir [
          ("f".toList, .dir [("g".toList, .dir [("x.pw".toList, .file "<p>x</p>".toUTF8)])]),
          ("pages".toList, .dir [
            ("logo.svg".toList, .file "<svg/>".toUTF8),
            ("page.pw".toList, .file "<p>home</p>".toUTF8)])])])]
      cwd := [] }
    ["p".toList, "site".toList, "a.pw".toList] (some (.file text.toUTF8))

theorem seen_besideFirst (text text' : String) (q : Place)
    (hq : q ≠ ["p".toList, "site".toList, "a.pw".toList]) :
    (besideFirst text').disk.root.seen q = (besideFirst text).disk.root.seen q := by
  have hroom : ∀ base : Disk, base.root.kindAt ["p".toList, "site".toList] = some .dir →
      base.root.kindAt ["p".toList, "site".toList, "a.pw".toList] ≠ some .dir → ∀ text : String,
      (base.put ["p".toList, "site".toList, "a.pw".toList] (some (.file text.toUTF8))).root.seen q =
        base.root.seen q := fun base hdir hfree text => by
    have hroomy : Disk.Roomy base.root ["p".toList, "site".toList] "a.pw".toList :=
      ⟨hdir, by decide⟩
    have hput := @Disk.seen_put base _ (.file text.toUTF8) _ hroomy hfree rfl q
    rwa [List.cons_append, List.cons_append, List.nil_append, if_neg hq] at hput
  exact (hroom _ (by decide) (by decide) text').trans (hroom _ (by decide) (by decide) text).symm

/-- The pass over that project. -/
def besidePass : Pass := passOf copyingNothing ⟨"/p/site".toList⟩

theorem apart_besideFirst (text : String) (hx : x ≠ ["a.pw".toList])
    (hfile : (besideFirst text).disk.root.kindAt (["p".toList, "site".toList] ++ x) = some .file) :
    Apart (besidePass.mirror ["a.pw".toList]) (besidePass.mirror x) := by
  have hall : ∀ place ∈ (besideFirst "").disk.root.files, place.take 2 = ["p".toList, "site".toList] →
      place.drop 2 ≠ ["a.pw".toList] →
      Apart (besidePass.mirror ["a.pw".toList]) (besidePass.mirror (place.drop 2)) := by
    decide +kernel
  have hother : (["p".toList, "site".toList] ++ x : Place) ≠
      ["p".toList, "site".toList] ++ ["a.pw".toList] := fun heq => hx (List.append_cancel_left heq)
  rw [Node.kindAt_congr (seen_besideFirst "" text _ hother)] at hfile
  obtain ⟨bytes, hbytes⟩ := Node.kindAt_file_iff.1 hfile
  exact hall (["p".toList, "site".toList] ++ x) (Node.mem_files_of_bytesAt (by rw [hbytes]; rfl))
    rfl hx

theorem takeTree_isolated_beside :
    Plain (besideFirst "<p>a</p>").disk ∧ Plain (besideFirst "<p>\x7b").disk ∧
      ∃ found y after found' y' after',
        (besidePass.takeTree ⟨"/p/out".toList⟩ []).result (besideFirst "<p>a</p>") =
          (.ok y, after) ∧
        (besidePass.takeTree ⟨"/p/out".toList⟩ []).result (besideFirst "<p>\x7b") =
          (.ok y', after') ∧
        (y.transpiled, y.copied, y.failed.length) = (2, 1, 1) ∧
        (y'.transpiled, y'.copied, y'.failed.length) = (1, 1, 2) ∧
        List.Forall₂ (fun f g => g.names = f.names ∧ g.fate = f.fate)
          (others ["a.pw".toList] found) (others ["a.pw".toList] found') ∧
        after'.disk.root.bytesAt ["p".toList, "out".toList, "pages".toList, "page.js".toList] =
          after.disk.root.bytesAt ["p".toList, "out".toList, "pages".toList, "page.js".toList] := by
  have hplain : Plain (besideFirst "<p>a</p>").disk := ⟨by decide, by decide⟩
  have hplain' : Plain (besideFirst "<p>\x7b").disk := ⟨by decide, by decide⟩
  have hcounts : ((besidePass.takeTree ⟨"/p/out".toList⟩ []).result
      (besideFirst "<p>a</p>")).1.toOption.map (fun y => (y.transpiled, y.copied, y.failed.length)) =
        some (2, 1, 1) := by decide +kernel
  have hcounts' : ((besidePass.takeTree ⟨"/p/out".toList⟩ []).result
      (besideFirst "<p>\x7b")).1.toOption.map (fun y => (y.transpiled, y.copied, y.failed.length)) =
        some (1, 1, 2) := by decide +kernel
  have hdirect : Direct (besideFirst "<p>a</p>").disk.root ⟨"/p/out".toList⟩ := by decide
  have hdue : Due (besidePass.visit ⟨"/p/out".toList⟩) (besideFirst "<p>a</p>").disk
      ["pages".toList, "page.pw".toList] :=
    ⟨by decide, by decide, by decide, by decide⟩
  obtain ⟨found, y, after, found', y', after', hrun, -, hrun', -, hothers, -, hbytes⟩ :=
    @takeTree_isolated besidePass ⟨"/p/out".toList⟩ ["a.pw".toList] _ _
      hplain hplain' rfl (by decide) (by decide) (by decide) (by decide) ⟨by decide, by decide⟩
      (by decide) (by decide) (by decide) (seen_besideFirst _ _)
      fun x hx hother _ => apart_besideFirst _ hother hx.file
  rw [hrun] at hcounts
  rw [hrun'] at hcounts'
  refine ⟨hplain, hplain', found, y, after, found', y', after', hrun, hrun',
    Option.some.inj hcounts, Option.some.inj hcounts', hothers.imp fun f g h => ⟨h.1, ?_⟩,
    hbytes _ hdue (by decide) (Or.inl ⟨by decide, by decide⟩)⟩
  exact h.2.resolve_right fun hfail => hfail.1 hdirect

/-- A project with its output inside, which holds something already. -/
def holdingOutput (text : String) : Work where
  disk :=
    { root := .dir [("p".toList, .dir [("site".toList, .dir [
        ("pages".toList, .dir [("x.pw".toList, .file text.toUTF8)]),
        ("zout".toList, .dir [("pages".toList, .dir [("x.js".toList, .file "old".toUTF8)])])])])]
      cwd := ["p".toList] }

/-- Where the output's path takes a detour that the module of the template makes, another template
fails for another reason; and where the source is told by a relative path, what the template gives
is in the output itself taken for a source. -/
theorem takeTree_detour :
    (Plain (besideFirst "<p>a</p>").disk ∧ Plain (besideFirst "<p>\x7b").disk ∧
      (∀ q, q ≠ ["p".toList, "site".toList, "a.pw".toList] →
        (besideFirst "<p>\x7b").disk.root.seen q = (besideFirst "<p>a</p>").disk.root.seen q) ∧
      Apart (besidePass.mirror ["a.pw".toList])
        (besidePass.mirror ["f".toList, "g".toList, "x.pw".toList]) ∧
      ((besidePass.takeTree ⟨"/p/new/../out".toList⟩ []).result
          (besideFirst "<p>a</p>")).1.toOption.map
            (fun y => y.failed.map fun f => (String.ofList f.1.text, String.ofList f.2.message)) =
        some [("/p/site/f/g/x.pw",
          "IO error on `/p/new/../out/f/g`: Not a directory (os error 20)")] ∧
      ((besidePass.takeTree ⟨"/p/new/../out".toList⟩ []).result
          (besideFirst "<p>\x7b")).1.toOption.map
            (fun y => y.failed.tail.map fun f =>
              (String.ofList f.1.text, String.ofList f.2.message)) =
        some [("/p/site/f/g/x.pw",
          "IO error on `/p/new/../out/f/g`: File exists (os error 17)")]) ∧
    ((passOf copyingNothing ⟨"site".toList⟩).mirror ["pages".toList, "x.pw".toList] =
        ["pages".toList, "x.js".toList] ∧
      (passOf copyingNothing ⟨"site".toList⟩).mirror
          ["zout".toList, "pages".toList, "x.js".toList] =
        ["zout".toList, "pages".toList, "x.js".toList] ∧
      (((passOf copyingNothing ⟨"site".toList⟩).takeTree ⟨"/p/site/zout".toList⟩ []).result
          (holdingOutput "<p>\x7b")).2.disk.root.bytesAt
            ["p".toList, "site".toList, "zout".toList, "zout".toList, "pages".toList,
              "x.js".toList] = some "old".toUTF8 ∧
      (((passOf copyingNothing ⟨"site".toList⟩).takeTree ⟨"/p/site/zout".toList⟩ []).result
          (holdingOutput "<p>x</p>")).2.disk.root.bytesAt
            ["p".toList, "site".toList, "zout".toList, "zout".toList, "pages".toList,
              "x.js".toList] ≠ some "old".toUTF8) := by
  refine ⟨⟨⟨by decide, by decide⟩, ⟨by decide, by decide⟩, seen_besideFirst _ _, by decide,
    ?_, ?_⟩, by decide, by decide, ?_, ?_⟩ <;> decide +kernel

end Quire.Build
