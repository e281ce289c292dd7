import Quire.Proofs.Build.Concluding

/-!
A build depends on where its paths lead. Under two spellings of its source and its output it is
refused or not, it leaves the same disk and it reports the same, up to how the report spells its
paths. What is excepted is what the build reads off the spelling: whether the output is the source
itself, and which directory is above the source.
-/

namespace Quire.Build

open Disk (Place Plain Node Leads extent)

variable {F : Failure → Failure → Prop} {c : Config} {start : Disk} {size spare : Nat}
  {source source' output output' : Path} {w : Work}

section

variable (hstart : start.Plain) (hbound : ∀ q, (start.root.kindAt q).isSome → extent q ≤ size)
  (houts : Synonyms start (size + 2 * spare) output output')
  (hsources : Synonyms start (size + 2 * spare) source source')
  (hslash : '/' ∉ c.build.moduleExt) (hspare : 64 + 2 * c.build.moduleExt.byteSize ≤ spare)
  (hbundler : c.bundler.enable = false) (hoff : ¬ output.place <+: source.place)
  (hcopy : ∀ k ∈ c.build.copyDirs, IsDownward k ∧ k.byteSize + 1 ≤ spare)
  (habove : c.build.copyDirs = [] ∨
    source'.parent?.map Path.place = source.parent?.map Path.place)

include hstart hbound houts hsources hslash hspare hbundler hoff hcopy habove

/-- What a build does below its output comes to the same, and does not fail. -/
theorem coupled_buildBelow :
    Coupled (OneDisk start output.place (size + spare)) F
      (fun r r' => r'.settled = r.settled) (buildBelow c source output)
      (buildBelow c source' output') := by
  unfold buildBelow
  refine (Coupled.say _ _ _ _).bind fun _ _ _ => ?_
  have hpass : SamePass (passOf c source) (passOf c source') :=
    ⟨hsources.leads.isAbsolute, hsources.leads'.isAbsolute, hsources.place, rfl⟩
  refine (coupled_takeTree hstart hbound houts hpass hsources hoff hslash ?_ habove hcopy).bind
    fun y y' h => coupled_finish hbound houts hslash hspare hbundler h
  exact (show c.build.moduleExt.byteSize + 1 ≤ spare by omega)

end

/-- How many bytes a build puts at most behind its source and its output: a path of the disk, twice
what its configuration adds to one, and what it makes by itself. -/
def headroom (c : Config) (d : Disk) : Nat :=
  d.root.extent + 4 * c.build.moduleExt.byteSize +
    2 * (c.build.copyDirs.map Text.byteSize).sum + 384

theorem byteSize_le_sum {k : Text} {ks : List Text} (hk : k ∈ ks) :
    k.byteSize ≤ (ks.map Text.byteSize).sum := by
  induction ks with
  | nil => cases hk
  | cons l ks ih =>
      rw [List.map_cons, List.sum_cons]
      rcases List.mem_cons.1 hk with rfl | hk
      · omega
      · have hle := ih hk
        omega

theorem steps_normalize_isPrefix_iff {p q : Path} (hp : p.isAbsolute) (hq : q.isAbsolute) :
    p.normalize.steps <+: q.normalize.steps ↔ p.place <+: q.place := by
  rw [Path.steps_normalize hp, Path.steps_normalize hq, List.cons_prefix_cons]
  constructor
  · rintro ⟨-, hpre⟩
    obtain ⟨front, hfront, hsame⟩ := List.prefix_map_iff.1 hpre
    rwa [Path.map_name_inj hsame]
  · exact fun hpre => ⟨rfl, hpre.map _⟩

/-- What is above two absolute paths is one place if it has one normal form. -/
theorem parent?_place_congr {p q : Path} (hp : p.isAbsolute) (hq : q.isAbsolute)
    (h : q.parent?.map Path.normalize = p.parent?.map Path.normalize) :
    q.parent?.map Path.place = p.parent?.map Path.place := by
  cases ha : p.parent? with
  | none =>
      rw [ha, Option.map_none, Option.map_eq_none_iff] at h
      rw [h]
  | some a =>
      rw [ha] at h
      obtain ⟨b, hb, hnormalize⟩ := Option.map_eq_some_iff.1 h
      rw [hb, Option.map_some, Option.map_some, (Path.normalize_eq_iff
        (Path.isAbsolute_of_parent? hp ha).1 (Path.isAbsolute_of_parent? hq hb).1).1 hnormalize]

/-- A build is refused when its output is its source or above it. -/
theorem isWithin_iff_isPrefix (hout : output.isAbsolute) (hsource : source.isAbsolute)
    (honto : output.place = source.place → source.sameSteps output) :
    output.isWithin source ↔ output.place <+: source.place := by
  refine ⟨Path.place_isPrefix_of_isWithin hout hsource, fun hpre => ?_⟩
  by_cases heq : output.place = source.place
  · exact Bool.or_eq_true_iff.2 (Or.inl (honto heq))
  · exact Path.isWithin_of_place_isPrefix hout hsource hpre heq

/-- Two spellings of an absolute path, both with room for so many bytes more. -/
structure Respelled (room : Nat) (p q : Path) : Prop where
  isAbsolute : p.isAbsolute
  isAbsolute' : q.isAbsolute
  normalize : q.normalize = p.normalize
  short : p.text.byteSize + room ≤ Disk.maxPath
  short' : q.text.byteSize + room ≤ Disk.maxPath

namespace Respelled

variable {d : Disk} {room : Nat} {p q : Path}

theorem place (h : Respelled room p q) : q.place = p.place :=
  (Path.normalize_eq_iff h.isAbsolute h.isAbsolute').1 h.normalize

theorem synonyms (h : Respelled room p q) (hp : Leads d p) (hq : Leads d q) :
    Synonyms d room p q := ⟨hp, hq, h.place, h.short, h.short'⟩

section

variable (hd : d.Plain) (h : Respelled room output output') (hpasses : d.Passes output)
  (hpasses' : d.Passes output')

include hd h hpasses hpasses'

/-- The same output is made. -/
theorem makeDirs : Disk.makeDirs output' d = Disk.makeDirs output d :=
  hpasses.makeDirs_alike hd h.isAbsolute (Nat.le_of_add_right_le h.short) hpasses' h.isAbsolute'
    (Nat.le_of_add_right_le h.short') h.place

/-- Both spellings of an output lead to it when it has been made. -/
theorem synonyms_output (hmade : (Disk.makeDirs output d).1 = .ok ()) (hne : output.place ≠ []) :
    Synonyms (Disk.makeDirs output d).2 room output output' := by
  have hplain := (Disk.furnished_makeDirs hd h.isAbsolute).plain
  have hleads : ∀ {o : Path}, o.isAbsolute → o.place = output.place →
      Disk.makeDirs o d = Disk.makeDirs output d → Leads (Disk.makeDirs output d).2 o := by
    intro o ho hplace hsame
    rcases Disk.isDir_of_makeDirs hd ho (hsame ▸ hmade) with hthere | hroot
    · exact Disk.leads_of_isDir hplain ho (hsame ▸ hthere)
    · refine absurd ?_ hne
      rw [← hplace, Path.place_of_isAbsolute ho, hroot]
      rfl
  exact h.synonyms (hleads h.isAbsolute rfl rfl)
    (hleads h.isAbsolute' h.place (h.makeDirs hd hpasses hpasses'))

omit hpasses' in
/-- The output is not much further down than what was there. -/
theorem extent_le {q : Place} (hq : ((Disk.makeDirs output d).2.root.kindAt q).isSome) :
    extent q ≤ d.root.extent + 256 := by
  rcases hpasses.kindAt_makeDirs hd h.isAbsolute (Nat.le_of_add_right_le h.short) hq with
    hq | ⟨front, n, rfl, hn, hfront⟩
  · exact Nat.le_add_right_of_le (Node.extent_le_of_kindAt hq)
  · have hle := Node.extent_le_of_kindAt (Option.isSome_of_mem hfront)
    have hname : n.byteSize ≤ 255 := hn
    rw [Disk.extent_append, Disk.extent_cons, Disk.extent_nil]
    omega

end

end Respelled

section

variable (hd : w.disk.Plain) (hbundler : c.bundler.enable = false)
  (hslash : '/' ∉ c.build.moduleExt) (hcopy : ∀ k ∈ c.build.copyDirs, IsDownward k)
  (hsources : Respelled (headroom c w.disk) source source')
  (houts : Respelled (headroom c w.disk) output output')
  (hdir : w.disk.isDir source) (hdir' : w.disk.isDir source')
  (hpasses : w.disk.Passes output) (hpasses' : w.disk.Passes output')
  (habove : c.build.copyDirs = [] ∨
    source'.parent?.map Path.normalize = source.parent?.map Path.normalize)

include hd hbundler hslash hcopy hsources houts hdir hdir' hpasses hpasses' habove

/-- In an output that has been made, two builds that are not refused come to the same. -/
theorem coupledAt_buildBelow (hoff : ¬ output.place <+: source.place)
    (hmade : (Disk.makeDirs output w.disk).1 = .ok ()) :
    CoupledAt (fun d e => e = d) F (fun r r' => r'.settled = r.settled)
      (buildBelow c source output) { w with disk := (Disk.makeDirs output w.disk).2 }
      (buildBelow c source' output') { w with disk := (Disk.makeDirs output w.disk).2 } := by
  have hfurnished := Disk.furnished_makeDirs hd houts.isAbsolute
  have hne : output.place ≠ [] := fun hnil => hoff (hnil ▸ List.nil_prefix)
  have hleads : ∀ {p : Path}, p.isAbsolute → w.disk.isDir p →
      Leads (Disk.makeDirs output w.disk).2 p := fun hp hdir =>
    (Disk.leads_of_isDir hd hp hdir).of_kinds fun _ _ => hfurnished.kindAt
  obtain ⟨spare, hspare⟩ : ∃ spare, spare =
    64 + 2 * c.build.moduleExt.byteSize + (c.build.copyDirs.map Text.byteSize).sum := ⟨_, rfl⟩
  have hroom : w.disk.root.extent + 256 + 2 * spare ≤ headroom c w.disk := by
    unfold headroom
    omega
  have hnames : ∀ k ∈ c.build.copyDirs, IsDownward k ∧ k.byteSize + 1 ≤ spare := by
    intro k hk
    have hle := byteSize_le_sum hk
    exact ⟨hcopy k hk, by omega⟩
  have hbuilt := coupled_buildBelow (F := F) hfurnished.plain
    (fun _ => houts.extent_le hd hpasses)
    ((houts.synonyms_output hd hpasses hpasses' hmade hne).weaken hroom)
    ((hsources.synonyms (hleads hsources.isAbsolute hdir)
      (hleads hsources.isAbsolute' hdir')).weaken hroom)
    hslash (by omega) hbundler hoff hnames
    (habove.imp_right (parent?_place_congr hsources.isAbsolute hsources.isAbsolute'))
    { w with disk := (Disk.makeDirs output w.disk).2 }
    { w with disk := (Disk.makeDirs output w.disk).2 } ⟨rfl, Reworked.refl hfurnished.plain⟩
  exact ⟨hbuilt.answers, hbuilt.disks.same⟩

/-- A build under two spellings of its source and of its output is refused under both or under none,
leaves one disk and comes to the same. The output must not be the source itself under other steps,
and what is copied must be looked for beside one place. -/
theorem buildProject_respelled (honto : output.normalize = source.normalize →
      source.sameSteps output ∧ source'.sameSteps output') :
    ((buildProject c source output).result w =
        (.error (.failure (.outputHoldsSource output source)), w) ↔
      output.normalize.steps <+: source.normalize.steps) ∧
    ((buildProject c source' output').result w =
        (.error (.failure (.outputHoldsSource output' source')), w) ↔
      output.normalize.steps <+: source.normalize.steps) ∧
    ((buildProject c source' output').result w).2.disk =
      ((buildProject c source output).result w).2.disk ∧
    Matches ToldAlike (fun r r' => r'.settled = r.settled)
      ((buildProject c source output).result w).1
      ((buildProject c source' output').result w).1 := by
  rw [Path.normalize_eq_iff hsources.isAbsolute houts.isAbsolute] at honto
  have hwithin := isWithin_iff_isPrefix houts.isAbsolute hsources.isAbsolute fun h => (honto h).1
  have hwithin' := isWithin_iff_isPrefix houts.isAbsolute' hsources.isAbsolute' fun heq =>
    (honto (by rwa [houts.place, hsources.place] at heq)).2
  rw [houts.place, hsources.place] at hwithin'
  rw [steps_normalize_isPrefix_iff houts.isAbsolute hsources.isAbsolute]
  by_cases hpre : output.place <+: source.place
  · have hrefused : ∀ {o s : Path}, o.isWithin s → (buildProject c s o).result w =
        (.error (.failure (.outputHoldsSource o s)), w) := fun h => by
      rw [buildProject_eq, if_pos h]
      rfl
    rw [hrefused (hwithin.2 hpre), hrefused (hwithin'.2 hpre)]
    refine ⟨by simp [hpre], by simp [hpre], rfl, .failure ?_⟩
    simp only [ToldAlike, Failure.settled, hsources.normalize, houts.normalize]
  · rw [result_buildProject (hpre ∘ hwithin.1), result_buildProject (hpre ∘ hwithin'.1),
      houts.makeDirs hd hpasses hpasses']
    cases hmade : (Disk.makeDirs output w.disk).1 with
    | error f =>
        refine ⟨by simp [hpre], by simp [hpre], rfl, .failure ?_⟩
        simp only [ToldAlike, Failure.settled, houts.normalize]
    | ok u =>
        -- below the output no failure ends a build, so none is a refusal
        obtain ⟨hanswers, hsame⟩ := coupledAt_buildBelow (F := fun _ _ => False) hd hbundler hslash
          hcopy hsources houts hdir hdir' hpasses hpasses' habove hpre hmade
        generalize (buildBelow c source output).result _ = run at hanswers hsame ⊢
        generalize (buildBelow c source' output').result _ = run' at hanswers hsame ⊢
        obtain ⟨answer, after⟩ := run
        obtain ⟨answer', after'⟩ := run'
        cases hanswers with
        | ok hreports => exact ⟨by simp [hpre], by simp [hpre], hsame, .ok hreports⟩
        | failure hnone => exact hnone.elim
        | badExtension ext => exact ⟨by simp [hpre], by simp [hpre], hsame, .badExtension ext⟩

end

/-- A project with a directory beside it that is copied. -/
def spelledProject : Work where
  disk :=
    { root := .dir [("p".toList, .dir [
        ("assets".toList, .dir [("a.txt".toList, .file "a".toUTF8)]),
        ("site".toList, .dir [("pages".toList, .dir [
          ("page.pw".toList, .file "<p>home</p>".toUTF8)])])])]
      cwd := [] }

/-- What a report counts, and what it says of the routes. -/
def Report.counts (r : Report) : Nat × Nat × Nat × Nat × Text :=
  (r.transpiled, r.clientOnly, r.copied, r.failed.length, r.routes.label)

theorem buildProject_respelled_beside :
    Plain spelledProject.disk ∧
      Respelled (headroom (copying "assets".toList) spelledProject.disk)
        ⟨"/p/site".toList⟩ ⟨"/p/assets/.././site".toList⟩ ∧
      Respelled (headroom (copying "assets".toList) spelledProject.disk)
        ⟨"/p/out".toList⟩ ⟨"/p/site/../out/".toList⟩ ∧
      ((buildProject (copying "assets".toList) ⟨"/p/assets/.././site".toList⟩
          ⟨"/p/site/../out/".toList⟩).result spelledProject).2.disk =
        ((buildProject (copying "assets".toList) ⟨"/p/site".toList⟩
          ⟨"/p/out".toList⟩).result spelledProject).2.disk ∧
      ∃ r r', ((buildProject (copying "assets".toList) ⟨"/p/site".toList⟩
          ⟨"/p/out".toList⟩).result spelledProject).1 = .ok r ∧
        ((buildProject (copying "assets".toList) ⟨"/p/assets/.././site".toList⟩
          ⟨"/p/site/../out/".toList⟩).result spelledProject).1 = .ok r' ∧
        r.counts = (1, 0, 1, 0, "1".toList) ∧ r'.settled = r.settled := by
  have hplain : Plain spelledProject.disk := ⟨by decide, by decide⟩
  have hsources : Respelled (headroom (copying "assets".toList) spelledProject.disk)
      ⟨"/p/site".toList⟩ ⟨"/p/assets/.././site".toList⟩ := by
    constructor <;> decide
  have houts : Respelled (headroom (copying "assets".toList) spelledProject.disk)
      ⟨"/p/out".toList⟩ ⟨"/p/site/../out/".toList⟩ := by
    constructor <;> decide
  obtain ⟨-, -, hdisks, hanswers⟩ := buildProject_respelled (c := copying "assets".toList)
    hplain rfl (by decide) (by decide) hsources houts (by decide) (by decide)
    (Or.inr ⟨⟨"/p".toList⟩, "out".toList, false, by decide⟩)
    (Or.inr ⟨⟨"/p/site/..".toList⟩, "out".toList, true, by decide⟩) (Or.inr (by decide)) (by decide)
  have hcounts : ((buildProject (copying "assets".toList) ⟨"/p/site".toList⟩
      ⟨"/p/out".toList⟩).result spelledProject).1.toOption.map Report.counts =
        some (1, 0, 1, 0, "1".toList) := by decide +kernel
  refine ⟨hplain, hsources, houts, hdisks, ?_⟩
  generalize ((buildProject (copying "assets".toList) ⟨"/p/site".toList⟩
    ⟨"/p/out".toList⟩).result spelledProject).1 = answer at hanswers hcounts ⊢
  generalize ((buildProject (copying "assets".toList) ⟨"/p/assets/.././site".toList⟩
    ⟨"/p/site/../out/".toList⟩).result spelledProject).1 = answer' at hanswers ⊢
  cases hanswers with
  | ok hsettled => exact ⟨_, _, rfl, rfl, Option.some.inj hcounts, hsettled⟩
  | failure => cases hcounts
  | badExtension => cases hcounts

/-- An output that leads to the source under a detour is not refused; and beside a source that is
spelled with a detour the directory to copy is not found. -/
theorem buildProject_detour :
    Plain spelledProject.disk ∧
      (Path.mk "/p/site/pages/..".toList).normalize = (Path.mk "/p/site".toList).normalize ∧
      spelledProject.disk.isDir ⟨"/p/site/pages/..".toList⟩ ∧
      (((buildProject copyingNothing ⟨"/p/site".toList⟩ ⟨"/p/site".toList⟩).result
          spelledProject).1.toOption.map Report.counts = none ∧
        ((buildProject copyingNothing ⟨"/p/site".toList⟩ ⟨"/p/site/pages/..".toList⟩).result
          spelledProject).1.toOption.map Report.counts = some (0, 0, 0, 0, "0".toList)) ∧
      ((buildProject (copying "assets".toList) ⟨"/p/site".toList⟩ ⟨"/p/out".toList⟩).result
          spelledProject).1.toOption.map Report.counts = some (1, 0, 1, 0, "1".toList) ∧
        ((buildProject (copying "assets".toList) ⟨"/p/site/pages/..".toList⟩
          ⟨"/p/out".toList⟩).result spelledProject).1.toOption.map Report.counts =
            some (1, 0, 0, 0, "1".toList) := by
  refine ⟨⟨by decide, by decide⟩, by decide, by decide, ⟨?_, ?_⟩, ?_, ?_⟩ <;> decide +kernel

end Quire.Build
