import Quire.Proofs.Build.Routing
import Quire.Proofs.Build.Tidying

/-!
What a configuration is good for. Where the extensions are single words that fit into a name, every
page of a source tree becomes a module with a route; where they have dots or slashes, none may.
-/

namespace Quire

namespace Build

open Disk (Place Plain Node IsName IsLong Leads)
open Quire.Path (Ordinary)
open Route (pagesDir)

variable {d : Disk} {w after : Work} {pass : Pass} {source output : Path} {c : Config} {n : Text}
  {names : List Text} {dirs : List (List Text)} {y : Yield} {f : Finding} {found : List Finding}

/-! Sources that are pages and nothing else. -/

/-- The names of the page of a directory, by its names below the pages. -/
def pageNames (ext : Text) (names : List Text) : List Text :=
  pagesDir :: (names ++ ["page".toList ++ '.' :: ext])

/-- Whether bytes are a template that is not for the browser alone and that can be read. -/
def isWellFormed (bytes : ByteArray) : Bool :=
  match Text.ofBytes? bytes with
  | none => false
  | some text => !Template.hasClientDirective text && (Template.read text).toOption.isSome

/-- The files below a source are the pages of some directories, all of them well-formed. No name of
these directories has a dot. -/
structure PagesOnly (ext : Text) (source : Path) (dirs : List (List Text)) (d : Disk) : Prop where
  nodup : dirs.Nodup
  dotless : ∀ names ∈ dirs, ∀ n ∈ names, '.' ∉ n
  file_iff : ∀ q, d.root.kindAt (source.place ++ q) = some .file ↔
    ∃ names ∈ dirs, q = pageNames ext names
  wellFormed : ∀ names ∈ dirs,
    (d.root.bytesAt (source.place ++ pageNames ext names)).any isWellFormed

/-- What the list of all files tells of a source of pages. -/
theorem pagesOnly_of_files {ext : Text} (hnodup : dirs.Nodup)
    (hdotless : ∀ names ∈ dirs, ∀ n ∈ names, '.' ∉ n)
    (hfiles : d.root.files = dirs.map (source.place ++ pageNames ext ·))
    (hwell : ∀ names ∈ dirs,
      (d.root.bytesAt (source.place ++ pageNames ext names)).any isWellFormed) :
    PagesOnly ext source dirs d where
  nodup := hnodup
  dotless := hdotless
  wellFormed := hwell
  file_iff q := by
    constructor
    · intro hfile
      obtain ⟨bytes, hbytes⟩ := Node.kindAt_file_iff.1 hfile
      have hmem := Node.mem_files_of_bytesAt (Option.isSome_of_mem hbytes)
      rw [hfiles, List.mem_map] at hmem
      obtain ⟨names, hnames, heq⟩ := hmem
      exact ⟨names, hnames, (List.append_cancel_left heq).symm⟩
    · rintro ⟨names, hnames, rfl⟩
      obtain ⟨bytes, hbytes, -⟩ := (Option.any_eq_true _ _).1 (hwell names hnames)
      exact Node.kindAt_file_iff.2 ⟨bytes, hbytes⟩

theorem PagesOnly.mono {ext : Text} {d' : Disk} (h : PagesOnly ext source dirs d)
    (hsame : ∀ q, d'.root.bytesAt q = d.root.bytesAt q) : PagesOnly ext source dirs d' where
  nodup := h.nodup
  dotless := h.dotless
  file_iff q := by
    rw [← h.file_iff, Node.kindAt_file_iff, Node.kindAt_file_iff, hsame]
  wellFormed names hnames := by
    rw [hsame]
    exact h.wellFormed names hnames

theorem PagesOnly.isName {ext : Text} (h : PagesOnly ext source dirs d) (hd : d.Plain)
    (hnames : names ∈ dirs) : ∀ n ∈ pageNames ext names, IsName n := by
  have hfile := (h.file_iff _).2 ⟨names, hnames, rfl⟩
  exact isName_of_kindAt hd (by rw [hfile]; rfl)

theorem pageNames_inj {ext : Text} {a b : List Text} (h : pageNames ext a = pageNames ext b) :
    a = b :=
  (List.append_singleton_inj.1 (List.cons.inj h).2).1

theorem exists_source_of_isWellFormed {bytes : ByteArray} (h : isWellFormed bytes) :
    ∃ text source, Text.ofBytes? bytes = some text ∧ ¬ Template.hasClientDirective text ∧
      Template.read text = .ok source := by
  unfold isWellFormed at h
  cases htext : Text.ofBytes? bytes with
  | none =>
      rw [htext] at h
      cases h
  | some text =>
      rw [htext] at h
      cases hread : Template.read text with
      | error fault => simp [hread, Except.toOption] at h
      | ok source =>
          simp only [hread, Except.toOption, Option.isSome_some, Bool.and_true,
            Bool.not_eq_true'] at h
          exact ⟨text, source, rfl, by simp [h], hread⟩

/-- A well-formed template gives a module. -/
theorem exists_module_of_wellFormed {bytes : ByteArray} (hext : '/' ∉ pass.ext.module)
    (hd : d.Plain) (hleads : Leads d pass.root) (hnames : ∀ n ∈ names, IsName n) (hne : names ≠ [])
    (hshort : ¬ IsLong (below pass.root names))
    (hbytes : d.root.bytesAt (pass.root.place ++ names) = some bytes) (hwell : isWellFormed bytes) :
    ∃ code references, pass.outcome d (below pass.root names) = .ok (.module code references) := by
  obtain ⟨text, source, htext, hclient, hread⟩ := exists_source_of_isWellFormed hwell
  obtain ⟨made, hmade⟩ : ∃ made,
      Template.compile pass.ext (pass.moduleId (below pass.root names)) text = .ok made := by
    rw [Template.compile, hread]
    exact ⟨_, rfl⟩
  obtain ⟨references, hreferences⟩ :=
    exists_mapM_ok (exists_reference hext (pass.dirOf (below pass.root names))) made.islands
  refine ⟨made.code, references, ?_⟩
  unfold Pass.outcome
  rw [readText_below_eq hd hleads hnames hne hbytes, if_neg hshort, htext]
  dsimp only
  unfold Pass.outcomeOf
  rw [if_neg hclient, hmade]
  dsimp only
  rw [hreferences]
  rfl

theorem renamed_page {old ext : Text} (hold : '.' ∉ old) (hne : ext ≠ []) (hdot : '.' ∉ ext) :
    Path.renamed ("page".toList ++ '.' :: old) ext = "page".toList ++ '.' :: ext :=
  (Path.renamed_eq_append_iff (Path.nameParts_append (by decide) old hold) hne hdot
    (by decide)).2 rfl

/-- The page of a directory is taken for a template. -/
theorem compiles_page (hdot : '.' ∉ pass.ext.template)
    (hn : Ordinary ("page".toList ++ '.' :: pass.ext.template)) :
    pass.Compiles (pageNames pass.ext.template names) := by
  rw [Pass.Compiles, pageNames, ← List.cons_append, below_concat]
  refine ⟨?_, ?_⟩
  · rw [isIgnored, Path.fileName?_child _ hn]
    simp
  · rw [Path.extension?_child _ hn, Path.nameParts_append (by decide) _ hdot]

theorem noSlash_of_pageMarker (h : IsName c.pageMarker) : '/' ∉ c.build.moduleExt :=
  fun hslash => h.noSlash (List.mem_append_right _ hslash)

section

variable (hd : w.disk.Plain) (hsource : source.isAbsolute)
  (hsource' : source.sameSteps source.normalize) (hdir : w.disk.isDir source)
  (hout : output.isAbsolute) (hout' : output.sameSteps output.normalize)
  (hwithin : ¬ output.isWithin source) (hmade : (Disk.makeDirs output w.disk).1 = .ok ())
  (hempty : ∀ q, Inside output.place q → w.disk.root.kindAt q = none)
  (hne : c.build.moduleExt ≠ []) (hdot : '.' ∉ c.build.moduleExt)
  (hdot' : '.' ∉ c.build.templateExt) (hmarker : IsName c.pageMarker)
  (hcopy : c.build.copyDirs = []) (hpages : PagesOnly c.build.templateExt source dirs w.disk)
  (hread : ∀ names ∈ dirs, ¬ IsLong (below source (pageNames c.build.templateExt names)))
  (hwrite : ∀ names ∈ dirs, ¬ IsLong (below output (pageNames c.build.moduleExt names)))

include hd hsource hsource' hdir hout hout' hwithin hmade hempty hne hdot hdot' hmarker hcopy
  hpages hread hwrite

/-- The walk through a source of pages turns each of them into its module. -/
theorem exists_walk_pages :
    ∃ found y mid, (walk c source output).result w = (.ok y, mid) ∧
      Accounted (passOf c source) output (Disk.makeDirs output w.disk).2 found y ∧
      Mirrors c.build.moduleExt output found mid.disk ∧ Tidy output mid.disk ∧
      ∀ f ∈ found, f.met = .file → f.fate.isTranspiled := by
  have hfurnished := Disk.furnished_makeDirs hd hout
  have hplain := hfurnished.plain
  have hleads := Disk.leads_of_isDir hplain hsource (hfurnished.isDir hd hdir)
  have hpages' := hpages.mono hfurnished.bytesAt
  have hslash := noSlash_of_pageMarker hmarker
  refine exists_walk (P := fun found d => Tidy output d ∧
      ∀ f ∈ found, f.met = .file → f.fate.isTranspiled) hd hsource hsource' hdir hout hout' hwithin
    hmade hempty hslash hcopy (fun before f y w' after hw hmirrors hbefore hnames hdue hends
      htake => ?_) fun hout => ⟨tidy_of_empty hplain hout ?_, by simp⟩
  · cases hmet : f.met with
    | unlisted fault =>
        rw [hmet] at htake
        have hdisk : after.disk = w'.disk := congrArg (·.2.disk) htake.symm
        rw [hdisk]
        refine ⟨hbefore.1, fun g hg hfile => ?_⟩
        rcases List.mem_append.1 hg with hg | hg
        · exact hbefore.2 g hg hfile
        · rw [List.mem_singleton.1 hg, hmet] at hfile
          cases hfile
    | file =>
        have hdue' := hdue hmet
        obtain ⟨names, hmem, hpage⟩ := (hpages'.file_iff _).1 hdue'.file
        obtain ⟨bytes, hbytes, hwell⟩ := (Option.any_eq_true _ _).1 (hpages'.wellFormed names hmem)
        have hrenamed := renamed_page hdot' hne hdot
        have hall := hnames
        rw [hpage, pageNames, ← List.cons_append] at hall
        obtain ⟨hfront, hn⟩ := List.forall_mem_append.1 hall
        have hn := (List.forall_mem_singleton.1 hn).toOrdinary
        have hslash' : '/' ∉ (passOf c source).ext.module := hslash
        obtain ⟨code, references, houtcome⟩ := exists_module_of_wellFormed hslash' hplain
          hleads hnames hdue'.ne_nil (hpage ▸ hread names hmem) (hpage ▸ hbytes) hwell
        have htidy := hbefore.1.take hpage hmet
          hfront (by simpa using ⟨by decide, hpages.dotless names hmem⟩) hn (hrenamed ▸ hmarker)
          (hrenamed ▸ by simp) (hrenamed ▸ hwrite names hmem)
          (outcome_of_confined hplain hleads hout hdue' hw) houtcome
          (hpage ▸ compiles_page hdot' hn) hends htake
        refine ⟨htidy.1, fun g hg hfile => ?_⟩
        rcases List.mem_append.1 hg with hg | hg
        · exact hbefore.2 g hg hfile
        · exact List.mem_singleton.1 hg ▸ htidy.2
  · exact empty_of_makeDirs hd (Path.straight_of_normalize hout.isAbsolute hout') hempty

end

/-! The route table of a tidy output. -/

/-- The path of the module of a page leaves room for the files of the route table. -/
theorem not_isLong_of_page {ext : Text} (hout : output.isAbsolute) (hnames : ∀ m ∈ names, IsName m)
    (hmarker : IsName ("page".toList ++ '.' :: ext))
    (h : ¬ IsLong (below output (pageNames ext names))) (hn : '/' ∉ n) (hsize : n.byteSize ≤ 9) :
    ¬ IsLong (output.child n) := by
  obtain ⟨a, -, hchild⟩ := Path.exists_text_child hout
  have hpages : (output.child pagesDir).isAbsolute := Path.isAbsolute_child hout pagesDir
  obtain ⟨b, hb, hfile⟩ := Path.exists_text_child (isAbsolute_below hpages names)
  have hway := Disk.byteSize_le_of_isPrefix (text_below_isPrefix hpages hnames)
  have hslash : ∀ t : Text, Text.byteSize ('/' :: t) = 1 + t.byteSize := fun _ => rfl
  have hsizes : Text.byteSize pagesDir = 5 ∧
      5 ≤ Text.byteSize ("page".toList ++ '.' :: ext) := by
    rw [Text.byteSize_append]
    exact ⟨rfl, Nat.add_le_add (by decide : 4 ≤ Text.byteSize "page".toList) (Nat.le_add_right 1 _)⟩
  have hdir : Text.byteSize (below (output.child pagesDir) names).text ≤ Text.byteSize b + 1 := by
    rcases hb with hb | hb <;> rw [hb]
    · exact Nat.le_succ _
    · rw [Text.byteSize_append]
      exact Nat.le_refl _
  rw [hchild _ (by decide), Text.byteSize_append, hslash] at hway
  rw [pageNames, ← List.cons_append, below_concat] at h
  change ¬ IsLong ((below (output.child pagesDir) names).child _) at h
  rw [IsLong, hfile _ hmarker.noSlash, Text.byteSize_append, hslash] at h
  rw [IsLong, hchild n hn, Text.byteSize_append, hslash]
  omega

/-! A build of pages. -/

/-- The pages of a source are due, unless a path to one is too long. -/
theorem due_of_page {ext : Text} (hd : d.Plain) (hroot : pass.root.isAbsolute)
    (hout : output.isAbsolute) (hthere : d.root.kindAt output.place = some .dir)
    (hempty : ∀ q, Inside output.place q → d.root.kindAt q = none)
    (hpages : PagesOnly ext pass.root dirs d) (hnames : names ∈ dirs)
    (hread : ¬ IsLong (below pass.root (pageNames ext names))) :
    Due (pass.visit output) d (pageNames ext names) := by
  have hfile := (hpages.file_iff _).2 ⟨names, hnames, rfl⟩
  have hall := hpages.isName hd hnames
  refine ⟨List.cons_ne_nil _ _, hfile, fun hskip => ?_, fun hlong => hread ?_⟩
  · have hpre := Path.place_isPrefix_of_isWithin hout (isAbsolute_below hroot _) hskip
    rw [place_below hroot (ordinary_of_isName hall)] at hpre
    obtain ⟨rest, hrest⟩ := hpre
    rw [← hrest] at hfile
    cases rest with
    | nil =>
        rw [List.append_nil, hthere] at hfile
        cases hfile
    | cons n rest =>
        rw [hempty _ ⟨n, rest, rfl⟩] at hfile
        cases hfile
  · rw [pageNames, ← List.cons_append] at hall hlong ⊢
    rw [List.dropLast_concat] at hlong
    exact isLong_below_append hroot (List.forall_mem_append.1 hall).2 hlong

theorem transpiled_iff (haccount : Accounted pass output d found y)
    (hpages : PagesOnly pass.ext.template pass.root dirs d)
    (hdue : ∀ names ∈ dirs, Due (pass.visit output) d (pageNames pass.ext.template names))
    (hfound : ∀ f ∈ found, f.met = .file → f.fate.isTranspiled) (q : List Text) :
    (∃ f ∈ found, f.fate.isTranspiled ∧ f.names = q) ↔
      ∃ names ∈ dirs, q = pageNames pass.ext.template names := by
  constructor
  · rintro ⟨f, hf, hfate, rfl⟩
    have hmet := haccount.met_file hf (by simp [hfate])
    exact (hpages.file_iff _).1 ((haccount.file _).1 ⟨f, hf, rfl, hmet⟩).file
  · rintro ⟨names, hnames, rfl⟩
    obtain ⟨f, hf, hname, hfile⟩ := (haccount.file _).2 (hdue names hnames)
    exact ⟨f, hf, hfound f hf hfile, hname⟩

theorem supplied_iff (haccount : Accounted pass output d found y)
    (hpages : PagesOnly pass.ext.template pass.root dirs d)
    (hdue : ∀ names ∈ dirs, Due (pass.visit output) d (pageNames pass.ext.template names))
    (hfound : ∀ f ∈ found, f.met = .file → f.fate.isTranspiled) (names : List Text) :
    Supplied pass.ext found (pagesDir :: names) "page".toList ↔ names ∈ dirs := by
  have htranspiled := transpiled_iff haccount hpages hdue hfound
  constructor
  · rintro ⟨f, hf, ⟨hfate, hnames⟩ | ⟨hfate, -⟩⟩
    · obtain ⟨names', hnames', heq⟩ := (htranspiled _).1 ⟨f, hf, hfate, hnames⟩
      exact pageNames_inj heq ▸ hnames'
    · -- what is transpiled is not copied
      have hother := hfound f hf (haccount.met_file hf (by simp [hfate]))
      cases hcase : f.fate <;> simp [hcase, Fate.isTranspiled, Fate.isCopied] at hfate hother
  · intro hnames
    obtain ⟨f, hf, hfate, hname⟩ := (htranspiled _).2 ⟨names, hnames, rfl⟩
    exact ⟨f, hf, .inl ⟨hfate, hname⟩⟩

theorem transpiled_eq_length (haccount : Accounted pass output d found y)
    (hpages : PagesOnly pass.ext.template pass.root dirs d)
    (hdue : ∀ names ∈ dirs, Due (pass.visit output) d (pageNames pass.ext.template names))
    (hfound : ∀ f ∈ found, f.met = .file → f.fate.isTranspiled) :
    y.transpiled = dirs.length := by
  have hperm : ((found.filter (·.fate.isTranspiled)).map (·.names)).Perm
      (dirs.map (pageNames pass.ext.template)) := by
    refine (List.perm_ext_iff_of_nodup ?_ ?_).2 fun q => ?_
    · exact (List.pairwise_map.2 (haccount.ordered.filter _)).nodup
    · exact hpages.nodup.map fun _ _ => pageNames_inj
    · have htranspiled := transpiled_iff haccount hpages hdue hfound q
      simp only [List.mem_map, List.mem_filter, and_assoc]
      rw [htranspiled]
      simp only [eq_comm]
  rw [haccount.transpiled, List.countP_eq_length_filter, ← List.length_map (·.names),
    hperm.length_eq, List.length_map]

theorem length_routes {ext : Template.Extensions} {routes : List Route}
    (h : Mirrored ext found routes) (hnodup : dirs.Nodup)
    (hsupplied : ∀ names, Supplied ext found (pagesDir :: names) "page".toList ↔ names ∈ dirs) :
    routes.length = dirs.length := by
  obtain ⟨routed, hordered, hmem, rfl⟩ := h
  have hperm : routed.Perm dirs := by
    exact (List.perm_ext_iff_of_nodup hordered.nodup hnodup).2 fun names =>
      (hmem names).trans (hsupplied names)
  rw [List.length_map, hperm.length_eq]

/-- What comes of a build of pages: each is a module and has a route, and what the scan makes of its
marker names the file of the marker. -/
structure Served (c : Config) (output : Path) (dirs : List (List Text)) (report : Report)
    (d : Disk) : Prop where
  transpiled : report.transpiled = dirs.length
  routes : report.routes = .emitted dirs.length
  file : ∀ names ∈ dirs,
    d.root.kindAt (output.place ++ pageNames c.build.moduleExt names) = some .file
  reference : ∀ names ∈ dirs,
    output.child (Route.Scan.reference ⟨d, output, markersOf c⟩
        (below (output.child pagesDir) names) c.pageMarker ++ '.' :: c.build.moduleExt) =
      (below (output.child pagesDir) names).child c.pageMarker

/-- What was scanned of an output is not taken away by the rest of the build. -/
theorem kindAt_of_built {mid : Work} {routes : List Route} {report : Report} {q : Place}
    {k : Disk.Kind} (h : Built c source output w found y mid routes report)
    (hd : mid.disk.Plain) (hout : output.isAbsolute) (hwithin : ¬ output.isWithin source)
    (hbundler : c.bundler.enable = false)
    (hresult : (buildProject c source output).result w = (.ok report, after))
    (hq : mid.disk.root.kindAt q = some k) : after.disk.root.kindAt q = some k := by
  have hkept := (housed_confined hout (fun _ h => h) mid.disk).finish hbundler y mid
    (Confined.refl hd)
  rw [buildProject_eq_walk hwithin, Job.result_bind, h.walked] at hresult
  dsimp only at hresult
  rw [hresult] at hkept
  exact hkept.kinds q k hq

/-- A build of pages into an output that held nothing serves them all. -/
theorem served_of_pagesOnly (hvalid : c.validate = .ok ()) (hdot : '.' ∉ c.build.moduleExt)
    (hdot' : '.' ∉ c.build.templateExt) (hmarker : IsName c.pageMarker)
    (hcopy : c.build.copyDirs = []) (hbundler : c.bundler.enable = false)
    (hd : w.disk.Plain) (hsource : source.isAbsolute)
    (hsource' : source.sameSteps source.normalize) (hdir : w.disk.isDir source)
    (hout : output.isAbsolute) (hout' : output.sameSteps output.normalize)
    (hwithin : ¬ output.isWithin source) (hmade : (Disk.makeDirs output w.disk).1 = .ok ())
    (hempty : ∀ q, Inside output.place q → w.disk.root.kindAt q = none)
    (hpages : PagesOnly c.build.templateExt source dirs w.disk) (hdirs : dirs ≠ [])
    (hread : ∀ names ∈ dirs, ¬ IsLong (below source (pageNames c.build.templateExt names)))
    (hwrite : ∀ names ∈ dirs, ¬ IsLong (below output (pageNames c.build.moduleExt names))) :
    ∃ report after, (buildProject c source output).result w = (.ok report, after) ∧
      Served c output dirs report after.disk := by
  have hne := moduleExt_ne_nil hvalid
  have hslash := noSlash_of_pageMarker hmarker
  obtain ⟨found, y, mid, hwalked, haccount, hmirrors, htidy, hfound⟩ :=
    exists_walk_pages hd hsource hsource' hdir hout hout' hwithin hmade hempty hne hdot hdot' hmarker
      hcopy hpages hread hwrite
  obtain ⟨routes, report, last, after, hstatus, hresult, hbuilt⟩ :=
    exists_built hwithin hne hdot hslash hbundler hwalked haccount hmirrors
  have hfurnished := Disk.furnished_makeDirs hd hout
  have hpages' := hpages.mono hfurnished.bytesAt
  have hdue : ∀ names ∈ dirs, Due ((passOf c source).visit output) (Disk.makeDirs output w.disk).2
      (pageNames c.build.templateExt names) := fun names hnames =>
    due_of_page hfurnished.plain hsource hout (Disk.kindAt_of_makeDirs hd hout hmade)
      (empty_of_makeDirs hd (Path.straight_of_normalize hout hout') hempty) hpages' hnames
      (hread names hnames)
  have hsupplied := supplied_iff haccount hpages' hdue hfound
  have hlength := length_routes hbuilt.mirrored hpages.nodup hsupplied
  have hnames : ∀ names ∈ dirs, ∀ n ∈ names, IsName n := fun names hmem n hn =>
    hpages.isName hd hmem n (List.mem_cons_of_mem _ (List.mem_append_left _ hn))
  have hfault := tableFault?_of_run htidy.plain hout hdot hslash hbuilt.scanned
  have hroom : ∀ n ∈ [routesFile, serverFile], ¬ IsLong (output.child n) := by
    obtain ⟨names, hmem⟩ := List.exists_mem_of_ne_nil dirs hdirs
    have hroom := fun n => not_isLong_of_page (n := n) hout (hnames names hmem) hmarker
      (hwrite names hmem)
    simpa using ⟨hroom routesFile (by decide) (by decide), hroom serverFile (by decide) (by decide)⟩
  obtain ⟨written, hemit⟩ := htidy.exists_emit hfault hroom
  have hroutes : routes ≠ [] := by
    rw [← List.length_pos_iff, hlength]
    exact List.length_pos_iff.2 hdirs
  obtain ⟨later, hemitted⟩ := exists_emitted hbuilt.scanned hroutes hemit
  have hstatus' := Except.ok.inj (Prod.mk.inj (hstatus.symm.trans hemitted)).1
  refine ⟨report, after, hresult, ?_, ?_, fun names hmem => ?_, fun names hmem => ?_⟩
  · rw [hbuilt.reports.transpiled]
    exact transpiled_eq_length haccount hpages' hdue hfound
  · rw [hstatus', hlength]
  · refine kindAt_of_built hbuilt htidy.plain hout hwithin hbundler hresult ?_
    have hmarked := (marked_iff_supplied haccount hmirrors hne hdot names
      (by decide : Ordinary "page".toList)).2 ((hsupplied names).2 hmem)
    have hfile := hmarked.1
    rw [Path.place_child hout (by decide), List.append_assoc] at hfile
    exact hfile
  · have hordinary := ordinary_of_isName (hnames names hmem)
    have hreference := Route.reference_below (d := after.disk) hout
      (Path.isAbsolute_child hout pagesDir) (Path.place_child hout (by decide)) hdot hslash
      (markersOf c) hordinary (by decide : Ordinary "page".toList)
    have hpage : c.pageMarker = "page".toList ++ '.' :: c.build.moduleExt := rfl
    rw [hpage, hreference]
    exact child_reference hordinary hmarker.toOrdinary

/-- A page, and another in a directory below. -/
def twoPages : Work where
  disk :=
    { root := .dir [("p".toList, .dir [("site".toList, .dir [("pages".toList, .dir [
        ("blog".toList, .dir [("page.pw".toList, .file "<p>blog</p>".toUTF8)]),
        ("page.pw".toList, .file "<p>home</p>".toUTF8)])])])]
      cwd := [] }

theorem served_of_pagesOnly_two :
    ∃ report after,
      (buildProject copyingNothing ⟨"/p/site".toList⟩ ⟨"/p/out".toList⟩).result twoPages =
          (.ok report, after) ∧
        Served copyingNothing ⟨"/p/out".toList⟩ [["blog".toList], []] report after.disk := by
  have hpages : PagesOnly "pw".toList ⟨"/p/site".toList⟩ [["blog".toList], []] twoPages.disk :=
    pagesOnly_of_files (by decide) (by decide) (by decide) (by decide +kernel)
  have hmade : (Disk.makeDirs ⟨"/p/out".toList⟩ twoPages.disk).1 = .ok () := by decide +kernel
  refine served_of_pagesOnly (by decide) (by decide) (by decide) (by decide) rfl rfl
    ⟨by decide, by decide⟩ (by decide) (by decide) (by decide) (by decide) (by decide) (by decide)
    hmade ?_ hpages (by decide) (by decide) (by decide)
  rintro q ⟨n, rest, rfl⟩
  exact Node.kindAt_append_eq_none (by decide)

/-- A configuration with the given extensions that copies and bundles nothing. -/
def extending (template module : Text) : Config :=
  { build := { templateExt := template, moduleExt := module, copyDirs := [] }
    bundler := { enable := false } }

/-- A project with one page, which has the given extension. -/
def onePage (ext : Text) : Work where
  disk :=
    { root := .dir [("p".toList, .dir [("site".toList, .dir [("pages".toList, .dir [
        ("page.".toList ++ ext, .file "<p>home</p>".toUTF8)])])])]
      cwd := [] }

/-- A page is not served, although a configuration with these extensions is accepted and nothing
else stands in the way. -/
structure Unserved (template module : Text) : Prop where
  valid : (extending template module).validate = .ok ()
  plain : Plain (onePage template).disk
  dir : (onePage template).disk.isDir ⟨"/p/site".toList⟩
  free : (onePage template).disk.has ⟨"/p/out".toList⟩ = false
  pages : PagesOnly template ⟨"/p/site".toList⟩ [[]] (onePage template).disk
  not_served : ¬ ∃ report after, (buildProject (extending template module) ⟨"/p/site".toList⟩
      ⟨"/p/out".toList⟩).result (onePage template) = (.ok report, after) ∧
    Served (extending template module) ⟨"/p/out".toList⟩ [[]] report after.disk

theorem not_served_of_status {template module : Text}
    (h : ((buildProject (extending template module) ⟨"/p/site".toList⟩ ⟨"/p/out".toList⟩).result
      (onePage template)).1.toOption.all (fun report =>
        match report.routes with
        | .emitted _ => false
        | _ => true)) :
    ¬ ∃ report after, (buildProject (extending template module) ⟨"/p/site".toList⟩
        ⟨"/p/out".toList⟩).result (onePage template) = (.ok report, after) ∧
      Served (extending template module) ⟨"/p/out".toList⟩ [[]] report after.disk := by
  rintro ⟨report, after, hresult, hserved⟩
  rw [hresult] at h
  simp [Except.toOption, hserved.routes] at h

/-- The table imports a file that is not there if the extension of modules has a dot, the build ends
at the page if it has a slash, and the page is no template if the extension of templates has a
dot. -/
theorem unserved_onePage :
    Unserved "pw".toList "x.js".toList ∧ Unserved "pw".toList "a/b".toList ∧
      Unserved "x.pw".toList "js".toList := by
  refine ⟨⟨by decide, ⟨by decide, by decide⟩, by decide, by decide, ?_, ?_⟩,
    ⟨by decide, ⟨by decide, by decide⟩, by decide, by decide, ?_, ?_⟩,
    ⟨by decide, ⟨by decide, by decide⟩, by decide, by decide, ?_, ?_⟩⟩
  · exact pagesOnly_of_files (by decide) (by decide) (by decide) (by decide +kernel)
  · exact not_served_of_status (by decide +kernel)
  · exact pagesOnly_of_files (by decide) (by decide) (by decide) (by decide +kernel)
  · exact not_served_of_status (by decide +kernel)
  · exact pagesOnly_of_files (by decide) (by decide) (by decide) (by decide +kernel)
  · exact not_served_of_status (by decide +kernel)

end Build

end Quire
