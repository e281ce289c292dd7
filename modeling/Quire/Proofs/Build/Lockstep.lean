import Quire.Proofs.Build.Respelling

/-!
Two walks in lockstep. Under two spellings of its source and of its output, the walk of a build
meets the same, does the same with it and leaves one disk; only the output directory itself may be
passed by under one spelling and entered under the other, and then nothing comes of that.
-/

namespace Quire.Build

open Disk (Place Node IsName Leads extent)
open Quire.Path (Ordinary)

variable {σ τ : Type} {F : Failure → Failure → Prop} {d e start : Disk} {out : Place}
  {limit room size spare : Nat} {source source' output output' : Path} {names front : List Text}
  {n : Text} {y y' : Yield} {pass pass' : Pass}

/-- What is taken note of under both spellings, with paths to one place. -/
theorem Yield.Alike.put (h : y.Alike y') {p q : Path} {f g : Failure}
    (hp : q.normalize = p.normalize) (hf : ToldAlike f g) :
    Coupled (OneDisk start out limit) F Yield.Alike (y.put p f) (y'.put q g) := by
  refine (Coupled.say _ _ _ _).bind fun _ _ _ => Coupled.pure ?_
  refine ⟨h.transpiled, h.clientOnly, h.copied, ?_, h.references⟩
  have hfailed := h.failed
  simp only [Yield.settled, List.map_append, List.map_cons, List.map_nil] at hfailed ⊢
  rw [hfailed, hp, hf]

section

variable (hpass : SamePass pass pass')
  (hroots : Synonyms start (size + 2 * spare) pass.root pass'.root)
  (houts : Synonyms start (size + 2 * spare) output output')
  (hnames : ∀ m ∈ names, IsName m) (hne : names ≠ []) (hshort : extent names ≤ size)

include hpass hroots houts hnames hne hshort

theorem coupled_transpile (hfront : ∀ m ∈ front, IsName m) (hn : Ordinary n ∨ n = ['.', '.'])
    (hlimit : extent front + (n.byteSize + 1) ≤ size + spare) :
    Coupled (OneDisk start output.place (size + spare)) ToldAlike Eq
      (pass.transpile (below pass.root names) ((below output front).child n))
      (pass'.transpile (below pass'.root names) ((below output' front).child n)) := by
  have hordinary := ordinary_of_isName hnames
  obtain ⟨hslash, hidle⟩ := Path.noSlash_and_not_isIdle hn
  have habs := isAbsolute_below houts.leads.isAbsolute front
  have habs' := isAbsolute_below houts.leads'.isAbsolute front
  have hplace : (below output' front).place = (below output front).place := by
    rw [place_below houts.leads.isAbsolute (ordinary_of_isName hfront),
      place_below houts.leads'.isAbsolute (ordinary_of_isName hfront), houts.place]
  have hdst : ((below output' front).child n).normalize =
      ((below output front).child n).normalize :=
    (Path.normalize_eq_iff (Path.isAbsolute_child habs n) (Path.isAbsolute_child habs' n)).2
      (Path.place_child_congr habs habs' hslash hplace)
  have hparent :
      (((below output' front).child n).parent?.getD ((below output' front).child n)).normalize =
        (((below output front).child n).parent?.getD ((below output front).child n)).normalize := by
    rw [Path.parent?_child habs hslash hidle, Path.parent?_child habs' hslash hidle]
    simp only [Option.getD_some]
    rw [Path.normalize_eq_iff (Path.isAbsolute_trimmed habs) (Path.isAbsolute_trimmed habs'),
      Path.place_trimmed habs, Path.place_trimmed habs', hplace]
  unfold Pass.transpile
  refine Coupled.look fun w w' hR => ?_
  have hd := hR.grown.plain
  obtain ⟨hsame, -⟩ := id hR
  rw [id_eq, id_eq, hsame]
  refine (Coupled.lift (hpass.outcome hd (hR.synonyms hroots) hordinary hne (by omega))).bind
    (fun a b hab => ?_) w w' hR
  subst hab
  cases a with
  | clientOnly => exact Coupled.pure rfl
  | module code references =>
      refine (Coupled.change_same (fun d hR => ?_) (fun d hR => ?_) fun f => ?_).bind fun _ _ _ =>
        (Coupled.change_same (fun d hR => ?_) (fun d hR => ?_) fun f => ?_).bind fun _ _ _ =>
          Coupled.pure rfl
      · rw [makeParents_child habs hslash hidle, makeParents_child habs' hslash hidle]
        exact (hR.synonyms houts).makeDirs hR.grown.plain hfront (by omega)
      · rw [makeParents_child habs hslash hidle]
        exact reworked_makeDirs hR.grown.plain (hR.synonyms houts).leads hfront (by omega)
      · simp only [ToldAlike, Failure.settled, SourceFailure.settled, hparent]
      · simp only [Disk.Change.ofWhole, (hR.synonyms houts).writeText hR.grown.plain
          (ordinary_of_isName hfront) hn (by omega)]
      · exact reworked_writeText hR.grown.plain (hR.synonyms houts).leads hfront hn hlimit code
      · simp only [ToldAlike, Failure.settled, SourceFailure.settled, hdst]

theorem coupled_takeTemplate (hslash : '/' ∉ pass.ext.module)
    (hspare : pass.ext.module.byteSize + 1 ≤ spare) (h : y.Alike y') :
    Coupled (OneDisk start output.place (size + spare)) F Yield.Alike
      (pass.takeTemplate output y names) (pass'.takeTemplate output' y' names) := by
  have hnormalize := hpass.normalize_below (ordinary_of_isName hnames)
  obtain ⟨front, n, rfl⟩ := (List.eq_nil_or_concat' names).resolve_left hne
  have hfront : ∀ m ∈ front, IsName m := fun m hm => hnames m (List.mem_append_left _ hm)
  have hn : Ordinary n := (hnames n (by simp)).toOrdinary
  have hsize := Path.byteSize_renamed hn pass.ext.module
  have hlimit : extent front + ((Path.renamed n pass.ext.module).byteSize + 1) ≤ size + spare := by
    rw [Disk.extent_append, Disk.extent_cons, Disk.extent_nil] at hshort
    omega
  have htranspile := coupled_transpile hpass hroots houts hnames hne hshort hfront
    (Path.renamed_cases hn hslash) hlimit
  unfold Pass.takeTemplate
  dsimp only
  rw [outputPath_of_noSlash pass output (ordinary_of_isName hfront) hn hslash,
    outputPath_of_noSlash pass' output' (ordinary_of_isName hfront) hn (hpass.ext ▸ hslash),
    hpass.ext]
  refine Coupled.bind (A := fun a b =>
    a = (below output front).child (Path.renamed n pass.ext.module) ∧
      b = (below output' front).child (Path.renamed n pass.ext.module))
    (Coupled.lift (.ok ⟨rfl, rfl⟩)) ?_
  rintro _ _ ⟨rfl, rfl⟩
  refine htranspile.attempt.bind fun a b hab => ?_
  cases hab with
  | error hf => exact h.put hnormalize hf
  | ok hsame =>
      subst hsame
      rename_i outcome
      cases outcome with
      | module code references =>
          refine (Coupled.detail _ _ _ _).bind fun _ _ _ => Coupled.pure ?_
          refine ⟨?_, h.clientOnly, h.copied, h.failed, ?_⟩
          · rw [h.transpiled]
          · rw [h.references]
      | clientOnly =>
          refine (Coupled.detail _ _ _ _).bind fun _ _ _ => Coupled.pure ?_
          exact ⟨h.transpiled, congrArg (· + 1) h.clientOnly, h.copied, h.failed, h.references⟩

theorem coupled_takeAsset (h : y.Alike y') :
    Coupled (OneDisk start output.place (size + spare)) F Yield.Alike
      (pass.takeAsset output y names) (pass'.takeAsset output' y' names) := by
  have hordinary := ordinary_of_isName hnames
  have hnormalize := hpass.normalize_below hordinary
  have hsrc := isAbsolute_below hpass.isAbsolute names
  obtain ⟨front, n, hsplit⟩ := (List.eq_nil_or_concat' names).resolve_left hne
  have hfront : ∀ m ∈ front, IsName m := fun m hm => hnames m (hsplit ▸ List.mem_append_left _ hm)
  have hn : IsName n := hnames n (by simp [hsplit])
  have hlimit : extent front + (n.byteSize + 1) ≤ size := by
    rwa [hsplit, Disk.extent_append, Disk.extent_cons, Disk.extent_nil] at hshort
  unfold Pass.takeAsset
  dsimp only
  refine (Coupled.attempt (F := ToldAlike) (A := fun _ _ => True) ?_).bind fun a b hab => ?_
  · rw [hsplit, join_relativePath hfront hn, join_relativePath hfront hn, ← hsplit]
    refine Coupled.change_same (fun d hR => ?_) (fun d hR => ?_) fun f => ?_
    · exact (hR.synonyms houts).copyInto hR.grown.plain (hR.synonyms hroots) hordinary (by omega)
        hfront hn (by omega)
    · exact reworked_copyInto hR.grown.plain (hR.synonyms houts).leads hfront hsrc hn (by omega)
    · simp only [ToldAlike, Failure.settled, hnormalize]
  · cases hab with
    | error hf => exact h.put hnormalize hf
    | ok _ =>
        refine (Coupled.detail _ _ _ _).bind fun _ _ _ => Coupled.pure ?_
        exact ⟨h.transpiled, h.clientOnly, congrArg (· + 1) h.copied, h.failed, h.references⟩

omit hpass hroots houts hshort in
/-- What a file is called is told by the last of its names. -/
theorem fileName?_below (p q : Path) :
    isIgnored (below q names) = isIgnored (below p names) ∧
      (below q names).extension? = (below p names).extension? := by
  obtain ⟨front, n, rfl⟩ := (List.eq_nil_or_concat' names).resolve_left hne
  have hn : Ordinary n := (hnames n (by simp)).toOrdinary
  unfold isIgnored
  rw [below_concat, below_concat, Path.fileName?_child _ hn, Path.fileName?_child _ hn,
    Path.extension?_child _ hn, Path.extension?_child _ hn]
  exact ⟨rfl, rfl⟩

omit hne in
/-- Whatever is met is taken alike. -/
theorem coupled_take (hslash : '/' ∉ pass.ext.module)
    (hspare : pass.ext.module.byteSize + 1 ≤ spare) (m : Met) (hm : m = .file → names ≠ [])
    (h : y.Alike y') :
    Coupled (OneDisk start output.place (size + spare)) F Yield.Alike
      (pass.take output y names m) (pass'.take output' y' names m) := by
  have hnormalize := hpass.normalize_below (ordinary_of_isName hnames)
  cases m with
  | unlisted f =>
      refine h.put hnormalize ?_
      simp only [ToldAlike, Failure.settled, hnormalize]
  | file =>
      obtain ⟨hignored, hextension⟩ := fileName?_below hnames (hm rfl) pass.root pass'.root
      simp only [Pass.take, hignored, hextension, hpass.ext]
      split
      · exact Coupled.pure h
      · split
        · exact coupled_takeTemplate hpass hroots houts hnames (hm rfl) hshort hslash hspare h
        · split
          · exact coupled_takeAsset hpass hroots houts hnames (hm rfl) hshort h
          · exact Coupled.pure h

end

/-! Where the two visits come to. -/

/-- All that is in the output is passed by there, so nothing comes of a visit of the output itself. -/
theorem hollow_output {v : Visit σ} (hd : d.Plain) (hout : output.isAbsolute)
    (hskips : v.skips = output.isWithin) (h : Leads d (below v.root names))
    (hplace : (below v.root names).place = output.place) : v.Hollow d names := by
  obtain ⟨children, hget⟩ := Disk.Node.kindAt_dir_iff.1 h.dir
  have hlisting : d.listing (below v.root names) = .ok (Node.entries children) :=
    Disk.listing_ok_iff.2 ⟨_, children, Leads.place? hd h, hget, rfl⟩
  refine ⟨_, hlisting, fun entry hentry => ?_⟩
  have hn : IsName entry.1 := Disk.isName_of_mem_listing hd hlisting entry hentry
  have hchild : (below v.root (names ++ [entry.1])).place = output.place ++ [entry.1] := by
    rw [below_concat, Path.place_child h.isAbsolute hn.toOrdinary, hplace]
  rw [hskips, below_concat]
  rw [below_concat] at hchild
  exact isWithin_of_inside hout (Path.isAbsolute_child h.isAbsolute _) ⟨entry.1, [], hchild⟩

/-- Names that lead from a directory to what is not in the output and not too far away. -/
structure Off (out root : Place) (size : Nat) (names : List Text) : Prop where
  isName : ∀ m ∈ names, IsName m
  off : ¬ out <+: root ++ names
  short : extent (root ++ names) ≤ size

theorem Off.extent_le {root : Place} (h : Off out root size names) : extent names ≤ size := by
  have hshort := h.short
  rw [Disk.extent_append] at hshort
  omega

section

variable {v : Visit σ} {v' : Visit τ}
  (hroots : Synonyms start size v.root v'.root) (houts : Synonyms start room output output')
  (hskips : v.skips = output.isWithin) (hskips' : v'.skips = output'.isWithin)
  (hbound : ∀ q, (start.root.kindAt q).isSome → extent q ≤ size)

include hroots houts hskips hskips' hbound

/-- The two visits do the same with an entry, unless it is the output itself. -/
theorem abreast {kind : Disk.Kind} {q : Place}
    (hgrown : Reworked (Grown output.place limit) start d) (hnames : ∀ m ∈ names, IsName m)
    (hq : q = v.root.place ++ names) (hkind : d.root.kindAt q = some kind) :
    Abreast (OneDisk start output.place limit) (Off output.place v.root.place size) v v' names
      kind := by
  have hordinary := ordinary_of_isName hnames
  have hout := houts.leads.isAbsolute
  have hout' := houts.leads'.isAbsolute
  have habs := isAbsolute_below hroots.leads.isAbsolute names
  have habs' := isAbsolute_below hroots.leads'.isAbsolute names
  have hplace : (below v.root names).place = q :=
    (place_below hroots.leads.isAbsolute hordinary).trans hq.symm
  have hplace' : (below v'.root names).place = q := by
    rw [place_below hroots.leads'.isAbsolute hordinary, hroots.place, hq]
  by_cases hpre : output.place <+: q
  · by_cases heq : output.place = q
    · have hdir : d.root.kindAt output.place = some .dir :=
        hgrown.kinds _ _ houts.leads.dir
      have hshort : extent names ≤ size := by
        have hsize := hbound output.place (by rw [houts.leads.dir]; rfl)
        rw [heq, hq, Disk.extent_append] at hsize
        omega
      refine .hollow (Option.some.inj (hkind.symm.trans (heq ▸ hdir))) fun d e hR => ?_
      obtain ⟨rfl, hR⟩ := hR
      have hs : Synonyms e 0 (below v.root names) (below v'.root names) :=
        (hroots.mono hR.kinds).below hR.plain hnames (by omega)
          (by rw [← hq, ← heq]; exact hR.kinds _ _ houts.leads.dir)
      exact ⟨hollow_output hR.plain hout hskips hs.leads (hplace.trans heq.symm),
        hollow_output hR.plain hout' hskips' hs.leads' (by rw [hplace', houts.place, heq])⟩
    · refine .past ?_ ?_
      · rw [hskips]
        exact Path.isWithin_of_place_isPrefix hout habs (hplace ▸ hpre) (hplace ▸ heq)
      · rw [hskips']
        refine Path.isWithin_of_place_isPrefix hout' habs' ?_ ?_
        · rwa [hplace', houts.place]
        · rwa [hplace', houts.place]
  · have hseen := hgrown.frame q fun ⟨more, _, hmore, _⟩ => hpre ⟨more, hmore.symm⟩
    have hsize := hbound q (by rw [← Node.kindAt_congr hseen, hkind]; rfl)
    refine .onto (fun hskip => hpre ?_) (fun hskip => hpre ?_) ⟨hnames, hq ▸ hpre, hq ▸ hsize⟩
    · rw [← hplace]
      exact Path.place_isPrefix_of_isWithin hout habs (hskips ▸ hskip)
    · rw [← houts.place, ← hplace']
      exact Path.place_isPrefix_of_isWithin hout' habs' (hskips' ▸ hskip)

theorem parallel : Parallel (OneDisk start output.place limit)
    (Off output.place v.root.place size) v v' where
  listing d e names hR hoff := by
    obtain ⟨rfl, -⟩ := id hR
    exact (hR.synonyms hroots).listing_below hR.grown.plain (ordinary_of_isName hoff.isName)
      hoff.extent_le
  entry d e names entries hR hoff hlisting entry hentry := by
    have hd := hR.grown.plain
    have hnext := Disk.isName_concat_of_listing hd hlisting hoff.isName hentry
    refine abreast hroots houts hskips hskips' hbound hR.grown hnext rfl ?_
    have hkind := Disk.kindAt_of_mem_listing hd
      (isAbsolute_below hroots.leads.isAbsolute names) hlisting hentry
    rwa [place_below hroots.leads.isAbsolute (ordinary_of_isName hoff.isName),
      List.append_assoc] at hkind

/-- Two visits from one directory run alike if they meet alike. -/
theorem coupled_run {A : σ → τ → Prop} (hoff : ¬ output.place <+: v.root.place)
    (hmeet : ∀ s t names m, A s t → Off output.place v.root.place size names →
      (m = .file → names ≠ []) →
      Coupled (OneDisk start output.place limit) F A (v.meet s names m)
        (v'.meet t names m)) {s : σ} {t : τ} (h : A s t) :
    Coupled (OneDisk start output.place limit) F A (v.run s) (v'.run t) := by
  have hdir : ∀ d e, OneDisk start output.place limit d e →
      ∃ children, d.nodeItself? v.root = .ok (.dir children) ∧
        e.nodeItself? v'.root = .ok (.dir children) := by
    rintro d e hR
    obtain ⟨rfl, -⟩ := id hR
    have hs := hR.synonyms hroots
    obtain ⟨children, hget⟩ := Disk.Node.kindAt_dir_iff.1 hs.leads.dir
    have hd := hR.grown.plain
    refine ⟨children, ?_, ?_⟩
    · rw [Disk.nodeItself?_eq_node? hd]
      exact Disk.node?_ok_iff.2 ⟨_, Leads.place? hd hs.leads, hget⟩
    · rw [Disk.nodeItself?_eq_node? hd]
      exact Disk.node?_ok_iff.2 ⟨_, Leads.place? hd hs.leads', hs.place ▸ hget⟩
  refine Coupled.run (parallel hroots houts hskips hskips' hbound) hmeet
    ⟨by simp, by simpa using hoff, by simpa using hbound _ (Option.isSome_of_mem hroots.leads.dir)⟩
    (fun d e hR => ?_)
    (fun w w' s t hR _ hfile => ?_) h
  · obtain ⟨children, hnode, hnode'⟩ := hdir d e hR
    exact Or.inr ⟨_, _, hnode, hnode', rfl, by simp [Node.kind]⟩
  · obtain ⟨children, hnode, -⟩ := hdir _ _ hR
    obtain ⟨bytes, hfile⟩ := hfile
    cases hnode.symm.trans hfile

end

/-! Directories that are copied. -/

section

variable {dir dir' : Path} {k : Text}
  (houts : Synonyms start (size + 2 * spare) output output')

theorem Synonyms.parent? {p q r r' : Path} (h : Synonyms d room p q) (hp : p.parent? = some r)
    (hq : q.parent? = some r') (hplace : r'.place = r.place) : Synonyms d room r r' := by
  have hpre := (Path.isAbsolute_of_parent? h.leads.isAbsolute hp).2
  have hpre' := (Path.isAbsolute_of_parent? h.leads'.isAbsolute hq).2
  have hshort := h.short
  have hshort' := h.short'
  have hle := Disk.byteSize_le_of_isPrefix hpre
  have hle' := Disk.byteSize_le_of_isPrefix hpre'
  exact ⟨h.leads.parent? hp, h.leads'.parent? hq, hplace, by omega, by omega⟩

/-- Among paths of one name in directories that are spelled in two ways, the first that leads to a
directory is the same. -/
theorem find?_isDir_alike {as as' : List Path} (hR : OneDisk start out limit d e)
    (hk : ¬ (Path.mk k).isAbsolute) (hroom : k.byteSize + 1 ≤ room)
    (h : List.Forall₂ (fun a a' => ∃ r r', Synonyms start room r r' ∧ a = r.child k ∧
      a' = r'.child k) as as') :
    as.find? d.isDir = none ∧ as'.find? d.isDir = none ∨
      ∃ r r', Synonyms start room r r' ∧ d.isDir (r.child k) ∧
        as.find? d.isDir = some (r.child k) ∧ as'.find? d.isDir = some (r'.child k) := by
  induction h with
  | nil => exact Or.inl ⟨rfl, rfl⟩
  | cons hhead _ ih =>
      obtain ⟨r, r', hr, rfl, rfl⟩ := hhead
      have hsame : d.isDir (r'.child k) = d.isDir (r.child k) :=
        Synonyms.isDir_child hR.grown.plain (hR.synonyms hr) hk hroom
      cases hdir : d.isDir (r.child k) with
      | true =>
          refine Or.inr ⟨r, r', hr, hdir, ?_, ?_⟩
          · rw [List.find?_cons_of_pos hdir]
          · rw [List.find?_cons_of_pos (hsame.trans hdir)]
      | false =>
          rw [List.find?_cons_of_neg (by simp [hdir]),
            List.find?_cons_of_neg (by simp [hsame, hdir])]
          exact ih

/-- A directory to be copied is found in the same place, or nowhere. -/
theorem locate_alike (hR : OneDisk start out limit d e)
    (hs : Synonyms start room source source')
    (hparent : source'.parent?.map Path.place = source.parent?.map Path.place)
    (hk : ¬ (Path.mk k).isAbsolute) (hroom : k.byteSize + 1 ≤ room) :
    locate d source k = none ∧ locate d source' k = none ∨
      ∃ r r', Synonyms start room r r' ∧ d.isDir (r.child k) ∧
        locate d source k = some (r.child k) ∧ locate d source' k = some (r'.child k) := by
  have hin : List.Forall₂ (fun a a' => ∃ r r', Synonyms start room r r' ∧ a = r.child k ∧
      a' = r'.child k) [source.child k] [source'.child k] :=
    .cons ⟨source, source', hs, rfl, rfl⟩ .nil
  refine find?_isDir_alike hR hk hroom ?_
  cases hp : source.parent? with
  | none =>
      rw [hp] at hparent
      rw [Option.map_eq_none_iff.1 hparent]
      exact hin
  | some r =>
      rw [hp] at hparent
      obtain ⟨r', hq, hplace⟩ := Option.map_eq_some_iff.1 hparent
      rw [hq]
      exact .cons ⟨r, r', hs.parent? hp hq hplace, rfl, rfl⟩ hin

section

variable {ts : List Text} (hk : ¬ (Path.mk k).isAbsolute) (hts : (Path.mk k).inner = ts.map .name)
  (hisName : ∀ m ∈ ts, IsName m) (hnul : '\x00' ∉ k) (hspare : k.byteSize + 1 ≤ spare)

include houts hk hts hisName hnul hspare

omit houts in
/-- A copy goes to where the names of the directory lead, under each spelling of the output. -/
theorem copyInto_below_child {o : Path} {front : List Text} {n : Text} (hd : d.Plain)
    (ho : Leads d o) (hroom : o.text.byteSize + (size + 2 * spare) ≤ Disk.maxPath)
    (hnames : ∀ m ∈ front ++ [n], IsName m) (hshort : extent (ts ++ (front ++ [n])) ≤ size)
    (src : Path) :
    Disk.copyInto src (below (o.child k) (front ++ [n])) d =
      Disk.copyInto src ((below o (ts ++ front)).child n) d := by
  have hfront : ∀ m ∈ ts ++ front, IsName m := List.forall_mem_append.2
    ⟨hisName, (List.forall_mem_append.1 hnames).1⟩
  have hnamed : extent (front ++ [n]) ≤ size := by
    rw [Disk.extent_append] at hshort
    omega
  rw [below_concat]
  refine copyInto_downward hk hts hd ho hnul hfront (hnames n (by simp)) (by omega) ?_ src
  rw [List.append_assoc]
  omega

theorem coupled_copyFile (hdirs : Synonyms start size dir dir') (hnames : ∀ m ∈ names, IsName m)
    (hshort : extent (ts ++ names) ≤ size) (m : Met) (hm : m = .file → names ≠ []) (count : Nat) :
    Coupled (OneDisk start output.place (size + spare)) F Eq
      (copyFile dir (output.child k) count names m)
      (copyFile dir' (output'.child k) count names m) := by
  cases m with
  | unlisted f => exact (Coupled.say _ _ _ _).bind fun _ _ _ => Coupled.pure rfl
  | file =>
      obtain ⟨front, n, rfl⟩ := (List.eq_nil_or_concat' names).resolve_left (hm rfl)
      have hordinary := ordinary_of_isName hnames
      have habs := isAbsolute_below hdirs.leads.isAbsolute (front ++ [n])
      have hnormalize := hdirs.normalize_below hordinary
      have hn : IsName n := hnames n (by simp)
      have hfront : ∀ m ∈ ts ++ front, IsName m := List.forall_mem_append.2
        ⟨hisName, (List.forall_mem_append.1 hnames).1⟩
      have hlead := fun {o d} (hd : Disk.Plain d) (ho : Leads d o) hroom src =>
        copyInto_below_child hk hts hisName hnul hspare hd ho hroom hnames hshort src
      have hnamed : extent (front ++ [n]) ≤ size := by
        rw [Disk.extent_append] at hshort
        omega
      have hextent : extent (ts ++ front) + (n.byteSize + 1) ≤ size := by
        rwa [← List.append_assoc, Disk.extent_append, Disk.extent_cons, Disk.extent_nil] at hshort
      obtain ⟨hignored, -⟩ := fileName?_below hnames (hm rfl) dir dir'
      simp only [copyFile, hignored]
      split
      · exact Coupled.pure rfl
      · refine (Coupled.attempt (F := ToldAlike) (A := fun _ _ => True) ?_).bind fun a b hab => ?_
        · refine Coupled.change_same (fun d hR => ?_) (fun d hR => ?_) fun f => ?_
          · rw [hlead hR.grown.plain (hR.synonyms houts).leads houts.short,
              hlead hR.grown.plain (hR.synonyms houts).leads' houts.short']
            exact (hR.synonyms houts).copyInto hR.grown.plain (hR.synonyms hdirs) hordinary hnamed
              hfront hn (by omega)
          · rw [hlead hR.grown.plain (hR.synonyms houts).leads houts.short]
            exact reworked_copyInto hR.grown.plain (hR.synonyms houts).leads hfront habs hn
              (by omega)
          · simp only [ToldAlike, Failure.settled, hnormalize]
        · cases hab with
          | error _ => exact (Coupled.say _ _ _ _).bind fun _ _ _ => Coupled.pure rfl
          | ok _ => exact (Coupled.detail _ _ _ _).bind fun _ _ _ => Coupled.pure rfl

end

/-- Nothing is copied from the output into itself. -/
theorem copyDir_output {w : Work} (hd : w.disk.Plain) (hout : output.isAbsolute)
    (h : Leads w.disk dir) (hplace : dir.place = output.place) (dst : Path) (count : Nat) :
    (copyDir output dir dst count).result w = (.ok count, w) := by
  unfold copyDir
  split
  · rfl
  · obtain ⟨children, hget⟩ := Disk.Node.kindAt_dir_iff.1 h.dir
    have hnode : w.disk.nodeItself? dir = .ok (.dir children) := by
      rw [Disk.nodeItself?_eq_node? hd]
      exact Disk.node?_ok_iff.2 ⟨_, Leads.place? hd h, hget⟩
    have hhollow : Visit.Hollow ⟨dir, output.isWithin, copyFile dir dst⟩ w.disk [] :=
      hollow_output hd hout rfl h hplace
    simp only [Visit.run, Job.result_bind, Job.result_look, hnode]
    exact hhollow.visitBelow_idle _ count

theorem coupled_copyDir {ts : List Text}
    (hbound : ∀ q, (start.root.kindAt q).isSome → extent q ≤ size)
    (houts : Synonyms start (size + 2 * spare) output output')
    (hdirs : Synonyms start size dir dir') (hk : ¬ (Path.mk k).isAbsolute)
    (hts : (Path.mk k).inner = ts.map .name) (hisName : ∀ m ∈ ts, IsName m) (hnul : '\x00' ∉ k)
    (hspare : k.byteSize + 1 ≤ spare) (hsuffix : ts <:+ dir.place) (count : Nat) :
    Coupled (OneDisk start output.place (size + spare)) F Eq
      (copyDir output dir (output.child k) count)
      (copyDir output' dir' (output'.child k) count) := by
  have hout := houts.leads.isAbsolute
  have hout' := houts.leads'.isAbsolute
  by_cases hpre : output.place <+: dir.place
  · by_cases heq : output.place = dir.place
    · refine Coupled.idle (rfl : count = count) fun w w' hR => ⟨?_, ?_⟩
      · exact copyDir_output hR.grown.plain hout (hR.synonyms hdirs).leads heq.symm _ count
      · obtain ⟨hsame, -⟩ := id hR
        refine copyDir_output (hsame ▸ hR.grown.plain) hout' (hsame ▸ (hR.synonyms hdirs).leads') ?_
          _ count
        rw [hdirs.place, houts.place, heq]
    · have hwithin := Path.isWithin_of_place_isPrefix hout hdirs.leads.isAbsolute hpre heq
      have hwithin' := Path.isWithin_of_place_isPrefix hout' hdirs.leads'.isAbsolute
        (by rwa [hdirs.place, houts.place]) (by rwa [hdirs.place, houts.place])
      unfold copyDir
      rw [if_pos hwithin, if_pos hwithin']
      exact Coupled.pure rfl
  · have hwithin : ¬ output.isWithin dir := fun h =>
      hpre (Path.place_isPrefix_of_isWithin hout hdirs.leads.isAbsolute h)
    have hwithin' : ¬ output'.isWithin dir' := fun h => hpre (by
      rw [← houts.place, ← hdirs.place]
      exact Path.place_isPrefix_of_isWithin hout' hdirs.leads'.isAbsolute h)
    unfold copyDir
    rw [if_neg hwithin, if_neg hwithin']
    refine coupled_run hdirs houts rfl rfl hbound hpre (fun s t names m hst hoff hm => ?_) rfl
    subst hst
    refine coupled_copyFile houts hk hts hisName hnul hspare hdirs hoff.isName ?_ m hm s
    obtain ⟨front, hfront⟩ := hsuffix
    have hshort := hoff.short
    dsimp only at hshort
    rw [← hfront, List.append_assoc, Disk.extent_append] at hshort
    omega

/-- What is found outside of the output was there from the start. -/
theorem Synonyms.start_child {r r' : Path} {ts : List Text} (hstart : start.Plain)
    (hR : OneDisk start output.place limit d e) (hs : Synonyms start room r r')
    (hk : ¬ (Path.mk k).isAbsolute) (hts : (Path.mk k).inner = ts.map .name) {left : Nat}
    (hroom : k.byteSize + 1 + left ≤ room) (hleads : Leads d (r.child k))
    (hoff : ¬ Inside output.place (r.child k).place) :
    Synonyms start left (r.child k) (r'.child k) := by
  refine hs.child hk hroom ?_
  have hseen := hR.grown.frame (r.child k).place fun hgrown => hoff hgrown.inside
  refine leads_child_downward hk hts hstart hs.leads hleads.check ?_
  rw [← place_child_downward hk hts hs.leads.isAbsolute, ← Node.kindAt_congr hseen, hleads.dir]

end

section

variable (hstart : start.Plain) (hbound : ∀ q, (start.root.kindAt q).isSome → extent q ≤ size)
  (houts : Synonyms start (size + 2 * spare) output output') {copyDirs : List Text}

include hstart hbound houts

theorem coupled_copyVerbatim (hs : Synonyms start (size + 2 * spare) source source')
    (hparent : source'.parent?.map Path.place = source.parent?.map Path.place)
    (hcopy : ∀ k ∈ copyDirs, IsDownward k ∧ k.byteSize + 1 ≤ spare) :
    Coupled (OneDisk start output.place (size + spare)) F Eq
      (copyVerbatim source output copyDirs) (copyVerbatim source' output' copyDirs) := by
  refine Coupled.foldlM copyDirs (fun a b hab k hk => ?_) rfl
  subst hab
  obtain ⟨hdown, hspare⟩ := hcopy k hk
  obtain ⟨ts, -, hts⟩ := hdown.exists_names
  replace hdown := hdown.1
  refine Coupled.look fun w w' hR => ?_
  obtain ⟨hsame, -⟩ := id hR
  rw [hsame]
  have hd := hR.grown.plain
  rcases locate_alike hR hs hparent hdown (by omega) with
    ⟨hnone, hnone'⟩ | ⟨r, r', hr, hdir, hfound, hfound'⟩
  · rw [hnone, hnone']
    exact Coupled.pure rfl w w' hR
  · rw [hfound, hfound']
    have habs := Path.isAbsolute_child hr.leads.isAbsolute k
    have habs' := Path.isAbsolute_child hr.leads'.isAbsolute k
    have hleads := Disk.leads_of_isDir hd habs hdir
    have hplace := place_child_downward hdown hts hr.leads.isAbsolute
    have hplace' := place_child_downward hdown hts hr.leads'.isAbsolute
    by_cases hinside : Inside output.place (r.child k).place
    · have hinside' : Inside output'.place (r'.child k).place := by
        rwa [hplace', hr.place, ← hplace, houts.place]
      have hwithin := isWithin_of_inside houts.leads.isAbsolute habs hinside
      have hwithin' := isWithin_of_inside houts.leads'.isAbsolute habs' hinside'
      simp only [copyDir, hwithin, hwithin', if_true]
      exact Coupled.pure rfl w w' hR
    · have hdirs : Synonyms start size (r.child k) (r'.child k) :=
        hr.start_child hstart hR hdown hts (by omega) hleads hinside
      have hnul : '\x00' ∉ k := fun hmem =>
        (Disk.checkPath_ok_iff.1 hleads.check).1 ((nul_mem_child_iff r hdown).2 (Or.inr hmem))
      have hkind := hleads.dir
      rw [hplace] at hkind
      exact coupled_copyDir hbound houts hdirs hdown hts
        (isName_of_kindAt hd (by rw [hkind]; rfl)) hnul hspare (hplace ▸ List.suffix_append _ _)
        a w w' hR

/-- The walks of two builds with one source and one output keep to one disk, and report alike. -/
theorem coupled_takeTree (hpass : SamePass pass pass')
    (hroots : Synonyms start (size + 2 * spare) pass.root pass'.root)
    (hoff : ¬ output.place <+: pass.root.place) (hslash : '/' ∉ pass.ext.module)
    (hspare : pass.ext.module.byteSize + 1 ≤ spare)
    (hparent : copyDirs = [] ∨
      pass'.root.parent?.map Path.place = pass.root.parent?.map Path.place)
    (hcopy : ∀ k ∈ copyDirs, IsDownward k ∧ k.byteSize + 1 ≤ spare) :
    Coupled (OneDisk start output.place (size + spare)) F Yield.Alike
      (pass.takeTree output copyDirs) (pass'.takeTree output' copyDirs) := by
  unfold Pass.takeTree
  refine Coupled.bind (A := Yield.Alike) ?_ fun y y' h => ?_
  · refine coupled_run (hroots.weaken (by omega)) houts rfl rfl hbound hoff
      (fun y y' names m h hoff hm => ?_) (Yield.Alike.refl _)
    exact coupled_take hpass hroots houts hoff.isName hoff.extent_le hslash hspare m hm h
  · have hcopied : Coupled (OneDisk start output.place (size + spare)) F Eq
        (copyVerbatim pass.root output copyDirs) (copyVerbatim pass'.root output' copyDirs) := by
      rcases hparent with rfl | hparent
      · exact Coupled.pure rfl
      · exact coupled_copyVerbatim hstart hbound houts hroots hparent hcopy
    refine hcopied.bind fun a b hab => Coupled.pure ?_
    subst hab
    exact ⟨h.transpiled, h.clientOnly, congrArg (· + a) h.copied, h.failed, h.references⟩

end

end Quire.Build
