import Quire.Proofs.Build.Fates
import Quire.Proofs.Build.Linking

/-!
Outputs in which a dot in a name tells a file from a directory. In them no file stands in the way of
a directory and no directory in the way of a file, so whatever has a name of its kind can be written.
-/

namespace Quire.Build

open Disk (Node IsName IsLong Leads)
open Quire.Path (Ordinary)

variable {d : Disk} {w after : Work} {pass : Pass} {output : Path} {n : Text} {names : List Text}
  {y : Yield} {f : Finding}

/-- An output in which the names of directories are those without a dot. -/
structure Tidy (output : Path) (d : Disk) : Prop where
  plain : d.Plain
  leads : Leads d output
  dir_iff : ∀ names n k, d.root.kindAt (output.place ++ (names ++ [n])) = some k →
    (k = .dir ↔ '.' ∉ n)

theorem tidy_of_empty (hd : d.Plain) (hleads : Leads d output)
    (hempty : ∀ q, Inside output.place q → d.root.kindAt q = none) : Tidy output d where
  plain := hd
  leads := hleads
  dir_iff names n k h := by
    rw [hempty _ (inside_append (by simp))] at h
    cases h

namespace Tidy

theorem clear (h : Tidy output d) (hdots : ∀ n ∈ names, '.' ∉ n) :
    Disk.Clear d.root (output.place ++ names) := by
  intro pre hpre
  rcases List.prefix_or_prefix_of_prefix hpre (List.prefix_append output.place names) with
    hpre | ⟨mid, rfl⟩
  · exact .inr (Disk.kindAt_of_isPrefix hpre h.leads.dir)
  · have hmid := (List.prefix_append_right_inj _).1 hpre
    rcases List.eq_nil_or_concat' mid with rfl | ⟨mid, n, rfl⟩
    · exact .inr (by simpa using h.leads.dir)
    · have hn := hdots n (hmid.subset (by simp))
      cases hkind : d.root.kindAt (output.place ++ (mid ++ [n])) with
      | none => exact .inl rfl
      | some k => exact .inr (congrArg some ((h.dir_iff mid n k hkind).2 hn))

theorem makeParents (h : Tidy output d) (hnames : ∀ m ∈ names, IsName m)
    (hdots : ∀ m ∈ names, '.' ∉ m) (hn : IsName n)
    (hshort : ¬ IsLong ((below output names).child n)) :
    ∃ d', Disk.makeParents ((below output names).child n) d = (.ok (), d') ∧ Tidy output d' ∧
      Leads d' (below output names) := by
  have hout := h.leads.isAbsolute
  have hcheck : Disk.checkPath (below output names) = .ok () := by
    rw [checkPath_below h.leads hnames, if_neg]
    rw [← below_concat] at hshort
    exact fun hlong => hshort (isLong_below_append hout (by simpa using hn) hlong)
  have hclear := h.clear hdots
  obtain ⟨d', hmade, hcleared⟩ := Disk.makeDirs_of_clear h.plain h.leads hnames hcheck hclear
  have hleads : Leads d' output := h.leads.mono hcleared.cwd fun _ _ => hcleared.kindAt hclear
  refine ⟨d', ?_, ⟨hcleared.plain, hleads, fun mid m k hkind => ?_⟩,
    hleads.below hcleared.plain hnames hcheck hcleared.dir⟩
  · rw [makeParents_child (isAbsolute_below hout names) hn.noSlash hn.toOrdinary.not_isIdle]
    exact hmade
  · rw [Node.kindAt_eq_seen, hcleared.seen] at hkind
    split at hkind
    · next hway =>
        have hm := hdots m (((List.prefix_append_right_inj _).1 hway).subset (by simp))
        exact iff_of_true (Option.some.inj hkind).symm hm
    · rw [← Node.kindAt_eq_seen] at hkind
      exact h.dir_iff mid m k hkind

theorem writeText (h : Tidy output d) (hleads : Leads d (below output names))
    (hnames : ∀ m ∈ names, IsName m) (hn : IsName n) (hdot : '.' ∈ n)
    (hshort : ¬ IsLong ((below output names).child n)) (t : Text) :
    ∃ d', d.writeText ((below output names).child n) t = .ok d' ∧ Tidy output d' := by
  have hplace : (below output names).place ++ [n] = output.place ++ (names ++ [n]) := by
    rw [place_below h.leads.isAbsolute (ordinary_of_isName hnames), List.append_assoc]
  have hcheck : Disk.checkPath ((below output names).child n) = .ok () := by
    have hall : ∀ m ∈ names ++ [n], IsName m := by simpa [or_imp, forall_and] using ⟨hnames, hn⟩
    rw [← below_concat, checkPath_below h.leads hall, if_neg (by rwa [below_concat])]
  have hfree : d.root.kindAt ((below output names).place ++ [n]) ≠ some .dir := by
    intro hdir
    rw [hplace] at hdir
    exact (h.dir_iff names n .dir hdir).1 rfl hdot
  obtain ⟨d', hwrite, hwrote⟩ := hleads.exists_wrote h.plain hn hcheck hfree t.toBytes
  rw [hplace] at hwrote
  refine ⟨d', hwrite, hwrote.plain,
    h.leads.mono hwrote.cwd fun _ _ => hwrote.kindAt h.plain, fun mid m k hkind => ?_⟩
  rw [Node.kindAt_eq_seen, hwrote.seen] at hkind
  split at hkind
  · next hgoal =>
      have hm : m = n := (List.append_singleton_inj.1 (List.append_cancel_left hgoal.1)).2
      obtain rfl := Option.some.inj hkind
      exact iff_of_false (by simp [Node.kind]) (by simpa [hm] using hdot)
  · rw [← Node.kindAt_eq_seen] at hkind
    exact h.dir_iff mid m k hkind

/-- A template that gives a module gets it, and a tidy output stays so, where the name of the module
has a dot and the directories above it have none. -/
theorem take {front : List Text} {code : Text} {references : List Reference}
    (h : Tidy output w.disk) (hnames : f.names = front ++ [n]) (hfile : f.met = .file)
    (hfront : ∀ m ∈ front, IsName m) (hdots : ∀ m ∈ front, '.' ∉ m) (hn : Ordinary n)
    (hmodule : IsName (Path.renamed n pass.ext.module))
    (hdot : '.' ∈ Path.renamed n pass.ext.module)
    (hshort : ¬ IsLong (below output (front ++ [Path.renamed n pass.ext.module])))
    (hsame : pass.outcome w.disk (below pass.root f.names) =
      pass.outcome d (below pass.root f.names))
    (houtcome : pass.outcome d (below pass.root f.names) = .ok (.module code references))
    (htemplate : pass.Compiles f.names) (hends : Ends pass output d w.disk f.names f.met f.fate)
    (htake : (pass.take output y f.names f.met).result w = (.ok (y.add pass.root f), after)) :
    Tidy output after.disk ∧ f.fate.isTranspiled := by
  obtain ⟨names, met, fate⟩ := f
  dsimp only at hnames hfile hsame houtcome htemplate hends htake ⊢
  subst hnames hfile
  rw [below_concat] at hshort
  obtain ⟨mid, hmade, hmid, hleads⟩ := h.makeParents hfront hdots hmodule hshort
  obtain ⟨last, hwrite, hlast⟩ := hmid.writeText hleads hfront hmodule hdot hshort code
  have hwritable : writable ((below output front).child (Path.renamed n pass.ext.module)) code
      w.disk = .ok () := by
    rw [writable, hmade]
    dsimp only
    rw [hwrite]
  have hplaced : ∀ dst, pass.outputPath (relativePath (front ++ [n])) output = .ok dst →
      dst = (below output front).child (Path.renamed n pass.ext.module) := fun dst hdst =>
    (outputPath_relativePath pass (ordinary_of_isName hfront) hn hdst).2
  cases hends with
  | transpiled _ _ hdst _ =>
      obtain rfl := hplaced _ hdst
      have hdisk := disk_take (y := y) htemplate (hsame.trans houtcome) hdst hmade hwrite
      rw [htake] at hdisk
      exact ⟨hdisk ▸ hlast, rfl⟩
  | unwritten _ houtcome' hdst hwritten =>
      obtain rfl := hplaced _ hdst
      cases Except.ok.inj (houtcome.symm.trans houtcome')
      cases hwritable.symm.trans hwritten
  | refused _ hrefused => cases houtcome.symm.trans hrefused
  | clientOnly _ hclient => cases houtcome.symm.trans hclient
  | passed hno _ => exact absurd htemplate hno
  | copied hasset _ => exact absurd htemplate.2 hasset.2.1
  | uncopied hasset _ => exact absurd htemplate.2 hasset.2.1

end Tidy

/-- In a tidy output, the files of the route table can be written. -/
theorem Tidy.exists_emit {ext : Text} {routes : List Route} (h : Tidy output w.disk)
    (hfault : tableFault? w.disk output ext routes = none)
    (hshort : ∀ n ∈ [routesFile, serverFile], ¬ IsLong (output.child n)) :
    ∃ after, (emit output ext routes).result w = (.ok (output.child routesFile), after) := by
  obtain ⟨hroutes, hserver⟩ : _ ∧ _ := by simpa using hshort
  have hhere : below output [] = output := rfl
  have hnone : ∀ m ∈ ([] : List Text), IsName m := by simp
  obtain ⟨between, htable, hbetween⟩ := h.writeText (hhere ▸ h.leads) hnone
    (by decide : IsName routesFile) (by decide) hroutes (Route.render ext routes)
  obtain ⟨last, hscript, -⟩ := hbetween.writeText (hhere ▸ hbetween.leads) hnone
    (by decide : IsName serverFile) (by decide) hserver Route.serverScript
  have htable : w.disk.writeText (output.child routesFile) (Route.render ext routes) = .ok between :=
    htable
  have hscript : between.writeText (output.child serverFile) Route.serverScript = .ok last :=
    hscript
  refine ⟨{ w with disk := last }, ?_⟩
  rw [emit, Job.result_bind, Job.result_look, hfault]
  dsimp only
  rw [Job.result_bind, Job.result_change, h.leads.makeDirs h.plain]
  dsimp only
  rw [Job.result_bind, result_emitFile, htable]
  dsimp only
  rw [Job.result_bind, result_emitFile, hscript]
  rfl

end Quire.Build
