import Quire.Proofs.Build.Shipping

/-!
Directories that are copied as they are arrive complete. For each name the first of two places that
is a directory is chosen, on the disk as it was at the beginning; all its files that are not within
the output are tried, and those that can be copied are in the output at the end, with the bytes that
they had.
-/

namespace Quire.Build

open Disk (Place Plain Write IsName Leads Node)
open Quire.Path (Ordinary Straight)

variable {d e : Disk} {w : Work} {source output dir dir' : Path} {n : Text} {names : List Text}
  {loads : List (List Copied)} {c : Copied}

/-- The directory that a name stands for: the one beside the source root, or else the one in it. -/
inductive Chosen (d : Disk) (source : Path) (n : Text) : Path → Prop
  | beside {above : Path} (habove : source.parent? = some above) (hdir : d.isDir (above.child n)) :
      Chosen d source n (above.child n)
  | inside (hbeside : ∀ above, source.parent? = some above → ¬ d.isDir (above.child n))
      (hdir : d.isDir (source.child n)) : Chosen d source n (source.child n)

theorem locate_eq_some_iff : locate d source n = some dir ↔ Chosen d source n dir := by
  unfold locate
  constructor
  · intro h
    cases habove : source.parent? with
    | none =>
        simp only [habove, Option.map_none, Option.toList_none, List.nil_append,
          List.find?_cons] at h
        split at h
        · next hdir =>
            obtain rfl := Option.some.inj h
            exact .inside (by simp [habove]) hdir
        · cases h
    | some above =>
        simp only [habove, Option.map_some, Option.toList_some, List.singleton_append,
          List.find?_cons] at h
        split at h
        · next hdir =>
            obtain rfl := Option.some.inj h
            exact .beside habove hdir
        · next hbeside =>
            split at h
            · next hdir =>
                obtain rfl := Option.some.inj h
                refine .inside (fun above' habove' => ?_) hdir
                obtain rfl := Option.some.inj (habove.symm.trans habove')
                simp [hbeside]
            · cases h
  · intro h
    cases h with
    | beside habove hdir => simp [habove, hdir]
    | inside hbeside hdir =>
        cases habove : source.parent? with
        | none => simp [hdir]
        | some above => simp [hdir, hbeside above habove]

theorem Chosen.unique (h : Chosen d source n dir) (h' : Chosen d source n dir') : dir = dir' :=
  Option.some.inj ((locate_eq_some_iff.2 h).symm.trans (locate_eq_some_iff.2 h'))

/-- The files that were to be copied under a name: those of the directory that it stands for, or
none if it stands for no directory. -/
inductive Loaded (d : Disk) (source output : Path) (n : Text) : List Copied → Prop
  | of {dir : Path} {copies : List Copied} (hdir : Chosen d source n dir)
      (hload : Load d output dir n copies) : Loaded d source output n copies
  | none (hnone : ∀ dir, ¬ Chosen d source n dir) : Loaded d source output n []

/-- What was to be copied under some names is from the directories that they stand for. -/
theorem chosen_of_mem (h : List.Forall₂ (Loaded d source output) names loads)
    (hc : c ∈ loads.flatten) :
    c.name ∈ names ∧ Chosen d source c.name c.dir ∧ Static d output c.dir c.file := by
  induction h with
  | nil => simp at hc
  | @cons n copies names loads hfirst hrest ih =>
      rcases List.mem_append.1 hc with hc | hc
      · cases hfirst with
        | none => cases hc
        | of hdir hload =>
            obtain ⟨rfl, rfl⟩ := hload.of c hc
            exact ⟨List.mem_cons_self, hdir, (hload.complete c.file).1 ⟨c, hc, rfl⟩⟩
      · obtain ⟨hname, hchosen⟩ := ih hc
        exact ⟨List.mem_cons_of_mem n hname, hchosen⟩

section

variable (hsource : Straight source) (hout : Straight output) (hwithin : ¬ output.isWithin source)

include hsource hout hwithin

/-- Copies into the output do not change which directory a name stands for. -/
theorem locate_of_reworked (hready : Ready output d) (he : Reworked (Inside output.place) d e)
    (hn : Ordinary n) : locate e source n = locate d source n := by
  have hoff : ¬ output.place <+: source.place := fun hpre =>
    hwithin ((hsource.isWithin_iff hout).2 hpre)
  exact ((AlikeOutside.refl hready).step (Reworked.refl hready.plain) he).locate hsource hoff hn

/-- One name after the other, the directories that they stand for are copied with all their
files. -/
theorem exists_loads (hstart : Ready output d) (hnames : ∀ n ∈ names, Ordinary n)
    (hd : Reworked (Inside output.place) d w.disk) (count : Nat) :
    ∃ loads count' after,
      (names.foldlM (fun count name => do
        match ← look (locate · source name) with
        | none => return count
        | some dir => copyDir output dir (output.child name) count) count : Job Nat).result w =
          (.ok count', after) ∧
      List.Forall₂ (Loaded d source output) names loads ∧
      Shipped d output loads.flatten count count' w.disk after.disk := by
  induction names generalizing w count with
  | nil => exact ⟨[], count, w, rfl, .nil, Shipped.nil hd.plain⟩
  | cons n names ih =>
      have hready := hstart.mono hd
      have hn := hnames n List.mem_cons_self
      have hnames' : ∀ n ∈ names, Ordinary n := fun m hm => hnames m (List.mem_cons_of_mem n hm)
      have hlocate := locate_of_reworked hsource hout hwithin hstart hd hn
      simp only [List.foldlM_cons, Job.result_bind, Job.result_look]
      cases hfound : locate w.disk source n with
      | none =>
          have hnone : ∀ dir, ¬ Chosen d source n dir := fun dir hdir => by
            rw [← locate_eq_some_iff, ← hlocate, hfound] at hdir
            cases hdir
          obtain ⟨loads, count', after, hresult, hloads, hshipped⟩ := ih hnames' hd count
          exact ⟨[] :: loads, count', after, hresult, .cons (.none hnone) hloads, hshipped⟩
      | some dir =>
          obtain ⟨hdir, hname, -⟩ := straight_of_locate hready.plain hsource hn hfound
          have hthere := (located hsource.isAbsolute hfound).2
          obtain ⟨copies, mid, between, hcopy, hfirst, hload⟩ :=
            exists_load_copyDir hout hdir hname hd hready hthere count
          obtain ⟨loads, last, after, hresult, hloads, hrest⟩ :=
            ih hnames' (hd.trans hfirst.reworked) mid
          rw [hlocate] at hfound
          refine ⟨copies :: loads, last, after, ?_,
            .cons (.of (locate_eq_some_iff.1 hfound) hload) hloads, hfirst.trans hrest⟩
          simp only [hcopy]
          exact hresult

end

theorem isName_of_static (hd : d.Plain) (h : Static d output dir names) :
    ∀ m ∈ names, IsName m := isName_of_kindAt hd (by rw [h.file]; rfl)

/-- A file that could be copied is there with the bytes that it had: whatever else was written at
the place of the copy are copies of the same file. -/
theorem arrived_of_shipped {d' : Disk} {count count' : Nat} (hd : d.Plain)
    (hsource : Straight source) (hout : Straight output) (hnames : ∀ n ∈ names, Ordinary n)
    (hloads : List.Forall₂ (Loaded d source output) names loads)
    (h : Shipped d output loads.flatten count count' d d') (hc : c ∈ loads.flatten)
    (hfault : c.fault = none)
    (hdevice : d.Takes (output.place ++ c.name :: c.file)) :
    ∃ bytes, d.root.bytesAt (c.dir.place ++ c.file) = some bytes ∧
      d'.root.bytesAt (output.place ++ c.name :: c.file) = some bytes := by
  have htold : ∀ b ∈ loads.flatten, (b.goal output).place = output.place ++ b.name :: b.file ∧
      b.origin.place = b.dir.place ++ b.file := by
    intro b hb
    obtain ⟨hname, hdir, hstatic⟩ := chosen_of_mem hloads hb
    have hfile := isName_of_static hd hstatic
    obtain ⟨habs, -⟩ := located hsource.isAbsolute (locate_eq_some_iff.2 hdir)
    exact ⟨place_below_child hout.isAbsolute (hnames _ hname) hfile,
      place_below habs (ordinary_of_isName hfile)⟩
  obtain ⟨-, hdir, hstatic⟩ := chosen_of_mem hloads hc
  obtain ⟨bytes, hbytes⟩ := Node.kindAt_file_iff.1 hstatic.file
  refine ⟨bytes, hbytes, ?_⟩
  rw [h.overlaid.bytes _ hdevice]
  rw [← (htold c hc).2] at hbytes
  have hwrite : c.write? d output = some ⟨(c.goal output).place, bytes⟩ :=
    Copied.write?_eq_some_iff.2 ⟨hfault, bytes, hbytes, rfl⟩
  refine Disk.overlay_of_agree (fun write hmem hplace => ?_)
    ⟨⟨(c.goal output).place, bytes⟩, List.mem_filterMap.2 ⟨c, hc, hwrite⟩, (htold c hc).1⟩
  obtain ⟨b, hb, hother⟩ := List.mem_filterMap.1 hmem
  obtain ⟨-, bytes', hbytes', rfl⟩ := Copied.write?_eq_some_iff.1 hother
  obtain ⟨-, hdir', -⟩ := chosen_of_mem hloads hb
  -- the other copy has the same name, so it is from the same directory
  rw [(htold b hb).1, List.append_cancel_left_eq, List.cons.injEq] at hplace
  rw [hplace.1] at hdir'
  rw [(htold b hb).2, hdir'.unique hdir, hplace.2, ← (htold c hc).2, hbytes] at hbytes'
  exact (Option.some.inj hbytes').symm

/-- What came of copying the directories of some names. The files of each directory were all tried,
once each; on a disk that differs in the output only, each try ended as it is told. A file that
could be copied is there with the bytes that it had, where what is written is kept, and nothing
changed but what is inside of the output. -/
structure Stocked (source output : Path) (names : List Text) (loads : List (List Copied))
    (d d' : Disk) : Prop where
  loaded : List.Forall₂ (Loaded d source output) names loads
  tried : ∀ c ∈ loads.flatten, ∃ a, Reworked (Inside output.place) d a ∧
    (Disk.copyInto c.origin (c.goal output) a).1 = c.answer
  arrived : ∀ c ∈ loads.flatten, c.fault = none →
    d.Takes (output.place ++ c.name :: c.file) →
    ∃ bytes, d.root.bytesAt (c.dir.place ++ c.file) = some bytes ∧
      d'.root.bytesAt (output.place ++ c.name :: c.file) = some bytes
  kept : Reworked (Inside output.place) d d'

/-- A disk with a single directory `/p`, which has the given children. -/
def holding (children : List (Text × Node)) : Work where
  disk := { root := .dir [("p".toList, .dir children)], cwd := [] }

/-- A site with static files beside it and in it. The output is among those in it. -/
def stockedSite : Work :=
  holding [("public".toList, .dir [("b.txt".toList, .file "b".toUTF8)]),
    ("site".toList, .dir [("assets".toList, .dir [
      (".DS_Store".toList, .file "notes".toUTF8),
      ("a.css".toList, .file "a".toUTF8),
      ("out".toList, .dir [("old.txt".toList, .file "old".toUTF8)])])])]

/-- Directories in one another, so many of them and all of one name. -/
def nested (n : Text) (x : Node) : Nat → Node
  | 0 => x
  | k + 1 => .dir [(n, nested n x k)]

/-- A site beside which the output stands, and in which static files are under the same name. -/
def shadowedSite : Work :=
  holding [("out".toList, .dir []),
    ("site".toList, .dir [("out".toList, .dir [("a.txt".toList, .file "a".toUTF8)])])]

/-- A site whose static file lies too deep for its directory to be listed. -/
def deepSite : Work :=
  holding [("assets".toList,
      nested (List.replicate 255 'd') (.dir [("x.txt".toList, .file "x".toUTF8)]) 16),
    ("out".toList, .dir []), ("site".toList, .dir [])]

/-- A site in whose output a device stands where the copy of a static file is to be. -/
def swallowedSite : Work :=
  holding [("assets".toList, .dir [("a.txt".toList, .file "a".toUTF8)]),
    ("out".toList, .dir [("assets".toList, .dir [("a.txt".toList, .sink)])]),
    ("site".toList, .dir [])]

end Quire.Build
