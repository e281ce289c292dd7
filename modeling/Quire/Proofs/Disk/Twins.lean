import Quire.Proofs.Disk.Alike
import Quire.Proofs.Disk.Passage

/-!
Two disks on which the same is done, except for one file. They may differ in the bytes of that
file, in what came of it at one other place, and in which directories were made on the way there:
what is done with other files ends alike on both and keeps them so.
-/

namespace Quire.Disk

open Quire.Path (Step Ordinary placeFrom)

variable {d d' e e' : Disk} {base p : Path} {ways : List Place} {src goal place q : Place}
  {root : Node} {n : Text} {names : List Text} {steps pre post : List Step} {bytes : ByteArray}
  {strict : Prop}

theorem Loose.bytesAt (h : Loose root q) : root.bytesAt q = none := by
  rcases h with hnone | hdir
  · cases hbytes : root.bytesAt q with
    | none => rfl
    | some bytes => exact absurd (hnone.symm.trans (Node.kindAt_file_iff.2 ⟨bytes, hbytes⟩)) (by simp)
  · exact Node.bytesAt_of_kindAt_dir hdir

/-- Two disks that differ in the bytes of a source, in what is at its goal, and in which of the
directories on some ways are there. -/
structure Twins (ways : List Place) (src goal : Place) (d e : Disk) : Prop where
  plain : d.Plain
  plain' : e.Plain
  cwd : e.cwd = d.cwd
  file : d.root.kindAt src = some .file
  file' : e.root.kindAt src = some .file
  seen : ∀ q, q ≠ src → e.root.seen q = d.root.seen q ∨
    (q ∈ ways ∧ Loose d.root q ∧ Loose e.root q) ∨ q = goal ∧ goal ∉ ways

namespace Twins

theorem symm (h : Twins ways src goal d e) : Twins ways src goal e d where
  plain := h.plain'
  plain' := h.plain
  cwd := h.cwd.symm
  file := h.file'
  file' := h.file
  seen q hq := by
    rcases h.seen q hq with hsame | ⟨hways, hloose, hloose'⟩ | hgoal
    · exact Or.inl hsame.symm
    · exact Or.inr (Or.inl ⟨hways, hloose', hloose⟩)
    · exact Or.inr (Or.inr hgoal)

/-- On both disks the same is in the way of directories. -/
theorem loose_iff (h : Twins ways src goal d e) (hgoal : q = goal → goal ∈ ways) :
    Loose d.root q ↔ Loose e.root q := by
  by_cases hsrc : q = src
  · simp [Loose, hsrc, h.file, h.file']
  · rcases h.seen q hsrc with hsame | ⟨_, hloose, hloose'⟩ | ⟨heq, hoff⟩
    · rw [Loose, Loose, Node.kindAt_congr hsame]
    · exact iff_of_true hloose hloose'
    · exact absurd (hgoal heq) hoff

theorem bytesAt (h : Twins ways src goal d e) (hsrc : q ≠ src) (hgoal : q ≠ goal) :
    e.root.bytesAt q = d.root.bytesAt q := by
  rcases h.seen q hsrc with hsame | ⟨_, hloose, hloose'⟩ | ⟨heq, _⟩
  · exact Node.bytesAt_congr hsame
  · rw [hloose.bytesAt, hloose'.bytesAt]
  · exact absurd heq hgoal

theorem device_iff (h : Twins ways src goal d e) (hsrc : q ≠ src) (hgoal : q ≠ goal) :
    e.root.kindAt q = some .device ↔ d.root.kindAt q = some .device := by
  rcases h.seen q hsrc with hsame | ⟨_, hloose, hloose'⟩ | ⟨heq, _⟩
  · rw [Node.kindAt_congr hsame]
  · refine iff_of_false (fun hdevice => ?_) fun hdevice => ?_
    · simp [Loose, hdevice] at hloose'
    · simp [Loose, hdevice] at hloose
  · exact absurd heq hgoal

/-- Directories on the ways may come to one of the disks alone. -/
theorem laid (h : Twins ways src goal d e) (hlaid : Laid ways d d') : Twins ways src goal d' e where
  plain := hlaid.plain
  plain' := h.plain'
  cwd := by rw [h.cwd, hlaid.cwd]
  file := hlaid.kindAt h.file
  file' := h.file'
  seen q hq := by
    rcases h.seen q hq with hsame | ⟨hways, hloose, hloose'⟩ | hgoal
    · rcases hlaid.seen q with hkept | ⟨hnone, hdir⟩
      · exact Or.inl (hsame.trans hkept.symm)
      · by_cases hways : q ∈ ways
        · refine Or.inr (Or.inl ⟨hways, Or.inr (Node.seen_dir_iff.1 hdir), Or.inl ?_⟩)
          rw [Node.kindAt_eq_seen, hsame, hnone]
          rfl
        · exact Or.inl (hsame.trans (hlaid.frame q hways).symm)
    · exact Or.inr (Or.inl ⟨hways, hloose.of_furnished rfl hlaid.toFurnished, hloose'⟩)
    · exact Or.inr (Or.inr hgoal)

/-- Directories that are there on both disks in the end may be made anywhere. -/
theorem made {places : List Place} (h : Twins ways src goal d e) (hlaid : Laid places d d')
    (hlaid' : Laid places e e') (hdirs : ∀ q ∈ places, d'.root.kindAt q = some .dir)
    (hdirs' : ∀ q ∈ places, e'.root.kindAt q = some .dir) : Twins ways src goal d' e' where
  plain := hlaid.plain
  plain' := hlaid'.plain
  cwd := by rw [hlaid'.cwd, h.cwd, hlaid.cwd]
  file := hlaid.kindAt h.file
  file' := hlaid'.kindAt h.file'
  seen q hq := by
    by_cases hplaces : q ∈ places
    · left
      rw [Node.seen_dir_iff.2 (hdirs q hplaces), Node.seen_dir_iff.2 (hdirs' q hplaces)]
    · have hsame := Node.kindAt_congr (hlaid.frame q hplaces)
      have hsame' := Node.kindAt_congr (hlaid'.frame q hplaces)
      rw [hlaid.frame q hplaces, hlaid'.frame q hplaces, Loose, Loose, hsame, hsame']
      exact h.seen q hq

/-- The same bytes may be written on both disks. -/
theorem wrote (h : Twins ways src goal d e) (hsrc : place ≠ src) (hgoal : place ≠ goal)
    (hd : Wrote place bytes d d') (he : Wrote place bytes e e') : Twins ways src goal d' e' where
  plain := hd.plain
  plain' := he.plain
  cwd := by rw [he.cwd, h.cwd, hd.cwd]
  file := hd.kindAt h.plain h.file
  file' := he.kindAt h.plain' h.file'
  seen q hq := by
    by_cases hchanged : q = place ∧ d.root.kindAt q ≠ some .device
    · have hdevice' := mt (h.device_iff (hchanged.1 ▸ hsrc) (hchanged.1 ▸ hgoal)).1 hchanged.2
      left
      rw [he.seen, hd.seen, if_pos hchanged, if_pos ⟨hchanged.1, hdevice'⟩]
    · have hsame : d'.root.seen q = d.root.seen q := by rw [hd.seen, if_neg hchanged]
      have hsame' : e'.root.seen q = e.root.seen q := by
        rw [he.seen, if_neg fun hchanged' => hchanged ⟨hchanged'.1, fun hdevice => ?_⟩]
        exact hchanged'.2
          ((h.device_iff (hchanged'.1 ▸ hsrc) (hchanged'.1 ▸ hgoal)).2 hdevice)
      rw [hsame, hsame', Loose, Loose, Node.kindAt_congr hsame, Node.kindAt_congr hsame']
      exact h.seen q hq

/-- On one of the disks alone something may be written at the goal, off the ways. -/
theorem wrote_goal (h : Twins ways src goal d e) (hways : goal ∉ ways)
    (hd : Wrote goal bytes d d') : Twins ways src goal d' e where
  plain := hd.plain
  plain' := h.plain'
  cwd := by rw [h.cwd, hd.cwd]
  file := hd.kindAt h.plain h.file
  file' := h.file'
  seen q hq := by
    by_cases hgoal : q = goal
    · exact Or.inr (Or.inr ⟨hgoal, hways⟩)
    · have hsame := hd.seen_of_ne hgoal
      rw [hsame, Loose, Node.kindAt_congr hsame]
      exact h.seen q hq

end Twins

/-! Ends that are alike. -/

/-- Two changes ended alike: in the same way, or, if that is not asked for, with two faults. -/
def Agree {ε : Type} (strict : Prop) (a b : Except ε Unit) : Prop :=
  b = a ∨ ¬ strict ∧ (∃ f, a = .error f) ∧ ∃ g, b = .error g

/-- What two changes leave: they ended alike, and the disks are twins. -/
structure Twinned (strict : Prop) (ways : List Place) (src goal : Place)
    (x y : Except Fault Unit × Disk) : Prop where
  answers : Agree strict x.1 y.1
  disks : Twins ways src goal x.2 y.2

/-- What is done after a change that went well on both disks. -/
theorem Twinned.andThen {c c' first first' : Change}
    (h : Twinned strict ways src goal (first d) (first' e))
    (hnext : (first d).1 = .ok () → (first' e).1 = .ok () →
      Twinned strict ways src goal (c (first d).2) (c' (first' e).2)) :
    Twinned strict ways src goal (first.andThen c d) (first'.andThen c' e) := by
  unfold Change.andThen
  rcases hfirst : first d with ⟨a, after⟩
  rcases hfirst' : first' e with ⟨b, after'⟩
  rw [hfirst, hfirst'] at h hnext
  have hanswers := h.answers
  cases a with
  | error f =>
      cases b with
      | error g => exact h
      | ok u => rcases hanswers with hsame | ⟨-, -, g, hg⟩ <;> simp_all
  | ok u =>
      cases b with
      | error g => rcases hanswers with hsame | ⟨-, ⟨f, hf⟩, -⟩ <;> simp_all
      | ok v => exact hnext rfl rfl

/-! The way of a path that leads on by names. -/

/-- A way that passes only through what is above its end, or through directories that are there. -/
def Direct (root : Node) (p : Path) : Prop :=
  ∀ q ∈ stations [] p.inner, q <+: p.place ∨ root.kindAt q = some .dir

instance (root : Node) (p : Path) : Decidable (Direct root p) :=
  inferInstanceAs (Decidable (∀ q ∈ _, _))

theorem exists_front_of_station (h : q ∈ stations place steps) :
    ∃ front rest, steps = front ++ rest ∧ q = placeFrom place front := by
  induction steps generalizing place with
  | nil => cases h
  | cons s steps ih =>
      rcases List.mem_cons.1 h with rfl | h
      · exact ⟨[s], steps, rfl, rfl⟩
      · obtain ⟨front, rest, rfl, rfl⟩ := ih h
        exact ⟨s :: front, rest, rfl, rfl⟩

/-- What is in the way is not above anything on the way to it. -/
theorem Stuck.not_isPrefix (h : Stuck root steps pre n post) (hroot : root.kindAt [] = some .dir)
    (hway : ∀ s ∈ steps, s.IsWay) (hshort : ¬ maxName < n.byteSize) (hq : q ∈ stations [] pre) :
    ¬ placeFrom [] pre ++ [n] <+: q := by
  intro hpre
  obtain ⟨front, rest, rfl, rfl⟩ := exists_front_of_station hq
  have hfront : ∀ s ∈ front, s.IsWay := fun s hs => hway s (by rw [h.split]; simp [hs])
  exact (h.stuck.resolve_left hshort) (h.pass.front.clear hroot hfront _ hpre)

section

variable (hbase : base.isAbsolute) (hnames : ∀ m ∈ names, IsName m)

include hbase hnames

/-- On a direct way all is there up to what is in the way. -/
theorem stuckFault_of_direct (hroot : root.kindAt [] = some .dir) (hdirect : Direct root base)
    (h : Stuck root (names.foldl Path.child base).trimmed.inner pre n post) :
    stuckFault root pre n post =
      if maxName < n.byteSize then .nameTooLong
      else if post = [] then .exists
      else .notDirectory := by
  unfold stuckFault
  by_cases hlong : maxName < n.byteSize
  · rw [if_pos hlong, if_pos hlong]
  rw [if_neg hlong, if_neg hlong]
  have hordinary : ∀ m ∈ names, Ordinary m := fun m hm => (hnames m hm).toOrdinary
  have hway : ∀ s ∈ (names.foldl Path.child base).trimmed.inner, s.IsWay := fun _ =>
    Path.isWay_of_mem_inner
  suffices hthere : ¬ ∃ q ∈ stations [] pre, root.kindAt q = none by
    simp only [hthere, or_false]
  rintro ⟨q, hq, hnone⟩
  obtain ⟨hlast, hpre⟩ := h.station
  have hoff := h.not_isPrefix hroot hway hlong hq
  have hloose := h.stuck.resolve_left hlong
  generalize placeFrom [] pre ++ [n] = last at hlast hoff hloose
  have hoff' : ¬ q <+: last := by
    rintro ⟨rest, rfl⟩
    refine hloose (Or.inl ?_)
    cases rest with
    | nil => rwa [List.append_nil]
    | cons m rest =>
        by_contra hne
        have hdir := Node.kindAt_of_append (Option.isSome_iff_ne_none.2 hne)
        rw [hnone] at hdir
        cases hdir
  -- both are above the end of the base, or below it on the way down the names
  have hplaces : ∀ x ∈ stations [] (names.foldl Path.child base).trimmed.inner,
      root.kindAt x ≠ some .dir → x <+: base.place ++ names := by
    intro x hx hne
    rcases (mem_stations_below hbase hordinary).1 hx with hx | ⟨front, -, hfront, rfl⟩
    · exact ((hdirect x hx).resolve_right hne).trans (List.prefix_append _ _)
    · exact (List.prefix_append_right_inj _).2 hfront
  have hqplace := hplaces q (hpre q hq) (by simp [hnone])
  have hlastplace := hplaces last hlast fun hdir => hloose (Or.inr hdir)
  rcases List.prefix_or_prefix_of_prefix hqplace hlastplace with hle | hle
  · exact hoff' hle
  · exact hoff hle

end

/-- However the making of directories ends, directories came only on the way; where it went well
all of them are there. -/
theorem laid_makeDirs (hd : d.Plain) (hp : p.isAbsolute) (htrim : p.trimmed = p) :
    Laid (stations [] p.inner) d (makeDirs p d).2 ∧
      ((makeDirs p d).1 = .ok () →
        ∀ q ∈ stations [] p.inner, (makeDirs p d).2.root.kindAt q = some .dir) := by
  cases hcheck : checkPath p with
  | error f =>
      rw [makeDirs_of_check_error hp htrim hcheck]
      exact ⟨Laid.refl hd _, by simp⟩
  | ok u =>
      have hway : ∀ s ∈ p.inner, s.IsWay := fun _ => Path.isWay_of_mem_inner
      rcases passable_or_stuck hd.rooted hway with hpass | ⟨pre, n, post, hstuck⟩
      · obtain ⟨d', hmade, hlaid, hdirs⟩ := makeDirs_of_passable hd hp htrim hcheck hpass
        rw [hmade]
        exact ⟨hlaid, fun _ => hdirs⟩
      · obtain ⟨d', hmade, hlaid⟩ := makeDirs_of_stuck hd hp htrim hcheck hstuck
        rw [hmade]
        exact ⟨hlaid.mono hstuck.station.2, by simp⟩

namespace Twins

variable (h : Twins ways src goal d e) (hbase : base.isAbsolute) (hnames : ∀ m ∈ names, IsName m)

include h

/-- Directories on the ways are made on one of the disks alone. -/
theorem makeDirs_alone (hp : p.isAbsolute) (htrim : p.trimmed = p)
    (hways : stations [] p.inner ⊆ ways) : Twins ways src goal (Disk.makeDirs p d).2 e :=
  h.laid ((laid_makeDirs h.plain hp htrim).1.mono hways)

include hbase hnames

/-- Directories below a base on the ways are made alike on both disks, unless the goal would be in
their way. -/
theorem makeDirs (hways : stations [] base.inner ⊆ ways)
    (hgoal : goal ∈ stations [] (names.foldl Path.child base).trimmed.inner → goal ∈ ways)
    (hstrict : strict → Direct d.root base ∧ Direct e.root base) :
    Twinned strict ways src goal (Disk.makeDirs (names.foldl Path.child base).trimmed d)
      (Disk.makeDirs (names.foldl Path.child base).trimmed e) := by
  have hp := Path.isAbsolute_trimmed (Path.isAbsolute_foldl_child hbase names)
  have htrim := Path.trimmed_trimmed (names.foldl Path.child base)
  cases hcheck : checkPath (names.foldl Path.child base).trimmed with
  | error f =>
      rw [makeDirs_of_check_error hp htrim hcheck, makeDirs_of_check_error hp htrim hcheck]
      exact ⟨Or.inl rfl, h⟩
  | ok u =>
      have hloose : ∀ q ∈ stations [] (names.foldl Path.child base).trimmed.inner,
          Loose d.root q ↔ Loose e.root q := fun q hq => h.loose_iff fun heq => hgoal (heq ▸ hq)
      have hway : ∀ s ∈ (names.foldl Path.child base).trimmed.inner, s.IsWay :=
        fun _ => Path.isWay_of_mem_inner
      rcases passable_or_stuck h.plain.rooted hway with hpass | ⟨pre, n, post, hstuck⟩
      · obtain ⟨d', hmade, hlaid, hdirs⟩ := makeDirs_of_passable h.plain hp htrim hcheck hpass
        obtain ⟨e', hmade', hlaid', hdirs'⟩ := makeDirs_of_passable h.plain' hp htrim hcheck
          (hpass.congr fun q hq => (hloose q hq).1)
        rw [hmade, hmade']
        exact ⟨Or.inl rfl, h.made hlaid hlaid' hdirs hdirs'⟩
      · have hstuck' := hstuck.congr hloose
        obtain ⟨d', hmade, hlaid⟩ := makeDirs_below_of_stuck h.plain hbase hnames hcheck hstuck
        obtain ⟨e', hmade', hlaid'⟩ := makeDirs_below_of_stuck h.plain' hbase hnames hcheck hstuck'
        rw [hmade, hmade']
        refine ⟨?_, ((h.laid (hlaid.mono hways)).symm.laid (hlaid'.mono hways)).symm⟩
        by_cases hs : strict
        · obtain ⟨hdirect, hdirect'⟩ := hstrict hs
          left
          rw [stuckFault_of_direct hbase hnames h.plain'.rooted hdirect' hstuck',
            stuckFault_of_direct hbase hnames h.plain.rooted hdirect hstuck]
        · exact Or.inr ⟨hs, ⟨_, rfl⟩, _, rfl⟩

end Twins

/-! Files under a name in a directory that was made on both disks. -/

/-- A path leads to the directory that was made under it. -/
theorem leads_of_makeDirs (hd : d.Plain) (hp : p.isAbsolute) (hcheck : checkPath p = .ok ())
    (h : (makeDirs p.trimmed d).1 = .ok ()) : Leads (makeDirs p.trimmed d).2 p := by
  have htrim := Path.isAbsolute_trimmed hp
  have hplain := (furnished_makeDirs hd htrim).plain
  have hsteps := Path.steps_trimmed hp
  rcases isDir_of_makeDirs hd htrim h with hdir | hinner
  · have hleads := leads_of_isDir hplain htrim hdir
    have hplace : p.trimmed.place = p.place := by rw [Path.place, Path.place, hsteps]
    exact ⟨hp, hcheck, by rw [← hsteps, ← hplace]; exact hleads.walk, hplace ▸ hleads.dir⟩
  · have hroot : p.steps = [.root] := by rw [← hsteps, Path.steps_of_isAbsolute htrim, hinner]
    have hplace : p.place = [] := by rw [Path.place, hroot]; rfl
    refine ⟨hp, hcheck, ?_, hplace ▸ hplain.rooted⟩
    rw [hroot, hplace, walk, walk]

namespace Twins

variable {above source : Path} (h : Twins ways src goal d e) (habove : above.isAbsolute)
  (hleads : checkPath above = .ok () → Leads d above ∧ Leads e above)
  (hn : Ordinary n ∨ n = ['.', '.']) (hsrc : above.place ++ [n] ≠ src)
  (hgoal : above.place ++ [n] ≠ goal)
  (hways : above.place ++ [n] ∈ ways → d.root.kindAt (above.place ++ [n]) = some .dir ∧
    e.root.kindAt (above.place ++ [n]) = some .dir)

include h habove hleads hn hsrc hgoal hways

/-- On both disks the same is aimed at. -/
theorem target?_child :
    e.target? (above.child n) = d.target? (above.child n) ∧
      ∀ aim, d.target? (above.child n) = .ok aim → (above.child n).place = above.place ++ [n] := by
  have hslash := (Path.noSlash_and_not_isIdle hn).1
  cases hcheck : checkPath (above.child n) with
  | error f =>
      unfold target?
      rw [hcheck]
      exact ⟨rfl, fun _ haim => by cases haim⟩
  | ok u =>
      obtain ⟨hd, he⟩ := hleads
        (checkPath_of_isPrefix (Path.text_isPrefix_child habove hslash) (text_ne_nil habove) hcheck)
      have hdir : d.root.kindAt (above.place ++ [n]) = some .dir ↔
          e.root.kindAt (above.place ++ [n]) = some .dir := by
        rcases h.seen _ hsrc with hsame | ⟨hmem, -, -⟩ | ⟨heq, -⟩
        · rw [Node.kindAt_congr hsame]
        · exact iff_of_true (hways hmem).1 (hways hmem).2
        · exact absurd heq hgoal
      have hplace := fun aim (haim : d.target? (above.child n) = .ok aim) =>
        target?_child_ok h.plain hd hn haim
      refine ⟨target?_again h.plain h.plain' hd he hn hdir.1 fun aim haim hkind => ?_,
        fun aim haim => (hplace aim haim).1⟩
      obtain ⟨_, _, _, -, hat', haim', -, hfree⟩ := target?_ok h.plain haim
      rw [placeOf_of_isAbsolute (Path.isAbsolute_child habove n)] at hat'
      rw [(hplace aim haim).2] at hkind
      rw [← hat', (hplace aim haim).1] at hfree
      exact hfree (hdir.2 hkind)

theorem writeText (t : Text) : Twinned strict ways src goal
    (Change.ofWhole (·.writeText (above.child n) t) d)
    (Change.ofWhole (·.writeText (above.child n) t) e) := by
  have habs := Path.isAbsolute_child habove n
  obtain ⟨hsame, hplace⟩ := h.target?_child habove hleads hn hsrc hgoal hways
  cases haim : d.target? (above.child n) with
  | error f =>
      have hfail : d.writeText (above.child n) t = .error f := by
        rw [Disk.writeText, write_eq_map, haim]
        rfl
      have hfail' : e.writeText (above.child n) t = .error f := by
        rw [Disk.writeText, write_eq_map, hsame, haim]
        rfl
      rw [ofWhole_error hfail, ofWhole_error hfail']
      exact ⟨Or.inl rfl, h⟩
  | ok aim =>
      have hwrite : d.writeText (above.child n) t = .ok (d.fill aim t.toBytes) := by
        rw [Disk.writeText, write_eq_map, haim]
        rfl
      have hwrite' : e.writeText (above.child n) t = .ok (e.fill aim t.toBytes) := by
        rw [Disk.writeText, write_eq_map, hsame, haim]
        rfl
      have hwrote := wrote_write h.plain habs hwrite
      have hwrote' := wrote_write h.plain' habs hwrite'
      rw [hplace aim haim] at hwrote hwrote'
      rw [ofWhole_ok hwrite, ofWhole_ok hwrite']
      exact ⟨Or.inl rfl, h.wrote hsrc hgoal hwrote hwrote'⟩

/-- The same file is copied on both disks. -/
theorem copy (hsource : source.isAbsolute)
    (hfile : (∃ f, d.place? source = .error f ∧ e.place? source = .error f) ∨
      ∃ bytes, d.place? source = .ok source.place ∧ e.place? source = .ok source.place ∧
        d.root.bytesAt source.place = some bytes ∧ e.root.bytesAt source.place = some bytes) :
    Twinned strict ways src goal (Change.ofWhole (·.copy source (above.child n)) d)
      (Change.ofWhole (·.copy source (above.child n)) e) := by
  have habs := Path.isAbsolute_child habove n
  have hfail : ∀ f, d.copy source (above.child n) = .error f →
      e.copy source (above.child n) = .error f → Twinned strict ways src goal
        (Change.ofWhole (·.copy source (above.child n)) d)
        (Change.ofWhole (·.copy source (above.child n)) e) := fun f hf hf' => by
    rw [ofWhole_error hf, ofWhole_error hf']
    exact ⟨Or.inl rfl, h⟩
  rcases hfile with ⟨f, hplace, hplace'⟩ | ⟨bytes, hplace, hplace', hbytes, hbytes'⟩
  · refine hfail f ?_ ?_
    · rw [Disk.copy, hplace]
      rfl
    · rw [Disk.copy, hplace']
      rfl
  · obtain ⟨hsame, hat'⟩ := h.target?_child habove hleads hn hsrc hgoal hways
    have hcopy := copy_of_file (above.child n) hplace (Node.get?_of_bytesAt hbytes)
    have hcopy' := copy_of_file (above.child n) hplace' (Node.get?_of_bytesAt hbytes')
    rw [hsame] at hcopy'
    cases haim : d.target? (above.child n) with
    | error f => exact hfail f (hcopy.1 f haim) (hcopy'.1 f haim)
    | ok aim =>
        obtain ⟨d', hd'⟩ := hcopy.2 aim haim
        obtain ⟨e', he'⟩ := hcopy'.2 aim haim
        obtain ⟨read, hread, hwrote⟩ := wrote_copy h.plain hsource habs hd'
        obtain ⟨read', hread', hwrote'⟩ := wrote_copy h.plain' hsource habs he'
        obtain rfl : read = bytes := Option.some.inj (hread.symm.trans hbytes)
        obtain rfl : read' = read := Option.some.inj (hread'.symm.trans hbytes')
        rw [hat' aim haim] at hwrote hwrote'
        rw [ofWhole_ok hd', ofWhole_ok he']
        exact ⟨Or.inl rfl, h.wrote hsrc hgoal hwrote hwrote'⟩

end Twins

end Quire.Disk
