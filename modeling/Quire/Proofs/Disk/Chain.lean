import Quire.Proofs.Disk.Writing
import Quire.Proofs.Path.Straight

/-!
Making directories below one that is there. It fails exactly when the path is too long or when
something else than a directory stands on the way, and then nothing has changed; otherwise all
directories on the way are there afterwards.
-/

namespace Quire.Disk

open Quire.Path (Step Ordinary)

variable {d d' e : Disk} {p q : Path} {place : Place} {root : Node} {n : Text} {names : List Text}

/-- A path that leads to a directory. -/
structure Leads (d : Disk) (p : Path) : Prop where
  isAbsolute : p.isAbsolute
  check : checkPath p = .ok ()
  walk : walk d.root d.cwd p.steps = .ok p.place
  dir : d.root.kindAt p.place = some .dir

theorem placeFrom_steps (hp : p.isAbsolute) (start : Place) :
    Path.placeFrom start p.steps = p.place := by
  rw [Path.place, Path.steps_of_isAbsolute hp]
  rfl

theorem walk_here (h : root.kindAt place = some .dir) : walk root place [.here] = .ok place := by
  obtain ⟨children, hget⟩ := Node.kindAt_dir_iff.1 h
  rw [walk, childrenAt_ok_iff.2 hget]
  rfl

theorem leads_of_isDir (hd : d.Plain) (hp : p.isAbsolute) (h : d.isDir p) : Leads d p := by
  obtain ⟨place, hplace, hkind⟩ := isDir_iff.1 h
  obtain rfl := eq_place_of_place? hd hp hplace
  obtain ⟨hcheck, hwalk⟩ := (place?_ok_iff hd).1 hplace
  refine ⟨hp, hcheck, ?_, hkind⟩
  unfold stepsTo at hwalk
  split at hwalk
  · rw [walk_append] at hwalk
    cases hfront : Disk.walk d.root d.cwd p.steps with
    | error e =>
        rw [hfront] at hwalk
        cases hwalk
    | ok goal => rw [eq_placeFrom_of_walk hfront, placeFrom_steps hp]
  · exact hwalk

namespace Leads

theorem isDir (hd : d.Plain) (h : Leads d p) : d.isDir p := by
  refine isDir_iff.2 ⟨p.place, (place?_ok_iff hd).2 ⟨h.check, ?_⟩, h.dir⟩
  unfold stepsTo
  split
  · rw [walk_append, h.walk]
    exact walk_here h.dir
  · exact h.walk

theorem mono (h : Leads d p) (hcwd : d'.cwd = d.cwd)
    (hkinds : ∀ q k, d.root.kindAt q = some k → d'.root.kindAt q = some k) : Leads d' p :=
  ⟨h.isAbsolute, h.check, hcwd ▸ walk_mono hkinds h.walk, hkinds _ _ h.dir⟩

theorem trimmed (h : Leads d p) : Leads d p.trimmed := by
  have habs := Path.isAbsolute_trimmed h.isAbsolute
  have hcheck := checkPath_of_isPrefix (Path.text_trimmed_isPrefix h.isAbsolute)
    (text_ne_nil habs) h.check
  refine ⟨habs, hcheck, ?_, ?_⟩
  · rw [Path.steps_trimmed h.isAbsolute, Path.place_trimmed h.isAbsolute]
    exact h.walk
  · rw [Path.place_trimmed h.isAbsolute]
    exact h.dir

/-- What is written before the last name of a path leads to the directory above. -/
theorem above (h : Leads d p) (hq : q.isAbsolute) (hpre : q.text <+: p.text)
    (hsteps : p.steps = q.steps ++ [.name n]) : Leads d q := by
  have hwalk := h.walk
  rw [hsteps, Disk.walk_append] at hwalk
  cases hfront : Disk.walk d.root d.cwd q.steps with
  | error f =>
      rw [hfront] at hwalk
      cases hwalk
  | ok goal =>
      obtain rfl : goal = q.place := by rw [eq_placeFrom_of_walk hfront, placeFrom_steps hq]
      have hplace : p.place = q.place ++ [n] := by
        rw [Path.place, hsteps, Path.placeFrom_append]
        rfl
      have hdir := h.dir
      rw [hplace] at hdir
      refine ⟨hq, checkPath_of_isPrefix hpre (text_ne_nil hq) h.check, hfront, ?_⟩
      exact Node.kindAt_of_append (Option.isSome_of_mem hdir)

/-- Above a path that leads to a directory there is another one. -/
theorem parent? (h : Leads d p) (hq : p.parent? = some q) : Leads d q := by
  obtain ⟨habs, hpre⟩ := Path.isAbsolute_of_parent? h.isAbsolute hq
  obtain ⟨s, rfl | ⟨n, _, rfl⟩, hsteps⟩ := Path.exists_step_of_parent? h.isAbsolute hq
  · have hwalk := h.walk
    rw [hsteps, Disk.walk_append] at hwalk
    cases hfront : Disk.walk d.root d.cwd q.steps with
    | error f =>
        rw [hfront] at hwalk
        cases hwalk
    | ok goal =>
        obtain rfl : goal = q.place := by rw [eq_placeFrom_of_walk hfront, placeFrom_steps habs]
        rw [hfront] at hwalk
        refine ⟨habs, checkPath_of_isPrefix hpre (text_ne_nil habs) h.check, hfront, ?_⟩
        cases hchildren : childrenAt d.root q.place with
        | error f => simp [Except.bind, Disk.walk, hchildren] at hwalk
        | ok children => exact Node.kindAt_dir_iff.2 ⟨_, childrenAt_ok_iff.1 hchildren⟩
  · exact h.above habs hpre hsteps

/-- A path that leads on from a directory is followed from there. -/
theorem walk_append (h : Leads d p) (rest : List Step) :
    Disk.walk d.root d.cwd (p.steps ++ rest) = Disk.walk d.root p.place rest := by
  rw [Disk.walk_append, h.walk]
  rfl

theorem makeDir (hd : d.Plain) (h : Leads d p) : d.makeDir p = .error .exists := by
  have hwalk := h.walk
  unfold Disk.makeDir
  rw [h.check]
  rcases hsplit : splitEnding p with ⟨front, ending⟩
  cases ending with
  | name n slash =>
      obtain ⟨hsteps, _, _⟩ := steps_of_splitEnding hsplit
      rw [hsteps, Disk.walk_append] at hwalk
      cases hfront : Disk.walk d.root d.cwd front with
      | error e =>
          rw [hfront] at hwalk
          cases hwalk
      | ok above =>
          rw [hfront] at hwalk
          obtain ⟨hdir, hshort, hsome, _⟩ := walk_name_ok_iff.1 hwalk
          obtain ⟨children, hget⟩ := Node.kindAt_dir_iff.1 hdir
          rw [Node.kindAt, Node.get?_append_singleton hget] at hsome
          obtain ⟨m, hm⟩ := Option.isSome_iff_exists.1 (Option.isSome_map ▸ hsome)
          simp only [bind, Except.bind, reach_eq_walk hd, hfront, childrenAt_ok_iff.2 hget,
            lookUp_ok hshort, hm]
  | here =>
      have hfront : front = p.steps ++ [.here] := by
        unfold splitEnding at hsplit
        split at hsplit <;> simp_all
      have hhere := h.walk_append [.here]
      rw [walk_here h.dir, ← hfront] at hhere
      simp only [bind, Except.bind, reach_eq_walk hd, hhere]
  | up =>
      have hfront : front = p.steps := by
        unfold splitEnding at hsplit
        split at hsplit <;> simp_all
      simp only [bind, Except.bind, reach_eq_walk hd, hfront, hwalk]
  | root =>
      have hfront : front = p.steps := by
        unfold splitEnding at hsplit
        split at hsplit <;> simp_all
      simp only [bind, Except.bind, reach_eq_walk hd, hfront, hwalk]

/-- Where a directory is, nothing is made. -/
theorem makeDirs (hd : d.Plain) (h : Leads d p) : Disk.makeDirs p d = (.ok (), d) := by
  have hthere : d.isThere p .exists := by simp [isThere, h.isDir hd]
  unfold Disk.makeDirs Path.ancestry
  rw [Path.steps_of_isAbsolute h.isAbsolute, List.length_cons, Path.ancestry.climb]
  cases p.parent? with
  | none => rfl
  | some above =>
      rw [makeNearest, h.makeDir hd]
      simp [hthere, makeEach]

end Leads

theorem makeNearest_passed (d : Disk) (passed ps : List Path) :
    d.makeNearest passed ps =
      (d.makeNearest [] ps).map fun (missing, after) => (missing ++ passed, after) := by
  induction ps generalizing passed with
  | nil => rfl
  | cons p ps ih =>
      rw [makeNearest, makeNearest]
      split
      · rfl
      · split
        · rw [ih, ih [p]]
          cases d.makeNearest [] ps with
          | error e => rfl
          | ok found =>
              obtain ⟨missing, after⟩ := found
              simp [Except.map]
        · split <;> rfl

theorem makeEach_append (ps qs : List Path) (d : Disk) :
    makeEach (ps ++ qs) d = (makeEach ps).andThen (makeEach qs) d := by
  induction ps generalizing d with
  | nil => rfl
  | cons p ps ih =>
      simp only [List.cons_append, makeEach, Change.andThen]
      cases d.makeDir p with
      | ok after => exact ih after
      | error e =>
          simp only
          split
          · exact ih d
          · rfl

/-- A directory is made, or first the one above it where that is missing. -/
theorem makeDirs_child (hp : p.isAbsolute) (hn : Ordinary n) (d : Disk) :
    makeDirs (p.child n) d =
      match d.makeDir (p.child n) with
      | .ok after => (.ok (), after)
      | .error e =>
        if e = .notFound then (makeDirs p.trimmed).andThen (makeEach [p.child n]) d
        else if d.isThere (p.child n) e then (.ok (), d)
        else (.error e, d) := by
  rw [makeDirs, Path.ancestry_child hp hn, makeNearest]
  cases d.makeDir (p.child n) with
  | ok after => rfl
  | error e =>
      by_cases he : e = .notFound
      · simp only [he, if_true]
        rw [makeNearest_passed]
        unfold Change.andThen makeDirs
        cases d.makeNearest [] p.trimmed.ancestry with
        | error e => rfl
        | ok found =>
            obtain ⟨missing, after⟩ := found
            simp only [Except.map, makeEach_append]
            rfl
      · simp only [he, if_false]
        by_cases hthere : d.isThere (p.child n) e
        · simp [hthere, makeEach]
        · simp [hthere]

/-- Nothing but directories is on the way to a place. -/
def Clear (root : Node) (place : Place) : Prop :=
  ∀ pre, pre <+: place → root.kindAt pre = none ∨ root.kindAt pre = some .dir

/-- Names lead to nothing where something is missing on the way. -/
theorem walk_names_of_clear (hdir : root.kindAt place = some .dir) (hnames : ∀ m ∈ names, IsName m)
    (hclear : Clear root (place ++ names)) (hnone : root.kindAt (place ++ names) = none) :
    walk root place (names.map .name) = .error .notFound := by
  induction names generalizing place with
  | nil =>
      rw [List.append_nil, hdir] at hnone
      cases hnone
  | cons m names ih =>
      have hsplit : place ++ m :: names = (place ++ [m]) ++ names := by simp
      obtain ⟨children, hget⟩ := Node.kindAt_dir_iff.1 hdir
      rw [List.map_cons, walk, childrenAt_ok_iff.2 hget]
      simp only [lookUp_ok (hnames m List.mem_cons_self).short]
      cases hchild : Node.child? m children with
      | none => rfl
      | some k =>
          have hsome : root.kindAt (place ++ [m]) = some k.kind := by
            rw [Node.kindAt, Node.get?_append_singleton hget, hchild]
            rfl
          rw [hsplit] at hclear hnone
          have hnext := hclear (place ++ [m]) (List.prefix_append _ _)
          rw [hsome] at hnext
          refine ih ?_ (fun x hx => hnames x (List.mem_cons_of_mem m hx)) hclear hnone
          rw [hsome]
          exact hnext.resolve_left (by simp)

theorem childrenAt_of_kindAt {k : Kind} (h : root.kindAt place = some k) (hk : k ≠ .dir) :
    childrenAt root place = .error .notDirectory := by
  obtain ⟨node, hnode, hkind⟩ := Option.map_eq_some_iff.1 h
  unfold childrenAt
  rw [hnode]
  cases node with
  | dir _ => exact absurd hkind.symm hk
  | file _ => rfl
  | link _ => rfl
  | sink => rfl

/-- Names do not lead through what is no directory. -/
theorem walk_names_of_blocked {mid rest : List Text} {k : Kind}
    (hdir : root.kindAt place = some .dir) (hnames : ∀ m ∈ mid ++ n :: rest, IsName m)
    (hkind : root.kindAt (place ++ mid) = some k) (hk : k ≠ .dir) :
    walk root place ((mid ++ n :: rest).map .name) = .error .notDirectory := by
  induction mid generalizing place with
  | nil =>
      rw [List.append_nil, hdir] at hkind
      exact absurd (Option.some.inj hkind).symm hk
  | cons m mid ih =>
      have hsplit : place ++ m :: mid = (place ++ [m]) ++ mid := by simp
      obtain ⟨children, hget⟩ := Node.kindAt_dir_iff.1 hdir
      rw [List.cons_append, List.map_cons, walk, childrenAt_ok_iff.2 hget]
      simp only [lookUp_ok (hnames m (by simp)).short]
      have hsome : root.kindAt (place ++ [m]) = (Node.child? m children).map Node.kind := by
        rw [Node.kindAt, Node.get?_append_singleton hget]
      cases mid with
      | nil =>
          obtain ⟨node, hnode, _⟩ := Option.map_eq_some_iff.1 (hsome.symm.trans hkind)
          rw [hnode, List.nil_append, List.map_cons, walk, childrenAt_of_kindAt hkind hk]
      | cons m' mid =>
          rw [hsplit] at hkind
          have hmid : root.kindAt (place ++ [m]) = some .dir :=
            Node.kindAt_of_append (by rw [hkind]; rfl)
          rw [hmid] at hsome
          obtain ⟨node, hnode, _⟩ := Option.map_eq_some_iff.1 hsome.symm
          rw [hnode]
          exact ih hmid (fun x hx => hnames x (List.mem_cons_of_mem m hx)) hkind

theorem makeDir_below (hd : d.Plain) (h : Leads d p) (hnames : ∀ m ∈ names, IsName m)
    (hn : IsName n) (hcheck : checkPath ((names.foldl Path.child p).child n) = .ok ()) :
    d.makeDir ((names.foldl Path.child p).child n) =
      match walk d.root p.place (names.map .name) with
      | .error e => .error e
      | .ok dir =>
        match childrenAt d.root dir with
        | .error e => .error e
        | .ok children =>
          match Node.child? n children with
          | some _ => .error .exists
          | none => .ok (d.put (dir ++ [n]) (some (.dir []))) := by
  have hordinary : ∀ m ∈ names, Ordinary m := fun m hm => (hnames m hm).toOrdinary
  have hbelow := Path.isAbsolute_foldl_child h.isAbsolute names
  unfold makeDir
  rw [hcheck, splitEnding_child hbelow hn.toOrdinary]
  simp only [bind, Except.bind, reach_eq_walk hd, Path.steps_foldl_child h.isAbsolute hordinary,
    h.walk_append]
  cases walk d.root p.place (names.map .name) with
  | error e => rfl
  | ok dir =>
      simp only
      cases childrenAt d.root dir with
      | error e => rfl
      | ok children =>
          simp only [lookUp_ok hn.short]
          cases Node.child? n children <;> rfl

theorem kindAt_of_isPrefix {pre : Place} (hpre : pre <+: place)
    (h : root.kindAt place = some .dir) : root.kindAt pre = some .dir := by
  obtain ⟨rest, rfl⟩ := hpre
  cases rest with
  | nil => rwa [List.append_nil] at h
  | cons m rest => exact Node.kindAt_of_append (by rw [h]; rfl)

theorem Leads.below (hd : d.Plain) (h : Leads d p) (hnames : ∀ m ∈ names, IsName m)
    (hcheck : checkPath (names.foldl Path.child p) = .ok ())
    (hdir : d.root.kindAt (p.place ++ names) = some .dir) :
    Leads d (names.foldl Path.child p) := by
  have hordinary : ∀ m ∈ names, Ordinary m := fun m hm => (hnames m hm).toOrdinary
  have hplace := Path.place_foldl_child h.isAbsolute hordinary
  refine ⟨Path.isAbsolute_foldl_child h.isAbsolute names, hcheck, ?_, ?_⟩
  · rw [Path.steps_foldl_child h.isAbsolute hordinary, h.walk_append, hplace]
    exact walk_names_of_isSome hd.tree (by rw [hdir]; rfl)
  · rw [hplace]
    exact hdir

theorem isThere_of_error {fault : Fault} (hcheck : checkPath p = .error fault) (reason : Fault) :
    d.isThere p reason = false := by
  have hdir : d.isDir p = false := by
    by_contra hdir
    obtain ⟨place, hplace, _⟩ := isDir_iff.1 (by simpa using hdir)
    rw [place?, hcheck] at hplace
    cases hplace
  simp [isThere, hdir]

/-- No directory is made under a path that is no good. -/
theorem makeDirs_of_check {fault : Fault} (hp : p.isAbsolute) (hn : Ordinary n)
    (hcheck : checkPath (p.child n) = .error fault) (d : Disk) :
    makeDirs (p.child n) d = (.error fault, d) := by
  have hmake : d.makeDir (p.child n) = .error fault := by
    unfold makeDir
    rw [hcheck]
    rfl
  have hne : fault ≠ .notFound := by
    rintro rfl
    unfold checkPath at hcheck
    split at hcheck
    · cases hcheck
    · split at hcheck
      · next hnil => exact text_ne_nil (Path.isAbsolute_child hp n) hnil
      · split at hcheck <;> cases hcheck
  rw [makeDirs_child hp hn, hmake]
  simp [hne, isThere_of_error hcheck]

theorem makeDirs_below_of_check {fault : Fault} (h : Leads d p) (hnames : ∀ m ∈ names, IsName m)
    (hcheck : checkPath (names.foldl Path.child p) = .error fault) (e : Disk) :
    makeDirs (names.foldl Path.child p).trimmed e = (.error fault, e) := by
  rcases List.eq_nil_or_concat' names with rfl | ⟨names, n, rfl⟩
  · exact absurd (hcheck.symm.trans h.check) nofun
  · have hn : Ordinary n := (hnames n (by simp)).toOrdinary
    have hbelow := Path.isAbsolute_foldl_child h.isAbsolute names
    rw [List.foldl_append, List.foldl_cons, List.foldl_nil] at hcheck ⊢
    rw [Path.trimmed_child hbelow hn]
    exact makeDirs_of_check hbelow hn hcheck e

theorem Clear.front (h : Clear root (place ++ names)) : Clear root place := fun pre hpre =>
  h pre (hpre.trans (List.prefix_append _ _))

/-- The way to a place has been made: all of it are directories, and the rest is as it was. -/
structure Cleared (place : Place) (d d' : Disk) : Prop where
  plain : d'.Plain
  cwd : d'.cwd = d.cwd
  seen : ∀ q, d'.root.seen q = if q <+: place then some (.dir []) else d.root.seen q

namespace Cleared

theorem refl (hd : d.Plain) (hdir : d.root.kindAt place = some .dir) : Cleared place d d where
  plain := hd
  cwd := rfl
  seen q := by
    split
    · next hpre => exact Node.seen_dir_iff.2 (kindAt_of_isPrefix hpre hdir)
    · rfl

theorem kindAt (h : Cleared place d d') (hclear : Clear d.root place) {q : Place} {k : Kind}
    (hq : d.root.kindAt q = some k) : d'.root.kindAt q = some k := by
  rw [Node.kindAt_eq_seen, h.seen]
  split
  · next hpre =>
      rcases hclear q hpre with hfree | hdir
      · rw [hq] at hfree
        cases hfree
      · rw [← hq, hdir]
        rfl
  · rw [← Node.kindAt_eq_seen, hq]

theorem dir (h : Cleared place d d') : d'.root.kindAt place = some .dir :=
  Node.seen_dir_iff.1 ((h.seen place).trans (if_pos (List.prefix_refl _)))

/-- Below a place that was missing, all is missing still. -/
theorem kindAt_below (h : Cleared place d d') (hnone : d.root.kindAt place = none) :
    d'.root.kindAt (place ++ [n]) = none := by
  have hout : ¬ place ++ [n] <+: place := by
    intro hpre
    have hlength := hpre.length_le
    rw [List.length_append, List.length_singleton] at hlength
    omega
  rw [Node.kindAt_eq_seen, h.seen, if_neg hout, ← Node.kindAt_eq_seen]
  exact Node.kindAt_append_eq_none (by simp [hnone])

/-- One more directory, in the one at the end of the way. -/
theorem put (h : Cleared place d d') (hn : IsName n) (hnone : d'.root.kindAt (place ++ [n]) = none) :
    Cleared (place ++ [n]) d (d'.put (place ++ [n]) (some (.dir []))) := by
  have hroom : Roomy d'.root place n := ⟨h.dir, hn⟩
  refine ⟨h.plain.put hroom rfl, h.cwd, fun q => ?_⟩
  rw [seen_put hroom (by rw [hnone]; simp) rfl, h.seen]
  by_cases hq : q = place ++ [n]
  · rw [if_pos hq, if_pos (hq ▸ List.prefix_refl _)]
  · rw [if_neg hq]
    by_cases hpre : q <+: place
    · rw [if_pos hpre, if_pos (hpre.trans (List.prefix_append _ _))]
    · rw [if_neg hpre, if_neg]
      intro hwhole
      rcases List.prefix_concat_iff.1 hwhole with heq | hfront
      · exact hq heq
      · exact hpre hfront

end Cleared

/-- In a directory that is there, one with a new name is made. -/
theorem makeDir_of_free (hd : d.Plain) (h : Leads d p) (hnames : ∀ m ∈ names, IsName m)
    (hn : IsName n) (hcheck : checkPath ((names.foldl Path.child p).child n) = .ok ())
    (hdir : d.root.kindAt (p.place ++ names) = some .dir)
    (hnone : d.root.kindAt (p.place ++ names ++ [n]) = none) :
    d.makeDir ((names.foldl Path.child p).child n) =
      .ok (d.put (p.place ++ names ++ [n]) (some (.dir []))) := by
  obtain ⟨children, hget⟩ := Node.kindAt_dir_iff.1 hdir
  have hwalk := walk_names_of_isSome hd.tree (by rw [hdir]; rfl)
  have hchild : Node.child? n children = none := by
    rw [Node.kindAt, Node.get?_append_singleton hget] at hnone
    simpa using hnone
  rw [makeDir_below hd h hnames hn hcheck, hwalk]
  simp only [childrenAt_ok_iff.2 hget, hchild]

/-- In a directory that is missing, none can be made. -/
theorem makeDir_of_missing (hd : d.Plain) (h : Leads d p) (hnames : ∀ m ∈ names, IsName m)
    (hn : IsName n) (hcheck : checkPath ((names.foldl Path.child p).child n) = .ok ())
    (hclear : Clear d.root (p.place ++ names)) (hnone : d.root.kindAt (p.place ++ names) = none) :
    d.makeDir ((names.foldl Path.child p).child n) = .error .notFound := by
  rw [makeDir_below hd h hnames hn hcheck, walk_names_of_clear h.dir hnames hclear hnone]

/-- Where only directories are on the way, all of the way is there afterwards. -/
theorem makeDirs_of_clear (hd : d.Plain) (h : Leads d p) (hnames : ∀ m ∈ names, IsName m)
    (hcheck : checkPath (names.foldl Path.child p) = .ok ())
    (hclear : Clear d.root (p.place ++ names)) :
    ∃ d', makeDirs (names.foldl Path.child p).trimmed d = (.ok (), d') ∧
      Cleared (p.place ++ names) d d' := by
  induction names using List.reverseRecOn with
  | nil =>
      refine ⟨d, h.trimmed.makeDirs hd, ?_⟩
      rw [List.append_nil]
      exact Cleared.refl hd h.dir
  | append_singleton names n ih =>
      obtain ⟨hnames', hlast⟩ := List.forall_mem_append.1 hnames
      have hn : IsName n := List.forall_mem_singleton.1 hlast
      have hbelow := Path.isAbsolute_foldl_child h.isAbsolute names
      have hleads := h.below hd hnames hcheck
      rw [List.foldl_append, List.foldl_cons, List.foldl_nil] at hcheck hleads ⊢
      rw [← List.append_assoc] at hclear hleads ⊢
      rw [Path.trimmed_child hbelow hn.toOrdinary, makeDirs_child hbelow hn.toOrdinary]
      rcases hclear.front _ (List.prefix_refl _) with hnone | hdir
      · -- the directory above is missing: it is made first
        have hcheck' := checkPath_of_isPrefix
          (Path.text_isPrefix_child hbelow hn.toOrdinary.noSlash) (text_ne_nil hbelow) hcheck
        obtain ⟨d₁, hmade, hcleared⟩ := ih hnames' hcheck' hclear.front
        have hfree := hcleared.kindAt_below (n := n) hnone
        have hleads₁ := h.mono hcleared.cwd fun _ _ => hcleared.kindAt hclear.front
        have hmake := makeDir_of_free hcleared.plain hleads₁ hnames' hn hcheck hcleared.dir hfree
        refine ⟨_, ?_, hcleared.put hn hfree⟩
        rw [makeDir_of_missing hd h hnames' hn hcheck hclear.front hnone]
        simp [Change.andThen, hmade, makeEach, hmake]
      · rcases hclear _ (List.prefix_refl _) with hnone | hthere
        · refine ⟨_, ?_, (Cleared.refl hd hdir).put hn hnone⟩
          rw [makeDir_of_free hd h hnames' hn hcheck hdir hnone]
        · refine ⟨d, ?_, Cleared.refl hd hthere⟩
          rw [(hleads hthere).makeDir hd]
          simp [isThere, (hleads hthere).isDir hd]

/-- Something that is no directory stands on the way below a directory that is there. -/
theorem exists_of_not_clear (hdir : root.kindAt place = some .dir)
    (hblocked : ¬ Clear root (place ++ names)) :
    ∃ mid n rest k, names = (mid ++ [n]) ++ rest ∧ root.kindAt (place ++ (mid ++ [n])) = some k ∧
      k ≠ .dir := by
  unfold Clear at hblocked
  push Not at hblocked
  obtain ⟨pre, hpre, hsome, hnotDir⟩ := hblocked
  obtain ⟨k, hk⟩ := Option.ne_none_iff_exists'.1 hsome
  rcases List.prefix_or_prefix_of_prefix hpre (List.prefix_append place names) with
    habove | ⟨way, rfl⟩
  · exact absurd (kindAt_of_isPrefix habove hdir) hnotDir
  · rcases List.eq_nil_or_concat' way with rfl | ⟨mid, n, rfl⟩
    · rw [List.append_nil] at hnotDir
      exact absurd hdir hnotDir
    · obtain ⟨rest, rfl⟩ := (List.prefix_append_right_inj place).1 hpre
      exact ⟨mid, n, rest, k, rfl, hk, fun heq => hnotDir (heq ▸ hk)⟩

/-- Over something that is no directory, none is made. -/
theorem makeDirs_of_occupied {k : Kind} (hd : d.Plain) (h : Leads d p)
    (hnames : ∀ m ∈ names, IsName m) (hn : IsName n)
    (hcheck : checkPath ((names.foldl Path.child p).child n) = .ok ())
    (hkind : d.root.kindAt (p.place ++ names ++ [n]) = some k) (hk : k ≠ .dir) :
    makeDirs ((names.foldl Path.child p).child n).trimmed d = (.error .exists, d) := by
  have hbelow := Path.isAbsolute_foldl_child h.isAbsolute names
  have hdir : d.root.kindAt (p.place ++ names) = some .dir :=
    Node.kindAt_of_append (by rw [hkind]; rfl)
  obtain ⟨children, hget⟩ := Node.kindAt_dir_iff.1 hdir
  have hmake := makeDir_below hd h hnames hn hcheck
  rw [walk_names_of_isSome hd.tree (by rw [hdir]; rfl)] at hmake
  have hchild := hkind
  rw [Node.kindAt, Node.get?_append_singleton hget] at hchild
  obtain ⟨m, hm, _⟩ := Option.map_eq_some_iff.1 hchild
  simp only [childrenAt_ok_iff.2 hget, hm] at hmake
  have hnotThere : d.isThere ((names.foldl Path.child p).child n) .exists = false := by
    by_contra hthere
    have hisDir : d.isDir ((names.foldl Path.child p).child n) := by
      simpa [isThere] using hthere
    have hfound := kindAt_of_isDir hd (Path.isAbsolute_child hbelow n) hisDir
    rw [Path.place_child hbelow hn.toOrdinary, Path.place_foldl_child h.isAbsolute
      fun m hm => (hnames m hm).toOrdinary, hkind] at hfound
    exact hk (Option.some.inj hfound)
  rw [Path.trimmed_child hbelow hn.toOrdinary, makeDirs_child hbelow hn.toOrdinary, hmake]
  simp [hnotThere]

/-- Through something that is no directory, none is made. -/
theorem makeDirs_of_crossed {mid rest : List Text} {k : Kind} (hd : d.Plain) (h : Leads d p)
    (hnames : ∀ m ∈ mid ++ rest, IsName m) (hn : IsName n)
    (hcheck : checkPath (((mid ++ rest).foldl Path.child p).child n) = .ok ())
    (hkind : d.root.kindAt (p.place ++ mid) = some k) (hk : k ≠ .dir) :
    makeDirs (((mid ++ rest).foldl Path.child p).child n).trimmed d =
      (.error .notDirectory, d) := by
  have hbelow := Path.isAbsolute_foldl_child h.isAbsolute (mid ++ rest)
  have hmake : d.makeDir (((mid ++ rest).foldl Path.child p).child n) = .error .notDirectory := by
    rw [makeDir_below hd h hnames hn hcheck]
    cases rest with
    | nil =>
        rw [List.append_nil, walk_names_of_isSome hd.tree (by rw [hkind]; rfl)]
        simp only [childrenAt_of_kindAt hkind hk]
    | cons m rest => rw [walk_names_of_blocked h.dir hnames hkind hk]
  rw [Path.trimmed_child hbelow hn.toOrdinary, makeDirs_child hbelow hn.toOrdinary, hmake]
  simp [isThere]

/-- Where something else than a directory is on the way, nothing is made. -/
theorem makeDirs_of_blocked (hd : d.Plain) (h : Leads d p) (hnames : ∀ m ∈ names, IsName m)
    (hcheck : checkPath (names.foldl Path.child p) = .ok ())
    (hblocked : ¬ Clear d.root (p.place ++ names)) :
    makeDirs (names.foldl Path.child p).trimmed d =
      (.error (if (d.root.kindAt (p.place ++ names)).isSome then .exists else .notDirectory), d) := by
  obtain ⟨mid, n, rest, k, rfl, hkind, hk⟩ := exists_of_not_clear h.dir hblocked
  rcases List.eq_nil_or_concat' rest with rfl | ⟨rest, m, rfl⟩
  · rw [List.append_nil] at hnames hcheck ⊢
    obtain ⟨hmid, hlast⟩ := List.forall_mem_append.1 hnames
    rw [List.foldl_append, List.foldl_cons, List.foldl_nil] at hcheck ⊢
    rw [← List.append_assoc] at hkind ⊢
    rw [makeDirs_of_occupied hd h hmid (List.forall_mem_singleton.1 hlast) hcheck hkind hk, hkind]
    rfl
  · rw [← List.append_assoc] at hnames hcheck hblocked ⊢
    obtain ⟨hinit, hlast⟩ := List.forall_mem_append.1 hnames
    have hnone : d.root.kindAt (p.place ++ (mid ++ [n] ++ rest ++ [m])) = none := by
      obtain ⟨x, tail, htail⟩ := List.exists_cons_of_ne_nil (by simp : rest ++ [m] ≠ [])
      rw [List.append_assoc (mid ++ [n]), htail, ← List.append_assoc]
      exact Node.kindAt_append_eq_none (by simpa [hkind] using hk)
    rw [List.foldl_append, List.foldl_cons, List.foldl_nil] at hcheck ⊢
    rw [makeDirs_of_crossed hd h hinit (List.forall_mem_singleton.1 hlast) hcheck hkind hk, hnone]
    rfl

/-- In a directory that a path leads to, a file can be written unless a directory is in its place. -/
theorem Leads.exists_wrote (hd : d.Plain) (h : Leads d p) (hn : IsName n)
    (hcheck : checkPath (p.child n) = .ok ()) (hfree : d.root.kindAt (p.place ++ [n]) ≠ some .dir)
    (bytes : ByteArray) :
    ∃ d', d.write (p.child n) bytes = .ok d' ∧ Wrote (p.place ++ [n]) bytes d d' := by
  have haim : aim d.root d.cwd (p.child n) = .ok (p.place ++ [n]) := by
    obtain ⟨children, hget⟩ := Node.kindAt_dir_iff.1 h.dir
    rw [aim, splitEnding_child h.isAbsolute hn.toOrdinary]
    simp only [h.walk, childrenAt_ok_iff.2 hget, lookUp_ok hn.short, Bool.false_eq_true, if_false]
    split
    · next hfound => cases hfound
    · next below hfound =>
        rw [Except.ok.injEq, ← Node.get?_append_singleton hget] at hfound
        exact absurd (Node.kindAt_dir_iff.2 ⟨below, hfound⟩) hfree
    · rfl
  have htarget := (target?_ok_iff hd).2 ⟨hcheck, haim⟩
  have hok : d.write (p.child n) bytes = .ok (d.fill (p.place ++ [n]) bytes) :=
    write_ok_iff.2 ⟨_, htarget, rfl⟩
  have hwrote := wrote_write hd (Path.isAbsolute_child h.isAbsolute n) hok
  rw [Path.place_child h.isAbsolute hn.toOrdinary] at hwrote
  exact ⟨_, hok, hwrote⟩

end Quire.Disk
