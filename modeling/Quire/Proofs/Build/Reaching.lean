import Quire.Proofs.Build.Keeping
import Quire.Proofs.Disk.Alike

/-!
What is found under the paths below a directory that is there. A path that is not too long finds
whatever stands at its place, and one that is too long finds nothing; so what is read there depends
on the tree alone.
-/

namespace Quire

namespace Disk

open Quire.Path (Ordinary)

variable {d e : Disk} {p : Path} {n : Text} {place : Place}

/-- A path that the system does not take for its length. -/
def IsLong (p : Path) : Prop := maxPath < p.text.byteSize

instance (p : Path) : Decidable (IsLong p) := inferInstanceAs (Decidable (_ < _))

/-- Where an absolute path leads does not depend on the working directory. -/
theorem walk_of_isAbsolute (hp : p.isAbsolute) (root : Node) (start start' : Place) :
    walk root start p.steps = walk root start' p.steps := by
  rw [Path.steps_of_isAbsolute hp]
  rfl

theorem Leads.of_kinds (h : Leads d p)
    (hkinds : ∀ q k, d.root.kindAt q = some k → e.root.kindAt q = some k) : Leads e p := by
  have hwalk := h.walk
  rw [walk_of_isAbsolute h.isAbsolute _ d.cwd e.cwd] at hwalk
  exact ⟨h.isAbsolute, h.check, walk_mono hkinds hwalk, hkinds _ _ h.dir⟩

theorem noNul_child (hp : p.isAbsolute) (hn : IsName n) (h : '\x00' ∉ p.text) :
    '\x00' ∉ (p.child n).text := by
  obtain ⟨a, ha, hchild⟩ := Path.exists_text_child hp
  have hfront : '\x00' ∉ a := by
    rcases ha with ha | ha
    · rwa [ha] at h
    · intro hmem
      exact h (ha ▸ List.mem_append_left _ hmem)
  rw [hchild n hn.noSlash]
  simp [hfront, hn.noNul]

theorem byteSize_le_of_isPrefix {a b : Text} (h : a <+: b) : a.byteSize ≤ b.byteSize := by
  obtain ⟨rest, rfl⟩ := h
  rw [Text.byteSize_append]
  omega

theorem one_le_byteSize {t : Text} (h : t ≠ []) : 1 ≤ t.byteSize := by
  obtain ⟨c, rest, rfl⟩ := List.exists_cons_of_ne_nil h
  have hc := Char.utf8Size_pos c
  simp only [Text.byteSize, List.foldr_cons]
  omega

/-- A name below an absolute path takes a slash and itself, unless the path ends in a slash. -/
theorem byteSize_child (hp : p.isAbsolute) (hn : IsName n) (hend : p.text.getLast? ≠ some '/') :
    p.text.byteSize + 2 ≤ (p.child n).text.byteSize := by
  obtain ⟨a, ha, hchild⟩ := Path.exists_text_child hp
  have hslash : Text.byteSize ('/' :: n) = 1 + n.byteSize := rfl
  have hname := one_le_byteSize hn.ne_nil
  rcases ha with ha | ha
  · rw [hchild n hn.noSlash, Text.byteSize_append, hslash, ha]
    omega
  · exact absurd (by simp [ha]) hend

theorem getLast?_child (hp : p.isAbsolute) (hn : IsName n) :
    (p.child n).text.getLast? ≠ some '/' := by
  obtain ⟨a, _, hchild⟩ := Path.exists_text_child hp
  rw [hchild n hn.noSlash, List.getLast?_append_of_ne_nil _ (by simp),
    List.getLast?_cons_of_ne_nil hn.ne_nil]
  intro h
  exact hn.noSlash (List.mem_of_getLast? h)

theorem stepsTo_child (hp : p.isAbsolute) (hn : Ordinary n) :
    stepsTo (p.child n) = (p.child n).steps := by
  rw [stepsTo, demandsDir_of_splitEnding (splitEnding_child hp hn), if_neg Bool.false_ne_true]

/-- A path with more slashes in front than it needs. -/
def widened (k : Nat) (p : Path) : Path := ⟨List.replicate k '/' ++ p.text⟩

theorem isAbsolute_widened (hp : p.isAbsolute) (k : Nat) : (widened k p).isAbsolute := by
  cases k with
  | zero => exact hp
  | succ k => rfl

theorem steps_widened (hp : p.isAbsolute) (k : Nat) : (widened k p).steps = p.steps := by
  have hinner : (widened k p).inner = p.inner := by
    induction k with
    | zero => rfl
    | succ k ih =>
        rw [← ih]
        exact Path.inner_append_slash [] _
  rw [Path.steps_of_isAbsolute (isAbsolute_widened hp k), Path.steps_of_isAbsolute hp, hinner]

theorem byteSize_widened (k : Nat) (p : Path) :
    (widened k p).text.byteSize = k + p.text.byteSize := by
  induction k with
  | zero => exact (Nat.zero_add _).symm
  | succ k ih =>
      have hslash : (widened (k + 1) p).text.byteSize =
        '/'.utf8Size + (widened k p).text.byteSize := rfl
      have hsize : '/'.utf8Size = 1 := rfl
      omega

/-- The slashes in front do no harm as long as the path is not too long. -/
theorem Leads.widened {k : Nat} (h : Leads d p) (hk : k + p.text.byteSize ≤ maxPath) :
    Leads d (widened k p) := by
  have hsteps := steps_widened h.isAbsolute k
  have hplace : (Disk.widened k p).place = p.place := congrArg (Path.placeFrom []) hsteps
  refine ⟨isAbsolute_widened h.isAbsolute k, ?_, ?_, ?_⟩
  · refine checkPath_ok_iff.2 ⟨fun hmem => ?_, text_ne_nil (isAbsolute_widened h.isAbsolute k), ?_⟩
    · rcases List.mem_append.1 hmem with hmem | hmem
      · exact absurd (List.eq_of_mem_replicate hmem) (by decide)
      · exact (checkPath_ok_iff.1 h.check).1 hmem
    · rw [byteSize_widened]
      exact hk
  · rw [hsteps, hplace]
    exact h.walk
  · rw [hplace]
    exact h.dir

/-- With as many of them as there may be, one more name is too much. -/
theorem isLong_widened_child {k : Nat} (hp : p.isAbsolute) (hend : p.text.getLast? ≠ some '/')
    (hk : maxPath ≤ k + p.text.byteSize) (hn : IsName n) : IsLong ((widened k p).child n) := by
  have hend' : (widened k p).text.getLast? ≠ some '/' := by
    rw [widened, List.getLast?_append_of_ne_nil _ (text_ne_nil hp)]
    exact hend
  have hchild := byteSize_child (isAbsolute_widened hp k) hn hend'
  rw [byteSize_widened] at hchild
  exact Nat.lt_of_lt_of_le (by omega) hchild

end Disk

namespace Build

open Disk (Place IsName IsLong Leads Node)
open Quire.Path (Ordinary)

variable {d e : Disk} {root : Path} {names more : List Text}

theorem ordinary_of_isName (h : ∀ n ∈ names, IsName n) : ∀ n ∈ names, Ordinary n :=
  fun n hn => (h n hn).toOrdinary

theorem below_append (root : Path) (names more : List Text) :
    below root (names ++ more) = below (below root names) more := by
  rw [below, List.foldl_append]
  rfl

theorem text_below_isPrefix (hroot : root.isAbsolute) (hnames : ∀ n ∈ names, IsName n) :
    root.text <+: (below root names).text := by
  induction names using List.reverseRecOn with
  | nil => exact List.prefix_refl _
  | append_singleton names n ih =>
      have hn : IsName n := hnames n (by simp)
      rw [below_concat]
      apply (ih fun m hm => hnames m (List.mem_append_left _ hm)).trans
      exact Path.text_isPrefix_child (isAbsolute_below hroot names) hn.noSlash

/-- Below a path that is too long all are. -/
theorem isLong_below_append (hroot : root.isAbsolute) (hmore : ∀ n ∈ more, IsName n)
    (h : IsLong (below root names)) : IsLong (below root (names ++ more)) := by
  rw [below_append]
  apply Nat.lt_of_lt_of_le h
  apply Disk.byteSize_le_of_isPrefix
  exact text_below_isPrefix (isAbsolute_below hroot names) hmore

/-- Each name takes two bytes at least. -/
theorem byteSize_below (hroot : root.isAbsolute) (hnames : ∀ n ∈ names, IsName n) :
    2 * names.length ≤ (below root names).text.byteSize := by
  induction names using List.reverseRecOn with
  | nil => exact Nat.zero_le _
  | append_singleton names n ih =>
      have hn : IsName n := hnames n (by simp)
      have hnames' : ∀ m ∈ names, IsName m := fun m hm => hnames m (List.mem_append_left _ hm)
      rw [below_concat, List.length_append, List.length_singleton]
      rcases List.eq_nil_or_concat' names with rfl | ⟨front, m, rfl⟩
      · -- the start may end in a slash, but then that is a byte too
        obtain ⟨a, _, hchild⟩ := Path.exists_text_child hroot
        have hslash : Text.byteSize ('/' :: n) = 1 + n.byteSize := rfl
        have hname := Disk.one_le_byteSize hn.ne_nil
        have htext : (Path.child (below root []) n).text = a ++ '/' :: n := hchild n hn.noSlash
        rw [htext, Text.byteSize_append, hslash]
        simp only [List.length_nil]
        omega
      · have hm : IsName m := hnames' m (by simp)
        have hfront := isAbsolute_below hroot front
        have hend : (below root (front ++ [m])).text.getLast? ≠ some '/' := by
          rw [below_concat]
          exact Disk.getLast?_child hfront hm
        have hchild := Disk.byteSize_child (isAbsolute_below hroot (front ++ [m])) hn hend
        have hle := ih hnames'
        omega

theorem noNul_below (hroot : root.isAbsolute) (hnul : '\x00' ∉ root.text)
    (hnames : ∀ n ∈ names, IsName n) : '\x00' ∉ (below root names).text := by
  induction names using List.reverseRecOn with
  | nil => exact hnul
  | append_singleton names n ih =>
      rw [below_concat]
      apply Disk.noNul_child (isAbsolute_below hroot names) (hnames n (by simp))
      exact ih fun m hm => hnames m (List.mem_append_left _ hm)

/-- Below a good path a path can only be too long. -/
theorem checkPath_below (h : Leads d root) (hnames : ∀ n ∈ names, IsName n) :
    Disk.checkPath (below root names) =
      if IsLong (below root names) then .error .nameTooLong else .ok () := by
  have hnul := noNul_below h.isAbsolute (Disk.checkPath_ok_iff.1 h.check).1 hnames
  have hne := Disk.text_ne_nil (isAbsolute_below h.isAbsolute names)
  unfold Disk.checkPath
  rw [if_neg (by simpa using hnul), if_neg hne]
  rfl

theorem listing_below_of_isLong (h : Leads d root) (hnames : ∀ n ∈ names, IsName n)
    (hlong : IsLong (below root names)) :
    d.listing (below root names) = .error .nameTooLong := by
  have hcheck := checkPath_below h hnames
  rw [if_pos hlong] at hcheck
  unfold Disk.listing Disk.place?
  rw [hcheck]
  rfl

/-- A directory below one that is there is listed unless its path is too long. -/
theorem listing_below (hd : d.Plain) (h : Leads d root) (hnames : ∀ n ∈ names, IsName n)
    (hlong : ¬ IsLong (below root names))
    (hdir : d.root.kindAt (root.place ++ names) = some .dir) :
    ∃ children, d.root.get? (root.place ++ names) = some (.dir children) ∧
      d.listing (below root names) = .ok (Node.entries children) := by
  have hcheck := checkPath_below h hnames
  rw [if_neg hlong] at hcheck
  have hleads : Leads d (below root names) := h.below hd hnames hcheck hdir
  obtain ⟨place, hplace, _⟩ := Disk.isDir_iff.1 (hleads.isDir hd)
  obtain ⟨children, hget⟩ := Node.kindAt_dir_iff.1 hdir
  refine ⟨children, hget, Disk.listing_ok_iff.2 ⟨place, children, hplace, ?_, rfl⟩⟩
  rw [Disk.eq_place_of_place? hd hleads.isAbsolute hplace,
    place_below h.isAbsolute (ordinary_of_isName hnames)]
  exact hget

theorem isName_of_kindAt (hd : d.Plain) {place : Place}
    (hsome : (d.root.kindAt (place ++ names)).isSome) : ∀ n ∈ names, IsName n := by
  obtain ⟨m, hm⟩ := Option.isSome_iff_exists.1 (Option.isSome_map ▸ hsome)
  intro n hn
  exact (Node.isPlain_get? hd.tree hm).2 n (List.mem_append_right _ hn)

/-- A path below a directory that is there finds what stands at its place. -/
theorem place?_below (hd : d.Plain) (h : Leads d root) (hnames : ∀ n ∈ names, IsName n)
    (hne : names ≠ []) (hthere : (d.root.kindAt (root.place ++ names)).isSome) :
    d.place? (below root names) =
      if IsLong (below root names) then .error .nameTooLong else .ok (root.place ++ names) := by
  have hcheck := checkPath_below h hnames
  by_cases hlong : IsLong (below root names)
  · rw [if_pos hlong] at hcheck ⊢
    unfold Disk.place?
    rw [hcheck]
    rfl
  · rw [if_neg hlong] at hcheck ⊢
    refine (Disk.place?_ok_iff hd).2 ⟨hcheck, ?_⟩
    have hsteps : Disk.stepsTo (below root names) = root.steps ++ names.map .name := by
      obtain ⟨front, n, rfl⟩ := (List.eq_nil_or_concat' names).resolve_left hne
      have hn : Ordinary n := (hnames n (by simp)).toOrdinary
      rw [below_concat, Disk.stepsTo_child (isAbsolute_below h.isAbsolute front) hn, ← below_concat]
      exact Path.steps_foldl_child h.isAbsolute (ordinary_of_isName hnames)
    rw [hsteps, h.walk_append]
    exact Disk.walk_names_of_isSome hd.tree hthere

/-- A file below a directory that is there is found unless its path is too long. -/
theorem isFile_below (hd : d.Plain) (h : Leads d root) (hnames : ∀ n ∈ names, Ordinary n)
    (hne : names ≠ []) :
    d.isFile (below root names) ↔
      d.root.kindAt (root.place ++ names) = some .file ∧ ¬ IsLong (below root names) := by
  rw [Disk.isFile_iff]
  constructor
  · rintro ⟨place, hplace, hkind⟩
    obtain rfl := Disk.eq_place_of_place? hd (isAbsolute_below h.isAbsolute names) hplace
    rw [place_below h.isAbsolute hnames] at hkind
    have hsome : (d.root.kindAt (root.place ++ names)).isSome := Option.isSome_of_mem hkind
    rw [place?_below hd h (isName_of_kindAt hd hsome) hne hsome] at hplace
    refine ⟨hkind, fun hlong => ?_⟩
    rw [if_pos hlong] at hplace
    cases hplace
  · rintro ⟨hkind, hshort⟩
    have hsome : (d.root.kindAt (root.place ++ names)).isSome := Option.isSome_of_mem hkind
    refine ⟨root.place ++ names, ?_, hkind⟩
    rw [place?_below hd h (isName_of_kindAt hd hsome) hne hsome, if_neg hshort]

/-- What is read of a file below a directory depends on its bytes alone. -/
theorem read_below (hd : d.Plain) (h : Leads d root) (hnames : ∀ n ∈ names, IsName n)
    (hne : names ≠ []) {bytes : ByteArray}
    (hbytes : d.root.bytesAt (root.place ++ names) = some bytes) :
    d.read (below root names) =
      if IsLong (below root names) then .error .nameTooLong else .ok bytes := by
  have hthere : (d.root.kindAt (root.place ++ names)).isSome := by
    rw [Node.kindAt_file_iff.2 ⟨bytes, hbytes⟩]
    rfl
  unfold Disk.read Disk.node?
  rw [place?_below hd h hnames hne hthere]
  split
  · rfl
  · simp only [bind, Except.bind, Node.get?_of_bytesAt hbytes]

theorem readText_below_eq (hd : d.Plain) (h : Leads d root) (hnames : ∀ n ∈ names, IsName n)
    (hne : names ≠ []) {bytes : ByteArray}
    (hbytes : d.root.bytesAt (root.place ++ names) = some bytes) :
    d.readText (below root names) =
      if IsLong (below root names) then .error .nameTooLong
      else
        match Text.ofBytes? bytes with
        | some t => .ok t
        | none => .error .notText := by
  rw [Disk.readText, read_below hd h hnames hne hbytes]
  split <;> rfl

/-- The text of a file that has not changed is read as it was. -/
theorem readText_below (hd : d.Plain) (he : e.Plain) (h : Leads d root) (h' : Leads e root)
    (hnames : ∀ n ∈ names, IsName n) (hne : names ≠ []) {bytes : ByteArray}
    (hbytes : d.root.bytesAt (root.place ++ names) = some bytes)
    (hbytes' : e.root.bytesAt (root.place ++ names) = some bytes) :
    e.readText (below root names) = d.readText (below root names) := by
  rw [readText_below_eq he h' hnames hne hbytes', readText_below_eq hd h hnames hne hbytes]

end Build

end Quire
