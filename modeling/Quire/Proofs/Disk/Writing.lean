import Quire.Proofs.Disk.Change

/-!
Writing and copying files on a plain disk. What is written stands at the place of its path, and
nothing else is seen to change; a device swallows it. A copy leaves the bytes of its source, or no
bytes at all where the source and the copy are at one place.
-/

namespace Quire.Disk

open Quire.Path (Step placeFrom)

variable {d d' : Disk} {p : Path} {place goal q : Place} {n : Text} {root : Node}
  {bytes : ByteArray}

/-- Where the file is that is opened for writing in a tree without links. -/
def aim (root : Node) (place : Place) (p : Path) : Except Fault Place :=
  match splitEnding p with
  | (front, .name n slash) =>
    match walk root place front with
    | .error e => .error e
    | .ok dir =>
      match childrenAt root dir with
      | .error e => .error e
      | .ok children =>
        if slash then .error .isDirectory
        else
          match lookUp n children with
          | .error e => .error e
          | .ok (some (.dir _)) => .error .isDirectory
          | .ok _ => .ok (dir ++ [n])
  | (steps, _) =>
    match walk root place steps with
    | .error e => .error e
    | .ok _ => .error .isDirectory

theorem target_eq_aim (hroot : root.isPlain) (links : Nat) (place : Place) (p : Path) :
    target root links place p = aim root place p := by
  rw [target, aim]
  rcases splitEnding p with ⟨front, ending⟩
  cases ending with
  | here | up | root =>
      simp only [follow_eq_walk hroot]
      cases walk root place front <;> rfl
  | name n slash =>
      have hfollow := follow_eq_walk hroot links place front
      simp only
      cases hwalk : walk root place front with
      | error e =>
          rw [hwalk] at hfollow
          split
          · next h =>
              cases hfollow.symm.trans h
              rfl
          · next h => cases hfollow.symm.trans h
      | ok dir =>
          rw [hwalk] at hfollow
          split
          · next h => cases hfollow.symm.trans h
          · next above left h =>
              obtain ⟨rfl, rfl⟩ := Prod.mk.inj (Except.ok.inj (hfollow.symm.trans h))
              simp only
              cases hchildren : childrenAt root dir with
              | error e => rfl
              | ok children =>
                  cases slash with
                  | true => rfl
                  | false =>
                      simp only [Bool.false_eq_true, if_false]
                      cases hfound : lookUp n children with
                      | error e => rfl
                      | ok found =>
                          cases found with
                          | none => rfl
                          | some m =>
                              cases m with
                              | link path =>
                                  have hget := childrenAt_ok_iff.1 hchildren
                                  have hlink := Node.get?_append_singleton hget n
                                  rw [← (lookUp_ok_iff.1 hfound).2] at hlink
                                  exact absurd hlink (Node.get?_ne_link hroot path)
                              | file _ => rfl
                              | dir _ => rfl
                              | sink => rfl

theorem target?_ok_iff (hd : d.Plain) :
    d.target? p = .ok goal ↔ checkPath p = .ok () ∧ aim d.root d.cwd p = .ok goal := by
  rw [target?, target_eq_aim hd.tree]
  cases checkPath p with
  | error e => simp [bind, Except.bind]
  | ok u => simp [bind, Except.bind]

/-- What is aimed at has a name in a directory that is there, and is no directory. -/
theorem aim_ok (h : aim root place p = .ok goal) :
    ∃ front above n, splitEnding p = (front, .name n false) ∧ walk root place front = .ok above ∧
      root.kindAt above = some .dir ∧ n.byteSize ≤ maxName ∧ goal = above ++ [n] ∧
      root.kindAt (above ++ [n]) ≠ some .dir := by
  unfold aim at h
  split at h
  · next front n slash hsplit =>
      split at h
      · cases h
      · next above hwalk =>
          split at h
          · cases h
          · next children hchildren =>
              cases slash with
              | true => cases h
              | false =>
                  simp only [Bool.false_eq_true, if_false] at h
                  split at h
                  · cases h
                  · cases h
                  · next found hnotDir hfound =>
                      obtain ⟨hshort, rfl⟩ := lookUp_ok_iff.1 hfound
                      have hget := childrenAt_ok_iff.1 hchildren
                      refine ⟨front, above, n, hsplit, hwalk,
                        Node.kindAt_dir_iff.2 ⟨children, hget⟩, hshort, (Except.ok.inj h).symm, ?_⟩
                      intro hdir
                      obtain ⟨below, hbelow⟩ := Node.kindAt_dir_iff.1 hdir
                      rw [Node.get?_append_singleton hget] at hbelow
                      exact hnotDir below hbelow
  · split at h <;> cases h

/-- A file that can be written is at the place of its path, where no directory is. -/
theorem target?_ok (hd : d.Plain) (h : d.target? p = .ok goal) :
    ∃ front above n, p.steps = front ++ [.name n] ∧ d.placeOf p = above ++ [n] ∧
      goal = above ++ [n] ∧ Roomy d.root above n ∧ d.root.kindAt (above ++ [n]) ≠ some .dir := by
  obtain ⟨hcheck, haim⟩ := (target?_ok_iff hd).1 h
  obtain ⟨front, above, n, hsplit, hwalk, hdir, hshort, hgoal, hfree⟩ := aim_ok haim
  obtain ⟨hsteps, hordinary, hchars⟩ := steps_of_splitEnding hsplit
  have hplace := placeOf_of_reach hd hsplit ((reach_eq_walk hd front).trans hwalk)
  have hnul : '\x00' ∉ n := fun hmem => (checkPath_ok_iff.1 hcheck).1 (hchars _ hmem)
  exact ⟨front, above, n, hsteps, hplace, hgoal, ⟨hdir, hordinary, hnul, hshort⟩, hfree⟩

/-- Whether a place keeps what is written there. Every place of a tree of directories and files does;
a device swallows what is written to it. -/
abbrev Takes (d : Disk) (place : Place) : Prop := d.root.kindAt place ≠ some .device

/-- A file was written at a place: it has the bytes, unless a device is there, and nothing else
changed. -/
structure Wrote (place : Place) (bytes : ByteArray) (d d' : Disk) : Prop where
  plain : d'.Plain
  cwd : d'.cwd = d.cwd
  free : d.root.kindAt place ≠ some .dir
  seen : ∀ q, d'.root.seen q =
    if q = place ∧ d.root.kindAt q ≠ some .device then some (.file bytes) else d.root.seen q

theorem Wrote.kindAt {k : Kind} (h : Wrote place bytes d d') (hd : d.Plain)
    (hq : d.root.kindAt q = some k) : d'.root.kindAt q = some k := by
  rw [Node.kindAt_eq_seen, h.seen]
  split
  · next hplace =>
      obtain ⟨rfl, hdevice⟩ := hplace
      cases k with
      | file => rfl
      | dir => exact absurd hq h.free
      | device => exact absurd hq hdevice
      | link =>
          obtain ⟨m, hm, hkind⟩ := Option.map_eq_some_iff.1 hq
          cases m <;> simp [Node.kind] at hkind
          exact absurd hm (Node.get?_ne_link hd.tree _)
  · rw [← Node.kindAt_eq_seen, hq]

theorem Wrote.seen_of_ne (h : Wrote place bytes d d') (hq : q ≠ place) :
    d'.root.seen q = d.root.seen q := by
  rw [h.seen, if_neg fun hplace => hq hplace.1]

theorem Wrote.bytesAt (h : Wrote place bytes d d') (q : Place) :
    d'.root.bytesAt q =
      if q = place ∧ d.root.kindAt q ≠ some .device then some bytes else d.root.bytesAt q := by
  ext b
  rw [Node.bytesAt_eq_some_iff, h.seen]
  split
  · simp
  · rw [Node.bytesAt_eq_some_iff]

theorem Wrote.kindAt_device_iff (h : Wrote place bytes d d') (hd : d.Plain) (q : Place) :
    d'.root.kindAt q = some .device ↔ d.root.kindAt q = some .device := by
  refine ⟨fun hq => ?_, h.kindAt hd⟩
  rw [Node.kindAt_eq_seen, h.seen] at hq
  split at hq
  · simp [Node.kind] at hq
  · rwa [← Node.kindAt_eq_seen] at hq

/-- What is written at a place last is there. -/
theorem Wrote.trans {d'' : Disk} {bytes' : ByteArray} (hd : d.Plain) (h : Wrote place bytes d d')
    (h' : Wrote place bytes' d' d'') : Wrote place bytes' d d'' := by
  refine ⟨h'.plain, h'.cwd.trans h.cwd, h.free, fun q => ?_⟩
  rw [h'.seen]
  by_cases hq : q = place ∧ d.root.kindAt q ≠ some .device
  · rw [if_pos hq, if_pos ⟨hq.1, fun hdevice => hq.2 ((h.kindAt_device_iff hd q).1 hdevice)⟩]
  · rw [if_neg hq, if_neg, h.seen, if_neg hq]
    exact fun hq' => hq ⟨hq'.1, fun hdevice => hq'.2 ((h.kindAt_device_iff hd q).2 hdevice)⟩

theorem wrote_fill {above : Place} (hd : d.Plain) (hroom : Roomy d.root above n)
    (hfree : d.root.kindAt (above ++ [n]) ≠ some .dir) (bytes : ByteArray) :
    Wrote (above ++ [n]) bytes d (d.fill (above ++ [n]) bytes) := by
  by_cases hdevice : d.root.get? (above ++ [n]) = some .sink
  · have hkind : d.root.kindAt (above ++ [n]) = some .device := by
      rw [Node.kindAt, hdevice]
      rfl
    have hfill : d.fill (above ++ [n]) bytes = d := by
      rw [fill, hdevice]
    rw [hfill]
    refine ⟨hd, rfl, hfree, fun q => (if_neg ?_).symm⟩
    rintro ⟨rfl, hq⟩
    exact hq hkind
  · have hfill : d.fill (above ++ [n]) bytes = d.put (above ++ [n]) (some (.file bytes)) := by
      rw [fill]
      split
      · next heq => exact absurd heq hdevice
      · rfl
    have hkind : d.root.kindAt (above ++ [n]) ≠ some .device := by
      intro hkind
      obtain ⟨m, hm, hkind⟩ := Option.map_eq_some_iff.1 hkind
      cases m <;> simp [Node.kind] at hkind
      exact hdevice hm
    rw [hfill]
    refine ⟨hd.put hroom rfl, rfl, hfree, fun q => ?_⟩
    rw [seen_put hroom hfree rfl]
    by_cases hq : q = above ++ [n]
    · subst hq
      rw [if_pos rfl, if_pos ⟨rfl, hkind⟩]
    · rw [if_neg hq, if_neg fun h => hq h.1]

theorem write_eq_map (d : Disk) (p : Path) (bytes : ByteArray) :
    d.write p bytes = (d.target? p).map (d.fill · bytes) := by
  unfold write
  cases d.target? p <;> rfl

theorem write_ok_iff : d.write p bytes = .ok d' ↔
    ∃ goal, d.target? p = .ok goal ∧ d.fill goal bytes = d' := by
  rw [write_eq_map]
  cases d.target? p <;> simp [Except.map]

theorem Plain.wrote_write (hd : d.Plain) (h : d.write p bytes = .ok d') :
    Wrote (d.placeOf p) bytes d d' := by
  obtain ⟨goal, htarget, rfl⟩ := write_ok_iff.1 h
  obtain ⟨_, above, n, _, hplace, rfl, hroom, hfree⟩ := target?_ok hd htarget
  rw [hplace]
  exact wrote_fill hd hroom hfree bytes

theorem wrote_write (hd : d.Plain) (hp : p.isAbsolute) (h : d.write p bytes = .ok d') :
    Wrote p.place bytes d d' := by
  rw [← placeOf_of_isAbsolute hp d]
  exact hd.wrote_write h

/-- The path that something was written under leads to its place. -/
theorem Plain.place?_write (hd : d.Plain) (h : d.write p bytes = .ok d')
    (hdevice : d.root.kindAt (d.placeOf p) ≠ some .device) : d'.place? p = .ok (d.placeOf p) := by
  have hwrote := hd.wrote_write h
  obtain ⟨goal, htarget, -⟩ := write_ok_iff.1 h
  obtain ⟨hcheck, haim⟩ := (target?_ok_iff hd).1 htarget
  obtain ⟨front, above, n, hsplit, hwalk, hdir, hshort, -, -⟩ := aim_ok haim
  have hplace := placeOf_of_reach hd hsplit ((reach_eq_walk hd front).trans hwalk)
  refine (place?_ok_iff hwrote.plain).2 ⟨hcheck, ?_⟩
  rw [hwrote.cwd, stepsTo_of_splitEnding hsplit, walk_append,
    walk_mono (fun _ _ => hwrote.kindAt hd) hwalk, hplace]
  refine walk_name_ok_iff.2 ⟨hwrote.kindAt hd hdir, hshort, ?_, rfl⟩
  rw [← hplace, Node.kindAt_eq_seen, hwrote.seen, if_pos ⟨rfl, hdevice⟩]
  rfl

/-- What was written is read again under its path, unless a device swallowed it. -/
theorem Plain.read_write (hd : d.Plain) (h : d.write p bytes = .ok d')
    (hdevice : d.root.kindAt (d.placeOf p) ≠ some .device) : d'.read p = .ok bytes := by
  refine read_of_bytesAt (hd.place?_write h hdevice) ?_
  rw [(hd.wrote_write h).bytesAt, if_pos ⟨rfl, hdevice⟩]

/-- Nothing is written under a path that ends in a step to the parent. -/
theorem write_up_ne_ok (hd : d.Plain) (hp : p.isAbsolute) :
    d.write (p.child ['.', '.']) bytes ≠ .ok d' := by
  intro h
  obtain ⟨goal, htarget, _⟩ := write_ok_iff.1 h
  have habs := Path.isAbsolute_child hp ['.', '.']
  obtain ⟨front, above, n, hsteps, _⟩ := target?_ok hd htarget
  have hinner : (p.child ['.', '.']).inner = p.inner ++ [.up] := Path.inner_join (by decide)
  rw [Path.steps_of_isAbsolute habs, hinner, ← List.cons_append] at hsteps
  have hlast := List.append_inj_right' hsteps rfl
  simp at hlast

/-- A file is copied from where it is to what is aimed at. Its bytes are read again after the copy
was emptied. -/
theorem copy_ok {source dest : Path} (h : d.copy source dest = .ok d') :
    ∃ place bytes goal, d.place? source = .ok place ∧ d.root.get? place = some (.file bytes) ∧
      d.target? dest = .ok goal ∧ ∀ left, (d.fill goal .empty).root.bytesAt place = some left →
        d' = (d.fill goal .empty).fill goal left := by
  unfold copy at h
  cases hplace : d.place? source with
  | error e =>
      rw [hplace] at h
      cases h
  | ok place =>
      simp only [hplace, bind, Except.bind] at h
      split at h
      · next bytes hget =>
          cases htarget : d.target? dest with
          | error e => simp [htarget] at h
          | ok goal =>
              simp only [htarget] at h
              refine ⟨place, bytes, goal, rfl, hget, rfl, fun left hleft => ?_⟩
              rw [Node.get?_of_bytesAt hleft] at h
              exact (Except.ok.inj h).symm
      · cases h
      · cases h

/-- A copy has the bytes of its source, or none if it is its source. -/
theorem wrote_copy {source dest : Path} (hd : d.Plain) (hsource : source.isAbsolute)
    (hdest : dest.isAbsolute) (h : d.copy source dest = .ok d') :
    ∃ bytes, d.root.bytesAt source.place = some bytes ∧
      Wrote dest.place (if source.place = dest.place then .empty else bytes) d d' := by
  obtain ⟨place, bytes, goal, hplace, hget, htarget, hcopied⟩ := copy_ok h
  obtain rfl := eq_place_of_place? hd hsource hplace
  obtain ⟨_, above, n, _, hdestPlace, rfl, hroom, hfree⟩ := target?_ok hd htarget
  rw [placeOf_of_isAbsolute hdest] at hdestPlace
  have hempty := wrote_fill hd hroom hfree .empty
  have hroom' : Roomy (d.fill (above ++ [n]) .empty).root above n :=
    ⟨hempty.kindAt hd hroom.dir, hroom.isName⟩
  have hfree' : (d.fill (above ++ [n]) .empty).root.kindAt (above ++ [n]) ≠ some .dir := by
    intro hdir
    rw [Node.kindAt_eq_seen, hempty.seen] at hdir
    split at hdir
    · simp [Node.kind] at hdir
    · exact hfree (Node.kindAt_eq_seen _ _ ▸ hdir)
  have hbytes : d.root.bytesAt source.place = some bytes := by
    rw [Node.bytesAt, hget]
  have hkind : d.root.kindAt source.place = some .file := by
    rw [Node.kindAt, hget]
    rfl
  -- where the source is the copy, it has been emptied
  have hleft : (d.fill (above ++ [n]) .empty).root.bytesAt source.place =
      some (if source.place = above ++ [n] then .empty else bytes) := by
    rw [hempty.bytesAt, hkind, hbytes]
    by_cases hself : source.place = above ++ [n] <;> simp [hself]
  refine ⟨bytes, hbytes, ?_⟩
  rw [hdestPlace, hcopied _ hleft]
  exact hempty.trans hd (wrote_fill hempty.plain hroom' hfree' _)

end Quire.Disk
