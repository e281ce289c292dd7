import Quire.Proofs.Disk.Chain
import Quire.Proofs.Path.Straight

/-!
What two plain disks answer that look alike. A straight path is looked up name by name, so two
disks answer alike about it if what is at the places on the way is of the same kinds.
-/

namespace Quire.Disk

open Quire.Path (Step Ordinary Straight)

variable {d e : Disk} {p above : Path} {n : Text} {names : List Text}

/-- Two disks on which all on the way to a place is of the same kinds. -/
structure Alike (place : Place) (d e : Disk) : Prop where
  plain : d.Plain
  plain' : e.Plain
  cwd : e.cwd = d.cwd
  kinds : ∀ q, q <+: place → e.root.kindAt q = d.root.kindAt q

namespace Alike

theorem walk_steps (h : Alike p.place d e) (hp : Straight p) :
    walk e.root e.cwd p.steps = walk d.root d.cwd p.steps := by
  rw [hp.steps, Disk.walk, Disk.walk]
  apply walk_names_congr
  intro pre hpre
  rw [List.nil_append]
  exact h.kinds pre hpre

theorem place? (h : Alike p.place d e) (hp : Straight p) : e.place? p = d.place? p := by
  unfold Disk.place?
  cases checkPath p with
  | error f => rfl
  | ok u =>
      simp only [bind, Except.bind, reach_eq_walk h.plain, reach_eq_walk h.plain', stepsTo]
      split
      · rw [walk_append, walk_append, h.walk_steps hp]
        cases hwalk : walk d.root d.cwd p.steps with
        | error f => rfl
        | ok goal =>
            have hgoal : goal = p.place := by
              rw [eq_placeFrom_of_walk hwalk, placeFrom_steps hp.isAbsolute]
            have hkind := h.kinds goal (hgoal ▸ List.prefix_refl _)
            simp only [Except.bind, walk]
            cases hd : childrenAt d.root goal with
            | error f => rw [childrenAt_error_congr hkind.symm hd]
            | ok children =>
                cases he : childrenAt e.root goal with
                | error f =>
                    rw [childrenAt_error_congr hkind he] at hd
                    cases hd
                | ok children' => rfl
      · rw [h.walk_steps hp]

/-- The two disks fail alike or find nodes of one kind. -/
theorem node? (h : Alike p.place d e) (hp : Straight p) :
    (∃ f, d.node? p = .error f ∧ e.node? p = .error f) ∨
      ∃ k m, d.node? p = .ok k ∧ e.node? p = .ok m ∧ d.root.get? p.place = some k ∧
        e.root.get? p.place = some m ∧ m.kind = k.kind := by
  have hplaces := h.place? hp
  unfold Disk.node?
  cases hplace : d.place? p with
  | error f =>
      rw [hplaces, hplace]
      exact Or.inl ⟨f, rfl, rfl⟩
  | ok place =>
      obtain rfl := eq_place_of_place? h.plain hp.isAbsolute hplace
      have hkind := h.kinds p.place (List.prefix_refl _)
      unfold Node.kindAt at hkind
      rw [hplaces, hplace]
      simp only [bind, Except.bind]
      cases hd : d.root.get? p.place with
      | none =>
          cases he : e.root.get? p.place with
          | none => exact Or.inl ⟨.notFound, rfl, rfl⟩
          | some m => simp [hd, he] at hkind
      | some k =>
          cases he : e.root.get? p.place with
          | none => simp [hd, he] at hkind
          | some m =>
              rw [hd, he] at hkind
              exact Or.inr ⟨k, m, rfl, rfl, rfl, rfl, Option.some.inj hkind⟩

theorem isDir (h : Alike p.place d e) (hp : Straight p) : e.isDir p = d.isDir p := by
  unfold Disk.isDir
  rcases h.node? hp with ⟨f, hd, he⟩ | ⟨k, m, hd, he, _, _, hkind⟩
  · rw [hd, he]
  · rw [hd, he]
    simp [Except.toOption, hkind]

theorem isFile (h : Alike p.place d e) (hp : Straight p) : e.isFile p = d.isFile p := by
  unfold Disk.isFile
  rcases h.node? hp with ⟨f, hd, he⟩ | ⟨k, m, hd, he, _, _, hkind⟩
  · rw [hd, he]
  · rw [hd, he]
    simp [Except.toOption, hkind]

theorem readText (h : Alike p.place d e) (hp : Straight p)
    (hbytes : e.root.bytesAt p.place = d.root.bytesAt p.place) : e.readText p = d.readText p := by
  have hread : e.read p = d.read p := by
    unfold Disk.read
    rcases h.node? hp with ⟨f, hd, he⟩ | ⟨k, m, hd, he, hk, hm, hkind⟩
    · rw [hd, he]
    · rw [hd, he]
      rw [Node.bytesAt, hm, Node.bytesAt, hk] at hbytes
      cases k <;> cases m <;> simp_all [Node.kind, bind, Except.bind]
  unfold Disk.readText
  rw [hread]

/-- A directory whose entries are of the same kinds is listed alike. -/
theorem listing (h : Alike p.place d e) (hp : Straight p)
    (hentries : ∀ n, e.root.kindAt (p.place ++ [n]) = d.root.kindAt (p.place ++ [n])) :
    e.listing p = d.listing p := by
  unfold Disk.listing
  rw [h.place? hp]
  cases hplace : d.place? p with
  | error f => rfl
  | ok place =>
      obtain rfl := eq_place_of_place? h.plain hp.isAbsolute hplace
      have hkind := h.kinds p.place (List.prefix_refl _)
      simp only [bind, Except.bind]
      cases hd : childrenAt d.root p.place with
      | error f => rw [childrenAt_error_congr hkind.symm hd]
      | ok children =>
          cases he : childrenAt e.root p.place with
          | error f =>
              rw [childrenAt_error_congr hkind he] at hd
              cases hd
          | ok children' =>
              have heq := Node.entries_eq_of_kindAt_eq h.plain'.tree h.plain.tree
                (childrenAt_ok_iff.1 he) (childrenAt_ok_iff.1 hd) hentries
              exact congrArg Except.ok heq

end Alike

/-- The bytes of a file can be put wherever a file can be written. -/
theorem copy_of_file {source : Path} {place : Place} {bytes : ByteArray} (dest : Path)
    (hplace : d.place? source = .ok place) (hget : d.root.get? place = some (.file bytes)) :
    (∀ f, d.target? dest = .error f → d.copy source dest = .error f) ∧
      ∀ goal, d.target? dest = .ok goal → ∃ d', d.copy source dest = .ok d' := by
  unfold copy
  simp only [hplace, bind, Except.bind, hget]
  refine ⟨fun f hf => by rw [hf], fun goal hgoal => ?_⟩
  rw [hgoal]
  dsimp only
  split <;> exact ⟨_, rfl⟩

theorem copy_of_not_file {source dest : Path} {place : Place} {m : Node}
    (hplace : d.place? source = .ok place) (hget : d.root.get? place = some m)
    (hkind : m.kind ≠ .file) : d.copy source dest = .error .notRegular := by
  unfold copy
  simp only [hplace, bind, Except.bind, hget]
  cases m with
  | file bytes => exact absurd rfl hkind
  | link target => rfl
  | dir children => rfl
  | sink => rfl

/-- A file is copied, or not, where another is that looks alike. -/
theorem Alike.copy {source dest : Path} (h : Alike source.place d e) (hsource : Straight source)
    (htarget : (∀ goal, d.target? dest = .ok goal → ∃ d', d.copy source dest = .ok d') →
      e.target? dest = d.target? dest) :
    (∃ f, d.copy source dest = .error f ∧ e.copy source dest = .error f) ∨
      ∃ d' e', d.copy source dest = .ok d' ∧ e.copy source dest = .ok e' := by
  have hplaces := h.place? hsource
  have hkind := h.kinds source.place (List.prefix_refl _)
  cases hplace : d.place? source with
  | error f =>
      rw [hplace] at hplaces
      exact Or.inl ⟨f, by simp [Disk.copy, hplace, bind, Except.bind],
        by simp [Disk.copy, hplaces, bind, Except.bind]⟩
  | ok place =>
      obtain rfl := eq_place_of_place? h.plain hsource.isAbsolute hplace
      rw [hplace] at hplaces
      unfold Node.kindAt at hkind
      cases hd : d.root.get? source.place with
      | none =>
          have he : e.root.get? source.place = none := by simpa [hd] using hkind
          exact Or.inl ⟨.notFound, by simp [Disk.copy, hplace, hd, bind, Except.bind],
            by simp [Disk.copy, hplaces, he, bind, Except.bind]⟩
      | some k =>
          obtain ⟨m, he, hsame⟩ : ∃ m, e.root.get? source.place = some m ∧ m.kind = k.kind := by
            simpa [hd] using hkind
          by_cases hfile : k.kind = .file
          · obtain ⟨bytes, rfl⟩ : ∃ bytes, k = .file bytes := by
              cases k <;> simp_all [Node.kind]
            obtain ⟨bytes', rfl⟩ : ∃ bytes, m = .file bytes := by
              cases m <;> simp_all [Node.kind]
            obtain ⟨herror, hok⟩ := copy_of_file dest hplace hd
            obtain ⟨herror', hok'⟩ := copy_of_file dest hplaces he
            have hagain := htarget hok
            cases hgoal : d.target? dest with
            | error f => exact Or.inl ⟨f, herror f hgoal, herror' f (hagain.trans hgoal)⟩
            | ok goal =>
                obtain ⟨d', hd'⟩ := hok goal hgoal
                obtain ⟨e', he'⟩ := hok' goal (hagain.trans hgoal)
                exact Or.inr ⟨d', e', hd', he'⟩
          · exact Or.inl ⟨.notRegular, copy_of_not_file hplace hd hfile,
              copy_of_not_file hplaces he (hsame ▸ hfile)⟩

/-- Without links a path names what it leads to. -/
theorem nodeItself?_eq_node? (hd : d.Plain) (p : Path) : d.nodeItself? p = d.node? p := by
  unfold nodeItself?
  cases hcheck : checkPath p with
  | error f => simp [node?, place?, hcheck, bind, Except.bind]
  | ok u =>
      simp only [bind, Except.bind]
      split
      · next front n hsplit =>
          simp only [node?, place?, hcheck, bind, Except.bind, reach_eq_walk hd,
            stepsTo_of_splitEnding hsplit, walk_append]
          cases hfront : walk d.root d.cwd front with
          | error f => rfl
          | ok dir =>
              simp only [walk]
              cases hchildren : childrenAt d.root dir with
              | error f => rfl
              | ok children =>
                  simp only
                  cases hfound : lookUp n children with
                  | error f => rfl
                  | ok found =>
                      cases found with
                      | none => rfl
                      | some m =>
                          have hget := Node.get?_append_singleton (childrenAt_ok_iff.1 hchildren) n
                          rw [← (lookUp_ok_iff.1 hfound).2] at hget
                          simp [hget]
      · rfl

theorem target?_child (hd : d.Plain) (h : Leads d p) (hn : Ordinary n) :
    d.target? (p.child n) =
      match checkPath (p.child n) with
      | .error f => .error f
      | .ok _ =>
        if maxName < n.byteSize then .error .nameTooLong
        else if d.root.kindAt (p.place ++ [n]) = some .dir then .error .isDirectory
        else .ok (p.place ++ [n]) := by
  obtain ⟨children, hget⟩ := Node.kindAt_dir_iff.1 h.dir
  unfold target?
  rw [target_eq_aim hd.tree, aim, splitEnding_child h.isAbsolute hn]
  simp only [h.walk, childrenAt_ok_iff.2 hget, Bool.false_eq_true, if_false]
  cases checkPath (p.child n) with
  | error f => rfl
  | ok u =>
      simp only [bind, Except.bind]
      rw [Node.kindAt, Node.get?_append_singleton hget]
      by_cases hlong : maxName < n.byteSize
      · rw [lookUp, if_pos hlong, if_pos hlong]
      · rw [lookUp, if_neg hlong, if_neg hlong]
        cases Node.child? n children with
        | none => simp
        | some m => cases m <;> simp [Node.kind]

theorem splitEnding_up (hp : p.isAbsolute) :
    splitEnding (p.child ['.', '.']) = (p.steps ++ [.up], .up) := by
  have habs := Path.isAbsolute_child hp ['.', '.']
  obtain ⟨a, _, hchild⟩ := Path.exists_text_child hp
  have hsteps : (p.child ['.', '.']).steps = p.steps ++ [.up] := by
    rw [Path.steps_of_isAbsolute habs, Path.steps_of_isAbsolute hp, Path.child,
      Path.inner_join (by decide)]
    rfl
  unfold splitEnding
  rw [Path.fields_of_text (hchild ['.', '.'] (by decide)) (by decide), List.reverse_append,
    List.reverse_singleton, List.singleton_append, List.dropWhile_cons_of_neg (by simp), ← hsteps]
  rfl

/-- A path that ends in a step to the parent names no file. -/
theorem target?_up (hd : d.Plain) (h : Leads d p) :
    d.target? (p.child ['.', '.']) =
      match checkPath (p.child ['.', '.']) with
      | .error f => .error f
      | .ok _ => .error .isDirectory := by
  obtain ⟨children, hget⟩ := Node.kindAt_dir_iff.1 h.dir
  unfold target?
  rw [target_eq_aim hd.tree, aim, splitEnding_up h.isAbsolute]
  simp only [h.walk_append, walk, childrenAt_ok_iff.2 hget]
  cases checkPath (p.child ['.', '.']) <;> rfl

/-- A file is aimed at in the same way again: what was in the way still is, and nothing has come in
the way where a file could be. -/
theorem target?_again (hd : d.Plain) (he : e.Plain) (h : Leads d p) (h' : Leads e p)
    (hn : Ordinary n ∨ n = ['.', '.'])
    (hdir : d.root.kindAt (p.place ++ [n]) = some .dir → e.root.kindAt (p.place ++ [n]) = some .dir)
    (hfree : ∀ goal, d.target? (p.child n) = .ok goal → e.root.kindAt goal ≠ some .dir) :
    e.target? (p.child n) = d.target? (p.child n) := by
  rcases hn with hn | rfl
  · rw [target?_child hd h hn] at hfree ⊢
    rw [target?_child he h' hn]
    cases hcheck : checkPath (p.child n) with
    | error f => rfl
    | ok u =>
        by_cases hlong : maxName < n.byteSize
        · simp only [if_pos hlong]
        · by_cases hthere : d.root.kindAt (p.place ++ [n]) = some .dir
          · simp only [if_pos hthere, if_pos (hdir hthere)]
          · have hfree' := hfree (p.place ++ [n]) (by simp only [hcheck, if_neg hlong, if_neg hthere])
            simp only [if_neg hthere, if_neg hfree']
  · rw [target?_up hd h, target?_up he h']

/-- A file that can be written under a name is written under that name. -/
theorem target?_child_ok (hd : d.Plain) (h : Leads d p) (hn : Ordinary n ∨ n = ['.', '.'])
    {goal : Place} (hgoal : d.target? (p.child n) = .ok goal) :
    (p.child n).place = p.place ++ [n] ∧ goal = p.place ++ [n] := by
  rcases hn with hn | rfl
  · refine ⟨Path.place_child h.isAbsolute hn, ?_⟩
    rw [target?_child hd h hn] at hgoal
    split at hgoal
    · cases hgoal
    · split at hgoal
      · cases hgoal
      · split at hgoal
        · cases hgoal
        · exact (Except.ok.inj hgoal).symm
  · rw [target?_up hd h] at hgoal
    split at hgoal <;> cases hgoal

end Quire.Disk
