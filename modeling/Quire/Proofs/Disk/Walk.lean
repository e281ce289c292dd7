import Quire.Disk.Directory
import Quire.Proofs.Disk.Tree
import Quire.Proofs.Path.Place

/-!
Following paths in plain trees. Without links a path is followed name by name, and it ends, if it
ends at all, at the place that it spells; whether it does depends only on the kinds of what is met
on the way.
-/

namespace Quire.Disk

open Quire.Path (Step placeFrom descend)

/-- Follows steps from a place in a tree without links. -/
def walk (root : Node) : Place → List Step → Except Fault Place
  | place, [] => .ok place
  | _, .root :: rest => walk root [] rest
  | place, .here :: rest =>
    match childrenAt root place with
    | .error e => .error e
    | .ok _ => walk root place rest
  | place, .up :: rest =>
    match childrenAt root place with
    | .error e => .error e
    | .ok _ => walk root place.dropLast rest
  | place, .name n :: rest =>
    match childrenAt root place with
    | .error e => .error e
    | .ok children =>
      match lookUp n children with
      | .error e => .error e
      | .ok none => .error .notFound
      | .ok (some _) => walk root (place ++ [n]) rest

variable {root a b : Node} {place goal above : Place} {steps : List Step} {names : List Text}
  {n : Text} {children : List (Text × Node)}

theorem childrenAt_ok_iff :
    childrenAt root place = .ok children ↔ root.get? place = some (.dir children) := by
  unfold childrenAt
  split <;> simp_all

/-- What is wrong with a place as a directory depends on the kind of what is there. -/
theorem childrenAt_error_congr {e : Fault} (h : a.kindAt place = b.kindAt place)
    (he : childrenAt a place = .error e) : childrenAt b place = .error e := by
  unfold childrenAt Node.kindAt at *
  cases ha : a.get? place with
  | none =>
      cases hb : b.get? place with
      | none => simpa [ha] using he
      | some m => simp [ha, hb] at h
  | some m =>
      cases hb : b.get? place with
      | none => simp [ha, hb] at h
      | some k =>
          rw [ha, hb] at h
          cases m <;> cases k <;> simp_all [Node.kind]

theorem lookUp_ok_iff {found : Option Node} :
    lookUp n children = .ok found ↔ n.byteSize ≤ maxName ∧ found = Node.child? n children := by
  unfold lookUp
  split
  · next h => simp [Nat.not_le.2 h]
  · next h => simp [Nat.le_of_not_lt h, eq_comm]

theorem lookUp_ok (hshort : n.byteSize ≤ maxName) (children : List (Text × Node)) :
    lookUp n children = .ok (Node.child? n children) := lookUp_ok_iff.2 ⟨hshort, rfl⟩

theorem lookUp_of_long (hlong : ¬ n.byteSize ≤ maxName) (children : List (Text × Node)) :
    lookUp n children = .error .nameTooLong := by
  rw [lookUp, if_pos (by omega)]

theorem followTo_eq_walk (hroot : root.isPlain) (links : Nat)
    (onLink : Place → List Step → Except Fault (Place × Nat)) (place : Place) (steps : List Step) :
    followTo root links onLink place steps = (walk root place steps).map (·, links) := by
  induction steps generalizing place with
  | nil => rfl
  | cons s steps ih =>
      cases s with
      | root => rw [followTo, walk, ih]
      | here =>
          rw [followTo, walk]
          cases childrenAt root place with
          | error e => rfl
          | ok children => exact ih place
      | up =>
          rw [followTo, walk]
          cases childrenAt root place with
          | error e => rfl
          | ok children => exact ih place.dropLast
      | name n =>
          rw [followTo, walk]
          cases hchildren : childrenAt root place with
          | error e => rfl
          | ok children =>
              simp only
              cases hfound : lookUp n children with
              | error e => rfl
              | ok found =>
                  cases found with
                  | none => rfl
                  | some m =>
                      cases m with
                      | link target =>
                          have hget := childrenAt_ok_iff.1 hchildren
                          have hchild := (lookUp_ok_iff.1 hfound).2
                          have hlink := Node.get?_append_singleton hget n
                          rw [← hchild] at hlink
                          exact absurd hlink (Node.get?_ne_link hroot target)
                      | file _ => exact ih (place ++ [n])
                      | dir _ => exact ih (place ++ [n])
                      | sink => exact ih (place ++ [n])

/-- In a plain tree no link is met, so all links are left. -/
theorem follow_eq_walk (hroot : root.isPlain) (links : Nat) (place : Place) (steps : List Step) :
    follow root links place steps = (walk root place steps).map (·, links) := by
  cases links with
  | zero => exact followTo_eq_walk hroot 0 _ place steps
  | succ links => exact followTo_eq_walk hroot (links + 1) _ place steps

theorem walk_append (root : Node) (place : Place) (s t : List Step) :
    walk root place (s ++ t) = (walk root place s).bind (walk root · t) := by
  induction s generalizing place with
  | nil => rfl
  | cons x s ih =>
      cases x with
      | root => exact ih []
      | here =>
          simp only [List.cons_append, walk]
          cases childrenAt root place with
          | error e => rfl
          | ok children => exact ih place
      | up =>
          simp only [List.cons_append, walk]
          cases childrenAt root place with
          | error e => rfl
          | ok children => exact ih place.dropLast
      | name n =>
          simp only [List.cons_append, walk]
          cases childrenAt root place with
          | error e => rfl
          | ok children =>
              simp only
              cases lookUp n children with
              | error e => rfl
              | ok found =>
                  cases found with
                  | none => rfl
                  | some m => exact ih (place ++ [n])

theorem walk_name_ok_iff :
    walk root place (.name n :: steps) = .ok goal ↔
      root.kindAt place = some .dir ∧ n.byteSize ≤ maxName ∧
        (root.kindAt (place ++ [n])).isSome ∧ walk root (place ++ [n]) steps = .ok goal := by
  rw [walk, Node.kindAt_dir_iff]
  cases hchildren : childrenAt root place with
  | error e =>
      simp only [reduceCtorEq, false_iff, not_and]
      rintro ⟨children, hget⟩
      rw [childrenAt_ok_iff.2 hget] at hchildren
      cases hchildren
  | ok children =>
      have hget := childrenAt_ok_iff.1 hchildren
      have hdir : ∃ children, root.get? place = some (.dir children) := ⟨children, hget⟩
      simp only [hdir, true_and, Node.kindAt, Node.get?_append_singleton hget, Option.isSome_map]
      by_cases hshort : n.byteSize ≤ maxName
      · rw [lookUp_ok hshort]
        cases Node.child? n children <;> simp [hshort]
      · rw [lookUp_of_long hshort]
        simp [hshort]

/-- Where a walk ends it ends at the place that its steps spell. -/
theorem eq_placeFrom_of_walk (h : walk root place steps = .ok goal) :
    goal = placeFrom place steps := by
  induction steps generalizing place with
  | nil => exact (Except.ok.inj h).symm
  | cons s steps ih =>
      cases s with
      | root => exact ih h
      | here =>
          rw [walk] at h
          split at h
          · cases h
          · exact ih h
      | up =>
          rw [walk] at h
          split at h
          · cases h
          · exact ih h
      | name n => exact ih (walk_name_ok_iff.1 h).2.2.2

/-- A walk that ends still ends there when nothing that was there has gone or changed its kind. -/
theorem walk_mono (hkinds : ∀ q k, a.kindAt q = some k → b.kindAt q = some k)
    (h : walk a place steps = .ok goal) : walk b place steps = .ok goal := by
  have hdir : ∀ {q : Place} {cs : List (Text × Node)}, childrenAt a q = .ok cs →
      ∃ ds, childrenAt b q = .ok ds := by
    intro q cs hcs
    have hkind := hkinds q .dir (Node.kindAt_dir_iff.2 ⟨cs, childrenAt_ok_iff.1 hcs⟩)
    obtain ⟨ds, hds⟩ := Node.kindAt_dir_iff.1 hkind
    exact ⟨ds, childrenAt_ok_iff.2 hds⟩
  induction steps generalizing place with
  | nil => exact h
  | cons s steps ih =>
      cases s with
      | root => exact ih h
      | here =>
          rw [walk] at h ⊢
          split at h
          · cases h
          · next hcs =>
              obtain ⟨ds, hds⟩ := hdir hcs
              rw [hds]
              exact ih h
      | up =>
          rw [walk] at h ⊢
          split at h
          · cases h
          · next hcs =>
              obtain ⟨ds, hds⟩ := hdir hcs
              rw [hds]
              exact ih h
      | name n =>
          obtain ⟨hplace, hshort, hsome, hrest⟩ := walk_name_ok_iff.1 h
          obtain ⟨k, hk⟩ := Option.isSome_iff_exists.1 hsome
          exact walk_name_ok_iff.2
            ⟨hkinds _ _ hplace, hshort, by rw [hkinds _ _ hk]; rfl, ih hrest⟩

/-- Names lead to whatever is at the place that they spell. -/
theorem walk_names_of_isSome (hroot : root.isPlain) (h : (root.kindAt (place ++ names)).isSome) :
    walk root place (names.map .name) = .ok (place ++ names) := by
  induction names generalizing place with
  | nil => simp [walk]
  | cons n names ih =>
      have hsplit : place ++ n :: names = (place ++ [n]) ++ names := by simp
      obtain ⟨m, hm⟩ := Option.isSome_iff_exists.1 (Option.isSome_map ▸ h)
      have hname := (Node.isPlain_get? hroot hm).2 n (by simp)
      refine walk_name_ok_iff.2 ⟨Node.kindAt_of_append h, hname.short, ?_, ?_⟩
      · cases names with
        | nil => simpa using h
        | cons k names =>
            rw [hsplit] at h
            rw [Node.kindAt_of_append h]
            rfl
      · rw [hsplit] at h ⊢
        exact ih h

/-- A walk along names depends on the kinds of what is on the way. -/
theorem walk_names_congr
    (h : ∀ pre, pre <+: names → a.kindAt (place ++ pre) = b.kindAt (place ++ pre)) :
    walk a place (names.map .name) = walk b place (names.map .name) := by
  induction names generalizing place with
  | nil => rfl
  | cons n names ih =>
      have hplace : a.kindAt place = b.kindAt place := by simpa using h [] (by simp)
      have hnext : a.kindAt (place ++ [n]) = b.kindAt (place ++ [n]) := h [n] (by simp)
      have hrest : walk a (place ++ [n]) (names.map .name) =
          walk b (place ++ [n]) (names.map .name) := by
        apply ih
        intro pre hpre
        have hcons := h (n :: pre) (by simpa using hpre)
        simpa using hcons
      rw [List.map_cons, walk, walk]
      cases ha : childrenAt a place with
      | error e => rw [childrenAt_error_congr hplace ha]
      | ok cs =>
          have hcs := childrenAt_ok_iff.1 ha
          have hdir : b.kindAt place = some .dir := hplace ▸ Node.kindAt_dir_iff.2 ⟨cs, hcs⟩
          obtain ⟨ds, hds⟩ := Node.kindAt_dir_iff.1 hdir
          rw [childrenAt_ok_iff.2 hds]
          simp only
          by_cases hshort : n.byteSize ≤ maxName
          · rw [lookUp_ok hshort, lookUp_ok hshort]
            rw [Node.kindAt, Node.kindAt, Node.get?_append_singleton hcs,
              Node.get?_append_singleton hds] at hnext
            cases hc : Node.child? n cs with
            | none =>
                cases hd : Node.child? n ds with
                | none => rfl
                | some m => simp [hc, hd] at hnext
            | some m =>
                cases hd : Node.child? n ds with
                | none => simp [hc, hd] at hnext
                | some k => exact hrest
          · rw [lookUp_of_long hshort, lookUp_of_long hshort]

end Quire.Disk
