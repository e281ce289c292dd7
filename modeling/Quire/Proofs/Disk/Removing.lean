import Quire.Proofs.Disk.Alike

/-!
Taking things away on a plain disk. Whatever comes of it, only what is at the place of the path and
below it is seen to change.
-/

namespace Quire.Disk

namespace Node

variable {name : Text} {place q : Place} {root : Node}

/-- The other children stay, whether one is put under a name or taken from it. -/
theorem child?_setChild_of_ne {k : Text} (hk : k ≠ name) (new : Option Node)
    (children : List (Text × Node)) :
    child? k (setChild name new children) = child? k children := by
  have hown : ∀ rest, child? k ((new.map (name, ·)).toList ++ rest) = child? k rest := by
    intro rest
    cases new with
    | none => rfl
    | some n => simp [child?, Ne.symm hk]
  induction children with
  | nil => simpa [setChild, child?] using hown []
  | cons c children ih =>
      simp only [setChild]
      split
      · next heq =>
          rw [hown]
          simp [child?, heq, Ne.symm hk]
      · split
        · rw [hown]
        · simp only [child?, ih]

/-- Setting something at a place, or taking it away, changes nothing but what is there and below. -/
theorem seen_set_of_not_isPrefix (new : Option Node) (hq : ¬ place <+: q) :
    (root.set place new).seen q = root.seen q := by
  fun_induction set place new root generalizing q with
  | case1 => exact absurd List.nil_prefix hq
  | case2 name new children =>
      cases q with
      | nil => rfl
      | cons k q =>
          have hk : k ≠ name := fun heq => hq ⟨q, by simp [heq]⟩
          simp only [seen, get?, child?_setChild_of_ne hk]
  | case3 name rest new children _ n hchild ih =>
      cases q with
      | nil => rfl
      | cons k q =>
          by_cases hk : k = name
          · subst hk
            have hrest : ¬ rest <+: q := fun hpre => hq ((List.cons_prefix_cons).2 ⟨rfl, hpre⟩)
            have hset : child? k (setChild k (some (set rest new n)) children) =
                some (set rest new n) := by
              rw [child?_setChild, if_pos rfl]
            have hsame := ih hrest
            simp only [seen] at hsame
            simp only [seen, get?, hset, hchild, Option.bind_some, hsame]
          · simp only [seen, get?, child?_setChild_of_ne hk]
  | case4 => rfl
  | case5 => rfl

end Node

variable {d : Disk} {p : Path} {q : Place}

/-- A directory that is emptied leaves a plain disk. -/
theorem Plain.empty {place : Place} (hd : d.Plain) (hdir : d.root.kindAt place = some .dir) :
    (d.put place (some (.dir []))).Plain := by
  rcases List.eq_nil_or_concat place with rfl | ⟨above, n, rfl⟩
  · exact ⟨by rfl, by rfl⟩
  · rw [List.concat_eq_append] at hdir ⊢
    obtain ⟨children, hget⟩ := Node.kindAt_dir_iff.1 hdir
    have hnames := (Node.isPlain_get? hd.tree hget).2
    exact hd.put ⟨Node.kindAt_of_append (by rw [hdir]; rfl), hnames n (by simp)⟩ rfl

/-- What comes to an end came through each of its parts. -/
theorem exists_of_bind_ok {α β : Type} {part : Except Fault α} {rest : α → Except Fault β} {b : β}
    (h : part >>= rest = .ok b) : ∃ a, part = .ok a ∧ rest a = .ok b := by
  cases part with
  | error f => cases h
  | ok a => exact ⟨a, rfl, h⟩

/-- An empty directory that is taken away has the last name of its path, or is gone already. -/
theorem removeEmpty_ok {d' : Disk} (h : d.removeEmpty p = .ok d') :
    d' = d ∨ ∃ front n slash above, splitEnding p = (front, .name n slash) ∧
      d.reach front = .ok above ∧ d' = d.put (above ++ [n]) none := by
  unfold removeEmpty at h
  extract_lets removed at h
  generalize hremoved : removed = result at h
  split at h
  · exact Or.inl (Except.ok.inj h).symm
  · subst h
    unfold removed at hremoved
    split at hremoved
    · next front n slash hsplit =>
        obtain ⟨above, hreach, hremoved⟩ := exists_of_bind_ok hremoved
        obtain ⟨children, _, hremoved⟩ := exists_of_bind_ok hremoved
        obtain ⟨found, _, hremoved⟩ := exists_of_bind_ok hremoved
        refine Or.inr ⟨front, n, slash, above, hsplit, hreach, ?_⟩
        split at hremoved
        · exact (Except.ok.inj hremoved).symm
        · cases hremoved
        · cases hremoved
    · obtain ⟨_, _, hremoved⟩ := exists_of_bind_ok hremoved
      split at hremoved <;> cases hremoved

/-- Taking an empty directory away changes nothing but what is at its place. -/
theorem seen_removeEmpty (hd : d.Plain) (hp : p.isAbsolute) (hq : ¬ p.place <+: q) :
    (Change.ofWhole (·.removeEmpty p) d).2.root.seen q = d.root.seen q := by
  cases hremoved : d.removeEmpty p with
  | error f => rw [ofWhole_error hremoved]
  | ok d' =>
      rw [ofWhole_ok hremoved]
      rcases removeEmpty_ok hremoved with rfl | ⟨front, n, slash, above, hsplit, hreach, rfl⟩
      · rfl
      · rw [reach_front hd hp hsplit hreach] at hq
        exact Node.seen_set_of_not_isPrefix none hq

/-- Whatever comes of it, removing what a path names changes nothing but what is at its place and
below. -/
theorem seen_removeAll (hd : d.Plain) (hp : p.isAbsolute) (hq : ¬ p.place <+: q) :
    (removeAll p d).2.root.seen q = d.root.seen q := by
  unfold removeAll
  split
  · rfl
  · rfl
  · rfl
  · next target hnode =>
      rw [nodeItself?_eq_node? hd] at hnode
      obtain ⟨place, _, hget⟩ := node?_ok_iff.1 hnode
      exact absurd hget (Node.get?_ne_link hd.tree target)
  · rfl
  · next children place hnode hplace =>
      rw [nodeItself?_eq_node? hd] at hnode
      obtain ⟨place', hplace', hget⟩ := node?_ok_iff.1 hnode
      obtain rfl : place' = place := Except.ok.inj (hplace'.symm.trans hplace)
      obtain rfl := eq_place_of_place? hd hp hplace
      have hempty := hd.empty (Node.kindAt_dir_iff.2 ⟨children, hget⟩)
      exact (seen_removeEmpty hempty hp hq).trans (Node.seen_set_of_not_isPrefix _ hq)

end Quire.Disk
