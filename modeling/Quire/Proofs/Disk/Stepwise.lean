import Quire.Proofs.Disk.Passage

/-!
Paths that are spelled in two ways. Where two paths take the same steps and differ in nothing but
stretches that lead nowhere, the same directories are made and the same files are written under
both. Where they pass through other directories, but through such as are there, to one place, the
same directory is made under both.
-/

namespace Quire.Disk

open Quire.Path (Ordinary)

variable {d : Disk} {p q a b : Path} {n : Text}

/-- Two good paths that take the same steps from the root. -/
structure SameWay (p q : Path) : Prop where
  isAbsolute : p.isAbsolute
  isAbsolute' : q.isAbsolute
  inner : q.inner = p.inner
  check : checkPath p = .ok ()
  check' : checkPath q = .ok ()

namespace SameWay

theorem steps (h : SameWay p q) : q.steps = p.steps := by
  rw [Path.steps_of_isAbsolute h.isAbsolute, Path.steps_of_isAbsolute h.isAbsolute', h.inner]

theorem place (h : SameWay p q) : q.place = p.place := by
  rw [Path.place_of_isAbsolute h.isAbsolute, Path.place_of_isAbsolute h.isAbsolute', h.inner]

theorem symm (h : SameWay p q) : SameWay q p :=
  ⟨h.isAbsolute', h.isAbsolute, h.inner.symm, h.check', h.check⟩

theorem leads (h : SameWay p q) (hp : Leads d p) : Leads d q :=
  ⟨h.isAbsolute', h.check', by rw [h.steps, h.place, hp.walk], h.place ▸ hp.dir⟩

theorem isDir (h : SameWay p q) (hd : d.Plain) : d.isDir q = d.isDir p := by
  rw [Bool.eq_iff_iff]
  exact ⟨fun hq => (h.symm.leads (leads_of_isDir hd h.isAbsolute' hq)).isDir hd,
    fun hp => (h.leads (leads_of_isDir hd h.isAbsolute hp)).isDir hd⟩

theorem trimmed (h : SameWay p q) : SameWay p.trimmed q.trimmed where
  isAbsolute := Path.isAbsolute_trimmed h.isAbsolute
  isAbsolute' := Path.isAbsolute_trimmed h.isAbsolute'
  inner := by
    rw [Path.trimmed, Path.trimmed, Path.inner_cleared fun f hf => Path.noSlash_of_mem_fields hf,
      Path.inner_cleared fun f hf => Path.noSlash_of_mem_fields hf]
    exact h.inner
  check := checkPath_of_isPrefix (Path.text_trimmed_isPrefix h.isAbsolute)
    (text_ne_nil (Path.isAbsolute_trimmed h.isAbsolute)) h.check
  check' := checkPath_of_isPrefix (Path.text_trimmed_isPrefix h.isAbsolute')
    (text_ne_nil (Path.isAbsolute_trimmed h.isAbsolute')) h.check'

/-- What is one step above paths of the same steps has the same steps. -/
theorem above (h : SameWay p q) (hp : p.trimmed = p) (hq : q.trimmed = q)
    (ha : p.parent? = some a) (hb : q.parent? = some b) :
    SameWay a b := by
  obtain ⟨s, hs⟩ := Path.oneAbove_of_parent? h.isAbsolute hp ha
  obtain ⟨s', hs'⟩ := Path.oneAbove_of_parent? h.isAbsolute' hq hb
  have hinner := h.inner
  rw [hs.inner, hs'.inner] at hinner
  exact ⟨hs.isAbsolute, hs'.isAbsolute, (List.append_inj' hinner rfl).1,
    checkPath_of_isPrefix hs.text (text_ne_nil hs.isAbsolute) h.check,
    checkPath_of_isPrefix hs'.text (text_ne_nil hs'.isAbsolute) h.check'⟩

theorem makeDir (h : SameWay p q) (hp : p.trimmed = p) (hq : q.trimmed = q)
    (ha : p.parent? = some a) (hb : q.parent? = some b) (d : Disk) :
    d.makeDir q = d.makeDir p := by
  have habove := h.above hp hq ha hb
  have hinner := h.inner
  unfold Disk.makeDir
  rw [h.check, h.check']
  rcases splitEnding_of_trimmed h.isAbsolute hp ha with ⟨hup, hsplit⟩ | ⟨n, _, _, hn, hsplit⟩ <;>
    rcases splitEnding_of_trimmed h.isAbsolute' hq hb with
      ⟨hup', hsplit'⟩ | ⟨n', _, _, hn', hsplit'⟩
  · rw [hsplit, hsplit', h.steps]
  · rw [hup, hn'] at hinner
    simp at hinner
  · rw [hn, hup'] at hinner
    simp at hinner
  · rw [hn, hn', habove.inner] at hinner
    obtain rfl : n' = n := by simpa using hinner
    rw [hsplit, hsplit', habove.steps]

/-- The same directories are made along the same steps. -/
theorem makeDirs (h : SameWay p q) (hd : d.Plain) :
    Disk.makeDirs q.trimmed d = Disk.makeDirs p.trimmed d := by
  suffices hmade : ∀ p q, SameWay p q → p.trimmed = p → q.trimmed = q →
      Disk.makeDirs q d = Disk.makeDirs p d from
    hmade _ _ h.trimmed (Path.trimmed_trimmed p) (Path.trimmed_trimmed q)
  intro p q h hp hq
  induction hk : p.inner.length generalizing p q with
  | zero =>
      have hnil := List.length_eq_zero_iff.1 hk
      have hroot : ∀ r : Path, r.isAbsolute → r.inner = [] → Disk.makeDirs r d = (.ok (), d) := by
        intro r hr hnil
        unfold Disk.makeDirs Path.ancestry
        rw [Path.steps_of_isAbsolute hr, List.length_cons, Path.ancestry.climb,
          (Path.parent?_eq_none_iff hr).2 hnil]
        rfl
      rw [hroot p h.isAbsolute hnil, hroot q h.isAbsolute' (h.inner.trans hnil)]
  | succ k ih =>
      have hsome : ∀ r : Path, r.isAbsolute → r.inner.length = k + 1 →
          ∃ a, r.parent? = some a := by
        intro r hr hlength
        refine Option.ne_none_iff_exists'.1 fun hnone => ?_
        rw [(Path.parent?_eq_none_iff hr).1 hnone] at hlength
        cases hlength
      obtain ⟨a, ha⟩ := hsome p h.isAbsolute hk
      obtain ⟨b, hb⟩ := hsome q h.isAbsolute' (by rw [h.inner, hk])
      obtain ⟨s, hs⟩ := Path.oneAbove_of_parent? h.isAbsolute hp ha
      obtain ⟨s', hs'⟩ := Path.oneAbove_of_parent? h.isAbsolute' hq hb
      have hmake := h.makeDir hp hq ha hb
      have hthere : ∀ d : Disk, d.Plain → ∀ f, d.isThere q f = d.isThere p f := fun d hd f => by
        rw [isThere, isThere, h.isDir hd]
      have hmade := ih a b (h.above hp hq ha hb) hs.trimmed hs'.trimmed
        (by have hlength := hs.length; omega)
      have hafter := (furnished_makeDirs hd hs.isAbsolute).plain
      rw [makeDirs_of_parent? h.isAbsolute ha hs.length,
        makeDirs_of_parent? h.isAbsolute' hb hs'.length, hmake]
      simp only [Change.andThen, hmade, hthere d hd]
      rcases hresult : Disk.makeDirs a d with ⟨answer | answer, after⟩
      · rfl
      · rw [hresult] at hafter
        simp only [makeEach, hmake, hthere after hafter]

/-- The same is aimed at by a name behind the same steps. -/
theorem target?_child (h : SameWay p q) (hd : d.Plain) (hn : Ordinary n)
    (hcheck : checkPath (p.child n) = .ok ()) (hcheck' : checkPath (q.child n) = .ok ()) :
    d.target? (q.child n) = d.target? (p.child n) := by
  unfold target?
  rw [target_eq_aim hd.tree, target_eq_aim hd.tree, hcheck, hcheck', aim, aim,
    splitEnding_child h.isAbsolute hn, splitEnding_child h.isAbsolute' hn, h.steps]

end SameWay

/-! Paths through directories that are there. -/

/-- All directories that a path passes through are there: it leads to one, or its last name stands
for something in one. -/
def Passes (d : Disk) (p : Path) : Prop :=
  d.isDir p ∨
    ∃ above n slash, p.parent? = some above ∧ (splitEnding p).2 = .name n slash ∧ d.isDir above

/-- A path whose last name stands for something in a directory that is there. -/
structure Within (d : Disk) (q : Path) (n : Text) (p : Path) : Prop where
  isAbsolute : p.isAbsolute
  leads : Leads d q
  parent : p.parent? = some q
  split : ∃ slash, splitEnding p = (q.steps, .name n slash)
  ordinary : Ordinary n
  inner : p.inner = q.inner ++ [.name n]

theorem within_of_parent? {slash : Bool} (hd : d.Plain) (hp : p.isAbsolute)
    (hq : p.parent? = some q) (hname : (splitEnding p).2 = .name n slash) (hdir : d.isDir q) :
    Within d q n p := by
  have habs := (Path.isAbsolute_of_parent? hp hq).1
  obtain ⟨s, -, hsteps⟩ := Path.exists_step_of_parent? hp hq
  have hsplit : splitEnding p = ((splitEnding p).1, .name n slash) := by rw [← hname]
  obtain ⟨hfront, hn, -⟩ := steps_of_splitEnding hsplit
  obtain ⟨hsame, hlast⟩ := List.append_inj' (hfront.symm.trans hsteps) rfl
  refine ⟨hp, leads_of_isDir hd habs hdir, hq, ⟨slash, hsame ▸ hsplit⟩, hn, ?_⟩
  rw [← (List.cons.inj hlast).1, Path.steps_of_isAbsolute hp, Path.steps_of_isAbsolute habs,
    List.cons_append] at hsteps
  exact (List.cons.inj hsteps).2

namespace Within

theorem place (h : Within d q n p) : p.place = q.place ++ [n] := by
  rw [Path.place_of_isAbsolute h.isAbsolute, Path.place_of_isAbsolute h.leads.isAbsolute, h.inner,
    Path.placeFrom_append]
  rfl

/-- Only the last name can be bad. -/
theorem checkPath (h : Within d q n p) (hshort : p.text.byteSize ≤ maxPath) :
    checkPath p = if '\x00' ∈ n then .error .nulInName else .ok () := by
  have hgood : ∀ m, .name m ∈ q.inner → '\x00' ∉ m := fun m hm hbad =>
    (checkPath_ok_iff.1 h.leads.check).1
      ((Path.mem_text_iff (by decide) (by decide)).2 ⟨m, hm, hbad⟩)
  have hnul : '\x00' ∈ p.text ↔ '\x00' ∈ n := by
    rw [Path.mem_text_iff (by decide) (by decide), h.inner]
    constructor
    · rintro ⟨m, hm, hbad⟩
      rcases List.mem_append.1 hm with hm | hm
      · exact absurd hbad (hgood m hm)
      · rwa [← Path.Step.name.inj (List.mem_singleton.1 hm)]
    · exact fun hbad => ⟨n, by simp, hbad⟩
  unfold Disk.checkPath
  rw [if_neg (text_ne_nil h.isAbsolute), if_neg (Nat.not_lt.2 hshort)]
  simp only [List.contains_iff_mem, hnul]

/-- Where the last name stands for a directory, the path leads to it. -/
theorem leads_of_dir (h : Within d q n p) (hd : d.Plain) (hshort : p.text.byteSize ≤ maxPath)
    (hdir : d.root.kindAt p.place = some .dir) : Leads d p := by
  rw [h.place] at hdir
  obtain ⟨m, hm⟩ := Option.isSome_iff_exists.1 (Option.isSome_map ▸ Option.isSome_of_mem hdir)
  have hn : IsName n := (Node.isPlain_get? hd.tree hm).2 n (by simp)
  refine ⟨h.isAbsolute, by rw [h.checkPath hshort, if_neg hn.noNul], ?_, by rwa [h.place]⟩
  rw [Path.steps_of_isAbsolute h.isAbsolute, h.inner, ← List.cons_append,
    ← Path.steps_of_isAbsolute h.leads.isAbsolute, h.leads.walk_append, h.place]
  have hsome : (d.root.kindAt (q.place ++ [n])).isSome := by
    rw [hdir]
    rfl
  exact walk_names_of_isSome hd.tree hsome

/-- Making the directory of a last name. -/
theorem makeDirs (h : Within d q n p) (hd : d.Plain) (hshort : p.text.byteSize ≤ maxPath)
    (hdir : d.root.kindAt p.place ≠ some .dir) :
    Disk.makeDirs p d =
      if '\x00' ∈ n then (.error .nulInName, d)
      else if maxName < n.byteSize then (.error .nameTooLong, d)
      else if d.root.kindAt p.place = none then (.ok (), d.put p.place (some (.dir [])))
      else (.error .exists, d) := by
  have hnot : d.isDir p = false := by
    by_contra hthere
    exact hdir (leads_of_isDir hd h.isAbsolute (by simpa using hthere)).dir
  have hcheck := h.checkPath hshort
  obtain ⟨slash, hsplit⟩ := h.split
  rw [makeDirs_of_parent? h.isAbsolute h.parent (by simp [h.inner])]
  by_cases hnul : '\x00' ∈ n
  · rw [if_pos hnul] at hcheck ⊢
    have hmake : d.makeDir p = .error .nulInName := by
      unfold makeDir
      rw [hcheck]
      rfl
    simp [hmake, isThere]
  · rw [if_neg hnul] at hcheck ⊢
    rw [makeDir_name hd hcheck h.leads hsplit, ← h.place]
    by_cases hlong : maxName < n.byteSize
    · simp [hlong, isThere]
    · by_cases hnone : d.root.kindAt p.place = none
      · simp [hlong, hnone]
      · simp [hlong, hnone, isThere, hnot]

end Within

namespace Passes

variable (hd : d.Plain) (h : Passes d p) (hp : p.isAbsolute) (hshort : p.text.byteSize ≤ maxPath)

include hd h hp hshort

/-- A path through directories that are there leads to one, or to where none is. -/
theorem leads_or_within :
    Leads d p ∨ d.root.kindAt p.place ≠ some .dir ∧ ∃ q n, Within d q n p := by
  rcases h with hdir | ⟨q, n, slash, hq, hname, hdir⟩
  · exact Or.inl (leads_of_isDir hd hp hdir)
  · have hwithin := within_of_parent? hd hp hq hname hdir
    by_cases hthere : d.root.kindAt p.place = some .dir
    · exact Or.inl (hwithin.leads_of_dir hd hshort hthere)
    · exact Or.inr ⟨hthere, q, n, hwithin⟩

/-- The same directory is made, however the way to it is spelled. -/
theorem makeDirs_alike (h' : Passes d q) (hq : q.isAbsolute) (hshort' : q.text.byteSize ≤ maxPath)
    (hplace : q.place = p.place) : Disk.makeDirs q d = Disk.makeDirs p d := by
  rcases h.leads_or_within hd hp hshort with hleads | ⟨hnone, a, n, ha⟩ <;>
    rcases h'.leads_or_within hd hq hshort' with hleads' | ⟨hnone', b, m, hb⟩
  · rw [hleads.makeDirs hd, hleads'.makeDirs hd]
  · exact absurd (hplace ▸ hleads.dir) hnone'
  · exact absurd (hplace ▸ hleads'.dir) hnone
  · obtain ⟨-, hname⟩ := List.append_inj' (hb.place.symm.trans (hplace.trans ha.place)) rfl
    rw [ha.makeDirs hd hshort hnone, hb.makeDirs hd hshort' hnone', hplace,
      (List.cons.inj hname).1]

/-- Afterwards there is at most one more directory, and that has a name of no more than a certain
size. -/
theorem kindAt_makeDirs {x : Place} (hx : ((Disk.makeDirs p d).2.root.kindAt x).isSome) :
    (d.root.kindAt x).isSome ∨
      ∃ front n, x = front ++ [n] ∧ n.byteSize ≤ maxName ∧ d.root.kindAt front = some .dir := by
  rcases h.leads_or_within hd hp hshort with hleads | ⟨hnone, q, n, hwithin⟩
  · rw [hleads.makeDirs hd] at hx
    exact Or.inl hx
  · rw [hwithin.makeDirs hd hshort hnone] at hx
    split_ifs at hx with hnul hlong hfree
    · exact Or.inl hx
    · exact Or.inl hx
    · rw [hwithin.place] at hx hnone
      have hname : IsName n := ⟨hwithin.ordinary, hnul, by omega⟩
      rw [Node.kindAt_eq_seen, seen_put ⟨hwithin.leads.dir, hname⟩ hnone rfl] at hx
      by_cases hx' : x = q.place ++ [n]
      · exact Or.inr ⟨q.place, n, hx', by omega, hwithin.leads.dir⟩
      · rw [if_neg hx', ← Node.kindAt_eq_seen] at hx
        exact Or.inl hx
    · exact Or.inl hx

end Passes

end Quire.Disk
