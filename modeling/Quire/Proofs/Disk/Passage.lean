import Mathlib.Data.List.DropRight
import Quire.Proofs.Disk.Chain
import Quire.Proofs.Path.Onward

/-!
Making directories along any absolute path, with all its detours. The way comes from one place to
the next; it can be made if at none of them anything but a directory is and no name is too long,
and otherwise it is made up to the first place where that is not so.
-/

namespace Quire

namespace Path

variable {p q : Path} {n : Text} {fs : List Text}

theorem kept_kept (fs : List Text) : kept (kept fs) = kept fs := by
  rw [kept, kept, List.reverse_reverse, List.dropWhile_idempotent]

theorem fields_cleared (hfs : ∀ f ∈ fs, '/' ∉ f) (hne : kept fs ≠ []) :
    (cleared fs).fields = kept fs := by
  obtain ⟨idle, hsplit, _⟩ := kept_append_idle fs
  obtain ⟨f, rest, hkept⟩ := List.exists_cons_of_ne_nil hne
  have hslash : ∀ g ∈ kept fs, '/' ∉ g := fun g hg => hfs g (hsplit ▸ List.mem_append_left idle hg)
  unfold cleared
  rw [hkept] at hslash ⊢
  exact Text.fields_intercalate (by simp) hslash

/-- A path that has been cleared is clear. -/
theorem trimmed_cleared (hfs : ∀ f ∈ fs, '/' ∉ f) : (cleared fs).trimmed = cleared fs := by
  by_cases hne : kept fs = []
  · simp only [trimmed, cleared, hne]
    rfl
  · have hfields := fields_cleared hfs hne
    rw [trimmed, hfields, cleared, cleared, kept_kept]

theorem trimmed_trimmed (p : Path) : p.trimmed.trimmed = p.trimmed :=
  trimmed_cleared fun _ hf => noSlash_of_mem_fields hf

/-- A path that has been cleared and is not the root ends in the stretch of its last step. -/
theorem exists_last_of_trimmed (hp : p.isAbsolute) (htrim : p.trimmed = p)
    (hq : p.parent? = some q) :
    ∃ front last s, p.fields = front ++ [last] ∧ ¬ isIdle last ∧ Step.ofField? last = some s ∧
      q = cleared front ∧ (∀ f ∈ front, '/' ∉ f) ∧ p.inner = q.inner ++ [s] := by
  rw [parent?_of_isAbsolute hp] at hq
  split at hq
  · cases hq
  · next last front hdrop =>
      obtain ⟨idles, s, hfields, hidles, hs, hinner⟩ := exists_fields hdrop
      have hkept : kept p.fields = front.reverse ++ [last] := by simp [kept, hdrop]
      have hslash : ∀ f ∈ front.reverse, '/' ∉ f := fun f hf =>
        noSlash_of_mem_fields (p := p) (hfields ▸ List.mem_append_left _ hf)
      have hwhole : p.fields = front.reverse ++ [last] := by
        rw [← hkept, ← fields_cleared (fun f hf => noSlash_of_mem_fields hf) (by simp [hkept])]
        exact congrArg fields htrim.symm
      have hlast : ¬ isIdle last := by
        intro hidle
        rw [isIdle_iff] at hidle
        simp [Step.ofField?, hidle] at hs
      refine ⟨front.reverse, last, s, hwhole, hlast, hs, (Option.some.inj hq).symm, hslash, ?_⟩
      rw [← Option.some.inj hq, inner_cleared hslash, hinner]

/-- What a path goes on with behind another is told by the steps behind the root. -/
theorem steps_of_inner {rest : List Step} (hp : p.isAbsolute) (hq : q.isAbsolute)
    (hinner : p.inner = q.inner ++ rest) : p.steps = q.steps ++ rest := by
  rw [steps_of_isAbsolute hp, hinner, steps_of_isAbsolute hq, List.cons_append]

/-- The path that is one step above another, both cleared. -/
structure OneAbove (q p : Path) (s : Step) : Prop where
  isAbsolute : q.isAbsolute
  trimmed : q.trimmed = q
  text : q.text <+: p.text
  isWay : s.IsWay
  inner : p.inner = q.inner ++ [s]

theorem oneAbove_of_parent? (hp : p.isAbsolute) (htrim : p.trimmed = p) (hq : p.parent? = some q) :
    ∃ s, OneAbove q p s := by
  obtain ⟨habs, htext⟩ := isAbsolute_of_parent? hp hq
  obtain ⟨front, last, s, -, -, -, rfl, hfront, hinner⟩ := exists_last_of_trimmed hp htrim hq
  exact ⟨s, habs, trimmed_cleared hfront, htext, isWay_of_mem_inner (p := p) (by simp [hinner]),
    hinner⟩

namespace OneAbove

variable {s : Step}

theorem length (h : OneAbove q p s) : p.inner.length = q.inner.length + 1 := by simp [h.inner]

end OneAbove

/-- The paths above a path are above its parent, or the parent. -/
theorem ancestry_of_parent? (hp : p.isAbsolute) (hq : p.parent? = some q)
    (hlength : p.inner.length = q.inner.length + 1) : p.ancestry = p :: q.ancestry := by
  have habs := (isAbsolute_of_parent? hp hq).1
  have hsteps : p.steps.length = q.steps.length + 1 := by
    rw [steps_of_isAbsolute hp, steps_of_isAbsolute habs]
    simp [hlength]
  rw [ancestry, hsteps, ancestry.climb, hq]
  rfl

/-- Only the root has no path above it, when it is cleared. -/
theorem parent?_eq_none_iff (hp : p.isAbsolute) : p.parent? = none ↔ p.inner = [] := by
  rw [parent?_of_isAbsolute hp]
  cases hdrop : p.fields.reverse.dropWhile isIdle with
  | nil =>
      have hidle : p.inner = [] :=
        filterMap_idle fun f hf => List.dropWhile_eq_nil_iff.1 hdrop f (List.mem_reverse.2 hf)
      simp [hidle]
  | cons last front =>
      obtain ⟨_, s, _, _, _, hinner⟩ := exists_fields hdrop
      simp [hinner]

theorem exists_parent_of_length {k : Nat} (hp : p.isAbsolute) (hlength : p.inner.length = k + 1) :
    ∃ q, p.parent? = some q := by
  rw [← Option.ne_none_iff_exists', Ne, parent?_eq_none_iff hp]
  intro hnil
  rw [hnil] at hlength
  cases hlength

end Path

namespace Disk

open Quire.Path (Step Ordinary descend placeFrom)

variable {d d' : Disk} {p q : Path} {place x : Place} {root : Node} {n : Text} {fs : List Text}
  {s : Step} {steps rest : List Step}

/-- How a path ends that has been cleared: in a step up, or in a name. -/
theorem splitEnding_of_trimmed (hp : p.isAbsolute) (htrim : p.trimmed = p)
    (hq : p.parent? = some q) :
    (p.inner = q.inner ++ [.up] ∧ splitEnding p = (p.steps, .up)) ∨
      ∃ n slash, Ordinary n ∧ p.inner = q.inner ++ [.name n] ∧
        splitEnding p = (q.steps, .name n slash) := by
  obtain ⟨front, last, s, hfields, hidle, hs, -, -, hinner⟩ :=
    Path.exists_last_of_trimmed hp htrim hq
  have habs := (Path.isAbsolute_of_parent? hp hq).1
  have hne : last ≠ [] := fun hnil => hidle (Path.isIdle_iff.2 (Or.inl hnil))
  have hdot : last ≠ ['.'] := fun hdot => hidle (Path.isIdle_iff.2 (Or.inr hdot))
  have hdrop : p.fields.reverse.dropWhile (· = []) = last :: front.reverse := by
    rw [hfields, List.reverse_append, List.reverse_singleton, List.singleton_append,
      List.dropWhile_cons_of_neg (by simpa using hne)]
  by_cases hdots : last = ['.', '.']
  · subst hdots
    obtain rfl : s = .up := by simpa [Step.ofField?] using hs.symm
    exact Or.inl ⟨hinner, by simp only [splitEnding, hdrop]⟩
  · obtain rfl : s = .name last := by simpa [Step.ofField?, hne, hdot, hdots] using hs.symm
    have hslash : '/' ∉ last :=
      Path.noSlash_of_mem_fields (p := p) (hfields ▸ List.mem_append_right _ (by simp))
    refine Or.inr ⟨last, p.text.getLast? = some '/', ⟨hne, hslash, hdot, hdots⟩, hinner, ?_⟩
    have hsteps : p.steps.dropLast = q.steps := by
      rw [Path.steps_of_inner hp habs hinner, List.dropLast_concat]
    unfold splitEnding
    rw [hdrop, ← hsteps]
    split <;> simp_all

/-- A directory is made, or first the one above it where that is missing. -/
theorem makeDirs_of_parent? (hp : p.isAbsolute) (hq : p.parent? = some q)
    (hlength : p.inner.length = q.inner.length + 1) (d : Disk) :
    makeDirs p d =
      match d.makeDir p with
      | .ok after => (.ok (), after)
      | .error e =>
        if e = .notFound then (makeDirs q).andThen (makeEach [p]) d
        else if d.isThere p e then (.ok (), d)
        else (.error e, d) := by
  rw [makeDirs, Path.ancestry_of_parent? hp hq hlength, makeNearest]
  cases d.makeDir p with
  | ok after => rfl
  | error e =>
      by_cases he : e = .notFound
      · simp only [he, if_true]
        rw [makeNearest_passed]
        unfold Change.andThen makeDirs
        cases d.makeNearest [] q.ancestry with
        | error e => rfl
        | ok found =>
            obtain ⟨missing, after⟩ := found
            simp only [Except.map, makeEach_append]
            rfl
      · simp only [he, if_false]
        by_cases hthere : d.isThere p e
        · simp [hthere, makeEach]
        · simp [hthere]

/-! The way of a path. -/

/-- The places that steps come to, one after the other. -/
def stations : Place → List Step → List Place
  | _, [] => []
  | place, s :: rest => descend place s :: stations (descend place s) rest

theorem stations_append (place : Place) (a b : List Step) :
    stations place (a ++ b) = stations place a ++ stations (placeFrom place a) b := by
  induction a generalizing place with
  | nil => rfl
  | cons s a ih => rw [List.cons_append, stations, stations, ih, List.cons_append, placeFrom]; rfl

theorem stations_concat (place : Place) (steps : List Step) (s : Step) :
    stations place (steps ++ [s]) = stations place steps ++ [placeFrom place (steps ++ [s])] := by
  rw [stations_append, Path.placeFrom_append]
  rfl

/-- Where nothing is in the way of a directory. -/
def Loose (root : Node) (q : Place) : Prop := root.kindAt q = none ∨ root.kindAt q = some .dir

instance (root : Node) (q : Place) : Decidable (Loose root q) :=
  inferInstanceAs (Decidable (_ ∨ _))

/-- Nothing is in the way of the directories along some steps. -/
structure Passable (root : Node) (place : Place) (steps : List Step) : Prop where
  loose : ∀ q ∈ stations place steps, Loose root q
  short : ∀ n, .name n ∈ steps → n.byteSize ≤ maxName

theorem Passable.front (h : Passable root place (steps ++ rest)) : Passable root place steps :=
  ⟨fun q hq => h.loose q (by rw [stations_append]; exact List.mem_append_left _ hq),
    fun n hn => h.short n (List.mem_append_left _ hn)⟩

/-- A step from a directory to a directory. -/
theorem walk_step (hdir : root.kindAt place = some .dir) (hs : s.IsWay)
    (hshort : ∀ n, s = .name n → n.byteSize ≤ maxName)
    (hnext : root.kindAt (descend place s) = some .dir) (rest : List Step) :
    walk root place (s :: rest) = walk root (descend place s) rest := by
  obtain ⟨children, hget⟩ := Node.kindAt_dir_iff.1 hdir
  rcases hs with rfl | ⟨n, _, rfl⟩
  · rw [walk, childrenAt_ok_iff.2 hget]
    rfl
  · have hchild : (Node.child? n children).map Node.kind = some .dir := by
      rw [← Node.get?_append_singleton hget]
      exact hnext
    obtain ⟨m, hm, _⟩ := Option.map_eq_some_iff.1 hchild
    rw [walk, childrenAt_ok_iff.2 hget]
    simp only [lookUp_ok (hshort n rfl), hm]
    rfl

section

variable (hdir : root.kindAt place = some .dir) (hway : ∀ s ∈ steps, s.IsWay)

include hdir hway

/-- Where all directories are there, steps lead through them. -/
theorem walk_of_dirs (hshort : ∀ n, .name n ∈ steps → n.byteSize ≤ maxName)
    (hdirs : ∀ q ∈ stations place steps, root.kindAt q = some .dir) (rest : List Step) :
    walk root place (steps ++ rest) = walk root (placeFrom place steps) rest ∧
      root.kindAt (placeFrom place steps) = some .dir := by
  induction steps generalizing place with
  | nil => exact ⟨rfl, hdir⟩
  | cons s steps ih =>
      obtain ⟨hnext, hdirs⟩ := List.forall_mem_cons.1 hdirs
      obtain ⟨hs, hway⟩ := List.forall_mem_cons.1 hway
      have hih := ih hnext hway (fun n hn => hshort n (List.mem_cons_of_mem s hn)) hdirs
      rw [List.cons_append, walk_step hdir hs (fun n hn => hshort n (by simp [hn])) hnext]
      exact hih

/-- Where the first thing that is not a directory is nothing at all, steps lead to nothing. -/
theorem walk_of_missing (hpass : Passable root place steps)
    (hmissing : ∃ q ∈ stations place steps, root.kindAt q = none) (rest : List Step) :
    walk root place (steps ++ rest) = .error .notFound := by
  induction steps generalizing place with
  | nil => simp [stations] at hmissing
  | cons s steps ih =>
      obtain ⟨hs, hway⟩ := List.forall_mem_cons.1 hway
      rcases hpass.loose _ List.mem_cons_self with hnone | hnext
      · obtain ⟨children, hget⟩ := Node.kindAt_dir_iff.1 hdir
        rcases hs with rfl | ⟨n, _, rfl⟩
        · have hup := kindAt_of_isPrefix (List.dropLast_prefix _) hdir
          exact absurd (hnone.symm.trans hup) (by simp)
        · have hchild : (Node.child? n children).map Node.kind = none := by
            rw [← Node.get?_append_singleton hget]
            exact hnone
          rw [List.cons_append, walk, childrenAt_ok_iff.2 hget]
          simp only [lookUp_ok (hpass.short n List.mem_cons_self), Option.map_eq_none_iff.1 hchild]
      · rw [List.cons_append, walk_step hdir hs (fun n hn => hpass.short n (by simp [hn])) hnext]
        obtain ⟨q, hq, hnone⟩ := hmissing
        have hlater : q ∈ stations (descend place s) steps := by
          rcases List.mem_cons.1 hq with rfl | hq
          · exact absurd (hnone.symm.trans hnext) (by simp)
          · exact hq
        exact ih hnext hway ⟨fun q hq => hpass.loose q (List.mem_cons_of_mem _ hq),
          fun n hn => hpass.short n (List.mem_cons_of_mem s hn)⟩ ⟨q, hlater, hnone⟩

end

theorem Loose.of_furnished (h : Loose root x) {d d' : Disk} (hroot : d.root = root)
    (hfurnished : Furnished d d') : Loose d'.root x := by
  subst hroot
  rcases hfurnished.seen x with hsame | ⟨_, hmade⟩
  · rw [Loose, Node.kindAt_congr hsame]
    exact h
  · exact Or.inr (Node.seen_dir_iff.1 hmade)

theorem Passable.of_furnished (h : Passable d.root place steps) (hfurnished : Furnished d d') :
    Passable d'.root place steps :=
  ⟨fun q hq => (h.loose q hq).of_furnished rfl hfurnished, h.short⟩

/-- Empty directories came at some places where nothing was, and nothing else changed. -/
structure Laid (places : List Place) (d d' : Disk) : Prop extends Furnished d d' where
  frame : ∀ q, q ∉ places → d'.root.seen q = d.root.seen q

theorem Laid.refl (hd : d.Plain) (places : List Place) : Laid places d d :=
  ⟨Furnished.refl hd, fun _ _ => rfl⟩

theorem Laid.mono {places places' : List Place} (h : Laid places d d') (hsub : places ⊆ places') :
    Laid places' d d' := ⟨h.toFurnished, fun q hq => h.frame q fun hq' => hq (hsub hq')⟩

theorem Laid.trans {d'' : Disk} {places : List Place} (h : Laid places d d')
    (h' : Laid places d' d'') : Laid places d d'' :=
  ⟨h.toFurnished.trans h'.toFurnished, fun q hq => (h'.frame q hq).trans (h.frame q hq)⟩

/-- One more directory at a place where there is room. -/
theorem Laid.put {places : List Place} (h : Laid places d d') (hroom : Roomy d'.root place n)
    (hnone : d'.root.kindAt (place ++ [n]) = none) (hmem : place ++ [n] ∈ places) :
    Laid places d (d'.put (place ++ [n]) (some (.dir []))) := by
  have hseen := seen_put hroom (by simp [hnone]) (rfl : (Node.dir []).bare = .dir [])
  refine ⟨⟨h.plain.put hroom rfl, h.cwd, fun q => ?_⟩, fun q hq => ?_⟩
  · rw [hseen]
    by_cases hq : q = place ++ [n]
    · subst hq
      refine Or.inr ⟨?_, if_pos rfl⟩
      rcases h.seen (place ++ [n]) with hsame | hmade
      · rw [← hsame]
        simpa [Node.kindAt_eq_seen] using hnone
      · exact hmade.1
    · rw [if_neg hq]
      exact h.seen q
  · rw [hseen, if_neg ?_]
    · exact h.frame q hq
    · rintro rfl
      exact hq hmem

section

variable (hd : d.Plain) (hp : p.isAbsolute) (htrim : p.trimmed = p) (hcheck : checkPath p = .ok ())

theorem walk_inner (hq : q.isAbsolute) (rest : List Step) :
    walk d.root d.cwd (q.steps ++ rest) = walk d.root [] (q.inner ++ rest) := by
  rw [Path.steps_of_isAbsolute hq, List.cons_append, walk]

include hd in
theorem leads_of_dirs (hq : q.isAbsolute) (hcheck : checkPath q = .ok ())
    (hdirs : ∀ x ∈ stations [] q.inner, d.root.kindAt x = some .dir)
    (hshort : ∀ n, .name n ∈ q.inner → n.byteSize ≤ maxName) : Leads d q := by
  obtain ⟨hwalk, hdir⟩ :=
    walk_of_dirs hd.rooted (fun _ => Path.isWay_of_mem_inner (p := q)) hshort hdirs []
  rw [← Path.place_of_isAbsolute hq] at hwalk hdir
  have hinner := walk_inner (d := d) hq []
  rw [List.append_nil] at hinner
  exact ⟨hq, hcheck, by rw [hinner, hwalk]; rfl, hdir⟩

include hd in
/-- Along a passable way, a path leads to a directory, or something is missing on the way. -/
theorem leads_or_missing (hq : q.isAbsolute) (hcheck : checkPath q = .ok ())
    (hpass : Passable d.root [] q.inner) :
    (Leads d q ∧ ∀ x ∈ stations [] q.inner, d.root.kindAt x = some .dir) ∨
      (∃ x ∈ stations [] q.inner, d.root.kindAt x = none) ∧
        ∀ rest, walk d.root d.cwd (q.steps ++ rest) = .error .notFound := by
  have hway : ∀ s ∈ q.inner, s.IsWay := fun _ => Path.isWay_of_mem_inner
  by_cases hmissing : ∃ x ∈ stations [] q.inner, d.root.kindAt x = none
  · refine Or.inr ⟨hmissing, fun rest => ?_⟩
    rw [walk_inner hq]
    exact walk_of_missing hd.rooted hway hpass hmissing rest
  · have hdirs : ∀ x ∈ stations [] q.inner, d.root.kindAt x = some .dir := fun x hx =>
      (hpass.loose x hx).resolve_left fun hnone => hmissing ⟨x, hx, hnone⟩
    exact Or.inl ⟨leads_of_dirs hd hq hcheck hdirs hpass.short, hdirs⟩

include hd hp hcheck

/-- Below what is missing no directory can be made. -/
theorem makeDir_of_notFound (htrim : p.trimmed = p) (hq : p.parent? = some q)
    (hwalk : ∀ rest, walk d.root d.cwd (q.steps ++ rest) = .error .notFound) :
    d.makeDir p = .error .notFound := by
  have hself := hwalk []
  rw [List.append_nil] at hself
  have habs := (Path.isAbsolute_of_parent? hp hq).1
  unfold makeDir
  rcases splitEnding_of_trimmed hp htrim hq with ⟨hinner, hsplit⟩ | ⟨n, slash, _, _, hsplit⟩
  · have hsteps := Path.steps_of_inner hp habs hinner
    simp only [hcheck, hsplit, bind, Except.bind, reach_eq_walk hd, hsteps, hwalk]
  · simp only [hcheck, hsplit, bind, Except.bind, reach_eq_walk hd, hself]

omit hp in
/-- Making a directory of a name in a directory that a path leads to. -/
theorem makeDir_name {slash : Bool} (hq : Leads d q)
    (hsplit : splitEnding p = (q.steps, .name n slash)) :
    d.makeDir p =
      if maxName < n.byteSize then .error .nameTooLong
      else if d.root.kindAt (q.place ++ [n]) = none then
        .ok (d.put (q.place ++ [n]) (some (.dir [])))
      else .error .exists := by
  obtain ⟨children, hget⟩ := Node.kindAt_dir_iff.1 hq.dir
  unfold makeDir
  simp only [hcheck, hsplit, bind, Except.bind, reach_eq_walk hd, hq.walk,
    childrenAt_ok_iff.2 hget]
  rw [Node.kindAt, Node.get?_append_singleton hget, lookUp]
  by_cases hlong : maxName < n.byteSize
  · simp [hlong]
  · simp only [hlong, if_false]
    cases Node.child? n children with
    | none => rfl
    | some m => simp

/-- In a directory that is there, the next one is made, or is there. -/
theorem exists_laid_of_leads (htrim : p.trimmed = p) (hq : p.parent? = some q) (hleads : Leads d q)
    (hpass : Passable d.root [] p.inner) :
    ∃ d', Laid (stations [] p.inner) d d' ∧ d'.root.kindAt p.place = some .dir ∧
      (d.makeDir p = .ok d' ∨
        d.makeDir p = .error .exists ∧ d.isThere p .exists ∧ d' = d) := by
  have hqabs := hleads.isAbsolute
  have hthere : Leads d p → ∃ d', Laid (stations [] p.inner) d d' ∧
      d'.root.kindAt p.place = some .dir ∧ (d.makeDir p = .ok d' ∨
        d.makeDir p = .error .exists ∧ d.isThere p .exists ∧ d' = d) := fun h =>
    ⟨d, Laid.refl hd _, h.dir, Or.inr ⟨h.makeDir hd, by simp [isThere, h.isDir hd], rfl⟩⟩
  rcases splitEnding_of_trimmed hp htrim hq with ⟨hinner, _⟩ | ⟨n, slash, hn, hinner, hsplit⟩
  · refine hthere ⟨hp, hcheck, ?_, ?_⟩
    all_goals
      have hplace : p.place = q.place.dropLast := by
        rw [Path.place, Path.steps_of_inner hp hqabs hinner, Path.placeFrom_append, ← Path.place]
        rfl
    · obtain ⟨children, hget⟩ := Node.kindAt_dir_iff.1 hleads.dir
      rw [Path.steps_of_inner hp hqabs hinner, hleads.walk_append, walk, childrenAt_ok_iff.2 hget,
        hplace]
      rfl
    · rw [hplace]
      exact kindAt_of_isPrefix (List.dropLast_prefix _) hleads.dir
  · have hplace : p.place = q.place ++ [n] := by
      rw [Path.place, Path.steps_of_inner hp hqabs hinner, Path.placeFrom_append, ← Path.place]
      rfl
    have hmem : p.place ∈ stations [] p.inner := by
      rw [hinner, stations_concat, ← hinner, ← Path.place_of_isAbsolute hp]
      simp
    have hshort : n.byteSize ≤ maxName := hpass.short n (by rw [hinner]; simp)
    rcases hpass.loose _ hmem with hnone | hdir
    · have hnul : '\x00' ∉ n := fun hmem => (checkPath_ok_iff.1 hcheck).1
        ((steps_of_splitEnding hsplit).2.2 _ hmem)
      have hroom : Roomy d.root q.place n := ⟨hleads.dir, hn, hnul, hshort⟩
      rw [hplace] at hnone hmem ⊢
      have hlaid := (Laid.refl hd _).put hroom hnone hmem
      refine ⟨_, hlaid, ?_, Or.inl ?_⟩
      · rw [Node.kindAt_eq_seen,
          seen_put hroom (by simp [hnone]) (rfl : (Node.dir []).bare = .dir []), if_pos rfl]
        rfl
      · rw [makeDir_name hd hcheck hleads hsplit, if_neg (Nat.not_lt.2 hshort), if_pos hnone]
    · refine hthere ⟨hp, hcheck, ?_, hdir⟩
      rw [Path.steps_of_inner hp hqabs hinner, hleads.walk_append, walk_name_ok_iff, hplace]
      rw [hplace] at hdir
      exact ⟨hleads.dir, hshort, by rw [hdir]; rfl, rfl⟩

/-- In a directory that is there, the next one cannot be made. -/
theorem makeDir_of_stuck_here (htrim : p.trimmed = p) (hq : p.parent? = some q)
    (hleads : Leads d q) (hinner : p.inner = q.inner ++ [.name n])
    (hstuck : maxName < n.byteSize ∨ ¬ Loose d.root p.place) :
    d.makeDir p = .error (if maxName < n.byteSize then .nameTooLong else .exists) ∧
      d.isDir p = false := by
  have hqabs := hleads.isAbsolute
  have hsteps := Path.steps_of_inner hp hqabs hinner
  have hplace : p.place = q.place ++ [n] := by
    rw [Path.place, hsteps, Path.placeFrom_append, ← Path.place]
    rfl
  rcases splitEnding_of_trimmed hp htrim hq with ⟨hinner', _⟩ | ⟨m, slash, _, hinner', hsplit⟩
  · rw [hinner] at hinner'
    simp at hinner'
  · obtain rfl : m = n := by
      rw [hinner] at hinner'
      simpa using hinner'.symm
    constructor
    · rw [makeDir_name hd hcheck hleads hsplit]
      split
      · rfl
      · next hshort =>
          rw [if_neg fun hnone => hstuck.resolve_left hshort (Or.inl (hplace ▸ hnone))]
    · rw [Bool.eq_false_iff]
      intro hdir
      have hself := leads_of_isDir hd hp hdir
      have hwalk := hself.walk
      rw [hsteps, hleads.walk_append, walk_name_ok_iff] at hwalk
      rcases hstuck with hlong | hloose
      · exact Nat.not_lt.2 hwalk.2.1 hlong
      · exact hloose (Or.inr hself.dir)

end

/-- The way of a path comes to the places of the way of the path above, and to its own. -/
theorem mem_stations_iff (hp : p.isAbsolute) (habove : Path.OneAbove q p s) :
    x ∈ stations [] p.inner ↔ x ∈ stations [] q.inner ∨ x = p.place := by
  rw [Path.place_of_isAbsolute hp, habove.inner, stations_concat, List.mem_append,
    List.mem_singleton]

section

variable (hd : d.Plain) (hp : p.isAbsolute) (htrim : p.trimmed = p) (hcheck : checkPath p = .ok ())
  (hq : p.parent? = some q) (hlength : p.inner.length = q.inner.length + 1)

include hd hp htrim hcheck hq hlength

/-- Where something is missing above a path, the directories above it are made before it. -/
theorem makeDirs_of_missing
    (hwalk : ∀ rest, walk d.root d.cwd (q.steps ++ rest) = .error .notFound) :
    makeDirs p d = (makeDirs q).andThen (makeEach [p]) d := by
  rw [makeDirs_of_parent? hp hq hlength, makeDir_of_notFound hd hp hcheck htrim hq hwalk]
  simp only [if_true]

/-- In a directory that is there, the next one is there afterwards, whether it is made by itself or
after those above it. -/
theorem exists_made_of_leads (hleads : Leads d q) (hpass : Passable d.root [] p.inner) :
    ∃ d', Laid (stations [] p.inner) d d' ∧ d'.root.kindAt p.place = some .dir ∧
      makeDirs p d = (.ok (), d') ∧ makeEach [p] d = (.ok (), d') := by
  obtain ⟨d', hlaid, hdir, hmade⟩ := exists_laid_of_leads hd hp hcheck htrim hq hleads hpass
  refine ⟨d', hlaid, hdir, ?_⟩
  rw [makeDirs_of_parent? hp hq hlength]
  rcases hmade with hmade | ⟨hmade, hthere, rfl⟩
  · simp [makeEach, hmade]
  · simp [makeEach, hmade, hthere]

end

/-- Where nothing is in the way, all directories on the way are there afterwards. -/
theorem makeDirs_of_passable (hd : d.Plain) (hp : p.isAbsolute) (htrim : p.trimmed = p)
    (hcheck : checkPath p = .ok ()) (hpass : Passable d.root [] p.inner) :
    ∃ d', makeDirs p d = (.ok (), d') ∧ Laid (stations [] p.inner) d d' ∧
      ∀ x ∈ stations [] p.inner, d'.root.kindAt x = some .dir := by
  induction hk : p.inner.length generalizing p with
  | zero =>
      have hnil := List.length_eq_zero_iff.1 hk
      refine ⟨d, ?_, by rw [hnil]; exact Laid.refl hd _, by simp [hnil, stations]⟩
      unfold makeDirs Path.ancestry
      rw [Path.steps_of_isAbsolute hp, List.length_cons, Path.ancestry.climb,
        (Path.parent?_eq_none_iff hp).2 hnil]
      rfl
  | succ k ih =>
      obtain ⟨q, hq⟩ := Path.exists_parent_of_length hp hk
      obtain ⟨s, habove⟩ := Path.oneAbove_of_parent? hp htrim hq
      have hqcheck := checkPath_of_isPrefix habove.text (text_ne_nil habove.isAbsolute) hcheck
      have hqpass : Passable d.root [] q.inner := by
        rw [habove.inner] at hpass
        exact hpass.front
      rcases leads_or_missing hd habove.isAbsolute hqcheck hqpass with ⟨hleads, hdirs⟩ | ⟨-, hwalk⟩
      · obtain ⟨d', hlaid, hdir, hmade, -⟩ :=
          exists_made_of_leads hd hp htrim hcheck hq habove.length hleads hpass
        refine ⟨d', hmade, hlaid, fun x hx => ?_⟩
        rcases (mem_stations_iff hp habove).1 hx with hx | rfl
        · exact hlaid.kindAt (hdirs x hx)
        · exact hdir
      · -- the directories above are made first, and the path leads to them then
        obtain ⟨mid, hmid, hlaid, hdirs⟩ := ih habove.isAbsolute habove.trimmed hqcheck hqpass
          (by have := habove.length; omega)
        have hleads := leads_of_dirs hlaid.plain habove.isAbsolute hqcheck hdirs hqpass.short
        obtain ⟨d', hlaid', hdir, -, hmade⟩ := exists_made_of_leads hlaid.plain hp htrim hcheck hq
          habove.length hleads (hpass.of_furnished hlaid.toFurnished)
        have hsub : stations [] q.inner ⊆ stations [] p.inner := fun x hx =>
          (mem_stations_iff hp habove).2 (Or.inl hx)
        refine ⟨d', ?_, (hlaid.mono hsub).trans hlaid', fun x hx => ?_⟩
        · rw [makeDirs_of_missing hd hp htrim hcheck hq habove.length hwalk, Change.andThen, hmid]
          exact hmade
        · rcases (mem_stations_iff hp habove).1 hx with hx | rfl
          · exact hlaid'.kindAt (hdirs x hx)
          · exact hdir

/-- The first name on the way that stops the making of directories: it is too long, or stands for
something that is no directory. -/
structure Stuck (root : Node) (steps pre : List Step) (n : Text) (post : List Step) : Prop where
  split : steps = pre ++ .name n :: post
  pass : Passable root [] pre
  stuck : maxName < n.byteSize ∨ ¬ Loose root (placeFrom [] pre ++ [n])

/-- Why the making of directories stops. Where the way had to be made up to there, it is tried to
make a directory in the place of what stands there. -/
def stuckFault (root : Node) (pre : List Step) (n : Text) (post : List Step) : Fault :=
  if maxName < n.byteSize then .nameTooLong
  else if post = [] ∨ ∃ q ∈ stations [] pre, root.kindAt q = none then .exists
  else .notDirectory

/-- Steps do not lead on from where they are stuck. -/
theorem walk_of_stuck (hdir : root.kindAt place = some .dir)
    (hstuck : maxName < n.byteSize ∨ ¬ Loose root (place ++ [n])) (hs : s.IsWay)
    (hrest : ∀ t ∈ rest, t.IsWay) :
    walk root place (.name n :: (rest ++ [s])) =
      .error (if maxName < n.byteSize then .nameTooLong else .notDirectory) := by
  obtain ⟨children, hget⟩ := Node.kindAt_dir_iff.1 hdir
  rw [walk, childrenAt_ok_iff.2 hget]
  by_cases hlong : maxName < n.byteSize
  · simp only [lookUp, hlong, if_true]
  · have hloose := hstuck.resolve_left hlong
    obtain ⟨k, hk, hne⟩ : ∃ k, root.kindAt (place ++ [n]) = some k ∧ k ≠ .dir := by
      cases hkind : root.kindAt (place ++ [n]) with
      | none => exact absurd (Or.inl hkind) hloose
      | some k => exact ⟨k, rfl, fun hk => hloose (Or.inr (hk ▸ hkind))⟩
    have hchild : (Node.child? n children).map Node.kind = some k := by
      rw [← Node.get?_append_singleton hget]
      exact hk
    obtain ⟨m, hm, _⟩ := Option.map_eq_some_iff.1 hchild
    have hchildren := childrenAt_of_kindAt hk hne
    simp only [lookUp, hlong, if_false, hm]
    obtain ⟨t, more, hmore⟩ := List.exists_cons_of_ne_nil (l := rest ++ [s]) (by simp)
    have ht : t.IsWay := by
      have hmem : t ∈ rest ++ [s] := by simp [hmore]
      rcases List.mem_append.1 hmem with hmem | hmem
      · exact hrest t hmem
      · exact List.mem_singleton.1 hmem ▸ hs
    rw [hmore]
    rcases ht with rfl | ⟨m, _, rfl⟩
    · rw [walk, hchildren]
    · rw [walk, hchildren]

/-- A path that cannot be followed for another reason than that something is missing. -/
theorem makeDir_of_walk_error (hd : d.Plain) (hp : p.isAbsolute) (htrim : p.trimmed = p)
    (hcheck : checkPath p = .ok ()) (hq : p.parent? = some q) {f : Fault}
    (hwalk : walk d.root d.cwd p.steps = .error f) (hf : f ≠ .notFound) :
    d.makeDir p = .error f ∧ d.isDir p = false := by
  constructor
  · have habs := (Path.isAbsolute_of_parent? hp hq).1
    unfold makeDir
    rcases splitEnding_of_trimmed hp htrim hq with ⟨_, hsplit⟩ | ⟨m, slash, _, hinner, hsplit⟩
    · simp only [hcheck, hsplit, bind, Except.bind, reach_eq_walk hd, hwalk]
    · rw [Path.steps_of_inner hp habs hinner, walk_append] at hwalk
      simp only [hcheck, hsplit, bind, Except.bind, reach_eq_walk hd]
      cases hfront : walk d.root d.cwd q.steps with
      | error e =>
          rw [hfront] at hwalk
          exact congrArg Except.error (Except.error.inj hwalk)
      | ok z =>
          rw [hfront] at hwalk
          simp only [Except.bind, walk] at hwalk ⊢
          cases hchildren : childrenAt d.root z with
          | error e =>
              rw [hchildren] at hwalk
              exact congrArg Except.error (Except.error.inj hwalk)
          | ok children =>
              rw [hchildren] at hwalk
              simp only at hwalk ⊢
              cases hfound : lookUp m children with
              | error e =>
                  rw [hfound] at hwalk
                  exact congrArg Except.error (Except.error.inj hwalk)
              | ok found =>
                  rw [hfound] at hwalk
                  cases found with
                  | none => exact absurd (Except.error.inj hwalk).symm hf
                  | some node => cases hwalk
  · rw [Bool.eq_false_iff]
    intro hdir
    rw [(leads_of_isDir hd hp hdir).walk] at hwalk
    cases hwalk

/-- Where a directory cannot be made and none is missing above it, nothing is made. -/
theorem makeDirs_of_makeDir_error (hp : p.isAbsolute) (hq : p.parent? = some q)
    (hlength : p.inner.length = q.inner.length + 1) {f : Fault} (hmake : d.makeDir p = .error f)
    (hf : f ≠ .notFound) (hdir : d.isDir p = false) : makeDirs p d = (.error f, d) := by
  rw [makeDirs_of_parent? hp hq hlength, hmake]
  simp [hf, isThere, hdir]

/-- What is loose after directories were made was loose before. -/
theorem Loose.of_laid {places : List Place} (h : Loose d'.root x) (hlaid : Laid places d d') :
    Loose d.root x := by
  cases hkind : d.root.kindAt x with
  | none => exact Or.inl hkind
  | some k =>
      rw [Loose, hlaid.kindAt hkind] at h
      exact Or.inr (hkind.trans (h.resolve_left (by simp)))

section

variable (hd : d.Plain) (hp : p.isAbsolute) (htrim : p.trimmed = p) (hcheck : checkPath p = .ok ())
  (hq : p.parent? = some q) (habove : Path.OneAbove q p s)

include hd hp htrim hcheck hq habove

/-- Where the last name is in the way, all directories above it are made. -/
theorem makeDirs_of_stuck_last (h : Stuck d.root p.inner q.inner n []) :
    ∃ d', makeDirs p d = (.error (stuckFault d.root q.inner n []), d') ∧
      Laid (stations [] q.inner) d d' := by
  have hinner := h.split
  have hqcheck := checkPath_of_isPrefix habove.text (text_ne_nil habove.isAbsolute) hcheck
  have hfault : stuckFault d.root q.inner n [] =
      if maxName < n.byteSize then .nameTooLong else .exists := by simp [stuckFault]
  have hplace : placeFrom [] q.inner ++ [n] = p.place := by
    rw [Path.place_of_isAbsolute hp, hinner, Path.placeFrom_append]
    rfl
  have hstuck := h.stuck
  rw [hplace] at hstuck
  rw [hfault]
  rcases leads_or_missing hd habove.isAbsolute hqcheck h.pass with ⟨hleads, -⟩ | ⟨-, hwalk⟩
  · obtain ⟨hmake, hdir⟩ := makeDir_of_stuck_here hd hp hcheck htrim hq hleads hinner hstuck
    refine ⟨d, ?_, Laid.refl hd _⟩
    exact makeDirs_of_makeDir_error hp hq habove.length hmake (by split <;> simp) hdir
  · obtain ⟨mid, hmid, hlaid, hdirs⟩ :=
      makeDirs_of_passable hd habove.isAbsolute habove.trimmed hqcheck h.pass
    have hleads := leads_of_dirs hlaid.plain habove.isAbsolute hqcheck hdirs h.pass.short
    obtain ⟨hmake, hdir⟩ := makeDir_of_stuck_here hlaid.plain hp hcheck htrim hq hleads hinner
      (hstuck.imp_right fun hloose hloose' => hloose (hloose'.of_laid hlaid))
    refine ⟨mid, ?_, hlaid⟩
    rw [makeDirs_of_missing hd hp htrim hcheck hq habove.length hwalk]
    simp [Change.andThen, hmid, makeEach, hmake, isThere, hdir]

/-- Where a name before the last is in the way and nothing is missing above it, nothing is made. -/
theorem makeDirs_of_stuck_before {pre post : List Step}
    (h : Stuck d.root p.inner pre n (post ++ [s]))
    (hdirs : ∀ x ∈ stations [] pre, d.root.kindAt x = some .dir) :
    makeDirs p d = (.error (stuckFault d.root pre n (post ++ [s])), d) := by
  have hway : ∀ t ∈ p.inner, t.IsWay := fun t ht => Path.isWay_of_mem_inner ht
  rw [h.split] at hway
  obtain ⟨hpre, hrest⟩ := List.forall_mem_append.1 hway
  obtain ⟨hpost, -⟩ := List.forall_mem_append.1 (List.forall_mem_cons.1 hrest).2
  have hpresent : ¬ ∃ x ∈ stations [] pre, d.root.kindAt x = none := by
    rintro ⟨x, hx, hnone⟩
    rw [hdirs x hx] at hnone
    cases hnone
  have hfault : stuckFault d.root pre n (post ++ [s]) =
      if maxName < n.byteSize then .nameTooLong else .notDirectory := by
    simp [stuckFault, hpresent]
  have hwalk : walk d.root d.cwd p.steps =
      .error (if maxName < n.byteSize then .nameTooLong else .notDirectory) := by
    have hinner := walk_inner (d := d) hp []
    obtain ⟨hfront, hdir⟩ :=
      walk_of_dirs hd.rooted hpre h.pass.short hdirs (.name n :: (post ++ [s]))
    rw [List.append_nil, List.append_nil, h.split, hfront] at hinner
    rw [hinner, walk_of_stuck hdir h.stuck habove.isWay hpost]
  obtain ⟨hmake, hdir⟩ := makeDir_of_walk_error hd hp htrim hcheck hq hwalk (by split <;> simp)
  rw [hfault]
  exact makeDirs_of_makeDir_error hp hq habove.length hmake (by split <;> simp) hdir

end

/-- Where something is in the way, directories are made up to there. -/
theorem makeDirs_of_stuck (hd : d.Plain) (hp : p.isAbsolute) (htrim : p.trimmed = p)
    (hcheck : checkPath p = .ok ()) {pre post : List Step}
    (h : Stuck d.root p.inner pre n post) :
    ∃ d', makeDirs p d = (.error (stuckFault d.root pre n post), d') ∧
      Laid (stations [] pre) d d' := by
  induction hk : p.inner.length generalizing p post with
  | zero =>
      have hsplit := h.split
      rw [List.length_eq_zero_iff.1 hk] at hsplit
      simp at hsplit
  | succ k ih =>
      obtain ⟨q, hq⟩ := Path.exists_parent_of_length hp hk
      obtain ⟨s, habove⟩ := Path.oneAbove_of_parent? hp htrim hq
      have hsplit := h.split
      rw [habove.inner] at hsplit
      rcases List.eq_nil_or_concat' post with rfl | ⟨post, t, rfl⟩
      · obtain rfl : pre = q.inner := (List.append_inj' hsplit rfl).1.symm
        exact makeDirs_of_stuck_last hd hp htrim hcheck hq habove h
      · rw [← List.cons_append, ← List.append_assoc] at hsplit
        obtain ⟨hinner, hlast⟩ := List.append_inj' hsplit rfl
        obtain rfl : s = t := by simpa using hlast
        by_cases hmissing : ∃ x ∈ stations [] pre, d.root.kindAt x = none
        · -- what is in the way is met by the making of the directories above
          have hway : ∀ t ∈ pre, t.IsWay := fun t ht =>
            Path.isWay_of_mem_inner (p := q) (by rw [hinner]; simp [ht])
          have hwalk : ∀ rest, walk d.root d.cwd (q.steps ++ rest) = .error .notFound := by
            intro rest
            rw [walk_inner habove.isAbsolute, hinner, List.append_assoc]
            exact walk_of_missing hd.rooted hway h.pass hmissing _
          have hqcheck := checkPath_of_isPrefix habove.text (text_ne_nil habove.isAbsolute) hcheck
          obtain ⟨d', hmade, hlaid⟩ := ih habove.isAbsolute habove.trimmed hqcheck
            ⟨hinner, h.pass, h.stuck⟩ (by have := habove.length; omega)
          refine ⟨d', ?_, hlaid⟩
          have hfault : stuckFault d.root pre n (post ++ [s]) = stuckFault d.root pre n post := by
            simp [stuckFault, hmissing]
          rw [makeDirs_of_missing hd hp htrim hcheck hq habove.length hwalk]
          simp only [Change.andThen, hmade, hfault]
        · refine ⟨d, ?_, Laid.refl hd _⟩
          exact makeDirs_of_stuck_before hd hp htrim hcheck hq habove h fun x hx =>
            (h.pass.loose x hx).resolve_left fun hnone => hmissing ⟨x, hx, hnone⟩

/-! What can be said of a way before it is made. -/

/-- All that is above the end of a passable way is loose. -/
theorem Passable.clear (h : Passable root [] steps) (hroot : root.kindAt [] = some .dir)
    (hway : ∀ s ∈ steps, s.IsWay) : Clear root (placeFrom [] steps) := by
  induction steps using List.reverseRecOn with
  | nil =>
      intro pre hpre
      rw [List.prefix_nil.1 hpre]
      exact Or.inr hroot
  | append_singleton steps s ih =>
      have hfront := ih h.front fun t ht => hway t (List.mem_append_left _ ht)
      intro pre hpre
      have hend : placeFrom [] (steps ++ [s]) = descend (placeFrom [] steps) s := by
        rw [Path.placeFrom_append]
        rfl
      rcases hway s (by simp) with rfl | ⟨n, _, rfl⟩
      · rw [hend] at hpre
        exact hfront pre (hpre.trans (List.dropLast_prefix _))
      · by_cases heq : pre = placeFrom [] (steps ++ [.name n])
        · exact h.loose pre (by rw [stations_concat, heq]; simp)
        · rw [hend] at hpre heq
          exact hfront pre ((List.prefix_concat_iff.1 hpre).resolve_left heq)

/-- Either nothing is in the way, or there is a first thing that is. -/
theorem passable_or_stuck (hroot : root.kindAt [] = some .dir) (hway : ∀ s ∈ steps, s.IsWay) :
    Passable root [] steps ∨ ∃ pre n post, Stuck root steps pre n post := by
  induction steps using List.reverseRecOn with
  | nil => exact Or.inl ⟨by simp [stations], by simp⟩
  | append_singleton steps s ih =>
      have hway' : ∀ t ∈ steps, t.IsWay := fun t ht => hway t (List.mem_append_left _ ht)
      rcases ih hway' with hpass | ⟨pre, n, post, h⟩
      · have hlater : Loose root (descend (placeFrom [] steps) s) →
            (∀ n, s = .name n → n.byteSize ≤ maxName) → Passable root [] (steps ++ [s]) := by
          refine fun hloose hshort => ⟨fun q hq => ?_, fun n hn => ?_⟩
          · rw [stations_concat, Path.placeFrom_append] at hq
            rcases List.mem_append.1 hq with hq | hq
            · exact hpass.loose q hq
            · rw [List.mem_singleton.1 hq]
              exact hloose
          · rcases List.mem_append.1 hn with hn | hn
            · exact hpass.short n hn
            · exact hshort n (List.mem_singleton.1 hn).symm
        rcases hway s (by simp) with rfl | ⟨n, _, rfl⟩
        · refine Or.inl (hlater ?_ (by simp))
          exact hpass.clear hroot hway' _ (List.dropLast_prefix _)
        · by_cases hstuck : maxName < n.byteSize ∨ ¬ Loose root (placeFrom [] steps ++ [n])
          · exact Or.inr ⟨steps, n, [], rfl, hpass, hstuck⟩
          · rw [not_or, not_not] at hstuck
            refine Or.inl (hlater hstuck.2 ?_)
            rintro _ ⟨⟩
            exact Nat.not_lt.1 hstuck.1
      · exact Or.inr ⟨pre, n, post ++ [s], by rw [h.split]; simp, h.pass, h.stuck⟩

/-- Whether directories can be made along a way is told by what is loose on it. -/
theorem Passable.congr {root' : Node} (h : Passable root place steps)
    (hloose : ∀ q ∈ stations place steps, Loose root q → Loose root' q) :
    Passable root' place steps := ⟨fun q hq => hloose q hq (h.loose q hq), h.short⟩

theorem Stuck.station {pre post : List Step} (h : Stuck root steps pre n post) :
    placeFrom [] pre ++ [n] ∈ stations [] steps ∧ ∀ q ∈ stations [] pre, q ∈ stations [] steps := by
  rw [h.split, stations_append]
  exact ⟨List.mem_append_right _ List.mem_cons_self, fun q hq => List.mem_append_left _ hq⟩

theorem Stuck.congr {root' : Node} {pre post : List Step} (h : Stuck root steps pre n post)
    (hloose : ∀ q ∈ stations [] steps, Loose root q ↔ Loose root' q) :
    Stuck root' steps pre n post := by
  obtain ⟨hlast, hpre⟩ := h.station
  exact ⟨h.split, h.pass.congr fun q hq => (hloose q (hpre q hq)).1,
    h.stuck.imp_right fun hstuck hloose' => hstuck ((hloose _ hlast).2 hloose')⟩

/-- No directory is made under a path that is no good. -/
theorem makeDirs_of_check_error (hp : p.isAbsolute) (htrim : p.trimmed = p) {f : Fault}
    (hcheck : checkPath p = .error f) (d : Disk) : makeDirs p d = (.error f, d) := by
  cases hq : p.parent? with
  | none =>
      have hroot : p = ⟨['/']⟩ := by
        have hinner := (Path.parent?_eq_none_iff hp).1 hq
        have hkept : Path.kept p.fields = [] := by
          by_contra hne
          obtain ⟨g, hg, hidle⟩ := Path.exists_of_kept_ne_nil hne
          have hnone := List.filterMap_eq_nil_iff.1 hinner g (by
            obtain ⟨idle, hsplit, _⟩ := Path.kept_append_idle p.fields
            rw [hsplit]
            exact List.mem_append_left _ hg)
          unfold Step.ofField? at hnone
          rw [Path.isIdle_iff] at hidle
          rw [if_neg hidle] at hnone
          split at hnone <;> cases hnone
        rw [← htrim, Path.trimmed, Path.cleared, hkept]
      rw [hroot] at hcheck
      cases hcheck
  | some q =>
      obtain ⟨s, habove⟩ := Path.oneAbove_of_parent? hp htrim hq
      have hmake : d.makeDir p = .error f := by
        unfold makeDir
        rw [hcheck]
        rfl
      have hne : f ≠ .notFound := by
        rintro rfl
        unfold checkPath at hcheck
        split at hcheck
        · cases hcheck
        · split at hcheck
          · next hnil => exact text_ne_nil hp hnil
          · split at hcheck <;> cases hcheck
      have hdir : d.isDir p = false := by
        have hthere := isThere_of_error (d := d) hcheck .exists
        simpa [isThere] using hthere
      exact makeDirs_of_makeDir_error hp hq habove.length hmake hne hdir

/-! Below another path. -/

theorem mem_stations_names {names : List Text} :
    x ∈ stations place (names.map .name) ↔ ∃ pre, pre ≠ [] ∧ pre <+: names ∧ x = place ++ pre := by
  induction names generalizing place with
  | nil => simp [stations]
  | cons n names ih =>
      rw [List.map_cons, stations, List.mem_cons, ih]
      constructor
      · rintro (rfl | ⟨pre, hne, hpre, rfl⟩)
        · exact ⟨[n], by simp, by simp, rfl⟩
        · exact ⟨n :: pre, by simp, by simpa using hpre, by simp [descend]⟩
      · rintro ⟨pre, hne, hpre, rfl⟩
        obtain ⟨m, pre, rfl⟩ := List.exists_cons_of_ne_nil hne
        obtain ⟨rfl, hrest⟩ := List.cons_prefix_cons.1 hpre
        by_cases hnil : pre = []
        · exact Or.inl (by rw [hnil]; rfl)
        · exact Or.inr ⟨pre, hnil, hrest, by simp [descend]⟩

section

variable {base : Path} {names : List Text}

theorem inner_trimmed_below (hbase : base.isAbsolute) (hnames : ∀ m ∈ names, Ordinary m) :
    (names.foldl Path.child base).trimmed.inner = base.inner ++ names.map .name := by
  have habs := Path.isAbsolute_foldl_child hbase names
  have hsteps := Path.steps_trimmed habs
  rw [Path.steps_of_isAbsolute habs,
    Path.steps_of_isAbsolute (Path.isAbsolute_trimmed habs)] at hsteps
  rw [(List.cons.inj hsteps).2, Path.inner_foldl_child hnames]

theorem mem_stations_below (hbase : base.isAbsolute) (hnames : ∀ m ∈ names, Ordinary m) :
    x ∈ stations [] (names.foldl Path.child base).trimmed.inner ↔
      x ∈ stations [] base.inner ∨ ∃ pre, pre ≠ [] ∧ pre <+: names ∧ x = base.place ++ pre := by
  rw [inner_trimmed_below hbase hnames, stations_append, List.mem_append, mem_stations_names,
    ← Path.place_of_isAbsolute hbase]

/-- Where something is in the way below another path, directories come only on the way of that
path. -/
theorem makeDirs_below_of_stuck (hd : d.Plain) (hbase : base.isAbsolute)
    (hnames : ∀ m ∈ names, IsName m)
    (hcheck : checkPath (names.foldl Path.child base).trimmed = .ok ()) {pre post : List Step}
    (h : Stuck d.root (names.foldl Path.child base).trimmed.inner pre n post) :
    ∃ d', makeDirs (names.foldl Path.child base).trimmed d =
        (.error (stuckFault d.root pre n post), d') ∧
      Laid (stations [] base.inner) d d' := by
  have habs := Path.isAbsolute_foldl_child hbase names
  have hordinary : ∀ m ∈ names, Ordinary m := fun m hm => (hnames m hm).toOrdinary
  obtain ⟨d', hmade, hlaid⟩ := makeDirs_of_stuck hd (Path.isAbsolute_trimmed habs)
    (Path.trimmed_trimmed _) hcheck h
  refine ⟨d', hmade, hlaid.toFurnished, fun q hq => ?_⟩
  by_cases hmem : q ∈ stations [] pre
  · have hsplit := h.split
    rw [inner_trimmed_below hbase hordinary] at hsplit
    rcases List.append_eq_append_iff.1 hsplit with ⟨mid, rfl, hnames'⟩ | ⟨mid, hinner, -⟩
    · -- what is in the way is there, so above it are directories
      obtain ⟨front, tail, rfl, rfl, htail⟩ := List.map_eq_append_iff.1 hnames'
      obtain ⟨m, rest, rfl, hm, -⟩ := List.map_eq_cons_iff.1 htail
      obtain rfl : m = n := Path.Step.name.inj hm
      have hstuck := h.stuck
      rw [Path.placeFrom_append, ← Path.place_of_isAbsolute hbase, Path.placeFrom_names] at hstuck
      have hloose := hstuck.resolve_left (Nat.not_lt.2 (hnames m (by simp)).short)
      rw [stations_append, List.mem_append, ← Path.place_of_isAbsolute hbase] at hmem
      obtain ⟨pre, -, ⟨more, rfl⟩, rfl⟩ := mem_stations_names.1 (hmem.resolve_left hq)
      have hdir : d.root.kindAt (base.place ++ pre) = some .dir := by
        cases hkind : d.root.kindAt (base.place ++ (pre ++ more) ++ [m]) with
        | none => exact absurd (Or.inl hkind) hloose
        | some k =>
            obtain ⟨c, cs, hcs⟩ := List.exists_cons_of_ne_nil (l := more ++ [m]) (by simp)
            have hsome : (d.root.kindAt (base.place ++ pre ++ c :: cs)).isSome := by
              rw [← hcs]
              simp only [List.append_assoc] at hkind ⊢
              rw [hkind]
              rfl
            exact Node.kindAt_of_append hsome
      rcases hlaid.seen (base.place ++ pre) with hsame | ⟨hnone, -⟩
      · exact hsame
      · rw [Node.seen_dir_iff.2 hdir] at hnone
        cases hnone
    · refine absurd ?_ hq
      rw [hinner, stations_append]
      exact List.mem_append_left _ hmem
  · exact hlaid.frame q hmem

end

end Disk

end Quire
