import Quire.Proofs.Disk.Preorder
import Quire.Proofs.Text.Encoding
import Quire.Route.Scan

/-!
The stack of layouts that a scan carries, and the rule that it comes to. The layouts on the stack
belong to directories strictly above the one that is entered, so none of them is taken for its own;
what is pushed on the way down is gone on the way up. Main statement: a visit adds the routes of the
directories at and below a node, each with the layout of that very directory, and leaves the stack as
it found it.
-/

namespace Quire.Route.Scan

open Disk (Node Place)

variable {s : Scan} {st : State} {dir : Path} {name page layout : Text} {places : List Place}

/-! The rule. -/

variable (s) in
/-- The reference of a file, if it is there. -/
def reference? (dir : Path) (marker : Text) : Option Text :=
  if s.disk.isFile (dir.child marker) then some (s.reference dir marker) else none

variable (s) in
/-- The route of a directory, if it holds a page: its layout is the one that it holds itself. -/
def routeAt (dir : Path) (segments : List Text) : Option Route :=
  (s.reference? dir s.markers.page).map fun page =>
    ⟨address segments, page, s.reference? dir s.markers.layout⟩

variable (s) in
/-- The routes of the directories at the given places below one. -/
def routesAt (dir : Path) (segments : List Text) (places : List Place) : List Route :=
  places.filterMap fun names => s.routeAt (names.foldl Path.child dir) (segments ++ names)

variable (s) in
/-- The first of the directories at the given places below one that cannot be listed. -/
def unlistedAt? (dir : Path) (places : List Place) : Option (Path × Disk.Fault) :=
  places.findSome? fun names => s.unlisted? (names.foldl Path.child dir)

namespace State

/-- The state with some routes more. -/
def addRoutes (st : State) (routes : List Route) : State :=
  { st with routes := st.routes ++ routes.toArray }

/-- The layouts that a scan carries were bound above the directory that it is in. -/
def IsOuter (st : State) : Prop := ∀ bound ∈ st.layouts, bound.1 < st.depth

/-- The layouts that a scan carries were bound in the directory that it is in, or above it. -/
def IsOnTop (st : State) : Prop := ∀ bound ∈ st.layouts, bound.1 ≤ st.depth

theorem isOuter_start : start.IsOuter := by simp [IsOuter, start]

theorem IsOuter.isOnTop (h : st.IsOuter) : st.IsOnTop := fun bound hbound =>
  Nat.le_of_lt (h bound hbound)

theorem isOnTop_pushLayout (h : st.IsOuter) : (st.pushLayout layout).IsOnTop := by
  intro bound hbound
  rcases Array.mem_push.1 hbound with hbound | rfl
  · exact Nat.le_of_lt (h bound hbound)
  · exact Nat.le_refl _

/-- All layouts on the stack are outer ones for a directory further down. -/
theorem IsOnTop.isOuter_enter (h : st.IsOnTop) (name : Text) : (st.enter name).IsOuter := by
  intro bound hbound
  have hdepth : (st.enter name).depth = st.depth + 1 := Array.size_push _
  rw [hdepth]
  exact Nat.lt_succ_of_le (h bound hbound)

theorem leave_enter : (st.enter name).leave = st := by
  rw [leave, enter, Array.pop_push]

/-- A layout that was bound further up is not taken. -/
theorem IsOuter.layoutAt (h : st.IsOuter) : st.layoutAt st.depth = none := by
  cases hback : st.layouts.back? with
  | none =>
      rw [State.layoutAt, hback]
      rfl
  | some bound =>
      have hlt := h bound (Array.mem_of_back? hback)
      simp [State.layoutAt, hback, Option.filter, Nat.ne_of_lt hlt]

theorem layoutAt_pushLayout :
    (st.pushLayout layout).layoutAt (st.pushLayout layout).depth = some layout := by
  simp [layoutAt, pushLayout, depth]

end State

/-! A visit, told by the places of the directories. -/

variable (s) in
/-- What a visit of the directories at some places comes to: the first of them that cannot be
listed, or their routes. -/
def told (dir : Path) (places : List Place) (st : State) : Except (Path × Disk.Fault) State :=
  match s.unlistedAt? dir places with
  | some unlisted => .error unlisted
  | none => .ok (st.addRoutes (s.routesAt dir st.segments.toList places))

theorem told_cases (dir : Path) (places : List Place) (st : State) :
    (∃ unlisted, s.told dir places st = .error unlisted) ∨
      ∃ found, s.told dir places st = .ok (st.addRoutes found) := by
  rw [told]
  cases s.unlistedAt? dir places with
  | some unlisted => exact .inl ⟨unlisted, rfl⟩
  | none => exact .inr ⟨_, rfl⟩

theorem told_nil : s.told dir [] st = .ok st := by
  simp [told, unlistedAt?, routesAt, State.addRoutes]

theorem told_append (places later : List Place) :
    s.told dir (places ++ later) st = (s.told dir places st).bind (s.told dir later) := by
  have hunlisted : s.unlistedAt? dir (places ++ later) =
      (s.unlistedAt? dir places).or (s.unlistedAt? dir later) := List.findSome?_append
  have hroutes : st.addRoutes (s.routesAt dir st.segments.toList (places ++ later)) =
      (st.addRoutes (s.routesAt dir st.segments.toList places)).addRoutes
        (s.routesAt dir st.segments.toList later) := by
    simp [State.addRoutes, routesAt]
  rw [told, told, hunlisted]
  cases s.unlistedAt? dir places with
  | some unlisted => rfl
  | none =>
      rw [hroutes]
      rfl

/-- The places below a child are told from the child. -/
theorem told_map_cons : s.told dir (places.map (name :: ·)) st =
    (s.told (dir.child name) places (st.enter name)).map State.leave := by
  have hunlisted : s.unlistedAt? dir (places.map (name :: ·)) =
      s.unlistedAt? (dir.child name) places := by
    simp [unlistedAt?, List.findSome?_map, Function.comp_def]
  have hroutes : s.routesAt dir st.segments.toList (places.map (name :: ·)) =
      s.routesAt (dir.child name) (st.enter name).segments.toList places := by
    simp [routesAt, State.enter, List.filterMap_map, Function.comp_def]
  rw [told, told, hunlisted, hroutes]
  cases s.unlistedAt? (dir.child name) places with
  | some unlisted => rfl
  | none => simp [Except.map, State.addRoutes, State.leave, State.enter]

/-- The stack is no part of what is told. -/
theorem map_told_popLayout (st : State) :
    (s.told dir places (st.pushLayout layout)).map State.popLayout = s.told dir places st := by
  have hsegments : (st.pushLayout layout).segments = st.segments := rfl
  rw [told, told, hsegments]
  cases s.unlistedAt? dir places with
  | some unlisted => rfl
  | none => simp [Except.map, State.addRoutes, State.popLayout, State.pushLayout]

/-- A directory is told with its own route first. -/
theorem told_cons_nil : s.told dir ([] :: places) st =
    match s.unlisted? dir with
    | some unlisted => .error unlisted
    | none => s.told dir places (st.addRoutes (s.routeAt dir st.segments.toList).toList) := by
  have hfirst : s.told dir [[]] st =
      match s.unlisted? dir with
      | some unlisted => .error unlisted
      | none => .ok (st.addRoutes (s.routeAt dir st.segments.toList).toList) := by
    have hroute : s.routesAt dir st.segments.toList [[]] =
        (s.routeAt dir st.segments.toList).toList := by
      cases hroute : s.routeAt dir st.segments.toList <;> simp [routesAt, hroute]
    rw [told, hroute, unlistedAt?, List.findSome?_singleton, List.foldl_nil]
  rw [← List.singleton_append, told_append, hfirst]
  cases s.unlisted? dir <;> rfl

/-! The stack. -/

variable (s) in
/-- The state in which a directory is left alone with its children: its layout is on the stack and
its route is found. -/
def seen (dir : Path) (st : State) : State :=
  let st := if s.disk.isFile (dir.child s.markers.layout) then
    st.pushLayout (s.reference dir s.markers.layout) else st
  if s.disk.isFile (dir.child s.markers.page) then
    st.addRoute (s.reference dir s.markers.page) else st

/-- Entered with outer layouts on the stack, a directory gets the route of the rule, and none but its
own layout is pushed. -/
theorem seen_of_isOuter (h : st.IsOuter) :
    s.seen dir st =
      (if s.disk.isFile (dir.child s.markers.layout) then
        st.pushLayout (s.reference dir s.markers.layout) else st).addRoutes
          (s.routeAt dir st.segments.toList).toList := by
  have hadd : ∀ (st : State) (page : Text), st.addRoute page =
      st.addRoutes [⟨address st.segments.toList, page, st.layoutAt st.depth⟩] := by
    intro st page
    simp [State.addRoute, State.addRoutes]
  have hnone : ∀ st : State, st.addRoutes [] = st := fun st => by simp [State.addRoutes]
  by_cases hpage : s.disk.isFile (dir.child s.markers.page)
  · by_cases hlayout : s.disk.isFile (dir.child s.markers.layout)
    · simp only [seen, routeAt, reference?, hpage, hlayout, if_true, Option.map_some,
        Option.toList_some, hadd, State.layoutAt_pushLayout]
      rfl
    · simp only [seen, routeAt, reference?, hpage, hlayout, if_true, Option.map_some,
        Option.toList_some, hadd, h.layoutAt, Bool.false_eq_true, if_false]
  · simp [seen, routeAt, reference?, hpage, hnone]

theorem isOnTop_seen (h : st.IsOuter) : (s.seen dir st).IsOnTop := by
  rw [seen_of_isOuter h]
  split
  · exact State.isOnTop_pushLayout h
  · exact h.isOnTop

mutual

/-- A visit finds what the directories at and below a node come to by the rule, and takes from the
stack what it has put there. -/
theorem visit_eq : ∀ (n : Node) (dir : Path) (st : State), st.IsOuter →
    s.visit dir n st = s.told dir n.dirs st
  | .file _, dir, st, _ => by rw [visit, Node.dirs, told_nil]
  | .link _, dir, st, _ => by rw [visit, Node.dirs, told_nil]
  | .sink, dir, st, _ => by rw [visit, Node.dirs, told_nil]
  | .dir children, dir, st, h => by
    have hbelow := visitBelow_eq children dir (s.seen dir st) (isOnTop_seen h)
    have hvisit : s.visit dir (.dir children) st =
        match s.unlisted? dir with
        | some unlisted => .error unlisted
        | none => (s.visitBelow dir children (s.seen dir st)).map fun st =>
            if s.disk.isFile (dir.child s.markers.layout) then st.popLayout else st := by
      rw [visit]
      rfl
    rw [hvisit, Node.dirs, told_cons_nil, hbelow, seen_of_isOuter h]
    cases s.unlisted? dir with
    | some unlisted => rfl
    | none =>
        by_cases hlayout : s.disk.isFile (dir.child s.markers.layout)
        · simp only [hlayout, if_true]
          exact map_told_popLayout (st.addRoutes _)
        · simp only [hlayout, Bool.false_eq_true, if_false]
          cases s.told dir (Node.dirsIn children) _ <;> rfl

theorem visitBelow_eq : ∀ (children : List (Text × Node)) (dir : Path) (st : State), st.IsOnTop →
    s.visitBelow dir children st = s.told dir (Node.dirsIn children) st
  | [], dir, st, _ => by rw [visitBelow, Node.dirsIn, told_nil]
  | (name, n) :: rest, dir, st, h => by
    have hchild := visit_eq n (dir.child name) (st.enter name) (h.isOuter_enter name)
    have hrest : ∀ st' : State, st'.IsOnTop →
        s.visitBelow dir rest st' = s.told dir (Node.dirsIn rest) st' := visitBelow_eq rest dir
    rw [visitBelow, Node.dirsIn, told_append, told_map_cons, Text.shown_eq, hchild]
    by_cases hdir : n.kind = .dir
    · rw [if_pos hdir]
      rcases told_cases (s := s) (dir.child name) n.dirs (st.enter name) with ⟨u, hu⟩ | ⟨found, hu⟩
      · rw [hu]
        rfl
      · rw [hu]
        have hstack : ((st.enter name).addRoutes found).leave.IsOnTop := by
          have hleave : ((st.enter name).addRoutes found).leave = st.addRoutes found := by
            simp [State.leave, State.enter, State.addRoutes]
          rw [hleave]
          exact h
        exact hrest _ hstack
    · rw [if_neg hdir, Node.dirs_eq_nil hdir, told_nil, hrest st h]
      simp [Except.map, Except.bind, State.leave_enter]

end

/-- A visit gives back the stack and the names that it was given. -/
theorem balanced_visit {n : Node} {st' : State} (h : st.IsOuter) (hvisit : s.visit dir n st = .ok st') :
    st'.layouts = st.layouts ∧ st'.segments = st.segments := by
  rw [visit_eq n dir st h] at hvisit
  rcases told_cases (s := s) dir n.dirs st with ⟨unlisted, htold⟩ | ⟨found, htold⟩
  · rw [htold] at hvisit
    cases hvisit
  · rw [htold] at hvisit
    obtain rfl := Except.ok.inj hvisit
    exact ⟨rfl, rfl⟩

/-- A scan of a directory, told by the directories at and below it. -/
theorem run_of_node {pages : Path} {n : Node} (h : s.disk.node? pages = .ok n) :
    s.run pages =
      match n.dirs.findSome? fun names => s.unlisted? (names.foldl Path.child pages) with
      | some unlisted => .error unlisted
      | none => .ok (n.dirs.filterMap fun names => s.routeAt (names.foldl Path.child pages) names) := by
  have hvisit : (s.visit pages n .start).map (fun st => st.routes.toList) =
      match s.unlistedAt? pages n.dirs with
      | some unlisted => .error unlisted
      | none => .ok (s.routesAt pages [] n.dirs) := by
    rw [visit_eq n pages .start State.isOuter_start, told]
    cases s.unlistedAt? pages n.dirs with
    | some unlisted => rfl
    | none => simp [Except.map, State.addRoutes, State.start]
  rw [run, h]
  dsimp only
  rw [hvisit]
  by_cases hdir : n.kind = .dir
  · rw [if_pos hdir]
    rfl
  · rw [if_neg hdir, Node.dirs_eq_nil hdir]
    rfl

theorem run_of_nothing {pages : Path} {e : Disk.Fault} (h : s.disk.node? pages = .error e) :
    s.run pages = .ok [] := by
  rw [run, h]

end Quire.Route.Scan
