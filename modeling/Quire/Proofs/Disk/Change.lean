import Quire.Proofs.Disk.Walk
import Quire.Proofs.Path.Onward

/-!
What the operations on a plain disk do. Each is told by what is seen at the places of the tree before
and after: making directories adds empty ones and changes nothing else, and writing a file changes
what is seen at the one place that its path names.
-/

namespace Quire

namespace Text

theorem byteSize_append (a b : Text) : byteSize (a ++ b) = byteSize a + byteSize b := by
  induction a with
  | nil => simp [byteSize]
  | cons c a ih =>
      simp only [byteSize, List.cons_append, List.foldr_cons] at ih ⊢
      omega

theorem mem_of_mem_fields {sep c : Char} {t f : Text} (hf : f ∈ fields sep t) (hc : c ∈ f) :
    c ∈ t := by
  induction t generalizing f with
  | nil => simp_all [fields]
  | cons x t ih =>
      obtain ⟨g, gs, hfields, hcons⟩ := fields_cons sep x t
      rw [hfields] at ih
      rw [hcons] at hf
      split at hf
      · rcases List.mem_cons.1 hf with rfl | hf
        · cases hc
        · exact List.mem_cons_of_mem x (ih hf hc)
      · rcases List.mem_cons.1 hf with rfl | hf
        · rcases List.mem_cons.1 hc with rfl | hc
          · exact List.mem_cons_self
          · exact List.mem_cons_of_mem x (ih List.mem_cons_self hc)
        · exact List.mem_cons_of_mem x (ih (List.mem_cons_of_mem g hf) hc)

end Text

namespace Disk

open Quire.Path (Step placeFrom)

/-- A disk whose tree is plain and starts with a directory. -/
structure Plain (d : Disk) : Prop where
  tree : d.root.isPlain
  rooted : d.root.kindAt [] = some .dir

variable {d d' : Disk} {p : Path} {place q : Place} {n : Text} {new : Node}

theorem checkPath_ok_iff :
    checkPath p = .ok () ↔ '\x00' ∉ p.text ∧ p.text ≠ [] ∧ p.text.byteSize ≤ maxPath := by
  unfold checkPath
  split
  · next h => simp_all
  · next h =>
      split
      · next h' => simp [h']
      · next h' =>
          split
          · next hlong =>
              simp only [reduceCtorEq, false_iff, not_and, not_le]
              exact fun _ _ => hlong
          · next hshort =>
              simp only [true_iff]
              exact ⟨by simpa using h, h', by omega⟩

/-- What is written before the end of a good path is a good path itself. -/
theorem checkPath_of_isPrefix {above : Path} (hpre : above.text <+: p.text) (hne : above.text ≠ [])
    (h : checkPath p = .ok ()) : checkPath above = .ok () := by
  obtain ⟨hnul, _, hshort⟩ := checkPath_ok_iff.1 h
  obtain ⟨rest, hrest⟩ := hpre
  rw [← hrest, Text.byteSize_append] at hshort
  refine checkPath_ok_iff.2 ⟨fun hmem => hnul ?_, hne, by omega⟩
  rw [← hrest]
  exact List.mem_append_left rest hmem

theorem text_ne_nil (hp : p.isAbsolute) : p.text ≠ [] := by
  intro hnil
  simp [Path.isAbsolute, hnil] at hp

theorem reach_eq_walk (hd : d.Plain) (steps : List Step) :
    d.reach steps = walk d.root d.cwd steps := by
  rw [reach, follow_eq_walk hd.tree]
  cases walk d.root d.cwd steps <;> rfl

/-- The place that a path leads to when no link is in the way: a relative one from the working
directory. -/
def placeOf (d : Disk) (p : Path) : Place := placeFrom d.cwd p.steps

theorem placeOf_of_isAbsolute (hp : p.isAbsolute) (d : Disk) : d.placeOf p = p.place := by
  rw [placeOf, Path.place, Path.steps_of_isAbsolute hp]
  rfl

theorem placeOf_child (hn : Path.Ordinary n) (d : Disk) (p : Path) :
    d.placeOf (p.child n) = d.placeOf p ++ [n] := Path.placeFrom_steps_child hn d.cwd p

theorem placeFrom_stepsTo (p : Path) (start : Place) :
    placeFrom start (stepsTo p) = placeFrom start p.steps := by
  unfold stepsTo
  split
  · rw [Path.placeFrom_append]
    rfl
  · rfl

theorem place?_ok_iff (hd : d.Plain) :
    d.place? p = .ok place ↔ checkPath p = .ok () ∧ walk d.root d.cwd (stepsTo p) = .ok place := by
  rw [place?, reach_eq_walk hd]
  cases checkPath p with
  | error e => simp [bind, Except.bind]
  | ok u => simp [bind, Except.bind]

/-- A path that leads anywhere leads to its place. -/
theorem eq_placeOf_of_place? (hd : d.Plain) (h : d.place? p = .ok place) : place = d.placeOf p := by
  rw [eq_placeFrom_of_walk ((place?_ok_iff hd).1 h).2, placeFrom_stepsTo, placeOf]

theorem eq_place_of_place? (hd : d.Plain) (hp : p.isAbsolute) (h : d.place? p = .ok place) :
    place = p.place := by
  rw [eq_placeOf_of_place? hd h, placeOf_of_isAbsolute hp]

theorem node?_ok_iff {m : Node} :
    d.node? p = .ok m ↔ ∃ place, d.place? p = .ok place ∧ d.root.get? place = some m := by
  unfold node?
  cases d.place? p with
  | error e => simp [bind, Except.bind]
  | ok place =>
      simp only [bind, Except.bind, Except.ok.injEq, exists_eq_left']
      cases d.root.get? place <;> simp

/-- A file is read under any path that leads to it. -/
theorem read_of_bytesAt {bytes : ByteArray} (hplace : d.place? p = .ok place)
    (hbytes : d.root.bytesAt place = some bytes) : d.read p = .ok bytes := by
  rw [read, node?_ok_iff.2 ⟨place, hplace, Node.get?_of_bytesAt hbytes⟩]
  rfl

/-- What a path names is of a kind if it leads to a place where something of the kind stands. -/
theorem any_kind_iff {k : Kind} : (d.node? p).toOption.any (·.kind = k) ↔
    ∃ place, d.place? p = .ok place ∧ d.root.kindAt place = some k := by
  cases hnode : d.node? p with
  | error e =>
      simp only [Except.toOption, Option.any_none, Bool.false_eq_true, false_iff, not_exists, not_and]
      intro place hplace hkind
      obtain ⟨m, hget, _⟩ := Option.map_eq_some_iff.1 hkind
      rw [node?_ok_iff.2 ⟨place, hplace, hget⟩] at hnode
      cases hnode
  | ok m =>
      obtain ⟨place, hplace, hget⟩ := node?_ok_iff.1 hnode
      simp [Except.toOption, hplace, Node.kindAt, hget]

theorem isDir_iff : d.isDir p ↔ ∃ place, d.place? p = .ok place ∧ d.root.kindAt place = some .dir :=
  any_kind_iff

theorem isFile_iff :
    d.isFile p ↔ ∃ place, d.place? p = .ok place ∧ d.root.kindAt place = some .file :=
  any_kind_iff

theorem kindAt_of_isDir (hd : d.Plain) (hp : p.isAbsolute) (h : d.isDir p) :
    d.root.kindAt p.place = some .dir := by
  obtain ⟨place, hplace, hkind⟩ := isDir_iff.1 h
  rwa [eq_place_of_place? hd hp hplace] at hkind

theorem ofWhole_ok {whole : Disk → Except Fault Disk} (h : whole d = .ok d') :
    Change.ofWhole whole d = (.ok (), d') := by
  rw [Change.ofWhole, h]

theorem ofWhole_error {whole : Disk → Except Fault Disk} {e : Fault} (h : whole d = .error e) :
    Change.ofWhole whole d = (.error e, d) := by
  rw [Change.ofWhole, h]

/-- A path that ends in a name takes the step down to it last. -/
theorem steps_of_splitEnding {front : List Step} {slash : Bool}
    (h : splitEnding p = (front, .name n slash)) :
    p.steps = front ++ [.name n] ∧ Path.Ordinary n ∧ ∀ c ∈ n, c ∈ p.text := by
  unfold splitEnding at h
  split at h
  · cases h
  · cases h
  · cases h
  · next last rest hdot hdots hdrop =>
      simp only [Prod.mk.injEq, Ending.name.injEq] at h
      obtain ⟨rfl, rfl, _⟩ := h
      have hsplit := List.takeWhile_append_dropWhile (p := fun f : Text => decide (f = []))
        (l := p.fields.reverse)
      rw [hdrop] at hsplit
      have hfields : p.fields = rest.reverse ++ last ::
          (p.fields.reverse.takeWhile fun f => decide (f = [])).reverse := by
        have hrev := congrArg List.reverse hsplit
        simpa using hrev.symm
      have hblank : (p.fields.reverse.takeWhile fun f => decide (f = [])).reverse.filterMap
          Step.ofField? = [] := by
        rw [List.filterMap_eq_nil_iff]
        intro f hf
        have hnil := List.mem_takeWhile_imp (List.mem_reverse.1 hf)
        simp [Step.ofField?, of_decide_eq_true hnil]
      have hmem : last ∈ p.fields := by
        rw [hfields]
        simp
      have hne : last ≠ [] := by
        have hhead := List.head_dropWhile_not (fun f : Text => decide (f = []))
          (l := p.fields.reverse) (by rw [hdrop]; simp)
        simpa [hdrop] using hhead
      have hlast : Path.Ordinary last :=
        ⟨hne, Path.noSlash_of_mem_fields hmem, hdot, hdots⟩
      have hinner : p.inner = rest.reverse.filterMap Step.ofField? ++ [.name last] := by
        rw [Path.inner, hfields, List.filterMap_append, List.filterMap_cons, hlast.ofField?, hblank]
      obtain ⟨lead, hlead⟩ := Path.exists_lead p
      refine ⟨?_, hlast, fun c hc => Text.mem_of_mem_fields hmem hc⟩
      rw [hlead, hinner, ← List.append_assoc, List.dropLast_concat]

/-- A path that ends in a name and in no slash may lead to any node. -/
theorem demandsDir_of_splitEnding {front : List Step} (h : splitEnding p = (front, .name n false)) :
    demandsDir p = false := by
  unfold splitEnding at h
  split at h
  · cases h
  · cases h
  · cases h
  · next last rest hdot _ hdrop =>
      simp only [Prod.mk.injEq, Ending.name.injEq, decide_eq_false_iff_not] at h
      obtain ⟨_, rfl, hslash⟩ := h
      obtain ⟨front, f, hfields⟩ :=
        (List.eq_nil_or_concat' p.fields).resolve_left (Text.fields_ne_nil '/' p.text)
      rw [hfields, List.reverse_append, List.reverse_singleton, List.singleton_append] at hdrop
      have hne : f ≠ [] := by
        rintro rfl
        apply hslash
        have htext := Text.intercalate_fields '/' p.text
        have hfields' : p.text.fields '/' = front ++ [[]] := hfields
        have hfront : front ≠ [] := by
          rintro rfl
          simp at hdrop
        rw [hfields', Text.intercalate_append hfront] at htext
        rw [← htext]
        simp
      rw [List.dropWhile_cons_of_neg (by simpa using hne)] at hdrop
      have hlast : f ≠ ['.'] := (List.cons.inj hdrop).1 ▸ hdot
      simp [demandsDir, hfields, Path.isIdle, hne, hlast]

theorem stepsTo_of_splitEnding {front : List Step} (h : splitEnding p = (front, .name n false)) :
    stepsTo p = front ++ [.name n] := by
  rw [stepsTo, demandsDir_of_splitEnding h, ← (steps_of_splitEnding h).1]
  rfl

theorem splitEnding_child (hp : p.isAbsolute) (hn : Path.Ordinary n) :
    splitEnding (p.child n) = (p.steps, .name n false) := by
  obtain ⟨a, _, hchild⟩ := Path.exists_text_child hp
  have htext := hchild n hn.noSlash
  have hsteps : (p.child n).steps.dropLast = p.steps := by
    rw [Path.steps_of_isAbsolute (Path.isAbsolute_child hp n), Path.inner_child hn,
      Path.steps_of_isAbsolute hp, ← List.cons_append, List.dropLast_concat]
  have hslash : (p.child n).text.getLast? ≠ some '/' := by
    rw [htext, List.getLast?_append_of_ne_nil _ (by simp), List.getLast?_cons_of_ne_nil hn.ne_nil]
    exact fun h => hn.noSlash (List.mem_of_mem_getLast? h)
  unfold splitEnding
  rw [Path.fields_of_text htext hn.noSlash, List.reverse_append, List.reverse_singleton,
    List.singleton_append, List.dropWhile_cons_of_neg (by simpa using hn.ne_nil)]
  split
  · next h => cases h
  · next h => exact absurd (List.cons.inj h).1 hn.ne_dot
  · next h => exact absurd (List.cons.inj h).1 hn.ne_dots
  · next last rest _ _ h =>
      obtain ⟨rfl, _⟩ := List.cons.inj h
      rw [hsteps]
      simp [hslash]

/-- A place under a name for a file in a directory that is there. -/
structure Roomy (root : Node) (above : Place) (n : Text) : Prop where
  dir : root.kindAt above = some .dir
  isName : IsName n

theorem get?_of_bare (hnew : new.bare = new) (k : Text) (rest : Place) :
    new.get? (k :: rest) = none := by
  cases new with
  | dir children =>
      obtain rfl : [] = children := Node.dir.inj hnew
      rfl
  | file _ => rfl
  | link _ => rfl
  | sink => rfl

/-- Where no directory was, putting a node changes what is seen at its place only. -/
theorem seen_put {above : Place} (hroom : Roomy d.root above n)
    (hfree : d.root.kindAt (above ++ [n]) ≠ some .dir) (hnew : new.bare = new) (q : Place) :
    (d.put (above ++ [n]) (some new)).root.seen q =
      if q = above ++ [n] then some new else d.root.seen q := by
  obtain ⟨children, hget⟩ := Node.kindAt_dir_iff.1 hroom.dir
  rw [put, Node.seen_set hget]
  by_cases hpre : above ++ [n] <+: q
  · obtain ⟨rest, rfl⟩ := hpre
    have hdrop : (above ++ [n] ++ rest).drop (above.length + 1) = rest :=
      List.drop_left' (by simp)
    rw [if_pos (List.prefix_append _ _), hdrop]
    cases rest with
    | nil => simp [Node.seen, hnew]
    | cons k rest =>
        have hnone : d.root.seen (above ++ [n] ++ k :: rest) = none := by
          by_contra hsome
          refine hfree (?_ : d.root.kindAt (above ++ [n]) = some .dir)
          refine Node.kindAt_of_append (?_ : (d.root.kindAt (above ++ [n] ++ k :: rest)).isSome)
          rw [Node.kindAt_eq_seen]
          simpa [Option.isSome_iff_ne_none] using hsome
        rw [if_neg (by simp), hnone, Node.seen, get?_of_bare hnew]
        rfl
  · have hne : q ≠ above ++ [n] := by
      rintro rfl
      exact hpre (List.prefix_refl _)
    rw [if_neg hpre, if_neg hne]

theorem Plain.put {above : Place} (hd : d.Plain) (hroom : Roomy d.root above n)
    (hnew : new.isPlain) : (d.put (above ++ [n]) (some new)).Plain := by
  obtain ⟨children, hget⟩ := Node.kindAt_dir_iff.1 hroom.dir
  refine ⟨Node.isPlain_set hd.tree hnew hroom.isName hget, ?_⟩
  have hseen : (d.put (above ++ [n]) (some new)).root.seen [] = d.root.seen [] := by
    rw [Disk.put, Node.seen_set hget, if_neg (by simp)]
  rw [← hd.rooted]
  exact Node.kindAt_congr hseen

/-- A step down to a name: the directory above it and what stands under the name. -/
theorem placeOf_of_reach (hd : d.Plain) {front : List Step} {slash : Bool} {above : Place}
    (h : splitEnding p = (front, .name n slash)) (hreach : d.reach front = .ok above) :
    d.placeOf p = above ++ [n] := by
  obtain ⟨hsteps, _, _⟩ := steps_of_splitEnding h
  rw [reach_eq_walk hd] at hreach
  rw [placeOf, hsteps, Path.placeFrom_append, ← eq_placeFrom_of_walk hreach]
  rfl

theorem reach_front (hd : d.Plain) (hp : p.isAbsolute) {front : List Step} {slash : Bool}
    {above : Place} (h : splitEnding p = (front, .name n slash)) (hreach : d.reach front = .ok above) :
    p.place = above ++ [n] := by
  rw [← placeOf_of_isAbsolute hp d, placeOf_of_reach hd h hreach]

/-- A directory is made under a name that was free. -/
theorem makeDir_ok (hd : d.Plain) (h : d.makeDir p = .ok d') :
    ∃ front above n, p.steps = front ++ [.name n] ∧ walk d.root d.cwd front = .ok above ∧
      d.placeOf p = above ++ [n] ∧ Roomy d.root above n ∧ d.root.kindAt (above ++ [n]) = none ∧
      checkPath p = .ok () ∧ d' = d.put (above ++ [n]) (some (.dir [])) := by
  unfold makeDir at h
  cases hcheck : checkPath p with
  | error e =>
      rw [hcheck] at h
      cases h
  | ok u =>
      rw [hcheck] at h
      rcases hsplit : splitEnding p with ⟨front, ending⟩
      rw [hsplit] at h
      cases hreach : d.reach front with
      | error e => cases ending <;> simp [bind, Except.bind, hreach] at h
      | ok above =>
          cases ending with
          | here => simp [bind, Except.bind, hreach] at h
          | up => simp [bind, Except.bind, hreach] at h
          | root => simp [bind, Except.bind, hreach] at h
          | name n slash =>
              obtain ⟨hsteps, hordinary, hchars⟩ := steps_of_splitEnding hsplit
              simp only [bind, Except.bind, hreach] at h
              cases hchildren : childrenAt d.root above with
              | error e => simp [hchildren] at h
              | ok children =>
                  have hget := childrenAt_ok_iff.1 hchildren
                  simp only [hchildren] at h
                  cases hfound : lookUp n children with
                  | error e => simp [hfound] at h
                  | ok found =>
                      cases found with
                      | some m => simp [hfound] at h
                      | none =>
                          obtain ⟨hshort, hnone⟩ := lookUp_ok_iff.1 hfound
                          have hnul : '\x00' ∉ n := fun hmem =>
                            (checkPath_ok_iff.1 hcheck).1 (hchars _ hmem)
                          rw [hfound] at h
                          refine ⟨front, above, n, hsteps, (reach_eq_walk hd front) ▸ hreach,
                            placeOf_of_reach hd hsplit hreach, ⟨?_, hordinary, hnul, hshort⟩, ?_, rfl,
                            (Except.ok.inj h).symm⟩
                          · exact Node.kindAt_dir_iff.2 ⟨children, hget⟩
                          · rw [Node.kindAt, Node.get?_append_singleton hget, ← hnone]
                            rfl

/-- Empty directories came where nothing was, and nothing else changed. -/
structure Furnished (d d' : Disk) : Prop where
  plain : d'.Plain
  cwd : d'.cwd = d.cwd
  seen : ∀ q, d'.root.seen q = d.root.seen q ∨
    d.root.seen q = none ∧ d'.root.seen q = some (.dir [])

theorem Furnished.refl (hd : d.Plain) : Furnished d d := ⟨hd, rfl, fun _ => Or.inl rfl⟩

theorem Furnished.trans {d'' : Disk} (h : Furnished d d') (h' : Furnished d' d'') :
    Furnished d d'' := by
  refine ⟨h'.plain, h'.cwd.trans h.cwd, fun q => ?_⟩
  rcases h'.seen q with heq | ⟨hnone, hdir⟩
  · rw [heq]
    exact h.seen q
  · rcases h.seen q with heq | ⟨_, hdir'⟩
    · exact Or.inr ⟨heq ▸ hnone, hdir⟩
    · rw [hnone] at hdir'
      cases hdir'

theorem Furnished.bytesAt (h : Furnished d d') (q : Place) :
    d'.root.bytesAt q = d.root.bytesAt q := by
  rcases h.seen q with heq | ⟨hnone, hdir⟩
  · exact Node.bytesAt_congr heq
  · ext bytes
    rw [Node.bytesAt_eq_some_iff, Node.bytesAt_eq_some_iff, hnone, hdir]
    simp

theorem Furnished.kindAt {k : Kind} (h : Furnished d d') (hq : d.root.kindAt q = some k) :
    d'.root.kindAt q = some k := by
  rcases h.seen q with heq | ⟨hnone, _⟩
  · rwa [Node.kindAt_congr heq]
  · rw [Node.kindAt_eq_seen, hnone] at hq
    cases hq

theorem furnished_of_makeDir (hd : d.Plain) (h : d.makeDir p = .ok d') : Furnished d d' := by
  obtain ⟨_, above, n, _, _, _, hroom, hnone, _, rfl⟩ := makeDir_ok hd h
  refine ⟨hd.put hroom rfl, rfl, fun q => ?_⟩
  rw [seen_put hroom (by rw [hnone]; simp) rfl]
  by_cases hq : q = above ++ [n]
  · subst hq
    rw [if_pos rfl]
    have hseen : d.root.seen (above ++ [n]) = none := by
      rw [Node.kindAt_eq_seen] at hnone
      simpa using hnone
    exact Or.inr ⟨hseen, rfl⟩
  · rw [if_neg hq]
    exact Or.inl rfl

theorem furnished_of_makeNearest {ps passed missing : List Path} (hd : d.Plain)
    (h : d.makeNearest passed ps = .ok (missing, d')) : Furnished d d' := by
  induction ps generalizing passed with
  | nil =>
      obtain ⟨rfl, rfl⟩ := Prod.mk.inj (Except.ok.inj h)
      exact Furnished.refl hd
  | cons p ps ih =>
      rw [makeNearest] at h
      split at h
      · next after hmake =>
          obtain ⟨rfl, rfl⟩ := Prod.mk.inj (Except.ok.inj h)
          exact furnished_of_makeDir hd hmake
      · split at h
        · exact ih h
        · split at h
          · obtain ⟨rfl, rfl⟩ := Prod.mk.inj (Except.ok.inj h)
            exact Furnished.refl hd
          · cases h

theorem furnished_makeEach (ps : List Path) (hd : d.Plain) : Furnished d (makeEach ps d).2 := by
  induction ps generalizing d with
  | nil => exact Furnished.refl hd
  | cons p ps ih =>
      cases hmake : d.makeDir p with
      | ok after =>
          simp only [makeEach, hmake]
          have hfirst := furnished_of_makeDir hd hmake
          exact hfirst.trans (ih hfirst.plain)
      | error e =>
          simp only [makeEach, hmake]
          split
          · exact ih hd
          · exact Furnished.refl hd

/-- Whatever comes of it, making a directory and those above it adds directories only. -/
theorem Plain.furnished_makeDirs (hd : d.Plain) (p : Path) : Furnished d (makeDirs p d).2 := by
  unfold makeDirs
  split
  · next missing after hnearest =>
      have hfirst := furnished_of_makeNearest hd hnearest
      exact hfirst.trans (furnished_makeEach missing hfirst.plain)
  · exact Furnished.refl hd

theorem isAbsolute_of_mem_ancestry (hp : p.isAbsolute) : ∀ q ∈ p.ancestry, q.isAbsolute := by
  unfold Path.ancestry
  generalize p.steps.length = count
  induction count generalizing p with
  | zero => simp [Path.ancestry.climb]
  | succ count ih =>
      intro q hq
      rw [Path.ancestry.climb] at hq
      split at hq
      · cases hq
      · next above habove =>
          rcases List.mem_cons.1 hq with rfl | hq
          · exact hp
          · exact ih (Path.isAbsolute_of_parent? hp habove).1 q hq

theorem furnished_makeDirs (hd : d.Plain) (_ : p.isAbsolute) : Furnished d (makeDirs p d).2 :=
  hd.furnished_makeDirs p

/-- A path leads where it did as long as nothing on the way has gone. -/
theorem place?_mono (hd : d.Plain) (hd' : d'.Plain) (hcwd : d'.cwd = d.cwd)
    (hkinds : ∀ q k, d.root.kindAt q = some k → d'.root.kindAt q = some k)
    (h : d.place? p = .ok place) : d'.place? p = .ok place := by
  obtain ⟨hcheck, hwalk⟩ := (place?_ok_iff hd).1 h
  refine (place?_ok_iff hd').2 ⟨hcheck, ?_⟩
  rw [hcwd]
  exact walk_mono hkinds hwalk

theorem isDir_mono (hd : d.Plain) (hd' : d'.Plain) (hcwd : d'.cwd = d.cwd)
    (hkinds : ∀ q k, d.root.kindAt q = some k → d'.root.kindAt q = some k) (h : d.isDir p) :
    d'.isDir p := by
  obtain ⟨place, hplace, hkind⟩ := isDir_iff.1 h
  exact isDir_iff.2 ⟨place, place?_mono hd hd' hcwd hkinds hplace, hkinds place .dir hkind⟩

theorem Furnished.isDir (hd : d.Plain) (h : Furnished d d') (hdir : d.isDir p) : d'.isDir p :=
  isDir_mono hd h.plain h.cwd (fun _ _ => h.kindAt) hdir

theorem isDir_of_makeDir (hd : d.Plain) (h : d.makeDir p = .ok d') : d'.isDir p := by
  have hfurnished := furnished_of_makeDir hd h
  obtain ⟨front, above, n, hsteps, hwalk, _, hroom, hnone, hcheck, rfl⟩ := makeDir_ok hd h
  have hkind : (d.put (above ++ [n]) (some (.dir []))).root.kindAt (above ++ [n]) = some .dir := by
    apply Node.seen_dir_iff.1
    rw [seen_put hroom (by rw [hnone]; simp) rfl, if_pos rfl]
  have hfront := walk_mono (fun _ _ => hfurnished.kindAt) hwalk
  have hname : walk (d.put (above ++ [n]) (some (.dir []))).root d.cwd p.steps =
      .ok (above ++ [n]) := by
    rw [hsteps, walk_append, hfront]
    refine walk_name_ok_iff.2 ⟨hfurnished.kindAt hroom.dir, hroom.isName.short, ?_, rfl⟩
    rw [hkind]
    rfl
  refine isDir_iff.2 ⟨above ++ [n], (place?_ok_iff hfurnished.plain).2 ⟨hcheck, ?_⟩, hkind⟩
  rw [hfurnished.cwd]
  unfold stepsTo
  split
  · obtain ⟨children, hget⟩ := Node.kindAt_dir_iff.1 hkind
    rw [walk_append, hname]
    show walk _ (above ++ [n]) [.here] = _
    rw [walk, childrenAt_ok_iff.2 hget]
    rfl
  · exact hname

theorem isDir_of_makeEach {ps : List Path} (hd : d.Plain)
    (h : (makeEach ps d).1 = .ok ()) : ∀ p ∈ ps, (makeEach ps d).2.isDir p := by
  induction ps generalizing d with
  | nil => simp
  | cons p ps ih =>
      intro q hq
      cases hmake : d.makeDir p with
      | ok after =>
          have hafter := furnished_of_makeDir hd hmake
          simp only [makeEach, hmake] at h ⊢
          rcases List.mem_cons.1 hq with rfl | hq
          · exact (furnished_makeEach ps hafter.plain).isDir hafter.plain
              (isDir_of_makeDir hd hmake)
          · exact ih hafter.plain h q hq
      | error e =>
          simp only [makeEach, hmake] at h ⊢
          by_cases hthere : d.isThere p e
          · rw [if_pos hthere] at h ⊢
            rcases List.mem_cons.1 hq with rfl | hq
            · exact (furnished_makeEach ps hd).isDir hd (Bool.and_eq_true_iff.1 hthere).2
            · exact ih hd h q hq
          · rw [if_neg hthere] at h
            cases h

/-- The paths that were passed by are still to be made. -/
theorem mem_of_makeNearest {ps passed missing : List Path}
    (h : d.makeNearest passed ps = .ok (missing, d')) : ∀ p ∈ passed, p ∈ missing := by
  induction ps generalizing passed with
  | nil =>
      obtain ⟨rfl, rfl⟩ := Prod.mk.inj (Except.ok.inj h)
      exact fun _ hp => hp
  | cons p ps ih =>
      rw [makeNearest] at h
      split at h
      · obtain ⟨rfl, rfl⟩ := Prod.mk.inj (Except.ok.inj h)
        exact fun _ hp => hp
      · split at h
        · exact fun q hq => ih h q (List.mem_cons_of_mem p hq)
        · split at h
          · obtain ⟨rfl, rfl⟩ := Prod.mk.inj (Except.ok.inj h)
            exact fun _ hp => hp
          · cases h

/-- Where directories were made there is one, unless the path takes no step at all. -/
theorem isDir_of_makeDirs (hd : d.Plain) (hp : p.isAbsolute) (h : (makeDirs p d).1 = .ok ()) :
    (makeDirs p d).2.isDir p ∨ p.inner = [] := by
  unfold makeDirs at h ⊢
  cases hnearest : d.makeNearest [] p.ancestry with
  | error e => simp [hnearest] at h
  | ok found =>
      obtain ⟨missing, after⟩ := found
      simp only [hnearest] at h ⊢
      have hfirst := furnished_of_makeNearest hd hnearest
      rw [Path.ancestry, Path.steps_of_isAbsolute hp, List.length_cons, Path.ancestry.climb]
        at hnearest
      split at hnearest
      · next hnone =>
          apply Or.inr
          rw [Path.parent?_of_isAbsolute hp] at hnone
          split at hnone
          · next hidle =>
              rw [Path.inner, List.filterMap_eq_nil_iff]
              intro f hf
              have hall' := List.dropWhile_eq_nil_iff.1 hidle f (List.mem_reverse.2 hf)
              simp [Step.ofField?, Path.isIdle_iff.1 hall']
          · cases hnone
      · apply Or.inl
        rw [makeNearest] at hnearest
        split at hnearest
        · next hmake =>
            obtain ⟨rfl, rfl⟩ := Prod.mk.inj (Except.ok.inj hnearest)
            exact isDir_of_makeDir hd hmake
        · next e _ =>
            split at hnearest
            · have hmem := mem_of_makeNearest hnearest p List.mem_cons_self
              exact isDir_of_makeEach hfirst.plain h p hmem
            · split at hnearest
              · next hthere =>
                  obtain ⟨rfl, rfl⟩ := Prod.mk.inj (Except.ok.inj hnearest)
                  exact (Bool.and_eq_true_iff.1 hthere).2
              · cases hnearest

/-- Where directories were made there is one. -/
theorem kindAt_of_makeDirs (hd : d.Plain) (hp : p.isAbsolute) (h : (makeDirs p d).1 = .ok ()) :
    (makeDirs p d).2.root.kindAt p.place = some .dir := by
  have hfurnished := hd.furnished_makeDirs p
  rcases isDir_of_makeDirs hd hp h with hdir | hnil
  · exact kindAt_of_isDir hfurnished.plain hp hdir
  · rw [Path.place_of_isAbsolute hp, hnil]
    exact hfurnished.plain.rooted

end Disk

end Quire
