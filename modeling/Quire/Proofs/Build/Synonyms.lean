import Quire.Proofs.Build.Reaching
import Quire.Proofs.Build.Reworking
import Quire.Proofs.Disk.Stepwise

/-!
Two spellings of one directory. Whatever is asked of the disk below the one is answered as it is
below the other, and whatever is made or written there comes to the same disk, as long as there is
room for it in both spellings.
-/

namespace Quire

namespace Disk

variable {root n : Node} {names a b q : Place} {children : List (Text × Node)} {name : Text}

/-- How many bytes names take in a path, each behind a slash. -/
def extent : Place → Nat
  | [] => 0
  | name :: names => name.byteSize + 1 + extent names

@[simp]
theorem extent_nil : extent [] = 0 := rfl

@[simp]
theorem extent_cons (name : Text) (names : Place) :
    extent (name :: names) = name.byteSize + 1 + extent names := rfl

@[simp]
theorem extent_append (a b : Place) : extent (a ++ b) = extent a + extent b := by
  induction a with
  | nil => simp
  | cons name a ih => rw [List.cons_append, extent_cons, extent_cons, ih, ← Nat.add_assoc]

theorem extent_le_of_isPrefix (h : a <+: b) : extent a ≤ extent b := by
  obtain ⟨rest, rfl⟩ := h
  rw [extent_append]
  exact Nat.le_add_right _ _

namespace Node

mutual

/-- How many bytes the longest path in a tree takes. -/
def extent : Node → Nat
  | .file _ => 0
  | .link _ => 0
  | .dir children => extentIn children
  | .sink => 0
termination_by structural n => n

/-- How many bytes the longest path to or below one of the children of a directory takes. -/
def extentIn : List (Text × Node) → Nat
  | [] => 0
  | (name, n) :: rest => max (name.byteSize + 1 + extent n) (extentIn rest)
termination_by structural children => children

end

theorem extent_le_extentIn (h : child? name children = some n) :
    name.byteSize + 1 + n.extent ≤ extentIn children := by
  induction children with
  | nil => cases h
  | cons c children ih =>
      obtain ⟨k, m⟩ := c
      rw [extentIn]
      unfold child? at h
      split at h
      · next hname =>
          obtain rfl := Option.some.inj h
          exact hname ▸ Nat.le_max_left _ _
      · exact Nat.le_trans (ih h) (Nat.le_max_right _ _)

/-- No path in a tree is longer than the longest. -/
theorem extent_le_of_kindAt (h : (root.kindAt q).isSome) : Disk.extent q ≤ root.extent := by
  induction q generalizing root with
  | nil => exact Nat.zero_le _
  | cons name q ih =>
      obtain ⟨m, hget⟩ := Option.isSome_iff_exists.1 (Option.isSome_map ▸ h)
      obtain ⟨children, child, rfl, hchild, hrest⟩ := get?_cons_eq_some hget
      have hbelow : Disk.extent q ≤ child.extent := ih (by rw [kindAt, hrest]; rfl)
      have hle := extent_le_extentIn hchild
      rw [Disk.extent_cons, extent]
      omega

end Node

end Disk

namespace Build

open Disk (Node Leads IsName extent)
open Quire.Path (Ordinary)

variable {d e : Disk} {p q s s' : Path} {names front : List Text} {n t : Text} {room : Nat}

/-! Paths that go down from one that leads to a directory. -/

theorem byteSize_child_le (p : Path) (ht : ¬ (Path.mk t).isAbsolute) :
    (p.child t).text.byteSize ≤ p.text.byteSize + (t.byteSize + 1) := by
  have hslash : Text.byteSize ('/' :: t) = 1 + t.byteSize := rfl
  rw [Path.child, Path.text_join ht, Text.byteSize_append]
  dsimp only
  split <;> omega

theorem nul_mem_child_iff (p : Path) (ht : ¬ (Path.mk t).isAbsolute) :
    '\x00' ∈ (p.child t).text ↔ '\x00' ∈ p.text ∨ '\x00' ∈ t := by
  rw [Path.child, Path.text_join ht]
  split <;> simp

theorem byteSize_below_le (p : Path) (hnames : ∀ m ∈ names, '/' ∉ m) :
    (below p names).text.byteSize ≤ p.text.byteSize + extent names := by
  induction names using List.reverseRecOn with
  | nil => exact Nat.le_refl _
  | append_singleton names n ih =>
      have hfront := ih fun m hm => hnames m (List.mem_append_left _ hm)
      have hchild := byteSize_child_le (below p names)
        (Path.not_isAbsolute_of_noSlash (hnames n (by simp)))
      rw [below_concat, Disk.extent_append, Disk.extent_cons, Disk.extent_nil]
      omega

theorem nul_mem_below_iff (p : Path) (hnames : ∀ m ∈ names, '/' ∉ m) :
    '\x00' ∈ (below p names).text ↔ '\x00' ∈ p.text ∨ ∃ m ∈ names, '\x00' ∈ m := by
  induction names using List.reverseRecOn with
  | nil => simp [below]
  | append_singleton names n ih =>
      have hfront := ih fun m hm => hnames m (List.mem_append_left _ hm)
      rw [below_concat, nul_mem_child_iff _ (Path.not_isAbsolute_of_noSlash (hnames n (by simp))),
        hfront, or_assoc]
      simp only [List.mem_append, List.mem_singleton, or_and_right, exists_or, exists_eq_left]

/-- Where there is room for the names behind a good path, only the names can be bad. -/
theorem checkPath_below_of_room (h : Leads d p) (hnames : ∀ m ∈ names, '/' ∉ m)
    (hroom : p.text.byteSize + extent names ≤ Disk.maxPath) :
    Disk.checkPath (below p names) =
      if ∃ m ∈ names, '\x00' ∈ m then .error .nulInName else .ok () := by
  have hnul := nul_mem_below_iff p hnames
  have hsize := byteSize_below_le p hnames
  have hgood := (Disk.checkPath_ok_iff.1 h.check).1
  have hlong : ¬ Disk.maxPath < (below p names).text.byteSize := by omega
  unfold Disk.checkPath
  rw [if_neg (Disk.text_ne_nil (isAbsolute_below h.isAbsolute names)), if_neg hlong]
  by_cases hbad : ∃ m ∈ names, '\x00' ∈ m
  · rw [if_pos hbad, if_pos (by simpa using hnul.2 (Or.inr hbad))]
  · rw [if_neg hbad, if_neg (by simpa using fun hmem => (hnul.1 hmem).elim hgood hbad)]

theorem Leads.place? (hd : d.Plain) (h : Leads d p) : d.place? p = .ok p.place := by
  obtain ⟨place, hplace, _⟩ := Disk.isDir_iff.1 (h.isDir hd)
  rw [hplace, Disk.eq_place_of_place? hd h.isAbsolute hplace]

/-- A path that goes down names is followed from where it sets out. -/
theorem place?_below_eq (hd : d.Plain) (h : Leads d p) (hnames : ∀ m ∈ names, Ordinary m) :
    d.place? (below p names) =
      match Disk.checkPath (below p names) with
      | .error f => .error f
      | .ok _ => Disk.walk d.root p.place (names.map .name) := by
  rcases List.eq_nil_or_concat' names with rfl | ⟨front, n, rfl⟩
  · have hcheck : Disk.checkPath (below p []) = .ok () := h.check
    rw [hcheck]
    exact Leads.place? hd h
  · have hsteps : Disk.stepsTo (below p (front ++ [n])) =
        p.steps ++ (front ++ [n]).map .name := by
      rw [below_concat, Disk.stepsTo_child (isAbsolute_below h.isAbsolute front)
        (hnames n (by simp)), ← below_concat]
      exact Path.steps_foldl_child h.isAbsolute hnames
    unfold Disk.place?
    rw [Disk.reach_eq_walk hd, hsteps, h.walk_append]
    cases Disk.checkPath (below p (front ++ [n])) <;> rfl

/-- A file is copied alike behind the same steps. -/
theorem copyInto_of_sameWay (h : Disk.SameWay p q) (hd : d.Plain) (hn : Ordinary n)
    (hcheck : Disk.checkPath (p.child n) = .ok ()) (hcheck' : Disk.checkPath (q.child n) = .ok ())
    (src : Path) : Disk.copyInto src (q.child n) d = Disk.copyInto src (p.child n) d := by
  have hafter := (Disk.furnished_makeDirs hd (Path.isAbsolute_trimmed h.isAbsolute)).plain
  unfold Disk.copyInto Disk.Change.andThen
  rw [makeParents_child h.isAbsolute hn.noSlash hn.not_isIdle,
    makeParents_child h.isAbsolute' hn.noSlash hn.not_isIdle, h.makeDirs hd]
  rcases hresult : Disk.makeDirs p.trimmed d with ⟨answer | answer, after⟩
  · rfl
  · rw [hresult] at hafter
    simp only [Disk.Change.ofWhole, Disk.copy, h.target?_child hafter hn hcheck hcheck']

/-! Relative paths without a step up, behind a path that leads to a directory. -/

/-- A relative path that takes no step up. -/
def IsDownward (t : Text) : Prop := ¬ (Path.mk t).isAbsolute ∧ .up ∉ (Path.mk t).inner

instance (t : Text) : Decidable (IsDownward t) := inferInstanceAs (Decidable (_ ∧ _))

/-- A downward path goes down names. -/
theorem IsDownward.exists_names (h : IsDownward t) :
    ∃ ts : List Text, (∀ m ∈ ts, Ordinary m) ∧ (Path.mk t).inner = ts.map .name := by
  have hnames : ∀ steps : List Path.Step, (∀ s ∈ steps, s ∈ (Path.mk t).inner) →
      ∃ ts : List Text, (∀ m ∈ ts, Ordinary m) ∧ steps = ts.map .name := by
    intro steps
    induction steps with
    | nil => exact fun _ => ⟨[], by simp, rfl⟩
    | cons s steps ih =>
        intro hmem
        obtain ⟨ts, hts, rfl⟩ := ih fun s hs => hmem s (List.mem_cons_of_mem _ hs)
        have hs := hmem s List.mem_cons_self
        rcases Path.eq_up_or_ordinary_of_mem_inner hs with rfl | ⟨n, hn, rfl⟩
        · exact absurd hs h.2
        · exact ⟨n :: ts, List.forall_mem_cons.2 ⟨hn, hts⟩, rfl⟩
  exact hnames _ fun _ hs => hs

section

variable {ts : List Text} (ht : ¬ (Path.mk t).isAbsolute) (hts : (Path.mk t).inner = ts.map .name)

include ht hts

theorem place_child_downward (hp : p.isAbsolute) : (p.child t).place = p.place ++ ts := by
  rw [Path.child, Path.place_join hp ht, hts, Path.placeFrom_names]

theorem leads_child_downward (hd : d.Plain) (h : Leads d p)
    (hcheck : Disk.checkPath (p.child t) = .ok ())
    (hdir : d.root.kindAt (p.place ++ ts) = some .dir) : Leads d (p.child t) := by
  have hplace := place_child_downward ht hts h.isAbsolute
  have habs := Path.isAbsolute_child h.isAbsolute t
  refine ⟨habs, hcheck, ?_, by rwa [hplace]⟩
  rw [Path.steps_of_isAbsolute habs, Path.child, Path.inner_join ht, hts, ← List.cons_append,
    ← Path.steps_of_isAbsolute h.isAbsolute, h.walk_append, ← Path.child, hplace]
  exact Disk.walk_names_of_isSome hd.tree (by rw [hdir]; rfl)

/-- Behind a downward path, files are copied to where its names lead. -/
theorem copyInto_downward (hd : d.Plain) (h : Leads d p) (hnul : '\x00' ∉ t)
    (hnames : ∀ m ∈ ts ++ front, IsName m) (hn : IsName n)
    (hroom : p.text.byteSize + (t.byteSize + 1) + extent (front ++ [n]) ≤ Disk.maxPath)
    (hroom' : p.text.byteSize + extent (ts ++ front ++ [n]) ≤ Disk.maxPath) (src : Path) :
    Disk.copyInto src ((below (p.child t) front).child n) d =
      Disk.copyInto src ((below p (ts ++ front)).child n) d := by
  have hlast : ∀ {ms : List Text}, (∀ m ∈ ms, IsName m) → ∀ m ∈ ms ++ [n], IsName m :=
    fun hms m hm => (List.mem_append.1 hm).elim (hms m) fun hm => List.mem_singleton.1 hm ▸ hn
  have hfront : ∀ m ∈ front, IsName m := fun m hm => hnames m (List.mem_append_right _ hm)
  have hgood := Disk.checkPath_ok_iff.1 h.check
  have hcheck : Disk.checkPath (below p (ts ++ front ++ [n])) = .ok () := by
    rw [checkPath_below_of_room h (fun m hm => (hlast hnames m hm).noSlash) hroom', if_neg]
    rintro ⟨m, hm, hbad⟩
    exact (hlast hnames m hm).noNul hbad
  have hslash : ∀ m ∈ front ++ [n], '/' ∉ m := fun m hm => (hlast hfront m hm).noSlash
  have hcheck' : Disk.checkPath (below (p.child t) (front ++ [n])) = .ok () := by
    have hsize := byteSize_below_le (p.child t) hslash
    have hchild := byteSize_child_le p ht
    refine Disk.checkPath_ok_iff.2 ⟨?_, Disk.text_ne_nil (isAbsolute_below
      (Path.isAbsolute_child h.isAbsolute t) _), by omega⟩
    rw [nul_mem_below_iff _ hslash, nul_mem_child_iff p ht]
    rintro ((hbad | hbad) | ⟨m, hm, hbad⟩)
    · exact hgood.1 hbad
    · exact hnul hbad
    · exact (hlast hfront m hm).noNul hbad
  have habs := isAbsolute_below h.isAbsolute (ts ++ front)
  have habs' := isAbsolute_below (Path.isAbsolute_child h.isAbsolute t) front
  rw [below_concat] at hcheck hcheck'
  refine copyInto_of_sameWay ⟨habs, habs', ?_, ?_, ?_⟩ hd hn.toOrdinary hcheck hcheck' src
  · rw [below, below, Path.inner_foldl_child (ordinary_of_isName hfront), Path.child,
      Path.inner_join ht, hts, Path.inner_foldl_child (ordinary_of_isName hnames),
      List.map_append, List.append_assoc]
  · exact Disk.checkPath_of_isPrefix (Path.text_isPrefix_child habs hn.noSlash)
      (Disk.text_ne_nil habs) hcheck
  · exact Disk.checkPath_of_isPrefix (Path.text_isPrefix_child habs' hn.noSlash)
      (Disk.text_ne_nil habs') hcheck'

end

/-- Two paths that lead to one directory, both with room for so many bytes more. -/
structure Synonyms (d : Disk) (room : Nat) (p q : Path) : Prop where
  leads : Leads d p
  leads' : Leads d q
  place : q.place = p.place
  short : p.text.byteSize + room ≤ Disk.maxPath
  short' : q.text.byteSize + room ≤ Disk.maxPath

namespace Synonyms

theorem mono (h : Synonyms d room p q)
    (hkinds : ∀ q k, d.root.kindAt q = some k → e.root.kindAt q = some k) :
    Synonyms e room p q :=
  ⟨h.leads.of_kinds hkinds, h.leads'.of_kinds hkinds, h.place, h.short, h.short'⟩

theorem weaken {less : Nat} (h : Synonyms d room p q) (hless : less ≤ room) :
    Synonyms d less p q :=
  ⟨h.leads, h.leads', h.place, Nat.le_trans (by omega) h.short, Nat.le_trans (by omega) h.short'⟩

theorem symm (h : Synonyms d room p q) : Synonyms d room q p :=
  ⟨h.leads', h.leads, h.place.symm, h.short', h.short⟩

/-- Spellings of a directory behind the same relative path. -/
theorem child {left : Nat} (h : Synonyms d room p q) (ht : ¬ (Path.mk t).isAbsolute)
    (hroom : t.byteSize + 1 + left ≤ room) (hleads : Leads d (p.child t)) :
    Synonyms d left (p.child t) (q.child t) := by
  have hp := h.leads.isAbsolute
  have hq := h.leads'.isAbsolute
  have hplace : (q.child t).place = (p.child t).place := by
    rw [Path.child, Path.child, Path.place_join hp ht, Path.place_join hq ht, h.place]
  have hsteps : ∀ {r : Path}, r.isAbsolute → (r.child t).steps = r.steps ++ (Path.mk t).inner := by
    intro r hr
    rw [Path.steps_of_isAbsolute (Path.isAbsolute_child hr t), Path.steps_of_isAbsolute hr,
      Path.child, Path.inner_join ht, List.cons_append]
  have hnul := (nul_mem_child_iff p ht).not.1 (Disk.checkPath_ok_iff.1 hleads.check).1
  have hsize := byteSize_child_le p ht
  have hsize' := byteSize_child_le q ht
  have hshort := h.short
  have hshort' := h.short'
  have hcheck : Disk.checkPath (q.child t) = .ok () := by
    refine Disk.checkPath_ok_iff.2 ⟨fun hmem => ?_, Disk.text_ne_nil (Path.isAbsolute_child hq t),
      by omega⟩
    rcases (nul_mem_child_iff q ht).1 hmem with hbad | hbad
    · exact (Disk.checkPath_ok_iff.1 h.leads'.check).1 hbad
    · exact hnul (Or.inr hbad)
  have hwalk := hleads.walk
  rw [hsteps hp, h.leads.walk_append] at hwalk
  refine ⟨hleads, ⟨Path.isAbsolute_child hq t, hcheck, ?_, hplace ▸ hleads.dir⟩, hplace, by omega,
    by omega⟩
  rw [hsteps hq, h.leads'.walk_append, h.place, hwalk, hplace]

theorem isDir_child (hd : d.Plain) (h : Synonyms d room p q) (ht : ¬ (Path.mk t).isAbsolute)
    (hroom : t.byteSize + 1 ≤ room) : d.isDir (q.child t) = d.isDir (p.child t) := by
  have hback : ∀ {p q : Path}, Synonyms d room p q → d.isDir (p.child t) → d.isDir (q.child t) := by
    intro p q h hdir
    have hleads := Disk.leads_of_isDir hd (Path.isAbsolute_child h.leads.isAbsolute t) hdir
    have hchild : Synonyms d 0 (p.child t) (q.child t) := h.child ht hroom hleads
    exact hchild.leads'.isDir hd
  rw [Bool.eq_iff_iff]
  exact ⟨hback h.symm, hback h⟩

section

variable (hd : d.Plain) (h : Synonyms d room p q)

include h

theorem checkPath (hnames : ∀ m ∈ names, '/' ∉ m) (hroom : extent names ≤ room) :
    Disk.checkPath (below q names) = Disk.checkPath (below p names) := by
  have hshort := h.short
  have hshort' := h.short'
  rw [checkPath_below_of_room h.leads hnames (by omega),
    checkPath_below_of_room h.leads' hnames (by omega)]

theorem checkPath_ok (hnames : ∀ m ∈ names, IsName m) (hroom : extent names ≤ room) :
    Disk.checkPath (below p names) = .ok () ∧ Disk.checkPath (below q names) = .ok () := by
  have hshort := h.short
  have hslash : ∀ m ∈ names, '/' ∉ m := fun m hm => (hnames m hm).noSlash
  have hok : Disk.checkPath (below p names) = .ok () := by
    rw [checkPath_below_of_room h.leads hslash (by omega), if_neg]
    rintro ⟨m, hm, hnul⟩
    exact (hnames m hm).noNul hnul
  exact ⟨hok, by rw [h.checkPath hslash hroom, hok]⟩

include hd

theorem place?_below (hnames : ∀ m ∈ names, Ordinary m) (hroom : extent names ≤ room) :
    d.place? (below q names) = d.place? (below p names) := by
  rw [place?_below_eq hd h.leads hnames, place?_below_eq hd h.leads' hnames,
    h.checkPath (fun m hm => (hnames m hm).noSlash) hroom, h.place]

theorem node?_below (hnames : ∀ m ∈ names, Ordinary m) (hroom : extent names ≤ room) :
    d.node? (below q names) = d.node? (below p names) := by
  unfold Disk.node?
  rw [h.place?_below hd hnames hroom]

theorem isFile_below (hnames : ∀ m ∈ names, Ordinary m) (hroom : extent names ≤ room) :
    d.isFile (below q names) = d.isFile (below p names) := by
  unfold Disk.isFile
  rw [h.node?_below hd hnames hroom]

theorem isDir_below (hnames : ∀ m ∈ names, Ordinary m) (hroom : extent names ≤ room) :
    d.isDir (below q names) = d.isDir (below p names) := by
  unfold Disk.isDir
  rw [h.node?_below hd hnames hroom]

theorem readText_below (hnames : ∀ m ∈ names, Ordinary m) (hroom : extent names ≤ room) :
    d.readText (below q names) = d.readText (below p names) := by
  unfold Disk.readText Disk.read
  rw [h.node?_below hd hnames hroom]

theorem listing_below (hnames : ∀ m ∈ names, Ordinary m) (hroom : extent names ≤ room) :
    d.listing (below q names) = d.listing (below p names) := by
  unfold Disk.listing
  rw [h.place?_below hd hnames hroom]

/-- Spellings of a directory further down. -/
theorem below {left : Nat} (hnames : ∀ m ∈ names, IsName m) (hroom : extent names + left ≤ room)
    (hdir : d.root.kindAt (p.place ++ names) = some .dir) :
    Synonyms d left (below p names) (below q names) := by
  obtain ⟨hcheck, hcheck'⟩ := h.checkPath_ok hnames (by omega)
  have hslash : ∀ m ∈ names, '/' ∉ m := fun m hm => (hnames m hm).noSlash
  have hordinary := ordinary_of_isName hnames
  have hsize := byteSize_below_le p hslash
  have hsize' := byteSize_below_le q hslash
  have hshort := h.short
  have hshort' := h.short'
  refine ⟨h.leads.below hd hnames hcheck hdir, h.leads'.below hd hnames hcheck' (h.place ▸ hdir),
    ?_, by omega, by omega⟩
  rw [place_below h.leads'.isAbsolute hordinary, place_below h.leads.isAbsolute hordinary, h.place]

/-- Directories below both spellings are made alike. -/
theorem makeDirs (hnames : ∀ m ∈ names, IsName m) (hroom : extent names ≤ room) :
    Disk.makeDirs (Build.below q names).trimmed d =
      Disk.makeDirs (Build.below p names).trimmed d := by
  obtain ⟨hcheck, hcheck'⟩ := h.checkPath_ok hnames hroom
  by_cases hclear : Disk.Clear d.root (p.place ++ names)
  · obtain ⟨made, hmade, hcleared⟩ := Disk.makeDirs_of_clear hd h.leads hnames hcheck hclear
    obtain ⟨made', hmade', hcleared'⟩ :=
      Disk.makeDirs_of_clear hd h.leads' hnames hcheck' (h.place ▸ hclear)
    have hroot : made'.root = made.root :=
      Node.eq_of_seen_eq hcleared'.plain.tree hcleared.plain.tree fun x => by
        rw [hcleared'.seen, hcleared.seen, h.place]
    have hsame : made' = made := by
      have hcwd := hcleared'.cwd.trans hcleared.cwd.symm
      cases made
      cases made'
      simp_all
    exact hmade'.trans (hsame ▸ hmade.symm)
  · refine (Disk.makeDirs_of_blocked hd h.leads' hnames hcheck' (h.place ▸ hclear)).trans ?_
    rw [h.place]
    exact (Disk.makeDirs_of_blocked hd h.leads hnames hcheck hclear).symm

/-- The same is aimed at below both spellings. -/
theorem target? (hnames : ∀ m ∈ names, Ordinary m) (hn : Ordinary n ∨ n = ['.', '.'])
    (hroom : extent names + (n.byteSize + 1) ≤ room) :
    d.target? ((Build.below q names).child n) = d.target? ((Build.below p names).child n) := by
  have hslash : ∀ m ∈ names ++ [n], '/' ∉ m := by
    intro m hm
    rcases List.mem_append.1 hm with hm | hm
    · exact (hnames m hm).noSlash
    · rw [List.mem_singleton.1 hm]
      exact (Path.noSlash_and_not_isIdle hn).1
  have hcheck := h.checkPath hslash (by simpa using hroom)
  rw [below_concat, below_concat] at hcheck
  have habs := isAbsolute_below h.leads.isAbsolute names
  have habs' := isAbsolute_below h.leads'.isAbsolute names
  have hsteps : (Build.below p names).steps = p.steps ++ names.map .name :=
    Path.steps_foldl_child h.leads.isAbsolute hnames
  have hsteps' : (Build.below q names).steps = q.steps ++ names.map .name :=
    Path.steps_foldl_child h.leads'.isAbsolute hnames
  have haim : Disk.aim d.root d.cwd ((Build.below q names).child n) =
      Disk.aim d.root d.cwd ((Build.below p names).child n) := by
    rcases hn with hn | rfl
    · rw [Disk.aim, Disk.aim, Disk.splitEnding_child habs hn, Disk.splitEnding_child habs' hn]
      simp only [hsteps, hsteps', h.leads.walk_append, h.leads'.walk_append, h.place]
    · rw [Disk.aim, Disk.aim, Disk.splitEnding_up habs, Disk.splitEnding_up habs']
      simp only [hsteps, hsteps', List.append_assoc, h.leads.walk_append, h.leads'.walk_append,
        h.place]
  unfold Disk.target?
  rw [Disk.target_eq_aim hd.tree, Disk.target_eq_aim hd.tree, hcheck, haim]

theorem writeText (hnames : ∀ m ∈ names, Ordinary m) (hn : Ordinary n ∨ n = ['.', '.'])
    (hroom : extent names + (n.byteSize + 1) ≤ room) (t : Text) :
    d.writeText ((Build.below q names).child n) t =
      d.writeText ((Build.below p names).child n) t := by
  unfold Disk.writeText
  rw [Disk.write_eq_map, Disk.write_eq_map, h.target? hd hnames hn hroom]

/-- A file below one directory is copied alike below another, however the two are spelled. -/
theorem copyInto {room' : Nat} (hs : Synonyms d room' s s') (hnames : ∀ m ∈ names, Ordinary m)
    (hroom' : extent names ≤ room') (hfront : ∀ m ∈ front, IsName m) (hn : IsName n)
    (hroom : extent front + (n.byteSize + 1) ≤ room) :
    Disk.copyInto (Build.below s' names) ((Build.below q front).child n) d =
      Disk.copyInto (Build.below s names) ((Build.below p front).child n) d := by
  have habs := isAbsolute_below h.leads.isAbsolute front
  have habs' := isAbsolute_below h.leads'.isAbsolute front
  have hmade := Disk.furnished_makeDirs hd (Path.isAbsolute_trimmed habs)
  unfold Disk.copyInto Disk.Change.andThen
  rw [makeParents_child habs hn.noSlash hn.not_isIdle,
    makeParents_child habs' hn.noSlash hn.not_isIdle, h.makeDirs hd hfront (by omega)]
  rcases hresult : Disk.makeDirs (Build.below p front).trimmed d with ⟨answer, after⟩
  rw [hresult] at hmade
  cases answer with
  | error f => rfl
  | ok u =>
      have hkinds : ∀ x k, d.root.kindAt x = some k → after.root.kindAt x = some k :=
        fun x k hx => hmade.kindAt hx
      have hcopy : after.copy (Build.below s' names) ((Build.below q front).child n) =
          after.copy (Build.below s names) ((Build.below p front).child n) := by
        unfold Disk.copy
        rw [(hs.mono hkinds).place?_below hmade.plain hnames hroom',
          (h.mono hkinds).target? hmade.plain (ordinary_of_isName hfront) (Or.inl hn.toOrdinary)
            hroom]
      simp only [Disk.Change.ofWhole, hcopy]

end

end Synonyms

end Build

end Quire
