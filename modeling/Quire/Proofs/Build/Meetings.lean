import Quire.Proofs.Build.Keeping

/-!
What a visit meets. Whatever is done on the way, a visit does one thing after the other with what
names lead to, in the order of the names and so nothing twice; what it meets as a file is something
below its start that the visit does not pass by.
-/

namespace Quire

namespace Disk

variable {d : Disk} {p : Path} {entries : List (Text × Kind)}

/-- What is listed as a file is one, at the place that it is listed at. -/
theorem kindAt_of_mem_listing (hd : d.Plain) (hp : p.isAbsolute) (h : d.listing p = .ok entries)
    {e : Text × Kind} (he : e ∈ entries) : d.root.kindAt (p.place ++ [e.1]) = some e.2 := by
  obtain ⟨place, children, hplace, hget, rfl⟩ := listing_ok_iff.1 h
  obtain rfl := eq_place_of_place? hd hp hplace
  exact (Node.mem_entries_iff hd.tree hget).1 he

/-- A listing is in the order of the names. -/
theorem ordered_of_listing (hd : d.Plain) (h : d.listing p = .ok entries) : Ordered entries := by
  obtain ⟨place, children, _, hget, rfl⟩ := listing_ok_iff.1 h
  have hordered := (Node.isPlain_dir_iff.1 (Node.isPlain_get? hd.tree hget).1).1
  exact List.Pairwise.map _ (fun _ _ hlt => hlt) hordered

end Disk

namespace Build

variable {σ α β : Type} {P : Disk → Prop} {v : Visit σ} {w : Work}

/-- The order of the names decides where they first differ. -/
theorem lt_of_before {names x y : List Text} {a b : Text} (hlt : a.before b)
    (ha : names ++ [a] <+: x) (hb : names ++ [b] <+: y) : x < y := by
  obtain ⟨s, rfl⟩ := ha
  obtain ⟨t, rfl⟩ := hb
  induction names with
  | nil => exact List.Lex.rel (Text.before_iff.1 hlt)
  | cons n names ih => exact List.Lex.cons ih

/-- One meeting after the other. -/
def meetAll (v : Visit σ) (s : σ) (met : List (List Text × Met)) : Job σ :=
  met.foldlM (fun s e => v.meet s e.1 e.2) s

theorem result_meetAll_append (v : Visit σ) (s : σ) (a b : List (List Text × Met)) (w : Work) :
    (meetAll v s (a ++ b)).result w =
      match (meetAll v s a).result w with
      | (.ok t, after) => (meetAll v t b).result after
      | (.error e, after) => (.error e, after) := by
  unfold meetAll
  rw [List.foldlM_append]
  refine (Job.result_bind _ _ w).trans ?_
  rcases (a.foldlM (fun s e => v.meet s e.1 e.2) s).result w with ⟨answer, after⟩
  cases answer <;> rfl

theorem result_meetAll_singleton (v : Visit σ) (s : σ) (e : List Text × Met) (w : Work) :
    (meetAll v s [e]).result w = (v.meet s e.1 e.2).result w := by
  unfold meetAll
  rw [List.foldlM_cons, Job.result_bind]
  rcases (v.meet s e.1 e.2).result w with ⟨answer, after⟩
  cases answer <;> rfl

/-- What a visit that has come down to some names may still meet, on disks with a property. -/
structure Meetable (P : Disk → Prop) (v : Visit σ) (names : List Text) (e : List Text × Met) :
    Prop where
  below : names <+: e.1
  isName : ∀ n ∈ e.1, Disk.IsName n
  file : e.2 = .file → e.1 ≠ [] ∧ ¬ v.skips (Build.below v.root e.1) ∧
    ∃ d, P d ∧ d.root.kindAt (Build.below v.root e.1).place = some .file

/-- Whether meetings are in the order of the names that lead to what is met. -/
def InOrder (met : List (List Text × Met)) : Prop := met.Pairwise fun a b => a.1 < b.1

/-- The meetings with the entries of one directory, each with its own. -/
theorem exists_met_entries (names : List Text) {body : σ → Text × Disk.Kind → Job σ}
    {entries : List (Text × Disk.Kind)} (hordered : Disk.Ordered entries)
    (hbody : ∀ s, ∀ e ∈ entries, ∀ w, P w.disk → P ((body s e).result w).2.disk ∧
      ∃ met, (body s e).result w = (meetAll v s met).result w ∧ InOrder met ∧
        ∀ m ∈ met, Meetable P v (names ++ [e.1]) m)
    (s : σ) (hw : P w.disk) :
    ∃ met, (entries.foldlM body s).result w = (meetAll v s met).result w ∧
      InOrder met ∧ ∀ m ∈ met, ∃ e ∈ entries, Meetable P v (names ++ [e.1]) m := by
  induction entries generalizing s w with
  | nil => exact ⟨[], rfl, List.Pairwise.nil, by simp⟩
  | cons e entries ih =>
      obtain ⟨hbehind, hordered⟩ := List.pairwise_cons.1 hordered
      obtain ⟨hafter, met, hmet, hmetOrder, hmeetable⟩ :=
        hbody s e List.mem_cons_self w hw
      rw [List.foldlM_cons, Job.result_bind]
      rcases hfirst : (body s e).result w with ⟨answer, after⟩
      rw [hfirst] at hafter hmet
      cases answer with
      | error stop =>
          exact ⟨met, hmet, hmetOrder, fun m hm => ⟨e, List.mem_cons_self, hmeetable m hm⟩⟩
      | ok t =>
          obtain ⟨rest, hrest, hrestOrder, hrestMeetable⟩ :=
            ih hordered (fun u x hx => hbody u x (List.mem_cons_of_mem e hx)) t hafter
          refine ⟨met ++ rest, ?_, ?_, ?_⟩
          · rw [result_meetAll_append, ← hmet]
            exact hrest
          · -- what is below an entry comes before what is below a later one
            refine List.pairwise_append.2 ⟨hmetOrder, hrestOrder, fun m hm m' hm' => ?_⟩
            obtain ⟨e', he', hmeet'⟩ := hrestMeetable m' hm'
            exact lt_of_before (hbehind e' he') (hmeetable m hm).below hmeet'.below
          · intro m hm
            rcases List.mem_append.1 hm with hm | hm
            · exact ⟨e, List.mem_cons_self, hmeetable m hm⟩
            · obtain ⟨e', he', hmeet'⟩ := hrestMeetable m hm
              exact ⟨e', List.mem_cons_of_mem e he', hmeet'⟩

/-- What a visit meets at one entry of a directory. -/
theorem exists_met_visitEntry {d : Disk} (habs : v.root.isAbsolute) {depth : Nat}
    {names : List Text} {entry : Text × Disk.Kind}
    (hnames : ∀ n ∈ names ++ [entry.1], Disk.IsName n) (hd : P d)
    (hkind : d.root.kindAt ((below v.root names).place ++ [entry.1]) = some entry.2) (s : σ)
    (hdown : entry.2 = .dir → ∃ met,
      (v.visitBelow depth (names ++ [entry.1]) s).result w = (meetAll v s met).result w ∧
        InOrder met ∧ ∀ m ∈ met, Meetable P v (names ++ [entry.1]) m) :
    ∃ met, (visitEntry v depth names s entry).result w = (meetAll v s met).result w ∧
      InOrder met ∧ ∀ m ∈ met, Meetable P v (names ++ [entry.1]) m := by
  unfold visitEntry
  by_cases hskip : v.skips (below v.root (names ++ [entry.1]))
  · rw [if_pos hskip]
    exact ⟨[], rfl, List.Pairwise.nil, by simp⟩
  · rw [if_neg hskip]
    cases hentry : entry.2 with
    | link | device => exact ⟨[], rfl, List.Pairwise.nil, by simp⟩
    | dir => exact hdown hentry
    | file =>
        refine ⟨[(names ++ [entry.1], .file)], ?_, List.pairwise_singleton _ _, ?_⟩
        · exact (result_meetAll_singleton v s (names ++ [entry.1], .file) w).symm
        · intro m hm
          rw [List.mem_singleton.1 hm]
          refine ⟨List.prefix_refl _, hnames, fun _ => ⟨by simp, hskip, d, hd, ?_⟩⟩
          have hname : Path.Ordinary entry.1 := (hnames entry.1 (by simp)).toOrdinary
          rw [below_concat, Path.place_child (isAbsolute_below habs names) hname, hkind, hentry]

variable (hplain : ∀ d, P d → d.Plain)
  (hmeet : ∀ s names m, (∀ n ∈ names, Disk.IsName n) → (m = .file → names ≠ []) →
    Keeps P (v.meet s names m))

include hplain hmeet

theorem exists_met_visitBelow (habs : v.root.isAbsolute) (depth : Nat) {names : List Text}
    (hnames : ∀ n ∈ names, Disk.IsName n) (s : σ) (hw : P w.disk) :
    ∃ met, (v.visitBelow depth names s).result w = (meetAll v s met).result w ∧
      InOrder met ∧ ∀ m ∈ met, Meetable P v names m := by
  induction depth generalizing names s w with
  | zero => exact ⟨[], rfl, List.Pairwise.nil, by simp⟩
  | succ depth ih =>
      rw [result_visitBelow]
      cases hlisting : w.disk.listing (below v.root names) with
      | error e =>
          refine ⟨[(names, .unlisted e)], ?_, List.pairwise_singleton _ _, ?_⟩
          · exact (result_meetAll_singleton v s (names, .unlisted e) w).symm
          · intro m hm
            rw [List.mem_singleton.1 hm]
            exact ⟨List.prefix_refl _, hnames, by simp⟩
      | ok entries =>
          have hordered := Disk.ordered_of_listing (hplain _ hw) hlisting
          have hentries : ∀ t, ∀ e ∈ entries, ∀ w', P w'.disk →
              P ((visitEntry v depth names t e).result w').2.disk ∧
                ∃ met, (visitEntry v depth names t e).result w' = (meetAll v t met).result w' ∧
                  InOrder met ∧ ∀ m ∈ met, Meetable P v (names ++ [e.1]) m := by
            intro t e he w' hw'
            have hnames' := Disk.isName_concat_of_listing (hplain _ hw) hlisting hnames he
            have hkind := Disk.kindAt_of_mem_listing (hplain _ hw)
              (isAbsolute_below habs names) hlisting he
            have hkeeps : Keeps P (visitEntry v depth names t e) :=
              Keeps.visitEntry hmeet hnames' t fun _ => Keeps.visitBelow hplain hmeet depth hnames' t
            refine ⟨hkeeps w' hw', ?_⟩
            exact exists_met_visitEntry habs hnames' hw hkind t fun _ => ih hnames' t hw'
          obtain ⟨met, hmet, hmetOrder, hmeetable⟩ := exists_met_entries names hordered hentries s hw
          refine ⟨met, hmet, hmetOrder, fun m hm => ?_⟩
          obtain ⟨e, _, hmeet'⟩ := hmeetable m hm
          exact ⟨(List.prefix_append _ _).trans hmeet'.below, hmeet'.isName, hmeet'.file⟩

/-- A visit is one meeting after the other, in the order of the names. -/
theorem exists_met_run (habs : v.root.isAbsolute)
    (hroot : w.disk.root.bytesAt v.root.place = none) (s : σ) (hw : P w.disk) :
    ∃ met, (v.run s).result w = (meetAll v s met).result w ∧ InOrder met ∧
      ∀ m ∈ met, Meetable P v [] m := by
  unfold Visit.run
  rw [Job.result_bind, Job.result_look]
  cases hnode : w.disk.nodeItself? v.root with
  | error e =>
      refine ⟨[([], .unlisted e)], ?_, List.pairwise_singleton _ _, ?_⟩
      · exact (result_meetAll_singleton v s ([], .unlisted e) w).symm
      · intro m hm
        rw [List.mem_singleton.1 hm]
        exact ⟨List.prefix_refl _, by simp, by simp⟩
  | ok m =>
      have hget := Disk.get?_of_nodeItself? (hplain _ hw) habs hnode
      cases m with
      | file bytes =>
          rw [Disk.Node.bytesAt, hget] at hroot
          cases hroot
      | dir _ => exact exists_met_visitBelow hplain hmeet habs Disk.maxPath (by simp) s hw
      | sink => exact ⟨[], rfl, List.Pairwise.nil, by simp⟩
      | link target => exact absurd hget (Disk.Node.get?_ne_link (hplain _ hw).tree target)

end Build

end Quire
