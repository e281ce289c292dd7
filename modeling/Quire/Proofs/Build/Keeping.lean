import Quire.Proofs.Build.Running
import Quire.Proofs.Disk.Writing

/-!
What jobs leave alone. A property of the disk that every single change keeps is kept by jobs that
are put together from such changes, and by whole visits, whose names are names for files.
-/

namespace Quire

namespace Disk

variable {d : Disk} {p : Path} {m : Node} {entries : List (Text × Kind)}

/-- What a path without links names is what stands at its place. -/
theorem get?_of_nodeItself? (hd : d.Plain) (hp : p.isAbsolute) (h : d.nodeItself? p = .ok m) :
    d.root.get? p.place = some m := by
  have hnode : ∀ {k : Node}, d.node? p = .ok k → d.root.get? p.place = some k := by
    intro k hk
    obtain ⟨place, hplace, hget⟩ := node?_ok_iff.1 hk
    rwa [eq_place_of_place? hd hp hplace] at hget
  unfold nodeItself? at h
  cases hcheck : checkPath p with
  | error e =>
      rw [hcheck] at h
      cases h
  | ok u =>
      rw [hcheck] at h
      rcases hsplit : splitEnding p with ⟨front, ending⟩
      rw [hsplit] at h
      cases ending with
      | here => exact hnode h
      | up => exact hnode h
      | root => exact hnode h
      | name n slash =>
          cases slash with
          | true => exact hnode h
          | false =>
              cases hreach : d.reach front with
              | error e => simp [bind, Except.bind, hreach] at h
              | ok above =>
                  simp only [bind, Except.bind, hreach] at h
                  cases hchildren : childrenAt d.root above with
                  | error e => simp [hchildren] at h
                  | ok children =>
                      simp only [hchildren] at h
                      cases hfound : lookUp n children with
                      | error e => simp [hfound] at h
                      | ok found =>
                          cases found with
                          | none => simp [hfound] at h
                          | some k =>
                              rw [hfound] at h
                              obtain rfl := Except.ok.inj h
                              rw [reach_front hd hp hsplit hreach,
                                Node.get?_append_singleton (childrenAt_ok_iff.1 hchildren),
                                ← (lookUp_ok_iff.1 hfound).2]

theorem listing_ok_iff :
    d.listing p = .ok entries ↔ ∃ place children, d.place? p = .ok place ∧
      d.root.get? place = some (.dir children) ∧ entries = Node.entries children := by
  unfold listing
  cases d.place? p with
  | error e => simp [bind, Except.bind]
  | ok place =>
      simp only [bind, Except.bind, Except.ok.injEq, exists_and_left, exists_eq_left']
      cases hchildren : childrenAt d.root place with
      | error e =>
          simp only [reduceCtorEq, false_iff, not_exists, not_and]
          intro children hget
          rw [childrenAt_ok_iff.2 hget] at hchildren
          cases hchildren
      | ok children =>
          rw [childrenAt_ok_iff] at hchildren
          simp only [hchildren, Option.some.injEq, Node.dir.injEq, exists_eq_left', eq_comm]
          exact ⟨fun h => (Except.ok.inj h), fun h => congrArg Except.ok h⟩

theorem isName_of_mem_listing (hd : d.Plain) (h : d.listing p = .ok entries) :
    ∀ e ∈ entries, IsName e.1 := by
  obtain ⟨place, children, _, hget, rfl⟩ := listing_ok_iff.1 h
  intro e he
  obtain ⟨c, hc, rfl⟩ := List.mem_map.1 he
  exact ((Node.isPlain_dir_iff.1 (Node.isPlain_get? hd.tree hget).1).2 c hc).1

/-- One name more leads to what is listed in a directory. -/
theorem isName_concat_of_listing {names : List Text} (hd : d.Plain) (h : d.listing p = .ok entries)
    (hnames : ∀ n ∈ names, IsName n) {e : Text × Kind} (he : e ∈ entries) :
    ∀ n ∈ names ++ [e.1], IsName n :=
  List.forall_mem_append.2
    ⟨hnames, List.forall_mem_singleton.2 (isName_of_mem_listing hd h e he)⟩

end Disk

namespace Build

section

variable {root : Path} {names : List Text}

theorem isAbsolute_below (hroot : root.isAbsolute) (names : List Text) :
    (below root names).isAbsolute := Path.isAbsolute_foldl_child hroot names

theorem place_below (hroot : root.isAbsolute) (hnames : ∀ n ∈ names, Path.Ordinary n) :
    (below root names).place = root.place ++ names := Path.place_foldl_child hroot hnames

theorem below_concat (root : Path) (names : List Text) (n : Text) :
    below root (names ++ [n]) = (below root names).child n := by
  simp [below]

end

variable {α β σ : Type} {P : Disk → Prop}

/-- What a visit does with one entry of a directory. -/
def visitEntry (v : Visit σ) (depth : Nat) (names : List Text) (s : σ) (entry : Text × Disk.Kind) :
    Job σ :=
  if v.skips (below v.root (names ++ [entry.1])) then return s
  else
    match entry.2 with
    | .file => v.meet s (names ++ [entry.1]) .file
    | .dir => v.visitBelow depth (names ++ [entry.1]) s
    | .link => return s
    | .device => return s

theorem visitBelow_succ (v : Visit σ) (depth : Nat) (names : List Text) (s : σ) :
    v.visitBelow (depth + 1) names s =
      (look (·.listing (below v.root names)) >>= fun listing =>
        match listing with
        | .error e => v.meet s names (.unlisted e)
        | .ok entries => entries.foldlM (visitEntry v depth names) s) := rfl

theorem result_visitBelow (v : Visit σ) (depth : Nat) (names : List Text) (s : σ) (w : Work) :
    (v.visitBelow (depth + 1) names s).result w =
      match w.disk.listing (below v.root names) with
      | .error fault => (v.meet s names (.unlisted fault)).result w
      | .ok entries => (entries.foldlM (visitEntry v depth names) s).result w := by
  rw [visitBelow_succ, Job.result_bind, Job.result_look]
  cases w.disk.listing (below v.root names) <;> rfl

/-- Whether a job that starts from a disk with the property leaves one with it, whatever the
answer. -/
def Keeps (P : Disk → Prop) (job : Job α) : Prop :=
  ∀ w, P w.disk → P (job.result w).2.disk

namespace Keeps

theorem pure (a : α) : Keeps P (pure a : Job α) := fun _ h => h

theorem fail (f : Failure) : Keeps P (fail f : Job α) := fun _ h => h

theorem say (topic : Log.Topic) (message : Text) : Keeps P (say topic message) := fun _ h => h

theorem detail (topic : Log.Topic) (message : Text) : Keeps P (detail topic message) :=
  fun _ h => h

theorem bind {job : Job α} {f : α → Job β} (hjob : Keeps P job) (hf : ∀ a, Keeps P (f a)) :
    Keeps P (job >>= f) := by
  intro w hw
  have hafter := hjob w hw
  rw [Job.result_bind]
  rcases h : job.result w with ⟨answer, after⟩
  rw [h] at hafter
  cases answer with
  | ok a => exact hf a after hafter
  | error e => exact hafter

theorem ask (question : Disk → α) : Keeps P (Build.look question) := fun _ h => h

/-- What a disk says can be used in what follows. -/
theorem look {ask : Disk → α} {f : α → Job β}
    (hf : ∀ w, P w.disk → P ((f (ask w.disk)).result w).2.disk) : Keeps P (look ask >>= f) := by
  intro w hw
  rw [Job.result_bind]
  exact hf w hw

theorem change {c : Disk.Change} (hc : ∀ d, P d → P (c d).2) (wording : Disk.Fault → Failure) :
    Keeps P (change c wording) := by
  intro w hw
  rw [Job.result_change]
  exact hc w.disk hw

theorem attempt {job : Job α} (hjob : Keeps P job) : Keeps P job.attempt := by
  intro w hw
  have hafter := hjob w hw
  rw [Job.result_attempt]
  rcases h : job.result w with ⟨answer, after⟩
  rw [h] at hafter
  cases answer with
  | ok a => exact hafter
  | error e => cases e <;> exact hafter

/-- An answer that is there already can be used in what follows. -/
theorem lift {answer : Except Stop α} {f : α → Job β} (hf : ∀ a, answer = .ok a → Keeps P (f a)) :
    Keeps P ((liftM answer : Job α) >>= f) := by
  intro w hw
  rw [Job.result_bind, Job.result_lift]
  cases answer with
  | ok a => exact hf a rfl w hw
  | error e => exact hw

theorem orFail {ε : Type} {wording : ε → Failure} (answer : Except ε α) :
    Keeps P (orFail wording answer : Job α) := by
  intro w hw
  rw [Job.result_orFail]
  exact hw

theorem foldlM {f : β → α → Job β} (items : List α) (hf : ∀ b, ∀ a ∈ items, Keeps P (f b a))
    (b : β) : Keeps P (items.foldlM f b) := by
  induction items generalizing b with
  | nil => exact Keeps.pure b
  | cons a items ih =>
      rw [List.foldlM_cons]
      refine (hf b a List.mem_cons_self).bind fun b' => ih (fun c x hx => ?_) b'
      exact hf c x (List.mem_cons_of_mem a hx)

theorem forM {f : α → Job PUnit} (items : List α) (hf : ∀ a, Keeps P (f a)) :
    Keeps P (items.forM f) := by
  induction items with
  | nil => exact Keeps.pure _
  | cons a items ih => exact (hf a).bind fun _ => ih

theorem visitEntry {v : Visit σ}
    (hmeet : ∀ s names m, (∀ n ∈ names, Disk.IsName n) → (m = .file → names ≠ []) →
      Keeps P (v.meet s names m))
    {depth : Nat} {names : List Text} {entry : Text × Disk.Kind}
    (hnames : ∀ n ∈ names ++ [entry.1], Disk.IsName n) (s : σ)
    (hdown : entry.2 = .dir → Keeps P (v.visitBelow depth (names ++ [entry.1]) s)) :
    Keeps P (visitEntry v depth names s entry) := by
  unfold Build.visitEntry
  split
  · exact Keeps.pure s
  · cases hentry : entry.2 with
    | file => exact hmeet s _ .file hnames (by simp)
    | dir => exact hdown hentry
    | link | device => exact Keeps.pure s

/-- A visit keeps what it keeps on every meeting. What it meets is never the start itself, unless
that cannot be listed. -/
theorem visitBelow {v : Visit σ} (hplain : ∀ d, P d → d.Plain)
    (hmeet : ∀ s names m, (∀ n ∈ names, Disk.IsName n) → (m = .file → names ≠ []) →
      Keeps P (v.meet s names m))
    (depth : Nat) {names : List Text} (hnames : ∀ n ∈ names, Disk.IsName n) (s : σ) :
    Keeps P (v.visitBelow depth names s) := by
  induction depth generalizing names s with
  | zero => exact Keeps.pure s
  | succ depth ih =>
      rw [visitBelow_succ]
      apply Keeps.look
      intro w hw
      cases hlisting : w.disk.listing (below v.root names) with
      | error e => exact hmeet s names (.unlisted e) hnames (by simp) w hw
      | ok entries =>
          refine Keeps.foldlM entries (fun t e he => ?_) s w hw
          have hnames' := Disk.isName_concat_of_listing (hplain _ hw) hlisting hnames he
          exact Keeps.visitEntry hmeet hnames' t fun _ => ih hnames' t

theorem visit {v : Visit σ} (habs : v.root.isAbsolute) (hplain : ∀ d, P d → d.Plain)
    (hroot : ∀ d, P d → d.root.bytesAt v.root.place = none)
    (hmeet : ∀ s names m, (∀ n ∈ names, Disk.IsName n) → (m = .file → names ≠ []) →
      Keeps P (v.meet s names m))
    (s : σ) : Keeps P (v.run s) := by
  have hbelow : Keeps P (v.visitBelow Disk.maxPath [] s) :=
    visitBelow hplain hmeet Disk.maxPath (by simp) s
  unfold Visit.run
  apply Keeps.look
  intro w hw
  cases hnode : w.disk.nodeItself? v.root with
  | error e => exact hmeet s [] (.unlisted e) (by simp) (by simp) w hw
  | ok m =>
      have hget := Disk.get?_of_nodeItself? (hplain _ hw) habs hnode
      cases m with
      | file bytes =>
          have hnone := hroot _ hw
          rw [Disk.Node.bytesAt, hget] at hnone
          cases hnone
      | dir _ => exact hbelow w hw
      | sink => exact hw
      | link target => exact absurd hget (Disk.Node.get?_ne_link (hplain _ hw).tree target)

end Keeps

end Build

end Quire
