import Quire.Proofs.Build.Lasting

/-!
Jobs that are done again after all that came of them. A job is steady if it answers the same then
and leaves the same files; jobs that are put together from steady jobs are steady, and so are whole
visits below a directory that is not changed.
-/

namespace Quire.Build

open Disk (Place Plain Node IsName Leads)
open Quire.Path (Ordinary Straight)

variable {α β σ : Type} {d e last : Disk} {free : Place → Prop} {place : Place} {output : Path}
  {names : List Text} {P Q : Disk → Prop}

/-- A job that changes nothing but what is free, if it starts with a property. -/
def Grows (output : Path) (free : Place → Prop) (P : Disk → Prop) (job : Job α) : Prop :=
  ∀ w, Ready output w.disk → P w.disk → Reworked free w.disk (job.result w).2.disk

/-- What comes after a job may use what the job has brought about. -/
theorem Grows.bind {job : Job α} {f : α → Job β} {Q : α → Disk → Prop}
    (hjob : Grows output free P job) (hf : ∀ a, Grows output free (Q a) (f a))
    (hQ : ∀ w a, Ready output w.disk → P w.disk → (job.result w).1 = .ok a →
      Q a (job.result w).2.disk) : Grows output free P (job >>= f) := by
  intro w hw hP
  have hfirst := hjob w hw hP
  have hafter := hQ w
  rw [Job.result_bind]
  rcases hresult : job.result w with ⟨answer, mid⟩
  rw [hresult] at hfirst hafter
  cases answer with
  | error stop => exact hfirst
  | ok a => exact hfirst.trans (hf a mid (hw.mono hfirst) (hafter a hw hP rfl))

/-- A job that answers the same when it is done again after the end of its run, if it starts with a
property. -/
structure Steady (output : Path) (free : Place → Prop) (last : Disk) (P : Disk → Prop)
    (job : Job α) : Prop where
  grows : Grows output free P job
  again : ∀ w w', Ready output w.disk → P w.disk → Trails last w.disk w'.disk →
    Reworked free (job.result w).2.disk last →
    (job.result w').1 = (job.result w).1 ∧
      Trails last (job.result w).2.disk (job.result w').2.disk

namespace Steady

/-- A job that leaves the disk alone and answers without looking at it. -/
theorem silent {job : Job α} {answer : Except Stop α}
    (h : ∀ w, (job.result w).1 = answer ∧ (job.result w).2.disk = w.disk) :
    Steady output free last P job where
  grows w hw _ := by
    rw [(h w).2]
    exact Reworked.refl hw.plain
  again w w' _ _ htrails _ := by
    rw [(h w).1, (h w').1, (h w).2, (h w').2]
    exact ⟨rfl, htrails⟩

theorem pure (a : α) : Steady output free last P (pure a : Job α) := silent fun _ => ⟨rfl, rfl⟩

theorem fail (f : Failure) : Steady output free last P (fail f : Job α) :=
  silent fun _ => ⟨rfl, rfl⟩

theorem say (topic : Log.Topic) (message : Text) : Steady output free last P (say topic message) :=
  silent fun _ => ⟨rfl, rfl⟩

theorem detail (topic : Log.Topic) (message : Text) :
    Steady output free last P (detail topic message) := silent fun _ => ⟨rfl, rfl⟩

theorem orFail {ε : Type} {wording : ε → Failure} (answer : Except ε α) :
    Steady output free last P (orFail wording answer : Job α) := by
  cases answer with
  | ok a => exact Steady.pure a
  | error e => exact Steady.fail _

theorem weaken {job : Job α} (h : Steady output free last Q job)
    (hPQ : ∀ d, Ready output d → P d → Q d) : Steady output free last P job :=
  ⟨fun w hw hP => h.grows w hw (hPQ _ hw hP), fun w w' hw hP => h.again w w' hw (hPQ _ hw hP)⟩

/-- A job that needs nothing to start with. -/
theorem any {job : Job α} (h : Steady output free last (fun _ => True) job) :
    Steady output free last P job := h.weaken fun _ _ _ => trivial

theorem change {c : Disk.Change} (hc : Lasting output free last P c)
    (wording : Disk.Fault → Failure) : Steady output free last P (change c wording) where
  grows w hw hP := by
    rw [Job.result_change]
    exact hc.grows w.disk hw hP
  again w w' hw hP htrails := by
    rw [Job.result_change, Job.result_change]
    intro hlast
    obtain ⟨hanswer, htrails'⟩ := hc.again w.disk w'.disk hw hP htrails hlast
    rw [hanswer]
    exact ⟨rfl, htrails'⟩

theorem bind {job : Job α} {f : α → Job β} {Q : α → Disk → Prop}
    (hjob : Steady output free last P job) (hf : ∀ a, Steady output free last (Q a) (f a))
    (hQ : ∀ w a, Ready output w.disk → P w.disk → (job.result w).1 = .ok a →
      Q a (job.result w).2.disk) :
    Steady output free last P (job >>= f) where
  grows := hjob.grows.bind (fun a => (hf a).grows) hQ
  again w w' hw hP htrails := by
    have hfirst := hjob.grows w hw hP
    have hafter := hQ w
    have hagain := hjob.again w w' hw hP htrails
    rw [Job.result_bind, Job.result_bind]
    rcases hresult : job.result w with ⟨answer, mid⟩
    rcases hresult' : job.result w' with ⟨answer', mid'⟩
    rw [hresult] at hfirst hafter hagain
    rw [hresult'] at hagain
    cases answer with
    | error stop =>
        intro hlast
        obtain ⟨rfl, htrails'⟩ := hagain hlast
        exact ⟨rfl, htrails'⟩
    | ok a =>
        intro hlast
        have hmid := hw.mono hfirst
        have hQmid := hafter a hw hP rfl
        obtain ⟨rfl, htrails'⟩ := hagain (((hf a).grows mid hmid hQmid).trans hlast)
        exact (hf a).again mid mid' hmid hQmid htrails' hlast

/-- What comes after a job may need nothing of what the job has brought about. -/
theorem next {job : Job α} {f : α → Job β} (hjob : Steady output free last P job)
    (hf : ∀ a, Steady output free last (fun _ => True) (f a)) :
    Steady output free last P (job >>= f) := hjob.bind hf fun _ _ _ _ _ => trivial

/-- A job that goes on with what the disk says, which comes to the same the second time. -/
theorem look {ask : Disk → α} {f : α → Job β}
    (hsame : ∀ d e, Ready output d → P d → Trails last d e → Reworked free d last →
      f (ask e) = f (ask d))
    (hf : ∀ d, Ready output d → P d → Steady output free last (· = d) (f (ask d))) :
    Steady output free last P (look ask >>= f) where
  grows w hw hP := by
    rw [Job.result_bind]
    exact (hf w.disk hw hP).grows w hw rfl
  again w w' hw hP htrails hlast := by
    have hsteady := hf w.disk hw hP
    rw [Job.result_bind] at hlast
    rw [Job.result_bind, Job.result_bind]
    have heq := hsame w.disk w'.disk hw hP htrails ((hsteady.grows w hw rfl).trans hlast)
    simp only [Job.result_look, heq]
    exact hsteady.again w w' hw rfl htrails hlast

/-- An answer that is there already can be used in what follows. -/
theorem lift {answer : Except Stop α} {f : α → Job β}
    (hf : ∀ a, answer = .ok a → Steady output free last P (f a)) :
    Steady output free last P ((liftM answer : Job α) >>= f) := by
  cases answer with
  | ok a =>
      have heq : ((liftM (.ok a : Except Stop α) : Job α) >>= f) = f a := rfl
      rw [heq]
      exact hf a rfl
  | error stop => exact silent fun _ => ⟨rfl, rfl⟩

theorem attempt {job : Job α} (hjob : Steady output free last P job) :
    Steady output free last P job.attempt where
  grows w hw hP := by
    have hgrows := hjob.grows w hw hP
    rw [Job.result_attempt]
    rcases hresult : job.result w with ⟨answer, mid⟩
    rw [hresult] at hgrows
    cases answer with
    | ok a => exact hgrows
    | error stop => cases stop <;> exact hgrows
  again w w' hw hP htrails := by
    have hagain := hjob.again w w' hw hP htrails
    rw [Job.result_attempt, Job.result_attempt]
    rcases hresult : job.result w with ⟨answer, mid⟩
    rcases hresult' : job.result w' with ⟨answer', mid'⟩
    rw [hresult, hresult'] at hagain
    rcases answer with (f | ext) | a
    all_goals
      intro hlast
      obtain ⟨rfl, htrails'⟩ := hagain hlast
      exact ⟨rfl, htrails'⟩

theorem foldlM {f : β → α → Job β} (items : List α)
    (hf : ∀ b, ∀ a ∈ items, Steady output free last (fun _ => True) (f b a)) (b : β) :
    Steady output free last (fun _ => True) (items.foldlM f b) := by
  induction items generalizing b with
  | nil => exact Steady.pure b
  | cons a items ih =>
      rw [List.foldlM_cons]
      refine (hf b a List.mem_cons_self).next fun b' => ih (fun c x hx => ?_) b'
      exact hf c x (List.mem_cons_of_mem a hx)

theorem forM {f : α → Job PUnit} (items : List α)
    (hf : ∀ a, Steady output free last (fun _ => True) (f a)) :
    Steady output free last (fun _ => True) (items.forM f) := by
  induction items with
  | nil => exact Steady.pure _
  | cons a items ih => exact (hf a).next fun _ => ih

end Steady

/-- What is not in the output, and what is in a directory that is not in the output, is not
changed inside of the output. -/
theorem fixed_child (h : ¬ output.place <+: place) (n : Text) :
    Fixed (Inside output.place) (place ++ [n]) := by
  rintro q hq ⟨m, rest, rfl⟩
  refine h (List.prefix_of_prefix_length_le ((List.prefix_append _ _).trans hq)
    (List.prefix_append place [n]) ?_)
  have hlength := hq.length_le
  simp only [List.length_append, List.length_cons, List.length_nil] at hlength
  omega

theorem fixed_of_not_isPrefix (h : ¬ output.place <+: place) :
    Fixed (Inside output.place) place := by
  intro q hq
  exact fixed_child h [] q (hq.trans (List.prefix_append _ _))

theorem Steady.visitEntry {v : Visit σ} (hout : Straight output) (hroot : Straight v.root)
    (hskips : v.skips = output.isWithin)
    (hmeet : ∀ s names m, (∀ n ∈ names, IsName n) → (m = .file → names ≠ []) →
      ¬ output.place <+: (below v.root names).place →
      Steady output (Inside output.place) last (fun _ => True) (v.meet s names m))
    {depth : Nat} {entry : Text × Disk.Kind} (hnames : ∀ n ∈ names ++ [entry.1], IsName n) (s : σ)
    (hdown : ¬ output.place <+: (below v.root (names ++ [entry.1])).place →
      Steady output (Inside output.place) last (fun _ => True)
        (v.visitBelow depth (names ++ [entry.1]) s)) :
    Steady output (Inside output.place) last (fun _ => True) (visitEntry v depth names s entry) := by
  unfold Build.visitEntry
  split
  · exact Steady.pure s
  · next hskip =>
      have hstraight : Straight (below v.root (names ++ [entry.1])) :=
        hroot.foldl_child fun n hn => (hnames n hn).toOrdinary
      have hplace : ¬ output.place <+: (below v.root (names ++ [entry.1])).place := by
        intro hpre
        rw [hskips] at hskip
        exact hskip ((hstraight.isWithin_iff hout).2 hpre)
      cases entry.2 with
      | file => exact hmeet s _ .file hnames (by simp) hplace
      | dir => exact hdown hplace
      | link | device => exact Steady.pure s

/-- A visit that passes by the output meets nothing that came of its own run. -/
theorem Steady.visitBelow {v : Visit σ} (hout : Straight output) (hroot : Straight v.root)
    (hskips : v.skips = output.isWithin)
    (hmeet : ∀ s names m, (∀ n ∈ names, IsName n) → (m = .file → names ≠ []) →
      ¬ output.place <+: (below v.root names).place →
      Steady output (Inside output.place) last (fun _ => True) (v.meet s names m))
    (depth : Nat) (hnames : ∀ n ∈ names, IsName n)
    (hplace : ¬ output.place <+: (below v.root names).place) (s : σ) :
    Steady output (Inside output.place) last (fun _ => True) (v.visitBelow depth names s) := by
  induction depth generalizing names s with
  | zero => exact Steady.pure s
  | succ depth ih =>
      have hbelow : Straight (below v.root names) :=
        hroot.foldl_child fun n hn => (hnames n hn).toOrdinary
      rw [visitBelow_succ]
      refine Steady.look (fun d e hd _ htrails hlast => ?_) fun d hd _ => ?_
      · have halike := htrails.alike hlast hd.plain (fixed_of_not_isPrefix hplace)
        rw [halike.listing hbelow fun n => ?_]
        exact htrails.kindAt_eq hlast (fixed_child hplace n _ (List.prefix_refl _))
      · cases hlisting : d.listing (below v.root names) with
        | error f => exact (hmeet s names (.unlisted f) hnames (by simp) hplace).any
        | ok entries =>
            refine (Steady.foldlM entries (fun t e he => ?_) s).any
            have hnames' := Disk.isName_concat_of_listing hd.plain hlisting hnames he
            exact Steady.visitEntry hout hroot hskips hmeet hnames' t fun hplace' =>
              ih hnames' hplace' t

/-- A visit is steady if what it does with its start is, and if the start stays what it is. -/
theorem Steady.run {v : Visit σ} (hroot : Straight v.root) (hfixed : Fixed free v.root.place) (s : σ)
    (hunlisted : ∀ f, Steady output free last P (v.meet s [] (.unlisted f)))
    (hfile : ∀ d, Ready output d → P d → d.root.kindAt v.root.place = some .file →
      Steady output free last (· = d) (v.meet s [] .file))
    (hbelow : ∀ d, Ready output d → P d → d.root.kindAt v.root.place = some .dir →
      Steady output free last (· = d) (v.visitBelow Disk.maxPath [] s)) :
    Steady output free last P (v.run s) := by
  unfold Visit.run
  refine Steady.look (fun d e hd _ htrails hlast => ?_) fun d hd hP => ?_
  · have halike := htrails.alike hlast hd.plain hfixed
    rw [Disk.nodeItself?_eq_node? hd.plain, Disk.nodeItself?_eq_node? htrails.plain]
    rcases halike.node? hroot with ⟨f, hnode, hnode'⟩ | ⟨k, m, hnode, hnode', _, _, hkind⟩
    · rw [hnode, hnode']
    · rw [hnode, hnode']
      cases k <;> cases m <;> first | rfl | cases hkind
  · cases hnode : d.nodeItself? v.root with
    | error f =>
        apply (hunlisted f).weaken
        rintro _ _ rfl
        exact hP
    | ok m =>
        have hget := Disk.get?_of_nodeItself? hd.plain hroot.isAbsolute hnode
        have hkind : d.root.kindAt v.root.place = some m.kind := by
          rw [Node.kindAt, hget]
          rfl
        cases m with
        | file bytes => exact hfile d hd hP hkind
        | dir _ => exact hbelow d hd hP hkind
        | sink => exact Steady.pure s
        | link target => exact absurd hget (Node.get?_ne_link hd.plain.tree target)

/-- A visit of a directory that passes by the output. -/
theorem Steady.visit {v : Visit σ} (hout : Straight output) (hroot : Straight v.root)
    (hskips : v.skips = output.isWithin) (hplace : ¬ output.place <+: v.root.place)
    (hnoFile : ∀ d, P d → d.root.kindAt v.root.place ≠ some .file)
    (hmeet : ∀ s names m, (∀ n ∈ names, IsName n) → (m = .file → names ≠ []) →
      ¬ output.place <+: (below v.root names).place →
      Steady output (Inside output.place) last (fun _ => True) (v.meet s names m))
    (s : σ) :
    Steady output (Inside output.place) last P (v.run s) := by
  refine Steady.run hroot (fixed_of_not_isPrefix hplace) s (fun f => ?_) (fun d _ hP hfile => ?_)
    fun d _ _ _ => ?_
  · exact (hmeet s [] (.unlisted f) (by simp) (by simp) hplace).any
  · exact absurd hfile (hnoFile d hP)
  · refine (Steady.visitBelow hout hroot hskips hmeet Disk.maxPath (by simp) ?_ s).any
    exact hplace

end Quire.Build
