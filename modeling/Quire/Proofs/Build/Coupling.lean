import Quire.Proofs.Build.Keeping

/-!
Two jobs side by side. Jobs are coupled if they end alike whenever they start on related disks, and
leave related disks; jobs that are put together alike from coupled jobs are coupled, and so are two
visits that find the same listed and pass by the same, or by what holds nothing for them.
-/

namespace Quire.Build

variable {α β γ δ σ τ : Type} {R : Disk → Disk → Prop} {F : Failure → Failure → Prop}
  {A : α → β → Prop} {B : γ → δ → Prop}

/-- Two answers that are related, or two ends that came early in the same way. -/
inductive Matches (F : Failure → Failure → Prop) (A : α → β → Prop) :
    Except Stop α → Except Stop β → Prop
  | ok {a : α} {b : β} (h : A a b) : Matches F A (.ok a) (.ok b)
  | failure {f g : Failure} (h : F f g) : Matches F A (.error (.failure f)) (.error (.failure g))
  | badExtension (ext : Text) :
      Matches F A (.error (.badExtension ext)) (.error (.badExtension ext))

theorem Matches.refl (hF : ∀ f, F f f) (answer : Except Stop α) : Matches F Eq answer answer := by
  rcases answer with (f | ext) | a
  · exact .failure (hF f)
  · exact .badExtension ext
  · exact .ok rfl

/-- How two jobs end that are started on two disks. -/
structure CoupledAt (R : Disk → Disk → Prop) (F : Failure → Failure → Prop) (A : α → β → Prop)
    (job : Job α) (w : Work) (job' : Job β) (w' : Work) : Prop where
  answers : Matches F A (job.result w).1 (job'.result w').1
  disks : R (job.result w).2.disk (job'.result w').2.disk

/-- Jobs that end alike on related disks. -/
def Coupled (R : Disk → Disk → Prop) (F : Failure → Failure → Prop) (A : α → β → Prop)
    (job : Job α) (job' : Job β) : Prop :=
  ∀ w w', R w.disk w'.disk → CoupledAt R F A job w job' w'

/-- Answers of attempts that are related: two answers, or two failures. -/
inductive Tried (F : Failure → Failure → Prop) (A : α → β → Prop) :
    Except Failure α → Except Failure β → Prop
  | ok {a : α} {b : β} (h : A a b) : Tried F A (.ok a) (.ok b)
  | error {f g : Failure} (h : F f g) : Tried F A (.error f) (.error g)

theorem CoupledAt.bind {job : Job α} {job' : Job β} {f : α → Job γ} {g : β → Job δ} {w w' : Work}
    (hjob : CoupledAt R F A job w job' w') (hf : ∀ a b, A a b → Coupled R F B (f a) (g b)) :
    CoupledAt R F B (job >>= f) w (job' >>= g) w' := by
  obtain ⟨hanswers, hdisks⟩ := hjob
  constructor
  all_goals
    rw [Job.result_bind, Job.result_bind]
    rcases hresult : job.result w with ⟨answer, mid⟩
    rcases hresult' : job'.result w' with ⟨answer', mid'⟩
    rw [hresult, hresult'] at hanswers hdisks
    cases hanswers with
    | ok h =>
        first
          | exact (hf _ _ h mid mid' hdisks).answers
          | exact (hf _ _ h mid mid' hdisks).disks
    | failure h => first | exact .failure h | exact hdisks
    | badExtension ext => first | exact .badExtension ext | exact hdisks

/-- What follows may use what the two disks say. -/
theorem CoupledAt.look {ask : Disk → α} {ask' : Disk → β} {f : α → Job γ} {g : β → Job δ}
    {w w' : Work} (hf : CoupledAt R F B (f (ask w.disk)) w (g (ask' w'.disk)) w') :
    CoupledAt R F B (Build.look ask >>= f) w (Build.look ask' >>= g) w' := ⟨hf.answers, hf.disks⟩

namespace Coupled

theorem pure {a : α} {b : β} (h : A a b) : Coupled R F A (pure a) (pure b) :=
  fun _ _ hR => ⟨.ok h, hR⟩

theorem fail {f g : Failure} (h : F f g) : Coupled R F A (fail f) (fail g) :=
  fun _ _ hR => ⟨.failure h, hR⟩

/-- One answer for both. -/
theorem orFail {ε : Type} {wording : ε → Failure} (hF : ∀ f, F f f) (answer : Except ε α) :
    Coupled R F Eq (orFail wording answer) (orFail wording answer) := by
  cases answer with
  | error e => exact Coupled.fail (hF _)
  | ok a => exact Coupled.pure rfl

theorem say (topic topic' : Log.Topic) (message message' : Text) :
    Coupled R F (fun _ _ => True) (say topic message) (say topic' message') :=
  fun _ _ hR => ⟨.ok trivial, hR⟩

theorem detail (topic topic' : Log.Topic) (message message' : Text) :
    Coupled R F (fun _ _ => True) (detail topic message) (detail topic' message') :=
  fun _ _ hR => ⟨.ok trivial, hR⟩

theorem bind {job : Job α} {job' : Job β} {f : α → Job γ} {g : β → Job δ}
    (hjob : Coupled R F A job job') (hf : ∀ a b, A a b → Coupled R F B (f a) (g b)) :
    Coupled R F B (job >>= f) (job' >>= g) :=
  fun w w' hR => (hjob w w' hR).bind hf

/-- An answer that is there already. -/
theorem lift {answer : Except Stop α} {answer' : Except Stop β} (h : Matches F A answer answer') :
    Coupled R F A (liftM answer) (liftM answer') := by
  intro w w' hR
  constructor
  all_goals rw [Job.result_lift, Job.result_lift]
  · exact h
  · exact hR

theorem look {ask : Disk → α} {ask' : Disk → β} {f : α → Job γ} {g : β → Job δ}
    (hf : ∀ w w', R w.disk w'.disk → CoupledAt R F B (f (ask w.disk)) w (g (ask' w'.disk)) w') :
    Coupled R F B (look ask >>= f) (look ask' >>= g) := fun w w' hR => (hf w w' hR).look

theorem change {c c' : Disk.Change} {wording wording' : Disk.Fault → Failure}
    (hdisks : ∀ d e, R d e → R (c d).2 (c' e).2)
    (hanswers : ∀ d e, R d e → (c d).1 = .ok () ∧ (c' e).1 = .ok () ∨
      ∃ f g, (c d).1 = .error f ∧ (c' e).1 = .error g ∧ F (wording f) (wording' g)) :
    Coupled R F (fun _ _ => True) (change c wording) (change c' wording') := by
  intro w w' hR
  have hafter := hdisks _ _ hR
  refine ⟨?_, by rwa [Job.result_change, Job.result_change]⟩
  rw [Job.result_change, Job.result_change]
  rcases hanswers _ _ hR with ⟨h, h'⟩ | ⟨f, g, h, h', hF⟩
  · rw [h, h']
    exact .ok trivial
  · rw [h, h']
    exact .failure hF

/-- Attempts do not fail, so it may be said of failures what one likes. -/
theorem attempt {G : Failure → Failure → Prop} {job : Job α} {job' : Job β}
    (hjob : Coupled R F A job job') : Coupled R G (Tried F A) job.attempt job'.attempt := by
  intro w w' hR
  obtain ⟨hanswers, hdisks⟩ := hjob w w' hR
  constructor
  all_goals
    rw [Job.result_attempt, Job.result_attempt]
    rcases hresult : job.result w with ⟨answer, mid⟩
    rcases hresult' : job'.result w' with ⟨answer', mid'⟩
    rw [hresult, hresult'] at hanswers hdisks
    cases hanswers with
    | ok h => first | exact .ok (.ok h) | exact hdisks
    | failure h => first | exact .ok (.error h) | exact hdisks
    | badExtension ext => first | exact .badExtension ext | exact hdisks

theorem forM {f g : γ → Job PUnit} (items : List γ)
    (hf : ∀ x, Coupled R F (fun _ _ => True) (f x) (g x)) :
    Coupled R F (fun _ _ => True) (items.forM f) (items.forM g) := by
  induction items with
  | nil => exact Coupled.pure trivial
  | cons x items ih => exact (hf x).bind fun _ _ _ => ih

/-- The same items in one order. -/
theorem foldlM {f : α → γ → Job α} {g : β → γ → Job β} (items : List γ)
    (hf : ∀ a b, A a b → ∀ x ∈ items, Coupled R F A (f a x) (g b x)) {a : α} {b : β} (h : A a b) :
    Coupled R F A (items.foldlM f a) (items.foldlM g b) := by
  induction items generalizing a b with
  | nil => exact Coupled.pure h
  | cons x items ih =>
      rw [List.foldlM_cons, List.foldlM_cons]
      refine (hf a b h x List.mem_cons_self).bind fun a' b' h' => ih (fun c d hcd y hy => ?_) h'
      exact hf c d hcd y (List.mem_cons_of_mem x hy)

end Coupled

/-- A directory all of whose entries a visit passes by. -/
def Visit.Hollow (v : Visit σ) (d : Disk) (names : List Text) : Prop :=
  ∃ entries, d.listing (below v.root names) = .ok entries ∧
    ∀ entry ∈ entries, v.skips (below v.root (names ++ [entry.1]))

/-- Nothing comes of the visit of a hollow directory. -/
theorem Visit.Hollow.visitBelow_idle {v : Visit σ} {w : Work} {names : List Text}
    (h : v.Hollow w.disk names) (depth : Nat) (s : σ) :
    (v.visitBelow depth names s).result w = (.ok s, w) := by
  obtain ⟨entries, hlisting, hskips⟩ := h
  cases depth with
  | zero => rfl
  | succ depth =>
      rw [result_visitBelow, hlisting]
      simp only
      clear hlisting
      induction entries with
      | nil => rfl
      | cons entry entries ih =>
          have hentry : visitEntry v depth names s entry = pure s := by
            unfold visitEntry
            rw [if_pos (hskips entry List.mem_cons_self)]
          rw [List.foldlM_cons, hentry, pure_bind]
          exact ih fun other hother => hskips other (List.mem_cons_of_mem entry hother)

/-- What two visits do with an entry: both pass by it, or both go on to it, or at most one passes by
and nothing comes of it for the other. -/
inductive Abreast (R : Disk → Disk → Prop) (N : List Text → Prop) (v : Visit σ) (v' : Visit τ)
    (names : List Text) (kind : Disk.Kind) : Prop
  | past (h : v.skips (below v.root names)) (h' : v'.skips (below v'.root names))
  | onto (h : ¬ v.skips (below v.root names)) (h' : ¬ v'.skips (below v'.root names))
      (hN : N names)
  | hollow (hkind : kind = .dir) (h : ∀ d e, R d e → v.Hollow d names ∧ v'.Hollow e names)

/-- Two visits that find the same on related disks wherever they come to. -/
structure Parallel (R : Disk → Disk → Prop) (N : List Text → Prop) (v : Visit σ) (v' : Visit τ) :
    Prop where
  listing : ∀ d e names, R d e → N names →
    e.listing (below v'.root names) = d.listing (below v.root names)
  entry : ∀ d e names entries, R d e → N names →
    d.listing (below v.root names) = .ok entries →
    ∀ entry ∈ entries, Abreast R N v v' (names ++ [entry.1]) entry.2

section

variable {A : σ → τ → Prop} {N : List Text → Prop} {v : Visit σ} {v' : Visit τ}
  {names : List Text} (hv : Parallel R N v v')
  (hmeet : ∀ s t names m, A s t → N names → (m = .file → names ≠ []) →
    Coupled R F A (v.meet s names m) (v'.meet t names m))

/-- Two jobs that do nothing. -/
theorem Coupled.idle {job : Job σ} {job' : Job τ} {s : σ} {t : τ} (h : A s t)
    (hjob : ∀ w w', R w.disk w'.disk →
      job.result w = (.ok s, w) ∧ job'.result w' = (.ok t, w')) : Coupled R F A job job' := by
  intro w w' hR
  obtain ⟨hresult, hresult'⟩ := hjob w w' hR
  constructor
  all_goals rw [hresult, hresult']
  · exact .ok h
  · exact hR

include hv hmeet

theorem Coupled.visitBelow (depth : Nat) (hnames : N names) {s : σ} {t : τ} (h : A s t) :
    Coupled R F A (v.visitBelow depth names s) (v'.visitBelow depth names t) := by
  induction depth generalizing names s t with
  | zero => exact Coupled.pure h
  | succ depth ih =>
      rw [visitBelow_succ, visitBelow_succ]
      refine Coupled.look fun w w' hR => ?_
      rw [hv.listing _ _ names hR hnames]
      cases hlisting : w.disk.listing (below v.root names) with
      | error f => exact hmeet s t names (.unlisted f) h hnames (by simp) w w' hR
      | ok entries =>
          refine Coupled.foldlM entries (fun s t h entry hentry => ?_) h w w' hR
          unfold visitEntry
          cases hv.entry _ _ names entries hR hnames hlisting entry hentry with
          | past hskip hskip' =>
              rw [if_pos hskip, if_pos hskip']
              exact Coupled.pure h
          | onto hskip hskip' hnext =>
              rw [if_neg hskip, if_neg hskip']
              cases entry.2 with
              | file => exact hmeet s t _ .file h hnext (fun _ => by simp)
              | dir => exact ih hnext h
              | link | device => exact Coupled.pure h
          | hollow hkind hhollow =>
              refine Coupled.idle h fun w w' hR => ?_
              obtain ⟨hd, he⟩ := hhollow _ _ hR
              simp only [hkind]
              constructor
              all_goals split
              · rfl
              · exact hd.visitBelow_idle depth s
              · rfl
              · exact he.visitBelow_idle depth t

/-- Visits are coupled if what they do with their starts is. -/
theorem Coupled.run (hnil : N [])
    (hroot : ∀ d e, R d e → (∃ f, d.nodeItself? v.root = .error f ∧
        e.nodeItself? v'.root = .error f) ∨
      ∃ m m', d.nodeItself? v.root = .ok m ∧ e.nodeItself? v'.root = .ok m' ∧
        m'.kind = m.kind ∧ m.kind ≠ .link)
    (hfile : ∀ w w' s t, R w.disk w'.disk → A s t →
      (∃ bytes, w.disk.nodeItself? v.root = .ok (.file bytes)) →
      CoupledAt R F A (v.meet s [] .file) w (v'.meet t [] .file) w')
    {s : σ} {t : τ} (h : A s t) : Coupled R F A (v.run s) (v'.run t) := by
  unfold Visit.run
  refine Coupled.look fun w w' hR => ?_
  rcases hroot _ _ hR with ⟨f, hnode, hnode'⟩ | ⟨m, m', hnode, hnode', hkind, hlink⟩
  · rw [hnode, hnode']
    exact hmeet s t [] (.unlisted f) h hnil (by simp) w w' hR
  · rw [hnode, hnode']
    cases m with
    | link target => exact absurd rfl hlink
    | file bytes =>
        cases m' <;> cases hkind
        exact hfile w w' s t hR h ⟨bytes, hnode⟩
    | dir children =>
        cases m' <;> cases hkind
        exact Coupled.visitBelow hv hmeet Disk.maxPath hnil h w w' hR
    | sink =>
        cases m' <;> cases hkind
        exact Coupled.pure h w w' hR

end

end Quire.Build
