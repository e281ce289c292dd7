import Quire.Proofs.Path.Relative
import Quire.Proofs.Path.Trailing

/-!
Paths below a directory that they never leave. Such a path leads to the same place below whatever
the directory is put at, and a change of its last stretch changes the last name of that place only.
-/

namespace Quire.Path

variable {p : Path} {n m : Text} {start names : List Text} {s : Step} {steps : List Step}

/-- Steps from so far below a directory do not lead above it. -/
def stays : List Text → List Step → Bool
  | _, [] => true
  | names, s :: steps => (s ≠ .up || names ≠ []) && stays (descend names s) steps

/-- Steps that stay inside do not depend on what is above. -/
theorem placeFrom_append_of_stays (hway : ∀ s ∈ steps, s.IsWay) (h : stays names steps)
    (start : List Text) :
    placeFrom (start ++ names) steps = start ++ placeFrom names steps := by
  induction steps generalizing names with
  | nil => rfl
  | cons s steps ih =>
      simp only [stays, Bool.and_eq_true] at h
      obtain ⟨hs, hrest⟩ := h
      have hstep : descend (start ++ names) s = start ++ descend names s := by
        rcases hway s List.mem_cons_self with rfl | ⟨n, -, rfl⟩
        · have hne : names ≠ [] := by simpa using hs
          exact List.dropLast_append_of_ne_nil hne
        · exact List.append_assoc start names [n]
      have htail := ih (fun t ht => hway t (List.mem_cons_of_mem s ht)) hrest
      exact (congrArg (placeFrom · steps) hstep).trans htail

theorem stays_append_left {more : List Step} (h : stays names (steps ++ more)) :
    stays names steps := by
  induction steps generalizing names with
  | nil => rfl
  | cons s steps ih =>
      simp only [List.cons_append, stays, Bool.and_eq_true] at h ⊢
      exact ⟨h.1, ih h.2⟩

/-- A path is the front of its last stretch, and the stretch. -/
theorem exists_front_of_getLast? (h : p.fields.getLast? = some n) :
    ∃ a, IsFront a ∧ p.text = a ++ n ∧ '/' ∉ n := by
  obtain ⟨fs, hfs⟩ := List.getLast?_eq_some_iff.1 h
  have hslash : ∀ f ∈ fs ++ [n], '/' ∉ f := fun f hf => noSlash_of_mem_fields (hfs ▸ hf)
  have hjoined : ∀ m, '/' ∉ m →
      Text.fields '/' (fs.flatMap (· ++ ['/']) ++ m) = fs ++ [m] := by
    intro m hm
    have hall : ∀ f ∈ fs ++ [m], '/' ∉ f := List.forall_mem_append.2
      ⟨fun f hf => hslash f (List.mem_append_left _ hf), List.forall_mem_singleton.2 hm⟩
    have hfields := Text.fields_intercalate (by simp : fs ++ [m] ≠ []) hall
    have htext := Text.flatMap_fields '/' (['/'].intercalate (fs ++ [m]))
    rw [hfields, List.flatMap_append, List.flatMap_singleton, ← List.append_assoc] at htext
    rw [List.append_cancel_right htext, hfields]
  refine ⟨fs.flatMap (· ++ ['/']), ⟨fs, rfl, hjoined⟩, ?_, hslash n (by simp)⟩
  have htext := Text.flatMap_fields '/' p.text
  have hp : Text.fields '/' p.text = fs ++ [n] := hfs
  rw [hp, List.flatMap_append, List.flatMap_singleton, ← List.append_assoc] at htext
  exact (List.append_cancel_right htext).symm

/-- The steps of a path that ends in a name: those of its front, and the name. -/
theorem IsFront.exists_inner {a : Text} (ha : IsFront a) :
    ∃ front : List Step, (∀ s ∈ front, s.IsWay) ∧
      ∀ n, Ordinary n → (Path.mk (a ++ n)).inner = front ++ [.name n] := by
  obtain ⟨fs, -, hfields⟩ := ha.exists_fields
  have hinner : ∀ n, Ordinary n →
      (Path.mk (a ++ n)).inner = fs.filterMap Step.ofField? ++ [.name n] := by
    intro n hn
    have hp : (Path.mk (a ++ n)).fields = fs ++ [n] := hfields n hn.noSlash
    rw [inner, hp, List.filterMap_append]
    simp [hn.ofField?]
  refine ⟨fs.filterMap Step.ofField?, fun s hs => ?_, hinner⟩
  refine eq_up_or_ordinary_of_mem_inner (p := ⟨a ++ ['x']⟩) ?_
  rw [hinner ['x'] (by decide)]
  exact List.mem_append_left _ hs

/-- What ends in a slash and begins a path begins the front of its last stretch. -/
theorem isPrefix_of_isPrefix_append {head a : Text} (h : head ++ ['/'] <+: a ++ n) (hn : '/' ∉ n) :
    head ++ ['/'] <+: a := by
  rcases List.prefix_or_prefix_of_prefix h (List.prefix_append a n) with hprefix | hprefix
  · exact hprefix
  · obtain ⟨t, ht⟩ := hprefix
    obtain rfl | ⟨t, c, rfl⟩ := List.eq_nil_or_concat' t
    · rw [List.append_nil] at ht
      rw [ht]
    · -- the slash would stand in the last stretch
      rw [← List.append_assoc] at ht
      obtain ⟨-, hc⟩ := List.append_inj' ht rfl
      obtain ⟨u, hu⟩ := h
      rw [← ht, List.append_assoc, List.append_assoc] at hu
      have hrest := List.append_cancel_left hu
      refine absurd ?_ hn
      rw [← hrest, hc]
      simp

end Quire.Path
