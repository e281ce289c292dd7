import Mathlib.Data.List.Nodup
import Mathlib.Data.List.Range
import Quire.Proofs.Path.Naming
import Quire.Template.Module

/-!
The ids of islands. The islands of one module are numbered one after the other, and an id tells the
beginning that all ids of its module share from the number.
-/

namespace Quire

namespace Text

theorem ofNat_inj {m n : Nat} (h : ofNat m = ofNat n) : m = n := by
  rw [← Nat.ofDigitChars_toDigits (b := 10) (n := m) (by decide) (by decide),
    ← Nat.ofDigitChars_toDigits (b := 10) (n := n) (by decide) (by decide)]
  exact congrArg (Nat.ofDigitChars 10 · 0) h

theorem dash_not_mem_ofNat (n : Nat) : '-' ∉ ofNat n := by
  intro h
  have hdigit := Nat.isDigit_of_mem_toDigits (by decide) (by decide) h
  exact absurd hdigit (by decide)

end Text

namespace Template

variable {stem stem' : Text} {m n : Nat}

theorem islandId_inj : islandId stem m = islandId stem' n ↔ stem = stem' ∧ m = n := by
  constructor
  · intro h
    have hcut := congrArg (Text.cutLast '-') h
    unfold islandId at hcut
    rw [Text.cutLast_append (Text.dash_not_mem_ofNat m),
      Text.cutLast_append (Text.dash_not_mem_ofNat n)] at hcut
    obtain ⟨hstem, hnumber⟩ := Prod.mk.inj (Option.some.inj hcut)
    exact ⟨hstem, Text.ofNat_inj hnumber⟩
  · rintro ⟨rfl, rfl⟩
    rfl

/-- The ids of the first islands of a module. -/
def islandIds (stem : Text) (count : Nat) : List Text := (List.range count).map (islandId stem)

theorem nodup_islandIds (stem : Text) (count : Nat) : (islandIds stem count).Nodup :=
  List.Nodup.map (fun _ _ h => (islandId_inj.1 h).2) List.nodup_range

/-- Every module with islands has a first one, so two have an id in common exactly if theirs begin
alike. -/
theorem disjoint_islandIds :
    (islandIds stem m).Disjoint (islandIds stem' n) ↔ (m ≠ 0 → n ≠ 0 → stem ≠ stem') := by
  constructor
  · rintro h hm hn rfl
    have hfirst : ∀ {k : Nat}, k ≠ 0 → islandId stem 0 ∈ islandIds stem k := fun hk =>
      List.mem_map_of_mem (List.mem_range.2 (Nat.pos_of_ne_zero hk))
    exact h (hfirst hm) (hfirst hn)
  · intro h id hid hid'
    obtain ⟨i, hi, rfl⟩ := List.mem_map.1 hid
    obtain ⟨j, hj, heq⟩ := List.mem_map.1 hid'
    have hi := List.mem_range.1 hi
    have hj := List.mem_range.1 hj
    exact h (by omega) (by omega) (islandId_inj.1 heq).1.symm

theorem ids_bodyIslands (stem : Text) (imports : List Import) (n : Nat) (pieces : List Piece) :
    (bodyIslands stem imports n pieces).map (·.id) =
      (List.range' n (bodyIslands stem imports n pieces).length).map (islandId stem) := by
  fun_induction bodyIslands stem imports n pieces with
  | case1 n => rfl
  | case2 n name attributes rest ih => simp [List.range'_succ, ih]
  | case3 n piece rest _ ih => exact ih

/-- A module numbers its islands from zero on. -/
theorem ids_of_compile {ext : Extensions} {moduleId source : Text} {made : Module}
    (h : compile ext moduleId source = .ok made) :
    made.islands.map (·.id) = islandIds (idStem moduleId) made.islands.length := by
  unfold compile at h
  cases hread : read source with
  | error e =>
      rw [hread] at h
      cases h
  | ok s =>
      rw [hread] at h
      obtain rfl := Except.ok.inj h
      have hids := ids_bodyIslands (idStem moduleId) s.imports 0 s.pieces
      rwa [← List.range_eq_range'] at hids

/-- The component that a piece leaves to the browser. -/
def clientUse? : Piece → Option Text
  | .component name _ true => some name
  | _ => none

/-- The islands of a body are its components for the browser, in the order of the body. -/
theorem names_bodyIslands (stem : Text) (imports : List Import) (n : Nat) (pieces : List Piece) :
    (bodyIslands stem imports n pieces).map (·.name) = pieces.filterMap clientUse? := by
  fun_induction bodyIslands stem imports n pieces with
  | case1 n => rfl
  | case2 n name attributes rest ih => simp [clientUse?, ih]
  | case3 n piece rest hpiece ih =>
      have hnone : clientUse? piece = none := by
        unfold clientUse?
        split
        · next name attributes => exact absurd rfl (hpiece name attributes)
        · rfl
      rw [List.filterMap_cons_none hnone, ih]

end Template

end Quire
