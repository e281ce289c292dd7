import Quire.Proofs.Disk.Change
import Quire.Proofs.Path.Straight

/-!
What is made when a directory is made with those above it: nothing but directories on the way to it,
if the path goes straight down.
-/

namespace Quire

namespace Path

variable {p a : Path}

/-- The paths above a straight one lead to the places on its way. -/
theorem Straight.place_isPrefix_of_mem_ancestry (h : Straight p) (ha : a ∈ p.ancestry) :
    a.place <+: p.place := by
  unfold ancestry at ha
  generalize p.steps.length = count at ha
  induction count generalizing p with
  | zero => cases ha
  | succ count ih =>
      rw [ancestry.climb] at ha
      split at ha
      · cases ha
      · next above habove =>
          obtain ⟨hstraight, hplace⟩ := h.parent? habove
          rcases List.mem_cons.1 ha with rfl | ha
          · exact List.prefix_refl _
          · exact (ih hstraight ha).trans (hplace ▸ List.dropLast_prefix _)

end Path

namespace Disk

open Quire.Path (Straight)

variable {d d' : Disk} {p : Path} {q : Place}

theorem seen_of_makeDir (hd : d.Plain) (hp : p.isAbsolute) (h : d.makeDir p = .ok d')
    (hq : p.place ≠ q) : d'.root.seen q = d.root.seen q := by
  obtain ⟨_, above, n, _, _, hplace, hroom, hnone, _, rfl⟩ := makeDir_ok hd h
  rw [placeOf_of_isAbsolute hp] at hplace
  rw [seen_put hroom (by rw [hnone]; simp) rfl, if_neg fun heq => hq (hplace.trans heq.symm)]

theorem seen_of_makeNearest {ps passed missing : List Path} (hd : d.Plain)
    (hps : ∀ p ∈ ps, p.isAbsolute ∧ p.place ≠ q) (hpassed : ∀ p ∈ passed, p.isAbsolute ∧ p.place ≠ q)
    (h : d.makeNearest passed ps = .ok (missing, d')) :
    d'.root.seen q = d.root.seen q ∧ ∀ p ∈ missing, p.isAbsolute ∧ p.place ≠ q := by
  induction ps generalizing passed with
  | nil =>
      obtain ⟨rfl, rfl⟩ := Prod.mk.inj (Except.ok.inj h)
      exact ⟨rfl, hpassed⟩
  | cons p ps ih =>
      obtain ⟨hp, hplace⟩ := hps p List.mem_cons_self
      rw [makeNearest] at h
      split at h
      · next after hmake =>
          obtain ⟨rfl, rfl⟩ := Prod.mk.inj (Except.ok.inj h)
          exact ⟨seen_of_makeDir hd hp hmake hplace, hpassed⟩
      · split at h
        · exact ih (fun a ha => hps a (List.mem_cons_of_mem p ha))
            (List.forall_mem_cons.2 ⟨⟨hp, hplace⟩, hpassed⟩) h
        · split at h
          · obtain ⟨rfl, rfl⟩ := Prod.mk.inj (Except.ok.inj h)
            exact ⟨rfl, hpassed⟩
          · cases h

theorem seen_makeEach {ps : List Path} (hd : d.Plain)
    (hps : ∀ p ∈ ps, p.isAbsolute ∧ p.place ≠ q) :
    (makeEach ps d).2.root.seen q = d.root.seen q := by
  induction ps generalizing d with
  | nil => rfl
  | cons p ps ih =>
      obtain ⟨hp, hplace⟩ := hps p List.mem_cons_self
      have hps' := fun a ha => hps a (List.mem_cons_of_mem p ha)
      cases hmake : d.makeDir p with
      | ok after =>
          simp only [makeEach, hmake]
          rw [ih (furnished_of_makeDir hd hmake).plain hps', seen_of_makeDir hd hp hmake hplace]
      | error e =>
          simp only [makeEach, hmake]
          split
          · exact ih hd hps'
          · rfl

/-- What is not on the way to a directory is as it was after the directory was made. -/
theorem seen_makeDirs (hd : d.Plain) (hp : Straight p) (hq : ¬ q <+: p.place) :
    (makeDirs p d).2.root.seen q = d.root.seen q := by
  have hancestry : ∀ a ∈ p.ancestry, a.isAbsolute ∧ a.place ≠ q := by
    refine fun a ha => ⟨isAbsolute_of_mem_ancestry hp.isAbsolute a ha, ?_⟩
    rintro rfl
    exact hq (hp.place_isPrefix_of_mem_ancestry ha)
  unfold makeDirs
  split
  · next missing after hnearest =>
      have hplain := (furnished_of_makeNearest hd hnearest).plain
      obtain ⟨hfirst, hmissing⟩ := seen_of_makeNearest hd hancestry (by simp) hnearest
      rw [seen_makeEach hplain hmissing, hfirst]
  · rfl

end Disk

end Quire
