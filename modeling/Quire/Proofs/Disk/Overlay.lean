import Quire.Proofs.Disk.Writing

/-!
Writes one after the other. What is at a place in the end is what was written there last, or what
was there before if nothing was written there. A device keeps nothing.
-/

namespace Quire.Disk

/-- Bytes that were written at a place. -/
structure Write where
  place : Place
  bytes : ByteArray

variable {d d' d'' : Disk} {place q : Place} {bytes : ByteArray} {a b : List Write}
  {before : Option ByteArray}

/-- What is at a place after writes one after the other. -/
def overlay (writes : List Write) (q : Place) (before : Option ByteArray) : Option ByteArray :=
  writes.foldl (fun left w => if w.place = q then some w.bytes else left) before

theorem overlay_append (a b : List Write) (q : Place) (before : Option ByteArray) :
    overlay (a ++ b) q before = overlay b q (overlay a q before) := List.foldl_append

theorem overlay_of_forall_ne {writes : List Write} (h : ∀ w ∈ writes, w.place ≠ q) :
    overlay writes q before = before := by
  induction writes generalizing before with
  | nil => rfl
  | cons w writes ih =>
      have hw := h w List.mem_cons_self
      rw [overlay, List.foldl_cons, if_neg hw]
      exact ih fun w' hw' => h w' (List.mem_cons_of_mem w hw')

/-- The last write at a place stays. -/
theorem overlay_of_last {w : Write} (h : ∀ w' ∈ b, w'.place ≠ w.place) :
    overlay (a ++ w :: b) w.place before = some w.bytes := by
  have hw : overlay [w] w.place (overlay a w.place before) = some w.bytes := if_pos rfl
  rw [← List.singleton_append, overlay_append, overlay_append, hw]
  exact overlay_of_forall_ne h

/-- Writes that agree about a place leave there what they agree about. -/
theorem overlay_of_agree {writes : List Write}
    (hagree : ∀ w ∈ writes, w.place = q → w.bytes = bytes) (hmem : ∃ w ∈ writes, w.place = q) :
    overlay writes q before = some bytes := by
  induction writes generalizing before with
  | nil => simp at hmem
  | cons w writes ih =>
      have hagree' : ∀ w ∈ writes, w.place = q → w.bytes = bytes := fun w' hw' =>
        hagree w' (List.mem_cons_of_mem w hw')
      by_cases hlater : ∃ w ∈ writes, w.place = q
      · exact ih hagree' hlater
      · obtain ⟨w', hw', hplace⟩ := hmem
        obtain rfl : w' = w := (List.mem_cons.1 hw').resolve_right fun hw' =>
          hlater ⟨w', hw', hplace⟩
        have hnone : ∀ w ∈ writes, w.place ≠ q := fun w hw hw' => hlater ⟨w, hw, hw'⟩
        rw [overlay, List.foldl_cons, if_pos hplace, hagree w' hw' hplace]
        exact overlay_of_forall_ne hnone

/-- The files of one disk are those of another with writes laid over them. -/
structure Overlaid (writes : List Write) (d d' : Disk) : Prop where
  devices : ∀ q, d'.root.kindAt q = some .device ↔ d.root.kindAt q = some .device
  bytes : ∀ q, d.Takes q → d'.root.bytesAt q = overlay writes q (d.root.bytesAt q)

namespace Overlaid

theorem takes (h : Overlaid a d d') (hq : d.Takes q) : d'.Takes q := fun hdevice =>
  hq ((h.devices q).1 hdevice)

theorem refl (d : Disk) : Overlaid [] d d := ⟨fun _ => Iff.rfl, fun _ _ => rfl⟩

theorem trans (h : Overlaid a d d') (h' : Overlaid b d' d'') : Overlaid (a ++ b) d d'' := by
  refine ⟨fun q => (h'.devices q).trans (h.devices q), fun q hq => ?_⟩
  rw [h'.bytes q (h.takes hq), h.bytes q hq, overlay_append]

theorem of_wrote (hd : d.Plain) (h : Wrote place bytes d d') : Overlaid [⟨place, bytes⟩] d d' := by
  refine ⟨h.kindAt_device_iff hd, fun q hq => ?_⟩
  rw [h.bytesAt]
  by_cases hplace : q = place
  · rw [if_pos ⟨hplace, hq⟩]
    exact (if_pos hplace.symm).symm
  · rw [if_neg fun hq' => hplace hq'.1]
    exact (if_neg fun heq => hplace heq.symm).symm

theorem of_furnished (h : Furnished d d') : Overlaid [] d d' := by
  refine ⟨fun q => ⟨fun hq => ?_, h.kindAt⟩, fun q _ => h.bytesAt q⟩
  rcases h.seen q with heq | ⟨_, hdir⟩
  · rwa [← Node.kindAt_congr heq]
  · rw [Node.kindAt_eq_seen, hdir] at hq
    cases hq

end Overlaid

end Quire.Disk
