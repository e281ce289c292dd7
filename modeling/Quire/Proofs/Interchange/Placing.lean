import Quire.Interchange.Entry
import Quire.Proofs.Text.Cuts

/-!
Where the list of components goes. The script is cut at the first place of the token, and it is
refused if a reader who goes on behind that place meets the token again. Main statement: the list
replaces the token exactly if that stands at one place of the script, but for scripts in which the
token stands at several places that all begin inside the first.
-/

namespace Quire

namespace Text

variable {needle t before after b a : Text}

/-- No place of a text comes before the one that it is cut at. -/
theorem length_le_of_cutFirst (h : cutFirst needle t = some (before, after))
    (ht : t = b ++ needle ++ a) : before.length ≤ b.length := by
  induction t generalizing before b with
  | nil =>
      have hnil := congrArg List.length (eq_append_of_cutFirst h)
      simp only [List.length_nil, List.length_append] at hnil
      omega
  | cons c t ih =>
      unfold cutFirst at h
      split at h
      · obtain ⟨rfl, -⟩ := Prod.mk.inj (Option.some.inj h)
        exact Nat.zero_le _
      · next hstart =>
          obtain ⟨⟨before, _⟩, hcut, heq⟩ := Option.map_eq_some_iff.1 h
          obtain ⟨rfl, rfl⟩ := Prod.mk.inj heq
          cases b with
          | nil =>
              rw [isPrefixOf?_iff.2 (by simpa using ht)] at hstart
              cases hstart
          | cons d b =>
              obtain ⟨-, ht⟩ := List.cons_eq_cons.1 ht
              exact Nat.succ_le_succ (ih hcut ht)

theorem exists_cutFirst (ht : t = b ++ needle ++ a) :
    ∃ before after, cutFirst needle t = some (before, after) := by
  induction t generalizing b with
  | nil =>
      have hneedle : needle = [] := by simp_all
      exact ⟨[], [], by rw [cutFirst, if_pos hneedle]⟩
  | cons c t ih =>
      unfold cutFirst
      split
      · exact ⟨_, _, rfl⟩
      · next hstart =>
          cases b with
          | nil =>
              rw [isPrefixOf?_iff.2 (by simpa using ht)] at hstart
              cases hstart
          | cons d b =>
              obtain ⟨before, after, hcut⟩ := ih (List.cons_eq_cons.1 ht).2
              exact ⟨_, _, by rw [hcut]; rfl⟩

end Text

namespace Interchange

/-- What stands before and behind a place of the token. -/
def StandsIn (script before after : Text) : Prop := script = before ++ listToken ++ after

/-- What stands before and behind the one place of the token. -/
structure Sole (script before after : Text) : Prop where
  stands : StandsIn script before after
  only : ∀ b a, StandsIn script b a → b = before ∧ a = after

/-- What stands before and behind the first place of the token, where every other place begins
inside the first. -/
structure Leading (script before after : Text) : Prop where
  stands : StandsIn script before after
  first : ∀ b a, StandsIn script b a → before.length ≤ b.length
  inside : ∀ b a, StandsIn script b a → b.length < before.length + listToken.length

/-- Whether the token stands at several places that all begin inside the first. -/
def Entangled (script : Text) : Prop :=
  ∃ before after, Leading script before after ∧ ¬ Sole script before after

variable {script list out before after b a : Text}

theorem StandsIn.unique (h : StandsIn script before after) (h' : StandsIn script b a)
    (hlength : before.length = b.length) : b = before ∧ a = after := by
  have heq : before ++ (listToken ++ after) = b ++ (listToken ++ a) := by
    rw [← List.append_assoc, ← List.append_assoc]
    exact h.symm.trans h'
  obtain ⟨rfl, htail⟩ := List.append_inj heq hlength
  exact ⟨rfl, (List.append_cancel_left htail).symm⟩

theorem tokenCount_of_cutFirst (h : Text.cutFirst listToken script = some (before, after)) :
    tokenCount script = tokenCount after + 1 := by
  rw [tokenCount]
  split
  · next hnone => simp [h] at hnone
  · next hsome =>
      obtain ⟨-, rfl⟩ := Prod.mk.inj (Option.some.inj (h.symm.trans hsome))
      rfl

theorem tokenCount_eq_zero_iff :
    tokenCount script = 0 ↔ ∀ before after, ¬ StandsIn script before after := by
  constructor
  · intro hzero b a h
    obtain ⟨before, after, hcut⟩ := Text.exists_cutFirst h
    rw [tokenCount_of_cutFirst hcut] at hzero
    exact Nat.succ_ne_zero _ hzero
  · intro h
    rw [tokenCount]
    split
    · rfl
    · next hsome => exact absurd (Text.eq_append_of_cutFirst hsome) (h _ _)

theorem StandsIn.behind (h : StandsIn script before after) (h' : StandsIn after b a) :
    StandsIn script (before ++ listToken ++ b) a := by
  unfold StandsIn at h h' ⊢
  rw [h, h']
  simp only [List.append_assoc]

/-- A place that does not begin inside another is before that or behind it. -/
theorem StandsIn.exists_behind (h : StandsIn script before after) (h' : StandsIn script b a)
    (hlength : before.length + listToken.length ≤ b.length) : ∃ x, StandsIn after x a := by
  have hfront : before ++ listToken <+: b := by
    refine List.prefix_of_prefix_length_le ⟨after, h.symm⟩ ⟨listToken ++ a, ?_⟩ ?_
    · rw [← List.append_assoc]
      exact h'.symm
    · rwa [List.length_append]
  obtain ⟨x, rfl⟩ := hfront
  refine ⟨x, (List.append_right_inj (before ++ listToken)).1 ?_⟩
  refine h.symm.trans (h'.trans ?_)
  simp only [List.append_assoc]

/-- The place that a script is cut at leads exactly if the token is met once. -/
theorem leading_iff_of_cutFirst (h : Text.cutFirst listToken script = some (before, after)) :
    Leading script before after ↔ tokenCount script = 1 := by
  have hstands : StandsIn script before after := Text.eq_append_of_cutFirst h
  rw [tokenCount_of_cutFirst h, Nat.add_eq_right, tokenCount_eq_zero_iff]
  constructor
  · intro hleading b a hbehind
    have hinside := hleading.inside _ _ (hstands.behind hbehind)
    simp only [List.length_append] at hinside
    omega
  · intro hbehind
    refine ⟨hstands, fun b a h' => Text.length_le_of_cutFirst h h', fun b a h' => ?_⟩
    by_contra hlength
    obtain ⟨x, hx⟩ := hstands.exists_behind h' (Nat.le_of_not_lt hlength)
    exact hbehind x a hx

theorem Leading.cutFirst (h : Leading script before after) :
    Text.cutFirst listToken script = some (before, after) := by
  obtain ⟨before', after', hcut⟩ := Text.exists_cutFirst h.stands
  have hstands : StandsIn script before' after' := Text.eq_append_of_cutFirst hcut
  obtain ⟨rfl, rfl⟩ := h.stands.unique hstands (Nat.le_antisymm (h.first _ _ hstands)
    (Text.length_le_of_cutFirst hcut h.stands))
  exact hcut

/-- The list replaces the token at its first place, unless the token stands behind that. -/
theorem renderEntry_eq_ok_iff : renderEntry script list = .ok out ↔
    ∃ before after, Leading script before after ∧ out = before ++ list ++ after := by
  constructor
  · intro h
    unfold renderEntry at h
    split at h
    · next before after hcut =>
        dsimp only at h
        split at h
        · next hcount =>
            exact ⟨before, after, (leading_iff_of_cutFirst hcut).2 hcount, (Except.ok.inj h).symm⟩
        · cases h
    · cases h
  · rintro ⟨before, after, hleading, rfl⟩
    have hcount := (leading_iff_of_cutFirst hleading.cutFirst).1 hleading
    simp only [renderEntry, hleading.cutFirst, hcount, if_true]

/-- A script is rendered as it is said, by putting the list at the one place of the token, exactly
if the token does not stand at several places that all begin inside the first. -/
theorem renderEntry_iff_sole (script : Text) :
    (∀ list out, renderEntry script list = .ok out ↔
      ∃ before after, Sole script before after ∧ out = before ++ list ++ after) ↔
      ¬ Entangled script := by
  constructor
  · rintro h ⟨before, after, hleading, hsole⟩
    have hok : renderEntry script [] = .ok (before ++ [] ++ after) :=
      renderEntry_eq_ok_iff.2 ⟨before, after, hleading, rfl⟩
    obtain ⟨b, a, hone, -⟩ := (h _ _).1 hok
    obtain ⟨rfl, rfl⟩ := hone.only _ _ hleading.stands
    exact hsole hone
  · intro h list out
    rw [renderEntry_eq_ok_iff]
    constructor
    · rintro ⟨before, after, hleading, rfl⟩
      refine ⟨before, after, ?_, rfl⟩
      by_contra hsole
      exact h ⟨before, after, hleading, hsole⟩
    · rintro ⟨before, after, hsole, rfl⟩
      refine ⟨before, after, ⟨hsole.stands, fun b a h' => ?_, fun b a h' => ?_⟩, rfl⟩
      · rw [(hsole.only b a h').1]
      · rw [(hsole.only b a h').1]
        exact Nat.lt_add_of_pos_right (List.length_pos_iff.2 listToken_ne_nil)

/-- A script with two tokens that share two characters. -/
def twiceScript : Text := "__PAGEWRIGHT_COMPONENTS__PAGEWRIGHT_COMPONENTS__".toList

/-- The two tokens are taken for one. -/
theorem renderEntry_twice :
    renderEntry twiceScript "[]".toList = .ok "[]PAGEWRIGHT_COMPONENTS__".toList ∧
      ¬ ∀ list out, renderEntry twiceScript list = .ok out ↔
        ∃ before after, Sole twiceScript before after ∧ out = before ++ list ++ after := by
  have hok : renderEntry twiceScript "[]".toList = .ok "[]PAGEWRIGHT_COMPONENTS__".toList := by
    decide +kernel
  refine ⟨hok, fun h => ?_⟩
  obtain ⟨before, after, hsole, -⟩ := (h _ _).1 hok
  have hfront := hsole.only [] "PAGEWRIGHT_COMPONENTS__".toList (by unfold StandsIn; decide)
  have hback := hsole.only "__PAGEWRIGHT_COMPONENTS".toList [] (by unfold StandsIn; decide)
  exact absurd (hfront.1.trans hback.1.symm) (by decide)

end Interchange

end Quire
