import Quire.Interchange.ClientScript
import Quire.Interchange.Reference

/-!
The client entry: a script with the list of components in place of its one token.
-/

namespace Quire.Interchange

theorem length_lt_of_cutFirst {needle t a b : Text} (hne : needle ≠ [])
    (h : Text.cutFirst needle t = some (a, b)) : b.length < t.length := by
  rw [Text.eq_append_of_cutFirst h]
  have := List.length_pos_iff.2 hne
  simp only [List.length_append]
  omega

theorem listToken_ne_nil : listToken ≠ [] := by decide

/-- How often the token is met by a reader who goes on behind each one it meets. -/
def tokenCount (t : Text) : Nat :=
  match _h : Text.cutFirst listToken t with
  | none => 0
  | some (_, after) => tokenCount after + 1
termination_by t.length
decreasing_by exact length_lt_of_cutFirst listToken_ne_nil _h

/-- The script with the list in place of the token. Where the token is not met exactly once, the
answer is the number of times that it is. -/
def renderEntry (script list : Text) : Except Nat Text :=
  let count := tokenCount script
  match Text.cutFirst listToken script with
  | some (before, after) => if count = 1 then .ok (before ++ list ++ after) else .error count
  | none => .error count

/-- What is wrong with a script that holds the token so many times, if that is not once. -/
def tokenCountMessage (count : Nat) : Text :=
  "client template must contain \x60".toList ++ listToken ++ "\x60 exactly once, found ".toList ++
    Text.ofNat count

end Quire.Interchange
