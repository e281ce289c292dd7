import Mathlib.Algebra.Group.Nat.Defs
import Mathlib.Tactic.SplitIfs
import Quire.Text.Lossy

/-!
Reading the bytes of a text. A reader that replaces what spells nothing finds nothing to replace
there, so the text is read as it was written.
-/

namespace Quire.Text

variable {p : Partial} {v : Nat} {rest : List UInt8}

/-- Whether the character of number `v` is as far as the reader stands, and its next byte fits. -/
structure Partial.Reads (p : Partial) (v : Nat) : Prop where
  value : p.value = v / 64 ^ p.missing
  least : p.least ≤ v / 64 ^ (p.missing - 1) % 64 + 0x80
  most : v / 64 ^ (p.missing - 1) % 64 + 0x80 ≤ p.most

/-- A byte behind the first one of the character of number `v`, with so many to follow. -/
def laterByte (v missing : Nat) : UInt8 := UInt8.ofNat (v / 64 ^ missing % 64 + 0x80)

theorem toNat_laterByte (v missing : Nat) :
    (laterByte v missing).toNat = v / 64 ^ missing % 64 + 0x80 := by
  rw [laterByte, UInt8.toNat_ofNat']
  omega

theorem readBytes_cons (p : Option Partial) (b : UInt8) (rest : List UInt8) :
    readBytes p (b :: rest) =
      (nextByte p b.toNat).1 ++ readBytes (nextByte p b.toNat).2 rest := by
  cases p <;> rfl

/-- The value of a character's bytes as far as one more of them. -/
theorem value_step (v n : Nat) : v / 64 ^ (n + 1) * 64 + v / 64 ^ n % 64 = v / 64 ^ n := by
  rw [Nat.pow_succ, ← Nat.div_div_eq_div_mul]
  omega

theorem readBytes_last (h : p.Reads v) (hmissing : p.missing = 1) :
    readBytes (some p) (laterByte v 0 :: rest) = Char.ofNat v :: readBytes none rest := by
  obtain ⟨hvalue, hleast, hmost⟩ := h
  rw [hmissing] at hvalue hleast hmost
  have hstep := value_step v 0
  rw [readBytes_cons, toNat_laterByte, nextByte, if_pos ⟨hleast, hmost⟩]
  simp only [if_pos hmissing, hvalue, Nat.add_sub_cancel, hstep]
  simp

theorem readBytes_more {n : Nat} (h : p.Reads v) (hmissing : p.missing = n + 2) :
    readBytes (some p) (laterByte v (n + 1) :: rest) =
      readBytes (some ⟨n + 1, v / 64 ^ (n + 1), 0x80, 0xbf⟩) rest := by
  obtain ⟨hvalue, hleast, hmost⟩ := h
  rw [hmissing] at hvalue hleast hmost
  rw [readBytes_cons, toNat_laterByte, nextByte, if_pos ⟨hleast, hmost⟩]
  simp only [hmissing, hvalue, Nat.add_sub_cancel, value_step]
  simp

theorem reads_later (n v : Nat) : Partial.Reads ⟨n, v / 64 ^ n, 0x80, 0xbf⟩ v := by
  refine ⟨rfl, ?_, ?_⟩ <;> dsimp only <;> omega

/-- The first byte of a character of two. -/
theorem ofFirst?_two (hleast : 0x80 ≤ v) (hmost : v < 0x800) :
    ∃ p, Partial.ofFirst? (v / 64 % 32 + 0xc0) = some p ∧ p.missing = 1 ∧ p.Reads v := by
  refine ⟨⟨1, v / 64, 0x80, 0xbf⟩, ?_, rfl, reads_later 1 v⟩
  rw [Partial.ofFirst?, if_pos (by omega), show v / 64 % 32 + 0xc0 - 0xc0 = v / 64 by omega]

/-- The first byte of a character of three. -/
theorem ofFirst?_three (hleast : 0x800 ≤ v) (hmost : v < 0x10000)
    (hvalid : v < 0xd800 ∨ 0xdfff < v) :
    ∃ p, Partial.ofFirst? (v / 4096 % 16 + 0xe0) = some p ∧ p.missing = 2 ∧ p.Reads v := by
  unfold Partial.ofFirst?
  rw [if_neg (by omega)]
  split_ifs with hfirst hlast hbetween
  · exact ⟨_, rfl, rfl, by constructor <;> dsimp only <;> omega⟩
  · exact ⟨_, rfl, rfl, by constructor <;> dsimp only <;> omega⟩
  · exact ⟨_, rfl, rfl, by constructor <;> dsimp only <;> omega⟩
  all_goals omega

/-- The first byte of a character of four. -/
theorem ofFirst?_four (hleast : 0x10000 ≤ v) (hmost : v < 0x110000) :
    ∃ p, Partial.ofFirst? (v / 262144 % 8 + 0xf0) = some p ∧ p.missing = 3 ∧ p.Reads v := by
  unfold Partial.ofFirst?
  rw [if_neg (by omega), if_neg (by omega), if_neg (by omega), if_neg (by omega)]
  split_ifs with hfirst hlast hbetween
  · exact ⟨_, rfl, rfl, by constructor <;> dsimp only <;> omega⟩
  · exact ⟨_, rfl, rfl, by constructor <;> dsimp only <;> omega⟩
  · exact ⟨_, rfl, rfl, by constructor <;> dsimp only <;> omega⟩
  omega

theorem readBytes_first {n : Nat} (h : Partial.ofFirst? n = some p) (hleast : 0x80 ≤ n)
    (hmost : n < 0x100) (rest : List UInt8) :
    readBytes none (UInt8.ofNat n :: rest) = readBytes (some p) rest := by
  have hbyte : (UInt8.ofNat n).toNat = n := by
    rw [UInt8.toNat_ofNat']
    omega
  rw [readBytes_cons, hbyte, nextByte, firstByte, if_neg (Nat.not_lt.2 hleast), h]
  rfl

/-- A character is read from its bytes, whatever follows them. -/
theorem readBytes_utf8EncodeChar (c : Char) (rest : List UInt8) :
    readBytes none (String.utf8EncodeChar c ++ rest) = c :: readBytes none rest := by
  have hc : Char.ofNat c.val.toNat = c := Char.ofNat_toNat c
  have hvalid : c.val.toNat < 0xd800 ∨ 0xdfff < c.val.toNat ∧ c.val.toNat < 0x110000 := c.valid
  have hlater (n v : Nat) : UInt8.ofNat (v / 64 ^ n % 64 + 128) = laterByte v n := rfl
  unfold String.utf8EncodeChar
  generalize c.val.toNat = v at hc hvalid
  have hlast : UInt8.ofNat (v % 64 + 128) = laterByte v 0 := by simpa using hlater 0 v
  have hlast₁ : UInt8.ofNat (v / 64 % 64 + 128) = laterByte v 1 := hlater 1 v
  have hlast₂ : UInt8.ofNat (v / 4096 % 64 + 128) = laterByte v 2 := hlater 2 v
  dsimp only
  split_ifs with hone htwo hthree
  · have hbyte : (UInt8.ofNat v).toNat = v := by
      rw [UInt8.toNat_ofNat']
      omega
    rw [List.singleton_append, readBytes_cons, hbyte, nextByte, firstByte, if_pos (by omega), hc]
    rfl
  · obtain ⟨p, hp, hmissing, hreads⟩ := ofFirst?_two (v := v) (by omega) (by omega)
    rw [List.cons_append, List.singleton_append, readBytes_first hp (by omega) (by omega), hlast,
      readBytes_last hreads hmissing, hc]
  · obtain ⟨p, hp, hmissing, hreads⟩ := ofFirst?_three (v := v) (by omega) (by omega) (by omega)
    rw [List.cons_append, List.cons_append, List.singleton_append,
      readBytes_first hp (by omega) (by omega), hlast₁, readBytes_more hreads hmissing, hlast,
      readBytes_last (reads_later 1 v) rfl, hc]
  · obtain ⟨p, hp, hmissing, hreads⟩ := ofFirst?_four (v := v) (by omega) (by omega)
    rw [List.cons_append, List.cons_append, List.cons_append, List.singleton_append,
      readBytes_first hp (by omega) (by omega), hlast₂, readBytes_more hreads hmissing, hlast₁,
      readBytes_more (reads_later 2 v) rfl, hlast, readBytes_last (reads_later 1 v) rfl, hc]

theorem ofBytesLossy_toBytes (t : Text) : ofBytesLossy (toBytes t) = t := by
  have hread : readBytes none (t.flatMap String.utf8EncodeChar) = t := by
    induction t with
    | nil => rfl
    | cons c t ih => rw [List.flatMap_cons, readBytes_utf8EncodeChar, ih]
  rw [ofBytesLossy, toBytes, String.toUTF8, String.toByteArray_ofList, List.utf8Encode,
    List.toList_data_toByteArray, hread]

/-- A name that is a text is shown as it is. -/
@[simp] theorem shown_eq (name : Text) : name.shown = name := ofBytesLossy_toBytes name

end Quire.Text
