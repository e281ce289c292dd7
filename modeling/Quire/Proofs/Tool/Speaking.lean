import Quire.Proofs.Text.Encoding
import Quire.Proofs.Tool.Colors
import Quire.Tool.Output

/-!
What the block of diagnostics says. Its lines are the cleaned lines of the two streams, and none of
them is blank or ends in a blank. It is free of colours, and a block that is kept as it is when it
is cleaned once more, exactly if no line of the streams is tangled.
-/

namespace Quire

namespace Text

variable {t out : Text}

/-- Whether a text ends in a blank. -/
def BlankEnd (t : Text) : Prop := ∃ c, t.getLast? = some c ∧ isBlank c

theorem not_blankEnd_iff : ¬ BlankEnd t ↔ StopsAt isBlank t.reverse := by
  simp [BlankEnd, StopsAt]

theorem trimEnd_eq_iff : t.trimEnd = out ↔
    ∃ blanks, t = out ++ blanks ∧ (∀ c ∈ blanks, isBlank c) ∧ ¬ BlankEnd out := by
  constructor
  · rintro rfl
    refine ⟨(t.reverse.takeWhile isBlank).reverse, ?_, fun c hc => ?_, ?_⟩
    · rw [trimEnd, ← List.reverse_append, List.takeWhile_append_dropWhile, List.reverse_reverse]
    · exact List.mem_takeWhile_imp (List.mem_reverse.1 hc)
    · rw [not_blankEnd_iff, trimEnd, List.reverse_reverse]
      exact stopsAt_dropWhile isBlank t.reverse
  · rintro ⟨blanks, rfl, hblanks, hend⟩
    rw [not_blankEnd_iff] at hend
    rw [trimEnd, List.reverse_append,
      dropWhile_run (fun c hc => hblanks c (List.mem_reverse.1 hc)) hend, List.reverse_reverse]

theorem trim_eq_nil_iff_trimEnd : t.trim = [] ↔ t.trimEnd = [] := by
  rw [trim_eq_nil_iff, trimEnd, List.reverse_eq_nil_iff, List.dropWhile_eq_nil_iff]
  simp only [List.mem_reverse]

end Text

namespace Tool

variable {line out blanks : Text} {ls outs : List Text} {o : Output}

/-- How a line reads without colours and without blanks at its end. -/
def Cleaned (line out : Text) : Prop :=
  ∃ blanks, Stripped line (out ++ blanks) ∧ (∀ c ∈ blanks, Text.isBlank c) ∧ ¬ Text.BlankEnd out

/-- The lines that are left of others, each one cleaned: those that nothing is left of are gone. -/
inductive Spoken : List Text → List Text → Prop
  | nil : Spoken [] []
  | silent {line : Text} {ls outs : List Text} : Cleaned line [] → Spoken ls outs →
      Spoken (line :: ls) outs
  | loud {line out : Text} {ls outs : List Text} : Cleaned line out → out ≠ [] →
      Spoken ls outs → Spoken (line :: ls) (out :: outs)

/-- The lines that a tool wrote, its errors first. -/
def Output.lines (o : Output) : List Text :=
  (Text.ofBytesLossy o.errors).lines ++ (Text.ofBytesLossy o.said).lines

/-- Whether a block is made of the cleaned lines of a tool's errors and, behind them, those of what
it said, without a line that is blank or ends in a blank. -/
structure Output.Fills (o : Output) (block : Text) : Prop where
  cleaned : ∃ errors said, Spoken (Text.ofBytesLossy o.errors).lines errors ∧
    Spoken (Text.ofBytesLossy o.said).lines said ∧
    block = ['\n'].intercalate (errors ++ said) ∧ block.lines = errors ++ said
  filled : ∀ line ∈ block.lines, (∃ c ∈ line, ¬ Text.isBlank c) ∧ ¬ Text.BlankEnd line

theorem cleaned_iff : Cleaned line out ↔ (dropColors line).trimEnd = out := by
  simp only [Cleaned, stripped_iff, Text.trimEnd_eq_iff]

theorem Cleaned.colored_iff (h : Cleaned line out) : Colored out ↔ Tangled line := by
  obtain ⟨blanks, hstripped, hblanks, -⟩ := h
  rw [← hstripped.colored_iff, colored_append_blanks hblanks]

theorem Cleaned.sublist (h : Cleaned line out) : out.Sublist line := by
  obtain ⟨blanks, hstripped, -⟩ := h
  exact (List.sublist_append_left out blanks).trans hstripped.sublist

theorem Cleaned.not_blankEnd (h : Cleaned line out) : ¬ Text.BlankEnd out := by
  obtain ⟨blanks, -, -, hend⟩ := h
  exact hend

theorem cleaned_self_iff : Cleaned out out ↔ ¬ Text.BlankEnd out ∧ ¬ Colored out := by
  constructor
  · rintro ⟨blanks, hstripped, -, hend⟩
    have hle := hstripped.sublist.length_le
    rw [List.length_append] at hle
    obtain rfl := List.eq_nil_of_length_eq_zero (show blanks.length = 0 by omega)
    rw [List.append_nil] at hstripped
    exact ⟨hend, stripped_self_iff.1 hstripped⟩
  · rintro ⟨hend, hcolored⟩
    exact ⟨[], by rw [List.append_nil]; exact stripped_self_iff.2 hcolored, by simp, hend⟩

theorem spoken_iff : Spoken ls outs ↔
    ((ls.map dropColors).filter fun line => line.trim ≠ []).map Text.trimEnd = outs := by
  constructor
  · intro h
    induction h with
    | nil => rfl
    | silent hline _ ih =>
        have hblank := Text.trim_eq_nil_iff_trimEnd.2 (cleaned_iff.1 hline)
        rw [List.map_cons, List.filter_cons_of_neg (by simpa using hblank), ih]
    | loud hline hne _ ih =>
        rw [cleaned_iff] at hline
        have hfull := mt Text.trim_eq_nil_iff_trimEnd.1 (hline ▸ hne)
        rw [List.map_cons, List.filter_cons_of_pos (by simpa using hfull), List.map_cons, ih, hline]
  · rintro rfl
    induction ls with
    | nil => exact .nil
    | cons line ls ih =>
        rw [List.map_cons]
        by_cases hblank : (dropColors line).trim = []
        · rw [List.filter_cons_of_neg (by simpa using hblank)]
          exact .silent (cleaned_iff.2 (Text.trim_eq_nil_iff_trimEnd.1 hblank)) ih
        · rw [List.filter_cons_of_pos (by simpa using hblank), List.map_cons]
          exact .loud (cleaned_iff.2 rfl) (mt Text.trim_eq_nil_iff_trimEnd.2 hblank) ih

theorem Spoken.append {ls' outs' : List Text} (h : Spoken ls outs)
    (h' : Spoken ls' outs') : Spoken (ls ++ ls') (outs ++ outs') := by
  induction h with
  | nil => exact h'
  | silent hline _ ih => exact .silent hline ih
  | loud hline hne _ ih => exact .loud hline hne ih

theorem Spoken.unique {outs' : List Text} (h : Spoken ls outs) (h' : Spoken ls outs') :
    outs = outs' :=
  (spoken_iff.1 h).symm.trans (spoken_iff.1 h')

theorem Spoken.colored_iff (h : Spoken ls outs) :
    (∃ out ∈ outs, Colored out) ↔ ∃ line ∈ ls, Tangled line := by
  induction h with
  | nil => simp
  | silent hline _ ih =>
      have hclean := mt hline.colored_iff.2 not_colored_nil
      rw [ih, List.exists_mem_cons_iff, or_iff_right hclean]
  | loud hline _ _ ih =>
      rw [List.exists_mem_cons_iff, List.exists_mem_cons_iff, hline.colored_iff, ih]

theorem Spoken.length_le (h : Spoken ls outs) : outs.length ≤ ls.length := by
  induction h with
  | nil => exact Nat.le_refl _
  | silent _ _ ih => exact Nat.le_succ_of_le ih
  | loud _ _ _ ih => exact Nat.succ_le_succ ih

theorem Spoken.exists_cleaned (h : Spoken ls outs) (hout : out ∈ outs) :
    out ≠ [] ∧ ∃ line ∈ ls, Cleaned line out := by
  induction h with
  | nil => cases hout
  | silent _ _ ih =>
      obtain ⟨hne, line, hmem, hcleaned⟩ := ih hout
      exact ⟨hne, line, List.mem_cons_of_mem _ hmem, hcleaned⟩
  | loud hline hne _ ih =>
      rcases List.mem_cons.1 hout with rfl | hout
      · exact ⟨hne, _, List.mem_cons_self, hline⟩
      · obtain ⟨hne, line, hmem, hcleaned⟩ := ih hout
        exact ⟨hne, line, List.mem_cons_of_mem _ hmem, hcleaned⟩

/-- Lines are left as they are exactly if every one of them is. -/
theorem spoken_self_iff (hne : ∀ out ∈ outs, out ≠ []) :
    Spoken outs outs ↔ ∀ out ∈ outs, Cleaned out out := by
  constructor
  · intro h
    induction outs with
    | nil => simp
    | cons out outs ih =>
        cases h with
        -- A line that is gone leaves too few for the others to make up for.
        | silent _ h => exact absurd h.length_le (Nat.not_succ_le_self _)
        | loud hout _ h =>
            have htail := ih (fun x hx => hne x (List.mem_cons_of_mem _ hx)) h
            exact List.forall_mem_cons.2 ⟨hout, htail⟩
  · intro h
    induction outs with
    | nil => exact .nil
    | cons out outs ih =>
        rw [List.forall_mem_cons] at h hne
        exact .loud h.1 hne.1 (ih hne.2 h.2)

theorem Spoken.fits (h : Spoken ls outs) (hls : ∀ line ∈ ls, '\n' ∉ line) :
    ∀ out ∈ outs, out ≠ [] ∧ '\n' ∉ out ∧ ¬ Text.BlankEnd out := by
  intro out hout
  obtain ⟨hne, line, hmem, hcleaned⟩ := h.exists_cleaned hout
  exact ⟨hne, fun hnewline => hls line hmem (hcleaned.sublist.subset hnewline),
    hcleaned.not_blankEnd⟩

theorem Spoken.lines_intercalate (h : Spoken ls outs) (hls : ∀ line ∈ ls, '\n' ∉ line) :
    Text.lines (['\n'].intercalate outs) = outs := by
  refine Text.lines_intercalate fun out hout => ?_
  obtain ⟨hne, hnewline, hend⟩ := h.fits hls out hout
  exact ⟨hne, hnewline, fun hreturn => hend ⟨'\r', hreturn, by decide⟩⟩

/-- A block that cleaned lines make is kept as it is exactly if it has no colours. -/
theorem Spoken.again_iff (h : Spoken ls outs) (hls : ∀ line ∈ ls, '\n' ∉ line) :
    Tool.diagnostics (['\n'].intercalate outs) [] = ['\n'].intercalate outs ↔
      ¬ Colored (['\n'].intercalate outs) := by
  have hfits := h.fits hls
  have hagain : Spoken outs (spokenLines (['\n'].intercalate outs)) := by
    refine spoken_iff.2 ?_
    rw [spokenLines, h.lines_intercalate hls]
  have hself : Spoken outs outs ↔ ¬ Colored (['\n'].intercalate outs) := by
    rw [spoken_self_iff fun out hout => (hfits out hout).1, colored_intercalate]
    simp only [cleaned_self_iff, not_exists, not_and]
    exact forall₂_congr fun out hout => and_iff_right (hfits out hout).2.2
  have hsilent : spokenLines [] = [] := rfl
  rw [Tool.diagnostics, hsilent, List.append_nil, ← hself]
  constructor
  · intro heq
    -- Both blocks are told apart into the lines that they were made of.
    have hlines := congrArg Text.lines heq
    rw [hagain.lines_intercalate fun out hout => (hfits out hout).2.1,
      h.lines_intercalate hls] at hlines
    rwa [hlines] at hagain
  · intro hkept
    rw [hagain.unique hkept]

theorem Output.spoken_lines (o : Output) :
    Spoken o.lines (spokenLines (Text.ofBytesLossy o.errors) ++
      spokenLines (Text.ofBytesLossy o.said)) :=
  (spoken_iff.2 rfl).append (spoken_iff.2 rfl)

theorem Output.newline_not_mem (o : Output) : ∀ line ∈ o.lines, '\n' ∉ line := by
  intro line hline
  rcases List.mem_append.1 hline with hline | hline
  · exact Text.not_mem_of_mem_lines hline
  · exact Text.not_mem_of_mem_lines hline

theorem Output.fills_diagnostics (o : Output) : o.Fills o.diagnostics := by
  have hlines := o.spoken_lines.lines_intercalate o.newline_not_mem
  refine ⟨⟨_, _, spoken_iff.2 rfl, spoken_iff.2 rfl, rfl, hlines⟩, fun line hline => ?_⟩
  obtain ⟨hne, -, hend⟩ := o.spoken_lines.fits o.newline_not_mem line (hlines ▸ hline)
  obtain ⟨c, hc⟩ := Option.ne_none_iff_exists'.1 (mt List.getLast?_eq_none_iff.1 hne)
  exact ⟨⟨c, List.mem_of_getLast? hc, fun hblank => hend ⟨c, hc, hblank⟩⟩, hend⟩

theorem diagnostics_toBytes (status : Status) (block : Text) :
    Output.diagnostics ⟨status, .empty, Text.toBytes block⟩ = Tool.diagnostics block [] := by
  rw [Output.diagnostics, Text.ofBytesLossy_toBytes]
  rfl

/-- The diagnostics of a tool are made of the cleaned lines of its errors and of what it said. They
are free of colours, and are kept as they are when they are cleaned once more, exactly if no line
of the two streams is tangled. -/
theorem diagnostics_clean_iff (o : Output) :
    o.Fills o.diagnostics ∧
      (¬ Colored o.diagnostics ↔ ∀ line ∈ o.lines, ¬ Tangled line) ∧
      ((∀ status, Output.diagnostics ⟨status, .empty, Text.toBytes o.diagnostics⟩ =
        o.diagnostics) ↔ ∀ line ∈ o.lines, ¬ Tangled line) := by
  have hcolored : ¬ Colored o.diagnostics ↔ ∀ line ∈ o.lines, ¬ Tangled line := by
    rw [Output.diagnostics, Tool.diagnostics, colored_intercalate, o.spoken_lines.colored_iff]
    simp only [not_exists, not_and]
  have hagain : Tool.diagnostics o.diagnostics [] = o.diagnostics ↔ ¬ Colored o.diagnostics :=
    o.spoken_lines.again_iff o.newline_not_mem
  refine ⟨o.fills_diagnostics, hcolored, ?_⟩
  rw [← hcolored, ← hagain]
  constructor
  · intro h
    exact (diagnostics_toBytes _ _).symm.trans (h (.exited 0))
  · intro h status
    rw [diagnostics_toBytes, h]

/-- A sequence around which the characters of another stand leaves that other one. -/
theorem diagnostics_joined :
    Output.diagnostics ⟨.exited 0, .empty, Text.toBytes "\x1b[\x1b[0m31mred".toList⟩ =
        "\x1b[31mred".toList ∧
      Colored "\x1b[31mred".toList ∧
      Output.diagnostics ⟨.exited 0, .empty, Text.toBytes "\x1b[31mred".toList⟩ = "red".toList := by
  have hcolor : IsColor "\x1b[31m".toList := ⟨"31".toList, rfl, by simp [isColorParameter]⟩
  rw [diagnostics_toBytes, diagnostics_toBytes]
  exact ⟨by decide +kernel, ⟨_, hcolor, [], "red".toList, rfl⟩, by decide +kernel⟩

end Tool

end Quire
