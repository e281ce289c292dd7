import Quire.Proofs.Interchange.Strings
import Quire.Proofs.Script.Reading

/-!
The notation read back. The reader is one of JSON, as strict as JSON is, that keeps the order of
fields and the fields with equal names; only the values of fields with certain names are taken to be
script. Main statement: `read_render`, since what was rendered is read as the tree that it came
from.
-/

namespace Quire.Interchange

open Script (lined body isWordPart write_array write_object length_le_length_lined)
open Text (quoted escape hexDigit)

variable {α : Type} {c : Char} {t u code gap : Text} {n depth : Nat} {v : Value}
  {script : Text → Bool}

/-! The reader. -/

/-- The blanks of JSON. -/
def isSpace (c : Char) : Bool := c = ' ' || c = '\t' || c = '\n' || c = '\r'

/-- A text without the blanks at its beginning. -/
def skipSpaces (t : Text) : Text := t.dropWhile isSpace

/-- What follows a mark, perhaps behind blanks. -/
def readMark (mark : Char) (t : Text) : Option Text :=
  match skipSpaces t with
  | c :: rest => if c = mark then some rest else none
  | [] => none

/-- At most so many items, at least one, with commas between them and a closing mark behind. -/
def readItems (close : Char) (item : Text → Option (α × Text)) : Nat → Text →
    Option (List α × Text)
  | 0, _ => none
  | n + 1, t => do
    let (a, t) ← item t
    match readMark ',' t with
    | some t =>
      let (as, t) ← readItems close item n t
      return (a :: as, t)
    | none => return ([a], ← readMark close t)

/-- What stands behind an opening mark: the closing one, or items up to it. -/
def readListed (close : Char) (item : Text → Option (α × Text)) (n : Nat) (t : Text) :
    Option (List α × Text) :=
  match readMark close t with
  | some rest => some ([], rest)
  | none => readItems close item n t

/-- Whether digits are left over by nothing but an exponent. -/
def isExponent : Text → Bool
  | [] => true
  | c :: t =>
    let digits := if t.head? = some '+' ∨ t.head? = some '-' then t.tail else t
    (c = 'e' || c = 'E') && digits ≠ [] && digits.all Char.isDigit

/-- Whether a text is a number as JSON writes them. -/
def isNumber (t : Text) : Bool :=
  let unsigned := if t.head? = some '-' then t.tail else t
  let whole := unsigned.takeWhile Char.isDigit
  let isWhole := whole = ['0'] || whole.head?.any (· ≠ '0')
  match unsigned.dropWhile Char.isDigit with
  | '.' :: rest =>
    isWhole && rest.head?.any Char.isDigit && isExponent (rest.dropWhile Char.isDigit)
  | rest => isWhole && isExponent rest

/-- The characters that numbers and the names of constants are made of. -/
def isScalarChar (c : Char) : Bool := c.isAlphanum || c = '-' || c = '+' || c = '.'

/-- A number or a constant. -/
def readScalar (t : Text) : Option (Text × Text) :=
  let word := t.takeWhile isScalarChar
  if word = "null".toList ∨ word = "true".toList ∨ word = "false".toList ∨ isNumber word then
    some (word, t.dropWhile isScalarChar)
  else none

/-- Where in a piece of script a reader is: between its strings, or in one of them, perhaps behind a
backslash. -/
inductive Within
  | code
  | text
  | escape
deriving DecidableEq

/-- Where a reader is behind one more character, and how many marks are open there. -/
def Within.next : Within → Nat → Char → Within × Nat
  | .code, depth, c =>
    if c = '"' then (.text, depth)
    else if c = '(' ∨ c = '[' ∨ c = '{' then (.code, depth + 1)
    else if c = ')' ∨ c = ']' ∨ c = '}' then (.code, depth - 1)
    else (.code, depth)
  | .text, depth, c => (if c = '"' then .code else if c = '\\' then .escape else .text, depth)
  | .escape, depth, _ => (.text, depth)

/-- Whether a piece of script that has no open mark ends before a character. -/
def endsScript (c : Char) : Bool :=
  c = ',' || c = ';' || c = '\n' || c = ')' || c = ']' || c = '}'

/-- A piece of script up to where it ends, and what follows. -/
def cutScript : Within → Nat → Text → Text × Text
  | _, _, [] => ([], [])
  | w, depth, c :: t =>
    if w = .code ∧ depth = 0 ∧ endsScript c then ([], c :: t)
    else
      let cut := cutScript (w.next depth c).1 (w.next depth c).2 t
      (c :: cut.1, cut.2)

/-- A piece of script, perhaps behind blanks. -/
def readScript (t : Text) : Option (Text × Text) :=
  let cut := cutScript .code 0 (skipSpaces t)
  if cut.1 = [] then none else some cut

/-- A field: its name, a colon, and its value, which is script if the name says so. -/
def readField (script : Text → Bool) (value : Text → Option (Value × Text)) (t : Text) :
    Option ((Text × Value) × Text) := do
  let (name, t) ← readString (skipSpaces t)
  let t ← readMark ':' t
  if script name then
    let (code, t) ← readScript t
    return ((name, .raw code), t)
  else
    let (v, t) ← value t
    return ((name, v), t)

/-- A node with at most so many others above each of its own, perhaps behind blanks. -/
def readValue (script : Text → Bool) : Nat → Text → Option (Value × Text)
  | 0, _ => none
  | n + 1, t =>
    match skipSpaces t with
    | '"' :: t => do
      let (t, rest) ← readString ('"' :: t)
      return (.str t, rest)
    | '[' :: t => do
      let (items, rest) ← readListed ']' (readValue script n) n t
      return (.array items, rest)
    | '{' :: t => do
      let (fields, rest) ← readListed '}' (readField script (readValue script n)) n t
      return (.object fields, rest)
    | t => do
      let (code, rest) ← readScalar t
      return (.raw code, rest)

/-- The tree that a whole text spells. -/
def read (script : Text → Bool) (t : Text) : Option Value := do
  let (v, rest) ← readValue script t.length t
  if skipSpaces rest = [] then return v else none

/-- The tree that a text spells in which nothing is script. -/
def readJson : Text → Option Value := read fun _ => false

/-! Blanks and marks. -/

theorem skipSpaces_append (hgap : ∀ c ∈ gap, isSpace c) (hc : ¬ isSpace c) :
    skipSpaces (gap ++ c :: t) = c :: t :=
  Text.dropWhile_run hgap (Text.stopsAt_cons.2 (by simpa using hc))

theorem readMark_append (hgap : ∀ c ∈ gap, isSpace c) (hc : ¬ isSpace c) :
    readMark c (gap ++ c :: t) = some t := by
  rw [readMark, skipSpaces_append hgap hc]
  exact if_pos rfl

theorem readMark_eq_none {d : Char} (hgap : ∀ c ∈ gap, isSpace c) (hd : ¬ isSpace d)
    (hne : d ≠ c) : readMark c (gap ++ d :: t) = none := by
  rw [readMark, skipSpaces_append hgap hd]
  exact if_neg hne

theorem isSpace_of_mem_indent (h : c ∈ indent depth) : isSpace c := by
  rw [List.eq_of_mem_replicate h]
  rfl

/-! Lists. -/

/-- What may stand behind a node. -/
def Ends (t : Text) : Prop := ∀ c, t.head? = some c → c = ',' ∨ c = ';' ∨ c = '\n'

theorem ends_cons : Ends (c :: t) ↔ c = ',' ∨ c = ';' ∨ c = '\n' := by simp [Ends]

/-- A text begins with something that is neither a blank nor the mark. -/
def Opens (close : Char) (t : Text) : Prop := ∃ c rest, t = c :: rest ∧ ¬ isSpace c ∧ c ≠ close

section Items

variable {close : Char} {item : Text → Option (α × Text)} {text : α → Text} {a : α} {as : List α}
  {rest rest' : Text}

theorem readItems_last (ha : item t = some (a, rest)) (hcomma : readMark ',' rest = none)
    (hend : readMark close rest = some u) : readItems close item (n + 1) t = some ([a], u) := by
  simp [readItems, ha, hcomma, hend]

theorem readItems_more (ha : item t = some (a, rest)) (hcomma : readMark ',' rest = some rest')
    (has : readItems close item n rest' = some (as, u)) :
    readItems close item (n + 1) t = some (a :: as, u) := by
  simp [readItems, ha, hcomma, has]

/-- Items that stand on lines of their own are read one by one, up to the mark behind them. -/
theorem readItems_lined (hclose : ¬ isSpace close ∧ close ≠ ',') (hne : as ≠ [])
    (hn : as.length ≤ n) (hitem : ∀ a ∈ as, ∀ gap rest, (∀ c ∈ gap, isSpace c) → Ends rest →
      item (gap ++ (text a ++ rest)) = some (a, rest)) (gap : Text) (hgap : ∀ c ∈ gap, isSpace c)
    (level : Nat) (u : Text) :
    readItems close item n (gap ++ (lined depth (as.map text) ++ (indent level ++ close :: u))) =
      some (as, u) := by
  induction as generalizing n gap with
  | nil => exact absurd rfl hne
  | cons a as ih =>
      obtain ⟨n, rfl⟩ : ∃ m, n = m + 1 := ⟨n - 1, by simp at hn; omega⟩
      have hfirst : ∀ c ∈ gap ++ indent depth, isSpace c := fun c hc =>
        (List.mem_append.1 hc).elim (hgap c) isSpace_of_mem_indent
      have htext : gap ++ (lined depth ((a :: as).map text) ++ (indent level ++ close :: u)) =
          (gap ++ indent depth) ++ (text a ++ (separator as.isEmpty ++
            (lined depth (as.map text) ++ (indent level ++ close :: u)))) := by
        simp [lined]
      have hread := hitem a List.mem_cons_self (gap ++ indent depth) (separator as.isEmpty ++
        (lined depth (as.map text) ++ (indent level ++ close :: u))) hfirst
        (by cases as <;> exact ends_cons.2 (by simp))
      rw [htext]
      cases as with
      | nil =>
          have hlast : ∀ c ∈ '\n' :: indent level, isSpace c :=
            List.forall_mem_cons.2 ⟨rfl, fun _ => isSpace_of_mem_indent⟩
          have hcomma : readMark ',' (('\n' :: indent level) ++ close :: u) = none :=
            readMark_eq_none hlast hclose.1 hclose.2
          have hend : readMark close (('\n' :: indent level) ++ close :: u) = some u :=
            readMark_append hlast hclose.1
          exact readItems_last hread hcomma hend
      | cons b as =>
          have hrest := ih (List.cons_ne_nil b as) (Nat.le_of_succ_le_succ hn)
            (fun a h => hitem a (List.mem_cons_of_mem _ h)) ['\n']
            (List.forall_mem_singleton.2 (by decide))
          exact readItems_more hread rfl hrest

/-- All items of a list are read. -/
theorem readListed_body (hclose : ¬ isSpace close ∧ close ≠ ',') (hn : as.length ≤ n)
    (hopens : ∀ a ∈ as, Opens close (text a))
    (hitem : ∀ a ∈ as, ∀ gap rest, (∀ c ∈ gap, isSpace c) → Ends rest →
      item (gap ++ (text a ++ rest)) = some (a, rest)) (level : Nat) (u : Text) :
    readListed close item n (body level (as.map text) close u) = some (as, u) := by
  cases as with
  | nil =>
      have hend : readMark close (close :: u) = some u :=
        readMark_append (List.forall_mem_nil _) hclose.1
      exact (by simp [readListed, body, hend])
  | cons a as =>
      obtain ⟨d, rest, htext, hd, hne⟩ := hopens a List.mem_cons_self
      have hgap : ∀ c ∈ '\n' :: indent (level + 1), isSpace c :=
        List.forall_mem_cons.2 ⟨rfl, fun _ => isSpace_of_mem_indent⟩
      have hbegins : readMark close (body level ((a :: as).map text) close u) = none := by
        have hnone := fun t => readMark_eq_none (t := t) hgap hd hne
        simpa [body, lined, htext] using hnone _
      rw [readListed, hbegins]
      change readItems close item n (['\n'] ++ (lined (level + 1) ((a :: as).map text) ++
        (indent level ++ close :: u))) = _
      exact readItems_lined hclose (List.cons_ne_nil a as) hn hitem ['\n']
        (List.forall_mem_singleton.2 (by decide)) level u

end Items

/-! Script. -/

/-- A text leads a reader of script from one place to another without an end between them. -/
def Runs (w : Within) (depth : Nat) (t : Text) (w' : Within) (depth' : Nat) : Prop :=
  ∀ u, cutScript w depth (t ++ u) =
    (t ++ (cutScript w' depth' u).1, (cutScript w' depth' u).2)

section Runs

variable {w w' w'' : Within} {depth' depth'' : Nat}

theorem Runs.append (ht : Runs w depth t w' depth') (hu : Runs w' depth' u w'' depth'') :
    Runs w depth (t ++ u) w'' depth'' := fun x => by
  rw [List.append_assoc, ht, hu, List.append_assoc]

theorem runs_nil : Runs w depth [] w depth := fun _ => rfl

theorem runs_text (hquote : c ≠ '"') (hslash : c ≠ '\\') : Runs .text depth [c] .text depth :=
  fun u => by simp [cutScript, Within.next, hquote, hslash]

/-- What is written for one character of a string does not end the string. -/
theorem runs_escape (c : Char) (depth : Nat) : Runs .text depth (escape c) .text depth := by
  have hdigit : ∀ m < 16, hexDigit m ≠ '"' ∧ hexDigit m ≠ '\\' := by decide
  generalize hescape : escape c = escaped
  unfold escape at hescape
  split_ifs at hescape with hquote hslash hb hf hn hr ht hsmall <;> subst escaped
  all_goals try exact fun u => rfl
  · have hlow := hdigit (c.toNat % 16) (by omega)
    have hhigh := hdigit (c.toNat / 16) (by omega)
    have hhead : Runs .text depth ['\\', 'u', '0', '0'] .text depth := fun u => rfl
    exact hhead.append ((runs_text hhigh.1 hhigh.2).append (runs_text hlow.1 hlow.2))
  · exact runs_text hquote hslash

/-- A string is passed by as a whole. -/
theorem runs_quoted (t : Text) (depth : Nat) : Runs .code depth (quoted t) .code depth := by
  have hopen : Runs .code depth ['"'] .text depth := fun u => by
    simp [cutScript, Within.next, endsScript]
  have hclose : Runs .text depth ['"'] .code depth := fun u => by simp [cutScript, Within.next]
  have hinside : Runs .text depth (t.flatMap escape) .text depth := by
    induction t with
    | nil => exact runs_nil
    | cons c t ih => exact (runs_escape c depth).append ih
  exact hopen.append (hinside.append hclose)

theorem runs_word (ht : t.all isWordPart) (depth : Nat) : Runs .code depth t .code depth := by
  induction t with
  | nil => exact runs_nil
  | cons c t ih =>
      rw [List.all_cons, Bool.and_eq_true] at ht
      have hne : ∀ d, isWordPart d = false → c ≠ d := by
        rintro d hd rfl
        exact absurd ht.1 (by simp [hd])
      refine Runs.append (t := [c]) (fun u => ?_) (ih ht.2)
      simp [cutScript, Within.next, endsScript, hne '"' (by decide), hne '(' (by decide),
        hne '[' (by decide), hne '{' (by decide), hne ')' (by decide), hne ']' (by decide),
        hne '}' (by decide), hne ',' (by decide), hne ';' (by decide), hne '\n' (by decide)]

end Runs

/-- A text that is read as one piece of script. -/
structure IsScript (code : Text) : Prop where
  runs : Runs .code 0 code .code 0
  head : ∃ c rest, code = c :: rest ∧ ¬ isSpace c

theorem isScript_lazyImport (t : Text) : IsScript (lazyImport t) where
  runs := by
    have hhead : "() => import(".toList =
        ['(', ')', ' ', '=', '>', ' ', 'i', 'm', 'p', 'o', 'r', 't', '('] := rfl
    have hopen : Runs .code 0 "() => import(".toList .code 1 := by
      rw [hhead]
      exact fun u => rfl
    have hclose : Runs .code 1 [')'] .code 0 := fun u => rfl
    exact (hopen.append (runs_quoted t 1)).append hclose
  head := ⟨'(', _, rfl, by decide⟩

theorem cutScript_of_ends (hu : Ends u) : cutScript .code 0 u = ([], u) := by
  cases u with
  | nil => rfl
  | cons c u => rcases ends_cons.1 hu with rfl | rfl | rfl <;> rfl

theorem IsScript.readScript (h : IsScript code) (hgap : ∀ c ∈ gap, isSpace c) (hu : Ends u) :
    readScript (gap ++ (code ++ u)) = some (code, u) := by
  obtain ⟨c, rest, hcode, hc⟩ := h.head
  have hskip : skipSpaces (gap ++ (code ++ u)) = code ++ u := by
    rw [hcode, List.cons_append, skipSpaces_append hgap hc]
  have hcut := h.runs u
  rw [cutScript_of_ends hu, List.append_nil] at hcut
  rw [Interchange.readScript, hskip, hcut]
  exact if_neg (by simp [hcode])

/-! Trees. -/

/-- A tree without script in it. -/
inductive RawFree : Value → Prop
  | str (t : Text) : RawFree (.str t)
  | array {items : List Value} (h : ∀ v ∈ items, RawFree v) : RawFree (.array items)
  | object {fields : List (Text × Value)} (h : ∀ f ∈ fields, RawFree f.2) :
      RawFree (.object fields)

/-- A tree in which script stands in the fields that have it, and nothing else does. -/
inductive Legible (script : Text → Bool) : Value → Prop
  | str (t : Text) : Legible script (.str t)
  | null : Legible script (.raw "null".toList)
  | array {items : List Value} (h : ∀ v ∈ items, Legible script v) : Legible script (.array items)
  | object {fields : List (Text × Value)}
      (hscript : ∀ f ∈ fields, script f.1 → ∃ code, f.2 = .raw code ∧ IsScript code)
      (hvalue : ∀ f ∈ fields, ¬ script f.1 → Legible script f.2) : Legible script (.object fields)

theorem RawFree.legible (h : RawFree v) : Legible (fun _ => false) v := by
  induction h with
  | str t => exact .str t
  | array _ ih => exact .array ih
  | object _ ih => exact .object (fun _ _ hf => nomatch hf) fun f hf _ => ih f hf

/-- What a node begins with is neither a blank nor a mark that closes something. -/
theorem Legible.opens (h : Legible script v) (hc : c = ']' ∨ c = '}') (depth : Nat) :
    Opens c (v.write depth) := by
  have hopens : ∀ d ∈ ['"', 'n', '[', '{'], ¬ isSpace d ∧ d ≠ c := by
    rcases hc with rfl | rfl <;> simp [isSpace]
  cases h with
  | str t => exact ⟨'"', _, rfl, hopens '"' (by decide)⟩
  | null => exact ⟨'n', _, rfl, hopens 'n' (by decide)⟩
  | @array items _ =>
      have hwrite := write_array depth items []
      rw [List.append_nil] at hwrite
      exact ⟨'[', _, hwrite, hopens '[' (by decide)⟩
  | @object fields _ _ =>
      have hwrite := write_object depth fields []
      rw [List.append_nil] at hwrite
      exact ⟨'{', _, hwrite, hopens '{' (by decide)⟩

theorem readValue_str (hgap : ∀ c ∈ gap, isSpace c) (t u : Text) :
    readValue script (n + 1) (gap ++ (quoted t ++ u)) = some (.str t, u) := by
  have hread := readString_quoted t u
  have htext : quoted t ++ u = '"' :: (t.flatMap escape ++ '"' :: u) := by simp [quoted]
  rw [htext] at hread ⊢
  rw [readValue, skipSpaces_append hgap (by decide)]
  simp [hread]

theorem readValue_null (hgap : ∀ c ∈ gap, isSpace c) (hu : Ends u) :
    readValue script (n + 1) (gap ++ ("null".toList ++ u)) = some (.raw "null".toList, u) := by
  have hnull : "null".toList = ['n', 'u', 'l', 'l'] := rfl
  have hword : ∀ c ∈ "null".toList, isScalarChar c := List.all_eq_true.1 (by decide)
  have hstops : Text.StopsAt isScalarChar u := fun c hc => by
    rcases hu c hc with rfl | rfl | rfl <;> decide
  have hskip : skipSpaces (gap ++ ("null".toList ++ u)) = 'n' :: 'u' :: 'l' :: 'l' :: u :=
    skipSpaces_append hgap (by decide)
  have hread : readScalar ('n' :: 'u' :: 'l' :: 'l' :: u) = some ("null".toList, u) := by
    have htake := Text.takeWhile_run hword hstops
    have hdrop := Text.dropWhile_run hword hstops
    rw [hnull] at htake hdrop ⊢
    simp only [List.cons_append, List.nil_append] at htake hdrop
    unfold readScalar
    rw [htake, hdrop]
    exact if_pos (Or.inl rfl)
  rw [readValue, hskip]
  simp [hread]

theorem readValue_array {items : List Value} (hgap : ∀ c ∈ gap, isSpace c)
    (h : readListed ']' (readValue script n) n t = some (items, u)) :
    readValue script (n + 1) (gap ++ '[' :: t) = some (.array items, u) := by
  rw [readValue, skipSpaces_append hgap (by decide)]
  simp [h]

theorem readValue_object {fields : List (Text × Value)} (hgap : ∀ c ∈ gap, isSpace c)
    (h : readListed '}' (readField script (readValue script n)) n t = some (fields, u)) :
    readValue script (n + 1) (gap ++ '{' :: t) = some (.object fields, u) := by
  rw [readValue, skipSpaces_append hgap (by decide)]
  simp [h]

section Field

variable {value : Text → Option (Value × Text)} {name : Text}

/-- The name of a field is read, and the colon behind it. -/
theorem readField_eq (hgap : ∀ c ∈ gap, isSpace c) (name t : Text) :
    readField script value (gap ++ (quoted name ++ [':', ' '] ++ t)) =
      if script name then (readScript (' ' :: t)).map fun (code, rest) => ((name, .raw code), rest)
      else (value (' ' :: t)).map fun (v, rest) => ((name, v), rest) := by
  have hskip : skipSpaces (gap ++ (quoted name ++ ':' :: ' ' :: t)) =
      quoted name ++ ':' :: ' ' :: t := skipSpaces_append hgap (by decide)
  have hcolon : readMark ':' (':' :: ' ' :: t) = some (' ' :: t) := rfl
  rw [List.append_assoc, List.cons_append, List.cons_append, List.nil_append, readField, hskip,
    readString_quoted]
  simp only [Option.bind_eq_bind, Option.bind_some, hcolon]
  split
  · cases readScript (' ' :: t) <;> rfl
  · cases value (' ' :: t) <;> rfl

theorem readField_script (hname : script name) (hcode : IsScript code)
    (hgap : ∀ c ∈ gap, isSpace c) (hu : Ends u) :
    readField script value (gap ++ (quoted name ++ [':', ' '] ++ (code ++ u))) =
      some ((name, .raw code), u) := by
  have hread : readScript ([' '] ++ (code ++ u)) = some (code, u) :=
    hcode.readScript (List.forall_mem_singleton.2 (by decide)) hu
  rw [List.singleton_append] at hread
  rw [readField_eq hgap, if_pos hname, hread]
  rfl

theorem readField_value (hname : ¬ script name) (hv : value (' ' :: t) = some (v, u))
    (hgap : ∀ c ∈ gap, isSpace c) :
    readField script value (gap ++ (quoted name ++ [':', ' '] ++ t)) = some ((name, v), u) := by
  rw [readField_eq hgap, if_neg hname, hv]
  rfl

end Field

/-- What is inside a list is shorter than the list. -/
theorem length_le_length_body (depth : Nat) (ts : List Text) (close : Char) (u : Text) :
    ts.length ≤ (body depth ts close u).length ∧
      ∀ t ∈ ts, t.length ≤ (body depth ts close u).length := by
  have hmem : ∀ t ∈ ts, t.length ≤ (lined (depth + 1) ts).length := by
    induction ts with
    | nil => exact fun _ h => nomatch h
    | cons t ts ih =>
        intro t' ht'
        simp only [lined, List.length_append]
        rcases List.mem_cons.1 ht' with rfl | ht'
        · omega
        · have := ih t' ht'
          omega
  have hlength := length_le_length_lined (depth + 1) ts
  cases ts with
  | nil => exact ⟨Nat.zero_le _, fun _ h => nomatch h⟩
  | cons t ts =>
      have hbody : (lined (depth + 1) (t :: ts)).length ≤
          (body depth (t :: ts) close u).length := by
        simp [body]
        omega
      exact ⟨hlength.trans hbody, fun t' ht' => (hmem t' ht').trans hbody⟩

/-- A node is read as what was written, whatever blanks are before it. -/
theorem readValue_write (h : Legible script v) (depth n : Nat) (gap u : Text)
    (hn : (v.write depth).length ≤ n) (hgap : ∀ c ∈ gap, isSpace c) (hu : Ends u) :
    readValue script n (gap ++ (v.write depth ++ u)) = some (v, u) := by
  induction h generalizing depth n gap u with
  | str t =>
      obtain ⟨n, rfl⟩ : ∃ m, n = m + 1 := ⟨n - 1, by simp [Value.write, quoted] at hn; omega⟩
      exact readValue_str hgap t u
  | null =>
      obtain ⟨n, rfl⟩ : ∃ m, n = m + 1 := ⟨n - 1, by simp [Value.write] at hn; omega⟩
      exact readValue_null hgap hu
  | @array items hitems ih =>
      have hwrite := write_array depth items []
      rw [List.append_nil] at hwrite
      rw [hwrite, List.length_cons] at hn
      obtain ⟨n, rfl⟩ : ∃ m, n = m + 1 := ⟨n - 1, by omega⟩
      obtain ⟨hcount, hlength⟩ := length_le_length_body depth
        (items.map (·.write (depth + 1))) ']' []
      rw [List.length_map] at hcount
      rw [write_array]
      refine readValue_array hgap (readListed_body (by decide) (by omega)
        (fun v hv => (hitems v hv).opens (.inl rfl) _) (fun v hv gap rest hgap hrest => ?_) depth u)
      have hlong := hlength _ (List.mem_map_of_mem hv)
      exact ih v hv (depth + 1) n gap rest (by omega) hgap hrest
  | @object fields hscript hvalue ih =>
      have hwrite := write_object depth fields []
      rw [List.append_nil] at hwrite
      rw [hwrite, List.length_cons] at hn
      obtain ⟨n, rfl⟩ : ∃ m, n = m + 1 := ⟨n - 1, by omega⟩
      obtain ⟨hcount, hlength⟩ := length_le_length_body depth
        (fields.map fun f => quoted f.1 ++ [':', ' '] ++ f.2.write (depth + 1)) '}' []
      rw [List.length_map] at hcount
      have hopens : ∀ f ∈ fields,
          Opens '}' (quoted f.1 ++ [':', ' '] ++ f.2.write (depth + 1)) := fun f _ =>
        ⟨'"', _, rfl, by decide⟩
      rw [write_object]
      refine readValue_object hgap (readListed_body (by decide) (by omega) hopens
        (fun f hf gap rest hgap hrest => ?_) depth u)
      rw [List.append_assoc]
      obtain ⟨name, v⟩ := f
      by_cases hname : script name
      · obtain ⟨code, rfl, hcode⟩ := hscript _ hf hname
        exact readField_script hname hcode hgap hrest
      · have hlong := hlength _ (List.mem_map_of_mem hf)
        rw [List.length_append] at hlong
        have hread := ih _ hf hname (depth + 1) n [' '] rest (by omega)
          (List.forall_mem_singleton.2 (by decide)) hrest
        exact readField_value hname hread hgap

theorem read_write (h : Legible script v) : read script v.render = some v := by
  have hread : readValue script v.render.length ([] ++ (v.render ++ [])) = some (v, []) :=
    readValue_write h 0 _ [] [] (Nat.le_refl _) (List.forall_mem_nil _) (fun _ hc => nomatch hc)
  rw [List.append_nil, List.nil_append] at hread
  rw [read, hread]
  rfl

/-! References. -/

/-- What the browser is told of a component. -/
structure Component where
  id : Text
  name : Text
  path : Text
  code : Text
deriving DecidableEq

/-- What the browser is told of the component of a reference. -/
def componentOf (r : Reference) : Component := ⟨r.id, r.name, r.sourcePath, r.importExpr⟩

/-- What an entry of a list tells, if it is of a component. -/
def component? : Value → Option Component
  | .object fields =>
    match ["id", "name", "path", "import"].map fun name => fields.lookup name.toList with
    | [some (.str id), some (.str name), some (.str path), some (.raw code)] =>
      some ⟨id, name, path, code⟩
    | _ => none
  | _ => none

/-- The components of a list in which the fields that import are script and nothing else is. -/
def readComponents (t : Text) : Option (List Component) := do
  match ← read (· = "import".toList) t with
  | .array items => items.mapM component?
  | _ => none

theorem component?_entryOf (r : Reference) : component? (entryOf r) = some (componentOf r) := rfl

theorem legible_entryOf {r : Reference} (h : ∃ t, r.importExpr = lazyImport t) :
    Legible (· = "import".toList) (entryOf r) := by
  obtain ⟨t, ht⟩ := h
  refine .object (fun f hf hname => ?_) fun f hf hname => ?_
  · simp only [List.mem_cons, List.not_mem_nil, or_false] at hf
    rcases hf with rfl | rfl | rfl | rfl
    · exact absurd hname Bool.false_ne_true
    · exact absurd hname Bool.false_ne_true
    · exact absurd hname Bool.false_ne_true
    · exact ⟨_, rfl, ht ▸ isScript_lazyImport t⟩
  · simp only [List.mem_cons, List.not_mem_nil, or_false] at hf
    rcases hf with rfl | rfl | rfl | rfl
    · exact .str _
    · exact .str _
    · exact .str _
    · exact absurd rfl hname

theorem readComponents_listOf {rs : List Reference}
    (h : ∀ r ∈ rs, ∃ t, r.importExpr = lazyImport t) :
    readComponents (listOf rs).render = some (rs.map componentOf) := by
  have hlegible : Legible (· = "import".toList) (listOf rs) := .array fun v hv => by
    obtain ⟨r, hr, rfl⟩ := List.mem_map.1 hv
    exact legible_entryOf (h r hr)
  have hcomponents : (rs.map entryOf).mapM component? = some (rs.map componentOf) := by
    clear h hlegible
    induction rs with
    | nil => rfl
    | cons r rs ih => simp [component?_entryOf, ih]
  rw [readComponents, read_write hlegible]
  exact hcomponents

/-- Lists in lists, equal names, and texts that need escapes. -/
def tangled : Value :=
  .object [("a\"".toList, .array [.str "\\\n\x01é".toList, .array [], .object []]),
    ("a\"".toList, .array [.array [.str []]])]

/-- A component of which the path has a quote in it. -/
def quotedCard : Reference where
  id := "5f".toList
  name := "Card".toList
  sourcePath := "a\".pw".toList
  importPath := "a\".js".toList
  importExpr := lazyImport "../a\".js".toList

example : (readJson "[\"a\",]".toList).isNone := by decide
example : (readJson "[\"\\x41\"]".toList).isNone := by decide
example : (readJson " [-1.5e3, null, \"\\ud83d\\ude00\"] ".toList).isSome := by decide

end Quire.Interchange
