import Quire.Interchange.Value
import Quire.Proofs.Script.Lexing
import Quire.Script.Module

/-!
How the grammar reads a value of the interchange notation. Main statements: `passes_quoted`,
`passes_array` and `passes_object`, by which a value is read as an expression that ends where the
value ends.
-/

namespace Quire.Script

open Reads Grammar
open Interchange (Value indent separator writeItems writeFields)
open Text (quoted)

variable {α β : Type} {r r' : Reader} {t u after rest w : Text} {e : Expr} {self : Rules}
  {item : Reads Expr}

/-- A reader that has come to a text. -/
def Reader.facing (r : Reader) (t : Text) : Reader :=
  { r with token := (Script.token t).1, rest := (Script.token t).2 }

/-- A reader whose token and whose rest are those of a text. Only whether a line has ended before
the token may be otherwise. -/
structure Reader.Faces (r : Reader) (t : Text) : Prop where
  lexeme : r.token.lexeme = (Script.token t).1.lexeme
  rest : r.rest = (Script.token t).2

theorem Reader.faces_facing (r : Reader) (t : Text) : (r.facing t).Faces t := ⟨rfl, rfl⟩

theorem Reader.Faces.of_gap (gap : Text) (hgap : gap.all isGapChar) (h : r.Faces (gap ++ t)) :
    r.Faces t := by
  obtain ⟨hlexeme, hrest⟩ := token_of_gap hgap t
  exact ⟨h.lexeme.trans hlexeme, h.rest.trans hrest⟩

theorem Reader.Faces.lexeme_eq {l : Lexeme} (h : r.Faces t) (ht : Starts t l rest) :
    r.token.lexeme = l := h.lexeme.trans ht.lexeme

theorem Reader.Faces.rest_eq {l : Lexeme} (h : r.Faces t) (ht : Starts t l rest) : r.rest = rest :=
  h.rest.trans ht.rest

@[simp] theorem Reader.facing_facing (r : Reader) (t u : Text) :
    (r.facing t).facing u = r.facing u := rfl

@[simp] theorem Reader.exported_facing (r : Reader) (t : Text) :
    (r.facing t).exported = r.exported := rfl

/-! What the readings that others are made of do to a reader. -/

@[simp] theorem bind_apply (x : Reads α) (f : α → Reads β) (r : Reader) :
    (x >>= f) r = (x r).bind fun p => f p.1 p.2 := rfl

@[simp] theorem map_apply (x : Reads α) (f : α → β) (r : Reader) :
    (f <$> x) r = (x r).map fun p => (f p.1, p.2) := by
  cases h : x r <;> simp [Functor.map, StateT.map, h]

@[simp] theorem discard_apply (x : Reads α) (r : Reader) :
    discard x r = (x r).map fun p => ((), p.2) := by
  cases h : x r <;> simp [discard, Functor.mapConst, StateT.map, h]

@[simp] theorem pure_apply (a : α) (r : Reader) : (pure a : Reads α) r = some (a, r) := rfl

@[simp] theorem failure_apply (r : Reader) : (failure : Reads α) r = none := rfl

@[simp] theorem get_apply (r : Reader) : (get : Reads Reader) r = some (r, r) := rfl

@[simp] theorem modify_apply (f : Reader → Reader) (r : Reader) :
    (modify f : Reads Unit) r = some ((), f r) := rfl

@[simp] theorem next_apply (r : Reader) : next r = some (r.token.lexeme, r) := rfl

@[simp] theorem onNewLine_apply (r : Reader) : onNewLine r = some (r.token.onNewLine, r) := rfl

@[simp] theorem atMark_apply (m : String) (r : Reader) :
    atMark m r = some (r.token.lexeme.isMark m, r) := rfl

@[simp] theorem atWord_apply (m : String) (r : Reader) :
    atWord m r = some (r.token.lexeme.isWord m, r) := rfl

@[simp] theorem advance_apply (r : Reader) : advance r = some ((), r.facing r.rest) := rfl

@[simp] theorem glance_apply (reads : Reads α) (r : Reader) :
    glance reads r = some ((reads r).map (·.1), r) := rfl

@[simp] theorem ahead_apply (ask : Reads Bool) (r : Reader) :
    ahead ask r = some (((ask r).map (·.1)).getD false, r) := rfl

@[simp] theorem within_apply (change : Setting → Setting) (reads : Reads α) (r : Reader) :
    within change reads r =
      (reads { r with setting := change r.setting }).map fun p =>
        (p.1, { p.2 with setting := r.setting }) := by
  cases h : reads { r with setting := change r.setting } <;> simp [within, h]

@[simp] theorem loop_apply {σ : Type} (step : σ → Reads (σ × Bool)) (s : σ) (r : Reader) :
    loop step s r = repeated step (' ' :: ' ' :: r.rest) s r := rfl

/-- What is asked of the token behind the next one moves no reader. -/
theorem precedesOperand_apply (r : Reader) : ∃ b, precedesOperand r = some (b, r) := ⟨_, rfl⟩

/-! Where an expression ends. -/

/-- The marks that end an item, a list of items or a statement. -/
def closers : List Lexeme := [.mark [','], .mark [']'], .mark ['}'], .mark [';']]

/-- A text before which every expression ends. -/
structure EndsExpr (u : Text) : Prop where
  stops : Stops u
  closes : (token u).1.lexeme ∈ closers

theorem withParts_of_closer (h : r.token.lexeme ∈ closers) (calls : Bool) :
    withParts self calls e r = some (e, r) := by
  simp only [closers, List.mem_cons, List.not_mem_nil, or_false] at h
  rcases h with h | h | h | h <;>
    simp [withParts, repeated, eatMark, Lexeme.isMark, Lexeme.isTemplate, h]

theorem rank?_of_closer {l : Lexeme} (joins : Bool) (h : l ∈ closers) : rank? joins l = none := by
  simp only [closers, List.mem_cons, List.not_mem_nil, or_false] at h
  rcases h with rfl | rfl | rfl | rfl <;> cases joins <;> decide

/-- What a value of the notation begins with. -/
inductive BeginsValue : Lexeme → Prop
  | text (v : Text) : BeginsValue (.text v false)
  | bracket : BeginsValue (.mark ['['])
  | brace : BeginsValue (.mark ['{'])
  | null : BeginsValue (.word ['n', 'u', 'l', 'l'] false)
  | name (w : Text) (hname : isNaming w)
      (hkept : w ∉ ["async", "await", "yield"].map String.toList) : BeginsValue (.word w false)

/-- A word that begins a value gives no operator, and none of the rules that only some words have
speaks of it. -/
theorem BeginsValue.isWord {l : Lexeme} (h : BeginsValue l) {m : String}
    (hm : m ∈ ["async", "await", "yield", "typeof", "void", "delete"]) : l.isWord m = false := by
  cases h with
  | text v => rfl
  | bracket => rfl
  | brace => rfl
  | null =>
      simp only [List.mem_cons, List.not_mem_nil, or_false] at hm
      rcases hm with rfl | rfl | rfl | rfl | rfl | rfl <;> decide
  | name w hname hkept =>
      have hne : ∀ x : Text, isNaming x = false → w ≠ x := by
        rintro x hx rfl
        exact absurd hname (by simp [hx])
      simp only [List.mem_cons, List.map_cons, List.map_nil, List.not_mem_nil, or_false,
        not_or] at hm hkept
      rcases hm with rfl | rfl | rfl | rfl | rfl | rfl
      · exact decide_eq_false hkept.1
      · exact decide_eq_false hkept.2.1
      · exact decide_eq_false hkept.2.2
      · exact decide_eq_false (hne _ (by decide))
      · exact decide_eq_false (hne _ (by decide))
      · exact decide_eq_false (hne _ (by decide))

theorem BeginsValue.isMark {l : Lexeme} (h : BeginsValue l) {m : String}
    (hm : m.toList ≠ ['['] ∧ m.toList ≠ ['{']) : l.isMark m = false := by
  cases h with
  | bracket => exact decide_eq_false fun h => hm.1 (Lexeme.mark.inj h).symm
  | brace => exact decide_eq_false fun h => hm.2 (Lexeme.mark.inj h).symm
  | _ => exact decide_eq_false (by simp)

/-- Operands joined by operators are the first operand alone if nothing joins it. -/
theorem joined_of_primary (hbegins : BeginsValue r.token.lexeme)
    (hprimary : primary self r = some (e, r')) (hcloser : r'.token.lexeme ∈ closers) (least : Nat) :
    joined self least r = some (e, r') := by
  obtain ⟨b, hb⟩ := precedesOperand_apply r
  have hstep : isStep r'.token.lexeme = false := by
    simp only [closers, List.mem_cons, List.not_mem_nil, or_false] at hcloser
    rcases hcloser with h | h | h | h <;> simp [isStep, Lexeme.isMark, h]
  have hunary : unary self r = some (e, r') := by
    have hsign : isSign r.token.lexeme = false := by
      simp [isSign, hbegins.isMark, hbegins.isWord]
    have hcount : isStep r.token.lexeme = false := by simp [isStep, hbegins.isMark]
    simp [unary, atWait, hsign, hcount, hb, hbegins.isWord, place, hprimary,
      withParts_of_closer hcloser, hstep]
  rcases r with ⟨⟨l, onNewLine⟩, rest, setting, faulty, initials, exported⟩
  cases hbegins <;> simp [joined, hunary, repeated, rank?_of_closer _ hcloser]

/-- Nothing is stored, chosen or handed out where a value stands alone. -/
theorem assignment_of_joined (hbegins : BeginsValue r.token.lexeme)
    (hjoined : self (.joined 0) r = some (e, r')) (hcloser : r'.token.lexeme ∈ closers) :
    assignment self r = some (e, r') := by
  obtain ⟨b, hb⟩ := precedesOperand_apply r
  have hyield : atYield r = some (false, r) := by simp [atYield, hb, hbegins.isWord]
  have harrow : arrowFunction? self r = some (none, r) := by
    simp [arrowFunction?, arrowLikelihood, eatWord, expectMark, eatMark, hbegins.isWord,
      hbegins.isMark]
  have hasync : asyncArrow? self r = some (none, r) := by
    simp [asyncArrow?, hbegins.isWord]
  simp only [closers, List.mem_cons, List.not_mem_nil, or_false] at hcloser
  rcases hcloser with h | h | h | h <;>
    simp [assignment, hyield, harrow, hasync, hjoined, h, storeMarks, choice, eatMark,
      Lexeme.isMark]

/-- An expression is what it begins with if it ends right behind that. -/
theorem parse_of_primary {depth : Nat} (hbegins : BeginsValue r.token.lexeme)
    (hprimary : primary (parse depth) r = some (e, r')) (hcloser : r'.token.lexeme ∈ closers) :
    parse (depth + 2) .assignment r = some (e, r') :=
  assignment_of_joined hbegins (joined_of_primary hbegins hprimary hcloser 0) hcloser

/-! Passing by a text. -/

/-- A reading that passes by a text, whatever a reader has behind it, if an expression may end where
the text ends. -/
structure Passes (reads : Reads Expr) (t : Text) : Prop where
  begins : ∀ u, EndsExpr u → BeginsValue (token (t ++ u)).1.lexeme
  passes : ∀ r u, EndsExpr u → r.Faces (t ++ u) → ∃ e, reads r = some (e, r.facing u)

theorem Passes.ofPrimary {depth : Nat}
    (hbegins : ∀ u, EndsExpr u → BeginsValue (token (t ++ u)).1.lexeme)
    (hprimary : ∀ r u, EndsExpr u → r.Faces (t ++ u) →
      ∃ e, primary (parse depth) r = some (e, r.facing u)) :
    Passes (parse (depth + 2) .assignment) t where
  begins := hbegins
  passes := by
    intro r u hu hr
    obtain ⟨e, he⟩ := hprimary r u hu hr
    refine ⟨e, parse_of_primary ?_ he hu.closes⟩
    rw [hr.lexeme]
    exact hbegins u hu

theorem passes_quoted (depth : Nat) (t : Text) :
    Passes (parse (depth + 2) .assignment) (quoted t) := by
  apply Passes.ofPrimary
  · intro u _
    rw [(starts_quoted t u).lexeme]
    exact .text t
  · intro r u _ hr
    exact ⟨.other, by
      simp [primary, hr.lexeme_eq (starts_quoted t u), hr.rest_eq (starts_quoted t u)]⟩

theorem take_of_plain (h : r.token.lexeme = .word w false) :
    take r = some ((), r.facing r.rest) := by
  simp [take, h]

theorem passes_null (depth : Nat) : Passes (parse (depth + 2) .assignment) "null".toList := by
  have hstarts : ∀ u, EndsExpr u → Starts ("null".toList ++ u) (.word ['n', 'u', 'l', 'l'] false) u :=
    fun u hu => starts_word (by decide) (by decide) hu.stops
  apply Passes.ofPrimary
  · intro u hu
    rw [(hstarts u hu).lexeme]
    exact .null
  · intro r u hu hr
    have hlexeme := hr.lexeme_eq (hstarts u hu)
    have hvalue : wordValue (parse depth) ['n', 'u', 'l', 'l'] r = some (.other, r.facing u) := by
      rw [wordValue, if_pos (by decide)]
      simp [take_of_plain hlexeme, hr.rest_eq (hstarts u hu)]
    exact ⟨.other, by simp [primary, hlexeme, hvalue]⟩

theorem naming_of_word (hlexeme : r.token.lexeme = .word w false) (hname : isNaming w)
    (hkept : w ∉ ["async", "await", "yield"].map String.toList) :
    naming r = some (w, r.facing r.rest) := by
  have hcheck : checkName w r = some ((), r) := by
    simp at hkept
    simp [checkName, hkept]
  simp [naming, hlexeme, hname, hcheck]

/-- A word that names something is read as that name. -/
theorem wordValue_of_word (hlexeme : r.token.lexeme = .word w false) (hname : isNaming w)
    (hkept : w ∉ ["async", "await", "yield"].map String.toList) :
    wordValue self w r = some (.name w, r.facing r.rest) := by
  have hreserved : w ∉ reservedWords := by
    have hne := hkept
    simp at hne
    simpa [isNaming, hne] using hname
  have hasync : atAsyncFunction r = some (false, r) := by
    simp [atAsyncFunction, hlexeme, (BeginsValue.name w hname hkept).isWord]
  simp [reservedWords] at hreserved
  rw [wordValue]
  simp [hreserved, hasync, naming_of_word hlexeme hname hkept]

/-- A word for something that has a name. -/
theorem passes_name {c : Char} (depth : Nat) (hc : c.isAlpha) (hw : w.all isWordPart)
    (hname : isNaming (c :: w))
    (hkept : (c :: w) ∉ ["async", "await", "yield"].map String.toList) :
    Passes (parse (depth + 2) .assignment) (c :: w) := by
  apply Passes.ofPrimary
  · intro u hu
    rw [List.cons_append, (starts_word hc hw hu.stops).lexeme]
    exact .name _ hname hkept
  · intro r u hu hr
    have hstarts := starts_word hc hw hu.stops
    have hlexeme := hr.lexeme_eq hstarts
    have hvalue : wordValue (parse depth) (c :: w) r = some (.name (c :: w), r.facing u) :=
      hr.rest_eq hstarts ▸ wordValue_of_word hlexeme hname hkept
    refine ⟨.name (c :: w), ?_⟩
    simp only [primary, bind_apply, next_apply, Option.bind_some, hlexeme, hvalue]

/-! Lines of items. -/

/-- Texts on lines of their own, with commas between them. -/
def lined (depth : Nat) : List Text → Text
  | [] => []
  | t :: rest => indent depth ++ t ++ separator rest.isEmpty ++ lined depth rest

theorem writeItems_eq (depth : Nat) (items : List Value) :
    writeItems depth items = lined depth (items.map (·.write depth)) := by
  induction items with
  | nil => rfl
  | cons item rest ih => simp [writeItems, lined, ih]

theorem writeFields_eq (depth : Nat) (fields : List (Text × Value)) :
    writeFields depth fields =
      lined depth (fields.map fun f => quoted f.1 ++ [':', ' '] ++ f.2.write depth) := by
  induction fields with
  | nil => rfl
  | cons f rest ih => simp [writeFields, lined, ih]

theorem length_le_length_lined (depth : Nat) (ts : List Text) :
    ts.length ≤ (lined depth ts).length := by
  induction ts with
  | nil => exact Nat.le_refl 0
  | cons t rest ih =>
      have hseparator : 1 ≤ (separator rest.isEmpty).length := by
        cases rest.isEmpty <;> decide
      simp only [lined, List.length_append, List.length_cons]
      omega

theorem all_isGapChar_indent (depth : Nat) : (indent depth).all isGapChar :=
  List.all_eq_true.2 fun c hc => by
    rw [List.eq_of_mem_replicate hc]
    rfl

theorem starts_comma (u : Text) : Starts (',' :: u) (.mark [',']) u :=
  starts_of_isSolid (by decide) u

/-- Before a separator an expression ends: before a comma, or before the mark that closes the
list. -/
theorem endsExpr_separator {close : Lexeme} (hclose : close ∈ closers)
    (hafter : Starts after close rest) (isLast : Bool) (more : Text)
    (hmore : isLast → more = after) : EndsExpr (separator isLast ++ more) := by
  cases isLast with
  | true =>
      obtain rfl := hmore rfl
      have hstarts : Starts ('\n' :: more) close rest := hafter.of_gap ['\n'] rfl
      exact ⟨by simp [separator, Stops]; decide, hstarts.lexeme.symm ▸ hclose⟩
  | false =>
      have hstarts : Starts (',' :: '\n' :: more) (.mark [',']) ('\n' :: more) := starts_comma _
      exact ⟨by simp [separator, Stops]; decide, hstarts.lexeme.symm ▸ by decide⟩

/-- What is done for each item of a list but the first. -/
def listedStep (close : String) (item : Reads Expr) :
    List Expr × Bool → Reads ((List Expr × Bool) × Bool) :=
  fun (items, _) => do
    if ← atMark close then return ((items, false), false)
    expectMark ","
    if ← atMark close then return ((items, true), false)
    return (((← item) :: items, false), true)

theorem listed_eq (close : String) (item : Reads Expr) :
    listed close item = do
      if ← atMark close then return ([], false)
      let first ← item
      let (items, trailing) ← loop (listedStep close item) ([first], false)
      return (items.reverse, trailing) := rfl

section

variable {close : String} {depth : Nat} {ts : List Text}

/-- Behind an item of a list the list goes on with its other items or is closed. -/
theorem endsExpr_lined (depth : Nat) (hclose : Lexeme.mark close.toList ∈ closers)
    (hafter : Starts after (.mark close.toList) rest) (ts : List Text) :
    EndsExpr (separator ts.isEmpty ++ (lined depth ts ++ after)) :=
  endsExpr_separator hclose hafter ts.isEmpty _ fun h => by
    rw [List.isEmpty_iff.1 h]
    rfl

/-- Behind a comma that does not come last stands an item. -/
theorem listedStep_of_comma (hclose : close = "]" ∨ close = "\x7d")
    (hlexeme : r.token.lexeme = .mark [',']) (items : List Expr)
    (hopen : (r.facing r.rest).token.lexeme.isMark close = false)
    (hitem : item (r.facing r.rest) = some (e, r')) :
    listedStep close item (items, false) r = some (((e :: items, false), true), r') := by
  have hother : Lexeme.isMark (.mark [',']) close = false := by
    rcases hclose with rfl | rfl <;> decide
  have hcomma : Lexeme.isMark (.mark [',']) "," = true := by decide
  simp [listedStep, expectMark, eatMark, hlexeme, hother, hcomma, hopen, hitem]

/-- The items behind one of a list are read one by one up to the mark that closes the list. -/
theorem repeated_listedStep (depth : Nat) (hclose : close = "]" ∨ close = "\x7d")
    (hafter : Starts after (.mark close.toList) rest) (hitems : ∀ t ∈ ts, Passes item t)
    (times : Text) (htimes : ts.length < times.length) (items : List Expr) (r : Reader) :
    ∃ items', repeated (listedStep close item) times (items, false)
        (r.facing (separator ts.isEmpty ++ (lined depth ts ++ after))) =
      some ((items', false), r.facing ('\n' :: after)) := by
  have hcloser : Lexeme.mark close.toList ∈ closers := by
    rcases hclose with rfl | rfl <;> decide
  induction ts generalizing times items r with
  | nil =>
      obtain ⟨_, times, rfl⟩ := List.exists_cons_of_length_pos htimes
      have hstarts : Starts ('\n' :: after) (.mark close.toList) rest :=
        hafter.of_gap ['\n'] rfl
      have hlexeme : (r.facing ('\n' :: after)).token.lexeme.isMark close = true :=
        decide_eq_true ((r.faces_facing _).lexeme_eq hstarts)
      refine ⟨items, ?_⟩
      change repeated _ _ _ (r.facing ('\n' :: after)) = _
      simp [repeated, listedStep, hlexeme]
  | cons t ts ih =>
      obtain ⟨_, times, rfl⟩ := List.exists_cons_of_length_pos (Nat.zero_lt_of_lt htimes)
      have hcomma := starts_comma ('\n' :: (lined depth (t :: ts) ++ after))
      have hface := r.faces_facing (',' :: '\n' :: (lined depth (t :: ts) ++ after))
      have hends := endsExpr_lined depth hcloser hafter ts
      have hitem := hitems t List.mem_cons_self
      have hnext : (r.facing ('\n' :: (lined depth (t :: ts) ++ after))).Faces
          (t ++ (separator ts.isEmpty ++ (lined depth ts ++ after))) := by
        apply Reader.Faces.of_gap ('\n' :: indent depth)
        · exact all_isGapChar_indent depth
        · simpa [lined] using r.faces_facing ('\n' :: (lined depth (t :: ts) ++ after))
      obtain ⟨e, he⟩ := hitem.passes _ _ hends hnext
      obtain ⟨items', hrest⟩ := ih (fun t' h => hitems t' (List.mem_cons_of_mem t h)) times
        (Nat.lt_of_succ_lt_succ htimes) (e :: items) r
      have hopen : (r.facing ('\n' :: (lined depth (t :: ts) ++ after))).token.lexeme.isMark close =
          false := by
        rw [hnext.lexeme]
        exact (hitem.begins _ hends).isMark (by rcases hclose with rfl | rfl <;> decide)
      refine ⟨items', ?_⟩
      change repeated _ _ _ (r.facing (',' :: '\n' :: (lined depth (t :: ts) ++ after))) = _
      have hstep := listedStep_of_comma hclose (hface.lexeme_eq hcomma) items
        (by rwa [hface.rest_eq hcomma]) (by rw [hface.rest_eq hcomma]; exact he)
      simp only [Reader.facing_facing] at hstep
      simp [repeated, hstep, hrest]

/-- What stands behind the mark that opens a list: the items on lines of their own, the mark that
closes it, and what follows. -/
def body (depth : Nat) (ts : List Text) (close : Char) (u : Text) : Text :=
  if ts.isEmpty then close :: u
  else '\n' :: (lined (depth + 1) ts ++ (indent depth ++ close :: u))

theorem write_array (level : Nat) (items : List Value) (u : Text) :
    (Value.array items).write level ++ u =
      '[' :: body level (items.map (·.write (level + 1))) ']' u := by
  cases items <;> simp [Value.write, body, writeItems_eq]

theorem write_object (level : Nat) (fields : List (Text × Value)) (u : Text) :
    (Value.object fields).write level ++ u =
      '{' :: body level (fields.map fun f => quoted f.1 ++ [':', ' '] ++ f.2.write (level + 1))
        '}' u := by
  cases fields <;> simp [Value.write, body, writeFields_eq]

/-- A list is long enough for its items to be read one by one. -/
theorem length_lt_of_items (depth : Nat) (r : Reader) (ts : List Text) (after : Text) :
    ts.length <
      (' ' :: ' ' :: (r.facing (separator ts.isEmpty ++ (lined depth ts ++ after))).rest).length := by
  cases ts with
  | nil => exact Nat.zero_lt_succ _
  | cons t ts =>
      have hrest : (r.facing (',' :: '\n' :: (lined depth (t :: ts) ++ after))).rest =
          '\n' :: (lined depth (t :: ts) ++ after) :=
        (r.faces_facing _).rest_eq (starts_comma _)
      have hlength := length_le_length_lined depth (t :: ts)
      change _ < (' ' :: ' ' ::
        (r.facing (',' :: '\n' :: (lined depth (t :: ts) ++ after))).rest).length
      rw [hrest]
      simp only [List.length_cons, List.length_append] at hlength ⊢
      omega

/-- All items of a list are read up to the mark that closes it. -/
theorem listed_body {c : Char} (hclose : close = "]" ∧ c = ']' ∨ close = "\x7d" ∧ c = '}')
    (hitems : ∀ t ∈ ts, Passes item t) (u : Text) :
    ∃ v, Starts v (.mark [c]) u ∧ ∀ r : Reader, ∃ items,
      listed close item (r.facing (body depth ts c u)) = some ((items, false), r.facing v) := by
  have hlist : close.toList = [c] := by
    rcases hclose with ⟨rfl, rfl⟩ | ⟨rfl, rfl⟩ <;> rfl
  have hmark : close = "]" ∨ close = "\x7d" := hclose.imp And.left And.left
  have hstarts : Starts (c :: u) (.mark close.toList) u := by
    rcases hclose with ⟨rfl, rfl⟩ | ⟨rfl, rfl⟩ <;> exact starts_of_isSolid (by decide) u
  cases ts with
  | nil =>
      refine ⟨c :: u, hlist ▸ hstarts, fun r => ⟨[], ?_⟩⟩
      have hlexeme : (r.facing (c :: u)).token.lexeme.isMark close = true :=
        decide_eq_true ((r.faces_facing _).lexeme_eq hstarts)
      change listed close item (r.facing (c :: u)) = _
      simp [listed_eq, hlexeme]
  | cons t ts =>
      have hafter : Starts (indent depth ++ c :: u) (.mark close.toList) u :=
        hstarts.of_gap _ (all_isGapChar_indent depth)
      refine ⟨'\n' :: (indent depth ++ c :: u), hlist ▸ hafter.of_gap ['\n'] rfl,
        fun r => ?_⟩
      have hcloser : Lexeme.mark close.toList ∈ closers := by
        rcases hmark with rfl | rfl <;> decide
      have hends := endsExpr_lined (depth + 1) hcloser hafter ts
      have hitem := hitems t List.mem_cons_self
      have hface : (r.facing (body depth (t :: ts) c u)).Faces
          (t ++ (separator ts.isEmpty ++ (lined (depth + 1) ts ++ (indent depth ++ c :: u)))) := by
        apply Reader.Faces.of_gap ('\n' :: indent (depth + 1))
        · exact all_isGapChar_indent (depth + 1)
        · simpa [body, lined] using r.faces_facing (body depth (t :: ts) c u)
      have hopen : (r.facing (body depth (t :: ts) c u)).token.lexeme.isMark close = false := by
        rw [hface.lexeme]
        exact (hitem.begins _ hends).isMark (by rcases hmark with rfl | rfl <;> decide)
      obtain ⟨e, he⟩ := hitem.passes _ _ hends hface
      obtain ⟨items, hrest⟩ := repeated_listedStep (depth + 1) hmark hafter
        (fun t' h => hitems t' (List.mem_cons_of_mem t h)) _
        (length_lt_of_items (depth + 1) r ts (indent depth ++ c :: u)) [e] r
      rw [Reader.facing_facing] at he
      exact ⟨items.reverse, by simp [listed_eq, hopen, he, hrest]⟩

end

/-! Arrays and objects. -/

theorem joining_apply (reads : Reads α) (r : Reader) :
    joining reads r = (reads { r with setting := { r.setting with joins := true } }).map fun p =>
      (p.1, { p.2 with setting := r.setting }) := within_apply _ reads r

/-- Where a value is joined to others, it is read as it is elsewhere. -/
theorem Passes.joining {reads : Reads Expr} (h : Passes reads t) : Passes (joining reads) t where
  begins := h.begins
  passes := by
    intro r u hu hr
    obtain ⟨e, he⟩ := h.passes { r with setting := { r.setting with joins := true } } u hu
      ⟨hr.lexeme, hr.rest⟩
    refine ⟨e, ?_⟩
    rw [joining_apply, he]
    rfl

/-- An element that is neither left out nor spread is an expression. -/
theorem Passes.element (h : Passes (self .assignment) t) : Passes (element self) t where
  begins := h.begins
  passes := by
    intro r u hu hr
    obtain ⟨e, he⟩ := h.passes r u hu hr
    have hbegins := hr.lexeme ▸ h.begins u hu
    exact ⟨e, by simp [Grammar.element, spreadable, eatMark, hbegins.isMark, he]⟩

/-- A list of items between two marks. -/
def bracketed (opening close : String) (item : Reads Expr) (make : List Expr → Bool → Expr) :
    Reads Expr := do
  expectMark opening
  let (items, trailing) ← joining (listed close item)
  expectMark close
  return make items trailing

theorem array_eq (self : Rules) : array self = bracketed "[" "]" (Grammar.element self) .array :=
  rfl

theorem object_eq (self : Rules) : object self = bracketed "\x7b" "\x7d" (field self) .object := rfl

theorem bracketed_body {opening close : String} {c d : Char} {level : Nat} {ts : List Text}
    {make : List Expr → Bool → Expr}
    (hopening : opening = "[" ∧ d = '[' ∨ opening = "\x7b" ∧ d = '{')
    (hclose : close = "]" ∧ c = ']' ∨ close = "\x7d" ∧ c = '}')
    (hitems : ∀ t ∈ ts, Passes item t) (hr : r.Faces (d :: body level ts c u)) :
    ∃ e, bracketed opening close item make r = some (e, r.facing u) := by
  obtain ⟨v, hv, hlisted⟩ := listed_body hclose hitems u
  obtain ⟨items, hitems⟩ := hlisted { r with setting := { r.setting with joins := true } }
  have hstarts : Starts (d :: body level ts c u) (.mark opening.toList) (body level ts c u) := by
    rcases hopening with ⟨rfl, rfl⟩ | ⟨rfl, rfl⟩ <;> exact starts_of_isSolid (by decide) _
  have hmark : Lexeme.isMark (.mark opening.toList) opening = true := decide_eq_true rfl
  have hjoining : joining (listed close item) (r.facing (body level ts c u)) =
      some ((items, false), r.facing v) := by
    rw [joining_apply]
    exact congrArg (Option.map _) hitems
  have hend : Lexeme.isMark (.mark [c]) close = true := by
    rcases hclose with ⟨rfl, rfl⟩ | ⟨rfl, rfl⟩ <;> decide
  have hface := r.faces_facing v
  exact ⟨make items false, by
    simp [bracketed, expectMark, eatMark, hr.lexeme_eq hstarts, hr.rest_eq hstarts, hmark, hjoining,
      hface.lexeme_eq hv, hface.rest_eq hv, hend]⟩

/-- An array is read if its items are. -/
theorem passes_array (depth level : Nat) (items : List Value)
    (h : ∀ v ∈ items, Passes (parse depth .assignment) (v.write (level + 1))) :
    Passes (parse (depth + 2) .assignment) ((Value.array items).write level) := by
  have hitems : ∀ t ∈ items.map (·.write (level + 1)),
      Passes (Grammar.element (parse depth)) t := by
    intro t ht
    obtain ⟨v, hv, rfl⟩ := List.mem_map.1 ht
    exact (h v hv).element
  have hstarts : ∀ x, Starts ('[' :: x) (.mark ['[']) x := starts_of_isSolid (by decide)
  apply Passes.ofPrimary
  · intro u _
    rw [write_array, (hstarts _).lexeme]
    exact .bracket
  · intro r u _ hr
    rw [write_array] at hr
    have hread : ∃ e, array (parse depth) r = some (e, r.facing u) := by
      rw [array_eq]
      exact bracketed_body (.inl ⟨rfl, rfl⟩) (.inl ⟨rfl, rfl⟩) hitems hr
    obtain ⟨e, he⟩ := hread
    exact ⟨e, by simp [primary, hr.lexeme_eq (hstarts _), he]⟩

/-- A field with a name and a value is read if the value is. -/
theorem Passes.field {v : Text} (h : Passes (self .assignment) v) (name : Text) :
    Passes (field self) (quoted name ++ [':', ' '] ++ v) where
  begins := by
    intro u _
    rw [List.append_assoc, List.append_assoc, (starts_quoted name _).lexeme]
    exact .text name
  passes := by
    intro r u hu hr
    rw [List.append_assoc, List.append_assoc] at hr
    have hname := starts_quoted name ([':', ' '] ++ (v ++ u))
    have hcolon : Starts (':' :: ' ' :: (v ++ u)) (.mark [':']) (' ' :: (v ++ u)) :=
      starts_of_isSolid (by decide) _
    have hvalue : (r.facing (' ' :: (v ++ u))).Faces (v ++ u) :=
      (r.faces_facing _).of_gap [' '] rfl
    obtain ⟨e, he⟩ := h.joining.passes _ u hu hvalue
    have hmodifiers : objectModifiers r = some ({}, r) := by
      simp [objectModifiers, eatModifier, eatMark, hr.lexeme_eq hname, Lexeme.isWord, Lexeme.isMark]
    have hfieldName : fieldName self r = some (.text name, r.facing (':' :: ' ' :: (v ++ u))) := by
      simp [fieldName, hr.lexeme_eq hname, hr.rest_eq hname]
    have hface := r.faces_facing (':' :: ' ' :: (v ++ u))
    refine ⟨.field e, ?_⟩
    simp [Grammar.field, eatMark, expectMark, hr.lexeme_eq hname, hmodifiers, hfieldName,
      Lexeme.isNaming, Lexeme.isMark, hface.lexeme_eq hcolon, hface.rest_eq hcolon, he]

/-- An object is read if the values of its fields are. -/
theorem passes_object (depth level : Nat) (fields : List (Text × Value))
    (h : ∀ f ∈ fields, Passes (parse depth .assignment) (f.2.write (level + 1))) :
    Passes (parse (depth + 2) .assignment) ((Value.object fields).write level) := by
  have hitems : ∀ t ∈ fields.map fun f => quoted f.1 ++ [':', ' '] ++ f.2.write (level + 1),
      Passes (field (parse depth)) t := by
    intro t ht
    obtain ⟨f, hf, rfl⟩ := List.mem_map.1 ht
    exact (h f hf).field f.1
  have hstarts : ∀ x, Starts ('{' :: x) (.mark ['{']) x := starts_of_isSolid (by decide)
  apply Passes.ofPrimary
  · intro u _
    rw [write_object, (hstarts _).lexeme]
    exact .brace
  · intro r u _ hr
    rw [write_object] at hr
    have hread : ∃ e, object (parse depth) r = some (e, r.facing u) := by
      rw [object_eq]
      exact bracketed_body (.inr ⟨rfl, rfl⟩) (.inr ⟨rfl, rfl⟩) hitems hr
    obtain ⟨e, he⟩ := hread
    exact ⟨e, by simp [primary, hr.lexeme_eq (hstarts _), he]⟩

end Quire.Script
