import Mathlib.Data.List.Forall2
import Mathlib.Data.List.Infix
import Quire.Disk.Lookup
import Quire.Proofs.Path.Steps

/-!
File trees as they are found on a disk: without links, every directory sorted by name, every name
one that a file can have. Such a tree is known by what is seen at each of its places, and setting
a child of a directory changes what is seen there and below, and nowhere else.
-/

namespace Quire

namespace Text

theorem before_iff {a b : Text} : a.before b ↔ a < b := decide_eq_true_iff

theorem not_before_self (a : Text) : ¬ a.before a := fun h => List.lt_irrefl a (before_iff.1 h)

theorem before_trans {a b c : Text} (hab : a.before b) (hbc : b.before c) : a.before c :=
  before_iff.2 (List.lt_trans (before_iff.1 hab) (before_iff.1 hbc))

theorem before_of_ne {a b : Text} (hne : a ≠ b) (h : ¬ a.before b) : b.before a := by
  have hle := List.not_lt.1 fun hlt => h (before_iff.2 hlt)
  rcases List.le_iff_lt_or_eq.1 hle with hlt | heq
  · exact before_iff.2 hlt
  · exact absurd heq.symm hne

end Text

namespace Disk

/-- A text that a file can have for a name. -/
structure IsName (n : Text) : Prop extends Path.Ordinary n where
  noNul : '\x00' ∉ n
  short : n.byteSize ≤ maxName

instance (n : Text) : Decidable (IsName n) :=
  decidable_of_iff (Path.Ordinary n ∧ '\x00' ∉ n ∧ n.byteSize ≤ maxName)
    ⟨fun h => ⟨h.1, h.2.1, h.2.2⟩, fun h => ⟨h.toOrdinary, h.noNul, h.short⟩⟩

/-- Entries with names that come one after the other in their order. -/
def Ordered {α : Type} (entries : List (Text × α)) : Prop :=
  entries.Pairwise fun a b => a.1.before b.1

instance {α : Type} (entries : List (Text × α)) : Decidable (Ordered entries) :=
  inferInstanceAs (Decidable (List.Pairwise _ _))

/-- Ordered lists with the same members are the same list. -/
theorem Ordered.eq_of_mem_iff {α : Type} {a b : List (Text × α)} (ha : Ordered a) (hb : Ordered b)
    (h : ∀ e, e ∈ a ↔ e ∈ b) : a = b := by
  have hnodup : ∀ {l : List (Text × α)}, Ordered l → l.Nodup := by
    intro l hl
    refine List.Pairwise.imp ?_ hl
    rintro x _ hxy rfl
    exact Text.not_before_self x.1 hxy
  have hperm := (List.perm_ext_iff_of_nodup (hnodup ha) (hnodup hb)).2 h
  refine hperm.eq_of_pairwise ?_ ha hb
  intro x y _ _ hxy hyx
  exact absurd (Text.before_trans hxy hyx) (Text.not_before_self x.1)

namespace Node

mutual

/-- Whether a tree is one of files, directories and devices only, as a disk holds them. -/
def isPlain : Node → Bool
  | .file _ => true
  | .link _ => false
  | .dir children => decide (Ordered children) && arePlain children
  | .sink => true
termination_by structural n => n

/-- Whether the children of a directory have names for files and are such trees themselves. -/
def arePlain : List (Text × Node) → Bool
  | [] => true
  | (name, n) :: rest => decide (IsName name) && isPlain n && arePlain rest
termination_by structural children => children

end

theorem arePlain_iff {children : List (Text × Node)} :
    arePlain children ↔ ∀ c ∈ children, IsName c.1 ∧ c.2.isPlain := by
  induction children with
  | nil => simp [arePlain]
  | cons c children ih =>
      obtain ⟨name, n⟩ := c
      simp [arePlain, ih, and_assoc]

theorem isPlain_dir_iff {children : List (Text × Node)} :
    (dir children).isPlain ↔ Ordered children ∧ ∀ c ∈ children, IsName c.1 ∧ c.2.isPlain := by
  rw [isPlain, Bool.and_eq_true, decide_eq_true_iff, arePlain_iff]

variable {children : List (Text × Node)} {name k : Text} {n new root : Node}
  {above place q : Place}

theorem mem_of_child? (h : child? name children = some n) : (name, n) ∈ children := by
  induction children with
  | nil => cases h
  | cons c children ih =>
      simp only [child?] at h
      split at h
      · next heq =>
          subst heq
          rw [← Option.some.inj h]
          exact List.mem_cons_self
      · exact List.mem_cons_of_mem c (ih h)

theorem child?_of_mem (hordered : Ordered children) (h : (name, n) ∈ children) :
    child? name children = some n := by
  induction children with
  | nil => cases h
  | cons c children ih =>
      obtain ⟨hfirst, hrest⟩ := List.pairwise_cons.1 hordered
      rcases List.mem_cons.1 h with rfl | hmem
      · simp [child?]
      · have hne : c.1 ≠ name := fun heq =>
          Text.not_before_self name (by simpa [heq] using hfirst _ hmem)
        rw [child?, if_neg hne]
        exact ih hrest hmem

theorem child?_eq_some_iff (hordered : Ordered children) :
    child? name children = some n ↔ (name, n) ∈ children :=
  ⟨mem_of_child?, child?_of_mem hordered⟩

theorem child?_setChild (k : Text) :
    child? k (setChild name (some new) children) =
      if k = name then some new else child? k children := by
  induction children with
  | nil => simp [setChild, child?, eq_comm]
  | cons c children ih =>
      simp only [setChild]
      split
      · next heq =>
          by_cases hk : k = name
          · simp [child?, hk]
          · simp [child?, hk, heq, Ne.symm hk]
      · split
        · simp [child?, eq_comm]
        · next hne _ =>
            simp only [child?, ih]
            by_cases hk : k = name
            · simp [hk, hne]
            · simp [hk]

theorem mem_setChild {c : Text × Node} (h : c ∈ setChild name (some new) children) :
    c = (name, new) ∨ c ∈ children := by
  induction children with
  | nil => simpa [setChild] using h
  | cons d children ih =>
      simp only [setChild] at h
      split at h
      · rcases List.mem_cons.1 h with h | h
        · exact Or.inl h
        · exact Or.inr (List.mem_cons_of_mem d h)
      · split at h
        · exact List.mem_cons.1 h
        · rcases List.mem_cons.1 h with h | h
          · exact Or.inr (h ▸ List.mem_cons_self)
          · exact (ih h).imp_right (List.mem_cons_of_mem d)

theorem Ordered.setChild (hordered : Ordered children) :
    Ordered (setChild name (some new) children) := by
  induction children with
  | nil => simp [Node.setChild, Ordered]
  | cons c children ih =>
      obtain ⟨hfirst, hrest⟩ := List.pairwise_cons.1 hordered
      simp only [Node.setChild]
      split
      · next heq => exact List.pairwise_cons.2 ⟨fun e he => heq ▸ hfirst e he, hrest⟩
      · split
        · next hbefore =>
            refine List.pairwise_cons.2 ⟨fun e he => ?_, hordered⟩
            rcases List.mem_cons.1 he with rfl | he
            · exact hbefore
            · exact Text.before_trans hbefore (hfirst e he)
        · next hne hbefore =>
            refine List.pairwise_cons.2 ⟨fun e he => ?_, ih hrest⟩
            rcases mem_setChild he with rfl | he
            · exact Text.before_of_ne (Ne.symm hne) hbefore
            · exact hfirst e he

@[simp]
theorem get?_nil (n : Node) : n.get? [] = some n := by
  cases n <;> rfl

theorem get?_cons_eq_some {name : Text} (h : root.get? (name :: place) = some n) :
    ∃ children child, root = .dir children ∧ child? name children = some child ∧
      child.get? place = some n := by
  cases root with
  | dir children =>
      obtain ⟨child, hchild, hget⟩ := Option.bind_eq_some_iff.1 h
      exact ⟨children, child, rfl, hchild, hget⟩
  | file _ => cases h
  | link _ => cases h
  | sink => cases h

theorem get?_append (a b : Place) (n : Node) : n.get? (a ++ b) = (n.get? a).bind (get? b) := by
  induction a generalizing n with
  | nil => simp
  | cons name a ih =>
      cases n with
      | dir children =>
          simp only [List.cons_append, get?]
          cases child? name children with
          | none => rfl
          | some child => exact ih child
      | file _ => rfl
      | link _ => rfl
      | sink => rfl

theorem get?_append_singleton (h : root.get? above = some (.dir children)) (name : Text) :
    root.get? (above ++ [name]) = child? name children := by
  rw [get?_append, h]
  cases hchild : child? name children <;> simp [get?, hchild]

/-- What is somewhere in a plain tree is plain, and plain names lead there. -/
theorem isPlain_get? (hroot : root.isPlain) (h : root.get? place = some n) :
    n.isPlain ∧ ∀ m ∈ place, IsName m := by
  induction place generalizing root with
  | nil =>
      rw [get?_nil] at h
      exact ⟨Option.some.inj h ▸ hroot, by simp⟩
  | cons name place ih =>
      obtain ⟨children, child, rfl, hchild, hget⟩ := get?_cons_eq_some h
      obtain ⟨hname, hplain⟩ := (isPlain_dir_iff.1 hroot).2 _ (mem_of_child? hchild)
      obtain ⟨hn, hnames⟩ := ih hplain hget
      refine ⟨hn, fun m hm => ?_⟩
      rcases List.mem_cons.1 hm with rfl | hm
      · exact hname
      · exact hnames m hm

theorem get?_ne_link (hroot : root.isPlain) (target : Text) :
    root.get? place ≠ some (.link target) := fun h =>
  absurd (isPlain_get? hroot h).1 (by simp [isPlain])

/-- A node without what is below it. -/
def bare : Node → Node
  | .dir _ => .dir []
  | n => n

/-- What is seen at a place by one who does not look into directories. -/
def seen (root : Node) (place : Place) : Option Node := (root.get? place).map bare

/-- What kind of thing is at a place. -/
def kindAt (root : Node) (place : Place) : Option Kind := (root.get? place).map kind

/-- The bytes of the file at a place, if a file is there. -/
def bytesAt (root : Node) (place : Place) : Option ByteArray :=
  match root.get? place with
  | some (.file bytes) => some bytes
  | _ => none

theorem kindAt_eq_seen (root : Node) (place : Place) :
    root.kindAt place = (root.seen place).map kind := by
  unfold kindAt seen
  cases root.get? place with
  | none => rfl
  | some n => cases n <;> rfl

theorem bytesAt_eq_some_iff {bytes : ByteArray} :
    root.bytesAt place = some bytes ↔ root.seen place = some (.file bytes) := by
  unfold bytesAt seen
  cases root.get? place with
  | none => simp
  | some n => cases n <;> simp [bare]

theorem bytesAt_congr {a b : Node} {p : Place} (h : a.seen place = b.seen p) :
    a.bytesAt place = b.bytesAt p := by
  ext bytes
  rw [bytesAt_eq_some_iff, bytesAt_eq_some_iff, h]

theorem kindAt_congr {a b : Node} {p : Place} (h : a.seen place = b.seen p) :
    a.kindAt place = b.kindAt p := by
  rw [kindAt_eq_seen, kindAt_eq_seen, h]

/-- A file or a device is seen by its kind and its bytes. -/
theorem seen_eq_of_kindAt_eq {a b : Node} (ha : a.isPlain) (hb : b.isPlain)
    (hkind : a.kindAt place = b.kindAt q) (hbytes : a.bytesAt place = b.bytesAt q) :
    a.seen place = b.seen q := by
  unfold seen kindAt bytesAt at *
  cases hm : a.get? place with
  | none => cases hn : b.get? q <;> simp [hm, hn] at hkind ⊢
  | some m =>
      cases hn : b.get? q with
      | none => simp [hm, hn] at hkind
      | some n =>
          rw [hm, hn] at hkind hbytes
          cases m <;> cases n <;> simp_all [kind, bare, get?_ne_link]

theorem seen_dir_iff : root.seen place = some (.dir []) ↔ root.kindAt place = some .dir := by
  unfold seen kindAt
  cases root.get? place with
  | none => simp
  | some n => cases n <;> simp [bare, kind]

theorem kindAt_dir_iff :
    root.kindAt place = some .dir ↔ ∃ children, root.get? place = some (.dir children) := by
  unfold kindAt
  cases root.get? place with
  | none => simp
  | some n => cases n <;> simp [kind]

theorem kindAt_append (h : root.get? place = some n) (rest : Place) :
    root.kindAt (place ++ rest) = n.kindAt rest := by
  rw [kindAt, get?_append, h]
  rfl

theorem bytesAt_of_kindAt_dir (h : root.kindAt place = some .dir) : root.bytesAt place = none := by
  obtain ⟨children, hget⟩ := kindAt_dir_iff.1 h
  rw [bytesAt, hget]

theorem get?_of_bytesAt {bytes : ByteArray} (h : root.bytesAt place = some bytes) :
    root.get? place = some (.file bytes) := by
  unfold bytesAt at h
  split at h
  · next b hget => rw [hget, Option.some.inj h]
  · cases h

theorem kindAt_file_iff :
    root.kindAt place = some .file ↔ ∃ bytes, root.bytesAt place = some bytes := by
  constructor
  · intro h
    obtain ⟨n, hget, hkind⟩ := Option.map_eq_some_iff.1 h
    cases n with
    | file bytes => exact ⟨bytes, by rw [bytesAt, hget]⟩
    | _ => cases hkind
  · rintro ⟨bytes, h⟩
    rw [kindAt, get?_of_bytesAt h]
    rfl

/-- Above whatever there is are directories. -/
theorem kindAt_of_append {rest : Place} (h : (root.kindAt (place ++ name :: rest)).isSome) :
    root.kindAt place = some .dir := by
  unfold kindAt at *
  rw [get?_append] at h
  cases hget : root.get? place with
  | none => simp [hget] at h
  | some n => cases n <;> simp_all [get?, kind]

theorem kindAt_append_eq_none {rest : Place} (h : root.kindAt place ≠ some .dir) :
    root.kindAt (place ++ name :: rest) = none := by
  by_contra hsome
  exact h (kindAt_of_append (Option.isSome_iff_ne_none.2 hsome))

theorem get?_set (hdir : root.get? above = some (.dir children)) (hq : ¬ above ++ [name] <+: q) :
    ((root.set (above ++ [name]) (some new)).get? q).map bare = (root.get? q).map bare := by
  induction above generalizing root q with
  | nil =>
      rw [get?_nil, Option.some.injEq] at hdir
      subst hdir
      cases q with
      | nil => rfl
      | cons k q =>
          have hk : k ≠ name := fun heq => hq ⟨q, by simp [heq]⟩
          simp [set, get?, child?_setChild, hk]
  | cons a above ih =>
      obtain ⟨siblings, child, rfl, hchild, hget⟩ := get?_cons_eq_some hdir
      have hset : (dir siblings).set (a :: above ++ [name]) (some new) =
          dir (setChild a (some (child.set (above ++ [name]) (some new))) siblings) := by
        cases above <;> simp [set, hchild]
      rw [hset]
      cases q with
      | nil => rfl
      | cons k q =>
          simp only [get?, child?_setChild]
          by_cases hk : k = a
          · subst hk
            have hq' : ¬ above ++ [name] <+: q := fun hpre => hq (by simpa using hpre)
            simpa [hchild] using ih hget hq'
          · simp [hk]

theorem get?_set_append (hdir : root.get? above = some (.dir children)) (rest : Place) :
    (root.set (above ++ [name]) (some new)).get? (above ++ [name] ++ rest) = new.get? rest := by
  induction above generalizing root with
  | nil =>
      rw [get?_nil, Option.some.injEq] at hdir
      subst hdir
      simp [set, get?, child?_setChild]
  | cons a above ih =>
      obtain ⟨siblings, child, rfl, hchild, hget⟩ := get?_cons_eq_some hdir
      have hset : (dir siblings).set (a :: above ++ [name]) (some new) =
          dir (setChild a (some (child.set (above ++ [name]) (some new))) siblings) := by
        cases above <;> simp [set, hchild]
      rw [hset]
      simpa [get?, child?_setChild] using ih hget

/-- Setting a child changes what is seen there and below, and nowhere else. -/
theorem seen_set (hdir : root.get? above = some (.dir children)) (q : Place) :
    (root.set (above ++ [name]) (some new)).seen q =
      if above ++ [name] <+: q then new.seen (q.drop (above.length + 1)) else root.seen q := by
  split
  · next hpre =>
      obtain ⟨rest, rfl⟩ := hpre
      have hdrop : (above ++ [name] ++ rest).drop (above.length + 1) = rest :=
        List.drop_left' (by simp)
      rw [seen, get?_set_append hdir, hdrop, seen]
  · next hpre => exact get?_set hdir hpre

theorem isPlain_set (hroot : root.isPlain) (hnew : new.isPlain) (hname : IsName name)
    (hdir : root.get? above = some (.dir children)) :
    (root.set (above ++ [name]) (some new)).isPlain := by
  have hset : ∀ {cs : List (Text × Node)} {a : Text} {m : Node}, (dir cs).isPlain → IsName a →
      m.isPlain → (dir (setChild a (some m) cs)).isPlain := by
    intro cs a m hcs ha hm
    obtain ⟨hordered, hall⟩ := isPlain_dir_iff.1 hcs
    refine isPlain_dir_iff.2 ⟨Ordered.setChild hordered, fun c hc => ?_⟩
    rcases mem_setChild hc with rfl | hc
    · exact ⟨ha, hm⟩
    · exact hall c hc
  induction above generalizing root with
  | nil =>
      rw [get?_nil, Option.some.injEq] at hdir
      subst hdir
      exact hset hroot hname hnew
  | cons a above ih =>
      obtain ⟨siblings, child, rfl, hchild, hget⟩ := get?_cons_eq_some hdir
      obtain ⟨ha, hplain⟩ := (isPlain_dir_iff.1 hroot).2 _ (mem_of_child? hchild)
      have heq : (dir siblings).set (a :: above ++ [name]) (some new) =
          dir (setChild a (some (child.set (above ++ [name]) (some new))) siblings) := by
        cases above <;> simp [set, hchild]
      rw [heq]
      exact hset hroot ha (ih hplain hget)

/-- The names in a directory and the kinds of what they name. -/
def entries (children : List (Text × Node)) : List (Text × Kind) :=
  children.map fun (name, n) => (name, n.kind)

theorem mem_entries_iff (hroot : root.isPlain) (hdir : root.get? place = some (.dir children))
    {kind : Kind} : (name, kind) ∈ entries children ↔ root.kindAt (place ++ [name]) = some kind := by
  have hordered := (isPlain_dir_iff.1 (isPlain_get? hroot hdir).1).1
  rw [kindAt, get?_append_singleton hdir, Option.map_eq_some_iff]
  simp only [entries, List.mem_map, child?_eq_some_iff hordered]
  constructor
  · rintro ⟨⟨_, n⟩, hmem, heq⟩
    obtain ⟨rfl, rfl⟩ := Prod.mk.inj heq
    exact ⟨n, hmem, rfl⟩
  · rintro ⟨n, hmem, rfl⟩
    exact ⟨(name, n), hmem, rfl⟩

/-- A directory is listed in the same way wherever its entries are of the same kinds. -/
theorem entries_eq_of_kindAt_eq {a b : Node} {cs ds : List (Text × Node)} (ha : a.isPlain)
    (hb : b.isPlain) (hcs : a.get? place = some (.dir cs)) (hds : b.get? q = some (.dir ds))
    (h : ∀ name, a.kindAt (place ++ [name]) = b.kindAt (q ++ [name])) :
    entries cs = entries ds := by
  have hordered : ∀ {r : Node} {p : Place} {es : List (Text × Node)}, r.isPlain →
      r.get? p = some (.dir es) → Ordered (entries es) := by
    intro r p es hr hes
    exact List.pairwise_map.2 (isPlain_dir_iff.1 (isPlain_get? hr hes).1).1
  apply Ordered.eq_of_mem_iff (hordered ha hcs) (hordered hb hds)
  intro e
  rw [mem_entries_iff ha hcs, mem_entries_iff hb hds, h]

/-- Directories that are alike in kinds have alike children under the same names. -/
theorem forall₂_children {cs ds : List (Text × Node)} (hcs : (dir cs).isPlain)
    (hds : (dir ds).isPlain) (h : ∀ q, (dir cs).kindAt q = (dir ds).kindAt q) :
    List.Forall₂ (fun a b => a.1 = b.1 ∧ ∀ q, a.2.kindAt q = b.2.kindAt q) cs ds := by
  have hordered := (isPlain_dir_iff.1 hcs).1
  have hordered' := (isPlain_dir_iff.1 hds).1
  have hentries : entries cs = entries ds :=
    entries_eq_of_kindAt_eq hcs hds (get?_nil _) (get?_nil _)
      fun name => h [name]
  have hlength : cs.length = ds.length := by
    simpa [entries] using congrArg List.length hentries
  refine List.forall₂_iff_get.2 ⟨hlength, fun i hi hi' => ?_⟩
  have hname : cs[i].1 = ds[i].1 := by
    have hget := congrArg (fun es => (es[i]?).map Prod.fst) hentries
    simpa [entries, hi, hi'] using hget
  refine ⟨hname, fun q => ?_⟩
  have hsame := h (cs[i].1 :: q)
  have hfound : child? cs[i].1 cs = some cs[i].2 := child?_of_mem hordered (List.getElem_mem hi)
  have hfound' : child? cs[i].1 ds = some ds[i].2 := by
    rw [hname]
    exact child?_of_mem hordered' (List.getElem_mem hi')
  simpa [kindAt, get?, hfound, hfound'] using hsame

/-- Plain trees in which the same is seen everywhere are the same tree. -/
theorem eq_of_seen_eq {a b : Node} (ha : a.isPlain) (hb : b.isPlain)
    (h : ∀ place, a.seen place = b.seen place) : a = b := by
  induction hsize : sizeOf a using Nat.strong_induction_on generalizing a b with
  | h size ih =>
      have hbare : a.bare = b.bare := by simpa [seen] using h []
      cases a with
      | dir cs =>
          cases b with
          | dir ds =>
              obtain ⟨hcs, hcs'⟩ := isPlain_dir_iff.1 ha
              obtain ⟨hds, hds'⟩ := isPlain_dir_iff.1 hb
              have hchild : ∀ name place,
                  ((child? name cs).bind (get? place)).map bare =
                    ((child? name ds).bind (get? place)).map bare :=
                fun name place => h (name :: place)
              have hsub : ∀ e ∈ cs, e ∈ ds := by
                rintro ⟨name, m⟩ hm
                have hname := hchild name
                rw [child?_of_mem hcs hm] at hname
                cases hd : child? name ds with
                | none => simpa [hd] using hname []
                | some n =>
                    have hn := mem_of_child? hd
                    have hlt : sizeOf m < size := by
                      have hmem := List.sizeOf_lt_of_mem hm
                      simp only [dir.sizeOf_spec, Prod.mk.sizeOf_spec] at hmem hsize
                      omega
                    have heq : m = n := ih (sizeOf m) hlt (hcs' _ hm).2 (hds' _ hn).2
                      (fun place => by simpa [hd, seen] using hname place) rfl
                    exact heq ▸ hn
              have hsup : ∀ e ∈ ds, e ∈ cs := by
                rintro ⟨name, n⟩ hn
                have hname := hchild name []
                rw [child?_of_mem hds hn] at hname
                cases hc : child? name cs with
                | none => simp [hc] at hname
                | some m =>
                    have hm := mem_of_child? hc
                    have heq := child?_of_mem hds (hsub _ hm)
                    rw [child?_of_mem hds hn] at heq
                    exact Option.some.inj heq ▸ hm
              rw [hcs.eq_of_mem_iff hds fun e => ⟨hsub e, hsup e⟩]
          | file _ => cases hbare
          | link _ => cases hbare
          | sink => cases hbare
      | file _ => cases b <;> first | exact hbare | cases hbare
      | link _ => cases b <;> first | exact hbare | cases hbare
      | sink => cases b <;> first | exact hbare | cases hbare

mutual

/-- The places of the files in a tree. -/
def files : Node → List Place
  | .file _ => [[]]
  | .link _ => []
  | .dir children => filesIn children
  | .sink => []
termination_by structural n => n

/-- The places of the files below the children of a directory. -/
def filesIn : List (Text × Node) → List Place
  | [] => []
  | (name, n) :: rest => (files n).map (name :: ·) ++ filesIn rest
termination_by structural children => children

end

theorem mem_filesIn (h : (name, n) ∈ children) (hq : q ∈ n.files) :
    name :: q ∈ filesIn children := by
  induction children with
  | nil => cases h
  | cons c children ih =>
      obtain ⟨k, m⟩ := c
      rw [filesIn, List.mem_append]
      rcases List.mem_cons.1 h with heq | h
      · obtain ⟨rfl, rfl⟩ := Prod.mk.inj heq
        exact Or.inl (List.mem_map_of_mem hq)
      · exact Or.inr (ih h)

theorem mem_files_of_bytesAt (h : (root.bytesAt place).isSome) : place ∈ root.files := by
  induction place generalizing root with
  | nil => cases root <;> simp [bytesAt, get?, files] at h ⊢
  | cons k rest ih =>
      cases root with
      | file bytes => simp [bytesAt, get?] at h
      | link target => simp [bytesAt, get?] at h
      | sink => simp [bytesAt, get?] at h
      | dir children =>
          rw [bytesAt, get?] at h
          cases hchild : child? k children with
          | none => simp [hchild] at h
          | some m =>
              rw [hchild] at h
              exact mem_filesIn (mem_of_child? hchild) (ih h)

end Node

end Disk

end Quire
