import Quire.Proofs.Disk.Tree

/-!
The directories of a tree, a directory before those in it and siblings in the order of their names.
A plain tree lists each of its directories once, in the order of the places.
-/

namespace Quire.Disk.Node

mutual

/-- The places of the directories at and below a node, parents first. -/
def dirs : Node → List Place
  | .file _ => []
  | .link _ => []
  | .dir children => [] :: dirsIn children
  | .sink => []
termination_by structural n => n

/-- The places of the directories at and below the children of a directory. -/
def dirsIn : List (Text × Node) → List Place
  | [] => []
  | (name, n) :: rest => (dirs n).map (name :: ·) ++ dirsIn rest
termination_by structural children => children

end

theorem dirs_eq_nil {n : Node} (h : n.kind ≠ .dir) : n.dirs = [] := by
  cases n with
  | dir children => exact absurd rfl h
  | file | link | sink => rfl

theorem mem_dirsIn_iff {children : List (Text × Node)} {place : Place} :
    place ∈ dirsIn children ↔ ∃ name n rest, (name, n) ∈ children ∧ rest ∈ n.dirs ∧
      name :: rest = place := by
  induction children with
  | nil => simp [dirsIn]
  | cons c children ih =>
      obtain ⟨k, m⟩ := c
      rw [dirsIn, List.mem_append, ih, List.mem_map]
      constructor
      · rintro (⟨rest, hrest, heq⟩ | ⟨name, n, rest, hmem, hrest⟩)
        · exact ⟨k, m, rest, List.mem_cons_self, hrest, heq⟩
        · exact ⟨name, n, rest, List.mem_cons_of_mem _ hmem, hrest⟩
      · rintro ⟨name, n, rest, hmem, hrest, heq⟩
        rcases List.mem_cons.1 hmem with hfirst | hmem
        · obtain ⟨rfl, rfl⟩ := Prod.mk.inj hfirst
          exact Or.inl ⟨rest, hrest, heq⟩
        · exact Or.inr ⟨name, n, rest, hmem, hrest, heq⟩

theorem kindAt_cons {children : List (Text × Node)} {name : Text} {rest : Place} :
    (dir children).kindAt (name :: rest) = (child? name children).bind (kindAt · rest) := by
  rw [kindAt, get?]
  cases child? name children <;> rfl

/-- The places where a plain tree has directories. -/
theorem mem_dirs_iff {n : Node} {place : Place} (hn : n.isPlain) :
    place ∈ n.dirs ↔ n.kindAt place = some .dir := by
  induction place generalizing n with
  | nil =>
      cases n with
      | dir children => simp [dirs, kindAt, get?_nil, kind]
      | file | link | sink => simp [dirs, kindAt, get?_nil, kind]
  | cons name rest ih =>
      cases n with
      | file | link | sink => simp [dirs, kindAt, get?]
      | dir children =>
          obtain ⟨hordered, hchildren⟩ := isPlain_dir_iff.1 hn
          rw [dirs, kindAt_cons, List.mem_cons, mem_dirsIn_iff]
          simp only [reduceCtorEq, false_or, List.cons.injEq]
          constructor
          · rintro ⟨_, m, _, hmem, hrest, rfl, rfl⟩
            rw [child?_of_mem hordered hmem]
            exact (ih (hchildren _ hmem).2).1 hrest
          · intro hkind
            obtain ⟨m, hchild, hrest⟩ := Option.bind_eq_some_iff.1 hkind
            have hmem := mem_of_child? hchild
            exact ⟨name, m, rest, hmem, (ih (hchildren _ hmem).2).2 hrest, rfl, rfl⟩

mutual

/-- A plain tree lists its directories in the order of their places. -/
theorem pairwise_dirs : ∀ n : Node, n.isPlain → n.dirs.Pairwise (· < ·)
  | .file _, _ => List.Pairwise.nil
  | .link _, _ => List.Pairwise.nil
  | .sink, _ => List.Pairwise.nil
  | .dir children, hn => by
    obtain ⟨hordered, hchildren⟩ := isPlain_dir_iff.1 hn
    rw [dirs, List.pairwise_cons]
    refine ⟨fun place hplace => ?_, pairwise_dirsIn children hordered fun c hc =>
      (hchildren c hc).2⟩
    obtain ⟨name, _, rest, _, _, rfl⟩ := mem_dirsIn_iff.1 hplace
    exact List.Lex.nil

theorem pairwise_dirsIn : ∀ children : List (Text × Node), Ordered children →
    (∀ c ∈ children, c.2.isPlain) → (dirsIn children).Pairwise (· < ·)
  | [], _, _ => List.Pairwise.nil
  | (name, n) :: rest, hordered, hchildren => by
    obtain ⟨hfirst, hlater⟩ := List.pairwise_cons.1 hordered
    rw [dirsIn, List.pairwise_append]
    refine ⟨?_, pairwise_dirsIn rest hlater fun c hc => hchildren c (List.mem_cons_of_mem _ hc), ?_⟩
    · refine List.Pairwise.map _ (fun _ _ hlt => List.Lex.cons hlt) ?_
      exact pairwise_dirs n (hchildren _ List.mem_cons_self)
    · intro x hx y hy
      obtain ⟨p, _, rfl⟩ := List.mem_map.1 hx
      obtain ⟨k, m, q, hmem, _, rfl⟩ := mem_dirsIn_iff.1 hy
      exact List.Lex.rel (Text.before_iff.1 (hfirst (k, m) hmem))

end

theorem nodup_of_pairwise_lt {places : List Place} (h : places.Pairwise (· < ·)) :
    places.Nodup := by
  refine List.Pairwise.imp ?_ h
  rintro x _ hlt rfl
  exact List.lt_irrefl x hlt

/-- Trees that are alike in kinds have the same directories. -/
theorem dirs_congr {n m : Node} (hn : n.isPlain) (hm : m.isPlain)
    (hkinds : ∀ q, n.kindAt q = m.kindAt q) : m.dirs = n.dirs := by
  have hfirst := pairwise_dirs m hm
  have hsecond := pairwise_dirs n hn
  have hperm : m.dirs.Perm n.dirs := by
    refine (List.perm_ext_iff_of_nodup (nodup_of_pairwise_lt hfirst)
      (nodup_of_pairwise_lt hsecond)).2 fun place => ?_
    rw [mem_dirs_iff hm, mem_dirs_iff hn, hkinds]
  refine hperm.eq_of_pairwise (fun x y _ _ hxy hyx => ?_) hfirst hsecond
  exact absurd (List.lt_trans hxy hyx) (List.lt_irrefl x)

end Quire.Disk.Node
