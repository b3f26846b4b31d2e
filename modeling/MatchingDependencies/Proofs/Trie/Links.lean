import MatchingDependencies.Proofs.Trie.Entries

/-!
# Links between numbered nodes

If nodes are numbered, the edges of a trie are links from number to number.
Nothing in the links says that they form a tree: where two nodes share a number,
walks along the links go over from one of them to the other. What holds whatever
the numbers are is said here. Every entry stands at the end of a walk that demands
its path, and every link leads from an entry to one with one constraint more.
-/

set_option autoImplicit false

namespace MatchingDependencies

/-- An edge between two nodes that are known by their numbers. -/
@[ext] structure Link where
  source : Nat
  column : Nat
  threshold : Score
  target : Nat
  deriving DecidableEq

namespace Link

def constraint (e : Link) : Nat × Score := (e.column, e.threshold)

/-- A walk takes links in a row, each from where the one before it leads. -/
inductive Walk (links : List Link) : (start : Nat) → List Link → (finish : Nat) → Prop
  | stay (n : Nat) : Walk links n [] n
  | take {e : Link} {rest : List Link} {finish : Nat} (mem : e ∈ links)
      (walk : Walk links e.target rest finish) : Walk links e.source (e::rest) finish

variable {links more : List Link} {start finish : Nat} {taken : List Link}

theorem walk_nil_iff : Walk links start [] finish ↔ start = finish := by
  constructor
  · intro walk
    cases walk with
    | stay => rfl
  · rintro rfl
    exact .stay start

theorem walk_cons_iff {e : Link} : Walk links start (e::taken) finish ↔
    e ∈ links ∧ e.source = start ∧ Walk links e.target taken finish := by
  constructor
  · intro walk
    cases walk with
    | take mem rest => exact ⟨mem, rfl, rest⟩
  · rintro ⟨mem, rfl, rest⟩
    exact .take mem rest

theorem Walk.mono (walk : Walk links start taken finish) (sub : links ⊆ more) :
    Walk more start taken finish := by
  induction walk with
  | stay n => exact .stay n
  | take mem _ ih => exact .take (sub mem) ih

end Link

namespace Branches

variable {α : Type} (number : α → Nat)

def links : (source : Nat) → Branches α → List Link
  | _, none => []
  | source, edge c t a below after =>
    ⟨source, c, t, number a⟩ :: links (number a) below ++ links source after

theorem entries_edge (c : Nat) (t : Score) (a : α) (below after : Branches α) :
    (edge c t a below after).entries =
      (([], a) :: below.entries).map (fun e => ((c, t)::e.1, e.2)) ++ after.entries := rfl

theorem exists_walk (b : Branches α) (r : α) : ∀ e ∈ ([], r) :: b.entries,
    ∃ taken, Link.Walk (b.links number (number r)) (number r) taken (number e.2) ∧
      taken.map Link.constraint = e.1 := by
  induction b generalizing r with
  | none =>
    intro e he
    rw [List.mem_singleton.mp he]
    exact ⟨[], .stay _, rfl⟩
  | edge c t a below after ihBelow ihAfter =>
    let all := (edge c t a below after).links number (number r)
    have deeper : below.links number (number a) ⊆ all :=
      fun e he => List.mem_cons_of_mem _ (List.mem_append_left _ he)
    have later : after.links number (number r) ⊆ all :=
      fun e he => List.mem_cons_of_mem _ (List.mem_append_right _ he)
    intro e he
    rw [entries_edge, List.mem_cons, List.mem_append, List.mem_map] at he
    rcases he with rfl | ⟨e, he, rfl⟩ | he
    · exact ⟨[], .stay _, rfl⟩
    · obtain ⟨taken, walk, path⟩ := ihBelow a e he
      have first : (⟨number r, c, t, number a⟩ : Link) ∈ all := List.mem_cons_self
      exact ⟨_, .take first (walk.mono deeper), congrArg ((c, t) :: ·) path⟩
    · obtain ⟨taken, walk, path⟩ := ihAfter r e (List.mem_cons_of_mem _ he)
      exact ⟨taken, walk.mono later, path⟩

theorem entries_of_mem_links (b : Branches α) (r : α) : ∀ x ∈ b.links number (number r),
    ∃ p a v, (p, a) ∈ ([], r) :: b.entries ∧ number a = x.source ∧
      (p ++ [x.constraint], v) ∈ b.entries ∧ number v = x.target := by
  induction b generalizing r with
  | none => simp [links]
  | edge c t a below after ihBelow ihAfter =>
    intro x hx
    rw [links, List.cons_append, List.mem_cons, List.mem_append] at hx
    rcases hx with rfl | hx | hx
    · exact ⟨[], r, a, List.mem_cons_self, rfl, List.mem_cons_self, rfl⟩
    · obtain ⟨p, u, v, hp, source, hv, target⟩ := ihBelow a x hx
      have under : ∀ e ∈ ([], a) :: below.entries,
          ((c, t)::e.1, e.2) ∈ (edge c t a below after).entries := fun e he =>
        List.mem_append_left _ (List.mem_map_of_mem (f := fun e => ((c, t)::e.1, e.2)) he)
      exact ⟨(c, t)::p, u, v, List.mem_cons_of_mem _ (under _ hp), source,
        under _ (List.mem_cons_of_mem _ hv), target⟩
    · obtain ⟨p, u, v, hp, source, hv, target⟩ := ihAfter r x hx
      refine ⟨p, u, v, ?_, source, List.mem_append_right _ hv, target⟩
      rcases List.mem_cons.mp hp with root | hp
      · exact root ▸ List.mem_cons_self
      · exact List.mem_cons_of_mem _ (List.mem_append_right _ hp)

theorem find?_isSome_of_append (p q : Path) (r : α) (b : Branches α)
    (stored : (b.find? (p ++ q) r).isSome = true) : (b.find? p r).isSome = true := by
  induction p generalizing r b with
  | nil => rfl
  | cons x p ih =>
    obtain ⟨c, t⟩ := x
    rw [List.cons_append, find?] at stored
    rw [find?]
    cases found : b.child? c t with
    | none => simp [found] at stored
    | some child =>
      rw [found] at stored
      exact ih child.1 child.2 stored

end Branches

end MatchingDependencies
