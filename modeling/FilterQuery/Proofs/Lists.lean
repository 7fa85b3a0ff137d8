/-
Facts about lists that mention nothing of queries: where two splits of one
list stand to each other, lists of at most one item, and look-up, search
and separators in a list. What the library has is cited by its own name;
here is what it leaves out.
-/

namespace FilterQuery
namespace Lists

variable {α β : Type}

-- ======================================================= split in two ways

/-- Two places in one list: they are the same, or one is behind the
other. -/
theorem append_cons_eq_append_cons {xs ys us vs : List α} {s t : α}
    (h : xs ++ s :: ys = us ++ t :: vs) :
    (xs = us ∧ s = t ∧ ys = vs)
      ∨ (∃ zs, us = xs ++ s :: zs ∧ ys = zs ++ t :: vs)
      ∨ ∃ zs, xs = us ++ t :: zs ∧ vs = zs ++ s :: ys := by
  rcases List.append_eq_append_iff.1 h with ⟨zs, rfl, hzs⟩ | ⟨zs, rfl, hzs⟩
  · cases zs with
    | nil =>
        obtain ⟨rfl, rfl⟩ := List.cons.inj hzs
        exact Or.inl ⟨(List.append_nil xs).symm, rfl, rfl⟩
    | cons z zs =>
        obtain ⟨rfl, rfl⟩ := List.cons.inj hzs
        exact Or.inr (Or.inl ⟨zs, rfl, rfl⟩)
  · cases zs with
    | nil =>
        obtain ⟨rfl, rfl⟩ := List.cons.inj hzs
        exact Or.inl ⟨List.append_nil us, rfl, rfl⟩
    | cons z zs =>
        obtain ⟨rfl, rfl⟩ := List.cons.inj hzs
        exact Or.inr (Or.inr ⟨zs, rfl, rfl⟩)

/-- A place in a list, and the last one: they are the same, or the last one
is behind the other. -/
theorem append_cons_eq_concat {xs ys us : List α} {s t : α}
    (h : xs ++ s :: ys = us ++ [t]) :
    (xs = us ∧ s = t ∧ ys = [])
      ∨ ∃ zs, us = xs ++ s :: zs ∧ ys = zs ++ [t] := by
  rcases append_cons_eq_append_cons h with hsame | hbehind | ⟨zs, -, hnil⟩
  · exact Or.inl hsame
  · exact Or.inr hbehind
  · exact absurd hnil.symm (by simp)

-- ====================================================== at most one item

/-- A list with a last item is the list of an option just when it has no
other item and the option is the last one. -/
theorem concat_eq_toList_iff {xs : List α} {x : α} {o : Option α} :
    xs ++ [x] = o.toList ↔ xs = [] ∧ o = some x := by
  cases o with
  | none => simp
  | some y =>
      rw [Option.toList_some, List.append_eq_singleton_iff]
      simp [eq_comm]

/-- With at most one item there is one order only. -/
theorem perm_toList_iff {xs : List α} {o : Option α} :
    xs.Perm o.toList ↔ xs = o.toList := by
  cases o with
  | none => exact List.perm_nil
  | some x => exact List.perm_singleton

-- ==================================================== search and look-up

/-- What is found for a key stands in the list with it. -/
theorem mem_of_lookup [BEq α] [LawfulBEq α] {l : List (α × β)} {a : α}
    {b : β} (h : l.lookup a = some b) : (a, b) ∈ l := by
  obtain ⟨before, after, rfl, -⟩ := List.lookup_eq_some_iff.1 h
  simp

/-- What is found in a list is found in its first item, or else in the
others. -/
theorem findSome?_cons_eq_or (f : α → Option β) (x : α) (xs : List α) :
    (x :: xs).findSome? f = (f x).or (xs.findSome? f) := by
  rw [List.findSome?_cons]
  cases f x <;> rfl

-- ============================================================ separators

/-- A list has one part more than it has separators. -/
theorem length_splitOn [DecidableEq α] (sep : α) (xs : List α) :
    (xs.splitOn sep).length = xs.count sep + 1 := by
  induction xs with
  | nil => rfl
  | cons x xs ih =>
      rw [List.splitOn_cons_eq_if_modifyHead, List.count_cons]
      split
      · rw [List.length_cons, ih]
      · rw [List.length_modifyHead, ih, Nat.add_zero]

end Lists
end FilterQuery
