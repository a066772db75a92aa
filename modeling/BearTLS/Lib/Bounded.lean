import Mathlib.Data.List.Basic

/-! Filling a list of bounded length: candidates are tried in order while there
is room, and the accepted ones are kept. -/

namespace Bounded

variable {α β : Type*}

def fill (cap : ℕ) (accept : β → Option α) : List β → List α → List α
  | [], vs => vs
  | x :: xs, vs => if vs.length < cap then fill cap accept xs (vs ++ (accept x).toList) else vs

variable {cap : ℕ} {accept : β → Option α} {vs : List α}

theorem fill_eq (xs : List β) (h : vs.length ≤ cap) :
    fill cap accept xs vs = (vs ++ xs.filterMap accept).take cap := by
  induction xs generalizing vs with
  | nil => rw [fill, List.filterMap_nil, List.append_nil, List.take_of_length_le h]
  | cons x xs ih =>
    rw [fill]
    split_ifs with hroom
    · cases hx : accept x with
      | none => rw [Option.toList_none, List.append_nil, ih h, List.filterMap_cons_none hx]
      | some v =>
        have hlen : (vs ++ [v]).length ≤ cap := by
          rw [List.length_append, List.length_singleton]
          omega
        rw [Option.toList_some, ih hlen, List.filterMap_cons_some hx, List.append_assoc,
          List.singleton_append]
    · rw [List.take_append_of_le_length (by omega), List.take_of_length_le h]

/-- Cutting early changes nothing. -/
theorem take_take_append (xs ys : List α) :
    (xs.take cap ++ ys).take cap = (xs ++ ys).take cap := by
  rcases Nat.le_total xs.length cap with h | h
  · rw [List.take_of_length_le h]
  · rw [List.take_append_of_le_length (by rw [List.length_take]; omega), List.take_take,
      Nat.min_self, List.take_append_of_le_length h]

/-- The last of `ys` are kept when they fit, or equal something that is kept. -/
theorem mem_take_append_iff (xs ys : List α) :
    (∀ y ∈ ys, y ∈ (xs ++ ys).take cap) ↔
      xs.length + ys.length ≤ cap ∨ ∀ y ∈ ys.drop (cap - xs.length), y ∈ (xs ++ ys).take cap := by
  constructor
  · intro h
    exact .inr fun y hy => h y (List.mem_of_mem_drop hy)
  · rintro (hfits | hdup) y hy
    · rw [List.take_of_length_le (by rw [List.length_append]; omega)]
      exact List.mem_append_right _ hy
    · rw [← List.take_append_drop (cap - xs.length) ys] at hy
      rcases List.mem_append.mp hy with hy | hy
      · rw [List.take_append]
        exact List.mem_append_right _ hy
      · exact hdup y hy

end Bounded
