import Mathlib.Data.List.Basic
import Mathlib.Data.List.GetD
import Mathlib.Logic.Function.Basic
import Mathlib.Order.Basic

/-! Zero-terminated strings in an array: where they end, writing behind what is there,
the copy loop that stops at the end of the array, the last separator. -/

namespace Terminated

section Definitions

variable {α : Type*} [Zero α] [DecidableEq α]

def lengthFrom (m : ℕ → α) : ℕ → ℕ → ℕ
  | 0, len => len
  | k + 1, len => if m len = 0 then len else lengthFrom m k (len + 1)

/-- The length of the string, at most `count`. -/
def length (m : ℕ → α) (count : ℕ) : ℕ := lengthFrom m count 0

/-- The string itself. -/
def chars (m : ℕ → α) (count : ℕ) : List α := (List.range (length m count)).map m

def write : (ℕ → α) → ℕ → List α → ℕ → α
  | m, _, [] => m
  | m, i, c :: cs => write (Function.update m i c) (i + 1) cs

/-- Copies `src` to position `i` on and terminates it, in an array of `count` cells;
true where all of `src` was copied. -/
def copyFrom (count : ℕ) : (ℕ → α) → ℕ → List α → (ℕ → α) × Bool
  | m, i, [] => (Function.update m i 0, true)
  | m, i, c :: cs =>
    if i + 1 < count then copyFrom count (Function.update m i c) (i + 1) cs
    else (Function.update m i 0, false)

def lastFrom (p : α → Bool) (m : ℕ → α) : ℕ → ℕ → Option ℕ → Option ℕ
  | 0, _, last => last
  | k + 1, i, last =>
    if m i = 0 then last else lastFrom p m k (i + 1) (if p (m i) then some i else last)

/-- The last position before the terminator that satisfies `p`. -/
def last (p : α → Bool) (m : ℕ → α) (count : ℕ) : Option ℕ := lastFrom p m count 0 none

/-- `s` and its terminator stand at the start of the array. -/
def Reads (m : ℕ → α) (s : List α) : Prop := ∀ i ≤ s.length, m i = s.getD i 0

end Definitions

section Write

variable {α : Type*} {m : ℕ → α} {t : List α} {i j : ℕ}

theorem write_below (h : j < i) : write m i t j = m j := by
  induction t generalizing m i with
  | nil => rfl
  | cons c t ih =>
    rw [write, ih (by omega), Function.update_of_ne (by omega)]

theorem write_at (h : j < t.length) : write m i t (i + j) = t[j] := by
  induction t generalizing m i j with
  | nil => exact absurd h (Nat.not_lt_zero j)
  | cons c t ih =>
    cases j with
    | zero =>
      rw [write, write_below (show i + 0 < i + 1 by omega), Nat.add_zero, Function.update_self]
      rfl
    | succ j =>
      rw [write, show i + (j + 1) = i + 1 + j by omega, ih (Nat.lt_of_succ_lt_succ h)]
      rfl

variable [Zero α] {s : List α} {count : ℕ}

/-- Writing behind a string appends to it, whatever the array held there. -/
theorem reads_write (h : ∀ i (hi : i < s.length), m i = s[i]) :
    Reads (write m s.length (t ++ [0])) (s ++ t) := by
  intro i hi
  rw [List.length_append] at hi
  rcases Nat.lt_or_ge i s.length with hs | hs
  · rw [write_below hs, h i hs, List.getD_append _ _ _ _ hs, List.getD_eq_getElem _ _ hs]
  · obtain ⟨j, rfl⟩ := Nat.exists_eq_add_of_le hs
    have hj : j < (t ++ [0]).length := by
      rw [List.length_append, List.length_singleton]
      omega
    rw [write_at hj, List.getD_append_right _ _ _ _ hs, Nat.add_sub_cancel_left]
    rcases Nat.lt_or_ge j t.length with ht | ht
    · rw [List.getElem_append_left ht, List.getD_eq_getElem _ _ ht]
    · rw [List.getElem_append_right ht, List.getElem_singleton, List.getD_eq_default _ _ ht]

theorem copyFrom_eq (h : i < count) :
    copyFrom count m i t =
      (write m i (t.take (count - 1 - i) ++ [0]), decide (i + t.length < count)) := by
  induction t generalizing m i with
  | nil =>
    rw [copyFrom, List.take_nil, List.length_nil, Nat.add_zero, decide_eq_true h]
    rfl
  | cons c t ih =>
    rw [copyFrom]
    split_ifs with hroom
    · rw [ih hroom, show count - 1 - i = count - 1 - (i + 1) + 1 by omega, List.take_succ_cons,
        List.length_cons, show i + 1 + t.length = i + (t.length + 1) by omega]
      rfl
    · rw [show count - 1 - i = 0 by omega, List.length_cons, decide_eq_false (by omega)]
      rfl

theorem copyFrom_fits (h : i + t.length < count) :
    copyFrom count m i t = (write m i (t ++ [0]), true) := by
  rw [copyFrom_eq (by omega), List.take_of_length_le (by omega), decide_eq_true h]

theorem copyFrom_cut (hi : i < count) (h : count ≤ i + t.length) :
    (copyFrom count m i t).2 = false := by
  rw [copyFrom_eq hi]
  exact decide_eq_false (by omega)

end Write

section Read

variable {α : Type*} [Zero α] {m : ℕ → α} {s t : List α} {c : α} {i : ℕ}

theorem Reads.at (h : Reads m s) (hi : i < s.length) : m i = s[i] := by
  rw [h i (Nat.le_of_lt hi), List.getD_eq_getElem _ _ hi]

theorem Reads.ends (h : Reads m s) : m s.length = 0 := by
  rw [h s.length (Nat.le_refl _), List.getD_eq_default _ _ (Nat.le_refl _)]

theorem Reads.ne_zero (h : Reads m s) (hs : 0 ∉ s) (hi : i < s.length) : m i ≠ 0 := by
  rw [h.at hi]
  intro hz
  exact hs (hz ▸ List.getElem_mem hi)

theorem Reads.append (h : Reads m s) : Reads (write m s.length (t ++ [0])) (s ++ t) :=
  reads_write fun _ hi => h.at hi

/-- A terminator in place of a character cuts the string there. -/
theorem Reads.cut (h : Reads m (s ++ c :: t)) : Reads (Function.update m s.length 0) s := by
  intro i hi
  rcases Nat.lt_or_eq_of_le hi with hlt | rfl
  · rw [Function.update_of_ne (Nat.ne_of_lt hlt), h i (by rw [List.length_append]; omega),
      List.getD_append _ _ _ _ hlt]
  · rw [Function.update_self, List.getD_eq_default _ _ (Nat.le_refl _)]

variable [DecidableEq α] {k count : ℕ} {p : α → Bool}

theorem Reads.lengthFrom_eq (h : Reads m s) (hs : 0 ∉ s) (hi : i ≤ s.length)
    (hk : s.length < i + k) : lengthFrom m k i = s.length := by
  induction k generalizing i with
  | zero => omega
  | succ k ih =>
    rw [lengthFrom]
    rcases Nat.lt_or_eq_of_le hi with hlt | rfl
    · rw [if_neg (h.ne_zero hs hlt), ih hlt (by omega)]
    · rw [if_pos h.ends]

theorem Reads.length_eq (h : Reads m s) (hs : 0 ∉ s) (hc : s.length < count) :
    length m count = s.length :=
  h.lengthFrom_eq hs (Nat.zero_le _) (by omega)

theorem Reads.chars_eq (h : Reads m s) (hs : 0 ∉ s) (hc : s.length < count) :
    chars m count = s := by
  rw [chars, h.length_eq hs hc]
  apply List.ext_getElem
  · simp
  · intro i h₁ h₂
    rw [List.getElem_map, List.getElem_range, h.at h₂]

/-- Past the last separator nothing changes any more. -/
theorem Reads.lastFrom_past (h : Reads m (s ++ t)) (hs : 0 ∉ s ++ t)
    (hp : ∀ a ∈ t, p a = false) (hi : s.length ≤ i) (hle : i ≤ (s ++ t).length) (l : Option ℕ) :
    lastFrom p m k i l = l := by
  induction k generalizing i with
  | zero => rfl
  | succ k ih =>
    rw [lastFrom]
    rcases Nat.lt_or_eq_of_le hle with hlt | rfl
    · have hmem : (s ++ t)[i] ∈ t := by
        rw [List.getElem_append_right hi]
        exact List.getElem_mem _
      rw [if_neg (h.ne_zero hs hlt), h.at hlt, hp _ hmem, if_neg Bool.false_ne_true]
      exact ih (by omega) hlt
    · rw [if_pos h.ends]

theorem Reads.lastFrom_eq (h : Reads m (s ++ c :: t)) (hs : 0 ∉ s ++ c :: t) (hc : p c = true)
    (hp : ∀ a ∈ t, p a = false) (hi : i ≤ s.length) (hk : s.length < i + k) (l : Option ℕ) :
    lastFrom p m k i l = some s.length := by
  have hlen : (s ++ c :: t).length = s.length + (t.length + 1) := by
    rw [List.length_append, List.length_cons]
  induction k generalizing i l with
  | zero => omega
  | succ k ih =>
    rw [lastFrom, if_neg (h.ne_zero hs (by omega))]
    rcases Nat.lt_or_eq_of_le hi with hlt | rfl
    · exact ih hlt (by omega) _
    · have hat : m s.length = c := by
        rw [h.at (by omega), List.getElem_append_right (Nat.le_refl _)]
        simp
      rw [hat, hc]
      rw [List.append_cons] at h hs hlen
      exact h.lastFrom_past hs hp (by simp) (by omega) _

theorem Reads.last_eq (h : Reads m (s ++ c :: t)) (hs : 0 ∉ s ++ c :: t) (hc : p c = true)
    (hp : ∀ a ∈ t, p a = false) (hn : s.length < count) : last p m count = some s.length :=
  h.lastFrom_eq hs hc hp (Nat.zero_le _) (by omega) none

end Read

end Terminated
