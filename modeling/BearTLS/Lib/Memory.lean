import Mathlib.Data.List.Basic
import Mathlib.Data.List.TakeWhile

/-! A byte-addressed memory with block stores and loads, and the C strings in it. -/

namespace Memory

abbrev Mem := ℕ → UInt8

def store (m : Mem) (p : ℕ) (bs : List UInt8) : Mem :=
  fun i => if i < p then m i else (bs[i - p]?).getD (m i)

def load (m : Mem) (p n : ℕ) : List UInt8 := (List.range n).map fun i => m (p + i)

/-- The C string at `p`, which must end within `n` bytes. -/
def cstr (m : Mem) (p n : ℕ) : List UInt8 := (load m p n).takeWhile (· ≠ 0)

variable (m : Mem) (p q n k : ℕ) (bs : List UInt8)

@[simp] theorem length_load : (load m p n).length = n := by
  simp [load]

@[simp] theorem load_zero : load m p 0 = [] := rfl

@[simp] theorem store_nil : store m p [] = m := by
  funext i
  simp [store]

theorem load_one : load m p 1 = [m p] := by
  simp [load]

theorem load_add : load m p (n + k) = load m p n ++ load m (p + n) k := by
  simp [load, List.range_add, Nat.add_assoc, Function.comp_def]

theorem store_outside {i : ℕ} (h : i < p ∨ p + bs.length ≤ i) : store m p bs i = m i := by
  unfold store
  split_ifs with hi
  · rfl
  · rw [List.getElem?_eq_none (by omega), Option.getD_none]

theorem load_store_same : load (store m p bs) p bs.length = bs := by
  apply List.ext_getElem
  · simp
  · intro i h₁ h₂
    simp only [load, store, List.getElem_map, List.getElem_range, Nat.add_sub_cancel_left,
      List.getElem?_eq_getElem h₂, Option.getD_some]
    rw [if_neg (by omega)]

theorem store_append (cs : List UInt8) :
    store (store m p bs) (p + bs.length) cs = store m p (bs ++ cs) := by
  funext i
  rcases Nat.lt_or_ge i p with hp | hp
  · rw [store_outside _ _ _ (.inl (by omega)), store_outside _ _ _ (.inl hp),
      store_outside _ _ _ (.inl hp)]
  · obtain ⟨k, rfl⟩ := Nat.exists_eq_add_of_le hp
    simp only [store, if_neg (Nat.not_lt.mpr hp), Nat.add_sub_cancel_left, Nat.add_lt_add_iff_left]
    split_ifs with hk
    · rw [List.getElem?_append_left hk]
    · rw [List.getElem?_append_right (Nat.le_of_not_lt hk), Nat.add_sub_add_left,
        List.getElem?_eq_none (Nat.le_of_not_lt hk), Option.getD_none]

theorem store_comm (cs : List UInt8) (h : p + bs.length ≤ q) :
    store (store m p bs) q cs = store (store m q cs) p bs := by
  funext i
  rcases Nat.lt_or_ge i q with hq | hq
  · rw [store_outside _ _ _ (.inl hq)]
    simp only [store, if_pos hq]
  · rw [store_outside (store m q cs) p bs (.inr (by omega))]
    simp only [store, if_neg (Nat.not_lt.mpr hq), if_neg (show ¬ i < p by omega),
      List.getElem?_eq_none (show bs.length ≤ i - p by omega), Option.getD_none]

/-- A block in front of another one. -/
theorem store_prepend (cs : List UInt8) (h : q + cs.length = p) :
    store (store m p bs) q cs = store m q (cs ++ bs) := by
  subst h
  rw [← store_comm m q (q + cs.length) cs bs (Nat.le_refl _), store_append]

/-- A block hides what was stored under it. -/
theorem store_overwrite (cs : List UInt8) (h : bs.length ≤ cs.length) :
    store (store m p bs) p cs = store m p cs := by
  funext i
  rcases Nat.lt_or_ge i p with hp | hp
  · rw [store_outside _ _ _ (.inl hp), store_outside _ _ _ (.inl hp), store_outside _ _ _ (.inl hp)]
  · obtain ⟨k, rfl⟩ := Nat.exists_eq_add_of_le hp
    simp only [store, if_neg (Nat.not_lt.mpr hp), Nat.add_sub_cancel_left]
    rcases Nat.lt_or_ge k cs.length with hk | hk
    · rw [List.getElem?_eq_getElem hk, Option.getD_some, Option.getD_some]
    · rw [List.getElem?_eq_none hk, List.getElem?_eq_none (Nat.le_trans h hk), Option.getD_none]

theorem load_congr {m m' : Mem} (h : ∀ i, p ≤ i → i < p + n → m i = m' i) :
    load m p n = load m' p n := by
  apply List.map_congr_left
  intro i hi
  rw [List.mem_range] at hi
  exact h (p + i) (by omega) (by omega)

theorem load_store_disjoint (h : q + n ≤ p ∨ p + bs.length ≤ q) :
    load (store m p bs) q n = load m q n := by
  apply load_congr
  intro i h₁ h₂
  exact store_outside m p bs (by omega)

/-- A block behind what stands at `p`. -/
theorem load_store_behind :
    load (store m (p + n) bs) p (n + bs.length) = load m p n ++ bs := by
  rw [load_add, load_store_disjoint _ _ _ _ _ (.inl (Nat.le_refl _)), load_store_same]

/-- A block behind what stands below it. -/
theorem load_store_append : load (store m p bs) 0 (p + bs.length) = load m 0 p ++ bs := by
  rw [load_add, load_store_disjoint _ _ _ _ _ (.inl (by omega)), Nat.zero_add, load_store_same]

/-- A string without NUL, and its terminator. -/
theorem cstr_eq {m : Mem} {p n : ℕ} {bs : List UInt8} (hb : 0 ∉ bs) (hn : bs.length < n)
    (hl : load m p bs.length = bs) (h0 : m (p + bs.length) = 0) : cstr m p n = bs := by
  obtain ⟨k, rfl⟩ : ∃ k, n = bs.length + (1 + k) := ⟨n - bs.length - 1, by omega⟩
  have hall : ∀ b ∈ bs, decide (b ≠ 0) = true := by
    intro b hbm
    have : b ≠ 0 := fun h => hb (h ▸ hbm)
    simpa using this
  rw [cstr, load_add, hl, load_add, load_one, h0, List.takeWhile_append_of_pos hall]
  simp

end Memory
