import Mathlib.Algebra.Order.Group.Multiset
import Mathlib.Data.Multiset.Count
import Mathlib.Data.Multiset.MapFold
import Mathlib.Data.Prod.Basic

/-! Resources that are acquired, used and released. A list of actions is
replayed over what is held; the replay fails where something that is not held is
used or released. -/

namespace Holdings

inductive Action (R : Type*) where
  | acquire (r : R)
  | use (r : R)
  | release (r : R)
deriving DecidableEq

variable {R S : Type*} [DecidableEq R] [DecidableEq S]

def Action.map (f : R → S) : Action R → Action S
  | .acquire r => .acquire (f r)
  | .use r => .use (f r)
  | .release r => .release (f r)

def act (h : Multiset R) : Action R → Option (Multiset R)
  | .acquire r => some (r ::ₘ h)
  | .use r => if r ∈ h then some h else none
  | .release r => if r ∈ h then some (h.erase r) else none

theorem act_use {h h' : Multiset R} {r : R} : act h (.use r) = some h' ↔ r ∈ h ∧ h = h' := by
  by_cases hr : r ∈ h
  · simp [act, hr]
  · simp [act, hr]

theorem act_release {h h' : Multiset R} {r : R} :
    act h (.release r) = some h' ↔ r ∈ h ∧ h.erase r = h' := by
  by_cases hr : r ∈ h
  · simp [act, hr]
  · simp [act, hr]

def replay : Multiset R → List (Action R) → Option (Multiset R)
  | h, [] => some h
  | h, a :: as => (act h a).bind fun h => replay h as

/-- The actions are possible from `h`, and leave `h'` held. -/
def Moves (h : Multiset R) (as : List (Action R)) (h' : Multiset R) : Prop :=
  replay h as = some h'

instance (h : Multiset R) (as : List (Action R)) (h' : Multiset R) : Decidable (Moves h as h') :=
  inferInstanceAs (Decidable (replay h as = some h'))

theorem Moves.nil (h : Multiset R) : Moves h [] h := rfl

theorem Moves.cons {h h' h'' : Multiset R} {a : Action R} {as : List (Action R)}
    (ha : act h a = some h') (has : Moves h' as h'') : Moves h (a :: as) h'' := by
  unfold Moves replay
  rw [ha]
  exact has

theorem moves_cons {h h'' : Multiset R} {a : Action R} {as : List (Action R)} :
    Moves h (a :: as) h'' ↔ ∃ h', act h a = some h' ∧ Moves h' as h'' := by
  unfold Moves
  rw [replay, Option.bind_eq_some_iff]

theorem Moves.trans {h h' h'' : Multiset R} {as bs : List (Action R)} (has : Moves h as h')
    (hbs : Moves h' bs h'') : Moves h (as ++ bs) h'' := by
  induction as generalizing h with
  | nil =>
    obtain rfl : h = h' := Option.some.inj has
    exact hbs
  | cons a as ih =>
    obtain ⟨k, ha, has⟩ := moves_cons.mp has
    exact .cons ha (ih has)

theorem Moves.acquire (r : R) (h : Multiset R) : Moves h [.acquire r] (r ::ₘ h) := rfl

theorem Moves.use {r : R} {h : Multiset R} (hr : r ∈ h) : Moves h [.use r] h :=
  .cons (act_use.mpr ⟨hr, rfl⟩) (.nil h)

theorem Moves.release (r : R) (h : Multiset R) : Moves (r ::ₘ h) [.release r] h :=
  .cons (act_release.mpr ⟨Multiset.mem_cons_self r h, Multiset.erase_cons_head r h⟩) (.nil h)

section Frame

theorem act_frame {h h' : Multiset R} {a : Action R} (ha : act h a = some h') (k : Multiset R) :
    act (h + k) a = some (h' + k) := by
  cases a with
  | acquire r =>
    obtain rfl := Option.some.inj ha
    rw [act, Multiset.cons_add]
  | use r =>
    obtain ⟨hr, rfl⟩ := act_use.mp ha
    exact act_use.mpr ⟨Multiset.mem_add.mpr (.inl hr), rfl⟩
  | release r =>
    obtain ⟨hr, rfl⟩ := act_release.mp ha
    exact act_release.mpr ⟨Multiset.mem_add.mpr (.inl hr), Multiset.erase_add_left_pos k hr⟩

/-- What else is held stays held. -/
theorem Moves.frame {h h' : Multiset R} {as : List (Action R)} (has : Moves h as h')
    (k : Multiset R) : Moves (h + k) as (h' + k) := by
  induction as generalizing h with
  | nil =>
    obtain rfl : h = h' := Option.some.inj has
    exact .nil _
  | cons a as ih =>
    obtain ⟨m, ha, has⟩ := moves_cons.mp has
    exact .cons (act_frame ha k) (ih has)

theorem act_map {f : R → S} (hf : Function.Injective f) {h h' : Multiset R} {a : Action R}
    (ha : act h a = some h') : act (h.map f) (a.map f) = some (h'.map f) := by
  cases a with
  | acquire r =>
    obtain rfl := Option.some.inj ha
    rw [Action.map, act, Multiset.map_cons]
  | use r =>
    obtain ⟨hr, rfl⟩ := act_use.mp ha
    exact act_use.mpr ⟨Multiset.mem_map_of_mem f hr, rfl⟩
  | release r =>
    obtain ⟨hr, rfl⟩ := act_release.mp ha
    exact act_release.mpr ⟨Multiset.mem_map_of_mem f hr, (Multiset.map_erase f hf r h).symm⟩

theorem Moves.map {f : R → S} (hf : Function.Injective f) {h h' : Multiset R}
    {as : List (Action R)} (has : Moves h as h') :
    Moves (h.map f) (as.map (Action.map f)) (h'.map f) := by
  induction as generalizing h with
  | nil =>
    obtain rfl : h = h' := Option.some.inj has
    exact .nil _
  | cons a as ih =>
    obtain ⟨m, ha, has⟩ := moves_cons.mp has
    exact .cons (act_map hf ha) (ih has)

end Frame

section Count

variable (r : R)

theorem act_count {h h' : Multiset R} {a : Action R} (ha : act h a = some h') :
    h.count r + (if a = .acquire r then 1 else 0) =
      h'.count r + (if a = .release r then 1 else 0) := by
  cases a with
  | acquire s =>
    obtain rfl := Option.some.inj ha
    by_cases hs : r = s
    · simp [hs]
    · simp [Multiset.count_cons_of_ne hs, Ne.symm hs]
  | use s =>
    obtain ⟨-, rfl⟩ := act_use.mp ha
    simp
  | release s =>
    obtain ⟨hr, rfl⟩ := act_release.mp ha
    by_cases hs : r = s
    · subst hs
      have hpos := Multiset.one_le_count_iff_mem.mpr hr
      simp [Multiset.count_erase_self]
      omega
    · simp [Multiset.count_erase_of_ne hs, Ne.symm hs]

/-- The account of one resource. -/
theorem Moves.count {h h' : Multiset R} {as : List (Action R)} (has : Moves h as h') :
    h.count r + as.count (.acquire r) = h'.count r + as.count (.release r) := by
  induction as generalizing h with
  | nil =>
    obtain rfl : h = h' := Option.some.inj has
    rfl
  | cons a as ih =>
    obtain ⟨m, ha, has⟩ := moves_cons.mp has
    have hone := act_count r ha
    have hrest := ih has
    simp only [List.count_cons, beq_iff_eq]
    omega

end Count

section Owners

variable {I : Type*} [DecidableEq I]

/-- The actions of owner `i`, on resources of its own. -/
def tagged (i : I) (as : List (Action R)) : List (Action (I × R)) :=
  as.map (Action.map (Prod.mk i))

def owned (i : I) (h : Multiset R) : Multiset (I × R) := h.map (Prod.mk i)

omit [DecidableEq R] [DecidableEq I] in
@[simp] theorem tagged_append (i : I) (as bs : List (Action R)) :
    tagged i (as ++ bs) = tagged i as ++ tagged i bs :=
  List.map_append

/-- One owner acts; what the others hold is as before. -/
theorem Moves.serve {done : List (Action (I × R))} {start rest : Multiset (I × R)} {i : I}
    {h h' : Multiset R} {as : List (Action R)} (hdone : Moves start done (owned i h + rest))
    (has : Moves h as h') : Moves start (done ++ tagged i as) (owned i h' + rest) :=
  hdone.trans ((has.map (Prod.mk_right_injective i)).frame rest)

theorem count_tagged_self (i : I) (r : R) (as : List (Action R)) :
    (tagged i as).count (.acquire (i, r)) = as.count (.acquire r) := by
  induction as with
  | nil => rfl
  | cons a as ih =>
    have hhead : (a.map (Prod.mk i) = .acquire (i, r)) = (a = .acquire r) := by
      cases a <;> simp [Action.map]
    simp only [tagged, List.map_cons, List.count_cons, beq_iff_eq, hhead] at ih ⊢
    rw [ih]

theorem count_tagged_other {i j : I} (hij : i ≠ j) (r : R) (as : List (Action R)) :
    (tagged i as).count (.acquire (j, r)) = 0 := by
  refine List.count_eq_zero.mpr fun hmem => ?_
  obtain ⟨a, -, ha⟩ := List.mem_map.mp hmem
  cases a <;> simp [Action.map, hij] at ha

end Owners

end Holdings
