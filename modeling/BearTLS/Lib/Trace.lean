import Mathlib.Data.List.Basic

/-! Runs of a labelled step relation, and properties of a log that speak about
each entry and the entries before it. -/

namespace Trace

variable {S A : Type*}

/-- The runs from an initial state, with the labels of their steps in order. -/
inductive Run (init : S → Prop) (step : S → A → S → Prop) : S → List A → Prop
  | nil {s : S} : init s → Run init step s []
  | snoc {s s' : S} {a : A} {h : List A} :
      Run init step s h → step s a s' → Run init step s' (h ++ [a])

variable {init : S → Prop} {step : S → A → S → Prop}

/-- An invariant of a state and its history is shown for the initial states and
for one step. -/
theorem Run.invariant (I : S → List A → Prop) (h0 : ∀ s, init s → I s [])
    (hstep : ∀ s h a s', I s h → step s a s' → I s' (h ++ [a])) {s : S} {h : List A}
    (hr : Run init step s h) : I s h := by
  induction hr with
  | nil hi => exact h0 _ hi
  | snoc _ hs ih => exact hstep _ _ _ _ ih hs

/-- What every step's label has, every label of a run has. -/
theorem Run.forall_label {P : A → Prop} (hstep : ∀ s a s', step s a s' → P a) {s : S}
    {h : List A} (hr : Run init step s h) : ∀ a ∈ h, P a := by
  refine Run.invariant (fun _ h => ∀ a ∈ h, P a) (fun _ _ => by simp) ?_ hr
  intro s h a s' hall hs b hb
  rcases List.mem_append.mp hb with hb | hb
  · exact hall b hb
  · obtain rfl := List.mem_singleton.mp hb
    exact hstep s b s' hs

/-- `P` holds of every entry of the log together with the entries before it. -/
def Always (P : List A → A → Prop) (l : List A) : Prop :=
  ∀ pre a post, l = pre ++ a :: post → P pre a

variable {P Q : List A → A → Prop}

@[simp] theorem always_nil : Always P ([] : List A) := by
  intro pre a post h
  simp at h

theorem always_snoc {l : List A} {a : A} : Always P (l ++ [a]) ↔ Always P l ∧ P l a := by
  constructor
  · intro h
    refine ⟨fun pre b post hl => h pre b (post ++ [a]) (by simp [hl]), h l a [] rfl⟩
  · rintro ⟨hl, ha⟩ pre b post he
    rcases List.eq_nil_or_concat post with rfl | ⟨post', x, rfl⟩
    · obtain ⟨rfl, hab⟩ := List.append_inj' he rfl
      obtain rfl : a = b := by simpa using hab
      exact ha
    · rw [List.concat_eq_append, ← List.cons_append, ← List.append_assoc] at he
      obtain ⟨rfl, -⟩ := List.append_inj' he rfl
      exact hl pre b post' rfl

theorem Always.imp {l : List A} (h : Always P l) (hpq : ∀ pre a, P pre a → Q pre a) :
    Always Q l :=
  fun pre a post hl => hpq pre a (h pre a post hl)

/-- Entries after `l` see all of `l` in their past. -/
theorem Always.of_append {l m : List A} (h : Always P (l ++ m)) :
    Always (fun pre a => P (l ++ pre) a) m := by
  intro pre a post hm
  exact h (l ++ pre) a post (by simp [hm])

end Trace
