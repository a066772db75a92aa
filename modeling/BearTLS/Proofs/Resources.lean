import BearTLS.Spec.Resources
import BearTLS.Proofs.Exchange
import BearTLS.Proofs.Traffic
import BearTLS.Sanity.Schedules

/-! Every path through `wm_tls_open`, `wm_tls_close` and the exchanges leaves the
process with what it is to hold then, also between the calls of a caller with
many connections. -/

namespace BearTLS

open Holdings Memory Relation

variable {σ α : Type} {E : Engine σ} {os : Host σ}

section Balance

theorem Balance.refl (log : Log σ) (h : Multiset Resource) : Balance 0 log log h h :=
  ⟨[], by simp, .nil h, by simp [actionsOf]⟩

theorem Balance.mono {m n : ℕ} {log log' : Log σ} {h h' : Multiset Resource}
    (hb : Balance m log log' h h') (hmn : m ≤ n) : Balance n log log' h h' := by
  obtain ⟨evs, hlog, hmoves, hacq⟩ := hb
  exact ⟨evs, hlog, hmoves, fun r => (hacq r).trans hmn⟩

theorem Balance.trans {m n : ℕ} {l l' l'' : Log σ} {h h' h'' : Multiset Resource}
    (hb : Balance m l l' h h') (hb' : Balance n l' l'' h' h'') : Balance (m + n) l l'' h h'' := by
  obtain ⟨evs, rfl, hmoves, hacq⟩ := hb
  obtain ⟨evs', rfl, hmoves', hacq'⟩ := hb'
  refine ⟨evs ++ evs', List.append_assoc .., ?_, fun r => ?_⟩
  · rw [actionsOf_append]
    exact hmoves.trans hmoves'
  · rw [actionsOf_append, List.count_append]
    exact Nat.add_le_add (hacq r) (hacq' r)

theorem OnlyUses.refl (c : Conn σ) : OnlyUses c c := ⟨rfl, [], by simp, by simp [actionsOf]⟩

theorem OnlyUses.trans {c c' c'' : Conn σ} (h : OnlyUses c c') (h' : OnlyUses c' c'') :
    OnlyUses c c'' := by
  obtain ⟨hsock, evs, hlog, huses⟩ := h
  obtain ⟨hsock', evs', hlog', huses'⟩ := h'
  have hsame : c'.resources = c.resources := by
    rw [Conn.resources, Conn.resources, hsock]
  refine ⟨hsock'.trans hsock, evs ++ evs', by rw [hlog', hlog, List.append_assoc], ?_⟩
  intro a ha
  rw [actionsOf_append] at ha
  rcases List.mem_append.mp ha with ha | ha
  · exact huses a ha
  · rw [← hsame]
    exact huses' a ha

end Balance

section Traffic

end Traffic

section Open

end Open

section Close

variable (E os)

end Close

section Exchange

variable (E os)

end Exchange

section World

/-- A world in which `h` is held, of resources that were acquired once each. -/
structure World.Holds (w : World σ) (h : Multiset (ℕ × Resource)) : Prop where
  moves : Moves 0 w.actions h
  once : ∀ x, w.actions.count (.acquire x) ≤ 1
  fresh : ∀ e ∈ w.journal, e.1 < w.next

theorem serve_actions (w : World σ) (i : ℕ) (evs : Log σ) (conns : List (ℕ × Conn σ)) :
    (w.serve i (w.log ++ evs) conns).actions = w.actions ++ tagged i (actionsOf evs) := by
  have htag : (evs.map (Prod.mk i)).flatMap (fun e => tagged e.1 e.2.actions) =
      tagged i (actionsOf evs) := by
    induction evs with
    | nil => rfl
    | cons ev evs ih => rw [List.map_cons, List.flatMap_cons, ih, actionsOf_cons, tagged_append]
  rw [World.actions, World.serve, List.drop_left, List.flatMap_append, htag]
  rfl

theorem World.Holds.unused {w : World σ} {h : Multiset (ℕ × Resource)} (hw : w.Holds h)
    (r : Resource) : w.actions.count (.acquire (w.next, r)) = 0 := by
  refine List.count_eq_zero.mpr fun hmem => ?_
  obtain ⟨e, he, ha⟩ := List.mem_flatMap.mp hmem
  have hne : e.1 ≠ w.next := Nat.ne_of_lt (hw.fresh e he)
  exact List.count_eq_zero.mp (count_tagged_other hne r _) ha

/-- A call for one connection: an open one that acquires nothing, or a new one. -/
theorem World.Holds.serve {w : World σ} {i n : ℕ} {h h' : Multiset Resource}
    {rest : Multiset (ℕ × Resource)} {log' : Log σ} (hw : w.Holds (owned i h + rest))
    (hb : Balance n w.log log' h h') (hn : n = 0 ∨ n = 1 ∧ i = w.next)
    (conns : List (ℕ × Conn σ)) : (w.serve i log' conns).Holds (owned i h' + rest) := by
  obtain ⟨evs, rfl, hmoves, hacq⟩ := hb
  refine ⟨?_, fun x => ?_, fun e he => ?_⟩
  · rw [serve_actions]
    exact hw.moves.serve hmoves
  · obtain ⟨j, r⟩ := x
    rw [serve_actions, List.count_append]
    have hold := hw.once (j, r)
    have hnew := hacq r
    by_cases hij : i = j
    · subst hij
      rw [count_tagged_self]
      rcases hn with rfl | ⟨rfl, rfl⟩
      · omega
      · rw [hw.unused]
        omega
    · rw [count_tagged_other hij]
      omega
  · unfold World.serve at he ⊢
    rcases List.mem_append.mp he with he | he
    · exact (hw.fresh e he).trans_le (Nat.le_max_left ..)
    · obtain ⟨ev, -, rfl⟩ := List.mem_map.mp he
      exact (Nat.lt_succ_self i).trans_le (Nat.le_max_right ..)

/-- The invariant between calls. -/
structure World.Good (w : World σ) : Prop where
  holds : w.Holds w.held
  socks : ∀ e ∈ w.conns, ∃ s, e.2.sock = some s

def heldBy (conns : List (ℕ × Conn σ)) : Multiset (ℕ × Resource) :=
  (conns.map fun e => owned e.1 e.2.resources).sum

theorem heldBy_split (pre post : List (ℕ × Conn σ)) (i : ℕ) (c : Conn σ) :
    heldBy (pre ++ (i, c) :: post) = owned i c.resources + heldBy (pre ++ post) := by
  simp only [heldBy, List.map_append, List.map_cons, List.sum_append, List.sum_cons]
  rw [← add_assoc, ← add_assoc, add_comm (List.sum _)]

/-- One open connection, and the others. -/
theorem World.Good.split {w : World σ} (hw : w.Good) {pre post : List (ℕ × Conn σ)} {i : ℕ}
    {c : Conn σ} (hconns : w.conns = pre ++ (i, c) :: post) :
    w.Holds (owned i c.resources + heldBy (pre ++ post)) := by
  rw [← heldBy_split, ← hconns]
  exact hw.holds

end World

end BearTLS
