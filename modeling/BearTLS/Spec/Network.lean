import BearTLS.Spec.EngineRuns
import Mathlib.Logic.Function.Basic

/-! Two engines and the two byte streams between them. Any caller of either end may make any
legal call at any time; what travels is neither changed nor reordered. -/

namespace BearTLS

inductive Side where
  | client
  | server
deriving DecidableEq, Repr

def Side.other : Side → Side
  | .client => .server
  | .server => .client

theorem Side.other_ne (s : Side) : s.other ≠ s := by
  cases s <;> decide

theorem Side.other_other (s : Side) : s.other.other = s := by
  cases s <;> rfl

theorem Side.eq_or (s t : Side) : t = s ∨ t = s.other := by
  cases s <;> cases t <;> decide

/-- `wire s` is on its way to `s`. What the applications have put in and taken out, and
whether they have closed their end, is kept for the record. -/
structure Network (σ : Type) where
  ends : Side → σ
  wire : Side → List UInt8
  injected : Side → List UInt8
  taken : Side → List UInt8
  closing : Side → Bool

namespace EngineCall

def received : EngineCall → List UInt8
  | .recvrec data => data
  | _ => []

def injected : EngineCall → List UInt8
  | .sendapp data => data
  | _ => []

/-- It moves bytes on, to the network, from it, or to the application. -/
def transports : EngineCall → Bool
  | .sendrec _ | .recvrec _ | .recvapp _ => true
  | .sendapp _ | .flush | .close => false

end EngineCall

namespace Engine

variable {σ : Type} (E : Engine σ) (s : σ)

def sent : EngineCall → List UInt8
  | .sendrec n => (E.sendrecBuf s).take n
  | _ => []

def taken : EngineCall → List UInt8
  | .recvapp n => (E.recvappBuf s).take n
  | _ => []

end Engine

namespace Network

variable {σ τ : Type} (E : Engine σ) (F : Engine τ)

/-- Both ends are as `mk` says, and nothing has happened yet. -/
def fresh (mk : Side → σ) : Network σ where
  ends := mk
  wire _ := []
  injected _ := []
  taken _ := []
  closing _ := false

/-- `s` makes a call. -/
def move (n : Network σ) (s : Side) (c : EngineCall) : Network σ where
  ends := Function.update n.ends s (E.call (n.ends s) c)
  wire t := if t = s then (n.wire t).drop c.received.length else n.wire t ++ E.sent (n.ends s) c
  injected := Function.update n.injected s (n.injected s ++ c.injected)
  taken := Function.update n.taken s (n.taken s ++ E.taken (n.ends s) c)
  closing := Function.update n.closing s (n.closing s || c = .close)

/-- What is received comes from the wire. -/
def CanMove (n : Network σ) (s : Side) (c : EngineCall) : Prop :=
  E.Legal (n.ends s) c ∧ c.received <+: n.wire s

instance (n : Network σ) (s : Side) (c : EngineCall) : Decidable (n.CanMove E s c) :=
  inferInstanceAs (Decidable (_ ∧ _))

/-- A schedule of moves. -/
def moves (n : Network σ) (cs : List (Side × EngineCall)) : Network σ :=
  cs.foldl (fun n sc => n.move E sc.1 sc.2) n

def CanMoves : Network σ → List (Side × EngineCall) → Prop
  | _, [] => True
  | n, sc :: cs => n.CanMove E sc.1 sc.2 ∧ CanMoves (n.move E sc.1 sc.2) cs

instance decidableCanMoves :
    (n : Network σ) → (cs : List (Side × EngineCall)) → Decidable (n.CanMoves E cs)
  | _, [] => inferInstanceAs (Decidable True)
  | n, sc :: cs =>
    have := decidableCanMoves (n.move E sc.1 sc.2) cs
    inferInstanceAs (Decidable (_ ∧ _))

inductive Reachable (n : Network σ) : Network σ → Prop
  | start : Reachable n n
  | move {m : Network σ} (s : Side) (c : EngineCall) :
    Reachable n m → m.CanMove E s c → Reachable n (m.move E s c)

/-- Nothing can be moved on. -/
def Quiet (n : Network σ) : Prop := ∀ s c, c.transports = true → ¬ n.CanMove E s c

/-- So many moves that each moves bytes on. -/
inductive Transports (n : Network σ) : ℕ → Network σ → Prop
  | start : Transports n 0 n
  | move {m : Network σ} {k : ℕ} (s : Side) (c : EngineCall) :
    Transports n k m → c.transports = true → m.CanMove E s c →
      Transports n (k + 1) (m.move E s c)

/-- The ends are related, and the rest is the same. -/
structure Related (rel : σ → τ → Prop) (n : Network σ) (m : Network τ) : Prop where
  ends : ∀ s, rel (n.ends s) (m.ends s)
  wire : n.wire = m.wire
  injected : n.injected = m.injected
  taken : n.taken = m.taken
  closing : n.closing = m.closing

variable {E F}

variable (E) in
/-- What a move does at the side that makes it, and at the other one. -/
theorem move_at (n : Network σ) (s : Side) (c : EngineCall) :
    (n.move E s c).ends s = E.call (n.ends s) c ∧
      (n.move E s c).ends s.other = n.ends s.other ∧
      (n.move E s c).wire s = (n.wire s).drop c.received.length ∧
      (n.move E s c).wire s.other = n.wire s.other ++ E.sent (n.ends s) c ∧
      (n.move E s c).injected s = n.injected s ++ c.injected ∧
      (n.move E s c).injected s.other = n.injected s.other ∧
      (n.move E s c).taken s = n.taken s ++ E.taken (n.ends s) c ∧
      (n.move E s c).taken s.other = n.taken s.other ∧
      (n.move E s c).closing s = (n.closing s || c = .close) ∧
      (n.move E s c).closing s.other = n.closing s.other := by
  have hne := s.other_ne
  simp only [move, Function.update_self, Function.update_of_ne hne, if_true, if_neg hne,
    and_self]

theorem move_related {rel : σ → τ → Prop} {live : τ → Prop} (h : E.Refines F rel live)
    {n : Network σ} {m : Network τ} (hr : Related rel n m) {s : Side} (hlive : live (m.ends s))
    {c : EngineCall} (hmove : n.CanMove E s c) :
    m.CanMove F s c ∧ Related rel (n.move E s c) (m.move F s c) := by
  have hview := h.view _ _ (hr.ends s) hlive
  have hsent : E.sent (n.ends s) c = F.sent (m.ends s) c := by
    cases c <;> simp only [Engine.sent, hview.sendrecBuf]
  have htaken : E.taken (n.ends s) c = F.taken (m.ends s) c := by
    cases c <;> simp only [Engine.taken, hview.recvappBuf]
  refine ⟨⟨(hview.legal_iff c).mp hmove.1, hr.wire ▸ hmove.2⟩, ?_⟩
  refine ⟨fun t => ?_, ?_, ?_, ?_, ?_⟩
  · by_cases ht : t = s
    · subst ht
      simp only [move, Function.update_self]
      exact h.call _ _ c (hr.ends t) hlive hmove.1
    · simp only [move, Function.update_of_ne ht]
      exact hr.ends t
  · simp only [move, hr.wire, hsent]
  · simp only [move, hr.injected]
  · simp only [move, hr.taken, htaken]
  · simp only [move, hr.closing]

theorem reachable_moves {n₀ n : Network σ} (h : Reachable E n₀ n) {cs : List (Side × EngineCall)}
    (hcan : n.CanMoves E cs) : Reachable E n₀ (n.moves E cs) := by
  induction cs generalizing n with
  | nil => exact h
  | cons sc cs ih => exact ih (.move sc.1 sc.2 h hcan.1) hcan.2

theorem transports_moves {n₀ n : Network σ} {k : ℕ} (h : Transports E n₀ k n)
    {cs : List (Side × EngineCall)} (hcan : n.CanMoves E cs)
    (htransports : ∀ sc ∈ cs, sc.2.transports = true) :
    Transports E n₀ (k + cs.length) (n.moves E cs) := by
  induction cs generalizing k n with
  | nil => exact h
  | cons sc cs ih =>
    have hrest := ih (.move sc.1 sc.2 h (htransports sc List.mem_cons_self) hcan.1) hcan.2
      fun sc' hsc' => htransports sc' (List.mem_cons_of_mem _ hsc')
    rwa [Nat.add_assoc, Nat.add_comm 1] at hrest

theorem Reachable.trans {n₀ n m : Network σ} (h : Reachable E n₀ n) (h' : Reachable E n m) :
    Reachable E n₀ m := by
  induction h' with
  | start => exact h
  | move s c _ hmove ih => exact .move s c ih hmove

theorem Quiet.sendrec {n : Network σ} (h : n.Quiet E) (s : Side) :
    E.sendrecBuf (n.ends s) = [] := by
  by_contra hne
  exact h s (.sendrec 1) rfl
    ⟨⟨Nat.one_pos, List.length_pos_of_ne_nil hne⟩, List.nil_prefix⟩

theorem Quiet.recvapp {n : Network σ} (h : n.Quiet E) (s : Side) :
    E.recvappBuf (n.ends s) = [] := by
  by_contra hne
  exact h s (.recvapp 1) rfl
    ⟨⟨Nat.one_pos, List.length_pos_of_ne_nil hne⟩, List.nil_prefix⟩

theorem Quiet.recvrec {n : Network σ} (h : n.Quiet E) (s : Side) :
    n.wire s = [] ∨ E.recvrecBuf (n.ends s) = 0 := by
  cases hw : n.wire s with
  | nil => exact .inl rfl
  | cons x xs =>
    right
    by_contra hne
    refine h s (.recvrec [x]) rfl ⟨⟨List.cons_ne_nil x [], Nat.pos_of_ne_zero hne⟩, ?_⟩
    rw [hw]
    exact ⟨xs, rfl⟩

theorem quiet_of_empty {n : Network σ}
    (h : ∀ s, E.sendrecBuf (n.ends s) = [] ∧ E.recvappBuf (n.ends s) = [] ∧
      (n.wire s = [] ∨ E.recvrecBuf (n.ends s) = 0)) : n.Quiet E := by
  rintro s c htransports ⟨hlegal, hwire⟩
  obtain ⟨hsend, hrecv, hin⟩ := h s
  cases c with
  | sendrec k =>
    have hk : k ≤ (E.sendrecBuf (n.ends s)).length := hlegal.2
    rw [hsend] at hk
    exact absurd (Nat.lt_of_lt_of_le hlegal.1 hk) (Nat.lt_irrefl 0)
  | recvapp k =>
    have hk : k ≤ (E.recvappBuf (n.ends s)).length := hlegal.2
    rw [hrecv] at hk
    exact absurd (Nat.lt_of_lt_of_le hlegal.1 hk) (Nat.lt_irrefl 0)
  | recvrec data =>
    rcases hin with hnil | hzero
    · have hprefix : data <+: n.wire s := hwire
      rw [hnil] at hprefix
      exact hlegal.1 (List.prefix_nil.mp hprefix)
    · have hle : data.length ≤ E.recvrecBuf (n.ends s) := hlegal.2
      rw [hzero] at hle
      exact hlegal.1 (List.eq_nil_of_length_eq_zero (Nat.le_zero.mp hle))
  | sendapp data => exact absurd htransports Bool.false_ne_true
  | flush => exact absurd htransports Bool.false_ne_true
  | close => exact absurd htransports Bool.false_ne_true

end Network

end BearTLS
