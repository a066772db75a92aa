import BearTLS.Model.Engine

/-! Runs of an engine under its interface contract, and what it means that one engine
does what another one says. -/

namespace BearTLS

inductive EngineCall where
  | sendrec (n : ℕ)
  | recvrec (data : List UInt8)
  | sendapp (data : List UInt8)
  | recvapp (n : ℕ)
  | flush
  | close
deriving DecidableEq, Repr

namespace Engine

variable {σ τ : Type} (E : Engine σ) (F : Engine τ)

/-- A call acknowledges at least one byte, and no more than its buffer call exposes. -/
def Legal (s : σ) : EngineCall → Prop
  | .sendrec n => 0 < n ∧ n ≤ (E.sendrecBuf s).length
  | .recvrec data => data ≠ [] ∧ data.length ≤ E.recvrecBuf s
  | .sendapp data => data ≠ [] ∧ data.length ≤ E.sendappBuf s
  | .recvapp n => 0 < n ∧ n ≤ (E.recvappBuf s).length
  | .flush => True
  | .close => True

instance (s : σ) : (c : EngineCall) → Decidable (E.Legal s c)
  | .sendrec _ | .recvrec _ | .sendapp _ | .recvapp _ => inferInstanceAs (Decidable (_ ∧ _))
  | .flush | .close => inferInstanceAs (Decidable True)

def call (s : σ) : EngineCall → σ
  | .sendrec n => E.sendrecAck s n
  | .recvrec data => E.recvrecAck s data
  | .sendapp data => E.sendappAck s data
  | .recvapp n => E.recvappAck s n
  | .flush => E.flush s
  | .close => E.close s

def LegalRun : σ → List EngineCall → Prop
  | _, [] => True
  | s, c :: cs => E.Legal s c ∧ LegalRun (E.call s c) cs

instance decidableLegalRun : (s : σ) → (cs : List EngineCall) → Decidable (E.LegalRun s cs)
  | _, [] => inferInstanceAs (Decidable True)
  | s, c :: cs =>
    have := decidableLegalRun (E.call s c) cs
    inferInstanceAs (Decidable (_ ∧ _))

def run (s : σ) (cs : List EngineCall) : σ := cs.foldl E.call s

/-- What a caller sees. -/
structure SameView (s : σ) (t : τ) : Prop where
  currentState : E.currentState s = F.currentState t
  lastError : E.lastError s = F.lastError t
  sendrecBuf : E.sendrecBuf s = F.sendrecBuf t
  recvrecBuf : E.recvrecBuf s = F.recvrecBuf t
  sendappBuf : E.sendappBuf s = F.sendappBuf t
  recvappBuf : E.recvappBuf s = F.recvappBuf t

/-- `E` does what `F` says, as long as the state of `F` is `live`. -/
structure Refines (rel : σ → τ → Prop) (live : τ → Prop) : Prop where
  view : ∀ s t, rel s t → live t → E.SameView F s t
  call : ∀ s t c, rel s t → live t → E.Legal s c → rel (E.call s c) (F.call t c)

variable {E F}

theorem SameView.legal_iff {s : σ} {t : τ} (h : E.SameView F s t) (c : EngineCall) :
    E.Legal s c ↔ F.Legal t c := by
  cases c <;> simp only [Legal, h.sendrecBuf, h.recvrecBuf, h.sendappBuf, h.recvappBuf]

theorem run_dead {live : τ → Prop} (hdead : ∀ t c, ¬ live t → ¬ live (F.call t c)) {t : τ}
    (ht : ¬ live t) (cs : List EngineCall) : ¬ live (F.run t cs) := by
  induction cs generalizing t with
  | nil => exact ht
  | cons c cs ih => exact ih (hdead t c ht)

/-- Over a whole run, where a state that is not live stays so. -/
theorem Refines.run {rel : σ → τ → Prop} {live : τ → Prop} (h : E.Refines F rel live)
    (hdead : ∀ t c, ¬ live t → ¬ live (F.call t c)) {s : σ} {t : τ} (hrel : rel s t)
    {cs : List EngineCall} (hlegal : E.LegalRun s cs) (hlive : live (F.run t cs)) :
    rel (E.run s cs) (F.run t cs) := by
  induction cs generalizing s t with
  | nil => exact hrel
  | cons c cs ih =>
    by_cases ht : live t
    · exact ih (h.call s t c hrel ht hlegal.1) hlegal.2 hlive
    · exact absurd hlive (run_dead hdead ht (c :: cs))

end Engine

end BearTLS
