import BearTLS.Sanity.PlainEngine
import BearTLS.Spec.Runs

/-! Scripted networks under the null-cipher engine, for runs on fixed inputs. -/

namespace BearTLS

def recvCount {σ : Type} : Log σ → ℕ
  | [] => 0
  | .recv .. :: l => recvCount l + 1
  | _ :: l => recvCount l

def sendCount {σ : Type} : Log σ → ℕ
  | [] => 0
  | .send .. :: l => sendCount l + 1
  | _ :: l => sendCount l

def recvEnded {σ : Type} (l : Log σ) : Bool :=
  l.any fun
    | .recv _ _ _ (some []) => true
    | _ => false

/-- Not a `send` that failed or took nothing. -/
def Event.taken {σ : Type} : Event σ → Bool
  | .send _ _ wr => wr.getD 0 != 0
  | _ => true

/-- A network whose k-th `send` takes at most `room k` bytes (0 is a failure) and
that answers `recv` from a script; behind the script it has reached end of stream. -/
def scriptHost (room : ℕ → ℕ) (script : List (Option (List UInt8))) : Host PlainEngine where
  heapAlloc _ := true
  wsaStartup _ := true
  wsaGetLastError _ := 10054
  socket _ := some 3
  inetAddr _ := some 2130706433
  gethostbyname _ _ := none
  connect _ := true
  setsockopt _ := true
  send log buf := some ⟨min (room (sendCount log)) buf.length, by omega⟩
  recv log want :=
    if recvEnded log then some ⟨[], Nat.zero_le _⟩
    else match script[recvCount log]? with
      | some none => none
      | some (some bs) => some ⟨bs.take want, List.length_take_le _ _⟩
      | none => some ⟨[], Nat.zero_le _⟩

namespace PlainEngine

def reset (_ : Unit) (_ : List UInt8) : Bool × PlainEngine := (true, start)

theorem reset_fresh (a : Unit) (name : List UInt8) (e : PlainEngine)
    (h : reset a name = (true, e)) : history.Fresh e := by
  obtain rfl : start = e := congrArg Prod.snd h
  exact start_fresh

end PlainEngine

inductive Call where
  | write (data : List UInt8)
  | read (bufferSize : ℕ)

section Script

variable {σ α : Type} (E : Engine σ) (os : Host σ) (reset : α → List UInt8 → Bool × σ)

def runCall (fuel : ℕ) (c : Conn σ) : Call → Option (Conn σ × CallRecord)
  | .write data =>
    match wmTlsWrite E os fuel (some c) (InBuf.of data) (some 0) (some ⟨0, 0, 0, 0⟩) with
    | ⟨some ok, some c', some n, _⟩ => some (c', .write data n (some n) ok)
    | _ => none
  | .read size =>
    match wmTlsRead E os fuel (some c) true size (some 0) (some ⟨0, 0, 0, 0⟩) with
    | ⟨some ok, some c', data, some n, r⟩ => some (c', .read size data (some n) ok r)
    | _ => none

def runCalls (fuel : ℕ) (c : Conn σ) (hist : List CallRecord) :
    List Call → Option (Conn σ × List CallRecord)
  | [] => some (c, hist)
  | a :: as =>
    match runCall E os fuel c a with
    | some (c', entry) => runCalls fuel c' (hist ++ [entry]) as
    | none => none

/-- Open a connection, then make the calls; `none` where a call has not returned. -/
def runScript (fuel : ℕ) (a : α) (calls : List Call) : Option (Conn σ × List CallRecord) :=
  match wmTlsOpen E os (some a) reset fuel (some [119]) 443 none (some none) [] none with
  | ⟨some true, some (some c), _, _⟩ => runCalls E os fuel c [] calls
  | _ => none

variable {E os reset}

theorem runCall_step {fuel : ℕ} {c c' : Conn σ} {a : Call} {entry : CallRecord}
    (h : runCall E os fuel c a = some (c', entry)) : CallStep E os c entry c' := by
  cases a with
  | write data =>
    simp only [runCall] at h
    split at h
    · rename_i ok c₁ n r hw
      cases h
      exact .write hw (by rw [hw])
    · simp at h
  | read size =>
    simp only [runCall] at h
    split at h
    · rename_i ok c₁ d n r hr
      cases h
      exact .read hr
    · simp at h

theorem runCalls_run {fuel : ℕ} {calls : List Call} {c c' : Conn σ} {hist hist' : List CallRecord}
    (hr : ApiRun E os reset [] c hist) (h : runCalls E os fuel c hist calls = some (c', hist')) :
    ApiRun E os reset [] c' hist' := by
  induction calls generalizing c hist with
  | nil =>
    cases h
    exact hr
  | cons a calls ih =>
    simp only [runCalls] at h
    split at h
    · rename_i c₁ entry hc
      exact ih (hr.snoc (runCall_step hc)) h
    · simp at h

theorem runScript_run {fuel : ℕ} {a : α} {calls : List Call} {c : Conn σ}
    {hist : List CallRecord} (h : runScript E os reset fuel a calls = some (c, hist)) :
    ApiRun E os reset [] c hist := by
  simp only [runScript] at h
  split at h
  · rename_i c₁ log r ho
    exact runCalls_run (.nil ⟨_, _, _, _, _, _, _, by rw [ho], by rw [ho]⟩) h
  · simp at h

end Script

end BearTLS
