import BearTLS.Model.Engine

/-! The operating system under `wm_https.c`: Winsock, the process heap, and the
log of what the library has done with them. Every answer of the system may
depend on everything done before, so one `Host` is one network schedule. -/

namespace BearTLS

abbrev Socket := ℕ

/-- One action of the library, with the answer it got. `recv` keeps the engine
state at the moment of the call. -/
inductive Event (σ : Type) where
  | heapAlloc (ok : Bool)
  | heapFree
  | wsaStartup (ok : Bool)
  | wsaCleanup
  | socket (sock : Option Socket)
  | closesocket (sock : Socket)
  | gethostbyname (host : List UInt8) (addr : Option ℕ)
  | connect (sock : Socket) (addr port : ℕ) (ok : Bool)
  | setsockopt (sock : Socket) (ok : Bool)
  | send (sock : Option Socket) (buf : List UInt8) (wr : Option ℕ)
  | recv (sock : Option Socket) (eng : σ) (want : ℕ) (rd : Option (List UInt8))
  | sendapp (data : List UInt8)
  | recvapp (data : List UInt8)

abbrev Log (σ : Type) := List (Event σ)

/-- The answers of the system. `send` accepts at most what it is offered and
`recv` returns at most what is wanted; `none` is SOCKET_ERROR. -/
structure Host (σ : Type) where
  heapAlloc : Log σ → Bool
  wsaStartup : Log σ → Bool
  wsaGetLastError : Log σ → ℤ
  socket : Log σ → Option Socket
  inetAddr : List UInt8 → Option ℕ
  gethostbyname : Log σ → List UInt8 → Option ℕ
  connect : Log σ → Bool
  setsockopt : Log σ → Bool
  send : Log σ → (buf : List UInt8) → Option (Fin (buf.length + 1))
  recv : Log σ → (want : ℕ) → Option {bs : List UInt8 // bs.length ≤ want}

/-- `wm_https_result`. -/
structure WmHttpsResult where
  ok : ℤ
  tlsError : ℤ
  wsaError : ℤ
  httpBytes : ℤ
deriving DecidableEq, Repr

/-- A result pointer is NULL or points to a structure. -/
abbrev ResultPtr := Option WmHttpsResult

def ResultPtr.setOk (r : ResultPtr) (v : ℤ) : ResultPtr := r.map fun x => { x with ok := v }

def ResultPtr.setTlsError (r : ResultPtr) (v : ℤ) : ResultPtr :=
  r.map fun x => { x with tlsError := v }

def ResultPtr.setWsaError (r : ResultPtr) (v : ℤ) : ResultPtr :=
  r.map fun x => { x with wsaError := v }

def ResultPtr.setHttpBytes (r : ResultPtr) (v : ℤ) : ResultPtr :=
  r.map fun x => { x with httpBytes := v }

def wmHttpsZeroResult (r : ResultPtr) : ResultPtr := r.map fun _ => ⟨0, 0, 0, 0⟩

section Null

variable (r : ResultPtr) (v : ℤ)

@[simp] theorem ResultPtr.setOk_null : r.setOk v = none ↔ r = none := Option.map_eq_none_iff

@[simp] theorem ResultPtr.setTlsError_null : r.setTlsError v = none ↔ r = none :=
  Option.map_eq_none_iff

@[simp] theorem ResultPtr.setWsaError_null : r.setWsaError v = none ↔ r = none :=
  Option.map_eq_none_iff

@[simp] theorem ResultPtr.setHttpBytes_null : r.setHttpBytes v = none ↔ r = none :=
  Option.map_eq_none_iff

@[simp] theorem zeroResult_null : wmHttpsZeroResult r = none ↔ r = none := Option.map_eq_none_iff

end Null

/-- The bytes that `send` accepted, in order. -/
def sentBytes {σ : Type} : Log σ → List UInt8
  | [] => []
  | .send _ buf (some n) :: l => buf.take n ++ sentBytes l
  | _ :: l => sentBytes l

/-- The bytes that `recv` returned, in order. -/
def receivedBytes {σ : Type} : Log σ → List UInt8
  | [] => []
  | .recv _ _ _ (some bs) :: l => bs ++ receivedBytes l
  | _ :: l => receivedBytes l

/-- The plaintext handed to the engine, in order. -/
def sendappBytes {σ : Type} : Log σ → List UInt8
  | [] => []
  | .sendapp d :: l => d ++ sendappBytes l
  | _ :: l => sendappBytes l

/-- The plaintext taken from the engine, in order. -/
def recvappBytes {σ : Type} : Log σ → List UInt8
  | [] => []
  | .recvapp d :: l => d ++ recvappBytes l
  | _ :: l => recvappBytes l

section LogLemmas

variable {σ : Type} (l m : Log σ)

@[simp] theorem sentBytes_append : sentBytes (l ++ m) = sentBytes l ++ sentBytes m := by
  induction l with
  | nil => rfl
  | cons ev l ih =>
    cases ev with
    | send s buf wr => cases wr <;> simp [sentBytes, ih]
    | _ => simpa [sentBytes] using ih

@[simp] theorem receivedBytes_append :
    receivedBytes (l ++ m) = receivedBytes l ++ receivedBytes m := by
  induction l with
  | nil => rfl
  | cons ev l ih =>
    cases ev with
    | recv s e want rd => cases rd <;> simp [receivedBytes, ih]
    | _ => simpa [receivedBytes] using ih

@[simp] theorem sendappBytes_append :
    sendappBytes (l ++ m) = sendappBytes l ++ sendappBytes m := by
  induction l with
  | nil => rfl
  | cons ev l ih => cases ev <;> simp [sendappBytes, ih]

@[simp] theorem recvappBytes_append :
    recvappBytes (l ++ m) = recvappBytes l ++ recvappBytes m := by
  induction l with
  | nil => rfl
  | cons ev l ih => cases ev <;> simp [recvappBytes, ih]

end LogLemmas

end BearTLS
