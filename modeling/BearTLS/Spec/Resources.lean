import BearTLS.Lib.Holdings
import BearTLS.Model.Exchange
import Mathlib.Logic.Relation

/-! What a connection owns, and runs of a caller with any number of connections:
it opens, writes, reads and closes them in any order, with one-shot exchanges in
between, and touches no connection that it has closed. -/

namespace BearTLS

open Holdings Memory Relation

/-- A reference on Winsock, an open socket, the heap block of a `wm_tls_connection`. -/
inductive Resource where
  | winsock
  | socket (s : Socket)
  | block
deriving DecidableEq, Repr

/-- What an event does to resources. The socket calls need a started Winsock;
an established connection lives in its block. -/
def Event.actions {σ : Type} : Event σ → List (Action Resource)
  | .heapAlloc ok => if ok then [.acquire .block] else []
  | .heapFree => [.release .block]
  | .wsaStartup ok => if ok then [.acquire .winsock] else []
  | .wsaCleanup => [.release .winsock]
  | .socket none => [.use .winsock]
  | .socket (some s) => [.use .winsock, .acquire (.socket s)]
  | .closesocket s => [.use .winsock, .release (.socket s)]
  | .gethostbyname _ _ => [.use .winsock]
  | .connect s _ _ _ => [.use .winsock, .use (.socket s)]
  | .setsockopt s _ => [.use .winsock, .use (.socket s)]
  | .send sock _ _ => .use .block :: .use .winsock :: sock.toList.map fun s => .use (.socket s)
  | .recv sock _ _ _ => .use .block :: .use .winsock :: sock.toList.map fun s => .use (.socket s)
  | .sendapp _ => [.use .block]
  | .recvapp _ => [.use .block]

def actionsOf {σ : Type} (l : Log σ) : List (Action Resource) := l.flatMap Event.actions

@[simp] theorem actionsOf_nil {σ : Type} : actionsOf ([] : Log σ) = [] := rfl

@[simp] theorem actionsOf_cons {σ : Type} (ev : Event σ) (l : Log σ) :
    actionsOf (ev :: l) = ev.actions ++ actionsOf l := rfl

@[simp] theorem actionsOf_append {σ : Type} (l m : Log σ) :
    actionsOf (l ++ m) = actionsOf l ++ actionsOf m :=
  List.flatMap_append

/-- What a connection owns; INVALID_SOCKET is no socket. -/
def Conn.resources {σ : Type} (c : Conn σ) : Multiset Resource :=
  .block ::ₘ .winsock ::ₘ (c.sock.toList.map Resource.socket : List Resource)

section Balance

variable {σ : Type}

/-- Between two moments of the log, what is held goes from `h` to `h'`, and no
resource is acquired more than `n` times. -/
def Balance (n : ℕ) (log log' : Log σ) (h h' : Multiset Resource) : Prop :=
  ∃ evs, log' = log ++ evs ∧ Moves h (actionsOf evs) h' ∧
    ∀ r, (actionsOf evs).count (.acquire r) ≤ n

/-- From `c` to `c'`, what `c` owns is used and nothing is acquired or released. -/
def OnlyUses (c c' : Conn σ) : Prop :=
  c'.sock = c.sock ∧ ∃ evs, c'.log = c.log ++ evs ∧
    ∀ a ∈ actionsOf evs, ∃ r ∈ c.resources, a = .use r

end Balance

/-- The state of the process: its log, each event with the connection it was done
for, and the open connections by number. -/
structure World (σ : Type) where
  journal : List (ℕ × Event σ)
  conns : List (ℕ × Conn σ)
  next : ℕ

namespace World

variable {σ : Type} (w : World σ)

def start : World σ := ⟨[], [], 0⟩

def log : Log σ := w.journal.map Prod.snd

def actions : List (Action (ℕ × Resource)) := w.journal.flatMap fun e => tagged e.1 e.2.actions

/-- What the open connections own. -/
def held : Multiset (ℕ × Resource) := (w.conns.map fun e => owned e.1 e.2.resources).sum

/-- No resource has been used or released that was not held, and none has been
released twice. -/
def Sound : Prop :=
  (∃ h, Moves 0 w.actions h) ∧ ∀ x, w.actions.count (.release x) ≤ 1

/-- A call for connection `i` that leaves the log `log'`. -/
def serve (i : ℕ) (log' : Log σ) (conns : List (ℕ × Conn σ)) : World σ :=
  ⟨w.journal ++ (log'.drop w.log.length).map (Prod.mk i), conns, max w.next (i + 1)⟩

end World

section Calls

variable {σ : Type} (E : Engine σ) (os : Host σ) (α : Type)

/-- One call, with whether it has returned. A call that has not is at any moment of it. -/
inductive Served (w : World σ) : Bool → World σ → Prop
  | opened {anchors : Option α} {reset : α → List UInt8 → Bool × σ} {fuel : ℕ}
      {host : Option (List UInt8)} {port : ℕ} {sniHost : Option (List UInt8)}
      {outConn : Option (Option (Conn σ))} {r : ResultPtr} {o : OpenOut σ} {c : Conn σ}
      (ho : o = wmTlsOpen E os anchors reset fuel host port sniHost outConn w.log r)
      (hret : o.ret = some true) (hc : o.outConn = some (some c)) :
      Served w true (w.serve w.next o.log ((w.next, c) :: w.conns))
  | notOpened {anchors : Option α} {reset : α → List UInt8 → Bool × σ} {fuel : ℕ}
      {host : Option (List UInt8)} {port : ℕ} {sniHost : Option (List UInt8)}
      {outConn : Option (Option (Conn σ))} {r : ResultPtr} {o : OpenOut σ}
      (ho : o = wmTlsOpen E os anchors reset fuel host port sniHost outConn w.log r)
      (hret : o.ret ≠ some true) :
      Served w o.ret.isSome (w.serve w.next o.log w.conns)
  | write {pre post : List (ℕ × Conn σ)} {i fuel : ℕ} {c c' : Conn σ} {data : InBuf}
      {bw : Option ℕ} {r : ResultPtr} {o : WriteOut (Option (Conn σ))}
      (hw : w.conns = pre ++ (i, c) :: post)
      (ho : o = wmTlsWrite E os fuel (some { c with log := w.log }) data bw r)
      (hc : o.conn = some c') :
      Served w o.ret.isSome (w.serve i c'.log (pre ++ (i, c') :: post))
  | read {pre post : List (ℕ × Conn σ)} {i fuel size : ℕ} {c c' : Conn σ} {buffer : Bool}
      {br : Option ℕ} {r : ResultPtr} {o : ReadOut (Option (Conn σ))}
      (hw : w.conns = pre ++ (i, c) :: post)
      (ho : o = wmTlsRead E os fuel (some { c with log := w.log }) buffer size br r)
      (hc : o.conn = some c') :
      Served w o.ret.isSome (w.serve i c'.log (pre ++ (i, c') :: post))
  | closed {pre post : List (ℕ × Conn σ)} {i fuel : ℕ} {c c' : Conn σ}
      (hw : w.conns = pre ++ (i, c) :: post)
      (hd : wmTlsClose E os fuel (some { c with log := w.log }) = (some (), some c')) :
      Served w true (w.serve i c'.log (pre ++ post))
  | closing {pre post : List (ℕ × Conn σ)} {i fuel : ℕ} {c c' : Conn σ}
      (hw : w.conns = pre ++ (i, c) :: post)
      (hd : wmTlsClose E os fuel (some { c with log := w.log }) = (none, some c')) :
      Served w false (w.serve i c'.log (pre ++ (i, c') :: post))
  | exchange {anchors : Option α} {reset : α → List UInt8 → Bool × σ} {fuel : ℕ}
      {host : Option (List UInt8)} {port : ℕ} {sniHost requestText : Option (List UInt8)}
      {response : Option Mem} {responseSize : ℤ} {r : ResultPtr} {o : ExchangeOut σ}
      (ho : o = wmTlsExchange E os anchors reset fuel host port sniHost requestText response
        responseSize w.log r) :
      Served w o.ret.isSome (w.serve w.next o.log w.conns)
  | request {anchors : Option α} {reset : α → List UInt8 → Bool × σ} {fuel : ℕ}
      {host : Option CString} {port : UInt16} {method path extraHeaders body : Option CString}
      {response : Option Mem} {responseSize : ℤ} {stack : Mem} {r : ResultPtr} {o : ExchangeOut σ}
      (ho : o = wmHttpsRequest E os anchors reset fuel host port method path extraHeaders body
        response responseSize stack w.log r) :
      Served w o.ret.isSome (w.serve w.next o.log w.conns)

/-- The worlds between two calls. -/
def Reachable (w : World σ) : Prop :=
  ReflTransGen (fun w w' => Served E os α w true w') World.start w

end Calls

end BearTLS
