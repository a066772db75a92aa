import BearTLS.Model.Host

/-! The streaming TLS calls of `wm_https.c`, from `wm_https_connect_ipv4` to
`wm_tls_close`. Loops take fuel; a call that runs out of it has returned
nothing yet (`ret = none`) and keeps the state it has reached, so a statement
about every amount of fuel is one about every moment of every call. -/

namespace BearTLS

def WM_HTTPS_RECV_CHUNK : ℕ := 1024

def WSAHOST_NOT_FOUND : ℤ := 11001

/-- `struct wm_tls_connection`, with the log of the process. `sock` is `none`
for INVALID_SOCKET. -/
structure Conn (σ : Type) where
  sock : Option Socket
  eng : σ
  closed : Bool
  log : Log σ

def Conn.did {σ : Type} (c : Conn σ) (ev : Event σ) : Conn σ := { c with log := c.log ++ [ev] }

@[simp] theorem Conn.did_eng {σ : Type} (c : Conn σ) (ev : Event σ) : (c.did ev).eng = c.eng := rfl

structure Out (σ : Type) where
  ret : Option Bool
  conn : Conn σ
  result : ResultPtr

/-- A pointer to `len` readable bytes, or NULL with any length. -/
structure InBuf where
  ptr : Option (List UInt8)
  len : ℕ
  valid : ∀ bs, ptr = some bs → bs.length = len

def InBuf.bytes (b : InBuf) : List UInt8 := b.ptr.getD []

def InBuf.of (bs : List UInt8) : InBuf := ⟨some bs, bs.length, by rintro _ ⟨⟩; rfl⟩

section Connect

variable {σ : Type} (os : Host σ)

structure ConnectOut (σ : Type) where
  sock : Option Socket
  log : Log σ
  result : ResultPtr

/-- `out_wsa_error` is NULL or points at the `wsa_error` of the result. -/
def wmHttpsConnectIpv4 (host : List UInt8) (port : ℕ) (log : Log σ) (r : ResultPtr) :
    ConnectOut σ :=
  let r := r.setWsaError 0
  if os.wsaStartup log = false then
    let log := log ++ [.wsaStartup false]
    ⟨none, log, r.setWsaError (os.wsaGetLastError log)⟩
  else
    let log := log ++ [.wsaStartup true]
    match os.socket log with
    | none =>
      let log := log ++ [.socket none]
      ⟨none, log ++ [.wsaCleanup], r.setWsaError (os.wsaGetLastError log)⟩
    | some sock =>
      let log := log ++ [.socket (some sock)]
      let lookup : Option ℕ × Log σ := match os.inetAddr host with
        | some addr => (some addr, log)
        | none =>
          (os.gethostbyname log host, log ++ [.gethostbyname host (os.gethostbyname log host)])
      match lookup with
      | (none, log) =>
        let err := os.wsaGetLastError log
        ⟨none, log ++ [.closesocket sock, .wsaCleanup],
          r.setWsaError (if err = 0 then WSAHOST_NOT_FOUND else err)⟩
      | (some addr, log) =>
        if os.connect log = false then
          let log := log ++ [.connect sock addr port false]
          ⟨none, log ++ [.closesocket sock, .wsaCleanup],
            r.setWsaError (os.wsaGetLastError log)⟩
        else
          let log := log ++ [.connect sock addr port true]
          -- the receive timeout is optional: a rejected option only clears the error
          let timeout := os.setsockopt log
          let log := log ++ [.setsockopt sock timeout]
          ⟨some sock, log, if timeout then r else r.setWsaError 0⟩

def wmHttpsDisconnect (sock : Option Socket) (log : Log σ) : Log σ :=
  (match sock with
    | some s => log ++ [.closesocket s]
    | none => log) ++ [.wsaCleanup]

end Connect

section Driver

variable {σ : Type} (E : Engine σ) (os : Host σ)

def wmTlsSendPendingRecords : ℕ → Conn σ → ResultPtr → Out σ
  | 0, c, r => ⟨none, c, r⟩
  | fuel + 1, c, r =>
    let buf := E.sendrecBuf c.eng
    if 0 < buf.length then
      let wr := (os.send c.log buf).map Fin.val
      let c := c.did (.send c.sock buf wr)
      if wr.getD 0 = 0 then
        ⟨some false, c, r.setWsaError (os.wsaGetLastError c.log)⟩
      else
        wmTlsSendPendingRecords fuel { c with eng := E.sendrecAck c.eng (wr.getD 0) } r
    else ⟨some true, c, r⟩

def wmTlsRecvPendingRecords (c : Conn σ) (r : ResultPtr) : Out σ :=
  let len := E.recvrecBuf c.eng
  if len = 0 then ⟨some true, c, r⟩
  else
    let want := if len < WM_HTTPS_RECV_CHUNK then len else WM_HTTPS_RECV_CHUNK
    let rd := (os.recv c.log want).map Subtype.val
    let c := c.did (.recv c.sock c.eng want rd)
    match rd with
    | none => ⟨some false, c, r.setWsaError (os.wsaGetLastError c.log)⟩
    | some [] => ⟨some true, { c with closed := true }, r⟩
    | some (b :: bs) => ⟨some true, { c with eng := E.recvrecAck c.eng (b :: bs) }, r⟩

def wmTlsDriveRecords (fuel : ℕ) (c : Conn σ) (r : ResultPtr) : Out σ :=
  let state := E.currentState c.eng
  if state.closed then
    ⟨some false, { c with closed := true }, r.setTlsError (E.lastError c.eng)⟩
  else if state.sendrec then wmTlsSendPendingRecords E os fuel c r
  else if state.recvrec then wmTlsRecvPendingRecords E os c r
  else ⟨some true, c, r⟩

/-- The `while (1)` of `wm_tls_open`; `some true` is its `break`. -/
def wmTlsHandshake : ℕ → Conn σ → ResultPtr → Out σ
  | 0, c, r => ⟨none, c, r⟩
  | fuel + 1, c, r =>
    let state := E.currentState c.eng
    if state.sendapp || state.recvapp then ⟨some true, c, r⟩
    else
      let o := wmTlsDriveRecords E os fuel c r
      match o.ret with
      | none => o
      | some ok =>
        if !ok || o.conn.closed then ⟨some false, o.conn, o.result⟩
        else wmTlsHandshake fuel o.conn o.result

structure OpenOut (σ : Type) where
  ret : Option Bool
  outConn : Option (Option (Conn σ))
  log : Log σ
  result : ResultPtr

/-- `anchors` is what `wm_cert_store_init` leaves behind, `none` where it
returns 0; `reset` is the engine set-up from `br_ssl_client_init_full` to
`br_ssl_client_reset`, with the value the latter returns. `outConn` is NULL or
points to a connection pointer. -/
def wmTlsOpen {α : Type} (anchors : Option α) (reset : α → List UInt8 → Bool × σ) (fuel : ℕ)
    (host : Option (List UInt8)) (port : ℕ) (sniHost : Option (List UInt8))
    (outConn : Option (Option (Conn σ))) (log : Log σ) (result : ResultPtr) : OpenOut σ :=
  let r := wmHttpsZeroResult result
  match host, outConn with
  | none, _ => ⟨some false, outConn, log, r⟩
  | some _, none => ⟨some false, none, log, r⟩
  | some host, some _ =>
    if os.heapAlloc log = false then ⟨some false, some none, log ++ [.heapAlloc false], r⟩
    else
      let sniName := match sniHost with
        | some (b :: bs) => b :: bs
        | _ => host
      let cn := wmHttpsConnectIpv4 os host port (log ++ [.heapAlloc true]) r
      match cn.sock with
      | none => ⟨some false, some none, cn.log ++ [.heapFree], cn.result⟩
      | some sock =>
        match anchors with
        | none =>
          ⟨some false, some none, wmHttpsDisconnect (some sock) cn.log ++ [.heapFree], cn.result⟩
        | some a =>
          let (ok, eng) := reset a sniName
          if ok = false then
            ⟨some false, some none, wmHttpsDisconnect (some sock) cn.log ++ [.heapFree],
              cn.result.setTlsError (E.lastError eng)⟩
          else
            let hs := wmTlsHandshake E os fuel ⟨some sock, eng, false, cn.log⟩ cn.result
            match hs.ret with
            | none => ⟨none, some none, hs.conn.log, hs.result⟩
            | some false =>
              ⟨some false, some none, wmHttpsDisconnect hs.conn.sock hs.conn.log ++ [.heapFree],
                hs.result⟩
            | some true =>
              ⟨some true, some (some hs.conn), hs.conn.log, hs.result.setOk 1⟩

structure WriteOut (γ : Type) where
  ret : Option Bool
  conn : γ
  bytesWritten : Option ℕ
  result : ResultPtr

def wmTlsWriteLoop (data : List UInt8) :
    ℕ → ℕ → Conn σ → Option ℕ → ResultPtr → WriteOut (Conn σ)
  | 0, _, c, bw, r => ⟨none, c, bw, r⟩
  | fuel + 1, sent, c, bw, r =>
    if sent < data.length then
      let state := E.currentState c.eng
      if state.closed then
        ⟨some false, { c with closed := true }, bw, r.setTlsError (E.lastError c.eng)⟩
      else
        let take := if data.length - sent > E.sendappBuf c.eng then E.sendappBuf c.eng
          else data.length - sent
        if state.sendapp && 0 < take then
          let chunk := (data.drop sent).take take
          let eng := E.flush (E.sendappAck c.eng chunk)
          wmTlsWriteLoop data fuel (sent + take) ({ c with eng := eng }.did (.sendapp chunk))
            (bw.map fun _ => sent + take) r
        else
          let o := wmTlsDriveRecords E os fuel c r
          match o.ret with
          | none => ⟨none, o.conn, bw, o.result⟩
          | some ok =>
            if !ok || o.conn.closed then ⟨some false, o.conn, bw, o.result⟩
            else wmTlsWriteLoop data fuel sent o.conn bw o.result
    else ⟨some true, c, bw, r.setOk 1⟩

def wmTlsWrite (fuel : ℕ) (conn : Option (Conn σ)) (data : InBuf) (bytesWritten : Option ℕ)
    (result : ResultPtr) : WriteOut (Option (Conn σ)) :=
  let r := wmHttpsZeroResult result
  let bw := bytesWritten.map fun _ => 0
  match conn with
  | none => ⟨some false, none, bw, r⟩
  | some c =>
    if data.ptr = none ∧ 0 < data.len then ⟨some false, some c, bw, r⟩
    else
      let o := wmTlsWriteLoop E os data.bytes fuel 0 c bw r
      ⟨o.ret, some o.conn, o.bytesWritten, o.result⟩

structure ReadOut (γ : Type) where
  ret : Option Bool
  conn : γ
  -- what the call has stored at `buffer`
  data : List UInt8
  bytesRead : Option ℕ
  result : ResultPtr

def wmTlsReadLoop (bufferSize : ℕ) :
    ℕ → Conn σ → Option ℕ → ResultPtr → ReadOut (Conn σ)
  | 0, c, br, r => ⟨none, c, [], br, r⟩
  | fuel + 1, c, br, r =>
    let state := E.currentState c.eng
    if state.closed then
      let err := E.lastError c.eng
      let r' := (r.setTlsError err).setOk (if err = 0 then 1 else 0)
      ⟨some (r = none || err = 0), { c with closed := true }, [], br, r'⟩
    else
      let buf := E.recvappBuf c.eng
      let take := if buf.length > bufferSize then bufferSize else buf.length
      if state.recvapp && 0 < take then
        let c := { c with eng := E.recvappAck c.eng take }.did (.recvapp (buf.take take))
        ⟨some true, c, buf.take take, br.map fun _ => take, (r.setOk 1).setHttpBytes take⟩
      else
        let o := wmTlsDriveRecords E os fuel c r
        match o.ret with
        | none => ⟨none, o.conn, [], br, o.result⟩
        | some false => ⟨some false, o.conn, [], br, o.result⟩
        | some true =>
          if o.conn.closed then ⟨some true, o.conn, [], br, o.result.setOk 1⟩
          else wmTlsReadLoop bufferSize fuel o.conn br o.result

/-- `buffer` says whether the pointer is non-NULL; it has `bufferSize` bytes. -/
def wmTlsRead (fuel : ℕ) (conn : Option (Conn σ)) (buffer : Bool) (bufferSize : ℕ)
    (bytesRead : Option ℕ) (result : ResultPtr) : ReadOut (Option (Conn σ)) :=
  let r := wmHttpsZeroResult result
  let br := bytesRead.map fun _ => 0
  match conn with
  | none => ⟨some false, none, [], br, r⟩
  | some c =>
    if buffer = false ∨ bufferSize = 0 then ⟨some false, some c, [], br, r⟩
    else
      let o := wmTlsReadLoop E os bufferSize fuel c br r
      ⟨o.ret, some o.conn, o.data, o.bytesRead, o.result⟩

/-- The drain of `wm_tls_close`; it ends when no record is pending or a send fails. -/
def wmTlsCloseDrain : ℕ → Conn σ → Option Unit × Conn σ
  | 0, c => (none, c)
  | fuel + 1, c =>
    if (E.currentState c.eng).sendrec then
      let o := wmTlsSendPendingRecords E os fuel c none
      match o.ret with
      | none => (none, o.conn)
      | some false => (some (), o.conn)
      | some true => wmTlsCloseDrain fuel o.conn
    else (some (), c)

/-- Returns the last state of the connection, which the call has freed. -/
def wmTlsClose (fuel : ℕ) (conn : Option (Conn σ)) : Option Unit × Option (Conn σ) :=
  match conn with
  | none => (some (), none)
  | some c =>
    let d := if c.closed then (some (), c)
      else wmTlsCloseDrain E os fuel { c with eng := E.close c.eng }
    match d.1 with
    | none => (none, some d.2)
    | some () =>
      (some (), some { d.2 with log := wmHttpsDisconnect d.2.sock d.2.log ++ [.heapFree] })

end Driver

end BearTLS
