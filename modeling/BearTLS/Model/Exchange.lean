import BearTLS.Model.Connection
import BearTLS.Model.Request

/-! The one-shot exchanges of `wm_https.c`: `wm_tls_exchange_internal` over the
streaming calls, and the three entry points above it. -/

namespace BearTLS

open Memory

/-- The log of the process, in the connection where there is one. -/
def logAfter {σ : Type} (log : Log σ) (conn : Option (Conn σ)) : Log σ :=
  (conn.map Conn.log).getD log

structure ExchangeOut (σ : Type) where
  ret : Option Bool
  response : Option Mem
  log : Log σ
  result : ResultPtr

/-- The `while (1)` of `wm_tls_exchange_internal`; `some true` is its `break`. -/
structure CollectOut (σ : Type) where
  ret : Option Bool
  conn : Option (Conn σ)
  response : Mem
  responseLen : ℕ
  ok : Bool
  result : ResultPtr

section Exchange

variable {σ α : Type} (E : Engine σ) (os : Host σ)

def wmTlsCollect (responseSize : ℕ) :
    ℕ → Option (Conn σ) → Mem → ℕ → Bool → ResultPtr → CollectOut σ
  | 0, conn, response, responseLen, ok, r => ⟨none, conn, response, responseLen, ok, r⟩
  | fuel + 1, conn, response, responseLen, ok, r =>
    let o := wmTlsRead E os fuel conn true (responseSize - responseLen - 1) (some 0) r
    let response := store response responseLen o.data
    let got := o.bytesRead.getD 0
    match o.ret with
    | none => ⟨none, o.conn, response, responseLen, ok, o.result⟩
    | some false => ⟨some false, o.conn, response, responseLen, ok, o.result⟩
    | some true =>
      if got = 0 then ⟨some true, o.conn, response, responseLen, ok, o.result⟩
      else
        let responseLen := responseLen + got
        let response := store response responseLen [0]
        if responseLen ≥ responseSize - 1 then
          ⟨some true, o.conn, response, responseLen, true, o.result⟩
        else wmTlsCollect responseSize fuel o.conn response responseLen true o.result

/-- What follows `wm_tls_close` in the exchange; `ret` is what it then returns. -/
def wmTlsFinish (fuel : ℕ) (conn : Option (Conn σ)) (log : Log σ) (response : Mem) (ret : Bool)
    (r : ResultPtr) : ExchangeOut σ :=
  let d := wmTlsClose E os fuel conn
  ⟨d.1.map fun _ => ret, some response, logAfter log d.2, r⟩

variable (anchors : Option α) (reset : α → List UInt8 → Bool × σ)

/-- `responseSize` is an `int`; `requestText` is a C string or NULL. -/
def wmTlsExchangeInternal (fuel : ℕ) (host : Option (List UInt8)) (port : ℕ)
    (sniHost requestText : Option (List UInt8)) (response : Option Mem) (responseSize : ℤ)
    (log : Log σ) (result : ResultPtr) : ExchangeOut σ :=
  let r := wmHttpsZeroResult result
  match host, requestText, response with
  | some host, some requestText, some response =>
    if responseSize ≤ 1 then ⟨some false, some response, log, r⟩
    else
      let response := store response 0 [0]
      let op := wmTlsOpen E os anchors reset fuel (some host) port sniHost (some none) log r
      match op.ret with
      | none => ⟨none, some response, op.log, op.result⟩
      | some false => ⟨some false, some response, op.log, op.result⟩
      | some true =>
        let w := wmTlsWrite E os fuel op.outConn.join (InBuf.of requestText) (some 0) op.result
        match w.ret with
        | none => ⟨none, some response, logAfter op.log w.conn, w.result⟩
        | some false => wmTlsFinish E os fuel w.conn op.log response false w.result
        | some true =>
          let l := wmTlsCollect E os responseSize.toNat fuel w.conn response 0 false w.result
          match l.ret with
          | none => ⟨none, some l.response, logAfter op.log l.conn, l.result⟩
          | some false => wmTlsFinish E os fuel l.conn op.log l.response false l.result
          | some true =>
            wmTlsFinish E os fuel l.conn op.log l.response l.ok
              ((l.result.setOk (if l.ok then 1 else 0)).setHttpBytes l.responseLen)
  | _, _, response => ⟨some false, response, log, r⟩

def wmTlsExchange (fuel : ℕ) (host : Option (List UInt8)) (port : ℕ)
    (sniHost requestText : Option (List UInt8)) (response : Option Mem) (responseSize : ℤ)
    (log : Log σ) (result : ResultPtr) : ExchangeOut σ :=
  wmTlsExchangeInternal E os anchors reset fuel host port sniHost requestText response responseSize
    log result

/-- `stack` is what the request array held before. -/
def wmHttpsRequest (fuel : ℕ) (host : Option CString) (port : UInt16)
    (method path extraHeaders body : Option CString) (response : Option Mem) (responseSize : ℤ)
    (stack : Mem) (log : Log σ) (result : ResultPtr) : ExchangeOut σ :=
  match wmHttpsRequestText host port method path extraHeaders body response responseSize stack with
  | none => ⟨some false, response, log, result⟩
  | some request =>
    let name := host.map CString.bytes
    wmTlsExchangeInternal E os anchors reset fuel name port.toNat name (some request) response
      responseSize log result

def wmHttpsGet (fuel : ℕ) (host : Option CString) (port : UInt16) (path : Option CString)
    (response : Option Mem) (responseSize : ℤ) (stack : Mem) (log : Log σ) (result : ResultPtr) :
    ExchangeOut σ :=
  wmHttpsRequest E os anchors reset fuel host port (some ⟨ascii "GET", by decide, by decide⟩) path
    none none response responseSize stack log result

end Exchange

end BearTLS
