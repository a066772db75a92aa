import BearTLS.Model.Exchange

/-! The exits of `wm_tls_exchange_internal`, for a call whose arguments it accepts. -/

namespace BearTLS

open Memory

/-- An accepted call but for its response buffer. -/
structure ExchangeCall (σ : Type) where
  fuel : ℕ
  host : List UInt8
  port : ℕ
  sniHost : Option (List UInt8)
  text : List UInt8
  responseSize : ℤ
  log : Log σ
  result : ResultPtr
  room : 1 < responseSize

namespace ExchangeCall

variable {σ α : Type} (E : Engine σ) (os : Host σ) (anchors : Option α)
  (reset : α → List UInt8 → Bool × σ) (x : ExchangeCall σ)

/-- Its `wm_tls_open`. -/
def opened : OpenOut σ :=
  wmTlsOpen E os anchors reset x.fuel (some x.host) x.port x.sniHost (some none) x.log
    (wmHttpsZeroResult x.result)

/-- Its `wm_tls_write`, where the connection is open. -/
def written : WriteOut (Option (Conn σ)) :=
  wmTlsWrite E os x.fuel (x.opened E os anchors reset).outConn.join (InBuf.of x.text) (some 0)
    (x.opened E os anchors reset).result

/-- Its read loop, where the request is written. -/
def collected (m : Mem) : CollectOut σ :=
  wmTlsCollect E os x.responseSize.toNat x.fuel (x.written E os anchors reset).conn (store m 0 [0])
    0 false (x.written E os anchors reset).result

def run (m : Mem) : ExchangeOut σ :=
  wmTlsExchangeInternal E os anchors reset x.fuel (some x.host) x.port x.sniHost (some x.text)
    (some m) x.responseSize x.log x.result

/-- How the call ends, or where it still is. -/
inductive Exit (m : Mem) : ExchangeOut σ → Prop
  | opening (h : (x.opened E os anchors reset).ret ≠ some true) :
      Exit m ⟨(x.opened E os anchors reset).ret, some (store m 0 [0]),
        (x.opened E os anchors reset).log, (x.opened E os anchors reset).result⟩
  | writing (hop : (x.opened E os anchors reset).ret = some true)
      (h : (x.written E os anchors reset).ret = none) :
      Exit m ⟨none, some (store m 0 [0]),
        logAfter (x.opened E os anchors reset).log (x.written E os anchors reset).conn,
        (x.written E os anchors reset).result⟩
  | writeFailed (hop : (x.opened E os anchors reset).ret = some true)
      (h : (x.written E os anchors reset).ret = some false) :
      Exit m (wmTlsFinish E os x.fuel (x.written E os anchors reset).conn
        (x.opened E os anchors reset).log (store m 0 [0]) false
        (x.written E os anchors reset).result)
  | reading (hop : (x.opened E os anchors reset).ret = some true)
      (hw : (x.written E os anchors reset).ret = some true)
      (h : (x.collected E os anchors reset m).ret = none) :
      Exit m ⟨none, some (x.collected E os anchors reset m).response,
        logAfter (x.opened E os anchors reset).log (x.collected E os anchors reset m).conn,
        (x.collected E os anchors reset m).result⟩
  | readFailed (hop : (x.opened E os anchors reset).ret = some true)
      (hw : (x.written E os anchors reset).ret = some true)
      (h : (x.collected E os anchors reset m).ret = some false) :
      Exit m (wmTlsFinish E os x.fuel (x.collected E os anchors reset m).conn
        (x.opened E os anchors reset).log (x.collected E os anchors reset m).response false
        (x.collected E os anchors reset m).result)
  | done (hop : (x.opened E os anchors reset).ret = some true)
      (hw : (x.written E os anchors reset).ret = some true)
      (h : (x.collected E os anchors reset m).ret = some true) :
      Exit m (wmTlsFinish E os x.fuel (x.collected E os anchors reset m).conn
        (x.opened E os anchors reset).log (x.collected E os anchors reset m).response
        (x.collected E os anchors reset m).ok
        (((x.collected E os anchors reset m).result.setOk
          (if (x.collected E os anchors reset m).ok then 1 else 0)).setHttpBytes
          (x.collected E os anchors reset m).responseLen))

theorem run_exit (m : Mem) : Exit E os anchors reset x m (x.run E os anchors reset m) := by
  unfold run wmTlsExchangeInternal
  simp only [if_neg (Int.not_le.mpr x.room)]
  cases hop : (x.opened E os anchors reset).ret with
  | none =>
    have hexit := Exit.opening (E := E) (m := m) (show _ ≠ some true by rw [hop]; simp)
    rw [hop] at hexit
    unfold opened at hop hexit
    rwa [hop]
  | some ok =>
    cases ok with
    | false =>
      have hexit := Exit.opening (E := E) (m := m) (show _ ≠ some true by rw [hop]; simp)
      rw [hop] at hexit
      unfold opened at hop hexit
      rwa [hop]
    | true =>
      have hop' := hop
      unfold opened at hop'
      rw [hop']
      cases hw : (x.written E os anchors reset).ret with
      | none =>
        have hexit := Exit.writing (E := E) (m := m) hop hw
        unfold written opened at hw hexit
        dsimp only
        rwa [hw]
      | some wrote =>
        have hw' := hw
        unfold written opened at hw'
        dsimp only
        rw [hw']
        cases wrote with
        | false => exact Exit.writeFailed hop hw
        | true =>
          cases hl : (x.collected E os anchors reset m).ret with
          | none =>
            have hexit := Exit.reading (E := E) hop hw hl
            unfold collected written opened at hl hexit
            dsimp only
            rwa [hl]
          | some done =>
            have hl' := hl
            unfold collected written opened at hl'
            dsimp only
            rw [hl']
            cases done with
            | false => exact Exit.readFailed hop hw hl
            | true => exact Exit.done hop hw hl

end ExchangeCall

section Cases

variable {σ α : Type} (E : Engine σ) (os : Host σ) (anchors : Option α)
  (reset : α → List UInt8 → Bool × σ)

/-- The arguments that `wm_tls_exchange_internal` turns down. -/
def ExchangeRejected (host requestText : Option (List UInt8)) (response : Option Mem)
    (responseSize : ℤ) : Prop :=
  host = none ∨ requestText = none ∨ response = none ∨ responseSize ≤ 1

/-- A call is rejected before it looks at the response, or it runs. -/
theorem exchange_cases (fuel : ℕ) (host : Option (List UInt8)) (port : ℕ)
    (sniHost requestText : Option (List UInt8)) (response : Option Mem) (responseSize : ℤ)
    (log : Log σ) (r : ResultPtr) :
    (ExchangeRejected host requestText response responseSize ∧
      wmTlsExchangeInternal E os anchors reset fuel host port sniHost requestText response
        responseSize log r = ⟨some false, response, log, wmHttpsZeroResult r⟩) ∨
    (¬ ExchangeRejected host requestText response responseSize ∧
      ∃ x : ExchangeCall σ, host = some x.host ∧ requestText = some x.text ∧
        x.responseSize = responseSize ∧ x.log = log ∧ x.result = r ∧
        ∀ m, wmTlsExchangeInternal E os anchors reset fuel host port sniHost requestText (some m)
          responseSize log r = x.run E os anchors reset m) := by
  by_cases hrej : ExchangeRejected host requestText response responseSize
  · refine .inl ⟨hrej, ?_⟩
    cases host with
    | none => rfl
    | some host =>
      cases requestText with
      | none => rfl
      | some text =>
        cases response with
        | none => rfl
        | some m =>
          have hsize : responseSize ≤ 1 := by
            rcases hrej with h | h | h | h
            · cases h
            · cases h
            · cases h
            · exact h
          simp only [wmTlsExchangeInternal, if_pos hsize]
  · refine .inr ⟨hrej, ?_⟩
    simp only [ExchangeRejected, not_or] at hrej
    obtain ⟨hhost, htext, -, hsize⟩ := hrej
    obtain ⟨host, rfl⟩ := Option.ne_none_iff_exists'.mp hhost
    obtain ⟨text, rfl⟩ := Option.ne_none_iff_exists'.mp htext
    exact ⟨⟨fuel, host, port, sniHost, text, responseSize, log, r, Int.not_le.mp hsize⟩, rfl, rfl,
      rfl, rfl, rfl, fun _ => rfl⟩

/-- The arguments that `wm_https_request` turns down. -/
def RequestRejected (host path : Option CString) (response : Option Mem) (responseSize : ℤ) :
    Prop :=
  host = none ∨ path = none ∨ response = none ∨ responseSize ≤ 1

/-- A request is an exchange of its text, unless it is rejected. -/
theorem request_cases (fuel : ℕ) (host : Option CString) (port : UInt16)
    (method path extraHeaders body : Option CString) (response : Option Mem) (responseSize : ℤ)
    (stack : Mem) (log : Log σ) (r : ResultPtr) :
    (RequestRejected host path response responseSize ∧
      wmHttpsRequest E os anchors reset fuel host port method path extraHeaders body response
        responseSize stack log r = ⟨some false, response, log, r⟩) ∨
    (¬ RequestRejected host path response responseSize ∧
      ∃ x : ExchangeCall σ, x.responseSize = responseSize ∧ x.log = log ∧ x.result = r ∧
        ∀ m, wmHttpsRequest E os anchors reset fuel host port method path extraHeaders body (some m)
          responseSize stack log r = x.run E os anchors reset m) := by
  by_cases hrej : RequestRejected host path response responseSize
  · refine .inl ⟨hrej, ?_⟩
    have htext : wmHttpsRequestText host port method path extraHeaders body response responseSize
        stack = none := by
      rw [wmHttpsRequestText, if_pos]
      simpa only [RequestRejected, Option.isNone_iff_eq_none] using hrej
    simp only [wmHttpsRequest, htext]
  · refine .inr ⟨hrej, ?_⟩
    simp only [RequestRejected, not_or] at hrej
    obtain ⟨hhost, hpath, -, hsize⟩ := hrej
    obtain ⟨host, rfl⟩ := Option.ne_none_iff_exists'.mp hhost
    have hsame : ∀ m m' : Mem, wmHttpsRequestText (some host) port method path extraHeaders body
        (some m) responseSize stack = wmHttpsRequestText (some host) port method path extraHeaders
        body (some m') responseSize stack := by
      intro m m'
      simp only [wmHttpsRequestText, Option.isNone_some]
    obtain ⟨text, htext⟩ : ∃ text, wmHttpsRequestText (some host) port method path extraHeaders body
        (some fun _ => 0) responseSize stack = some text := by
      rw [← Option.ne_none_iff_exists']
      intro hnone
      unfold wmHttpsRequestText at hnone
      split_ifs at hnone with hargs
      simp [hpath, hsize] at hargs
    refine ⟨⟨fuel, host.bytes, port.toNat, some host.bytes, text, responseSize, log, r,
      Int.not_le.mp hsize⟩, rfl, rfl, rfl, fun m => ?_⟩
    simp only [wmHttpsRequest, (hsame m _).trans htext]
    rfl

end Cases

end BearTLS
