import BearTLS.Proofs.Exchange
import BearTLS.Proofs.TwoRuns
import BearTLS.Sanity.PlainEngine
import BearTLS.Sanity.Schedules

/-! What the entry points leave in the structures their callers pass: the `ok`
field is the return value, except where a call is rejected before it has set up
its outputs. -/

namespace BearTLS

open Memory

variable {σ α : Type} {E : Engine σ} {os : Host σ} {anchors : Option α}
  {reset : α → List UInt8 → Bool × σ}

section Ok

/-- The `ok` field. -/
def ResultPtr.ok (r : ResultPtr) : Option ℤ := r.map WmHttpsResult.ok

/-- The `ok` field where there is one: the return value `b`. -/
def ResultPtr.okFor (r : ResultPtr) (b : Bool) : Option ℤ := r.map fun _ => if b then 1 else 0

variable {r r' : ResultPtr}

theorem setOk_ok (r : ResultPtr) (b : Bool) : (r.setOk (if b then 1 else 0)).ok = r.okFor b := by
  cases r <;> rfl

theorem zeroResult_ok (r : ResultPtr) : (wmHttpsZeroResult r).ok = r.okFor false := by
  cases r <;> rfl

theorem zeroResult_okFor (r : ResultPtr) (b : Bool) :
    (wmHttpsZeroResult r).okFor b = r.okFor b := by
  cases r <;> rfl

theorem okFor_of_ok {b : Bool} (h : r.ok = r'.okFor b) (b' : Bool) :
    r.okFor b' = r'.okFor b' := by
  cases r <;> cases r' <;> first | rfl | cases h

theorem okFor_trans {b : Bool} (h : r.ok = r'.ok) : r.okFor b = r'.okFor b := by
  cases r <;> cases r' <;> first | rfl | cases h

theorem drive_ok (fuel : ℕ) (c : Conn σ) (r : ResultPtr) :
    (wmTlsDriveRecords E os fuel c r).result.ok = r.ok :=
  drive_field (fun _ _ => rfl) (fun _ _ => rfl) fuel c r

variable (os) in
theorem connect_ok (host : List UInt8) (port : ℕ) (log : Log σ) (r : ResultPtr) :
    (wmHttpsConnectIpv4 os host port log r).result.ok = r.ok := by
  have hset : ∀ (s : ResultPtr) (v : ℤ), (s.setWsaError v).ok = s.ok := by
    intro s v
    cases s <;> rfl
  simp only [wmHttpsConnectIpv4]
  split_ifs
  · rw [hset, hset]
  cases os.socket (log ++ [.wsaStartup true]) with
  | none => rw [hset, hset]
  | some sock =>
    dsimp only
    split
    · rw [hset, hset]
    · split_ifs <;> simp only [hset]

variable (E os) in
theorem handshake_ok (fuel : ℕ) (c : Conn σ) (r : ResultPtr) :
    (wmTlsHandshake E os fuel c r).result.ok = r.ok := by
  induction fuel generalizing c r with
  | zero => rfl
  | succ fuel ih =>
    have hd : (wmTlsDriveRecords E os fuel c r).result.ok = r.ok := drive_ok fuel c r
    simp only [wmTlsHandshake]
    split_ifs
    · rfl
    · cases (wmTlsDriveRecords E os fuel c r).ret with
      | none => exact hd
      | some ok =>
        dsimp only
        split_ifs
        · exact hd
        · exact (ih _ _).trans hd

end Ok

section Open

/-- An open that returns has stored its return value, and a failed one has cleared
`*out_conn` unless the host is NULL. -/
theorem open_out {fuel : ℕ} {host : Option (List UInt8)} {port : ℕ}
    {sniHost : Option (List UInt8)} {outConn : Option (Option (Conn σ))} {log : Log σ}
    {r : ResultPtr} {b : Bool}
    (h : (wmTlsOpen E os anchors reset fuel host port sniHost outConn log r).ret = some b) :
    let o := wmTlsOpen E os anchors reset fuel host port sniHost outConn log r
    o.result.ok = r.okFor b ∧
      (b = false → o.outConn = if host = none then outConn else outConn.map fun _ => none) := by
  simp only [wmTlsOpen] at h ⊢
  cases host with
  | none =>
    obtain rfl := Option.some.inj h
    exact ⟨zeroResult_ok r, fun _ => rfl⟩
  | some host =>
    cases outConn with
    | none =>
      obtain rfl := Option.some.inj h
      exact ⟨zeroResult_ok r, fun _ => rfl⟩
    | some oc =>
      rw [if_neg (Option.some_ne_none host)]
      dsimp only at h ⊢
      split_ifs at h ⊢ with ha
      · obtain rfl := Option.some.inj h
        exact ⟨zeroResult_ok r, fun _ => rfl⟩
      have hcn := (connect_ok os host port (log ++ [.heapAlloc true])
        (wmHttpsZeroResult r)).trans (zeroResult_ok r)
      set cn := wmHttpsConnectIpv4 os host port (log ++ [.heapAlloc true]) (wmHttpsZeroResult r)
      cases hs : cn.sock with
      | none =>
        rw [hs] at h
        obtain rfl := Option.some.inj h
        exact ⟨hcn, fun _ => rfl⟩
      | some sock =>
        rw [hs] at h
        cases anchors with
        | none =>
          obtain rfl := Option.some.inj h
          exact ⟨hcn, fun _ => rfl⟩
        | some a =>
          dsimp only at h ⊢
          split_ifs at h ⊢ with hok
          · obtain rfl := Option.some.inj h
            refine ⟨Eq.trans ?_ hcn, fun _ => rfl⟩
            cases cn.result <;> rfl
          · set c₀ : Conn σ := ⟨some sock, _, false, cn.log⟩
            have hhs := (handshake_ok E os fuel c₀ cn.result).trans hcn
            cases hr : (wmTlsHandshake E os fuel c₀ cn.result).ret with
            | none =>
              rw [hr] at h
              cases h
            | some done =>
              rw [hr] at h
              cases done with
              | false =>
                obtain rfl := Option.some.inj h
                exact ⟨hhs, fun _ => rfl⟩
              | true =>
                obtain rfl := Option.some.inj h
                exact ⟨(setOk_ok _ true).trans (okFor_of_ok hhs true), by simp⟩

end Open

section Calls

theorem write_loop_ok {data : List UInt8} {fuel sent : ℕ} {c : Conn σ} {bw : Option ℕ}
    {r : ResultPtr} {b : Bool} (h0 : r.ok = r.okFor false)
    (h : (wmTlsWriteLoop E os data fuel sent c bw r).ret = some b) :
    (wmTlsWriteLoop E os data fuel sent c bw r).result.ok = r.okFor b := by
  induction fuel generalizing sent c bw r with
  | zero => cases h
  | succ fuel ih =>
    rcases Nat.lt_or_ge sent data.length with hs | hs
    · cases hc : (E.currentState c.eng).closed with
      | true =>
        rw [write_loop_closed data fuel sent c bw r hs hc] at h ⊢
        obtain rfl := Option.some.inj h
        refine Eq.trans ?_ h0
        cases r <;> rfl
      | false =>
        by_cases hchunk : writeChunk E data sent c.eng = []
        · have hd : (wmTlsDriveRecords E os fuel c r).result.ok = r.ok := drive_ok fuel c r
          rw [write_loop_drive data fuel sent c bw r hs hc hchunk] at h ⊢
          cases hr : (wmTlsDriveRecords E os fuel c none).ret with
          | none =>
            rw [hr] at h
            cases h
          | some ok =>
            rw [hr] at h
            dsimp only at h ⊢
            split_ifs at h ⊢
            · obtain rfl := Option.some.inj h
              exact hd.trans h0
            · have hsame := okFor_trans (b := false) hd
              rw [ih (by rw [hd, h0, hsame]) h]
              exact okFor_trans hd
        · rw [write_loop_sendapp data fuel sent c bw r hs hc hchunk] at h ⊢
          exact ih h0 h
    · rw [write_loop_done data fuel sent c bw r hs] at h ⊢
      obtain rfl := Option.some.inj h
      exact setOk_ok r true

theorem write_ok {fuel : ℕ} {conn : Option (Conn σ)} {data : InBuf} {bw : Option ℕ}
    {r : ResultPtr} {b : Bool} (h : (wmTlsWrite E os fuel conn data bw r).ret = some b) :
    (wmTlsWrite E os fuel conn data bw r).result.ok = r.okFor b := by
  cases conn with
  | none =>
    obtain rfl := Option.some.inj h
    exact zeroResult_ok r
  | some c =>
    simp only [wmTlsWrite] at h ⊢
    split_ifs at h ⊢
    · obtain rfl := Option.some.inj h
      exact zeroResult_ok r
    · rw [write_loop_ok ((zeroResult_ok r).trans (zeroResult_okFor r false).symm) h]
      exact zeroResult_okFor r b

theorem read_loop_ok {size fuel : ℕ} {c : Conn σ} {br : Option ℕ} {r : ResultPtr} {b : Bool}
    (h0 : r.ok = r.okFor false) (h : (wmTlsReadLoop E os size fuel c br r).ret = some b) :
    (wmTlsReadLoop E os size fuel c br r).result.ok = r.okFor b := by
  induction fuel generalizing c r with
  | zero => cases h
  | succ fuel ih =>
    cases hc : (E.currentState c.eng).closed with
    | true =>
      rw [read_loop_closed size fuel c br r hc] at h ⊢
      obtain rfl := Option.some.inj h
      cases r with
      | none => rfl
      | some x => by_cases herr : E.lastError c.eng = 0 <;> simp [herr, ResultPtr.ok,
          ResultPtr.okFor, ResultPtr.setOk, ResultPtr.setTlsError]
    | false =>
      rcases Nat.eq_zero_or_pos (readTake E size c.eng) with ht | ht
      · have hd : (wmTlsDriveRecords E os fuel c r).result.ok = r.ok := drive_ok fuel c r
        rw [read_loop_drive size fuel c br r hc ht] at h ⊢
        cases hr : (wmTlsDriveRecords E os fuel c none).ret with
        | none =>
          rw [hr] at h
          cases h
        | some done =>
          rw [hr] at h
          cases done with
          | false =>
            obtain rfl := Option.some.inj h
            exact hd.trans h0
          | true =>
            dsimp only at h ⊢
            split_ifs at h ⊢
            · obtain rfl := Option.some.inj h
              exact (setOk_ok _ true).trans (okFor_trans hd)
            · have hsame := okFor_trans (b := false) hd
              rw [ih (by rw [hd, h0, hsame]) h]
              exact okFor_trans hd
      · rw [read_loop_deliver size fuel c br r hc ht] at h ⊢
        obtain rfl := Option.some.inj h
        cases r <;> rfl

theorem read_ok {fuel : ℕ} {conn : Option (Conn σ)} {buffer : Bool} {size : ℕ} {br : Option ℕ}
    {r : ResultPtr} {b : Bool} (h : (wmTlsRead E os fuel conn buffer size br r).ret = some b) :
    (wmTlsRead E os fuel conn buffer size br r).result.ok = r.okFor b := by
  cases conn with
  | none =>
    obtain rfl := Option.some.inj h
    exact zeroResult_ok r
  | some c =>
    simp only [wmTlsRead] at h ⊢
    split_ifs at h ⊢
    · obtain rfl := Option.some.inj h
      exact zeroResult_ok r
    · rw [read_loop_ok ((zeroResult_ok r).trans (zeroResult_okFor r false).symm) h]
      exact zeroResult_okFor r b

end Calls

section Exchange

theorem collect_ok {responseSize fuel : ℕ} {conn : Option (Conn σ)} {response : Mem} {len : ℕ}
    {ok : Bool} {r : ResultPtr} {b : Bool}
    (h : (wmTlsCollect E os responseSize fuel conn response len ok r).ret = some b) :
    (wmTlsCollect E os responseSize fuel conn response len ok r).result.ok = r.okFor b := by
  induction fuel generalizing conn response len ok r with
  | zero => cases h
  | succ fuel ih =>
    simp only [wmTlsCollect] at h ⊢
    cases hr : (wmTlsRead E os fuel conn true (responseSize - len - 1) (some 0) r).ret with
    | none =>
      rw [hr] at h
      cases h
    | some done =>
      have hread := read_ok hr
      rw [hr] at h
      cases done with
      | false =>
        obtain rfl := Option.some.inj h
        exact hread
      | true =>
        dsimp only at h ⊢
        split_ifs at h ⊢
        · obtain rfl := Option.some.inj h
          exact hread
        · obtain rfl := Option.some.inj h
          exact hread
        · exact (ih h).trans (okFor_of_ok hread b)

theorem finish_ret {fuel : ℕ} {conn : Option (Conn σ)} {log : Log σ} {response : Mem}
    {ret b : Bool} {r : ResultPtr}
    (h : (wmTlsFinish E os fuel conn log response ret r).ret = some b) : b = ret := by
  obtain ⟨_, -, hb⟩ := Option.map_eq_some_iff.mp h
  exact hb.symm

/-- An exchange that returns has stored its return value. -/
theorem exchange_ok {fuel : ℕ} {host : Option (List UInt8)} {port : ℕ}
    {sniHost requestText : Option (List UInt8)} {response : Option Mem} {responseSize : ℤ}
    {log : Log σ} {r : ResultPtr} {b : Bool}
    (h : (wmTlsExchangeInternal E os anchors reset fuel host port sniHost requestText response
      responseSize log r).ret = some b) :
    (wmTlsExchangeInternal E os anchors reset fuel host port sniHost requestText response
      responseSize log r).result.ok = r.okFor b := by
  rcases exchange_cases E os anchors reset fuel host port sniHost requestText response responseSize
    log r with ⟨-, heq⟩ | ⟨hacc, x, -, -, -, -, rfl, heq⟩
  · rw [heq] at h ⊢
    obtain rfl := Option.some.inj h
    exact zeroResult_ok r
  obtain ⟨m, rfl⟩ : ∃ m, response = some m := by
    rw [← Option.ne_none_iff_exists']
    exact fun hnull => hacc (.inr (.inr (.inl hnull)))
  rw [heq] at h ⊢
  have hopen : ∀ {b}, (x.opened E os anchors reset).ret = some b →
      (x.opened E os anchors reset).result.ok = x.result.okFor b := fun hret =>
    (open_out hret).1.trans (zeroResult_okFor _ _)
  have hwrite : ∀ {b}, (x.opened E os anchors reset).ret = some true →
      (x.written E os anchors reset).ret = some b →
      (x.written E os anchors reset).result.ok = x.result.okFor b := fun hop hret =>
    (write_ok hret).trans (okFor_of_ok (hopen hop) _)
  have hcollect : ∀ {b}, (x.opened E os anchors reset).ret = some true →
      (x.written E os anchors reset).ret = some true →
      (x.collected E os anchors reset m).ret = some b →
      (x.collected E os anchors reset m).result.ok = x.result.okFor b := fun hop hw hret =>
    (collect_ok hret).trans (okFor_of_ok (hwrite hop hw) _)
  have hexit := x.run_exit E os anchors reset m
  generalize x.run E os anchors reset m = o at h hexit ⊢
  cases hexit with
  | opening _ => exact hopen h
  | writing => cases h
  | reading => cases h
  | writeFailed hop hw =>
    obtain rfl := finish_ret h
    exact hwrite hop hw
  | readFailed hop hw hl =>
    obtain rfl := finish_ret h
    exact hcollect hop hw hl
  | done hop hw hl =>
    obtain rfl := finish_ret h
    rw [← okFor_of_ok (hcollect hop hw hl), ← setOk_ok]
    dsimp only [wmTlsFinish]
    generalize (x.collected E os anchors reset m).result.setOk _ = r
    cases r <;> rfl

end Exchange

section Agreement

/-- What the caller of a call that has returned `ret` should find in its result. -/
structure WmHttpsResult.Agrees (y : WmHttpsResult) (ret : Bool) (rejected : Prop) : Prop where
  ok : y.ok = if ret then 1 else 0
  zero : rejected → y = ⟨0, 0, 0, 0⟩

theorem agrees_of_ok {r : ResultPtr} {x : WmHttpsResult} {ret : Bool} {rejected : Prop}
    (h : r.ok = ResultPtr.okFor (some x) ret) (hzero : rejected → r = some ⟨0, 0, 0, 0⟩) :
    ∃ y, r = some y ∧ y.Agrees ret rejected := by
  obtain ⟨y, rfl, hy⟩ := Option.map_eq_some_iff.mp h
  exact ⟨y, rfl, hy, fun hrej => Option.some.inj (hzero hrej)⟩

theorem request_agrees_iff {fuel : ℕ} {host : Option CString} {port : UInt16}
    {method path extraHeaders body : Option CString} {response : Option Mem} {responseSize : ℤ}
    {stack : Mem} {log : Log σ} {x : WmHttpsResult} {ret : Bool}
    (h : (wmHttpsRequest E os anchors reset fuel host port method path extraHeaders body response
      responseSize stack log (some x)).ret = some ret) :
    (∃ y, (wmHttpsRequest E os anchors reset fuel host port method path extraHeaders body response
        responseSize stack log (some x)).result = some y ∧
      y.Agrees ret (RequestRejected host path response responseSize)) ↔
    ¬ RequestRejected host path response responseSize ∨ x = ⟨0, 0, 0, 0⟩ := by
  rcases request_cases E os anchors reset fuel host port method path extraHeaders body response
    responseSize stack log (some x) with ⟨hrej, heq⟩ | ⟨hacc, c, -, -, hr, heq⟩
  · rw [heq] at h ⊢
    obtain rfl := Option.some.inj h
    constructor
    · rintro ⟨y, hy, hagrees⟩
      obtain rfl := Option.some.inj hy
      exact .inr (hagrees.zero hrej)
    · rintro (hnot | rfl)
      · exact absurd hrej hnot
      · exact ⟨_, rfl, rfl, fun _ => rfl⟩
  · refine iff_of_true ?_ (.inl hacc)
    obtain ⟨m, rfl⟩ : ∃ m, response = some m := by
      rw [← Option.ne_none_iff_exists']
      exact fun hnull => hacc (.inr (.inr (.inl hnull)))
    rw [heq] at h ⊢
    have hok : (c.run E os anchors reset m).result.ok = c.result.okFor ret := exchange_ok h
    rw [hr] at hok
    exact agrees_of_ok hok fun hrej => absurd hrej hacc

/-- The outputs agree with the return value, but for an open without a host, which
leaves `*out_conn`, and a request that is rejected, which leaves the result. -/
theorem out_params_iff (E : Engine σ) (os : Host σ) (anchors : Option α)
    (reset : α → List UInt8 → Bool × σ) :
    (∀ fuel host port sniHost outConn log x ret,
      let o := wmTlsOpen E os anchors reset fuel host port sniHost outConn log (some x)
      o.ret = some ret →
        ((∃ y, o.result = some y ∧ y.Agrees ret (host = none ∨ outConn = none)) ∧
            (ret = false → outConn ≠ none → o.outConn = some none) ↔
          host ≠ none ∨ outConn = none ∨ outConn = some none)) ∧
    (∀ fuel conn data bw x ret,
      let o := wmTlsWrite E os fuel conn data bw (some x)
      o.ret = some ret →
        ∃ y, o.result = some y ∧ y.Agrees ret (conn = none ∨ data.ptr = none ∧ 0 < data.len)) ∧
    (∀ fuel conn buffer size br x ret,
      let o := wmTlsRead E os fuel conn buffer size br (some x)
      o.ret = some ret →
        ∃ y, o.result = some y ∧ y.Agrees ret (conn = none ∨ buffer = false ∨ size = 0)) ∧
    (∀ fuel host port sniHost requestText response responseSize log x ret,
      let o := wmTlsExchange E os anchors reset fuel host port sniHost requestText response
        responseSize log (some x)
      o.ret = some ret → ∃ y, o.result = some y ∧
        y.Agrees ret (ExchangeRejected host requestText response responseSize)) ∧
    (∀ fuel host port method path extraHeaders body response responseSize stack log x ret,
      let o := wmHttpsRequest E os anchors reset fuel host port method path extraHeaders body
        response responseSize stack log (some x)
      o.ret = some ret →
        ((∃ y, o.result = some y ∧
            y.Agrees ret (RequestRejected host path response responseSize)) ↔
          ¬ RequestRejected host path response responseSize ∨ x = ⟨0, 0, 0, 0⟩)) ∧
    (∀ fuel host port path response responseSize stack log x ret,
      let o := wmHttpsGet E os anchors reset fuel host port path response responseSize stack log
        (some x)
      o.ret = some ret →
        ((∃ y, o.result = some y ∧
            y.Agrees ret (RequestRejected host path response responseSize)) ↔
          ¬ RequestRejected host path response responseSize ∨ x = ⟨0, 0, 0, 0⟩)) := by
  refine ⟨?_, ?_, ?_, ?_, ?_, ?_⟩
  · intro fuel host port sniHost outConn log x ret o hret
    obtain ⟨hok, hconn⟩ := open_out hret
    have hagrees : ∃ y, o.result = some y ∧ y.Agrees ret (host = none ∨ outConn = none) := by
      refine agrees_of_ok hok ?_
      rintro (rfl | rfl)
      · rfl
      · cases host <;> rfl
    constructor
    · rintro ⟨-, hcleared⟩
      cases host with
      | some host => exact .inl (Option.some_ne_none host)
      | none =>
        obtain rfl := Option.some.inj hret
        rcases outConn with _ | oc
        · exact .inr (.inl rfl)
        · exact .inr (.inr (hcleared rfl (Option.some_ne_none oc)))
    · intro hcond
      refine ⟨hagrees, fun hf hne => ?_⟩
      rw [hconn hf]
      obtain ⟨oc, rfl⟩ := Option.ne_none_iff_exists'.mp hne
      rcases hcond with hhost | hnull | hsome
      · rw [if_neg hhost, Option.map_some]
      · exact absurd hnull hne
      · rw [hsome, Option.map_some, ite_self]
  · intro fuel conn data bw x ret o hret
    refine agrees_of_ok (write_ok hret) ?_
    rintro (rfl | hdata)
    · rfl
    · cases conn with
      | none => rfl
      | some c =>
        dsimp only [o, wmTlsWrite]
        rw [if_pos hdata]
        rfl
  · intro fuel conn buffer size br x ret o hret
    refine agrees_of_ok (read_ok hret) ?_
    rintro (rfl | hargs)
    · rfl
    · cases conn with
      | none => rfl
      | some c =>
        dsimp only [o, wmTlsRead]
        rw [if_pos hargs]
        rfl
  · intro fuel host port sniHost requestText response responseSize log x ret o hret
    refine agrees_of_ok (exchange_ok hret) fun hrej => ?_
    rcases exchange_cases E os anchors reset fuel host port sniHost requestText response
      responseSize log (some x) with ⟨-, heq⟩ | ⟨hacc, -⟩
    · exact congrArg ExchangeOut.result heq
    · exact absurd hrej hacc
  · intro fuel host port method path extraHeaders body response responseSize stack log x ret o
      hret
    exact request_agrees_iff hret
  · intro fuel host port path response responseSize stack log x ret o hret
    exact request_agrees_iff hret

open PlainEngine in
/-- An open without a host leaves the connection pointer of an earlier call, and a
request without one leaves its result. -/
theorem rejected_calls_leave_outputs :
    let c : Conn PlainEngine := ⟨some 7, start, true, []⟩
    (wmTlsOpen engine (scriptHost (fun _ => 2) []) (some ()) PlainEngine.reset 1 none 443 none
      (some (some c)) [] (some ⟨1, 0, 0, 5⟩)).ret = some false ∧
    (wmTlsOpen engine (scriptHost (fun _ => 2) []) (some ()) PlainEngine.reset 1 none 443 none
      (some (some c)) [] (some ⟨1, 0, 0, 5⟩)).outConn ≠ some none ∧
    (wmHttpsRequest engine (scriptHost (fun _ => 2) []) (some ()) PlainEngine.reset 1 none 443
      none none none none (some fun _ => 0) 16 (fun _ => 0) [] (some ⟨1, 0, 0, 5⟩)).ret =
      some false ∧
    (wmHttpsRequest engine (scriptHost (fun _ => 2) []) (some ()) PlainEngine.reset 1 none 443
      none none none none (some fun _ => 0) 16 (fun _ => 0) [] (some ⟨1, 0, 0, 5⟩)).result =
      some ⟨1, 0, 0, 5⟩ := by
  refine ⟨rfl, ?_, rfl, rfl⟩
  intro h
  cases h

end Agreement

end BearTLS
