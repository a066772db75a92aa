import BearTLS.Proofs.TwoRuns
import BearTLS.Sanity.Schedules

/-! The result pointer and the behaviour of the five entry points. -/

namespace BearTLS

open Fuel Memory Relation

variable {σ α : Type} (E : Engine σ) (os : Host σ) (anchors : Option α)
  (reset : α → List UInt8 → Bool × σ)

section Exchange

variable (host : Option (List UInt8)) (port : ℕ) (sniHost requestText : Option (List UInt8))
  (response : Option Mem) (responseSize : ℤ) (log : Log σ)

/-- The exchange gets as far as its read loop, with the connection `c`. -/
def ExchangeStarts (host text : List UInt8) (c : Conn σ) : Prop :=
  ∃ fuel c₀,
    (wmTlsOpen E os anchors reset fuel (some host) port sniHost (some none) log none).ret =
      some true ∧
    (wmTlsOpen E os anchors reset fuel (some host) port sniHost (some none) log none).outConn =
      some (some c₀) ∧
    (wmTlsWrite E os fuel (some c₀) (InBuf.of text) (some 0) none).ret = some true ∧
    (wmTlsWrite E os fuel (some c₀) (InBuf.of text) (some 0) none).conn = some c

/-- The exchange stores at least one byte of the response, and then an error
closes the engine. -/
def ExchangeErrs : Prop :=
  ∃ h text m c, host = some h ∧ requestText = some text ∧ response = some m ∧ 1 < responseSize ∧
    ExchangeStarts E os anchors reset port sniHost log h text c ∧
    ErrorAfterData E os responseSize.toNat c

/-- Return value, response and log. -/
def ExchangeOut.Agree (o o' : ExchangeOut σ) : Prop :=
  o.ret = o'.ret ∧ o.response = o'.response ∧ o.log = o'.log

variable {E os} in
/-- A write that succeeds had a connection. -/
theorem write_conn {fuel : ℕ} {conn : Option (Conn σ)} {data : InBuf} {bw : Option ℕ}
    {r : ResultPtr} (h : (wmTlsWrite E os fuel conn data bw r).ret = some true) :
    ∃ c₀ c, conn = some c₀ ∧ (wmTlsWrite E os fuel conn data bw r).conn = some c := by
  cases conn with
  | none => cases h
  | some c₀ =>
    rw [wmTlsWrite]
    dsimp only
    split_ifs
    · exact ⟨c₀, c₀, rfl, rfl⟩
    · exact ⟨c₀, _, rfl, rfl⟩

/-- The exchange from its read loop on. -/
def exchangeTail (fuel : ℕ) (base : Log σ) (c : Conn σ) (m : Mem) (r : ResultPtr) : ExchangeOut σ :=
  let l := wmTlsCollect E os responseSize.toNat fuel (some c) m 0 false r
  match l.ret with
  | none => ⟨none, some l.response, logAfter base l.conn, l.result⟩
  | some false => wmTlsFinish E os fuel l.conn base l.response false l.result
  | some true => wmTlsFinish E os fuel l.conn base l.response l.ok
      ((l.result.setOk (if l.ok then 1 else 0)).setHttpBytes l.responseLen)

theorem exchange_tail_agree (hsize : 1 < responseSize) (fuel : ℕ) (base : Log σ) {c : Conn σ}
    (m : Mem) (r : ResultPtr) (h : ¬ ErrorAfterData E os responseSize.toNat c) :
    (exchangeTail E os responseSize fuel base c m r).Agree
      (exchangeTail E os responseSize fuel base c m none) := by
  obtain ⟨hconn, hresponse, hlen, hok, hret⟩ := collect_two_runs (E := E) fuel c m false r
    (show 0 < responseSize.toNat - 1 by omega)
  simp only [exchangeTail]
  rw [hconn, hresponse, hlen, hok]
  rcases hret with hsame | ⟨hfalse, htrue, n, c', hsteps, hn, herr, hstored⟩
  · rw [hsame]
    cases (wmTlsCollect E os responseSize.toNat fuel (some c) m 0 false none).ret with
    | none => exact ⟨rfl, rfl, rfl⟩
    | some done => cases done <;> exact ⟨rfl, rfl, rfl⟩
  · -- the runs part only where no byte is stored yet: then both return false
    have hnone : ¬ 0 < n := fun hpos => h ⟨n, c', hsteps, hpos, hn, herr⟩
    have hnot : (wmTlsCollect E os responseSize.toNat fuel (some c) m 0 false none).ok = false := by
      rw [← hok, Bool.eq_false_iff]
      intro hl
      exact (hstored hl).elim Bool.false_ne_true hnone
    rw [hfalse, htrue, hnot]
    exact ⟨rfl, rfl, rfl⟩

/-- The exchange with its arguments in order. -/
theorem exchange_opened_agree {host text : List UInt8} (fuel : ℕ) (x : WmHttpsResult) (m : Mem)
    (hsize : 1 < responseSize)
    (h : ∀ {c}, ExchangeStarts E os anchors reset port sniHost log host text c →
      ¬ ErrorAfterData E os responseSize.toNat c) :
    (wmTlsExchangeInternal E os anchors reset fuel (some host) port sniHost (some text) (some m)
      responseSize log (some x)).Agree
    (wmTlsExchangeInternal E os anchors reset fuel (some host) port sniHost (some text) (some m)
      responseSize log none) := by
  obtain ⟨hret, hout, hlog⟩ := open_result E os anchors reset fuel (some host) port sniHost
    (some none) log (wmHttpsZeroResult (some x)) (wmHttpsZeroResult none)
  have hnull : (wmTlsOpen E os anchors reset fuel (some host) port sniHost (some none) log
      (wmHttpsZeroResult none)).result = none :=
    (open_null E os anchors reset fuel _ _ _ _ _ _).mpr rfl
  simp only [wmTlsExchangeInternal, if_neg (Int.not_le.mpr hsize), hret, hout, hlog, hnull]
  set op := wmTlsOpen E os anchors reset fuel (some host) port sniHost (some none) log
    (wmHttpsZeroResult (some x))
  set op' := wmTlsOpen E os anchors reset fuel (some host) port sniHost (some none) log
    (wmHttpsZeroResult none)
  cases hor : op'.ret with
  | none => exact ⟨rfl, rfl, rfl⟩
  | some opened =>
    cases opened with
    | false => exact ⟨rfl, rfl, rfl⟩
    | true =>
      obtain ⟨hwret, hwconn, -⟩ := write_result E os fuel op'.outConn.join (InBuf.of text)
        (some 0) op.result none
      dsimp only
      simp only [hwret, hwconn, (write_null E os fuel _ _ _ none).mpr rfl]
      cases hwr : (wmTlsWrite E os fuel op'.outConn.join (InBuf.of text) (some 0) none).ret with
      | none => exact ⟨rfl, rfl, rfl⟩
      | some wrote =>
        cases wrote with
        | false => exact ⟨rfl, rfl, rfl⟩
        | true =>
          obtain ⟨c₀, c, hc₀, hwc⟩ := write_conn hwr
          rw [hwc]
          exact exchange_tail_agree E os responseSize hsize fuel op'.log _ _ (h ⟨fuel, c₀, hor,
            Option.join_eq_some_iff.mp hc₀, hc₀ ▸ hwr, hc₀ ▸ hwc⟩)

theorem exchange_agree (fuel : ℕ) (x : WmHttpsResult)
    (h : ¬ ExchangeErrs E os anchors reset host port sniHost requestText response responseSize
      log) :
    (wmTlsExchangeInternal E os anchors reset fuel host port sniHost requestText response
      responseSize log (some x)).Agree
    (wmTlsExchangeInternal E os anchors reset fuel host port sniHost requestText response
      responseSize log none) := by
  cases host with
  | none => exact ⟨rfl, rfl, rfl⟩
  | some host =>
    cases requestText with
    | none => exact ⟨rfl, rfl, rfl⟩
    | some text =>
      cases response with
      | none => exact ⟨rfl, rfl, rfl⟩
      | some m =>
        by_cases hsize : responseSize ≤ 1
        · simp only [wmTlsExchangeInternal, if_pos hsize]
          exact ⟨rfl, rfl, rfl⟩
        exact exchange_opened_agree E os anchors reset port sniHost responseSize log fuel x m
          (Int.not_le.mp hsize) fun hstart herr => h ⟨host, text, m, _, rfl, rfl, rfl,
            Int.not_le.mp hsize, hstart, herr⟩

/-- With enough fuel the exchange reaches its read loop, for any result pointer. -/
theorem exchange_collects {h text : List UInt8} {m : Mem} {c : Conn σ} (hsize : 1 < responseSize)
    (hstart : ExchangeStarts E os anchors reset port sniHost log h text c) :
    ∃ n, ∀ fuel ≥ n, ∀ r : ResultPtr, ∃ (base : Log σ) (r' : ResultPtr), (r' = none ↔ r = none) ∧
      wmTlsExchangeInternal E os anchors reset fuel (some h) port sniHost (some text) (some m)
        responseSize log r = exchangeTail E os responseSize fuel base c (store m 0 [0]) r' := by
  obtain ⟨n, c₀, hopen, hout, hwrite, hconn⟩ := hstart
  refine ⟨n, fun fuel hfuel r => ?_⟩
  have hop := (open_settles E os anchors reset (some h) port sniHost (some none) log none).eq_of_le
    (show _ ≠ none by simp [hopen]) hfuel
  have hwr := (write_settles E os (some c₀) (InBuf.of text) (some 0) none).eq_of_le
    (show _ ≠ none by simp [hwrite]) hfuel
  rw [← hop] at hopen hout
  rw [← hwr] at hwrite hconn
  obtain ⟨hret, hout', hlog⟩ := open_result E os anchors reset fuel (some h) port sniHost
    (some none) log (wmHttpsZeroResult r) none
  have hnull := open_null E os anchors reset fuel (some h) port sniHost (some none) log
    (wmHttpsZeroResult r)
  rw [hopen] at hret
  rw [hout] at hout'
  have hargs : ¬ responseSize ≤ 1 := by omega
  simp only [wmTlsExchangeInternal, if_neg hargs, hret, hout', Option.join_some]
  set op := wmTlsOpen E os anchors reset fuel (some h) port sniHost (some none) log
    (wmHttpsZeroResult r)
  obtain ⟨hwret, hwconn, -⟩ := write_result E os fuel (some c₀) (InBuf.of text) (some 0)
    op.result none
  have hwnull := write_null E os fuel (some c₀) (InBuf.of text) (some 0) op.result
  rw [hwrite] at hwret
  rw [hconn] at hwconn
  simp only [hwret, hwconn]
  refine ⟨op.log, _, hwnull.trans (hnull.trans (zeroResult_null r)), ?_⟩
  rfl

theorem exchange_disagree
    (h : ExchangeErrs E os anchors reset host port sniHost requestText response responseSize log) :
    ∃ (fuel : ℕ) (x : WmHttpsResult),
      (wmTlsExchangeInternal E os anchors reset fuel host port sniHost requestText response
        responseSize log (some x)).ret = some false ∧
      (wmTlsExchangeInternal E os anchors reset fuel host port sniHost requestText response
        responseSize log none).ret = some true := by
  obtain ⟨host, text, m, c, rfl, rfl, rfl, hsize, hstart, n, c', hsteps, hpos, hroom, herr⟩ := h
  obtain ⟨k, hreach⟩ := exchange_collects E os anchors reset port sniHost responseSize log
    (m := m) hsize hstart
  obtain ⟨cend, hclosed, k', hcollect⟩ := collect_meets_error hsteps hroom herr
  refine ⟨max k k', ⟨0, 0, 0, 0⟩, ?_, ?_⟩
  · obtain ⟨base, r', hnull, heq⟩ := hreach (max k k') (le_max_left _ _) (some ⟨0, 0, 0, 0⟩)
    obtain ⟨hret, hconn, -⟩ := hcollect (max k k') (le_max_right _ _) (store m 0 [0]) false r'
    cases r' with
    | none => exact absurd (hnull.mp rfl) (by simp)
    | some x =>
      rw [heq, exchangeTail]
      dsimp only at hret hconn ⊢
      rw [hret, hconn]
      simp [wmTlsFinish, wmTlsClose, hclosed]
  · obtain ⟨base, r', hnull, heq⟩ := hreach (max k k') (le_max_left _ _) none
    obtain ⟨hret, hconn, hok⟩ := hcollect (max k k') (le_max_right _ _) (store m 0 [0]) false r'
    obtain rfl := hnull.mpr rfl
    rw [heq, exchangeTail]
    dsimp only at hret hconn hok ⊢
    rw [hret, hconn, hok]
    simp [wmTlsFinish, wmTlsClose, hclosed, hpos]

theorem exchange_agree_iff :
    (∀ (fuel : ℕ) (x : WmHttpsResult),
      (wmTlsExchangeInternal E os anchors reset fuel host port sniHost requestText response
        responseSize log (some x)).Agree
      (wmTlsExchangeInternal E os anchors reset fuel host port sniHost requestText response
        responseSize log none)) ↔
    ¬ ExchangeErrs E os anchors reset host port sniHost requestText response responseSize log := by
  constructor
  · intro hagree herr
    obtain ⟨fuel, x, hfalse, htrue⟩ := exchange_disagree E os anchors reset host port sniHost
      requestText response responseSize log herr
    exact absurd (hfalse.symm.trans ((hagree fuel x).1.trans htrue)) (by simp)
  · intro h fuel x
    exact exchange_agree E os anchors reset host port sniHost requestText response responseSize log
      fuel x h

end Exchange

section Read

variable (c : Conn σ) (buffer : Bool) (size : ℕ) (br : Option ℕ)

/-- Return value, connection with its log, bytes stored and `*bytes_read`. -/
def ReadOut.Agree (o o' : ReadOut (Option (Conn σ))) : Prop :=
  o.ret = o'.ret ∧ o.conn = o'.conn ∧ o.data = o'.data ∧ o.bytesRead = o'.bytesRead

theorem read_agree_iff :
    (∀ (fuel : ℕ) (x : WmHttpsResult),
      (wmTlsRead E os fuel (some c) buffer size br (some x)).Agree
        (wmTlsRead E os fuel (some c) buffer size br none)) ↔
    ¬ (buffer = true ∧ 0 < size ∧ MeetsError E os size c) := by
  constructor
  · rintro hagree ⟨rfl, hsize, herr⟩
    obtain ⟨c', -, n, hread⟩ := read_meets_error E os herr
    obtain ⟨hret, -⟩ := hread n (Nat.le_refl _) (br.map fun _ => 0) (some ⟨0, 0, 0, 0⟩)
    obtain ⟨hret', -⟩ := hread n (Nat.le_refl _) (br.map fun _ => 0) none
    have h := (hagree n ⟨0, 0, 0, 0⟩).1
    rw [read_eq E os hsize, read_eq E os hsize] at h
    exact absurd (hret.symm.trans (h.trans hret')) (by simp)
  · intro h fuel x
    by_cases hargs : buffer = true ∧ 0 < size
    · obtain ⟨rfl, hsize⟩ := hargs
      obtain ⟨hconn, hdata, hbr, -, hret⟩ := read_two_runs E os hsize fuel c br (some x)
      exact ⟨hret.resolve_right fun hd => h ⟨rfl, hsize, hd.2.2.2⟩, hconn, hdata, hbr⟩
    · have hnull : buffer = false ∨ size = 0 := by
        rcases Nat.eq_zero_or_pos size with h0 | h0
        · exact .inr h0
        · exact .inl (by simpa using fun hb => hargs ⟨hb, h0⟩)
      simp only [wmTlsRead, if_pos hnull]
      exact ⟨rfl, rfl, rfl, rfl⟩

end Read

/-- The result pointer changes nothing but where an error closes the engine: in a
read, and in an exchange whose response has begun. -/
theorem result_pointer_iff :
    (∀ fuel host port sniHost outConn log x,
      let o := wmTlsOpen E os anchors reset fuel host port sniHost outConn log (some x)
      let o' := wmTlsOpen E os anchors reset fuel host port sniHost outConn log none
      o.ret = o'.ret ∧ o.outConn = o'.outConn ∧ o.log = o'.log) ∧
    (∀ fuel conn data bw x,
      let o := wmTlsWrite E os fuel conn data bw (some x)
      let o' := wmTlsWrite E os fuel conn data bw none
      o.ret = o'.ret ∧ o.conn = o'.conn ∧ o.bytesWritten = o'.bytesWritten) ∧
    (∀ conn buffer size br,
      (∀ fuel x, (wmTlsRead E os fuel conn buffer size br (some x)).Agree
        (wmTlsRead E os fuel conn buffer size br none)) ↔
      ¬ ∃ c, conn = some c ∧ buffer = true ∧ 0 < size ∧ MeetsError E os size c) ∧
    (∀ host port sniHost requestText response responseSize log,
      (∀ fuel x, (wmTlsExchange E os anchors reset fuel host port sniHost requestText response
          responseSize log (some x)).Agree
        (wmTlsExchange E os anchors reset fuel host port sniHost requestText response
          responseSize log none)) ↔
      ¬ ExchangeErrs E os anchors reset host port sniHost requestText response responseSize log) ∧
    (∀ host port method path extraHeaders body response responseSize stack log,
      (∀ fuel x, (wmHttpsRequest E os anchors reset fuel host port method path extraHeaders body
          response responseSize stack log (some x)).Agree
        (wmHttpsRequest E os anchors reset fuel host port method path extraHeaders body
          response responseSize stack log none)) ↔
      ¬ ∃ text, wmHttpsRequestText host port method path extraHeaders body response responseSize
          stack = some text ∧
        ExchangeErrs E os anchors reset (host.map CString.bytes) port.toNat
          (host.map CString.bytes) (some text) response responseSize log) := by
  refine ⟨?_, ?_, ?_, ?_, ?_⟩
  · intro fuel host port sniHost outConn log x
    exact open_result E os anchors reset fuel host port sniHost outConn log _ _
  · intro fuel conn data bw x
    exact write_result E os fuel conn data bw _ _
  · intro conn buffer size br
    cases conn with
    | none =>
      refine iff_of_true (fun _ _ => ⟨rfl, rfl, rfl, rfl⟩) ?_
      rintro ⟨c, ⟨⟩, -⟩
    | some c => simpa using read_agree_iff E os c buffer size br
  · intro host port sniHost requestText response responseSize log
    exact exchange_agree_iff E os anchors reset host port sniHost requestText response
      responseSize log
  · intro host port method path extraHeaders body response responseSize stack log
    simp only [wmHttpsRequest]
    cases wmHttpsRequestText host port method path extraHeaders body response responseSize
      stack with
    | none =>
      refine iff_of_true (fun _ _ => ⟨rfl, rfl, rfl⟩) ?_
      rintro ⟨text, ⟨⟩, -⟩
    | some text =>
      simpa using exchange_agree_iff E os anchors reset (host.map CString.bytes) port.toNat
        (host.map CString.bytes) (some text) response responseSize log

section Counterexample

open PlainEngine

/-- A record with a bad MAC arrives, first of all and behind one byte of the
response: without a result structure both calls report success. -/
theorem null_result_hides_error :
    (∃ c, runScript engine (scriptHost (fun _ => 2) [some [1]]) PlainEngine.reset 9 () [] =
        some (c, []) ∧
      (wmTlsRead engine (scriptHost (fun _ => 2) [some [1]]) 9 (some c) true 4 (some 0)
        (some ⟨0, 0, 0, 0⟩)).ret = some false ∧
      (wmTlsRead engine (scriptHost (fun _ => 2) [some [1]]) 9 (some c) true 4 (some 0) none).ret =
        some true) ∧
    (wmTlsExchange engine (scriptHost (fun _ => 2) [some [65], some [1]]) (some ())
      PlainEngine.reset 9 (some [119]) 443 none (some [71]) (some fun _ => 0) 16 []
      (some ⟨0, 0, 0, 0⟩)).ret = some false ∧
    (wmTlsExchange engine (scriptHost (fun _ => 2) [some [65], some [1]]) (some ())
      PlainEngine.reset 9 (some [119]) 443 none (some [71]) (some fun _ => 0) 16 []
      none).ret = some true :=
  ⟨⟨_, rfl, rfl, rfl⟩, rfl, rfl⟩

end Counterexample

end BearTLS
