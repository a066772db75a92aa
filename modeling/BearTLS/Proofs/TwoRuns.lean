import BearTLS.Model.Exchange
import BearTLS.Proofs.Reading
import BearTLS.Proofs.Settled

/-! Two runs of the TLS calls, with and without a result structure. They differ
in one place: the return value of a read that finds the engine closed by an error. -/

namespace BearTLS

open Fuel Memory Relation

variable {σ α : Type} (E : Engine σ) (os : Host σ)

section OpenWrite

theorem connect_result (host : List UInt8) (port : ℕ) (log : Log σ) (r r' : ResultPtr) :
    (wmHttpsConnectIpv4 os host port log r).sock = (wmHttpsConnectIpv4 os host port log r').sock ∧
      (wmHttpsConnectIpv4 os host port log r).log =
        (wmHttpsConnectIpv4 os host port log r').log := by
  simp only [wmHttpsConnectIpv4]
  split_ifs with hw
  · exact ⟨rfl, rfl⟩
  cases os.socket (log ++ [.wsaStartup true]) with
  | none => exact ⟨rfl, rfl⟩
  | some sock =>
    dsimp only
    split
    · exact ⟨rfl, rfl⟩
    · split_ifs <;> exact ⟨rfl, rfl⟩

theorem open_result (anchors : Option α) (reset : α → List UInt8 → Bool × σ) (fuel : ℕ)
    (host : Option (List UInt8)) (port : ℕ) (sniHost : Option (List UInt8))
    (outConn : Option (Option (Conn σ))) (log : Log σ) (r r' : ResultPtr) :
    let o := wmTlsOpen E os anchors reset fuel host port sniHost outConn log r
    let o' := wmTlsOpen E os anchors reset fuel host port sniHost outConn log r'
    o.ret = o'.ret ∧ o.outConn = o'.outConn ∧ o.log = o'.log := by
  simp only [wmTlsOpen]
  cases host with
  | none => exact ⟨rfl, rfl, rfl⟩
  | some host =>
    cases outConn with
    | none => exact ⟨rfl, rfl, rfl⟩
    | some _ =>
      dsimp only
      split_ifs with ha
      · exact ⟨rfl, rfl, rfl⟩
      obtain ⟨hsock, hlog⟩ := connect_result os host port (log ++ [.heapAlloc true])
        (wmHttpsZeroResult r) (wmHttpsZeroResult r')
      set cn := wmHttpsConnectIpv4 os host port _ (wmHttpsZeroResult r)
      set cn' := wmHttpsConnectIpv4 os host port _ (wmHttpsZeroResult r')
      rw [hsock, hlog]
      cases cn'.sock with
      | none => exact ⟨rfl, rfl, rfl⟩
      | some sock =>
        cases anchors with
        | none => exact ⟨rfl, rfl, rfl⟩
        | some a =>
          dsimp only
          split_ifs with hok
          · exact ⟨rfl, rfl, rfl⟩
          set c₀ : Conn σ := ⟨some sock, _, false, _⟩
          obtain ⟨hret, hconn⟩ : (wmTlsHandshake E os fuel c₀ cn.result).ret = _ ∧ _ :=
            handshake_result fuel c₀ cn.result
          obtain ⟨hret', hconn'⟩ : (wmTlsHandshake E os fuel c₀ cn'.result).ret = _ ∧ _ :=
            handshake_result fuel c₀ cn'.result
          rw [hret, hconn, hret', hconn']
          cases (wmTlsHandshake E os fuel c₀ none).ret with
          | none => exact ⟨rfl, rfl, rfl⟩
          | some ok => cases ok <;> exact ⟨rfl, rfl, rfl⟩

theorem write_loop_result (data : List UInt8) (fuel sent : ℕ) (c : Conn σ) (bw : Option ℕ)
    (r r' : ResultPtr) :
    let o := wmTlsWriteLoop E os data fuel sent c bw r
    let o' := wmTlsWriteLoop E os data fuel sent c bw r'
    o.ret = o'.ret ∧ o.conn = o'.conn ∧ o.bytesWritten = o'.bytesWritten := by
  induction fuel generalizing sent c bw r r' with
  | zero => exact ⟨rfl, rfl, rfl⟩
  | succ fuel ih =>
    rcases Nat.lt_or_ge sent data.length with hs | hs
    · cases hc : (E.currentState c.eng).closed with
      | true =>
        simp only [write_loop_closed data fuel sent c bw _ hs hc]
        exact ⟨trivial, trivial, trivial⟩
      | false =>
        by_cases hchunk : writeChunk E data sent c.eng = []
        · simp only [write_loop_drive data fuel sent c bw _ hs hc hchunk]
          cases (wmTlsDriveRecords E os fuel c none).ret with
          | none => exact ⟨rfl, rfl, rfl⟩
          | some ok =>
            dsimp only
            split_ifs
            · exact ⟨rfl, rfl, rfl⟩
            · exact ih _ _ _ _ _
        · simp only [write_loop_sendapp data fuel sent c bw _ hs hc hchunk]
          exact ih _ _ _ _ _
    · simp only [write_loop_done data fuel sent c bw _ hs]
      exact ⟨trivial, trivial, trivial⟩

theorem write_result (fuel : ℕ) (conn : Option (Conn σ)) (data : InBuf) (bw : Option ℕ)
    (r r' : ResultPtr) :
    let o := wmTlsWrite E os fuel conn data bw r
    let o' := wmTlsWrite E os fuel conn data bw r'
    o.ret = o'.ret ∧ o.conn = o'.conn ∧ o.bytesWritten = o'.bytesWritten := by
  cases conn with
  | none => exact ⟨rfl, rfl, rfl⟩
  | some c =>
    simp only [wmTlsWrite]
    split_ifs
    · exact ⟨rfl, rfl, rfl⟩
    · obtain ⟨hret, hconn, hbw⟩ := write_loop_result E os data.bytes fuel 0 c
        (bw.map fun _ => 0) (wmHttpsZeroResult r) (wmHttpsZeroResult r')
      exact ⟨hret, congrArg some hconn, hbw⟩

theorem connect_null (host : List UInt8) (port : ℕ) (log : Log σ) (r : ResultPtr) :
    (wmHttpsConnectIpv4 os host port log r).result = none ↔ r = none := by
  simp only [wmHttpsConnectIpv4]
  split_ifs
  · simp
  cases os.socket (log ++ [.wsaStartup true]) with
  | none => simp
  | some sock =>
    dsimp only
    split
    · simp
    · split_ifs <;> simp

theorem handshake_null (fuel : ℕ) (c : Conn σ) (r : ResultPtr) :
    (wmTlsHandshake E os fuel c r).result = none ↔ r = none := by
  induction fuel generalizing c r with
  | zero => exact Iff.rfl
  | succ fuel ih =>
    have hnull : (wmTlsDriveRecords E os fuel c r).result = none ↔ r = none := drive_null fuel c r
    simp only [wmTlsHandshake]
    split_ifs
    · exact Iff.rfl
    · cases (wmTlsDriveRecords E os fuel c r).ret with
      | none => exact hnull
      | some ok =>
        dsimp only
        split_ifs
        · exact hnull
        · exact (ih _ _).trans hnull

theorem open_null (anchors : Option α) (reset : α → List UInt8 → Bool × σ) (fuel : ℕ)
    (host : Option (List UInt8)) (port : ℕ) (sniHost : Option (List UInt8))
    (outConn : Option (Option (Conn σ))) (log : Log σ) (r : ResultPtr) :
    (wmTlsOpen E os anchors reset fuel host port sniHost outConn log r).result = none ↔
      r = none := by
  simp only [wmTlsOpen]
  cases host with
  | none => simp
  | some host =>
    cases outConn with
    | none => simp
    | some _ =>
      dsimp only
      split_ifs with ha
      · simp
      have hnull := connect_null os host port (log ++ [.heapAlloc true]) (wmHttpsZeroResult r)
      rw [zeroResult_null] at hnull
      set cn := wmHttpsConnectIpv4 os host port (log ++ [.heapAlloc true]) (wmHttpsZeroResult r)
      cases cn.sock with
      | none => exact hnull
      | some sock =>
        cases anchors with
        | none => exact hnull
        | some a =>
          dsimp only
          split_ifs with hok
          · simpa using hnull
          set c₀ : Conn σ := ⟨some sock, _, false, cn.log⟩
          have hhs := (handshake_null E os fuel c₀ cn.result).trans hnull
          cases (wmTlsHandshake E os fuel c₀ cn.result).ret with
          | none => exact hhs
          | some ok =>
            cases ok with
            | false => exact hhs
            | true => simpa using hhs

theorem write_loop_null (data : List UInt8) (fuel sent : ℕ) (c : Conn σ) (bw : Option ℕ)
    (r : ResultPtr) : (wmTlsWriteLoop E os data fuel sent c bw r).result = none ↔ r = none := by
  induction fuel generalizing sent c bw r with
  | zero => exact Iff.rfl
  | succ fuel ih =>
    rcases Nat.lt_or_ge sent data.length with hs | hs
    · cases hc : (E.currentState c.eng).closed with
      | true => simp [write_loop_closed data fuel sent c bw r hs hc]
      | false =>
        by_cases hchunk : writeChunk E data sent c.eng = []
        · have hnull : (wmTlsDriveRecords E os fuel c r).result = none ↔ r = none :=
            drive_null fuel c r
          rw [write_loop_drive data fuel sent c bw r hs hc hchunk]
          cases (wmTlsDriveRecords E os fuel c none).ret with
          | none => exact hnull
          | some ok =>
            dsimp only
            split_ifs
            · exact hnull
            · exact (ih _ _ _ _).trans hnull
        · rw [write_loop_sendapp data fuel sent c bw r hs hc hchunk]
          exact ih _ _ _ _
    · simp [write_loop_done data fuel sent c bw r hs]

theorem write_null (fuel : ℕ) (conn : Option (Conn σ)) (data : InBuf) (bw : Option ℕ)
    (r : ResultPtr) : (wmTlsWrite E os fuel conn data bw r).result = none ↔ r = none := by
  cases conn with
  | none => exact zeroResult_null r
  | some c =>
    simp only [wmTlsWrite]
    split_ifs
    · exact zeroResult_null r
    · exact (write_loop_null E os data.bytes fuel 0 c _ _).trans (zeroResult_null r)

end OpenWrite

section Read

/-- While a read of `size` bytes pumps records, an error closes the engine. -/
def MeetsError (size : ℕ) (c : Conn σ) : Prop :=
  ∃ head, ReflTransGen (PumpStep E os size) c head ∧ (E.currentState head.eng).closed = true ∧
    E.lastError head.eng ≠ 0

variable {E os} in
theorem MeetsError.of_step {size : ℕ} {c c' : Conn σ} (hs : PumpStep E os size c c')
    (h : MeetsError E os size c') : MeetsError E os size c := by
  obtain ⟨head, hpump, hend⟩ := h
  exact ⟨head, .head hs hpump, hend⟩

/-- What two runs of the read loop share, and the one way in which they differ. -/
theorem read_loop_two_runs (size fuel : ℕ) (c : Conn σ) (br : Option ℕ) (r : ResultPtr) :
    let o := wmTlsReadLoop E os size fuel c br r
    let o' := wmTlsReadLoop E os size fuel c br none
    o.conn = o'.conn ∧ o.data = o'.data ∧ o.bytesRead = o'.bytesRead ∧
      (o.ret = o'.ret ∨
        o.ret = some false ∧ o'.ret = some true ∧ o.bytesRead = br ∧ MeetsError E os size c) := by
  induction fuel generalizing c r with
  | zero => exact ⟨rfl, rfl, rfl, .inl rfl⟩
  | succ fuel ih =>
    cases hc : (E.currentState c.eng).closed with
    | true =>
      simp only [read_loop_closed size fuel c br _ hc]
      refine ⟨trivial, trivial, trivial, ?_⟩
      by_cases herr : E.lastError c.eng = 0
      · simp [herr]
      · cases r with
        | none => exact .inl rfl
        | some x => exact .inr ⟨by simp [herr], rfl, trivial, c, .refl, hc, herr⟩
    | false =>
      rcases Nat.eq_zero_or_pos (readTake E size c.eng) with ht | ht
      · simp only [read_loop_drive size fuel c br _ hc ht]
        cases hr : (wmTlsDriveRecords E os fuel c none).ret with
        | none => exact ⟨rfl, rfl, rfl, .inl rfl⟩
        | some ok =>
          cases ok with
          | false => exact ⟨rfl, rfl, rfl, .inl rfl⟩
          | true =>
            dsimp only
            split_ifs with hflag
            · exact ⟨rfl, rfl, rfl, .inl rfl⟩
            · have hstep : PumpStep E os size c (wmTlsDriveRecords E os fuel c none).conn :=
                ⟨hc, ht, ⟨fuel, hr, rfl⟩, by simpa using hflag⟩
              rw [(drive_null fuel c none).mpr rfl]
              obtain ⟨hconn, hdata, hbr, hret⟩ := ih (wmTlsDriveRecords E os fuel c none).conn
                (wmTlsDriveRecords E os fuel c r).result
              refine ⟨hconn, hdata, hbr, hret.imp_right fun h => ?_⟩
              exact ⟨h.1, h.2.1, h.2.2.1, .of_step hstep h.2.2.2⟩
      · simp only [read_loop_deliver size fuel c br _ hc ht]
        exact ⟨trivial, trivial, trivial, .inl trivial⟩

/-- The loop pumps to any state that pumping reaches. -/
theorem read_loop_pumps {size : ℕ} {c head : Conn σ}
    (h : ReflTransGen (PumpStep E os size) c head) :
    ∃ k n, ∀ fuel ≥ n, ∀ (br : Option ℕ) (r : ResultPtr), ∃ r' : ResultPtr,
      (r' = none ↔ r = none) ∧
      wmTlsReadLoop E os size (fuel + k) c br r = wmTlsReadLoop E os size fuel head br r' := by
  induction h using ReflTransGen.head_induction_on with
  | refl => exact ⟨0, 0, fun fuel _ br r => ⟨r, Iff.rfl, rfl⟩⟩
  | @head c₀ c₁ hs _ ih =>
    obtain ⟨k, n, hreach⟩ := ih
    obtain ⟨j, hj, hc₁⟩ := hs.driven
    refine ⟨k + 1, max n j, fun fuel hfuel br r => ?_⟩
    obtain ⟨hn, hjle⟩ := max_le_iff.mp hfuel
    have hdrive : wmTlsDriveRecords E os (fuel + k) c₀ none = wmTlsDriveRecords E os j c₀ none :=
      (drive_settles E os c₀ none).eq_of_le (by simp [hj]) (by omega)
    obtain ⟨r', hnull, heq⟩ := hreach fuel hn br (wmTlsDriveRecords E os (fuel + k) c₀ r).result
    refine ⟨r', hnull.trans (drive_null _ c₀ r), ?_⟩
    rw [← Nat.add_assoc, read_loop_drive size (fuel + k) c₀ br r hs.opened hs.idle, hdrive, hj, hc₁]
    dsimp only
    rw [if_neg (by simp [hs.flag]), heq]

theorem read_meets_error {size : ℕ} {c : Conn σ} (h : MeetsError E os size c) :
    ∃ c' : Conn σ, c'.closed = true ∧ ∃ n, ∀ fuel ≥ n, ∀ (br : Option ℕ) (r : ResultPtr),
      let o := wmTlsReadLoop E os size fuel c br r
      o.ret = some r.isNone ∧ o.conn = c' ∧ o.data = [] ∧ o.bytesRead = br := by
  obtain ⟨head, hpump, hc, herr⟩ := h
  obtain ⟨k, n, hreach⟩ := read_loop_pumps E os hpump
  refine ⟨{ head with closed := true }, rfl, n + 1 + k, fun fuel hfuel br r => ?_⟩
  obtain ⟨m, rfl⟩ : ∃ m, fuel = m + 1 + k := ⟨fuel - 1 - k, by omega⟩
  obtain ⟨r', hnull, heq⟩ := hreach (m + 1) (by omega) br r
  dsimp only
  rw [heq, read_loop_closed size m head br r' hc]
  refine ⟨?_, rfl, rfl, rfl⟩
  cases r with
  | none => simp [hnull.mpr rfl]
  | some x =>
    have : r' ≠ none := fun h => absurd (hnull.mp h) (by simp)
    simp [this, herr]

theorem read_eq {size : ℕ} (hsize : 0 < size) (fuel : ℕ) (c : Conn σ) (br : Option ℕ)
    (r : ResultPtr) :
    wmTlsRead E os fuel (some c) true size br r =
      let o := wmTlsReadLoop E os size fuel c (br.map fun _ => 0) (wmHttpsZeroResult r)
      ⟨o.ret, some o.conn, o.data, o.bytesRead, o.result⟩ := by
  have hargs : ¬ (true = false ∨ size = 0) := by
    rintro (h | h)
    · simp at h
    · omega
  simp only [wmTlsRead, if_neg hargs]

theorem read_loop_null (size fuel : ℕ) (c : Conn σ) (br : Option ℕ) (r : ResultPtr) :
    (wmTlsReadLoop E os size fuel c br r).result = none ↔ r = none := by
  induction fuel generalizing c r with
  | zero => exact Iff.rfl
  | succ fuel ih =>
    cases hc : (E.currentState c.eng).closed with
    | true => simp [read_loop_closed size fuel c br r hc]
    | false =>
      rcases Nat.eq_zero_or_pos (readTake E size c.eng) with ht | ht
      · have hnull : (wmTlsDriveRecords E os fuel c r).result = none ↔ r = none :=
          drive_null fuel c r
        rw [read_loop_drive size fuel c br r hc ht]
        cases (wmTlsDriveRecords E os fuel c none).ret with
        | none => exact hnull
        | some ok =>
          cases ok with
          | false => exact hnull
          | true =>
            dsimp only
            split_ifs
            · simpa using hnull
            · exact (ih _ _).trans hnull
      · simp [read_loop_deliver size fuel c br r hc ht]

theorem read_two_runs {size : ℕ} (hsize : 0 < size) (fuel : ℕ) (c : Conn σ) (br : Option ℕ)
    (r : ResultPtr) :
    let o := wmTlsRead E os fuel (some c) true size br r
    let o' := wmTlsRead E os fuel (some c) true size br none
    o.conn = o'.conn ∧ o.data = o'.data ∧ o.bytesRead = o'.bytesRead ∧ o'.result = none ∧
      (o.ret = o'.ret ∨ o.ret = some false ∧ o'.ret = some true ∧
        o.bytesRead = br.map (fun _ => 0) ∧ MeetsError E os size c) := by
  simp only [read_eq E os hsize]
  obtain ⟨hconn, hdata, hbr, hret⟩ := read_loop_two_runs E os size fuel c (br.map fun _ => 0)
    (wmHttpsZeroResult r)
  exact ⟨congrArg some hconn, hdata, hbr, (read_loop_null E os size fuel c _ _).mpr rfl, hret⟩

end Read

section Collect

/-- The connection after a read of `size` bytes has delivered at `head`. -/
def afterDelivery (size : ℕ) (head : Conn σ) : Conn σ :=
  { head with eng := E.recvappAck head.eng (readTake E size head.eng) }.did
    (.recvapp ((E.recvappBuf head.eng).take (readTake E size head.eng)))

/-- A turn of the exchange's loop that stores some bytes: the length of the
response so far, and the connection. -/
structure CollectStep (responseSize : ℕ) (s s' : ℕ × Conn σ) : Prop where
  room : s.1 < responseSize - 1
  delivered : ∃ head, ReflTransGen (PumpStep E os (responseSize - s.1 - 1)) s.2 head ∧
    (E.currentState head.eng).closed = false ∧
    0 < readTake E (responseSize - s.1 - 1) head.eng ∧
    s' = (s.1 + readTake E (responseSize - s.1 - 1) head.eng,
      afterDelivery E (responseSize - s.1 - 1) head)

/-- From an empty response, the loop stores at least one byte, and then an error
closes the engine. -/
def ErrorAfterData (responseSize : ℕ) (c : Conn σ) : Prop :=
  ∃ n c', ReflTransGen (CollectStep E os responseSize) (0, c) (n, c') ∧ 0 < n ∧
    n < responseSize - 1 ∧ MeetsError E os (responseSize - n - 1) c'

variable {E os}

theorem collect_step_lt {responseSize : ℕ} {s s' : ℕ × Conn σ}
    (h : CollectStep E os responseSize s s') : s.1 < s'.1 := by
  obtain ⟨head, -, -, ht, rfl⟩ := h.delivered
  dsimp only
  omega

theorem collect_steps_le {responseSize : ℕ} {s s' : ℕ × Conn σ}
    (h : ReflTransGen (CollectStep E os responseSize) s s') : s.1 ≤ s'.1 := by
  induction h with
  | refl => exact Nat.le_refl _
  | tail _ hs ih => exact Nat.le_trans ih (Nat.le_of_lt (collect_step_lt hs))

/-- A read of the exchange that succeeds has reached the end, or delivers. -/
theorem read_turn {size : ℕ} (hsize : 0 < size) {fuel : ℕ} {c : Conn σ} {r : ResultPtr}
    (h : (wmTlsRead E os fuel (some c) true size (some 0) r).ret = some true) :
    (wmTlsRead E os fuel (some c) true size (some 0) r).bytesRead = some 0 ∨
    ∃ head, ReflTransGen (PumpStep E os size) c head ∧ (E.currentState head.eng).closed = false ∧
      0 < readTake E size head.eng ∧
      (wmTlsRead E os fuel (some c) true size (some 0) r).conn = some (afterDelivery E size head) ∧
      (wmTlsRead E os fuel (some c) true size (some 0) r).bytesRead =
        some (readTake E size head.eng) := by
  have heq := read_eq E os hsize fuel c (some 0) r
  set o := wmTlsReadLoop E os size fuel c ((some 0).map fun _ => 0) (wmHttpsZeroResult r)
  have hret : o.ret = some true := by
    rw [heq] at h
    exact h
  have hcall : wmTlsRead E os fuel (some c) true size (some 0) r =
      ⟨some true, some o.conn, o.data, o.bytesRead, o.result⟩ := by
    rw [heq, ← hret]
  obtain ⟨hbr, -⟩ := read_account hcall
  rw [hcall]
  dsimp only
  rw [hbr, Option.map_some]
  obtain ⟨-, hfalse, -⟩ | ⟨head, hpump, hexit⟩ := read_exit hcall
  · simp at hfalse
  generalize o.conn = c' at hexit ⊢
  generalize o.data = data at hexit ⊢
  generalize hok : true = ok at hexit
  cases hexit with
  | closed _ => exact .inl rfl
  | deliver hc ht =>
    refine .inr ⟨head, hpump, hc, ht, rfl, ?_⟩
    rw [List.length_take, Nat.min_eq_left (readTake_le size head.eng).2]
  | failed _ _ _ _ => simp at hok
  | flagged _ _ _ _ _ => exact .inl rfl

/-- What two runs of the exchange's loop share, and how they can differ. -/
theorem collect_two_runs {responseSize len : ℕ} (fuel : ℕ) (c : Conn σ) (response : Mem)
    (ok : Bool) (r : ResultPtr) (hlen : len < responseSize - 1) :
    let l := wmTlsCollect E os responseSize fuel (some c) response len ok r
    let l' := wmTlsCollect E os responseSize fuel (some c) response len ok none
    l.conn = l'.conn ∧ l.response = l'.response ∧ l.responseLen = l'.responseLen ∧ l.ok = l'.ok ∧
      (l.ret = l'.ret ∨ l.ret = some false ∧ l'.ret = some true ∧
        ∃ n c', ReflTransGen (CollectStep E os responseSize) (len, c) (n, c') ∧
          n < responseSize - 1 ∧ MeetsError E os (responseSize - n - 1) c' ∧
          (l.ok = true → ok = true ∨ len < n)) := by
  induction fuel generalizing len c response ok r with
  | zero => exact ⟨rfl, rfl, rfl, rfl, .inl rfl⟩
  | succ fuel ih =>
    have hsize : 0 < responseSize - len - 1 := by omega
    obtain ⟨hconn, hdata, hbr, hnull, hret⟩ := read_two_runs E os hsize fuel c (some 0) r
    simp only [wmTlsCollect]
    rw [hconn, hdata, hbr, hnull]
    rcases hret with hsame | ⟨hfalse, htrue, hzero, herr⟩
    · rw [hsame]
      cases hr : (wmTlsRead E os fuel (some c) true (responseSize - len - 1) (some 0) none).ret with
      | none => exact ⟨rfl, rfl, rfl, rfl, .inl rfl⟩
      | some done =>
        cases done with
        | false => exact ⟨rfl, rfl, rfl, rfl, .inl rfl⟩
        | true =>
          rcases read_turn hsize hr with hend | ⟨head, hpump, hc, ht, hnext, hgot⟩
          · rw [hend]
            exact ⟨rfl, rfl, rfl, rfl, .inl rfl⟩
          · have hstep : CollectStep E os responseSize (len, c)
                (len + readTake E (responseSize - len - 1) head.eng,
                  afterDelivery E (responseSize - len - 1) head) :=
              ⟨hlen, head, hpump, hc, ht, rfl⟩
            rw [hgot, hnext]
            dsimp only [Option.getD_some]
            simp only [if_neg (Nat.ne_of_gt ht)]
            split_ifs with hfull
            · exact ⟨rfl, rfl, rfl, rfl, .inl rfl⟩
            · obtain ⟨h₁, h₂, h₃, h₄, h₅⟩ := ih (afterDelivery E (responseSize - len - 1) head)
                _ true _ (Nat.lt_of_not_le hfull)
              refine ⟨h₁, h₂, h₃, h₄, h₅.imp_right ?_⟩
              rintro ⟨hf, ht', n, c', hsteps, hn, hmeets, -⟩
              have hle := collect_steps_le hsteps
              exact ⟨hf, ht', n, c', .head hstep hsteps, hn, hmeets, fun _ => .inr (by
                dsimp only at hle
                omega)⟩
    · rw [hbr] at hzero
      rw [hfalse, htrue, hzero]
      exact ⟨rfl, rfl, rfl, rfl, .inr ⟨rfl, rfl, len, c, .refl, hlen, herr, .inl⟩⟩

theorem read_delivers {size : ℕ} (hsize : 0 < size) {c head : Conn σ}
    (hpump : ReflTransGen (PumpStep E os size) c head)
    (hc : (E.currentState head.eng).closed = false) (ht : 0 < readTake E size head.eng) :
    ∃ n, ∀ fuel ≥ n, ∀ (br : Option ℕ) (r : ResultPtr),
      let o := wmTlsRead E os fuel (some c) true size br r
      o.ret = some true ∧ o.conn = some (afterDelivery E size head) ∧
        o.bytesRead = br.map (fun _ => readTake E size head.eng) ∧
        (o.result = none ↔ r = none) := by
  obtain ⟨k, n, hreach⟩ := read_loop_pumps E os hpump
  refine ⟨n + 1 + k, fun fuel hfuel br r => ?_⟩
  obtain ⟨m, rfl⟩ : ∃ m, fuel = m + 1 + k := ⟨fuel - 1 - k, by omega⟩
  obtain ⟨r', hnull, heq⟩ := hreach (m + 1) (by omega) (br.map fun _ => 0) (wmHttpsZeroResult r)
  rw [read_eq E os hsize, heq, read_loop_deliver size m head _ r' hc ht]
  refine ⟨rfl, rfl, by simp [Option.map_map, Function.comp_def], ?_⟩
  simpa using hnull

theorem collect_meets_error {responseSize : ℕ} {s s' : ℕ × Conn σ}
    (h : ReflTransGen (CollectStep E os responseSize) s s') (hroom : s'.1 < responseSize - 1)
    (herr : MeetsError E os (responseSize - s'.1 - 1) s'.2) :
    ∃ c : Conn σ, c.closed = true ∧ ∃ n, ∀ fuel ≥ n, ∀ (response : Mem) (ok : Bool) (r : ResultPtr),
      let l := wmTlsCollect E os responseSize fuel (some s.2) response s.1 ok r
      l.ret = some r.isNone ∧ l.conn = some c ∧ l.ok = (ok || decide (s.1 < s'.1)) := by
  induction h using ReflTransGen.head_induction_on with
  | refl =>
    obtain ⟨c, hc, n, hread⟩ := read_meets_error E os herr
    refine ⟨c, hc, n + 1, fun fuel hfuel response ok r => ?_⟩
    obtain ⟨m, rfl⟩ : ∃ m, fuel = m + 1 := ⟨fuel - 1, by omega⟩
    obtain ⟨hret, hconn, -, hbr⟩ := hread m (by omega) ((some 0).map fun _ => 0)
      (wmHttpsZeroResult r)
    simp only [wmTlsCollect, read_eq E os (show 0 < responseSize - s'.1 - 1 by omega), hret, hconn,
      hbr]
    cases r <;> simp [wmHttpsZeroResult]
  | @head a b hs hrest ih =>
    obtain ⟨c, hc, n, hnext⟩ := ih
    obtain ⟨head, hpump, hopen, ht, hb⟩ := hs.delivered
    have hsize : 0 < responseSize - a.1 - 1 := by
      have := hs.room
      omega
    obtain ⟨n', hread⟩ := read_delivers hsize hpump hopen ht
    refine ⟨c, hc, max n n' + 1, fun fuel hfuel response ok r => ?_⟩
    obtain ⟨m, rfl⟩ : ∃ m, fuel = m + 1 := ⟨fuel - 1, by omega⟩
    obtain ⟨hret, hconn, hbr, hnull⟩ := hread m (by omega) (some 0) r
    have hlt := collect_step_lt hs
    have hle := collect_steps_le hrest
    have hgot : a.1 + readTake E (responseSize - a.1 - 1) head.eng = b.1 := by rw [hb]
    have hafter : afterDelivery E (responseSize - a.1 - 1) head = b.2 := by rw [hb]
    simp only [wmTlsCollect, hret, hconn, hbr, Option.map_some, Option.getD_some,
      if_neg (Nat.ne_of_gt ht), hgot, hafter]
    rw [if_neg (by omega)]
    obtain ⟨hret', hconn', hok'⟩ := hnext m (by omega) (store (store response a.1
      (wmTlsRead E os m (some a.2) true (responseSize - a.1 - 1) (some 0) r).data) b.1 [0]) true
      (wmTlsRead E os m (some a.2) true (responseSize - a.1 - 1) (some 0) r).result
    refine ⟨hret'.trans ?_, hconn', hok'.trans (by simp; omega)⟩
    rw [Option.some.injEq, Bool.eq_iff_iff, Option.isNone_iff_eq_none, Option.isNone_iff_eq_none]
    exact hnull

end Collect

end BearTLS
