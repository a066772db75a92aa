import BearTLS.Model.Connection
import Mathlib.Logic.Relation

/-! What the driver can do to a connection, one engine call at a time. Every
function of `BearTLS.Model.Connection` is a sequence of these steps, so an
invariant of the streaming API is shown once per step. -/

namespace BearTLS

open Relation

variable {σ : Type} (E : Engine σ) (os : Host σ)

/-- The states in which the driver calls `recv`. -/
structure EngineState.ReadyToReceive (s : EngineState) : Prop where
  closed : s.closed = false
  sendrec : s.sendrec = false
  recvrec : s.recvrec = true

/-- One call of `wm_tls_drive_records` is a sequence of these. -/
inductive RecordStep : Conn σ → Conn σ → Prop
  | send (c : Conn σ) (n : ℕ) (hb : E.sendrecBuf c.eng ≠ [])
      (hw : (os.send c.log (E.sendrecBuf c.eng)).map Fin.val = some n) (hn : 0 < n) :
      RecordStep c { c.did (.send c.sock (E.sendrecBuf c.eng) (some n)) with
        eng := E.sendrecAck c.eng n }
  | sendFail (c : Conn σ) (wr : Option ℕ) (hb : E.sendrecBuf c.eng ≠ [])
      (hw : (os.send c.log (E.sendrecBuf c.eng)).map Fin.val = wr) (h0 : wr.getD 0 = 0) :
      RecordStep c (c.did (.send c.sock (E.sendrecBuf c.eng) wr))
  | recv (c : Conn σ) (want : ℕ) (b : UInt8) (bs : List UInt8)
      (hs : (E.currentState c.eng).ReadyToReceive)
      (hl : want ≤ E.recvrecBuf c.eng)
      (hr : (os.recv c.log want).map Subtype.val = some (b :: bs)) :
      RecordStep c { c.did (.recv c.sock c.eng want (some (b :: bs))) with
        eng := E.recvrecAck c.eng (b :: bs) }
  | recvEof (c : Conn σ) (want : ℕ)
      (hs : (E.currentState c.eng).ReadyToReceive)
      (hr : (os.recv c.log want).map Subtype.val = some []) :
      RecordStep c { c.did (.recv c.sock c.eng want (some [])) with closed := true }
  | recvFail (c : Conn σ) (want : ℕ)
      (hs : (E.currentState c.eng).ReadyToReceive)
      (hr : (os.recv c.log want).map Subtype.val = none) :
      RecordStep c (c.did (.recv c.sock c.eng want none))
  | markClosed (c : Conn σ) (hc : (E.currentState c.eng).closed = true) :
      RecordStep c { c with closed := true }

/-- The steps of the streaming calls. `late` allows plaintext into the engine
after the connection's `closed` flag is set, as a `wm_tls_write` does that
starts with the flag set. -/
inductive DriverStep (late : Prop) : Conn σ → Conn σ → Prop
  | record {c c' : Conn σ} (h : RecordStep E os c c') : DriverStep late c c'
  | sendapp (c : Conn σ) (d : List UInt8) (hc : (E.currentState c.eng).closed = false)
      (hs : (E.currentState c.eng).sendapp = true) (hd : d ≠ [])
      (hl : d.length ≤ E.sendappBuf c.eng) (hf : c.closed = true → late) :
      DriverStep late c ({ c with eng := E.flush (E.sendappAck c.eng d) }.did (.sendapp d))
  | recvapp (c : Conn σ) (n : ℕ) (hc : (E.currentState c.eng).closed = false)
      (hs : (E.currentState c.eng).recvapp = true) (hn : 0 < n)
      (hl : n ≤ (E.recvappBuf c.eng).length) :
      DriverStep late c
        ({ c with eng := E.recvappAck c.eng n }.did (.recvapp ((E.recvappBuf c.eng).take n)))

def RecordSteps : Conn σ → Conn σ → Prop := ReflTransGen (RecordStep E os)

def DriverSteps (late : Prop) : Conn σ → Conn σ → Prop := ReflTransGen (DriverStep E os late)

variable {E os}

theorem RecordSteps.driver {late : Prop} {c c' : Conn σ} (h : RecordSteps E os c c') :
    DriverSteps E os late c c' :=
  h.lift id fun _ _ => DriverStep.record

theorem DriverStep.mono {late late' : Prop} (hl : late → late') {c c' : Conn σ}
    (h : DriverStep E os late c c') : DriverStep E os late' c c' := by
  cases h with
  | record h => exact .record h
  | sendapp d hc hs hd hlen hf => exact .sendapp c d hc hs hd hlen (fun h => hl (hf h))
  | recvapp n hc hs hn hlen => exact .recvapp c n hc hs hn hlen

theorem DriverSteps.mono {late late' : Prop} (hl : late → late') {c c' : Conn σ}
    (h : DriverSteps E os late c c') : DriverSteps E os late' c c' :=
  h.lift id fun _ _ => DriverStep.mono hl

theorem RecordSteps.single {c c' : Conn σ} (h : RecordStep E os c c') : RecordSteps E os c c' :=
  ReflTransGen.single h

section Result

/-! The result pointer is only written to: return value and connection do not
depend on it. -/

theorem send_pending_result (fuel : ℕ) (c : Conn σ) (r : ResultPtr) :
    (wmTlsSendPendingRecords E os fuel c r).ret = (wmTlsSendPendingRecords E os fuel c none).ret ∧
    (wmTlsSendPendingRecords E os fuel c r).conn =
      (wmTlsSendPendingRecords E os fuel c none).conn := by
  induction fuel generalizing c with
  | zero => exact ⟨rfl, rfl⟩
  | succ fuel ih =>
    simp only [wmTlsSendPendingRecords]
    split_ifs
    · exact ⟨rfl, rfl⟩
    · exact ih _
    · exact ⟨rfl, rfl⟩

theorem recv_pending_result (c : Conn σ) (r : ResultPtr) :
    (wmTlsRecvPendingRecords E os c r).ret = (wmTlsRecvPendingRecords E os c none).ret ∧
    (wmTlsRecvPendingRecords E os c r).conn = (wmTlsRecvPendingRecords E os c none).conn := by
  simp only [wmTlsRecvPendingRecords]
  by_cases hl : E.recvrecBuf c.eng = 0
  · simp [hl]
  · simp only [hl, if_false]
    split <;> exact ⟨rfl, rfl⟩

theorem drive_result (fuel : ℕ) (c : Conn σ) (r : ResultPtr) :
    (wmTlsDriveRecords E os fuel c r).ret = (wmTlsDriveRecords E os fuel c none).ret ∧
    (wmTlsDriveRecords E os fuel c r).conn = (wmTlsDriveRecords E os fuel c none).conn := by
  simp only [wmTlsDriveRecords]
  split_ifs
  · exact ⟨rfl, rfl⟩
  · exact send_pending_result fuel c r
  · exact recv_pending_result c r
  · exact ⟨rfl, rfl⟩

theorem drive_ret (fuel : ℕ) (c : Conn σ) (r : ResultPtr) :
    (wmTlsDriveRecords E os fuel c r).ret = (wmTlsDriveRecords E os fuel c none).ret :=
  (drive_result fuel c r).1

theorem drive_conn (fuel : ℕ) (c : Conn σ) (r : ResultPtr) :
    (wmTlsDriveRecords E os fuel c r).conn = (wmTlsDriveRecords E os fuel c none).conn :=
  (drive_result fuel c r).2

theorem handshake_result (fuel : ℕ) (c : Conn σ) (r : ResultPtr) :
    (wmTlsHandshake E os fuel c r).ret = (wmTlsHandshake E os fuel c none).ret ∧
    (wmTlsHandshake E os fuel c r).conn = (wmTlsHandshake E os fuel c none).conn := by
  induction fuel generalizing c r with
  | zero => exact ⟨rfl, rfl⟩
  | succ fuel ih =>
    simp only [wmTlsHandshake, drive_ret fuel c r, drive_conn fuel c r]
    split_ifs with hs
    · exact ⟨rfl, rfl⟩
    · cases hr : (wmTlsDriveRecords E os fuel c none).ret with
      | none => exact ⟨by simp [drive_ret fuel c r, hr], drive_conn fuel c r⟩
      | some ok =>
        simp only
        split_ifs
        · exact ⟨rfl, rfl⟩
        · rw [(ih _ _).1, (ih _ _).2]
          constructor
          · exact ((ih _ _).1).symm
          · exact ((ih _ _).2).symm

end Result

/-! Every function is a sequence of steps. -/

theorem send_pending_steps (fuel : ℕ) (c : Conn σ) :
    RecordSteps E os c (wmTlsSendPendingRecords E os fuel c none).conn := by
  induction fuel generalizing c with
  | zero => exact ReflTransGen.refl
  | succ fuel ih =>
    simp only [wmTlsSendPendingRecords]
    split_ifs with hlen hwr
    · have hb : E.sendrecBuf c.eng ≠ [] := List.ne_nil_of_length_pos hlen
      exact RecordSteps.single (RecordStep.sendFail c _ hb rfl hwr)
    · have hb : E.sendrecBuf c.eng ≠ [] := List.ne_nil_of_length_pos hlen
      cases hw : (os.send c.log (E.sendrecBuf c.eng)).map Fin.val with
      | none => simp [hw] at hwr
      | some n =>
        have hn : 0 < n := by simp only [hw, Option.getD_some] at hwr; omega
        exact ReflTransGen.head (RecordStep.send c n hb hw hn) (ih _)
    · exact ReflTransGen.refl

theorem recv_pending_steps (c : Conn σ) (hs : (E.currentState c.eng).ReadyToReceive) :
    RecordSteps E os c (wmTlsRecvPendingRecords E os c none).conn := by
  simp only [wmTlsRecvPendingRecords]
  by_cases hl : E.recvrecBuf c.eng = 0
  · simp only [hl, if_true]
    exact ReflTransGen.refl
  · simp only [hl, if_false]
    set want := if E.recvrecBuf c.eng < WM_HTTPS_RECV_CHUNK then E.recvrecBuf c.eng
      else WM_HTTPS_RECV_CHUNK with hwant
    have hle : want ≤ E.recvrecBuf c.eng := by
      rw [hwant]
      split_ifs <;> omega
    cases hrd : (os.recv c.log want).map Subtype.val with
    | none => exact RecordSteps.single (RecordStep.recvFail c want hs hrd)
    | some bs =>
      cases bs with
      | nil => exact RecordSteps.single (RecordStep.recvEof c want hs hrd)
      | cons b bs => exact RecordSteps.single (RecordStep.recv c want b bs hs hle hrd)

theorem drive_steps (fuel : ℕ) (c : Conn σ) :
    RecordSteps E os c (wmTlsDriveRecords E os fuel c none).conn := by
  simp only [wmTlsDriveRecords]
  split_ifs with hc hsend hrecv
  · exact RecordSteps.single (RecordStep.markClosed c hc)
  · exact send_pending_steps fuel c
  · exact recv_pending_steps c ⟨by simpa using hc, by simpa using hsend, hrecv⟩
  · exact ReflTransGen.refl

theorem handshake_steps (fuel : ℕ) (c : Conn σ) :
    RecordSteps E os c (wmTlsHandshake E os fuel c none).conn := by
  induction fuel generalizing c with
  | zero => exact ReflTransGen.refl
  | succ fuel ih =>
    have hd : RecordSteps E os c _ := drive_steps fuel c
    simp only [wmTlsHandshake]
    split_ifs with hs
    · exact ReflTransGen.refl
    · cases hr : (wmTlsDriveRecords E os fuel c none).ret with
      | none => exact hd
      | some ok =>
        simp only
        split_ifs
        · exact hd
        · rw [(handshake_result fuel _ _).2]
          exact hd.trans (ih _)

variable (E) in
/-- What `wm_tls_write` hands to the engine next, `[]` for nothing. -/
def writeChunk (data : List UInt8) (sent : ℕ) (e : σ) : List UInt8 :=
  if (E.currentState e).sendapp then (data.drop sent).take (E.sendappBuf e) else []

/-- A chunk is a piece of the data from `sent` on. -/
theorem writeChunk_take {data : List UInt8} {sent : ℕ} {e : σ} (h : writeChunk E data sent e ≠ []) :
    writeChunk E data sent e = (data.drop sent).take (writeChunk E data sent e).length ∧
      sent + (writeChunk E data sent e).length ≤ data.length := by
  have hchunk : writeChunk E data sent e = (data.drop sent).take (E.sendappBuf e) := by
    unfold writeChunk at h ⊢
    split_ifs at h ⊢
    · rfl
    · exact absurd rfl h
  have hlen := congrArg List.length hchunk
  rw [List.length_take, List.length_drop] at hlen
  have hsome := List.length_pos_of_ne_nil h
  refine ⟨?_, by omega⟩
  rw [hlen, hchunk, List.take_eq_take_iff, List.length_drop]
  omega

theorem write_loop_done (data : List UInt8) (fuel sent : ℕ) (c : Conn σ) (bw : Option ℕ)
    (r : ResultPtr) (hs : data.length ≤ sent) :
    wmTlsWriteLoop E os data (fuel + 1) sent c bw r = ⟨some true, c, bw, r.setOk 1⟩ := by
  simp only [wmTlsWriteLoop, Nat.not_lt.mpr hs, if_false]

theorem write_loop_closed (data : List UInt8) (fuel sent : ℕ) (c : Conn σ) (bw : Option ℕ)
    (r : ResultPtr) (hs : sent < data.length) (hc : (E.currentState c.eng).closed = true) :
    wmTlsWriteLoop E os data (fuel + 1) sent c bw r =
      ⟨some false, { c with closed := true }, bw, r.setTlsError (E.lastError c.eng)⟩ := by
  simp only [wmTlsWriteLoop, hs, hc, if_true]

theorem write_loop_sendapp (data : List UInt8) (fuel sent : ℕ) (c : Conn σ) (bw : Option ℕ)
    (r : ResultPtr) (hs : sent < data.length) (hc : (E.currentState c.eng).closed = false)
    (hd : writeChunk E data sent c.eng ≠ []) :
    wmTlsWriteLoop E os data (fuel + 1) sent c bw r =
      wmTlsWriteLoop E os data fuel (sent + (writeChunk E data sent c.eng).length)
        ({ c with eng := E.flush (E.sendappAck c.eng (writeChunk E data sent c.eng)) }.did
          (.sendapp (writeChunk E data sent c.eng)))
        (bw.map fun _ => sent + (writeChunk E data sent c.eng).length) r := by
  unfold writeChunk at hd ⊢
  split_ifs at hd ⊢ with ha
  · set take := if data.length - sent > E.sendappBuf c.eng then E.sendappBuf c.eng
      else data.length - sent with htake
    have hm : take = min (E.sendappBuf c.eng) (data.length - sent) := by
      rw [htake]
      split_ifs <;> omega
    have hlen : ((data.drop sent).take (E.sendappBuf c.eng)).length = take := by
      rw [List.length_take, List.length_drop, hm]
    have hpos : 0 < take := hlen ▸ List.length_pos_of_ne_nil hd
    have hchunk : (data.drop sent).take take = (data.drop sent).take (E.sendappBuf c.eng) := by
      rw [hm, ← List.length_drop, Nat.min_comm, List.take_eq_take_iff]
      omega
    simp only [wmTlsWriteLoop, hs, hc, ha, ← htake, hpos, hlen, hchunk, Bool.false_eq_true,
      if_false, if_true, Bool.true_and, decide_true]
  · exact absurd rfl hd

theorem write_loop_drive (data : List UInt8) (fuel sent : ℕ) (c : Conn σ) (bw : Option ℕ)
    (r : ResultPtr) (hs : sent < data.length) (hc : (E.currentState c.eng).closed = false)
    (hd : writeChunk E data sent c.eng = []) :
    wmTlsWriteLoop E os data (fuel + 1) sent c bw r =
      match (wmTlsDriveRecords E os fuel c none).ret with
      | none => ⟨none, (wmTlsDriveRecords E os fuel c none).conn, bw,
          (wmTlsDriveRecords E os fuel c r).result⟩
      | some ok =>
        if !ok || (wmTlsDriveRecords E os fuel c none).conn.closed then
          ⟨some false, (wmTlsDriveRecords E os fuel c none).conn, bw,
            (wmTlsDriveRecords E os fuel c r).result⟩
        else wmTlsWriteLoop E os data fuel sent (wmTlsDriveRecords E os fuel c none).conn bw
          (wmTlsDriveRecords E os fuel c r).result := by
  have hidle : ((E.currentState c.eng).sendapp && decide (0 <
      (if data.length - sent > E.sendappBuf c.eng then E.sendappBuf c.eng
        else data.length - sent))) = false := by
    unfold writeChunk at hd
    split_ifs at hd with ha
    · have hz : E.sendappBuf c.eng = 0 := by
        have := congrArg List.length hd
        simp only [List.length_take, List.length_drop, List.length_nil] at this
        omega
      have hnone : ¬ 0 < (if data.length - sent > E.sendappBuf c.eng then E.sendappBuf c.eng
          else data.length - sent) := by
        split_ifs <;> omega
      rw [decide_eq_false hnone, Bool.and_false]
    · rw [Bool.eq_false_iff.mpr ha, Bool.false_and]
  cases hret : (wmTlsDriveRecords E os fuel c none).ret <;>
    simp only [wmTlsWriteLoop, hs, hc, hidle, if_true, Bool.false_eq_true, if_false,
      drive_ret fuel c r, drive_conn fuel c r, hret]

theorem write_loop_steps (data : List UInt8) (fuel sent : ℕ) (c : Conn σ) (bw : Option ℕ)
    (r : ResultPtr) :
    DriverSteps E os (c.closed = true) c (wmTlsWriteLoop E os data fuel sent c bw r).conn := by
  induction fuel generalizing sent c bw r with
  | zero => exact ReflTransGen.refl
  | succ fuel ih =>
    rcases Nat.lt_or_ge sent data.length with hs | hs
    · cases hc : (E.currentState c.eng).closed with
      | true =>
        rw [write_loop_closed data fuel sent c bw r hs hc]
        exact ReflTransGen.single (.record (.markClosed c hc))
      | false =>
        by_cases hd : writeChunk E data sent c.eng = []
        · have hsteps : DriverSteps E os (c.closed = true) c
              (wmTlsDriveRecords E os fuel c none).conn := (drive_steps fuel c).driver
          rw [write_loop_drive data fuel sent c bw r hs hc hd]
          cases hr : (wmTlsDriveRecords E os fuel c none).ret with
          | none => exact hsteps
          | some ok =>
            simp only
            split_ifs with hstop
            · exact hsteps
            · have hopen : (wmTlsDriveRecords E os fuel c none).conn.closed = false := by
                simp only [Bool.or_eq_true, not_or, Bool.not_eq_true] at hstop
                exact hstop.2
              exact hsteps.trans ((ih _ _ _ _).mono (fun h => absurd h (by simp [hopen])))
        · rw [write_loop_sendapp data fuel sent c bw r hs hc hd]
          have hchunk : (E.currentState c.eng).sendapp = true ∧
              (writeChunk E data sent c.eng).length ≤ E.sendappBuf c.eng := by
            unfold writeChunk at hd ⊢
            split_ifs at hd ⊢ with ha
            · exact ⟨ha, List.length_take_le _ _⟩
            · exact absurd rfl hd
          have hrest := ih (sent + (writeChunk E data sent c.eng).length)
            ({ c with eng := E.flush (E.sendappAck c.eng (writeChunk E data sent c.eng)) }.did
              (.sendapp (writeChunk E data sent c.eng)))
            (bw.map fun _ => sent + (writeChunk E data sent c.eng).length) r
          exact ReflTransGen.head (.sendapp c _ hc hchunk.1 hd hchunk.2 id) hrest
    · rw [write_loop_done data fuel sent c bw r hs]
      exact ReflTransGen.refl

variable (E) in
/-- What `wm_tls_read` delivers from the engine state, 0 for nothing. -/
def readTake (size : ℕ) (e : σ) : ℕ :=
  if (E.currentState e).recvapp then min size (E.recvappBuf e).length else 0

theorem readTake_le (size : ℕ) (e : σ) :
    readTake E size e ≤ size ∧ readTake E size e ≤ (E.recvappBuf e).length := by
  unfold readTake
  split_ifs <;> omega

theorem read_loop_closed (size fuel : ℕ) (c : Conn σ) (br : Option ℕ) (r : ResultPtr)
    (hc : (E.currentState c.eng).closed = true) :
    wmTlsReadLoop E os size (fuel + 1) c br r =
      ⟨some (r = none || E.lastError c.eng = 0), { c with closed := true }, [], br,
        (r.setTlsError (E.lastError c.eng)).setOk (if E.lastError c.eng = 0 then 1 else 0)⟩ := by
  simp only [wmTlsReadLoop, hc, if_true]

theorem read_loop_deliver (size fuel : ℕ) (c : Conn σ) (br : Option ℕ) (r : ResultPtr)
    (hc : (E.currentState c.eng).closed = false) (ht : 0 < readTake E size c.eng) :
    wmTlsReadLoop E os size (fuel + 1) c br r =
      ⟨some true, { c with eng := E.recvappAck c.eng (readTake E size c.eng) }.did
        (.recvapp ((E.recvappBuf c.eng).take (readTake E size c.eng))),
        (E.recvappBuf c.eng).take (readTake E size c.eng),
        br.map fun _ => readTake E size c.eng,
        (r.setOk 1).setHttpBytes (readTake E size c.eng)⟩ := by
  unfold readTake at ht ⊢
  split_ifs at ht ⊢ with ha
  swap
  · exact absurd ht (Nat.lt_irrefl 0)
  have hm : (if (E.recvappBuf c.eng).length > size then size else (E.recvappBuf c.eng).length) =
      min size (E.recvappBuf c.eng).length := by
    split_ifs <;> omega
  simp only [wmTlsReadLoop, hc, ha, hm, ht, Bool.false_eq_true, if_false, Bool.true_and,
    decide_true, if_true]

theorem read_loop_drive (size fuel : ℕ) (c : Conn σ) (br : Option ℕ) (r : ResultPtr)
    (hc : (E.currentState c.eng).closed = false) (ht : readTake E size c.eng = 0) :
    wmTlsReadLoop E os size (fuel + 1) c br r =
      match (wmTlsDriveRecords E os fuel c none).ret with
      | none => ⟨none, (wmTlsDriveRecords E os fuel c none).conn, [], br,
          (wmTlsDriveRecords E os fuel c r).result⟩
      | some false => ⟨some false, (wmTlsDriveRecords E os fuel c none).conn, [], br,
          (wmTlsDriveRecords E os fuel c r).result⟩
      | some true =>
        if (wmTlsDriveRecords E os fuel c none).conn.closed then
          ⟨some true, (wmTlsDriveRecords E os fuel c none).conn, [], br,
            (wmTlsDriveRecords E os fuel c r).result.setOk 1⟩
        else wmTlsReadLoop E os size fuel (wmTlsDriveRecords E os fuel c none).conn br
          (wmTlsDriveRecords E os fuel c r).result := by
  have hidle : ((E.currentState c.eng).recvapp && decide (0 <
      (if (E.recvappBuf c.eng).length > size then size else (E.recvappBuf c.eng).length))) =
        false := by
    unfold readTake at ht
    split_ifs at ht with ha
    · have hz : ¬ 0 < (if (E.recvappBuf c.eng).length > size then size
          else (E.recvappBuf c.eng).length) := by
        split_ifs <;> omega
      rw [decide_eq_false hz, Bool.and_false]
    · rw [Bool.eq_false_iff.mpr ha, Bool.false_and]
  cases hret : (wmTlsDriveRecords E os fuel c none).ret with
  | none => simp only [wmTlsReadLoop, hc, hidle, Bool.false_eq_true, if_false, drive_ret fuel c r,
      hret, drive_conn fuel c r]
  | some ok =>
    cases ok <;> simp only [wmTlsReadLoop, hc, hidle, Bool.false_eq_true, if_false,
      drive_ret fuel c r, drive_conn fuel c r, hret]

theorem read_loop_steps (size fuel : ℕ) (c : Conn σ) (br : Option ℕ) (r : ResultPtr) :
    DriverSteps E os False c (wmTlsReadLoop E os size fuel c br r).conn := by
  induction fuel generalizing c r with
  | zero => exact ReflTransGen.refl
  | succ fuel ih =>
    cases hc : (E.currentState c.eng).closed with
    | true =>
      rw [read_loop_closed size fuel c br r hc]
      exact ReflTransGen.single (.record (.markClosed c hc))
    | false =>
      rcases Nat.eq_zero_or_pos (readTake E size c.eng) with ht | ht
      · have hd : DriverSteps E os False c (wmTlsDriveRecords E os fuel c none).conn :=
          (drive_steps fuel c).driver
        rw [read_loop_drive size fuel c br r hc ht]
        cases hr : (wmTlsDriveRecords E os fuel c none).ret with
        | none => exact hd
        | some ok =>
          cases ok with
          | false => exact hd
          | true =>
            simp only
            split_ifs
            · exact hd
            · exact hd.trans (ih _ _)
      · rw [read_loop_deliver size fuel c br r hc ht]
        unfold readTake at ht ⊢
        split_ifs at ht ⊢ with ha
        · exact ReflTransGen.single (.recvapp c _ hc ha ht (Nat.min_le_right _ _))
        · exact absurd ht (Nat.lt_irrefl 0)

end BearTLS
