import BearTLS.Lib.Fuel
import BearTLS.Proofs.Driver

/-! A call that has returned returns the same with more fuel. -/

namespace BearTLS

open Fuel

variable {σ α : Type} (E : Engine σ) (os : Host σ)

theorem send_pending_settles (c : Conn σ) (r : ResultPtr) :
    Settles (fun o => o.ret ≠ none) fun fuel => wmTlsSendPendingRecords E os fuel c r := by
  intro fuel hd
  dsimp only at hd ⊢
  induction fuel generalizing c with
  | zero => exact absurd rfl hd
  | succ fuel ih =>
    rw [wmTlsSendPendingRecords] at hd
    rw [wmTlsSendPendingRecords, wmTlsSendPendingRecords.eq_def E os (fuel + 1)]
    dsimp only at hd ⊢
    split_ifs at hd ⊢
    · rfl
    · exact ih _ hd
    · rfl

theorem drive_settles (c : Conn σ) (r : ResultPtr) :
    Settles (fun o => o.ret ≠ none) fun fuel => wmTlsDriveRecords E os fuel c r := by
  intro fuel hd
  simp only [wmTlsDriveRecords] at hd ⊢
  split_ifs at hd ⊢
  · rfl
  · exact send_pending_settles E os c r fuel hd
  · rfl
  · rfl

theorem handshake_settles (c : Conn σ) (r : ResultPtr) :
    Settles (fun o => o.ret ≠ none) fun fuel => wmTlsHandshake E os fuel c r := by
  intro fuel hd
  dsimp only at hd ⊢
  induction fuel generalizing c r with
  | zero => exact absurd rfl hd
  | succ fuel ih =>
    rw [wmTlsHandshake] at hd
    rw [wmTlsHandshake, wmTlsHandshake.eq_def E os (fuel + 1)]
    dsimp only at hd ⊢
    split_ifs at hd ⊢
    · rfl
    · have hdrive := drive_settles E os c r fuel
      dsimp only at hdrive
      cases hr : (wmTlsDriveRecords E os fuel c r).ret with
      | none =>
        rw [hr] at hd
        exact absurd hr hd
      | some ok =>
        rw [hdrive (by simp [hr]), hr]
        rw [hr] at hd
        dsimp only at hd ⊢
        split_ifs at hd ⊢
        · rfl
        · exact ih _ _ hd

theorem open_settles (anchors : Option α) (reset : α → List UInt8 → Bool × σ)
    (host : Option (List UInt8)) (port : ℕ) (sniHost : Option (List UInt8))
    (outConn : Option (Option (Conn σ))) (log : Log σ) (r : ResultPtr) :
    Settles (fun o => o.ret ≠ none) fun fuel =>
      wmTlsOpen E os anchors reset fuel host port sniHost outConn log r := by
  intro fuel hd
  simp only [wmTlsOpen] at hd ⊢
  cases host with
  | none => rfl
  | some host =>
    cases outConn with
    | none => rfl
    | some _ =>
      dsimp only at hd ⊢
      split_ifs at hd ⊢ with ha
      · rfl
      set cn := wmHttpsConnectIpv4 os host port (log ++ [.heapAlloc true]) (wmHttpsZeroResult r)
      cases hsock : cn.sock with
      | none => rfl
      | some sock =>
        cases anchors with
        | none => rfl
        | some a =>
          rw [hsock] at hd
          dsimp only at hd ⊢
          split_ifs at hd ⊢ with hok
          · rfl
          set c₀ : Conn σ := ⟨some sock, (reset a _).2, false, cn.log⟩
          have hs := handshake_settles E os c₀ cn.result fuel
          dsimp only at hs
          rw [hs fun hnone => by
            rw [hnone] at hd
            exact hd rfl]

theorem write_loop_settles (data : List UInt8) (sent : ℕ) (c : Conn σ) (bw : Option ℕ)
    (r : ResultPtr) :
    Settles (fun o => o.ret ≠ none) fun fuel => wmTlsWriteLoop E os data fuel sent c bw r := by
  intro fuel hd
  dsimp only at hd ⊢
  induction fuel generalizing sent c bw r with
  | zero => exact absurd rfl hd
  | succ fuel ih =>
    rcases Nat.lt_or_ge sent data.length with hs | hs
    · cases hc : (E.currentState c.eng).closed with
      | true => simp only [write_loop_closed data _ sent c bw r hs hc]
      | false =>
        by_cases hchunk : writeChunk E data sent c.eng = []
        · have hdrive := drive_settles E os c none fuel
          have hdrive' := drive_settles E os c r fuel
          have hret : (wmTlsDriveRecords E os fuel c r).ret = _ := drive_ret fuel c r
          dsimp only at hdrive hdrive'
          rw [write_loop_drive data fuel sent c bw r hs hc hchunk] at hd ⊢
          rw [write_loop_drive data (fuel + 1) sent c bw r hs hc hchunk]
          cases hr : (wmTlsDriveRecords E os fuel c none).ret with
          | none =>
            rw [hr] at hd
            exact absurd rfl hd
          | some ok =>
            rw [hdrive (by simp [hr]), hdrive' (by simp [hret, hr]), hr]
            rw [hr] at hd
            dsimp only at hd ⊢
            split_ifs at hd ⊢
            · rfl
            · exact ih _ _ _ _ hd
        · rw [write_loop_sendapp data fuel sent c bw r hs hc hchunk] at hd ⊢
          rw [write_loop_sendapp data (fuel + 1) sent c bw r hs hc hchunk]
          exact ih _ _ _ _ hd
    · simp only [write_loop_done data _ sent c bw r hs]

theorem write_settles (conn : Option (Conn σ)) (data : InBuf) (bw : Option ℕ) (r : ResultPtr) :
    Settles (fun o => o.ret ≠ none) fun fuel => wmTlsWrite E os fuel conn data bw r := by
  intro fuel hd
  cases conn with
  | none => rfl
  | some c =>
    simp only [wmTlsWrite] at hd ⊢
    split_ifs at hd ⊢
    · rfl
    · have := write_loop_settles E os data.bytes 0 c (bw.map fun _ => 0)
        (wmHttpsZeroResult r) fuel hd
      dsimp only at this
      rw [this]

end BearTLS
