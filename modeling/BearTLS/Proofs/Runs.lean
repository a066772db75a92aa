import BearTLS.Proofs.Calls
import BearTLS.Spec.Runs

/-! The streaming API over whole runs. The invariant `Account` ties the caller's
view of a run (its history) to the connection's own part of the log and to the
engine; the stream properties are read off it. -/

namespace BearTLS

open Relation Trace

variable {σ α : Type} {E : Engine σ} {H : History σ} {os : Host σ}
  {reset : α → List UInt8 → Bool × σ} {base : Log σ}

variable (E H) in
/-- `own` is what the log has grown by since `wm_tls_open` was called. -/
structure Account (base : Log σ) (c : Conn σ) (hist : List CallRecord) (own : Log σ) : Prop where
  log : c.log = base ++ own
  ledger : Ledger E H own c.eng
  accepted : sendappBytes own = accepted hist
  delivered : recvappBytes own = delivered hist

theorem write_steps {fuel : ℕ} {c c' : Conn σ} {data : InBuf} {bw : Option ℕ} {r : ResultPtr}
    (h : (wmTlsWrite E os fuel (some c) data bw r).conn = some c') :
    DriverSteps E os (c.closed = true) c c' := by
  simp only [wmTlsWrite] at h
  split_ifs at h with hnull
  · obtain rfl := Option.some.inj h
    exact ReflTransGen.refl
  · obtain rfl := Option.some.inj h
    exact write_loop_steps _ _ _ _ _ _

theorem read_steps {fuel size : ℕ} {c c' : Conn σ} {buffer : Bool} {br : Option ℕ}
    {r : ResultPtr} (h : (wmTlsRead E os fuel (some c) buffer size br r).conn = some c') :
    DriverSteps E os False c c' := by
  simp only [wmTlsRead] at h
  split_ifs at h with hnull
  · obtain rfl := Option.some.inj h
    exact ReflTransGen.refl
  · obtain rfl := Option.some.inj h
    exact read_loop_steps _ _ _ _ _

theorem underway_steps {c c' : Conn σ} (h : Underway E os c c') :
    DriverSteps E os (c.closed = true) c c' := by
  cases h with
  | write fuel data bw r h => exact write_steps h
  | read fuel size buffer br r h => exact (read_steps h).mono False.elim

theorem call_underway {c c' : Conn σ} {a : CallRecord} (h : CallStep E os c a c') :
    Underway E os c c' := by
  cases h with
  | write h hn => exact .write _ _ _ _ (by rw [h])
  | read h => exact .read _ _ _ _ _ (by rw [h])

theorem write_account {fuel n : ℕ} {c c' : Conn σ} {data : InBuf} {bw bw' : Option ℕ}
    {r r' : ResultPtr} {ok : Bool}
    (h : wmTlsWrite E os fuel (some c) data bw r = ⟨some ok, some c', bw', r'⟩)
    (hn : (wmTlsWrite E os fuel (some c) data (some 0) r).bytesWritten = some n) :
    (bw' = bw.map fun _ => n) ∧ n ≤ data.bytes.length ∧ (ok = true → n = data.bytes.length) ∧
      ∃ evs, c'.log = c.log ++ evs ∧ sendappBytes evs = data.bytes.take n ∧
        recvappBytes evs = [] := by
  simp only [wmTlsWrite] at h hn
  split_ifs at h hn with hnull
  · cases h
    cases hn
    exact ⟨rfl, Nat.zero_le _, by simp, [], by simp, by simp [sendappBytes], rfl⟩
  · obtain ⟨n', evs, -, hle, hbw, hlog, hput, htook, hret⟩ := write_loop_account
      (E := E) data.bytes fuel 0 c (wmHttpsZeroResult r) (Nat.zero_le _)
    obtain rfl := Option.some.inj (hbw.symm.trans hn)
    cases bw with
    | none =>
      rw [Option.map_none, write_loop_uncounted data.bytes fuel 0 0] at h
      simp only [WriteOut.mk.injEq, Option.some.injEq] at h
      obtain ⟨hok, rfl, rfl, -⟩ := h
      exact ⟨rfl, hle, fun hok' => hret (hok' ▸ hok), evs, hlog, hput, htook⟩
    | some k =>
      simp only [Option.map_some, WriteOut.mk.injEq, Option.some.injEq] at h
      obtain ⟨hok, rfl, rfl, -⟩ := h
      exact ⟨hbw, hle, fun hok' => hret (hok' ▸ hok), evs, hlog, hput, htook⟩

theorem read_account {fuel size : ℕ} {c c' : Conn σ} {buffer : Bool} {data : List UInt8}
    {br br' : Option ℕ} {r r' : ResultPtr} {ok : Bool}
    (h : wmTlsRead E os fuel (some c) buffer size br r = ⟨some ok, some c', data, br', r'⟩) :
    (br' = br.map fun _ => data.length) ∧ ∃ evs, c'.log = c.log ++ evs ∧ sendappBytes evs = [] ∧
      recvappBytes evs = data := by
  simp only [wmTlsRead] at h
  split_ifs at h with hnull
  · cases h
    exact ⟨rfl, [], by simp, rfl, rfl⟩
  · obtain ⟨evs, hlog, hput, htook, hbr⟩ := read_loop_account (E := E) size fuel c
      (br.map fun _ => 0) (wmHttpsZeroResult r) (by cases br <;> rfl)
    simp only [ReadOut.mk.injEq, Option.some.injEq] at h
    obtain ⟨-, rfl, rfl, rfl, -⟩ := h
    exact ⟨by rw [hbr, Option.map_map]; rfl, evs, hlog, hput, htook⟩

/-- The caller's account of one call against the log. -/
theorem call_account {c c' : Conn σ} {a : CallRecord} (h : CallStep E os c a c') :
    ∃ evs, c'.log = c.log ++ evs ∧ sendappBytes evs = a.accepted ∧
      recvappBytes evs = a.delivered := by
  cases h with
  | write h hn =>
    obtain ⟨-, -, -, evs, hlog, hput, htook⟩ := write_account h hn
    exact ⟨evs, hlog, hput, htook⟩
  | read h =>
    obtain ⟨-, evs, hlog, hput, htook⟩ := read_account h
    exact ⟨evs, hlog, hput, htook⟩

theorem account_step (hE : E.Lawful H) {c c' : Conn σ} {a : CallRecord} {hist : List CallRecord}
    {own : Log σ} (h : Account E H base c hist own) (hs : CallStep E os c a c') :
    ∃ evs, Account E H base c' (hist ++ [a]) (own ++ evs) := by
  obtain ⟨evs, hlog, hput, htook⟩ := call_account hs
  obtain ⟨evs', hlog', hled⟩ := ledger_steps hE h.ledger (underway_steps (call_underway hs))
  obtain rfl : evs = evs' := List.append_cancel_left (hlog.symm.trans hlog')
  refine ⟨evs, ?_, hled, ?_, ?_⟩
  · rw [hlog, h.log, List.append_assoc]
  · rw [sendappBytes_append, h.accepted, hput, accepted_append, accepted_single]
  · rw [recvappBytes_append, h.delivered, htook, delivered_append, delivered_single]

section Opening

variable (hE : E.Lawful H) (hreset : ∀ a name e, reset a name = (true, e) → H.Fresh e)

include hreset in
/-- `wm_tls_open` enters its handshake loop with an empty account. -/
theorem handshake_account {c : Conn σ} (h : AtHandshake reset base c) :
    ∃ own, Account E H base c [] own := by
  obtain ⟨a, name, ha⟩ := h.engine
  have hfresh := hreset a name c.eng ha
  obtain ⟨own, hlog, -, hled⟩ := ledger_setup_after (ledger_fresh (E := E) hfresh)
    (by simpa using h.setup)
  refine ⟨own, hlog, hled, ?_, ?_⟩
  · rw [hled.injected, hfresh.payload, accepted_nil]
  · rw [hled.delivered, hfresh.taken, List.take_zero, delivered_nil]

include hE in
theorem record_steps_account {c c' : Conn σ} {hist : List CallRecord} {own : Log σ}
    (h : Account E H base c hist own) (hs : RecordSteps E os c c') :
    ∃ evs, Account E H base c' hist (own ++ evs) := by
  obtain ⟨evs, hlog, hput, htook⟩ := record_steps_log hs
  obtain ⟨evs', hlog', hled⟩ := ledger_steps hE h.ledger (hs.driver : DriverSteps E os False c c')
  obtain rfl : evs = evs' := List.append_cancel_left (hlog.symm.trans hlog')
  refine ⟨evs, ?_, hled, ?_, ?_⟩
  · rw [hlog, h.log, List.append_assoc]
  · rw [sendappBytes_append, h.accepted, hput, List.append_nil]
  · rw [recvappBytes_append, h.delivered, htook, List.append_nil]

include hE hreset in
theorem open_account {c : Conn σ} (h : Opened E os reset base c) :
    ∃ own, Account E H base c [] own := by
  obtain ⟨anchors, fuel, host, port, sniHost, outConn, r, hret, hout⟩ := h
  rcases open_cases (E := E) anchors reset fuel host port sniHost outConn base r with
    ⟨hfail, -⟩ | ⟨c₀, hat, ⟨-, -, hconn, -⟩ | ⟨hfail, -⟩⟩
  · exact absurd (hret.symm.trans hfail) (by decide)
  · obtain ⟨own, hacc⟩ := handshake_account hreset hat
    obtain rfl : c = _ := Option.some.inj (Option.some.inj (hout.symm.trans hconn))
    obtain ⟨evs, hacc'⟩ := record_steps_account hE hacc (handshake_steps fuel c₀)
    exact ⟨own ++ evs, hacc'⟩
  · exact absurd hret hfail

theorem handshake_flag (fuel : ℕ) (c : Conn σ) (r : ResultPtr) (hc : c.closed = false)
    (h : (wmTlsHandshake E os fuel c r).ret = some true) :
    (wmTlsHandshake E os fuel c r).conn.closed = false := by
  induction fuel generalizing c r with
  | zero => cases h
  | succ fuel ih =>
    simp only [wmTlsHandshake] at h ⊢
    split_ifs at h ⊢ with hs
    · exact hc
    · cases hr : (wmTlsDriveRecords E os fuel c r).ret with
      | none =>
        simp only [hr] at h
        simp at h
      | some ok =>
        simp only [hr] at h ⊢
        split_ifs at h ⊢ with hstop
        · simp at h
        · simp only [Bool.or_eq_true, not_or, Bool.not_eq_true] at hstop
          exact ih _ _ hstop.2 h

/-- A connection is handed out with its `closed` flag clear. -/
theorem open_flag {c : Conn σ} (h : Opened E os reset base c) : c.closed = false := by
  obtain ⟨anchors, fuel, host, port, sniHost, outConn, r, hret, hout⟩ := h
  rcases open_cases (E := E) anchors reset fuel host port sniHost outConn base r with
    ⟨hfail, -⟩ | ⟨c₀, hat, ⟨hhs, -, hconn, -⟩ | ⟨hfail, -⟩⟩
  · exact absurd (hret.symm.trans hfail) (by decide)
  · obtain rfl : c = _ := Option.some.inj (Option.some.inj (hout.symm.trans hconn))
    exact handshake_flag fuel c₀ none hat.closed hhs
  · exact absurd hret hfail

include hE hreset in
/-- What `wm_tls_open` logs, at any moment and for any outcome. -/
theorem open_log (anchors : Option α) (fuel : ℕ) (host : Option (List UInt8)) (port : ℕ)
    (sniHost : Option (List UInt8)) (outConn : Option (Option (Conn σ))) (r : ResultPtr) :
    ∃ own, (wmTlsOpen E os anchors reset fuel host port sniHost outConn base r).log =
        base ++ own ∧ ((∀ ev ∈ own, ev.isSetup = true) ∨ ∃ e, Ledger E H own e) := by
  rcases open_cases (E := E) anchors reset fuel host port sniHost outConn base r with
    ⟨-, own, hlog, hown⟩ | ⟨c, hat, hcases⟩
  · exact ⟨own, hlog, .inl hown⟩
  · obtain ⟨own, hacc⟩ := handshake_account hreset hat
    have hsteps : RecordSteps E os c _ := handshake_steps fuel c
    obtain ⟨evs, hacc'⟩ := record_steps_account hE hacc hsteps
    have hafter : SetupAfter (base ++ (own ++ evs))
        (wmTlsOpen E os anchors reset fuel host port sniHost outConn base r).log := by
      rw [← hacc'.log]
      rcases hcases with ⟨-, -, -, hlog⟩ | ⟨-, hlog⟩
      · exact hlog ▸ .refl _
      · exact hlog
    obtain ⟨own', hlog, -, hled⟩ := ledger_setup_after hacc'.ledger hafter
    exact ⟨own', hlog, .inr ⟨_, hled⟩⟩

include hE hreset in
/-- Every run keeps the account. -/
theorem run_account {c : Conn σ} {hist : List CallRecord} (h : ApiRun E os reset base c hist) :
    ∃ own, Account E H base c hist own := by
  refine Run.invariant (fun c hist => ∃ own, Account E H base c hist own) ?_ ?_ h
  · intro c hc
    exact open_account hE hreset hc
  · rintro c hist a c' ⟨own, hacc⟩ hs
    obtain ⟨evs, hacc'⟩ := account_step hE hacc hs
    exact ⟨own ++ evs, hacc'⟩

end Opening

end BearTLS
