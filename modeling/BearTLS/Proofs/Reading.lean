import BearTLS.Proofs.Runs

/-! How a `wm_tls_read` ends. Its loop pumps records until it meets one of four
exits; the log of the call tells them apart. -/

namespace BearTLS

open Relation Trace

variable {σ α : Type} {E : Engine σ} {H : History σ} {os : Host σ}

/-- `recv` has returned 0. -/
def EofSeen (l : Log σ) : Prop := ∃ sock e want, Event.recv sock e want (some []) ∈ l

/-- A `send` or `recv` that the driver takes for a failure. -/
def Event.failed : Event σ → Prop
  | .send _ _ wr => wr.getD 0 = 0
  | .recv _ _ _ rd => rd = none
  | _ => False

def FailureSeen (l : Log σ) : Prop := ∃ ev ∈ l, ev.failed

@[simp] theorem eofSeen_nil : ¬ EofSeen ([] : Log σ) := by
  simp [EofSeen]

@[simp] theorem eofSeen_append {l m : Log σ} : EofSeen (l ++ m) ↔ EofSeen l ∨ EofSeen m := by
  simp only [EofSeen, List.mem_append]
  constructor
  · rintro ⟨s, e, w, h | h⟩
    · exact .inl ⟨s, e, w, h⟩
    · exact .inr ⟨s, e, w, h⟩
  · rintro (⟨s, e, w, h⟩ | ⟨s, e, w, h⟩)
    · exact ⟨s, e, w, .inl h⟩
    · exact ⟨s, e, w, .inr h⟩

@[simp] theorem failureSeen_nil : ¬ FailureSeen ([] : Log σ) := by
  simp [FailureSeen]

@[simp] theorem failureSeen_append {l m : Log σ} :
    FailureSeen (l ++ m) ↔ FailureSeen l ∨ FailureSeen m := by
  simp only [FailureSeen, List.mem_append, or_and_right, exists_or]

@[simp] theorem failureSeen_single {ev : Event σ} : FailureSeen [ev] ↔ ev.failed := by
  simp [FailureSeen]

theorem send_pending_spec (fuel : ℕ) (c : Conn σ) :
    ∃ evs, (wmTlsSendPendingRecords E os fuel c none).conn.log = c.log ++ evs ∧ ¬ EofSeen evs ∧
      (wmTlsSendPendingRecords E os fuel c none).conn.closed = c.closed ∧
      ((wmTlsSendPendingRecords E os fuel c none).ret = some false → FailureSeen evs ∧
        E.sendrecBuf (wmTlsSendPendingRecords E os fuel c none).conn.eng ≠ []) ∧
      ((wmTlsSendPendingRecords E os fuel c none).ret = some true → ¬ FailureSeen evs ∧
        E.sendrecBuf (wmTlsSendPendingRecords E os fuel c none).conn.eng = []) := by
  induction fuel generalizing c with
  | zero =>
    exact ⟨[], by simp [wmTlsSendPendingRecords], by simp, rfl, (by intro h; cases h),
      by intro h; cases h⟩
  | succ fuel ih =>
    simp only [wmTlsSendPendingRecords]
    split_ifs with hlen hwr
    · exact ⟨[.send c.sock (E.sendrecBuf c.eng) _], rfl, by simp [EofSeen], rfl,
        fun _ => ⟨by simpa [Event.failed] using hwr, List.ne_nil_of_length_pos hlen⟩, by simp⟩
    · obtain ⟨evs, hlog, heof, hclosed, hfail, hok⟩ := ih { c.did (.send c.sock (E.sendrecBuf c.eng)
          ((os.send c.log (E.sendrecBuf c.eng)).map Fin.val)) with
        eng := E.sendrecAck c.eng (((os.send c.log (E.sendrecBuf c.eng)).map Fin.val).getD 0) }
      refine ⟨.send c.sock (E.sendrecBuf c.eng)
        ((os.send c.log (E.sendrecBuf c.eng)).map Fin.val) :: evs, ?_, ?_, hclosed, ?_, ?_⟩
      · exact hlog.trans (by simp [Conn.did])
      · rintro ⟨s, e, w, hmem⟩
        exact heof ⟨s, e, w, by simpa using hmem⟩
      · intro hret
        obtain ⟨⟨ev, hev, hf⟩, hbuf⟩ := hfail hret
        exact ⟨⟨ev, List.mem_cons_of_mem _ hev, hf⟩, hbuf⟩
      · intro hret
        obtain ⟨hnone, hbuf⟩ := hok hret
        refine ⟨?_, hbuf⟩
        rintro ⟨ev, hev, hf⟩
        rcases List.mem_cons.mp hev with rfl | hev
        · exact hwr hf
        · exact hnone ⟨ev, hev, hf⟩
    · exact ⟨[], by simp, by simp, rfl, by simp, fun _ => ⟨by simp,
        List.eq_nil_of_length_eq_zero (Nat.eq_zero_of_not_pos hlen)⟩⟩

theorem recv_pending_spec (c : Conn σ) :
    (wmTlsRecvPendingRecords E os c none).ret ≠ none ∧
    ∃ evs, (wmTlsRecvPendingRecords E os c none).conn.log = c.log ++ evs ∧
      ((wmTlsRecvPendingRecords E os c none).ret = some false → FailureSeen evs ∧
        ¬ EofSeen evs ∧ (wmTlsRecvPendingRecords E os c none).conn.eng = c.eng) ∧
      ((wmTlsRecvPendingRecords E os c none).ret = some true → ¬ FailureSeen evs) ∧
      ((wmTlsRecvPendingRecords E os c none).conn.closed = true ↔
        c.closed = true ∨ EofSeen evs) := by
  simp only [wmTlsRecvPendingRecords]
  by_cases hl : E.recvrecBuf c.eng = 0
  · simp only [hl, if_true]
    exact ⟨by simp, [], by simp, by simp, by simp, by simp⟩
  · simp only [hl, if_false]
    set want := if E.recvrecBuf c.eng < WM_HTTPS_RECV_CHUNK then E.recvrecBuf c.eng
      else WM_HTTPS_RECV_CHUNK
    cases (os.recv c.log want).map Subtype.val with
    | none =>
      exact ⟨by simp, [_], rfl, fun _ => ⟨by simp [Event.failed], by simp [EofSeen], rfl⟩, by simp,
        by simp [EofSeen, Conn.did]⟩
    | some bs =>
      cases bs with
      | nil =>
        exact ⟨by simp, [_], rfl, by simp, by simp [Event.failed], by
          simp only [true_iff]
          exact .inr ⟨_, _, _, List.mem_singleton_self _⟩⟩
      | cons b bs =>
        exact ⟨by simp, [_], rfl, by simp, by simp [Event.failed], by simp [EofSeen, Conn.did]⟩

/-- One call of the driver on an engine that is not closed. -/
theorem drive_spec (fuel : ℕ) (c : Conn σ) (hc : (E.currentState c.eng).closed = false) :
    ∃ evs, (wmTlsDriveRecords E os fuel c none).conn.log = c.log ++ evs ∧
      ((wmTlsDriveRecords E os fuel c none).ret = some false →
        FailureSeen evs ∧ ¬ EofSeen evs ∧
        (E.sendrecBuf (wmTlsDriveRecords E os fuel c none).conn.eng ≠ [] ∨
          (E.currentState (wmTlsDriveRecords E os fuel c none).conn.eng).ReadyToReceive)) ∧
      ((wmTlsDriveRecords E os fuel c none).ret = some true → ¬ FailureSeen evs) ∧
      ((wmTlsDriveRecords E os fuel c none).conn.closed = true ↔
        c.closed = true ∨ EofSeen evs) := by
  simp only [wmTlsDriveRecords, hc, Bool.false_eq_true, if_false]
  split_ifs with hsend hrecv
  · obtain ⟨evs, hlog, heof, hclosed, hfail, hok⟩ := send_pending_spec (E := E) fuel c
    exact ⟨evs, hlog, fun hret => ⟨(hfail hret).1, heof, .inl (hfail hret).2⟩,
      fun hret => (hok hret).1, by simp [hclosed, heof]⟩
  · obtain ⟨-, evs, hlog, hfail, hok, hclosed⟩ := recv_pending_spec (E := E) c
    refine ⟨evs, hlog, fun hret => ?_, hok, hclosed⟩
    obtain ⟨hf, heof, heng⟩ := hfail hret
    exact ⟨hf, heof, .inr (heng ▸ ⟨hc, by simpa using hsend, hrecv⟩)⟩
  · exact ⟨[], by simp, by simp, by simp, by simp⟩

variable (E os) in
/-- A turn of the read loop that ends neither the call nor the connection. -/
structure PumpStep (size : ℕ) (c c' : Conn σ) : Prop where
  opened : (E.currentState c.eng).closed = false
  idle : readTake E size c.eng = 0
  driven : ∃ fuel, (wmTlsDriveRecords E os fuel c none).ret = some true ∧
    (wmTlsDriveRecords E os fuel c none).conn = c'
  flag : c'.closed = false

variable (E os) in
/-- The exits of the read loop at its head `c`, with return value, bytes stored
and last state. `nul` says whether `result` is NULL. -/
inductive ReadExit (size : ℕ) (nul : Bool) (c : Conn σ) : Bool → List UInt8 → Conn σ → Prop
  | closed (hc : (E.currentState c.eng).closed = true) :
      ReadExit size nul c (nul || E.lastError c.eng = 0) [] { c with closed := true }
  | deliver (hc : (E.currentState c.eng).closed = false) (ht : 0 < readTake E size c.eng) :
      ReadExit size nul c true ((E.recvappBuf c.eng).take (readTake E size c.eng))
        ({ c with eng := E.recvappAck c.eng (readTake E size c.eng) }.did
          (.recvapp ((E.recvappBuf c.eng).take (readTake E size c.eng))))
  | failed (hc : (E.currentState c.eng).closed = false) (ht : readTake E size c.eng = 0)
      (fuel : ℕ) (hret : (wmTlsDriveRecords E os fuel c none).ret = some false) :
      ReadExit size nul c false [] (wmTlsDriveRecords E os fuel c none).conn
  | flagged (hc : (E.currentState c.eng).closed = false) (ht : readTake E size c.eng = 0)
      (fuel : ℕ) (hret : (wmTlsDriveRecords E os fuel c none).ret = some true)
      (hflag : (wmTlsDriveRecords E os fuel c none).conn.closed = true) :
      ReadExit size nul c true [] (wmTlsDriveRecords E os fuel c none).conn

section Field

variable {β : Type} {f : WmHttpsResult → β} (hwsa : ∀ x v, f { x with wsaError := v } = f x)
  (htls : ∀ x v, f { x with tlsError := v } = f x)

include hwsa in
theorem send_pending_field (fuel : ℕ) (c : Conn σ) (r : ResultPtr) :
    (wmTlsSendPendingRecords E os fuel c r).result.map f = r.map f := by
  induction fuel generalizing c with
  | zero => rfl
  | succ fuel ih =>
    simp only [wmTlsSendPendingRecords]
    split_ifs
    · cases r with
      | none => rfl
      | some x => exact congrArg some (hwsa x _)
    · exact ih _
    · rfl

include hwsa htls in
/-- The driver stores nothing but error codes. -/
theorem drive_field (fuel : ℕ) (c : Conn σ) (r : ResultPtr) :
    (wmTlsDriveRecords E os fuel c r).result.map f = r.map f := by
  simp only [wmTlsDriveRecords]
  split_ifs
  · cases r with
    | none => rfl
    | some x => exact congrArg some (htls x _)
  · exact send_pending_field hwsa fuel c r
  · simp only [wmTlsRecvPendingRecords]
    by_cases hl : E.recvrecBuf c.eng = 0
    · simp only [if_pos hl]
    · simp only [if_neg hl]
      split
      · cases r with
        | none => rfl
        | some x => exact congrArg some (hwsa x _)
      · rfl
      · rfl
  · rfl

end Field

theorem send_pending_null (fuel : ℕ) (c : Conn σ) (r : ResultPtr) :
    (wmTlsSendPendingRecords E os fuel c r).result = none ↔ r = none := by
  induction fuel generalizing c with
  | zero => exact Iff.rfl
  | succ fuel ih =>
    simp only [wmTlsSendPendingRecords]
    split_ifs
    · simp
    · exact ih _
    · exact Iff.rfl

theorem drive_null (fuel : ℕ) (c : Conn σ) (r : ResultPtr) :
    (wmTlsDriveRecords E os fuel c r).result = none ↔ r = none := by
  simp only [wmTlsDriveRecords]
  split_ifs
  · simp
  · exact send_pending_null fuel c r
  · simp only [wmTlsRecvPendingRecords]
    by_cases hl : E.recvrecBuf c.eng = 0
    · simp [hl]
    · simp only [hl, if_false]
      split <;> simp
  · exact Iff.rfl

theorem read_loop_exit (size fuel : ℕ) (c : Conn σ) (br : Option ℕ) (r : ResultPtr) {ok : Bool}
    (h : (wmTlsReadLoop E os size fuel c br r).ret = some ok) :
    ∃ head, ReflTransGen (PumpStep E os size) c head ∧
      ReadExit E os size (r = none) head ok (wmTlsReadLoop E os size fuel c br r).data
        (wmTlsReadLoop E os size fuel c br r).conn := by
  induction fuel generalizing c r with
  | zero => cases h
  | succ fuel ih =>
    cases hc : (E.currentState c.eng).closed with
    | true =>
      rw [read_loop_closed size fuel c br r hc] at h ⊢
      obtain rfl := Option.some.inj h
      exact ⟨c, .refl, .closed hc⟩
    | false =>
      rcases Nat.eq_zero_or_pos (readTake E size c.eng) with ht | ht
      · have hnull : (wmTlsDriveRecords E os fuel c r).result = none ↔ r = none :=
          drive_null fuel c r
        rw [read_loop_drive size fuel c br r hc ht] at h ⊢
        cases hr : (wmTlsDriveRecords E os fuel c none).ret with
        | none =>
          rw [hr] at h
          simp at h
        | some done =>
          rw [hr] at h
          cases done with
          | false =>
            obtain rfl := Option.some.inj h
            exact ⟨c, .refl, .failed hc ht fuel hr⟩
          | true =>
            simp only at h ⊢
            split_ifs at h ⊢ with hflag
            · obtain rfl := Option.some.inj h
              exact ⟨c, .refl, .flagged hc ht fuel hr hflag⟩
            · obtain ⟨head, hpump, hexit⟩ := ih _ _ h
              have hstep : PumpStep E os size c (wmTlsDriveRecords E os fuel c none).conn :=
                ⟨hc, ht, ⟨fuel, hr, rfl⟩, by simpa using hflag⟩
              refine ⟨head, .head hstep hpump, ?_⟩
              simpa only [hnull] using hexit
      · rw [read_loop_deliver size fuel c br r hc ht] at h ⊢
        obtain rfl := Option.some.inj h
        exact ⟨c, .refl, .deliver hc ht⟩

/-- A call of `wm_tls_read` that returns is rejected, or pumps to an exit. -/
theorem read_exit {size fuel : ℕ} {c c' : Conn σ} {buffer ok : Bool} {br br' : Option ℕ}
    {data : List UInt8} {r r' : ResultPtr}
    (h : wmTlsRead E os fuel (some c) buffer size br r = ⟨some ok, some c', data, br', r'⟩) :
    ((buffer = false ∨ size = 0) ∧ ok = false ∧ c' = c ∧ data = []) ∨
    ∃ head, ReflTransGen (PumpStep E os size) c head ∧
      ReadExit E os size (r = none) head ok data c' := by
  simp only [wmTlsRead] at h
  split_ifs at h with hnull
  · cases h
    exact .inl ⟨hnull, rfl, rfl, rfl⟩
  · simp only [ReadOut.mk.injEq, Option.some.injEq] at h
    obtain ⟨hret, rfl, rfl, -, -⟩ := h
    obtain ⟨head, hpump, hexit⟩ := read_loop_exit size fuel c _ _ hret
    refine .inr ⟨head, hpump, ?_⟩
    simpa using hexit

theorem pump_steps {size : ℕ} {c head : Conn σ} (h : ReflTransGen (PumpStep E os size) c head) :
    RecordSteps E os c head := by
  induction h with
  | refl => exact ReflTransGen.refl
  | tail _ hs ih =>
    obtain ⟨fuel, -, rfl⟩ := hs.driven
    exact ih.trans (drive_steps fuel _)

/-- Pumping neither ends the connection nor fails. -/
theorem pump_log {size : ℕ} {c head : Conn σ} (h : ReflTransGen (PumpStep E os size) c head) :
    ∃ evs, head.log = c.log ++ evs ∧ ¬ EofSeen evs ∧ ¬ FailureSeen evs ∧
      (head = c ∨ (c.closed = false ∧ head.closed = false)) := by
  induction h with
  | refl => exact ⟨[], by simp, by simp, by simp, .inl rfl⟩
  | @tail mid head _ hs ih =>
    obtain ⟨evs, hlog, heof, hfail, hfirst⟩ := ih
    have hend := hs.flag
    obtain ⟨fuel, hret, rfl⟩ := hs.driven
    obtain ⟨evs', hlog', -, hok, hflag⟩ := drive_spec fuel mid hs.opened
    have hnew : ¬ (mid.closed = true ∨ EofSeen evs') := by
      rw [← hflag, hend]
      rintro ⟨⟩
    refine ⟨evs ++ evs', by rw [hlog', hlog, List.append_assoc], ?_, ?_, .inr ⟨?_, hend⟩⟩
    · rw [eofSeen_append]
      intro h
      exact h.elim heof fun h' => hnew (.inr h')
    · rw [failureSeen_append]
      intro h
      exact h.elim hfail (hok hret)
    · rcases hfirst with rfl | ⟨hfirst, -⟩
      · simpa using fun h => hnew (.inl h)
      · exact hfirst

/-- The events of a call that has pumped to `head` and left by an exit there. -/
theorem read_exit_log {size : ℕ} {nul ok : Bool} {c head c' : Conn σ} {data : List UInt8}
    (hpump : ReflTransGen (PumpStep E os size) c head)
    (hexit : ReadExit E os size nul head ok data c') :
    ∃ evs, c'.log = c.log ++ evs ∧ (FailureSeen evs → ok = false) ∧
      ((E.currentState head.eng).closed = false → ok = false → FailureSeen evs) ∧
      (EofSeen evs → ok = true ∧ data = []) ∧
      (c'.closed = true → head = c ∧ c.closed = true ∨ (E.currentState head.eng).closed = true ∨
        EofSeen evs) := by
  obtain ⟨evs, hlog, heof, hfail, hfirst⟩ := pump_log hpump
  have hflag : head.closed = true → head = c ∧ c.closed = true := by
    intro h
    rcases hfirst with rfl | ⟨-, hopen⟩
    · exact ⟨rfl, h⟩
    · exact absurd (hopen.symm.trans h) Bool.false_ne_true
  cases hexit with
  | closed hc =>
    exact ⟨evs, hlog, fun h => absurd h hfail, fun h => absurd (hc.symm.trans h) (by simp),
      fun h => absurd h heof, fun _ => .inr (.inl hc)⟩
  | deliver hc ht =>
    refine ⟨evs ++ [.recvapp ((E.recvappBuf head.eng).take (readTake E size head.eng))],
      by simp [Conn.did, hlog], ?_, (by rintro _ ⟨⟩), ?_, fun h => .inl (hflag h)⟩
    · simp [hfail, Event.failed]
    · rw [eofSeen_append]
      rintro (h | ⟨_, _, _, h⟩)
      · exact absurd h heof
      · exact absurd (List.mem_singleton.mp h) (by simp)
  | failed hc ht fuel hret =>
    obtain ⟨evs', hlog', hbad, -, hset⟩ := drive_spec fuel head hc
    refine ⟨evs ++ evs', by rw [hlog', hlog, List.append_assoc], fun _ => rfl, fun _ _ => ?_,
      ?_, ?_⟩
    · exact failureSeen_append.mpr (.inr (hbad hret).1)
    · rw [eofSeen_append]
      intro h
      exact absurd h (not_or.mpr ⟨heof, (hbad hret).2.1⟩)
    · intro h
      exact .inl (hflag ((hset.mp h).resolve_right (hbad hret).2.1))
  | flagged hc ht fuel hret hflagged =>
    obtain ⟨evs', hlog', -, hok, hset⟩ := drive_spec fuel head hc
    refine ⟨evs ++ evs', by rw [hlog', hlog, List.append_assoc], ?_, (by rintro _ ⟨⟩),
      fun _ => ⟨rfl, rfl⟩, ?_⟩
    · rw [failureSeen_append]
      intro h
      exact absurd h (not_or.mpr ⟨hfail, hok hret⟩)
    · intro h
      rcases hset.mp h with h | h
      · exact .inl (hflag h)
      · exact .inr (.inr (eofSeen_append.mpr (.inr h)))

end BearTLS
