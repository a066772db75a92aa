import BearTLS.Lib.Trace
import BearTLS.Proofs.Driver

/-! The ledger of a connection: its engine's history against what its log says
was sent, received, put in and taken out. One step of the driver keeps it, so
it holds at every moment of every call. -/

namespace BearTLS

open Relation Trace

variable {σ : Type} (E : Engine σ) (H : History σ)

/-- At a call of `recv` in state `e`, after the actions `pre`: nothing is left
to send, and all plaintext put in so far is inside the records sent. -/
structure RecvQuiet (pre : Log σ) (e : σ) : Prop where
  no_record : E.sendrecBuf e = []
  no_plaintext : H.acc e = []
  sent : sentBytes pre = H.wire e
  injected : sendappBytes pre = payloadOf (H.recs e)

/-- What a log says about each call of `send` and `recv`, with the output
stream `wire` of the engine at the end. -/
def WireDiscipline (wire : List UInt8) (pre : Log σ) : Event σ → Prop
  | .send _ buf _ => sentBytes pre ++ buf <+: wire
  | .recv _ e _ _ => RecvQuiet E H pre e
  | _ => True

structure Ledger (own : Log σ) (e : σ) : Prop where
  isOpen : H.Open e
  acc : H.acc e = []
  sent : sentBytes own = (H.wire e).take (H.acked e)
  injected : sendappBytes own = payloadOf (H.recs e)
  received : receivedBytes own = H.fed e
  taken_le : H.taken e ≤ (H.plain (H.fed e)).length
  delivered : recvappBytes own = (H.plain (H.fed e)).take (H.taken e)
  calls : Always (WireDiscipline E H (H.wire e)) own

variable {E H}

theorem WireDiscipline.grow {w w' : List UInt8} (hw : w <+: w') {pre : Log σ} {ev : Event σ}
    (h : WireDiscipline E H w pre ev) : WireDiscipline E H w' pre ev := by
  cases ev with
  | send s buf wr => exact List.IsPrefix.trans h hw
  | _ => exact h

theorem ledger_fresh {e : σ} (h : H.Fresh e) : Ledger E H [] e where
  isOpen := h.toOpen
  acc := h.acc
  sent := by simp [sentBytes, h.acked]
  injected := by simp [sendappBytes, h.payload]
  received := by simp [receivedBytes, h.fed]
  taken_le := by simp [h.taken]
  delivered := by simp [recvappBytes, h.taken]
  calls := always_nil

/-- The output stream after an engine call, for a call that accumulates nothing. -/
theorem Advance.output {e e' : σ} {n : ℕ} {bs : List UInt8} {k : ℕ}
    (h : H.Advance e e' n [] bs k) (hacc : H.acc e = []) :
    H.acc e' = [] ∧ payloadOf (H.recs e') = payloadOf (H.recs e) ∧ H.wire e <+: H.wire e' := by
  obtain ⟨new, hrecs, hpay⟩ := h.recs
  rw [hacc, List.append_nil, List.append_eq_nil_iff] at hpay
  refine ⟨hpay.2, ?_, ?_⟩
  · rw [hrecs, payloadOf_append, hpay.1, List.append_nil]
  · simp only [History.wire, hrecs, wireOf_append]
    exact List.prefix_append _ _

theorem take_eq_of_prefix {xs ys : List UInt8} (h : xs <+: ys) {n : ℕ} (hn : n ≤ xs.length) :
    ys.take n = xs.take n := by
  rw [List.prefix_iff_eq_take.mp h, List.take_take, Nat.min_eq_left hn]

/-- An engine call that leaves the log's plaintext alone keeps the ledger, once
the new entry of the log accounts for the bytes sent and received. -/
theorem ledger_advance (hE : E.Lawful H) {own : Log σ} {e e' : σ} (h : Ledger E H own e)
    {n : ℕ} {bs : List UInt8} {ev : Event σ} (hstep : H.Step e e' n [] bs 0)
    (hsent : sentBytes [ev] = ((H.wire e).drop (H.acked e)).take n)
    (hn : H.acked e + n ≤ (H.wire e).length) (hrecv : receivedBytes [ev] = bs)
    (hput : sendappBytes [ev] = []) (htook : recvappBytes [ev] = [])
    (hcall : WireDiscipline E H (H.wire e) own ev) : Ledger E H (own ++ [ev]) e' := by
  obtain ⟨hacc, hpay, hwire⟩ := Advance.output hstep.toAdvance h.acc
  have hplain := hE.plain_mono (H.fed e) bs
  rw [← hstep.fed] at hplain
  constructor
  · exact ⟨hstep.valid, fun hc => h.isOpen.not_closing (hstep.closing.mp hc)⟩
  · exact hacc
  · rw [sentBytes_append, h.sent, hsent, hstep.acked, take_eq_of_prefix hwire hn, List.take_add]
  · rw [sendappBytes_append, h.injected, hput, hpay, List.append_nil]
  · rw [receivedBytes_append, h.received, hrecv, hstep.fed]
  · rw [hstep.taken, Nat.add_zero]
    exact Nat.le_trans h.taken_le hplain.length_le
  · rw [recvappBytes_append, h.delivered, htook, hstep.taken, Nat.add_zero, List.append_nil,
      take_eq_of_prefix hplain h.taken_le]
  · exact always_snoc.mpr ⟨h.calls.imp fun _ _ => WireDiscipline.grow hwire,
      WireDiscipline.grow hwire hcall⟩

/-- At a moment when the driver calls `recv`, everything has been sent. -/
theorem ledger_recv_quiet (hE : E.Lawful H) {own : Log σ} {e : σ} (h : Ledger E H own e)
    (hs : (E.currentState e).ReadyToReceive) : RecvQuiet E H own e := by
  have hbuf : E.sendrecBuf e = [] := by
    by_contra hne
    have := (hE.sendrec_iff e h.isOpen.valid hs.closed).mpr hne
    rw [hs.sendrec] at this
    exact absurd this (by decide)
  have hall : (H.wire e).length ≤ H.acked e := by
    have hpend := hE.sendrec_pending e h.isOpen.valid hs.closed
    rw [hbuf] at hpend
    exact List.drop_eq_nil_iff.mp hpend.symm
  exact ⟨hbuf, h.acc, by rw [h.sent, List.take_of_length_le hall], h.injected⟩

theorem ledger_log {own : Log σ} {e : σ} (h : Ledger E H own e) {ev : Event σ}
    (hsent : sentBytes [ev] = []) (hrecv : receivedBytes [ev] = [])
    (hput : sendappBytes [ev] = []) (htook : recvappBytes [ev] = [])
    (hcall : WireDiscipline E H (H.wire e) own ev) : Ledger E H (own ++ [ev]) e where
  isOpen := h.isOpen
  acc := h.acc
  sent := by rw [sentBytes_append, hsent, List.append_nil, h.sent]
  injected := by rw [sendappBytes_append, hput, List.append_nil, h.injected]
  received := by rw [receivedBytes_append, hrecv, List.append_nil, h.received]
  taken_le := h.taken_le
  delivered := by rw [recvappBytes_append, htook, List.append_nil, h.delivered]
  calls := always_snoc.mpr ⟨h.calls, hcall⟩

/-- The record bytes that `sendrec_buf` exposes continue what has been sent. -/
theorem ledger_send_next (hE : E.Lawful H) {own : Log σ} {e : σ} (h : Ledger E H own e)
    (hb : E.sendrecBuf e ≠ []) :
    (E.currentState e).closed = false ∧ E.sendrecBuf e = (H.wire e).drop (H.acked e) ∧
      sentBytes own ++ E.sendrecBuf e = H.wire e := by
  have hopen : (E.currentState e).closed = false := by
    cases hc : (E.currentState e).closed with
    | false => rfl
    | true => exact absurd (hE.sendrec_closed e h.isOpen.valid hc) hb
  have hpend := hE.sendrec_pending e h.isOpen.valid hopen
  exact ⟨hopen, hpend, by rw [h.sent, hpend, List.take_append_drop]⟩

variable {os : Host σ}

/-- What `send` accepts can be acknowledged. -/
theorem sendrec_step (hE : E.Lawful H) {own : Log σ} {e : σ} (h : Ledger E H own e)
    (hb : E.sendrecBuf e ≠ []) {log : Log σ} {n : ℕ}
    (hw : (os.send log (E.sendrecBuf e)).map Fin.val = some n) (hn : 0 < n) :
    n ≤ (E.sendrecBuf e).length ∧ H.Step e (E.sendrecAck e n) n [] [] 0 := by
  obtain ⟨hopen, -, -⟩ := ledger_send_next hE h hb
  have hle : n ≤ (E.sendrecBuf e).length := by
    obtain ⟨m, -, rfl⟩ := Option.map_eq_some_iff.mp hw
    exact Nat.lt_succ_iff.mp m.isLt
  exact ⟨hle, hE.sendrec_ack e n h.isOpen.valid hopen hn hle⟩

/-- What `recv` returns can be acknowledged. -/
theorem recvrec_step (hE : E.Lawful H) {own : Log σ} {e : σ} (h : Ledger E H own e) {log : Log σ}
    {want : ℕ} {b : UInt8} {bs : List UInt8} (hready : (E.currentState e).ReadyToReceive)
    (hl : want ≤ E.recvrecBuf e) (hr : (os.recv log want).map Subtype.val = some (b :: bs)) :
    H.Step e (E.recvrecAck e (b :: bs)) 0 [] (b :: bs) 0 := by
  have hle : (b :: bs).length ≤ E.recvrecBuf e := by
    obtain ⟨m, -, hm⟩ := Option.map_eq_some_iff.mp hr
    have := m.2
    rw [hm] at this
    exact Nat.le_trans this hl
  exact hE.recvrec_ack e (b :: bs) h.isOpen hready.closed hready.recvrec
    (List.cons_ne_nil b bs) hle

theorem ledger_record_step (hE : E.Lawful H) {own : Log σ} {c c' : Conn σ}
    (h : Ledger E H own c.eng) (hs : RecordStep E os c c') :
    ∃ evs, c'.log = c.log ++ evs ∧ Ledger E H (own ++ evs) c'.eng := by
  cases hs with
  | send n hb hw hn =>
    obtain ⟨-, hpend, hnext⟩ := ledger_send_next hE h hb
    obtain ⟨hle, hstep⟩ := sendrec_step hE h hb hw hn
    have hroom : H.acked c.eng + n ≤ (H.wire c.eng).length := by
      have := hE.acked_le c.eng h.isOpen.valid
      rw [hpend, List.length_drop] at hle
      omega
    refine ⟨[.send c.sock (E.sendrecBuf c.eng) (some n)], rfl, ?_⟩
    refine ledger_advance hE h hstep ?_ hroom rfl rfl rfl ?_
    · simp [sentBytes, hpend]
    · exact hnext ▸ List.prefix_refl _
  | sendFail wr hb hw h0 =>
    obtain ⟨-, -, hnext⟩ := ledger_send_next hE h hb
    refine ⟨[.send c.sock (E.sendrecBuf c.eng) wr], rfl, ?_⟩
    refine ledger_log h ?_ rfl rfl rfl ?_
    · cases wr with
      | none => rfl
      | some n =>
        obtain rfl : n = 0 := h0
        simp [sentBytes]
    · exact hnext ▸ List.prefix_refl _
  | recv want b bs hready hl hr =>
    have hquiet := ledger_recv_quiet hE h hready
    have hstep := recvrec_step hE h hready hl hr
    refine ⟨[.recv c.sock c.eng want (some (b :: bs))], rfl, ?_⟩
    refine ledger_advance hE h hstep rfl ?_ (by simp [receivedBytes]) rfl rfl hquiet
    exact hE.acked_le c.eng h.isOpen.valid
  | recvEof want hready hr =>
    exact ⟨[.recv c.sock c.eng want (some [])], rfl,
      ledger_log h rfl rfl rfl rfl (ledger_recv_quiet hE h hready)⟩
  | recvFail want hready hr =>
    exact ⟨[.recv c.sock c.eng want none], rfl,
      ledger_log h rfl rfl rfl rfl (ledger_recv_quiet hE h hready)⟩
  | markClosed hc => exact ⟨[], by simp, by simpa using h⟩

theorem ledger_sendapp (hE : E.Lawful H) {own : Log σ} {e : σ} (h : Ledger E H own e)
    {d : List UInt8} (hc : (E.currentState e).closed = false)
    (hs : (E.currentState e).sendapp = true) (hd : d ≠ []) (hl : d.length ≤ E.sendappBuf e) :
    Ledger E H (own ++ [.sendapp d]) (E.flush (E.sendappAck e d)) := by
  obtain ⟨hstep, hacc, -⟩ := hE.sendapp_flush e d h.isOpen hc hs hd hl
  obtain ⟨new, hrecs, hpay⟩ := hstep.recs
  rw [hacc, h.acc, List.append_nil, List.nil_append] at hpay
  have hwire : H.wire e <+: H.wire (E.flush (E.sendappAck e d)) := by
    simp only [History.wire, hrecs, wireOf_append]
    exact List.prefix_append _ _
  have hacked : H.acked (E.flush (E.sendappAck e d)) = H.acked e := by
    rw [hstep.acked, Nat.add_zero]
  have hfed : H.fed (E.flush (E.sendappAck e d)) = H.fed e := by rw [hstep.fed, List.append_nil]
  have htaken : H.taken (E.flush (E.sendappAck e d)) = H.taken e := by
    rw [hstep.taken, Nat.add_zero]
  constructor
  · exact ⟨hstep.valid, fun h' => h.isOpen.not_closing (hstep.closing.mp h')⟩
  · exact hacc
  · rw [sentBytes_append, h.sent, hacked, take_eq_of_prefix hwire (hE.acked_le e h.isOpen.valid)]
    simp [sentBytes]
  · rw [sendappBytes_append, h.injected, hrecs, payloadOf_append, hpay]
    simp [sendappBytes]
  · rw [receivedBytes_append, h.received, hfed]
    simp [receivedBytes]
  · rw [htaken, hfed]
    exact h.taken_le
  · rw [recvappBytes_append, h.delivered, htaken, hfed]
    simp [recvappBytes]
  · exact always_snoc.mpr ⟨h.calls.imp fun _ _ => WireDiscipline.grow hwire, trivial⟩

theorem ledger_recvapp (hE : E.Lawful H) {own : Log σ} {e : σ} (h : Ledger E H own e) {n : ℕ}
    (hc : (E.currentState e).closed = false) (hs : (E.currentState e).recvapp = true)
    (hn : 0 < n) (hl : n ≤ (E.recvappBuf e).length) :
    Ledger E H (own ++ [.recvapp ((E.recvappBuf e).take n)]) (E.recvappAck e n) := by
  obtain ⟨hstep, -⟩ := hE.recvapp_ack e n h.isOpen hc hs hn hl
  obtain ⟨hacc, hpay, hwire⟩ := Advance.output hstep.toAdvance h.acc
  have hbuf : E.recvappBuf e <+: (H.plain (H.fed e)).drop (H.taken e) :=
    hE.recvapp_exposes e h.isOpen
  have hfed : H.fed (E.recvappAck e n) = H.fed e := by rw [hstep.fed, List.append_nil]
  have hacked : H.acked (E.recvappAck e n) = H.acked e := by rw [hstep.acked, Nat.add_zero]
  have hroom : n ≤ ((H.plain (H.fed e)).drop (H.taken e)).length :=
    Nat.le_trans hl hbuf.length_le
  constructor
  · exact ⟨hstep.valid, fun h' => h.isOpen.not_closing (hstep.closing.mp h')⟩
  · exact hacc
  · rw [sentBytes_append, h.sent, hacked, take_eq_of_prefix hwire (hE.acked_le e h.isOpen.valid)]
    simp [sentBytes]
  · rw [sendappBytes_append, h.injected, hpay]
    simp [sendappBytes]
  · rw [receivedBytes_append, h.received, hfed]
    simp [receivedBytes]
  · rw [hstep.taken, hfed]
    rw [List.length_drop] at hroom
    have := h.taken_le
    omega
  · rw [recvappBytes_append, h.delivered, hstep.taken, hfed, List.take_add,
      take_eq_of_prefix hbuf hl]
    simp [recvappBytes]
  · exact always_snoc.mpr ⟨h.calls.imp fun _ _ => WireDiscipline.grow hwire, trivial⟩

/-- What a step of the driver adds to the log keeps the ledger. -/
theorem ledger_step (hE : E.Lawful H) {late : Prop} {own : Log σ} {c c' : Conn σ}
    (h : Ledger E H own c.eng) (hs : DriverStep E os late c c') :
    ∃ evs, c'.log = c.log ++ evs ∧ Ledger E H (own ++ evs) c'.eng := by
  cases hs with
  | record hs => exact ledger_record_step hE h hs
  | sendapp d hc hs hd hl hf => exact ⟨[.sendapp d], rfl, ledger_sendapp hE h hc hs hd hl⟩
  | recvapp n hc hs hn hl =>
    exact ⟨[.recvapp ((E.recvappBuf c.eng).take n)], rfl, ledger_recvapp hE h hc hs hn hl⟩

theorem ledger_steps (hE : E.Lawful H) {late : Prop} {own : Log σ} {c c' : Conn σ}
    (h : Ledger E H own c.eng) (hs : DriverSteps E os late c c') :
    ∃ evs, c'.log = c.log ++ evs ∧ Ledger E H (own ++ evs) c'.eng := by
  induction hs with
  | refl => exact ⟨[], by simp, by simpa using h⟩
  | tail _ hs ih =>
    obtain ⟨evs, hlog, hled⟩ := ih
    obtain ⟨evs', hlog', hled'⟩ := ledger_step hE hled hs
    exact ⟨evs ++ evs', by rw [hlog', hlog, List.append_assoc],
      by rwa [List.append_assoc] at hled'⟩

end BearTLS
