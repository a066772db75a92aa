import BearTLS.Proofs.SslProcessor
import BearTLS.Spec.EngineRuns

/-! The engine of `ssl_engine.c` does what the endpoint says: its callers see the same at
every call, over every run of legal calls. -/

namespace BearTLS

open Memory SslEngine

section Calls

variable {κ ι : Type} {P : Protection κ ι} {maxLen room : ℕ} {R : RecordIn ι} {W : RecordOut κ}
  {e : SslEngine κ ι} {a : Endpoint κ ι} {acc data rest got : List UInt8} {type : UInt8}
  {handshake : SslEngine κ ι → SslEngine κ ι}

theorem sendrec_buf_gathering (h : Shows P maxLen room e a) (ho : a.out = .gathering acc) :
    e.sendrecBuf = none := by
  have hout := h.out
  rw [ho] at hout
  have hle : ¬ e.oxc > e.oxa := by
    have := hout.2.1
    omega
  simp only [sendrecBuf, if_neg hle, ite_self]

theorem sendrec_buf_sending (h : Shows P maxLen room e a) (ho : a.out = .sending rest) :
    e.sendrecBuf = some (e.obuf + e.oxa, rest.length) ∧
      load e.buf (e.obuf + e.oxa) rest.length = rest := by
  have hout := h.out
  rw [ho] at hout
  obtain ⟨hoxb, hoxc, hne, hload⟩ := hout
  have hpos := List.length_pos_of_ne_nil hne
  have hlen : e.oxc - e.oxa = rest.length := by omega
  simp only [sendrecBuf, h.iomode, hlen]
  rw [if_pos (.inr trivial), if_pos (by omega)]
  exact ⟨rfl, hload⟩

theorem recvrec_buf_none (h : Shows P maxLen room e a)
    (hi : a.shutdown = true ∨ ∃ type rest, a.inp = .plain type rest) : e.recvrecBuf = none := by
  rcases hi with hs | ⟨type, rest, hi⟩
  · simp only [recvrecBuf, h.shutdown, hs, if_true]
  · have hin := h.inp
    rw [hi] at hin
    obtain ⟨-, hixb, -, hne, -⟩ := hin
    have hpos := List.length_pos_of_ne_nil hne
    have hdiff : ¬ e.ixa = e.ixb := by omega
    simp only [recvrecBuf, if_neg hdiff, ite_self]

theorem recvrec_buf_eq (h : Shows P maxLen room e a) (hs : a.shutdown = false)
    (hi : ∀ type rest, a.inp ≠ .plain type rest) :
    e.recvrecBuf = some (e.ibuf + e.ixa, a.wanted) ∧ 0 < a.wanted := by
  have hin := h.inp
  have hroom := h.placed.room_eq
  have hfive := h.placed.ibufLen_le
  have hw : e.ixb = e.ixa ∧ e.ixc = a.wanted ∧ e.ixc ≤ e.ibufLen - e.ixa ∧ 0 < a.wanted := by
    cases hia : a.inp with
    | header got =>
      rw [hia] at hin
      obtain ⟨hixa, hixb, hixc, hlt, -⟩ := hin
      simp only [Endpoint.wanted, hs, hia, Bool.false_eq_true, if_false]
      omega
    | body type len got =>
      rw [hia] at hin
      obtain ⟨-, hixa, hixb, hixc, hlt, -, hle, -⟩ := hin
      simp only [Endpoint.wanted, hs, hia, Bool.false_eq_true, if_false]
      omega
    | plain type rest => exact absurd hia (hi type rest)
  obtain ⟨hixb, hixc, hcap, hpos⟩ := hw
  refine ⟨?_, hpos⟩
  have hoff : ¬ e.shutdownRecv = true := by
    rw [h.shutdown, hs]
    decide
  simp only [recvrecBuf, if_neg hoff, if_pos (show e.iomode = .input ∨ e.iomode = .inout from
    .inr h.iomode), if_pos hixb.symm]
  rw [if_neg (Nat.not_lt.mpr hcap), hixc]

theorem recvrec_view (h : Shows P maxLen room e a) :
    spaceOf e.recvrecBuf = a.wanted ∧ e.recvrecBuf.isSome = a.state.recvrec := by
  by_cases hblocked : a.shutdown = true ∨ ∃ type rest, a.inp = .plain type rest
  · rw [recvrec_buf_none h hblocked]
    rcases hblocked with hs | ⟨type, rest, hi⟩
    · simp [spaceOf, Endpoint.wanted, Endpoint.state, hs]
    · simp [spaceOf, Endpoint.wanted, Endpoint.state, hi]
  · push Not at hblocked
    have hs : a.shutdown = false := by simpa using hblocked.1
    obtain ⟨hbuf, -⟩ := recvrec_buf_eq h hs hblocked.2
    rw [hbuf]
    refine ⟨rfl, ?_⟩
    cases hi : a.inp with
    | header got => simp [Endpoint.state, hs, hi]
    | body type len got => simp [Endpoint.state, hs, hi]
    | plain type rest => exact absurd hi (hblocked.2 type rest)

theorem sendrec_view (h : Shows P maxLen room e a) :
    e.exposed e.sendrecBuf = a.pending ∧ e.sendrecBuf.isSome = a.state.sendrec := by
  cases ho : a.out with
  | gathering acc =>
    rw [sendrec_buf_gathering h ho]
    simp [exposed, Endpoint.pending, Endpoint.state, ho]
  | sending rest =>
    obtain ⟨hbuf, hload⟩ := sendrec_buf_sending h ho
    rw [hbuf]
    simp [exposed, Endpoint.pending, Endpoint.state, ho, hload]

theorem sendapp_view (h : Shows P maxLen room e a) :
    spaceOf e.brSslEngineSendappBuf = a.acceptable maxLen ∧
      e.brSslEngineSendappBuf.isSome = a.state.sendapp := by
  simp only [brSslEngineSendappBuf, h.app, Endpoint.acceptable, Endpoint.state]
  by_cases happ : a.app &&& 1 = 0
  · simp [happ, spaceOf]
  · cases ho : a.out with
    | gathering acc => simp [happ, sendpld_buf_gathering h ho, spaceOf]
    | sending rest => simp [happ, sendpld_buf_sending h ho, spaceOf]

theorem recvapp_view (h : Shows P maxLen room e a) :
    e.exposed e.brSslEngineRecvappBuf = a.readable ∧
      e.brSslEngineRecvappBuf.isSome = a.state.recvapp := by
  simp only [brSslEngineRecvappBuf, h.app, Endpoint.readable, Endpoint.state]
  by_cases happ : a.app &&& 1 = 0
  · simp [happ, exposed]
  · have hin := h.inp
    cases hi : a.inp with
    | header got =>
      rw [recvpld_buf_none h (by simp [hi])]
      simp [exposed]
    | body type len got =>
      rw [recvpld_buf_none h (by simp [hi])]
      simp [exposed]
    | plain type rest =>
      rw [hi] at hin
      obtain ⟨rfl, -, -, -, -, hload⟩ := hin
      by_cases htype : e.recordTypeIn = BR_SSL_APPLICATION_DATA
      · simp [happ, htype, recvpld_buf_eq h hi, exposed, hload]
      · simp [happ, htype, exposed]

theorem ssl_engine_view (x : Phase κ ι) (h : ShowsPhase P maxLen room e x) (hx : x ≠ .left) :
    (sslEngine R W handshake).SameView (endpointEngine P maxLen room) e x := by
  cases x with
  | established a =>
    have hopen := closed_of_shows h.toShowsRegisters
    have hsend := sendrec_view h
    have hrecv := recvrec_view h
    have happ := sendapp_view h
    have hread := recvapp_view h
    refine ⟨?_, h.err, hsend.1, hrecv.1, happ.1, hread.1⟩
    show e.brSslEngineCurrentState = a.state
    simp only [brSslEngineCurrentState, hopen, Bool.false_eq_true, if_false, brSslEngineSendrecBuf,
      brSslEngineRecvrecBuf, hsend.2, hrecv.2, happ.2, hread.2]
    rfl
  | closed err =>
    obtain ⟨hio, herr⟩ := h
    have hclosed := closed_of_failed hio
    have hpld : e.recvpldBuf = none := by simp [recvpldBuf, hio]
    have hsendpld : e.sendpldBuf = none := by simp [sendpldBuf, hio]
    have hrec : e.recvrecBuf = none := by simp [recvrecBuf, hio]
    have hsendrec : e.sendrecBuf = none := by simp [sendrecBuf, hio]
    refine ⟨?_, herr, ?_, ?_, ?_, ?_⟩
    · show e.brSslEngineCurrentState = _
      simp only [brSslEngineCurrentState, hclosed, if_true]
      rfl
    · show e.exposed e.brSslEngineSendrecBuf = []
      rw [brSslEngineSendrecBuf, hsendrec]
      rfl
    · show spaceOf e.brSslEngineRecvrecBuf = 0
      rw [brSslEngineRecvrecBuf, hrec]
      rfl
    · show spaceOf e.brSslEngineSendappBuf = 0
      rw [brSslEngineSendappBuf, hsendpld, ite_self]
      rfl
    · show e.exposed e.brSslEngineRecvappBuf = []
      rw [brSslEngineRecvappBuf, hpld, ite_self]
      rfl
  | left => exact absurd rfl hx

/-- `br_ssl_engine_sendrec_ack`. -/
theorem sendrec_call_shows (hP : P.Implements R W) (h : Shows P maxLen room e a) {n : ℕ}
    (hpos : 0 < n) (hn : n ≤ a.pending.length) :
    ShowsPhase P maxLen room (e.brSslEngineSendrecAck W handshake n) (a.sent P n) := by
  cases ho : a.out with
  | gathering acc =>
    simp only [Endpoint.pending, ho, List.length_nil] at hn
    omega
  | sending rest =>
    simp only [Endpoint.pending, ho] at hn
    have hack := sendrec_ack_shows hP h ho hn
    simp only [brSslEngineSendrecAck, Endpoint.sent, ho]
    by_cases hlt : n < rest.length
    · rw [if_pos hlt] at hack ⊢
      have hrest : (e.sendrecAck W n).hasRecTosend = true := by
        obtain ⟨hoxb, hoxc, hne, -⟩ := hack.out
        have := List.length_pos_of_ne_nil hne
        simp only [hasRecTosend, decide_eq_true_eq]
        omega
      rw [if_neg fun hc => Bool.noConfusion (hrest.symm.trans hc.2.1)]
      exact hack
    · rw [if_neg hlt] at hack ⊢
      have hdone : (e.sendrecAck W n).hasRecTosend = false := by
        obtain ⟨hoxc, hoxa, hoxb, hpos', -⟩ := hack.out
        rw [List.length_nil] at hoxa
        simp only [hasRecTosend, decide_eq_false_iff_not]
        omega
      by_cases hjump : a.typeOut ≠ BR_SSL_APPLICATION_DATA ∨ a.app &&& 1 = 0
      · rw [if_pos ⟨hpos.ne', hdone, by rw [hack.typeOut, hack.app]; exact hjump⟩, if_pos hjump]
        exact jump_shows hP hack (by decide)
      · rw [if_neg fun hc => hjump (by rw [← hack.typeOut, ← hack.app]; exact hc.2.2), if_neg hjump]
        exact hack

/-- `br_ssl_engine_recvrec_ack`. -/
theorem recvrec_call_shows (hP : P.Implements R W) (h : Shows P maxLen room e a)
    (hne : data ≠ []) (hle : data.length ≤ a.wanted) :
    ShowsPhase P maxLen room
      ((e.filled data e.brSslEngineRecvrecBuf).brSslEngineRecvrecAck R W handshake data.length)
      (a.receive P room data) := by
  have hpos := List.length_pos_of_ne_nil hne
  have hbuf : e.recvrecBuf = some (e.ibuf + e.ixa, a.wanted) := by
    refine (recvrec_buf_eq h ?_ ?_).1
    · cases hs : a.shutdown with
      | false => rfl
      | true =>
        simp only [Endpoint.wanted, hs, if_true] at hle
        omega
    · intro type rest hi
      simp only [Endpoint.wanted, hi, ite_self] at hle
      omega
  have hack := recvrec_ack_shows hP h hne hle
  simp only [brSslEngineRecvrecBuf, hbuf, filled, brSslEngineRecvrecAck, Endpoint.receive]
  generalize recvrecAck R { e with buf := store e.buf (e.ibuf + e.ixa) data } data.length = e' at hack ⊢
  cases hx : a.absorb P room data with
  | established b =>
    rw [hx] at hack
    simp only [Phase.bind, closed_of_shows hack.toShowsRegisters, Bool.false_eq_true, if_false]
    cases hi : b.inp with
    | header got =>
      rw [recvpld_buf_none hack (by simp [hi])]
      simp only [Endpoint.deliver, hi]
      exact hack
    | body type len got =>
      rw [recvpld_buf_none hack (by simp [hi])]
      simp only [Endpoint.deliver, hi]
      exact hack
    | plain type rest =>
      have hin := hack.inp
      rw [hi] at hin
      obtain ⟨htype, -⟩ := hin
      rw [recvpld_buf_eq hack hi]
      simp only [Endpoint.deliver, hi, htype, hack.app]
      split_ifs with hproc happ hone htwo
      · exact jump_shows hP hack (by decide)
      · exact hack
      · have htake : b.take rest.length = b.consume := by
          simp only [Endpoint.take, hi, Nat.le_refl, if_true]
        rw [← htake]
        exact recvpld_ack_shows hack hi (Nat.le_refl _)
      · exact fail_shows hack.toShowsRegisters _
      · exact fail_shows hack.toShowsRegisters _
  | closed err =>
    rw [hx] at hack
    simp only [Phase.bind, closed_of_failed hack.1, if_true]
    exact hack
  | left => exact trivial

/-- `br_ssl_engine_sendapp_ack`. -/
theorem sendapp_call_shows (hP : P.Implements R W) (h : Shows P maxLen room e a)
    (hne : data ≠ []) (hle : data.length ≤ a.acceptable maxLen) :
    Shows P maxLen room
      ((e.filled data e.brSslEngineSendappBuf).brSslEngineSendappAck W data.length)
      (a.gather P maxLen data) := by
  have hpos := List.length_pos_of_ne_nil hne
  have hout := h.out
  have happ : ¬ a.app &&& 1 = 0 := by
    intro happ
    simp only [Endpoint.acceptable, happ, if_true] at hle
    omega
  simp only [Endpoint.acceptable, if_neg happ] at hle
  cases ho : a.out with
  | sending rest =>
    simp only [ho] at hle
    omega
  | gathering acc =>
    simp only [ho] at hle
    rw [ho] at hout
    obtain ⟨hoxc, hoxa, hoxb, hlt, hload⟩ := hout
    have happ' : ¬ e.applicationData &&& 1 = 0 := by rwa [h.app]
    simp only [brSslEngineSendappBuf, if_neg happ', sendpld_buf_gathering h ho, filled,
      brSslEngineSendappAck]
    have hb : ShowsBut P maxLen room
        { e with buf := store e.buf (e.obuf + e.oxa) data } a :=
      { h with inp := h.inp.store_above h.placed (Nat.le_add_right _ _) _ }
    refine gather_shows hP hb ho hoxc hoxa hoxb (by omega) ?_
    show load (store e.buf (e.obuf + e.oxa) data) (e.obuf + e.oxc) (acc ++ data).length = acc ++ data
    rw [List.length_append, hoxa, ← Nat.add_assoc, load_store_behind, hload]

theorem plain_of_readable (hne : a.readable ≠ []) :
    ∃ type rest, a.inp = .plain type rest ∧ a.readable = rest := by
  simp only [Endpoint.readable] at hne ⊢
  split_ifs at hne ⊢ with happ
  · exact absurd rfl hne
  · cases hi : a.inp with
    | header got => exact absurd (by rw [hi]) hne
    | body type len got => exact absurd (by rw [hi]) hne
    | plain type rest =>
      simp only [hi] at hne
      split_ifs at hne with htype
      · exact ⟨type, rest, rfl, if_pos htype⟩
      · exact absurd rfl hne

/-- `br_ssl_engine_recvapp_ack`. -/
theorem recvapp_call_shows (h : Shows P maxLen room e a) {n : ℕ} (hpos : 0 < n)
    (hn : n ≤ a.readable.length) : Shows P maxLen room (e.brSslEngineRecvappAck n) (a.take n) := by
  have hne : a.readable ≠ [] := List.ne_nil_of_length_pos (Nat.lt_of_lt_of_le hpos hn)
  obtain ⟨type, rest, hi, hrest⟩ := plain_of_readable hne
  rw [hrest] at hn
  exact recvpld_ack_shows h hi hn

end Calls

section Refinement

variable {κ ι : Type} {P : Protection κ ι} {maxLen room : ℕ} {R : RecordIn ι} {W : RecordOut κ}
  {handshake : SslEngine κ ι → SslEngine κ ι}

theorem failed_call (e : SslEngine κ ι) (err : ℤ) (c : EngineCall) (hio : e.iomode = .failed)
    (hlegal : (endpointEngine P maxLen room).Legal (.closed err) c) :
    (sslEngine R W handshake).call e c = e := by
  have hclosed := closed_of_failed hio
  cases c with
  | sendrec n => exact absurd (Nat.lt_of_lt_of_le hlegal.1 hlegal.2) (Nat.lt_irrefl 0)
  | recvrec data => exact absurd (List.eq_nil_of_length_eq_zero (Nat.le_zero.mp hlegal.2)) hlegal.1
  | sendapp data => exact absurd (List.eq_nil_of_length_eq_zero (Nat.le_zero.mp hlegal.2)) hlegal.1
  | recvapp n => exact absurd (Nat.lt_of_lt_of_le hlegal.1 hlegal.2) (Nat.lt_irrefl 0)
  | flush =>
    show e.brSslEngineFlush W false = e
    simp [brSslEngineFlush, hclosed]
  | close =>
    show e.brSslEngineClose W handshake = e
    simp [brSslEngineClose, hclosed]

theorem ssl_engine_call (hP : P.Implements R W) (e : SslEngine κ ι) (x : Phase κ ι)
    (c : EngineCall) (h : ShowsPhase P maxLen room e x)
    (hlegal : (endpointEngine P maxLen room).Legal x c) :
    ShowsPhase P maxLen room ((sslEngine R W handshake).call e c)
      ((endpointEngine P maxLen room).call x c) := by
  cases x with
  | established a =>
    cases c with
    | sendrec n => exact sendrec_call_shows hP h hlegal.1 hlegal.2
    | recvrec data => exact recvrec_call_shows hP h hlegal.1 hlegal.2
    | sendapp data => exact sendapp_call_shows hP h hlegal.1 hlegal.2
    | recvapp n => exact recvapp_call_shows h hlegal.1 hlegal.2
    | flush =>
      have hopen := closed_of_shows h.toShowsRegisters
      show Shows P maxLen room (e.brSslEngineFlush W false)
        (if a.app &&& 1 ≠ 0 then a.flush P else a)
      simp only [brSslEngineFlush, hopen, true_and, h.app]
      split_ifs with happ
      · exact flush_record_shows hP h
      · exact h
    | close =>
      have hopen := closed_of_shows h.toShowsRegisters
      show ShowsPhase P maxLen room (e.brSslEngineClose W handshake) (a.jump P 1)
      simp only [brSslEngineClose, hopen, Bool.false_eq_true, if_false]
      exact jump_shows hP h (by decide)
  | closed err =>
    rw [failed_call e err c h.1 hlegal]
    cases c <;> exact h
  | left => cases c <;> exact trivial

/-- The engine refines the endpoint. -/
theorem ssl_engine_refines (hP : P.Implements R W) :
    (sslEngine R W handshake).Refines (endpointEngine P maxLen room)
      (ShowsPhase P maxLen room) (· ≠ .left) where
  view _ x h hx := ssl_engine_view x h hx
  call e x c h hx hlegal :=
    ssl_engine_call hP e x c h (((ssl_engine_view x h hx).legal_iff c).mp hlegal)

end Refinement

end BearTLS
