import BearTLS.Proofs.SslEndpoint

/-! The handshake processor with the buffers that it is offered does what the rounds of
the endpoint say. -/

namespace BearTLS

open Memory SslEngine

section Offered

variable {κ ι : Type} (P : Protection κ ι) (maxLen room : ℕ)

/-- Where the processor may write. -/
def OutOffered (e : SslEngine κ ι) : Outgoing → Prop
  | .gathering acc =>
    e.hbufOut = some (e.obuf + e.oxa) ∧ e.savedHbufOut = e.hbufOut ∧
      e.hlenOut = if acc = [] then maxLen else 0
  | .sending _ => e.hbufOut = none ∧ e.savedHbufOut = none ∧ e.hlenOut = 0

/-- The processor is at the endpoint `a`, with `k` bytes of its input left to read; the input
buffer is still as it was. -/
structure Runs (k : ℕ) (i : Incoming) (e : SslEngine κ ι) (a : Endpoint κ ι) : Prop
    extends Shows P maxLen room e a where
  offered : OutOffered maxLen e a.out
  hlenIn : e.hlenIn = k
  inp_eq : a.inp = i

def RunsPhase (k : ℕ) (i : Incoming) (e : SslEngine κ ι) : Phase κ ι → Prop
  | .established a => Runs P maxLen room k i e a
  | .closed err => e.iomode = .failed ∧ e.err = err
  | .left => True

end Offered

section Words

variable {κ ι : Type} {P : Protection κ ι} {maxLen room k : ℕ} {i : Incoming} {R : RecordIn ι}
  {W : RecordOut κ} {e : SslEngine κ ι} {a : Endpoint κ ι} {acc data rest : List UInt8}

/-- Without a payload to send, a flush that is not forced does nothing. -/
theorem flush_pending (e : SslEngine κ ι) :
    (if e.hasPldToSend then e.sendpldFlush W false else e) = e.sendpldFlush W false := by
  by_cases hp : e.oxa = e.oxb
  · simp [hasPldToSend, sendpldFlush, hp]
  · by_cases hx : e.oxa = e.oxc
    · simp [hasPldToSend, sendpldFlush, hx]
    · simp [hasPldToSend, hp, hx]

theorem has_pld_iff (h : Shows P maxLen room e a) (ho : a.out = .gathering acc) :
    e.hasPldToSend = true ↔ acc ≠ [] := by
  have hout := h.out
  rw [ho] at hout
  obtain ⟨hoxc, hoxa, hoxb, hlt, -⟩ := hout
  rw [← List.length_pos_iff_ne_nil]
  simp only [hasPldToSend, decide_eq_true_eq]
  omega

theorem sendpld_buf_gathering (h : Shows P maxLen room e a) (ho : a.out = .gathering acc) :
    e.sendpldBuf = some (e.obuf + e.oxa, maxLen - acc.length) := by
  have hout := h.out
  rw [ho] at hout
  obtain ⟨hoxc, hoxa, hoxb, hlt, -⟩ := hout
  have hlen : e.oxb - e.oxa = maxLen - acc.length := by omega
  simp only [sendpldBuf, h.iomode, hlen]
  rw [if_pos (.inr trivial), if_neg (by omega)]

theorem sendpld_buf_sending (h : Shows P maxLen room e a) (ho : a.out = .sending rest) :
    e.sendpldBuf = none := by
  have hout := h.out
  rw [ho] at hout
  simp only [sendpldBuf, h.iomode, hout.1, Nat.sub_self, if_true, or_true]

@[simp] theorem sendpld_flush_hlenIn (e : SslEngine κ ι) (force : Bool) :
    (e.sendpldFlush W force).hlenIn = e.hlenIn := by
  simp only [sendpldFlush]
  split_ifs <;> rfl

@[simp] theorem sendpld_ack_hlenIn (e : SslEngine κ ι) (n : ℕ) :
    (e.sendpldAck W n).hlenIn = e.hlenIn := by
  simp only [sendpldAck]
  split_ifs <;> simp

theorem flush_out (a : Endpoint κ ι) :
    (a.flush P).out = .gathering [] ∨ ∃ rest, (a.flush P).out = .sending rest := by
  cases ho : a.out with
  | gathering acc =>
    by_cases hacc : acc = []
    · exact .inl (by simp [Endpoint.flush, ho, hacc])
    · right
      simp only [Endpoint.flush, ho, if_neg hacc, Endpoint.closeRecord]
      exact ⟨_, rfl⟩
  | sending rest => exact .inr ⟨rest, by simp [Endpoint.flush, ho]⟩

@[simp] theorem gather_inp (a : Endpoint κ ι) (data : List UInt8) :
    (a.gather P maxLen data).inp = a.inp := by
  simp only [Endpoint.gather]
  split
  · split_ifs <;> rfl
  · rfl

@[simp] theorem flush_inp (a : Endpoint κ ι) : (a.flush P).inp = a.inp := by
  simp only [Endpoint.flush]
  split
  · split_ifs <;> rfl
  · rfl

theorem gather_nil (ho : a.out = .gathering acc) (hlt : acc.length < maxLen) :
    a.gather P maxLen [] = a := by
  simp only [Endpoint.gather, ho, List.append_nil, ge_iff_le, if_neg (Nat.not_le.mpr hlt)]
  rw [← ho]

/-- The offer at the end of `br_ssl_engine_flush_record`, where the next record can begin. -/
theorem runs_of_gathering (h : Shows P maxLen room e a) (ho : a.out = .gathering [])
    (hk : e.hlenIn = k) (hi : a.inp = i) :
    Runs P maxLen room k i
      { e with
        savedHbufOut := some (e.obuf + e.oxa)
        hbufOut := some (e.obuf + e.oxa)
        hlenOut := maxLen - ([] : List UInt8).length } a := by
  refine { h with offered := ?_, hlenIn := hk, inp_eq := hi }
  rw [ho]
  exact ⟨rfl, rfl, rfl⟩

/-- And where a record is still to be sent. -/
theorem runs_of_sending (h : Shows P maxLen room e a) (ho : a.out = .sending rest)
    (hk : e.hlenIn = k) (hi : a.inp = i) :
    Runs P maxLen room k i { e with savedHbufOut := none, hbufOut := none, hlenOut := 0 } a := by
  refine { h with offered := ?_, hlenIn := hk, inp_eq := hi }
  rw [ho]
  exact ⟨rfl, rfl, rfl⟩

/-- `br_ssl_engine_flush_record`, after the processor has written `data`. -/
theorem flush_written_runs (hP : P.Implements R W) (data : List UInt8)
    (h : ShowsBut P maxLen room e a) (ho : a.out = .gathering acc) (hoxc : e.oxc = 5 + P.before) (hoxa : e.oxa = e.oxc + acc.length)
    (hoxb : e.oxb = e.oxc + maxLen) (hlt : acc.length < maxLen)
    (hle : acc.length + data.length ≤ maxLen)
    (hload : load e.buf (e.obuf + e.oxc) (acc ++ data).length = acc ++ data)
    (hsaved : e.savedHbufOut = some (e.obuf + e.oxa))
    (hbuf : e.hbufOut = some (e.obuf + e.oxa + data.length)) (hk : e.hlenIn = k)
    (hi : a.inp = i) :
    Runs P maxLen room k i (e.flushRecord W) ((a.gather P maxLen data).flush P) := by
  obtain ⟨e', heq, hk', hshows⟩ : ∃ e' : SslEngine κ ι,
      (if e.obuf + e.oxa + data.length ≠ e.obuf + e.oxa then
        e.sendpldAck W (e.obuf + e.oxa + data.length - (e.obuf + e.oxa)) else e) = e' ∧
      e'.hlenIn = k ∧ Shows P maxLen room e' (a.gather P maxLen data) := by
    by_cases hdata : data = []
    · subst hdata
      refine ⟨e, if_neg (by simp), hk, ?_⟩
      rw [gather_nil ho hlt]
      rw [List.append_nil] at hload
      exact { h with out := by rw [ho]; exact ⟨hoxc, hoxa, hoxb, hlt, hload⟩ }
    · have hpos := List.length_pos_of_ne_nil hdata
      refine ⟨_, if_pos (by omega), ?_, ?_⟩
      · rw [sendpld_ack_hlenIn, hk]
      · rw [Nat.add_sub_cancel_left]
        exact gather_shows hP h ho hoxc hoxa hoxb hle hload
  have hflush := flush_record_shows hP hshows
  have hlen : (e'.sendpldFlush W false).hlenIn = k := (sendpld_flush_hlenIn _ _).trans hk'
  have hinp : ((a.gather P maxLen data).flush P).inp = i := by rw [flush_inp, gather_inp, hi]
  simp only [flushRecord, hbuf, hsaved, heq, flush_pending]
  rcases flush_out (P := P) (a.gather P maxLen data) with hout | ⟨rest, hout⟩
  · rw [sendpld_buf_gathering hflush hout]
    exact runs_of_gathering hflush hout hlen hinp
  · rw [sendpld_buf_sending hflush hout]
    exact runs_of_sending hflush hout hlen hinp

theorem flush_record_runs (hP : P.Implements R W) (h : Runs P maxLen room k i e a) :
    Runs P maxLen room k i (e.flushRecord W) (a.flush P) := by
  have hout := h.out
  have hoff := h.offered
  cases ho : a.out with
  | gathering acc =>
    rw [ho] at hout hoff
    obtain ⟨hoxc, hoxa, hoxb, hlt, hload⟩ := hout
    obtain ⟨hbuf, hsaved, -⟩ := hoff
    have hrun := flush_written_runs hP [] h.toShowsBut ho hoxc hoxa hoxb hlt
      (Nat.le_of_lt hlt) (by rwa [List.append_nil]) (hsaved.trans hbuf) hbuf h.hlenIn h.inp_eq
    rwa [gather_nil ho hlt] at hrun
  | sending rest =>
    rw [ho] at hoff
    obtain ⟨hbuf, hsaved, -⟩ := hoff
    have hflush := flush_record_shows hP h.toShows
    have hsame : (a.flush P).out = .sending rest := by simp only [Endpoint.flush, ho]
    simp only [flushRecord, hbuf, hsaved, flush_pending]
    rw [sendpld_buf_sending hflush hsame]
    exact runs_of_sending hflush hsame ((sendpld_flush_hlenIn _ _).trans h.hlenIn)
      ((flush_inp _).trans h.inp_eq)

theorem can_output_iff (h : Runs P maxLen room k i e a) : 0 < e.hlenOut ↔ a.out = .gathering [] := by
  have hoff := h.offered
  have htwo := h.placed.two_le
  cases ho : a.out with
  | gathering acc =>
    rw [ho] at hoff
    rw [hoff.2.2, Outgoing.gathering.injEq]
    split_ifs with hacc
    · simpa [hacc] using (by omega : 0 < maxLen)
    · simpa using hacc
  | sending rest =>
    rw [ho] at hoff
    simp [hoff.2.2]

theorem send_notify_eq (P : Protection κ ι) (maxLen : ℕ) (ho : a.out = .gathering []) :
    (Endpoint.gather P maxLen { a with typeOut := BR_SSL_ALERT } [1, 0]).flush P =
      a.sendNotify P := by
  simp only [Endpoint.gather, ho, List.nil_append]
  split_ifs <;> rfl

/-- The `close_notify` is a record of its own. -/
theorem send_notify_runs (hP : P.Implements R W) (h : Runs P maxLen room k i e a)
    (ho : a.out = .gathering []) :
    Runs P maxLen room k i (e.sendWarning W 0) (a.sendNotify P) := by
  have hout := h.out
  have hoff := h.offered
  have htwo := h.placed.two_le
  rw [ho] at hout hoff
  obtain ⟨hoxc, hoxa, hoxb, hlt, -⟩ := hout
  obtain ⟨hbuf, hsaved, hlen⟩ := hoff
  rw [if_pos rfl] at hlen
  have hone : e.hlenOut - 1 > 0 := by omega
  have hstored : store (store e.buf (e.obuf + e.oxa) [1]) (e.obuf + e.oxa + 1) [0] =
      store e.buf (e.obuf + e.oxa) [1, 0] := store_append _ _ [1] [0]
  have hb : ShowsBut P maxLen room
      { e with
        recordTypeOut := BR_SSL_ALERT
        buf := store e.buf (e.obuf + e.oxa) [1, 0]
        hbufOut := some (e.obuf + e.oxa + 1 + 1)
        hlenOut := e.hlenOut - 1 - 1 } { a with typeOut := BR_SSL_ALERT } :=
    { h with
      typeOut := rfl
      inp := h.inp.store_above h.placed (Nat.le_add_right _ _) _ }
  simp only [sendWarning, sendAlert, write8Native, hbuf, if_pos (show e.hlenOut > 0 by omega),
    if_pos hone, hstored, ← send_notify_eq P maxLen ho]
  refine flush_written_runs hP [1, 0] hb ho hoxc hoxa hoxb hlt ?_ ?_ ?_ rfl h.hlenIn
    h.inp_eq
  · simpa using htwo
  · show load (store e.buf (e.obuf + e.oxa) [1, 0]) (e.obuf + e.oxc) [1, 0].length = [1, 0]
    rw [hoxa]
    exact load_store_same _ _ _
  · exact hsaved.trans hbuf

theorem close_wait_runs (h : Runs P maxLen room k i e a) (cnr : Bool) :
    RunsPhase P maxLen room k i (e.closeWait cnr) (a.closeWait cnr) := by
  simp only [SslEngine.closeWait, Endpoint.closeWait, gt_iff_lt, can_output_iff h]
  split_ifs with hc
  · exact fail_shows h.toShowsRegisters 0
  · exact { h with co := rfl }

theorem close_flush_runs (hP : P.Implements R W) (h : Runs P maxLen room k i e a) (cnr : Bool) :
    RunsPhase P maxLen room k i (e.closeFlush W cnr) (a.closeFlush P cnr) := by
  simp only [SslEngine.closeFlush, Endpoint.closeFlush, gt_iff_lt, can_output_iff h]
  split_ifs with ho
  · exact close_wait_runs (send_notify_runs hP h ho) cnr
  · exact { h with co := rfl }

theorem do_close_runs (hP : P.Implements R W) (h : Runs P maxLen room k i e a) (cnr : Bool) :
    RunsPhase P maxLen room k i (e.doClose W cnr) (a.doClose P cnr) := by
  have hb : Runs P maxLen room k i
      { e with applicationData := if cnr then 0 else e.applicationData <<< 1 }
      { a with app := if cnr then 0 else a.app <<< 1 } :=
    { h with app := by rw [← h.app] }
  exact close_flush_runs hP (flush_record_runs hP hb) cnr

theorem fail_of_inout (hio : e.iomode = .inout) (n : ℤ) :
    (e.fail n).iomode = .failed ∧ (e.fail n).err = n := by
  have hne : e.iomode ≠ .failed := by
    rw [hio]
    decide
  rw [fail, if_pos hne]
  exact ⟨rfl, rfl⟩

/-- The alert bytes of a record, one after another. -/
theorem process_alerts_loop_eq (xs : List UInt8) (e : SslEngine κ ι) (found : Bool)
    (hlen : e.hlenIn = xs.length) (hload : load e.buf e.hbufIn xs.length = xs)
    (hio : e.iomode = .inout) :
    (∀ level b, alertBytes e.alert xs found = .ok (level, b) →
      e.processAlertsLoop xs.length found =
        ({ e with hbufIn := e.hbufIn + xs.length, hlenIn := 0, alert := level }, some b)) ∧
    (∀ n, alertBytes e.alert xs found = .error n →
      ∃ e', e.processAlertsLoop xs.length found = (e', none) ∧ e'.iomode = .failed ∧
        e'.err = n) := by
  induction xs generalizing e found with
  | nil =>
    refine ⟨fun level b hok => ?_, fun n herr => by cases herr⟩
    cases hok
    simp only [List.length_nil, processAlertsLoop, Nat.add_zero]
    rw [List.length_nil] at hlen
    rw [← hlen]
  | cons x xs ih =>
    have hx : e.buf e.hbufIn = x ∧ load e.buf (e.hbufIn + 1) xs.length = xs := by
      rw [List.length_cons, Nat.add_comm, load_add, load_one] at hload
      exact List.cons_eq_cons.mp hload
    have hrest : e.hlenIn - 1 = xs.length := by
      rw [hlen, List.length_cons, Nat.add_sub_cancel]
    have hend : e.hbufIn + (x :: xs).length = e.hbufIn + 1 + xs.length := by
      rw [List.length_cons, Nat.add_assoc, Nat.add_comm 1]
    rw [hend]
    simp only [List.length_cons, processAlertsLoop, hx.1, processAlertByte, alertBytes]
    by_cases hzero : e.alert = 0
    · simp only [if_pos hzero, Bool.false_or]
      exact ih
        { e with
          hbufIn := e.hbufIn + 1
          hlenIn := e.hlenIn - 1
          alert := if x ≠ 1 then 2 else x } found hrest hx.2 hio
    · simp only [if_neg hzero]
      by_cases hone : e.alert = 1
      · simp only [if_pos hone]
        by_cases hreneg : x = 100
        · simp only [if_pos hreneg]
          refine ⟨fun level b hok => (by cases hok), fun n herr => ?_⟩
          obtain rfl := Except.error.inj herr
          refine ⟨_, rfl, fail_of_inout ?_ _⟩
          exact hio
        · simp only [if_neg hreneg]
          exact ih { e with hbufIn := e.hbufIn + 1, hlenIn := e.hlenIn - 1, alert := 0 }
            (x = 0 || found) hrest hx.2 hio
      · simp only [if_neg hone]
        refine ⟨fun level b hok => (by cases hok), fun n herr => ?_⟩
        obtain rfl := Except.error.inj herr
        refine ⟨_, rfl, fail_of_inout ?_ _⟩
        exact hio

end Words

section Rounds

variable {κ ι : Type} {P : Protection κ ι} {maxLen room k : ℕ} {i : Incoming} {R : RecordIn ι}
  {W : RecordOut κ} {e : SslEngine κ ι} {a : Endpoint κ ι} {type : UInt8} {rest : List UInt8}
  {handshake : SslEngine κ ι → SslEngine κ ι}

/-- The processor at a yield, with the input of `a` before it. -/
structure Awake (P : Protection κ ι) (maxLen room : ℕ) (e : SslEngine κ ι) (a : Endpoint κ ι) :
    Prop extends Runs P maxLen room a.input.length a.inp e a where
  input : load e.buf e.hbufIn a.input.length = a.input

/-- What one round does: the input is left, or all of it is read. -/
def RoundShows (P : Protection κ ι) (maxLen room : ℕ) (a : Endpoint κ ι) (e : SslEngine κ ι)
    (x : Phase κ ι) : Prop :=
  RunsPhase P maxLen room a.input.length a.inp e x ∨
    a.input ≠ [] ∧ ∃ y, RunsPhase P maxLen room 0 a.inp e y ∧ x = y.map Endpoint.consume

theorem input_eq_nil (hi : a.inp = .plain type rest) (hne : rest ≠ []) :
    a.input = [] ↔ type = BR_SSL_APPLICATION_DATA := by
  simp only [Endpoint.input, hi, ite_eq_left_iff, hne, imp_false, not_not]

theorem inp_of_input (h : Shows P maxLen room e a) (hne : a.input ≠ []) :
    ∃ type rest, a.inp = .plain type rest ∧ rest ≠ [] ∧ e.recordTypeIn = type ∧
      a.input = rest := by
  have hin := h.inp
  cases hi : a.inp with
  | header got => exact absurd (by simp only [Endpoint.input, hi]) hne
  | body type len got => exact absurd (by simp only [Endpoint.input, hi]) hne
  | plain type rest =>
    rw [hi] at hin
    refine ⟨type, rest, rfl, hin.2.2.2.1, hin.1, ?_⟩
    simp only [Endpoint.input, hi]
    rw [if_neg]
    intro htype
    exact hne ((input_eq_nil hi hin.2.2.2.1).mpr htype)

/-- `process-alerts` over the whole input. -/
theorem process_alerts_eq (h : Awake P maxLen room e a) (hinput : a.input = rest) :
    (∀ level b, alertBytes a.alert rest false = .ok (level, b) → ∃ e',
      e.processAlerts = (e', some b) ∧ Runs P maxLen room 0 a.inp e' (a.readAlerts level b)) ∧
    (∀ n, alertBytes a.alert rest false = .error n →
      ∃ e', e.processAlerts = (e', none) ∧ e'.iomode = .failed ∧ e'.err = n) := by
  have hlen : e.hlenIn = rest.length := by rw [h.hlenIn, hinput]
  obtain ⟨hok, herr⟩ := process_alerts_loop_eq rest e false hlen
    (by rw [← hinput]; exact h.input) h.iomode
  rw [h.alert] at hok herr
  refine ⟨fun level b hab => ?_, fun n hab => ?_⟩
  · have hloop := hok level b hab
    rw [← hlen] at hloop
    refine ⟨{ e with
      hbufIn := e.hbufIn + e.hlenIn
      hlenIn := 0
      alert := level
      shutdownRecv := b || e.shutdownRecv }, ?_, ?_⟩
    · cases b <;> simp only [processAlerts, hloop, Bool.true_or, Bool.false_or]
    · have hshut : (b || e.shutdownRecv) = (b || a.shutdown) := by rw [h.shutdown]
      exact { h with alert := rfl, shutdown := hshut, hlenIn := rfl, inp_eq := rfl }
  · obtain ⟨e', hloop, hio, hn⟩ := herr n hab
    rw [← hlen] at hloop
    exact ⟨e', by simp only [processAlerts, hloop], hio, hn⟩

theorem after_wait_shows (h : Awake P maxLen room e a) (cnr : Bool)
    {next : SslEngine κ ι → Bool → SslEngine κ ι} {next' : Endpoint κ ι → Bool → Phase κ ι}
    (hnext : ∀ k e b cnr, Runs P maxLen room k a.inp e b →
      RunsPhase P maxLen room k a.inp (next e cnr) (next' b cnr)) :
    RoundShows P maxLen room a (e.afterWait cnr next) (a.afterWait cnr next') := by
  cases cnr with
  | true =>
    left
    simpa [SslEngine.afterWait, Endpoint.afterWait] using hnext _ _ _ true h.toRuns
  | false =>
    by_cases hin : a.input = []
    · left
      have hlen : e.hlenIn = 0 := by rw [h.hlenIn, hin, List.length_nil]
      simpa [SslEngine.afterWait, Endpoint.afterWait, hin, hlen] using hnext _ _ _ false h.toRuns
    · obtain ⟨_, rest, hi, hne, rfl, hinput⟩ := inp_of_input h.toShows hin
      have hlen : e.hlenIn ≠ 0 := by
        rw [h.hlenIn, hinput]
        exact List.length_pos_of_ne_nil hne |>.ne'
      simp only [SslEngine.afterWait, Endpoint.afterWait, hi, hin, hlen, ne_eq,
        not_false_eq_true, Bool.false_eq_true, or_self, if_false, if_true]
      by_cases halert : e.recordTypeIn = BR_SSL_ALERT
      · simp only [if_pos halert]
        obtain ⟨hok, herr⟩ := process_alerts_eq h hinput
        rcases hab : alertBytes a.alert rest false with n | ⟨level, found⟩
        · obtain ⟨e', heq, hfail⟩ := herr n hab
          rw [heq]
          exact .inl hfail
        · obtain ⟨e', heq, hruns⟩ := hok level found hab
          rw [heq]
          have hb : Runs P maxLen room 0 a.inp { e' with applicationData := 0 }
              { a.readAlerts level found with app := 0 } := { hruns with app := rfl }
          exact .inr ⟨hin, _, hnext _ _ _ found hb, rfl⟩
      · simp only [if_neg halert]
        have hb : Runs P maxLen room 0 a.inp { e with hlenIn := 0 } a :=
          { h.toRuns with hlenIn := rfl }
        exact .inr ⟨hin, _, hnext _ _ _ false hb, rfl⟩

theorem main_loop_shows (hP : P.Implements R W) (h : Awake P maxLen room e a) {action : ℕ}
    (haction : e.action = action) (htwo : action ≠ 2) :
    RoundShows P maxLen room a (e.mainLoop W handshake) (a.mainLoop P action) := by
  simp only [SslEngine.mainLoop, Endpoint.mainLoop, haction, htwo, false_and, if_false]
  by_cases hone : action = 1
  · simp only [if_pos hone]
    exact .inl (do_close_runs hP h.toRuns false)
  · simp only [if_neg hone, h.closeReceived, true_and]
    by_cases hin : a.input = []
    · have hlen : e.hlenIn = 0 := by rw [h.hlenIn, hin, List.length_nil]
      simp only [hlen, hin, ne_eq, not_true_eq_false, if_false, if_true]
      exact .inl h.toRuns
    · obtain ⟨_, rest, hi, hne, rfl, hinput⟩ := inp_of_input h.toShows hin
      have hlen : e.hlenIn ≠ 0 := by
        rw [h.hlenIn, hinput]
        exact List.length_pos_of_ne_nil hne |>.ne'
      simp only [hi, hin, hlen, ne_eq, not_false_eq_true, if_false, if_true]
      by_cases halert : e.recordTypeIn = BR_SSL_ALERT
      · simp only [if_pos halert]
        obtain ⟨hok, herr⟩ := process_alerts_eq h hinput
        rcases hab : alertBytes a.alert rest false with n | ⟨level, found⟩
        · obtain ⟨e', heq, hfail⟩ := herr n hab
          rw [heq]
          exact .inl hfail
        · obtain ⟨e', heq, hruns⟩ := hok level found hab
          rw [heq]
          cases found with
          | true => exact .inr ⟨hin, _, do_close_runs hP hruns true, rfl⟩
          | false => exact .inr ⟨hin, .established _, hruns, rfl⟩
      · simp only [if_neg halert]
        by_cases hhs : e.recordTypeIn = BR_SSL_HANDSHAKE
        · simp only [if_pos hhs]
          exact .inl trivial
        · simp only [if_neg hhs]
          exact .inl (fail_shows h.toShowsRegisters _)

/-- `hsrun`. -/
theorem hsrun_shows (handshake : SslEngine κ ι → SslEngine κ ι) (hP : P.Implements R W)
    (h : Awake P maxLen room e a) {action : ℕ} (haction : e.action = action) (htwo : action ≠ 2) :
    RoundShows P maxLen room a (e.hsrun W handshake) (a.round P action) := by
  simp only [hsrun, Endpoint.round, h.co]
  cases a.co with
  | main => exact main_loop_shows hP h haction htwo
  | closeFlush cnr =>
    exact after_wait_shows h cnr fun k e b cnr hb => close_flush_runs hP hb cnr
  | closeWait cnr => exact after_wait_shows h cnr fun k e b cnr hb => close_wait_runs hb cnr
  | handshake => exact .inl trivial

theorem recvpld_buf_eq (h : Shows P maxLen room e a) (hi : a.inp = .plain type rest) :
    e.recvpldBuf = some (e.ibuf + e.ixa, rest.length) := by
  have hin := h.inp
  rw [hi] at hin
  obtain ⟨-, hixb, -, hne, -⟩ := hin
  have hpos := List.length_pos_of_ne_nil hne
  have hlen : e.ixb - e.ixa = rest.length := by omega
  simp only [recvpldBuf, h.iomode, hlen]
  rw [if_pos (.inr trivial), if_neg (by omega)]

theorem recvpld_buf_none (h : Shows P maxLen room e a)
    (hi : ∀ type rest, a.inp ≠ .plain type rest) : e.recvpldBuf = none := by
  have hin := h.inp
  have hsame : e.ixb = e.ixa := by
    cases hia : a.inp with
    | header got =>
      rw [hia] at hin
      exact hin.2.1
    | body type len got =>
      rw [hia] at hin
      exact hin.2.2.1
    | plain type rest => exact absurd hia (hi type rest)
  simp only [recvpldBuf, hsame, Nat.sub_self, if_true, ite_self]

theorem awake_of (h : Shows P maxLen room e a) {p n m action : ℕ} {q : Option ℕ}
    (hn : n = a.input.length) (hload : load e.buf p a.input.length = a.input)
    (hoff : OutOffered maxLen { e with hbufOut := q, savedHbufOut := q, hlenOut := m } a.out) :
    Awake P maxLen room
      { e with
        hbufIn := p
        hlenIn := n
        hbufOut := q
        savedHbufOut := q
        hlenOut := m
        action := action } a := by
  refine { h with hlenIn := hn, inp_eq := rfl, input := hload, offered := ?_ }
  cases ho : a.out with
  | gathering acc =>
    rw [ho] at hoff
    exact hoff
  | sending rest =>
    rw [ho] at hoff
    exact hoff

/-- The input that `jump_handshake` offers. -/
theorem offer_input (h : Shows P maxLen room e a) :
    e.recvpldBuf = none ∧ a.input = [] ∨ ∃ p n, e.recvpldBuf = some (p, n) ∧
      (if e.recordTypeIn = BR_SSL_APPLICATION_DATA then 0 else n) = a.input.length ∧
      load e.buf p a.input.length = a.input := by
  have hin := h.inp
  cases hi : a.inp with
  | header got =>
    exact .inl ⟨recvpld_buf_none h (by simp [hi]), by simp only [Endpoint.input, hi]⟩
  | body type len got =>
    exact .inl ⟨recvpld_buf_none h (by simp [hi]), by simp only [Endpoint.input, hi]⟩
  | plain type rest =>
    rw [hi] at hin
    obtain ⟨rfl, -, -, -, -, hload⟩ := hin
    refine .inr ⟨_, _, recvpld_buf_eq h hi, ?_⟩
    simp only [Endpoint.input, hi]
    split_ifs with happ
    · exact ⟨rfl, rfl⟩
    · exact ⟨rfl, hload⟩

/-- The offer of `jump_handshake`. -/
theorem offer_awake (h : Shows P maxLen room e a) (action : ℕ) :
    Awake P maxLen room (e.offer action) a ∧ (e.offer action).action = action := by
  cases ho : a.out with
  | gathering acc =>
    have hbuf := sendpld_buf_gathering h ho
    have hoff : ∀ m, m = (if acc = [] then maxLen else 0) →
        OutOffered maxLen { e with
          hbufOut := some (e.obuf + e.oxa)
          savedHbufOut := some (e.obuf + e.oxa)
          hlenOut := m } a.out := by
      rintro m rfl
      rw [ho]
      exact ⟨rfl, rfl, rfl⟩
    have hm : (if e.hasPldToSend then 0 else maxLen - acc.length) =
        if acc = [] then maxLen else 0 := by
      simp only [has_pld_iff h ho]
      by_cases hnil : acc = []
      · rw [if_neg (not_not.mpr hnil), if_pos hnil, hnil, List.length_nil, Nat.sub_zero]
      · rw [if_pos hnil, if_neg hnil]
    rcases offer_input h with ⟨hrecv, hnil⟩ | ⟨p, n, hrecv, hn, hload⟩
    · simp only [offer, hrecv, hbuf]
      exact ⟨awake_of h (by rw [hnil]; rfl) (by rw [hnil]; rfl) (hoff _ hm), trivial⟩
    · simp only [offer, hrecv, hbuf]
      exact ⟨awake_of h hn hload (hoff _ hm), trivial⟩
  | sending rest =>
    have hbuf := sendpld_buf_sending h ho
    have hoff : OutOffered maxLen
        { e with hbufOut := none, savedHbufOut := none, hlenOut := 0 } a.out := by
      rw [ho]
      exact ⟨rfl, rfl, rfl⟩
    rcases offer_input h with ⟨hrecv, hnil⟩ | ⟨p, n, hrecv, hn, hload⟩
    · simp only [offer, hrecv, hbuf]
      exact ⟨awake_of h (by rw [hnil]; rfl) (by rw [hnil]; rfl) hoff, trivial⟩
    · simp only [offer, hrecv, hbuf]
      exact ⟨awake_of h hn hload hoff, trivial⟩

/-- The output registers say that the processor has not written behind its last flush. -/
theorem nothing_written (h : Runs P maxLen room k i e a) : e.savedHbufOut = e.hbufOut := by
  have hoff := h.offered
  cases ho : a.out with
  | gathering acc =>
    rw [ho] at hoff
    exact hoff.2.1
  | sending rest =>
    rw [ho] at hoff
    exact hoff.2.1.trans hoff.1.symm

/-- A round of `jump_handshake` in which the processor neither fails nor writes. -/
theorem jump_round {e' : SslEngine κ ι} {rounds action : ℕ}
    (heq : (e.offer action).hsrun W handshake = e') (hopen : e'.closed = false)
    (hsaved : e'.savedHbufOut = e'.hbufOut) :
    jumpHandshake W handshake (rounds + 1) action e =
      if (e.offer action).hlenIn ≠ e'.hlenIn then
        if e'.hlenIn = 0 then
          jumpHandshake W handshake rounds 0 (e'.recvpldAck ((e.offer action).hlenIn - e'.hlenIn))
        else e'.recvpldAck ((e.offer action).hlenIn - e'.hlenIn)
      else e' := by
  simp only [jumpHandshake, heq, hopen, Bool.false_eq_true, if_false, hsaved]
  cases e'.hbufOut with
  | none => rfl
  | some p => simp only [ne_eq, not_true_eq_false, if_false]

theorem closed_of_failed (hio : e.iomode = .failed) : e.closed = true := by
  simp only [closed, hio, decide_true]

theorem closed_of_shows (h : ShowsRegisters P maxLen room e a) : e.closed = false := by
  simp only [closed, h.iomode]
  decide

theorem jump_failed {rounds action : ℕ} {err : ℤ}
    (hfail : ((e.offer action).hsrun W handshake).iomode = .failed ∧
      ((e.offer action).hsrun W handshake).err = err) :
    ShowsPhase P maxLen room (jumpHandshake W handshake (rounds + 1) action e) (.closed err) := by
  simp only [jumpHandshake, closed_of_failed hfail.1, if_true]
  exact hfail

/-- A round without input is the last one. -/
theorem jump_last_shows (hP : P.Implements R W) (h : Shows P maxLen room e a) {rounds action : ℕ}
    (htwo : action ≠ 2) (hin : a.input = []) :
    ShowsPhase P maxLen room (jumpHandshake W handshake (rounds + 1) action e)
      (a.round P action) := by
  obtain ⟨hawake, haction⟩ := offer_awake h action
  have hlen : (e.offer action).hlenIn = 0 := by rw [hawake.hlenIn, hin, List.length_nil]
  rcases hsrun_shows handshake hP hawake haction htwo with hround | ⟨hne, -⟩
  · cases hx : a.round P action with
    | established b =>
      rw [hx] at hround
      rw [jump_round rfl (closed_of_shows hround.toShowsRegisters) (nothing_written hround),
        hlen, hround.hlenIn, hin, List.length_nil, if_neg (not_not.mpr rfl)]
      exact hround.toShows
    | closed err =>
      rw [hx] at hround
      exact jump_failed hround
    | left => exact trivial
  · exact absurd hin hne

/-- `jump_handshake` ends within its rounds. -/
theorem jump_shows (hP : P.Implements R W) (h : Shows P maxLen room e a) {action : ℕ}
    (htwo : action ≠ 2) :
    ShowsPhase P maxLen room (jumpHandshake W handshake JUMP_ROUNDS action e)
      (a.jump P action) := by
  obtain ⟨hawake, haction⟩ := offer_awake h action
  simp only [Endpoint.jump]
  rcases hsrun_shows handshake hP hawake haction htwo with
    hround | ⟨hne, y, hround, hx⟩
  · cases hx : a.round P action with
    | established b =>
      rw [hx] at hround
      have hsame : ¬ (a.input ≠ [] ∧ b.input = []) := by
        rintro ⟨hne, hnil⟩
        refine hne ?_
        simp only [Endpoint.input, hround.inp_eq] at hnil
        exact hnil
      rw [JUMP_ROUNDS, jump_round rfl (closed_of_shows hround.toShowsRegisters)
        (nothing_written hround), hawake.hlenIn, hround.hlenIn, if_neg (not_not.mpr rfl)]
      simp only [Phase.bind, if_neg hsame]
      exact hround.toShows
    | closed err =>
      rw [hx] at hround
      exact jump_failed hround
    | left => exact trivial
  · rw [hx]
    cases y with
    | established b =>
      obtain ⟨type, rest, hi, hrest, -, hinput⟩ := inp_of_input h hne
      have hb : b.inp = .plain type rest := hround.inp_eq.trans hi
      have hack := recvpld_ack_shows hround.toShows hb (Nat.le_refl _)
      have htake : b.take rest.length = b.consume := by
        simp only [Endpoint.take, hb, Nat.le_refl, if_true]
      have hpos : rest.length ≠ 0 := (List.length_pos_of_ne_nil hrest).ne'
      rw [JUMP_ROUNDS, jump_round rfl (closed_of_shows hround.toShowsRegisters)
        (nothing_written hround), hawake.hlenIn, hround.hlenIn, hinput, if_pos hpos, if_pos rfl,
        Nat.sub_zero]
      simp only [Phase.map, Phase.bind]
      rw [if_pos ⟨hrest, rfl⟩]
      rw [htake] at hack
      exact jump_last_shows hP hack (by decide) rfl
    | closed err => exact jump_failed hround
    | left => exact trivial

end Rounds

end BearTLS
