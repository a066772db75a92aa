import BearTLS.Model.Engine
import Mathlib.Data.List.TakeWhile

/-! A null-cipher engine. It shows that the engine contract can be met, and it
runs the concrete schedules of the later modules. On its wire a received byte
above 1 is one byte of plaintext, 0 is a `close_notify`, and 1 is a record with
a bad MAC; an outgoing record is a type byte and the plaintext. -/

namespace BearTLS

structure PlainEngine where
  recs : List TlsRecord
  acked : ℕ
  acc : List UInt8
  fed : List UInt8
  taken : ℕ
  closing : Bool
deriving DecidableEq, Repr

namespace PlainEngine

def BAD_MAC : ℤ := 7

/-- The first received byte that is not plaintext. -/
def alert (fed : List UInt8) : Option UInt8 := fed.find? (· ≤ 1)

def plaintext (fed : List UInt8) : List UInt8 := fed.takeWhile (1 < ·)

def dataRecords (acc : List UInt8) : List TlsRecord := if acc = [] then [] else [⟨23 :: acc, acc⟩]

def notifyRecord : TlsRecord := ⟨[21], []⟩

def pending (e : PlainEngine) : List UInt8 := (wireOf e.recs).drop e.acked

def unread (e : PlainEngine) : List UInt8 := (plaintext e.fed).drop e.taken

def isClosed (e : PlainEngine) : Bool :=
  alert e.fed = some 1 || (alert e.fed = some 0 && pending e = [])

def state (e : PlainEngine) : EngineState :=
  if isClosed e then ⟨true, false, false, false, false⟩
  else
    { closed := false
      sendrec := pending e ≠ []
      recvrec := alert e.fed = none && unread e = []
      sendapp := alert e.fed = none && pending e = [] && !e.closing
      recvapp := unread e ≠ [] && !e.closing }

/-- All accumulated plaintext as a closed record, then `more`. -/
def closeRecords (e : PlainEngine) (more : List TlsRecord) : PlainEngine :=
  { e with recs := e.recs ++ dataRecords e.acc ++ more, acc := [] }

def receive (e : PlainEngine) (bs : List UInt8) : PlainEngine :=
  let e' := { e with fed := e.fed ++ bs }
  if alert e'.fed = some 0 ∧ e.closing = false then e'.closeRecords [notifyRecord] else e'

def engine : Engine PlainEngine where
  currentState := state
  lastError e := if alert e.fed = some 1 then BAD_MAC else 0
  sendrecBuf e := if isClosed e then [] else pending e
  sendrecAck e n := { e with acked := e.acked + n }
  recvrecBuf _ := 1
  recvrecAck := receive
  sendappBuf e := 512 - e.acc.length
  sendappAck e d := { e with acc := e.acc ++ d }
  recvappBuf := unread
  recvappAck e n := { e with taken := e.taken + n }
  flush e := e.closeRecords []
  close e := if isClosed e then e
    else { e.closeRecords [notifyRecord] with closing := true }

/-- What `br_ssl_client_reset` leaves: a client hello to send. -/
def start : PlainEngine := ⟨[⟨[22], []⟩], 0, [], [], 0, false⟩

structure Valid (e : PlainEngine) : Prop where
  acked_le : e.acked ≤ (wireOf e.recs).length
  taken_le : e.taken ≤ (plaintext e.fed).length
  alert_unread : e.closing = false → alert e.fed ≠ none → unread e = []
  notify_acc : alert e.fed = some 0 → e.acc = []
  closing_acc : e.closing = true → e.acc = []

def history : History PlainEngine where
  Valid := Valid
  recs := recs
  acked := acked
  acc := acc
  fed := fed
  taken := taken
  closeNotify e := alert e.fed = some 0
  closing e := e.closing = true
  plain := plaintext

theorem payload_dataRecords (acc : List UInt8) : payloadOf (dataRecords acc) = acc := by
  unfold dataRecords
  split_ifs with h
  · exact h.symm
  · simp [payloadOf]

theorem alert_cases (fed : List UInt8) :
    alert fed = none ∨ alert fed = some 0 ∨ alert fed = some 1 := by
  cases h : alert fed with
  | none => exact .inl rfl
  | some b =>
    have hb : b ≤ 1 := by simpa using List.find?_some h
    have : b = 0 ∨ b = 1 := by
      rcases Nat.le_one_iff_eq_zero_or_eq_one.mp (UInt8.le_iff_toNat_le.mp hb) with h | h
      · exact .inl (UInt8.toNat_inj.mp h)
      · exact .inr (UInt8.toNat_inj.mp h)
    rcases this with rfl | rfl
    · exact .inr (.inl rfl)
    · exact .inr (.inr rfl)

theorem plaintext_append (xs ys : List UInt8) : plaintext xs <+: plaintext (xs ++ ys) := by
  induction xs with
  | nil => exact List.nil_prefix
  | cons x xs ih =>
    simp only [plaintext, List.cons_append, List.takeWhile_cons] at ih ⊢
    split_ifs
    · exact (List.cons_prefix_cons).mpr ⟨rfl, ih⟩
    · exact List.prefix_refl _

theorem isClosed_of_state {e : PlainEngine} (h : (state e).closed = true) : isClosed e = true := by
  unfold state at h
  split_ifs at h with hc
  exact hc

theorem state_open {e : PlainEngine} (h : (state e).closed = false) : isClosed e = false := by
  unfold state at h
  split_ifs at h with hc
  simpa using hc

theorem closeRecords_advance (e : PlainEngine) {more : List TlsRecord}
    (hm : payloadOf more = []) : history.Advance e (e.closeRecords more) 0 [] [] 0 where
  recs := ⟨dataRecords e.acc ++ more, by simp [history, closeRecords], by
    simp [history, closeRecords, payload_dataRecords, hm]⟩
  acked := rfl
  fed := (List.append_nil _).symm
  taken := rfl

theorem closeRecords_valid {e : PlainEngine} (hacked : e.acked ≤ (wireOf e.recs).length)
    (htaken : e.taken ≤ (plaintext e.fed).length)
    (halert : e.closing = false → alert e.fed ≠ none → unread e = []) (more : List TlsRecord) :
    Valid (e.closeRecords more) where
  acked_le := by
    simp only [closeRecords, wireOf_append, List.length_append]
    omega
  taken_le := htaken
  alert_unread := halert
  notify_acc _ := rfl
  closing_acc _ := rfl

theorem alert_none {fed : List UInt8} : alert fed = none ↔ ∀ b ∈ fed, 1 < b := by
  simp [alert]

theorem plaintext_eq_self {fed : List UInt8} (h : alert fed = none) : plaintext fed = fed := by
  rw [plaintext, List.takeWhile_eq_self_iff]
  simpa using alert_none.mp h

theorem plaintext_snoc {fed : List UInt8} (h : alert fed = none) (b : UInt8) :
    plaintext (fed ++ [b]) = if b ≤ 1 then fed else fed ++ [b] := by
  have hall : ∀ x ∈ fed, decide (1 < x) = true := by simpa using alert_none.mp h
  rw [plaintext, List.takeWhile_append_of_pos hall, List.takeWhile_cons]
  by_cases hb : b ≤ 1
  · simp [hb, UInt8.not_lt.mpr hb]
  · simp [hb, UInt8.not_le.mp hb]

theorem alert_snoc {fed : List UInt8} (h : alert fed = none) (b : UInt8) :
    alert (fed ++ [b]) = if b ≤ 1 then some b else none := by
  simp only [alert] at h ⊢
  rw [List.find?_append, h, Option.none_or, List.find?_singleton]
  simp

theorem receive_step {e : PlainEngine} (h : Valid e) (hc : e.closing = false)
    (ha : alert e.fed = none) (hu : unread e = []) (b : UInt8) :
    history.Step e (receive e [b]) 0 [] [b] 0 := by
  have hle : e.taken ≤ (plaintext (e.fed ++ [b])).length :=
    Nat.le_trans h.taken_le (plaintext_append e.fed [b]).length_le
  -- an alert adds no plaintext, so all of it is still taken
  have hunread : alert (e.fed ++ [b]) ≠ none → (plaintext (e.fed ++ [b])).drop e.taken = [] := by
    rw [alert_snoc ha b, plaintext_snoc ha b]
    split_ifs with hb
    · intro _
      rw [unread, plaintext_eq_self ha] at hu
      exact hu
    · intro hne
      exact absurd rfl hne
  unfold receive
  by_cases hz : alert (e.fed ++ [b]) = some 0
  · rw [if_pos ⟨hz, hc⟩]
    have hadv := closeRecords_advance { e with fed := e.fed ++ [b] }
      (rfl : payloadOf [notifyRecord] = [])
    exact ⟨⟨hadv.recs, rfl, rfl, rfl⟩,
      closeRecords_valid (e := { e with fed := e.fed ++ [b] }) h.acked_le hle
        (fun _ => hunread) _, Iff.rfl⟩
  · simp only [hz, false_and, if_false]
    exact ⟨⟨⟨[], by simp [history], by simp [history]⟩, rfl, rfl, rfl⟩,
      ⟨h.acked_le, hle, fun _ => hunread, fun hz' => absurd hz' hz, h.closing_acc⟩, Iff.rfl⟩

/-- The flags of an engine that is not closed. -/
theorem state_flags {e : PlainEngine} (h : isClosed e = false) :
    state e = ⟨false, pending e ≠ [], alert e.fed = none && unread e = [],
      alert e.fed = none && pending e = [] && !e.closing, unread e ≠ [] && !e.closing⟩ := by
  simp [state, h]

theorem state_closed_eq (e : PlainEngine) : (state e).closed = isClosed e := by
  cases h : isClosed e <;> simp [state, h]

theorem ack_step {e : PlainEngine} (h : Valid e) {n : ℕ} (hn : n ≤ (pending e).length) :
    history.Step e { e with acked := e.acked + n } n [] [] 0 := by
  have hle := h.acked_le
  rw [pending, List.length_drop] at hn
  refine ⟨⟨⟨[], by simp [history], by simp [history]⟩, rfl, by simp [history], rfl⟩, ?_, Iff.rfl⟩
  exact ⟨by simp only; omega, h.taken_le, h.alert_unread, h.notify_acc, h.closing_acc⟩

theorem put_flush_step {e : PlainEngine} (h : Valid e) (d : List UInt8) :
    history.Step e (closeRecords { e with acc := e.acc ++ d } []) 0 d [] 0 := by
  have hpay := payload_dataRecords (e.acc ++ d)
  refine ⟨⟨⟨dataRecords (e.acc ++ d), by simp [history, closeRecords], ?_⟩, rfl,
    by simp [history, closeRecords], rfl⟩, ?_, Iff.rfl⟩
  · simp [history, closeRecords, hpay]
  · exact closeRecords_valid (e := { e with acc := e.acc ++ d }) h.acked_le h.taken_le
      h.alert_unread []

theorem take_step {e : PlainEngine} (h : Valid e) {n : ℕ} (hn : n ≤ (unread e).length) :
    history.Step e { e with taken := e.taken + n } 0 [] [] n := by
  have hle := h.taken_le
  have hn' := hn
  rw [unread, List.length_drop] at hn'
  refine ⟨⟨⟨[], by simp [history], by simp [history]⟩, rfl, by simp [history], rfl⟩, ?_, Iff.rfl⟩
  refine ⟨h.acked_le, by simp only; omega, fun hc ha => ?_, h.notify_acc, h.closing_acc⟩
  have hempty : (plaintext e.fed).drop e.taken = [] := h.alert_unread hc ha
  simp only [unread, ← List.drop_drop, hempty, List.drop_nil]

/-- The contract can be met. -/
theorem lawful : engine.Lawful history where
  sendrec_iff e _ hc := by
    simp [engine, state, state_open hc]
  sendrec_closed e _ hc := by
    simp [engine, isClosed_of_state hc]
  sendrec_pending e _ hc := by
    simp [engine, state_open hc, pending, history, History.wire]
  acked_le e h := h.acked_le
  recvrec_unread e h hs := by
    cases hc : isClosed e with
    | true => simp [engine, state, hc] at hs
    | false =>
      simp only [engine, state_flags hc, Bool.and_eq_true, decide_eq_true_eq] at hs
      exact hs.2
  recvapp_exposes e _ := List.prefix_refl _
  plain_mono := plaintext_append
  closed_ok e _ hc := by
    have := isClosed_of_state hc
    rcases alert_cases e.fed with h | h | h
    · simp [isClosed, h] at this
    · simp [engine, history, h]
    · simp [engine, history, h, BAD_MAC]
  closed_drained e h hc h0 := by
    have hclosed := isClosed_of_state hc
    rcases alert_cases e.fed with ha | ha | ha
    · simp [isClosed, ha] at hclosed
    · have hend : pending e = [] := by simpa [isClosed, ha] using hclosed
      have hlen : (wireOf e.recs).length ≤ e.acked := List.drop_eq_nil_iff.mp hend
      exact ⟨Nat.le_antisymm h.acked_le hlen, h.notify_acc ha⟩
    · simp [engine, ha, BAD_MAC] at h0
  notify_pending e _ hn hc := by
    have ha : alert e.fed = some 0 := hn
    have hopen : pending e ≠ [] := by simpa [isClosed, ha] using state_open hc
    simp [engine, state_flags (state_open hc), hopen]
  notify_unread e h hn := by
    have hc : e.closing = false := by simpa [history] using h.not_closing
    exact h.valid.alert_unread hc (by rw [hn]; simp)
  sendrec_ack e n h hc _ hn := by
    simp only [engine, state_open hc, Bool.false_eq_true, if_false] at hn
    exact ack_step h hn
  recvrec_ack e bs h hc hs hne hl := by
    obtain ⟨b, rfl⟩ : ∃ b, bs = [b] := by
      apply List.length_eq_one_iff.mp
      have := List.length_pos_of_ne_nil hne
      simp only [engine] at hl
      omega
    simp only [engine, state_flags (state_open hc), Bool.and_eq_true, decide_eq_true_eq] at hs
    exact receive_step h.valid (by simpa [history] using h.not_closing) hs.1 hs.2 b
  sendapp_flush e d h hc hs _ _ := by
    simp only [engine, state_flags (state_open hc), Bool.and_eq_true, decide_eq_true_eq,
      Bool.not_eq_true'] at hs
    refine ⟨put_flush_step h.valid d, rfl, ?_⟩
    simp only [engine, state_closed_eq]
    simp [isClosed, closeRecords, hs.1.1]
  recvapp_ack e n h hc hs _ hn := by
    refine ⟨take_step h.valid hn, ?_⟩
    have hopen := state_open hc
    simp only [engine, state_closed_eq]
    exact hopen
  close e h := by
    have hv := h.valid
    simp only [engine]
    split_ifs with hc
    · exact ⟨hv, ⟨[], by simp [history], by simp [history]⟩, rfl, by simp [history], rfl⟩
    · have hadv := closeRecords_advance e (rfl : payloadOf [notifyRecord] = [])
      have hval := closeRecords_valid hv.acked_le hv.taken_le hv.alert_unread [notifyRecord]
      exact ⟨⟨hval.acked_le, hval.taken_le, by simp, hval.notify_acc, fun _ => rfl⟩,
        ⟨hadv.recs, rfl, hadv.fed, rfl⟩⟩

theorem start_fresh : history.Fresh start where
  valid := ⟨by decide, by decide, fun _ h => absurd rfl h, (by intro h; cases h),
    by intro h; cases h⟩
  not_closing := by rintro ⟨⟩
  payload := rfl
  acked := rfl
  acc := rfl
  fed := rfl
  taken := rfl

end PlainEngine

end BearTLS
