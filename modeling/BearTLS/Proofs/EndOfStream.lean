import BearTLS.Proofs.Reading
import BearTLS.Sanity.Schedules

/-! When a read reports the end of the stream. -/

namespace BearTLS

open Relation Trace

variable {σ α : Type} {E : Engine σ} {H : History σ} {os : Host σ}
  {reset : α → List UInt8 → Bool × σ} {base : Log σ}

theorem readTake_eq_zero {size : ℕ} (hsize : 0 < size) (e : σ) :
    readTake E size e = 0 ↔ ¬ ((E.currentState e).recvapp = true ∧ E.recvappBuf e ≠ []) := by
  unfold readTake
  split_ifs with ha
  · have hlen : (E.recvappBuf e).length = 0 ↔ E.recvappBuf e = [] := List.length_eq_zero_iff
    simp only [ha, true_and, ne_eq, not_not, ← hlen]
    omega
  · simp [ha]

variable (H) in
/-- The session is over on both sides: the peer's `close_notify` is processed,
the plaintext before it is delivered, and all output, the reply included, is sent. -/
structure SessionEnded (e : σ) : Prop where
  notify : H.closeNotify e
  delivered : H.unread e = []
  replied : H.acked e = (H.wire e).length

variable (E) in
/-- A call that starts with the `closed` flag set on an engine that is neither
closed nor has anything to deliver, and in which no socket operation fails. -/
structure LateRead (c : Conn σ) (evs : Log σ) : Prop where
  flag : c.closed = true
  opened : (E.currentState c.eng).closed = false
  idle : ¬ ((E.currentState c.eng).recvapp = true ∧ E.recvappBuf c.eng ≠ [])
  clean : ¬ FailureSeen evs

/-- While the engine is not closed its reply is still to be sent. -/
theorem not_ended_of_open (hE : E.Lawful H) {e : σ} (hv : H.Valid e)
    (hopen : (E.currentState e).closed = false) : ¬ SessionEnded H e := by
  rintro ⟨hnotify, -, hacked⟩
  have hsend := hE.notify_pending e hv hnotify hopen
  have hbuf := (hE.sendrec_iff e hv hopen).mp hsend
  rw [hE.sendrec_pending e hv hopen, hacked, List.drop_length] at hbuf
  exact hbuf rfl

/-- A closed engine without error has ended the session on both sides. -/
theorem closed_ended (hE : E.Lawful H) {e : σ} (ho : H.Open e)
    (hc : (E.currentState e).closed = true) : E.lastError e = 0 ↔ SessionEnded H e := by
  constructor
  · intro herr
    have hnotify := (hE.closed_ok e ho.valid hc).mp herr
    exact ⟨hnotify, hE.notify_unread e ho hnotify, (hE.closed_drained e ho.valid hc herr).1⟩
  · intro hended
    exact (hE.closed_ok e ho.valid hc).mpr hended.notify

/-- In any run, a read reports the end of the stream exactly when the session has
ended, when `recv` has returned 0 in it, or when it is late; and a call in which
a socket operation fails returns 0, whatever the engine has processed. -/
theorem read_end_of_stream (hE : E.Lawful H)
    (hreset : ∀ a name e, reset a name = (true, e) → H.Fresh e) {c c' : Conn σ}
    {hist : List CallRecord} (h : ApiRun E os reset base c hist) {fuel size br n : ℕ}
    {data : List UInt8} {ok : Bool} {x : WmHttpsResult} {r' : ResultPtr} (hsize : 0 < size)
    (hread : wmTlsRead E os fuel (some c) true size (some br) (some x) =
      ⟨some ok, some c', data, some n, r'⟩) :
    ∃ evs, c'.log = c.log ++ evs ∧ (FailureSeen evs → ok = false) ∧
      ((ok = true ∧ n = 0) ↔ SessionEnded H c'.eng ∨ EofSeen evs ∨ LateRead E c evs) := by
  obtain ⟨own, hacc⟩ := run_account hE hreset h
  obtain ⟨hbr, -⟩ := read_account hread
  have hn : n = data.length := Option.some.inj hbr
  obtain ⟨_, -, hled'⟩ := ledger_steps hE hacc.ledger (read_steps (by rw [hread]))
  have hopen' := hled'.isOpen
  rcases read_exit hread with ⟨hbad | hbad, -⟩ | ⟨head, hpump, hexit⟩
  · simp at hbad
  · omega
  obtain ⟨_, -, hhead⟩ := ledger_steps hE hacc.ledger
    ((pump_steps hpump).driver : DriverSteps E os False c head)
  obtain ⟨_, -, -, -, hfirst⟩ := pump_log hpump
  obtain ⟨evs, hlog, hfail, hfailed, heof, hset⟩ := read_exit_log hpump hexit
  refine ⟨evs, hlog, hfail, ?_⟩
  have hzero : n = 0 ↔ data = [] := hn ▸ List.length_eq_zero_iff
  rw [hzero]
  -- a late call leaves at its first head
  have hlate : LateRead E c evs → head = c := fun hl =>
    hfirst.resolve_right fun h => absurd (h.1.symm.trans hl.flag) Bool.false_ne_true
  cases hexit with
  | closed hc =>
    have hiff := closed_ended hE hopen' hc
    simp only [reduceCtorEq, decide_false, Bool.false_or, decide_eq_true_eq, and_true, hiff]
    constructor
    · exact .inl
    · rintro (hs | he | hl)
      · exact hs
      · exact hiff.mp (by simpa using (heof he).1)
      · exact absurd (hlate hl ▸ hl.opened) (by simp [hc])
  | deliver hc ht =>
    have hne : (E.recvappBuf head.eng).take (readTake E size head.eng) ≠ [] := by
      intro hnil
      have hlen := congrArg List.length hnil
      rw [List.length_take_of_le (readTake_le size head.eng).2, List.length_nil] at hlen
      omega
    have happ : (E.currentState head.eng).recvapp = true := by
      by_contra ha
      simp [readTake, ha] at ht
    have hstill := (hE.recvapp_ack head.eng _ hhead.isOpen hc happ ht (readTake_le size _).2).2
    constructor
    · intro hl
      exact absurd hl.2 hne
    · rintro (hs | he | hl)
      · exact absurd hs (not_ended_of_open hE hopen'.valid hstill)
      · exact absurd (heof he).2 hne
      · have := (readTake_eq_zero hsize head.eng).mpr (hlate hl ▸ hl.idle)
        omega
  | failed hc ht fuel hret =>
    constructor
    · intro hl
      exact absurd hl.1 Bool.false_ne_true
    · rintro (hs | he | hl)
      · obtain ⟨_, -, hbad, -, -⟩ := drive_spec (E := E) fuel head hc
        refine absurd hs (not_ended_of_open hE hopen'.valid ?_)
        rcases (hbad hret).2.2 with hbuf | hready
        · by_contra hclosed
          exact hbuf (hE.sendrec_closed _ hopen'.valid (by simpa using hclosed))
        · exact hready.closed
      · exact absurd (heof he).1 Bool.false_ne_true
      · exact absurd (hfailed hc rfl) hl.clean
  | flagged hc ht fuel hret hflag =>
    refine iff_of_true ⟨rfl, rfl⟩ ?_
    rcases hset hflag with ⟨rfl, hflag⟩ | hclosed | he
    · exact .inr (.inr ⟨hflag, hc, (readTake_eq_zero hsize _).mp ht, fun hf => by cases hfail hf⟩)
    · exact absurd hclosed (by simp [hc])
    · exact .inr (.inl he)

/-- A read over a connection on which the peer sends a `close_notify`. -/
theorem read_end_of_stream_notify :
    ∃ c hist c' r' evs, runScript PlainEngine.engine (scriptHost (fun _ => 2) [some [0]])
        PlainEngine.reset 9 () [.write [65]] = some (c, hist) ∧
      wmTlsRead PlainEngine.engine (scriptHost (fun _ => 2) [some [0]]) 9 (some c) true 4 (some 0)
        (some ⟨0, 0, 0, 0⟩) = ⟨some true, some c', [], some 0, r'⟩ ∧ c'.log = c.log ++ evs ∧
      (SessionEnded PlainEngine.history c'.eng ∨ EofSeen evs ∨
        LateRead PlainEngine.engine c evs) := by
  obtain ⟨c, hist, hrun⟩ : ∃ c hist, runScript PlainEngine.engine
      (scriptHost (fun _ => 2) [some [0]]) PlainEngine.reset 9 () [.write [65]] =
        some (c, hist) := ⟨_, _, rfl⟩
  obtain ⟨c', r', hread⟩ : ∃ c' r', wmTlsRead PlainEngine.engine
      (scriptHost (fun _ => 2) [some [0]]) 9 (some c) true 4 (some 0) (some ⟨0, 0, 0, 0⟩) =
        ⟨some true, some c', [], some 0, r'⟩ := by
    cases hrun
    exact ⟨_, _, rfl⟩
  obtain ⟨evs, hlog, -, hiff⟩ := read_end_of_stream PlainEngine.lawful PlainEngine.reset_fresh
    (runScript_run hrun) (by decide) hread
  exact ⟨c, hist, c', r', evs, hrun, hread, hlog, hiff.mp ⟨rfl, rfl⟩⟩

/-- A read that meets a bare end of stream succeeds with no bytes although no
`close_notify` has come; a read that cannot send its reply to a `close_notify`
fails although all plaintext before it is delivered. -/
theorem end_of_stream_not_close_notify :
    (∃ c hist c' r', runScript PlainEngine.engine (scriptHost (fun _ => 2) [])
        PlainEngine.reset 9 () [] = some (c, hist) ∧
      wmTlsRead PlainEngine.engine (scriptHost (fun _ => 2) []) 9 (some c) true 4 (some 0)
        (some ⟨0, 0, 0, 0⟩) = ⟨some true, some c', [], some 0, r'⟩ ∧
      ¬ PlainEngine.history.closeNotify c'.eng) ∧
    (∃ c hist c' r', runScript PlainEngine.engine
        (scriptHost (fun k => if k = 0 then 1 else 0) [some [0]]) PlainEngine.reset 9 () [] =
          some (c, hist) ∧
      wmTlsRead PlainEngine.engine (scriptHost (fun k => if k = 0 then 1 else 0) [some [0]]) 9
        (some c) true 4 (some 0) (some ⟨0, 0, 0, 0⟩) = ⟨some false, some c', [], some 0, r'⟩ ∧
      PlainEngine.history.closeNotify c'.eng ∧ PlainEngine.history.unread c'.eng = []) := by
  refine ⟨⟨_, _, _, _, rfl, rfl, ?_⟩, _, _, _, _, rfl, rfl, ?_, ?_⟩
  · rintro ⟨⟩
  · rfl
  · rfl

end BearTLS
