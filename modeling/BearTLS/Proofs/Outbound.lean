import BearTLS.Proofs.Runs
import BearTLS.Sanity.Schedules

/-! The outbound direction: what the writes have put into the engine, what
`send` has accepted, and what is left to send when the driver calls `recv`. -/

namespace BearTLS

open Relation Trace

variable {σ α : Type} {E : Engine σ} {H : History σ} {os : Host σ}
  {reset : α → List UInt8 → Bool × σ} {base : Log σ}

variable (H) in
/-- The accepted bytes are the beginning of the output stream, and each `send`
starts right behind the bytes accepted before it. -/
structure SentInOrder (own : Log σ) (e : σ) : Prop where
  accepted : sentBytes own <+: H.wire e
  next : ∀ pre sock buf wr post, own = pre ++ .send sock buf wr :: post →
    sentBytes pre ++ buf <+: H.wire e

theorem Ledger.sent_in_order {own : Log σ} {e : σ} (h : Ledger E H own e) :
    SentInOrder H own e where
  accepted := h.sent ▸ List.take_prefix _ _
  next pre sock buf wr post hown := h.calls pre (.send sock buf wr) post hown

theorem write_records {c : Conn σ} {hist : List CallRecord}
    (h : ApiRun E os reset base c hist) {data : List UInt8} {n : ℕ} {bw : Option ℕ} {ok : Bool}
    (hmem : CallRecord.write data n bw ok ∈ hist) :
    (∀ b, bw = some b → b = n) ∧ n ≤ data.length ∧ (ok = true → n = data.length) := by
  refine Run.forall_label (P := fun a => ∀ data n bw ok, a = .write data n bw ok →
    (∀ b, bw = some b → b = n) ∧ n ≤ data.length ∧ (ok = true → n = data.length))
    ?_ h _ hmem data n bw ok rfl
  intro c a c' hs data n bw ok ha
  cases hs with
  | write hw hn =>
    obtain ⟨rfl, rfl, rfl, rfl⟩ := CallRecord.write.inj ha
    obtain ⟨hbw, hle, hall, -⟩ := write_account hw hn
    refine ⟨fun b hb => ?_, hle, hall⟩
    obtain ⟨-, -, rfl⟩ := Option.map_eq_some_iff.mp (hbw.symm.trans hb)
    rfl
  | read hr => simp at ha

/-- In every run, after every call and at every moment of the next one, the
writes have put in exactly what they counted, and `send` has accepted a prefix
of the output stream, each call starting at the first byte not yet accepted. -/
theorem outbound_stream_integrity (hE : E.Lawful H)
    (hreset : ∀ a name e, reset a name = (true, e) → H.Fresh e) {c : Conn σ}
    {hist : List CallRecord} (h : ApiRun E os reset base c hist) :
    (∀ data n bw ok, CallRecord.write data n bw ok ∈ hist →
      (∀ b, bw = some b → b = n) ∧ n ≤ data.length ∧ (ok = true → n = data.length)) ∧
    ∃ own, c.log = base ++ own ∧ sendappBytes own = accepted hist ∧
      H.injected c.eng = accepted hist ∧ SentInOrder H own c.eng ∧
      ∀ c', Underway E os c c' →
        ∃ evs, c'.log = c.log ++ evs ∧ SentInOrder H (own ++ evs) c'.eng := by
  refine ⟨fun data n bw ok hmem => write_records h hmem, ?_⟩
  obtain ⟨own, hacc⟩ := run_account hE hreset h
  refine ⟨own, hacc.log, hacc.accepted, ?_, hacc.ledger.sent_in_order, ?_⟩
  · rw [History.injected, hacc.ledger.acc, List.append_nil, ← hacc.ledger.injected, hacc.accepted]
  · intro c' hu
    obtain ⟨evs, hlog, hled⟩ := ledger_steps hE hacc.ledger (underway_steps hu)
    exact ⟨evs, hlog, hled.sent_in_order⟩

/-- Three bytes over a network that takes two bytes a `send`. -/
theorem outbound_stream_integrity_short_sends :
    ∃ c hist own, runScript PlainEngine.engine (scriptHost (fun _ => 2) []) PlainEngine.reset 9 ()
        [.write [65, 66, 67], .read 4] = some (c, hist) ∧ accepted hist = [65, 66, 67] ∧
      sendappBytes own = [65, 66, 67] ∧ SentInOrder PlainEngine.history own c.eng := by
  obtain ⟨c, hist, hrun, hacc⟩ : ∃ c hist, runScript PlainEngine.engine (scriptHost (fun _ => 2) [])
      PlainEngine.reset 9 () [.write [65, 66, 67], .read 4] = some (c, hist) ∧
      accepted hist = [65, 66, 67] := ⟨_, _, rfl, rfl⟩
  obtain ⟨-, own, -, hput, -, hsent, -⟩ := outbound_stream_integrity PlainEngine.lawful
    PlainEngine.reset_fresh (runScript_run hrun)
  exact ⟨c, hist, own, hrun, hacc, hput.trans hacc, hsent⟩

/-- At every `recv` of `wm_tls_open`, whatever its outcome, and of any call in
any run, nothing is held back: all records are sent, and what the writes have
put in so far is inside them. -/
theorem recv_holds_nothing_back (hE : E.Lawful H)
    (hreset : ∀ a name e, reset a name = (true, e) → H.Fresh e) :
    (∀ (anchors : Option α) (fuel : ℕ) (host : Option (List UInt8)) (port : ℕ)
        (sniHost : Option (List UInt8)) (outConn : Option (Option (Conn σ))) (r : ResultPtr),
      ∃ own, (wmTlsOpen E os anchors reset fuel host port sniHost outConn base r).log =
          base ++ own ∧
        ∀ pre sock e want rd post, own = pre ++ .recv sock e want rd :: post →
          E.sendrecBuf e = [] ∧ H.acc e = [] ∧ sentBytes pre = H.wire e) ∧
    ∀ c hist c', ApiRun E os reset base c hist → Underway E os c c' →
      ∃ own evs, c.log = base ++ own ∧ c'.log = c.log ++ evs ∧
        ∀ pre sock e want rd post, evs = pre ++ .recv sock e want rd :: post →
          E.sendrecBuf e = [] ∧ H.acc e = [] ∧ sentBytes (own ++ pre) = H.wire e ∧
          accepted hist ++ sendappBytes pre = payloadOf (H.recs e) := by
  constructor
  · intro anchors fuel host port sniHost outConn r
    obtain ⟨own, hlog, hown⟩ := open_log hE hreset anchors fuel host port sniHost outConn r
    refine ⟨own, hlog, fun pre sock e want rd post hsplit => ?_⟩
    rcases hown with hsetup | ⟨e', hled⟩
    · have := hsetup (.recv sock e want rd) (by simp [hsplit])
      exact absurd this (by simp [Event.isSetup])
    · have hq : RecvQuiet E H pre e := hled.calls pre (.recv sock e want rd) post hsplit
      exact ⟨hq.no_record, hq.no_plaintext, hq.sent⟩
  · intro c hist c' hr hu
    obtain ⟨own, hacc⟩ := run_account hE hreset hr
    obtain ⟨evs, hlog, hled⟩ := ledger_steps hE hacc.ledger (underway_steps hu)
    refine ⟨own, evs, hacc.log, hlog, fun pre sock e want rd post hevs => ?_⟩
    have hq : RecvQuiet E H (own ++ pre) e :=
      hled.calls.of_append pre (.recv sock e want rd) post hevs
    refine ⟨hq.no_record, hq.no_plaintext, hq.sent, ?_⟩
    rw [← hq.injected, sendappBytes_append, hacc.accepted]

/-- A read behind a write of three bytes, over a network that takes two bytes a `send`. -/
theorem recv_holds_nothing_back_reply :
    ∃ c hist c' own evs,
      runScript PlainEngine.engine (scriptHost (fun _ => 2) [some [9]]) PlainEngine.reset 9 ()
        [.write [65, 66, 67]] = some (c, hist) ∧
      (wmTlsRead PlainEngine.engine (scriptHost (fun _ => 2) [some [9]]) 9 (some c) true 4 none
        none).conn = some c' ∧ c'.log = c.log ++ evs ∧
      ∀ pre sock e want rd post, evs = pre ++ .recv sock e want rd :: post →
        PlainEngine.engine.sendrecBuf e = [] ∧ sentBytes (own ++ pre) = wireOf e.recs ∧
        [65, 66, 67] ++ sendappBytes pre = payloadOf e.recs := by
  obtain ⟨c, hist, hrun, hacc⟩ : ∃ c hist,
      runScript PlainEngine.engine (scriptHost (fun _ => 2) [some [9]]) PlainEngine.reset 9 ()
        [.write [65, 66, 67]] = some (c, hist) ∧
      accepted hist = [65, 66, 67] := ⟨_, _, rfl, rfl⟩
  obtain ⟨c', hread⟩ : ∃ c', (wmTlsRead PlainEngine.engine (scriptHost (fun _ => 2) [some [9]]) 9
      (some c) true 4 none none).conn = some c' := ⟨_, rfl⟩
  obtain ⟨own, evs, -, hlog, hquiet⟩ := (recv_holds_nothing_back PlainEngine.lawful
    PlainEngine.reset_fresh).2 c hist c' (runScript_run hrun) (.read _ _ _ _ _ hread)
  refine ⟨c, hist, c', own, evs, hrun, hread, hlog, fun pre sock e want rd post hevs => ?_⟩
  obtain ⟨hbuf, -, hsent, hput⟩ := hquiet pre sock e want rd post hevs
  exact ⟨hbuf, hsent, hacc ▸ hput⟩

end BearTLS
