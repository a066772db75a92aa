import BearTLS.Spec.EngineRuns

/-! The contract of an engine is carried from one engine to another that refines it. The first
is called beside the second, which keeps the history of the connection. -/

namespace BearTLS

variable {σ τ : Type} {E : Engine σ} {F : Engine τ} {rel : σ → τ → Prop} {live : τ → Prop}
  {H : History τ}

/-- Two engines that are given the same calls. Their caller sees the first one. -/
def Engine.beside (E : Engine σ) (F : Engine τ) : Engine (σ × τ) where
  currentState e := E.currentState e.1
  lastError e := E.lastError e.1
  sendrecBuf e := E.sendrecBuf e.1
  sendrecAck e n := (E.sendrecAck e.1 n, F.sendrecAck e.2 n)
  recvrecBuf e := E.recvrecBuf e.1
  recvrecAck e bs := (E.recvrecAck e.1 bs, F.recvrecAck e.2 bs)
  sendappBuf e := E.sendappBuf e.1
  sendappAck e bs := (E.sendappAck e.1 bs, F.sendappAck e.2 bs)
  recvappBuf e := E.recvappBuf e.1
  recvappAck e n := (E.recvappAck e.1 n, F.recvappAck e.2 n)
  flush e := (E.flush e.1, F.flush e.2)
  close e := (E.close e.1, F.close e.2)

/-- The history that the second one keeps. -/
def History.beside (rel : σ → τ → Prop) (H : History τ) : History (σ × τ) where
  Valid e := rel e.1 e.2 ∧ H.Valid e.2
  recs e := H.recs e.2
  acked e := H.acked e.2
  acc e := H.acc e.2
  fed e := H.fed e.2
  taken e := H.taken e.2
  closeNotify e := H.closeNotify e.2
  closing e := H.closing e.2
  plain := H.plain

section Transfer

variable {e : σ × τ} {f : σ × τ} {acked taken : ℕ} {inj fed : List UInt8}

theorem open_beside (h : (H.beside rel).Open e) : H.Open e.2 := ⟨h.valid.2, h.not_closing⟩

theorem advance_beside (h : H.Advance e.2 f.2 acked inj fed taken) :
    (H.beside rel).Advance e f acked inj fed taken := ⟨h.recs, h.acked, h.fed, h.taken⟩

theorem step_beside (hrel : rel f.1 f.2) (h : H.Step e.2 f.2 acked inj fed taken) :
    (H.beside rel).Step e f acked inj fed taken :=
  ⟨advance_beside h.toAdvance, ⟨hrel, h.valid⟩, h.closing⟩

/-- What refines a lawful engine is lawful, where each valid state is one in which it is refined,
and stays so for the flush that follows a `br_ssl_engine_sendapp_ack`. -/
theorem Engine.Refines.lawful (h : E.Refines F rel live) (hF : F.Lawful H)
    (hlive : ∀ t, H.Valid t → live t) (hput : ∀ t d, H.Valid t → live (F.sendappAck t d)) :
    (E.beside F).Lawful (H.beside rel) := by
  have hview : ∀ e : σ × τ, (H.beside rel).Valid e → (E.beside F).SameView F e e.2 := by
    intro e he
    obtain ⟨hstate, herr, hsend, hrecv, hput, htake⟩ := h.view _ _ he.1 (hlive _ he.2)
    exact ⟨hstate, herr, hsend, hrecv, hput, htake⟩
  have hcall : ∀ (e : σ × τ) c, (H.beside rel).Valid e → F.Legal e.2 c →
      rel (E.call e.1 c) (F.call e.2 c) := fun e c he hc =>
    h.call _ _ c he.1 (hlive _ he.2) (((h.view _ _ he.1 (hlive _ he.2)).legal_iff c).mpr hc)
  constructor
  case sendrec_iff =>
    intro e he hc
    have hv := hview e he
    rw [hv.currentState] at hc ⊢
    rw [hv.sendrecBuf]
    exact hF.sendrec_iff e.2 he.2 hc
  case sendrec_closed =>
    intro e he hc
    have hv := hview e he
    rw [hv.currentState] at hc
    rw [hv.sendrecBuf]
    exact hF.sendrec_closed e.2 he.2 hc
  case sendrec_pending =>
    intro e he hc
    have hv := hview e he
    rw [hv.currentState] at hc
    rw [hv.sendrecBuf]
    exact hF.sendrec_pending e.2 he.2 hc
  case acked_le => exact fun e he => hF.acked_le e.2 he.2
  case recvrec_unread =>
    intro e he hs
    rw [(hview e he.valid).currentState] at hs
    exact hF.recvrec_unread e.2 (open_beside he) hs
  case recvapp_exposes =>
    intro e he
    rw [(hview e he.valid).recvappBuf]
    exact hF.recvapp_exposes e.2 (open_beside he)
  case plain_mono => exact hF.plain_mono
  case closed_ok =>
    intro e he hc
    have hv := hview e he
    rw [hv.currentState] at hc
    rw [hv.lastError]
    exact hF.closed_ok e.2 he.2 hc
  case closed_drained =>
    intro e he hc herr
    have hv := hview e he
    rw [hv.currentState] at hc
    rw [hv.lastError] at herr
    exact hF.closed_drained e.2 he.2 hc herr
  case notify_pending =>
    intro e he hn hc
    have hv := hview e he
    rw [hv.currentState] at hc ⊢
    exact hF.notify_pending e.2 he.2 hn hc
  case notify_unread => exact fun e he hn => hF.notify_unread e.2 (open_beside he) hn
  case sendrec_ack =>
    intro e n he hc hpos hn
    have hv := hview e he
    rw [hv.currentState] at hc
    rw [hv.sendrecBuf] at hn
    exact step_beside (hcall e (.sendrec n) he ⟨hpos, hn⟩) (hF.sendrec_ack e.2 n he.2 hc hpos hn)
  case recvrec_ack =>
    intro e bs he hc hs hne hle
    have hv := hview e he.valid
    rw [hv.currentState] at hc hs
    rw [hv.recvrecBuf] at hle
    exact step_beside (hcall e (.recvrec bs) he.valid ⟨hne, hle⟩)
      (hF.recvrec_ack e.2 bs (open_beside he) hc hs hne hle)
  case sendapp_flush =>
    intro e d he hc hs hne hle
    have hv := hview e he.valid
    rw [hv.currentState] at hc hs
    rw [hv.sendappBuf] at hle
    have hrel := hcall e (.sendapp d) he.valid ⟨hne, hle⟩
    have hflush := h.call _ _ .flush hrel (hput e.2 d he.valid.2) trivial
    obtain ⟨hstep, hacc, hopen⟩ := hF.sendapp_flush e.2 d (open_beside he) hc hs hne hle
    have hstep' := step_beside (f := (E.beside F).flush ((E.beside F).sendappAck e d)) hflush hstep
    refine ⟨hstep', hacc, ?_⟩
    rw [(hview _ hstep'.valid).currentState]
    exact hopen
  case recvapp_ack =>
    intro e n he hc hs hpos hn
    have hv := hview e he.valid
    rw [hv.currentState] at hc hs
    rw [hv.recvappBuf] at hn
    obtain ⟨hstep, hopen⟩ := hF.recvapp_ack e.2 n (open_beside he) hc hs hpos hn
    have hstep' := step_beside (f := (E.beside F).recvappAck e n)
      (hcall e (.recvapp n) he.valid ⟨hpos, hn⟩) hstep
    refine ⟨hstep', ?_⟩
    rw [(hview _ hstep'.valid).currentState]
    exact hopen
  case close =>
    intro e he
    obtain ⟨hvalid, hadvance⟩ := hF.close e.2 (open_beside he)
    exact ⟨⟨hcall e .close he.valid trivial, hvalid⟩, advance_beside hadvance⟩

end Transfer

end BearTLS
