import BearTLS.Proofs.Reading
import BearTLS.Sanity.Schedules

/-! The inbound direction: the reads deliver the decrypted stream in order, and
nothing behind an end of stream. -/

namespace BearTLS

open Relation Trace

variable {σ α : Type} {E : Engine σ} {H : History σ} {os : Host σ}
  {reset : α → List UInt8 → Bool × σ} {base : Log σ}

section HttpBytes

theorem read_loop_httpBytes (size fuel : ℕ) (c : Conn σ) (br : Option ℕ) (r : ResultPtr)
    (h0 : r.map WmHttpsResult.httpBytes = r.map fun _ => 0) :
    (wmTlsReadLoop E os size fuel c br r).result.map WmHttpsResult.httpBytes =
      r.map fun _ => ((wmTlsReadLoop E os size fuel c br r).data.length : ℤ) := by
  induction fuel generalizing c r with
  | zero => exact h0
  | succ fuel ih =>
    cases hc : (E.currentState c.eng).closed with
    | true =>
      rw [read_loop_closed size fuel c br r hc]
      cases r with
      | none => rfl
      | some x => exact h0
    | false =>
      rcases Nat.eq_zero_or_pos (readTake E size c.eng) with ht | ht
      · have hd : (wmTlsDriveRecords E os fuel c r).result.map WmHttpsResult.httpBytes =
            r.map WmHttpsResult.httpBytes :=
          drive_field (fun _ _ => rfl) (fun _ _ => rfl) fuel c r
        have hkeep : ∀ {β : Type} (f : β), (wmTlsDriveRecords E os fuel c r).result.map
            (fun _ => f) = r.map fun _ => f := by
          intro β f
          have := congrArg (Option.map fun _ => f) hd
          simpa [Function.comp_def] using this
        rw [read_loop_drive size fuel c br r hc ht]
        cases (wmTlsDriveRecords E os fuel c none).ret with
        | none => exact hd.trans h0
        | some ok =>
          cases ok with
          | false => exact hd.trans h0
          | true =>
            simp only
            split_ifs
            · refine Eq.trans ?_ (hd.trans h0)
              cases (wmTlsDriveRecords E os fuel c r).result <;> rfl
            · rw [ih _ _ (by rw [hd, h0, hkeep]), hkeep]
      · rw [read_loop_deliver size fuel c br r hc ht]
        have hlen : ((E.recvappBuf c.eng).take (readTake E size c.eng)).length =
            readTake E size c.eng := List.length_take_of_le (readTake_le size c.eng).2
        rw [hlen]
        cases r <;> rfl

theorem read_httpBytes {size fuel : ℕ} {c c' : Conn σ} {buffer ok : Bool} {br br' : Option ℕ}
    {data : List UInt8} {r r' : ResultPtr}
    (h : wmTlsRead E os fuel (some c) buffer size br r = ⟨some ok, some c', data, br', r'⟩)
    {x : WmHttpsResult} (hx : r' = some x) : x.httpBytes = data.length := by
  have hzero : (wmHttpsZeroResult r).map WmHttpsResult.httpBytes =
      (wmHttpsZeroResult r).map fun _ => 0 := by cases r <;> rfl
  simp only [wmTlsRead] at h
  split_ifs at h with hnull
  · simp only [ReadOut.mk.injEq] at h
    obtain ⟨-, -, rfl, -, rfl⟩ := h
    rw [hx] at hzero
    exact Option.some.inj hzero
  · simp only [ReadOut.mk.injEq] at h
    obtain ⟨-, -, rfl, -, rfl⟩ := h
    have hbytes : (wmTlsReadLoop E os size fuel c (br.map fun _ => 0)
        (wmHttpsZeroResult r)).result.map WmHttpsResult.httpBytes = _ :=
      read_loop_httpBytes size fuel c _ _ hzero
    rw [hx] at hbytes
    cases r with
    | none => cases hbytes
    | some y => exact Option.some.inj hbytes

end HttpBytes

/-- What a read stores fits its buffer, and only a successful read stores anything. -/
theorem read_exit_data {size : ℕ} {nul ok : Bool} {c c' : Conn σ} {data : List UInt8}
    (h : ReadExit E os size nul c ok data c') :
    data.length ≤ size ∧ (data ≠ [] → ok = true) := by
  cases h with
  | deliver hc ht =>
    refine ⟨?_, fun _ => rfl⟩
    rw [List.length_take]
    have := (readTake_le (E := E) size c.eng).1
    omega
  | closed hc => exact ⟨Nat.zero_le _, fun h => absurd rfl h⟩
  | failed hc ht fuel hret => exact ⟨Nat.zero_le _, fun h => absurd rfl h⟩
  | flagged hc ht fuel hret hflag => exact ⟨Nat.zero_le _, fun h => absurd rfl h⟩

/-- A read that succeeds without data leaves the `closed` flag set. -/
theorem read_exit_end {size : ℕ} {nul ok : Bool} {c c' : Conn σ} {data : List UInt8}
    (h : ReadExit E os size nul c ok data c') (hok : ok = true) (hdata : data = []) :
    c'.closed = true := by
  cases h with
  | deliver hc ht =>
    have hlen := congrArg List.length hdata
    rw [List.length_take_of_le (readTake_le size c.eng).2, List.length_nil] at hlen
    omega
  | closed hc => rfl
  | failed hc ht fuel hret => simp at hok
  | flagged hc ht fuel hret hflag => exact hflag

section EndOfStream

/-! Behind an end of stream. -/

variable (os base) in
/-- Once `recv` has returned 0 on the connection it keeps returning 0. -/
def StickyEof : Prop :=
  ∀ own want, EofSeen own → (os.recv (base ++ own) want).map Subtype.val = some []

variable (E H) in
/-- No plaintext is left and none can come. -/
def AtEnd (own : Log σ) (e : σ) : Prop :=
  (E.currentState e).closed = true ∨ (EofSeen own ∧ H.unread e = [])

theorem step_unread {e e' : σ} {n : ℕ} {inj : List UInt8} (h : H.Step e e' n inj [] 0) :
    H.unread e' = H.unread e := by
  simp only [History.unread, h.fed, h.taken, List.append_nil, Nat.add_zero]

/-- A step of the driver at the end of the stream stays there and takes nothing
from the engine. -/
theorem at_end_step (hE : E.Lawful H) (hsticky : StickyEof os base) {late : Prop} {c c' : Conn σ}
    {own : Log σ} (hlog : c.log = base ++ own) (hled : Ledger E H own c.eng)
    (h : AtEnd E H own c.eng) (hs : DriverStep E os late c c') :
    ∃ evs, c'.log = c.log ++ evs ∧ recvappBytes evs = [] ∧ AtEnd E H (own ++ evs) c'.eng := by
  rcases h with hclosed | ⟨heof, hunread⟩
  · -- a closed engine exposes nothing and takes nothing
    have hbuf := hE.sendrec_closed c.eng hled.isOpen.valid hclosed
    have hopen : (E.currentState c.eng).closed ≠ false := by simp [hclosed]
    cases hs with
    | record hs =>
      cases hs with
      | send n hb hw hn => exact absurd hbuf hb
      | sendFail wr hb hw h0 => exact absurd hbuf hb
      | recv want b bs hready hl hr => exact absurd hready.closed hopen
      | recvEof want hready hr => exact absurd hready.closed hopen
      | recvFail want hready hr => exact absurd hready.closed hopen
      | markClosed hc => exact ⟨[], by simp, rfl, .inl hclosed⟩
    | sendapp d hc hs hd hl hf => exact absurd hc hopen
    | recvapp n hc hs hn hl => exact absurd hc hopen
  · have hseen : ∀ evs, EofSeen (own ++ evs) := fun evs => eofSeen_append.mpr (.inl heof)
    cases hs with
    | record hs =>
      cases hs with
      | send n hb hw hn =>
        exact ⟨[_], rfl, rfl, .inr ⟨hseen _,
          (step_unread (sendrec_step hE hled hb hw hn).2).trans hunread⟩⟩
      | sendFail wr hb hw h0 => exact ⟨[_], rfl, rfl, .inr ⟨hseen _, hunread⟩⟩
      | recv want b bs hready hl hr =>
        rw [hlog, hsticky own want heof] at hr
        exact absurd hr (by simp)
      | recvEof want hready hr => exact ⟨[_], rfl, rfl, .inr ⟨hseen _, hunread⟩⟩
      | recvFail want hready hr => exact ⟨[_], rfl, rfl, .inr ⟨hseen _, hunread⟩⟩
      | markClosed hc => exact ⟨[], by simp, rfl, .inl hc⟩
    | sendapp d hc hs hd hl hf =>
      exact ⟨[_], rfl, rfl, .inr ⟨hseen _,
        (step_unread (hE.sendapp_flush _ d hled.isOpen hc hs hd hl).1).trans hunread⟩⟩
    | recvapp n hc hs hn hl =>
      have hexp := (hE.recvapp_exposes c.eng hled.isOpen).length_le
      rw [hunread, List.length_nil] at hexp
      omega

theorem at_end_steps (hE : E.Lawful H) (hsticky : StickyEof os base) {late : Prop} {c c' : Conn σ}
    {own : Log σ} (hlog : c.log = base ++ own) (hled : Ledger E H own c.eng)
    (h : AtEnd E H own c.eng) (hs : DriverSteps E os late c c') :
    ∃ evs, c'.log = c.log ++ evs ∧ recvappBytes evs = [] ∧ AtEnd E H (own ++ evs) c'.eng := by
  suffices hall : ∃ evs, c'.log = c.log ++ evs ∧ recvappBytes evs = [] ∧
      Ledger E H (own ++ evs) c'.eng ∧ AtEnd E H (own ++ evs) c'.eng by
    obtain ⟨evs, h₁, h₂, -, h₃⟩ := hall
    exact ⟨evs, h₁, h₂, h₃⟩
  induction hs with
  | refl => exact ⟨[], by simp, rfl, by simpa using hled, by simpa using h⟩
  | tail _ hs ih =>
    obtain ⟨evs, hlog₁, htook₁, hled₁, hend₁⟩ := ih
    obtain ⟨evs', hlog₂, htook₂, hend₂⟩ := at_end_step hE hsticky
      (by rw [hlog₁, hlog, List.append_assoc]) hled₁ hend₁ hs
    obtain ⟨evs'', hlog₃, hled₃⟩ := ledger_step hE hled₁ hs
    obtain rfl : evs' = evs'' := List.append_cancel_left (hlog₂.symm.trans hlog₃)
    refine ⟨evs ++ evs', ?_, ?_, ?_, ?_⟩
    · rw [hlog₂, hlog₁, List.append_assoc]
    · rw [recvappBytes_append, htook₁, htook₂, List.append_nil]
    · rwa [← List.append_assoc]
    · rwa [← List.append_assoc]

/-- The `closed` flag is set at the end of the stream only. -/
theorem flag_step (hE : E.Lawful H) (hsticky : StickyEof os base) {late : Prop} {c c' : Conn σ}
    {own : Log σ} (hlog : c.log = base ++ own) (hled : Ledger E H own c.eng)
    (h : c.closed = true → AtEnd E H own c.eng) (hs : DriverStep E os late c c') :
    ∃ evs, c'.log = c.log ++ evs ∧ (c'.closed = true → AtEnd E H (own ++ evs) c'.eng) := by
  cases hc : c.closed with
  | true =>
    obtain ⟨evs, hlog', -, hend⟩ := at_end_step hE hsticky hlog hled (h hc) hs
    exact ⟨evs, hlog', fun _ => hend⟩
  | false =>
    have hclear : ∀ {P : Prop}, c.closed = true → P :=
      fun h' => absurd (hc.symm.trans h') Bool.false_ne_true
    cases hs with
    | record hs =>
      cases hs with
      | recvEof want hready hr =>
        refine ⟨[_], rfl, fun _ => .inr ⟨?_, hE.recvrec_unread c.eng hled.isOpen hready.recvrec⟩⟩
        exact eofSeen_append.mpr (.inr ⟨_, _, _, List.mem_singleton_self _⟩)
      | markClosed hc' => exact ⟨[], by simp, fun _ => .inl hc'⟩
      | send n hb hw hn => exact ⟨[_], rfl, hclear⟩
      | sendFail wr hb hw h0 => exact ⟨[_], rfl, hclear⟩
      | recv want b bs hready hl hr => exact ⟨[_], rfl, hclear⟩
      | recvFail want hready hr => exact ⟨[_], rfl, hclear⟩
    | sendapp d hc' hs hd hl hf => exact ⟨[_], rfl, hclear⟩
    | recvapp n hc' hs hn hl => exact ⟨[_], rfl, hclear⟩

theorem flag_steps (hE : E.Lawful H) (hsticky : StickyEof os base) {late : Prop} {c c' : Conn σ}
    {own : Log σ} (hlog : c.log = base ++ own) (hled : Ledger E H own c.eng)
    (h : c.closed = true → AtEnd E H own c.eng) (hs : DriverSteps E os late c c') :
    ∃ evs, c'.log = c.log ++ evs ∧ Ledger E H (own ++ evs) c'.eng ∧
      (c'.closed = true → AtEnd E H (own ++ evs) c'.eng) := by
  induction hs with
  | refl => exact ⟨[], by simp, by simpa using hled, by simpa using h⟩
  | tail _ hs ih =>
    obtain ⟨evs, hlog₁, hled₁, hend₁⟩ := ih
    obtain ⟨evs', hlog₂, hend₂⟩ := flag_step hE hsticky
      (by rw [hlog₁, hlog, List.append_assoc]) hled₁ hend₁ hs
    obtain ⟨evs'', hlog₃, hled₃⟩ := ledger_step hE hled₁ hs
    obtain rfl : evs' = evs'' := List.append_cancel_left (hlog₂.symm.trans hlog₃)
    refine ⟨evs ++ evs', ?_, ?_, ?_⟩
    · rw [hlog₂, hlog₁, List.append_assoc]
    · rwa [← List.append_assoc]
    · rwa [← List.append_assoc]

/-- A successful read without data is one of the calls. -/
def Ended (hist : List CallRecord) : Prop := ∃ size br r, CallRecord.read size [] br true r ∈ hist

structure EndInv (base : Log σ) (E : Engine σ) (H : History σ) (c : Conn σ)
    (hist : List CallRecord) (own : Log σ) : Prop where
  account : Account E H base c hist own
  flag : c.closed = true → AtEnd E H own c.eng
  ended : Ended hist → AtEnd E H own c.eng
  silent : Always (fun pre a => Ended pre → a.delivered = []) hist

theorem read_end_flag {c c' : Conn σ} {size : ℕ} {br : Option ℕ} {r : ResultPtr}
    (h : CallStep E os c (.read size [] br true r) c') : c'.closed = true := by
  cases h with
  | read h =>
    rcases read_exit h with ⟨-, hok, -, -⟩ | ⟨head, -, hexit⟩
    · simp at hok
    · exact read_exit_end hexit rfl rfl

theorem end_inv_step (hE : E.Lawful H) (hsticky : StickyEof os base) {c c' : Conn σ}
    {a : CallRecord} {hist : List CallRecord} {own : Log σ} (h : EndInv base E H c hist own)
    (hs : CallStep E os c a c') : ∃ own', EndInv base E H c' (hist ++ [a]) own' := by
  have hsteps := underway_steps (call_underway hs)
  obtain ⟨hlog, hled, -, -⟩ := h.account
  obtain ⟨evs, hacc⟩ := account_step hE h.account hs
  have hgrow : c'.log = c.log ++ evs := by rw [hacc.log, hlog, List.append_assoc]
  obtain ⟨evs₁, hlog₁, -, hflag⟩ := flag_steps hE hsticky hlog hled h.flag hsteps
  obtain rfl : evs = evs₁ := List.append_cancel_left (hgrow.symm.trans hlog₁)
  -- once a read has ended the stream, the call takes nothing and the end stays
  have hstay : Ended hist → a.delivered = [] ∧ AtEnd E H (own ++ evs) c'.eng := by
    intro hended
    obtain ⟨evs₂, hlog₂, htook, hend⟩ := at_end_steps hE hsticky hlog hled (h.ended hended) hsteps
    obtain ⟨evs₃, hlog₃, -, htook₃⟩ := call_account hs
    obtain rfl : evs = evs₂ := List.append_cancel_left (hgrow.symm.trans hlog₂)
    obtain rfl : evs = evs₃ := List.append_cancel_left (hgrow.symm.trans hlog₃)
    exact ⟨htook₃.symm.trans htook, hend⟩
  refine ⟨own ++ evs, hacc, hflag, ?_, ?_⟩
  · rintro ⟨size, br, r, hmem⟩
    rcases List.mem_append.mp hmem with hmem | hmem
    · exact (hstay ⟨size, br, r, hmem⟩).2
    · obtain rfl := List.mem_singleton.mp hmem
      exact hflag (read_end_flag hs)
  · exact always_snoc.mpr ⟨h.silent, fun hended => (hstay hended).1⟩

theorem run_end_inv (hE : E.Lawful H) (hreset : ∀ a name e, reset a name = (true, e) → H.Fresh e)
    (hsticky : StickyEof os base) {c : Conn σ} {hist : List CallRecord}
    (h : ApiRun E os reset base c hist) : ∃ own, EndInv base E H c hist own := by
  refine Run.invariant (fun c hist => ∃ own, EndInv base E H c hist own) ?_ ?_ h
  · intro c hc
    obtain ⟨own, hacc⟩ := open_account hE hreset hc
    have hclear : c.closed ≠ true := by simp [open_flag hc]
    refine ⟨own, hacc, fun h => absurd h hclear, ?_, always_nil⟩
    rintro ⟨size, br, r, hmem⟩
    exact absurd hmem List.not_mem_nil
  · rintro c hist a c' ⟨own, hinv⟩ hs
    exact end_inv_step hE hsticky hinv hs

end EndOfStream

theorem read_counts {size fuel : ℕ} {c c' : Conn σ} {buffer ok : Bool} {data : List UInt8}
    {br br' : Option ℕ} {r r' : ResultPtr}
    (h : wmTlsRead E os fuel (some c) buffer size br r = ⟨some ok, some c', data, br', r'⟩) :
    data.length ≤ size ∧ (data ≠ [] → ok = true) ∧ (∀ n, br' = some n → n = data.length) ∧
      ∀ x, r' = some x → x.httpBytes = data.length := by
  obtain ⟨hbr, -⟩ := read_account h
  have hdata : data.length ≤ size ∧ (data ≠ [] → ok = true) := by
    rcases read_exit h with ⟨-, -, -, rfl⟩ | ⟨head, -, hexit⟩
    · exact ⟨Nat.zero_le _, fun hne => absurd rfl hne⟩
    · exact read_exit_data hexit
  refine ⟨hdata.1, hdata.2, fun n hn => ?_, fun x hx => read_httpBytes h hx⟩
  obtain ⟨-, -, rfl⟩ := Option.map_eq_some_iff.mp (hbr.symm.trans hn)
  rfl

theorem read_records {c : Conn σ} {hist : List CallRecord} (h : ApiRun E os reset base c hist)
    {size : ℕ} {data : List UInt8} {br : Option ℕ} {ok : Bool} {r : ResultPtr}
    (hmem : CallRecord.read size data br ok r ∈ hist) :
    data.length ≤ size ∧ (data ≠ [] → ok = true) ∧ (∀ n, br = some n → n = data.length) ∧
      ∀ x, r = some x → x.httpBytes = data.length := by
  refine Run.forall_label (P := fun a => ∀ size (data : List UInt8) br ok (r : ResultPtr),
    a = .read size data br ok r → data.length ≤ size ∧ (data ≠ [] → ok = true) ∧
      (∀ n, br = some n → n = data.length) ∧
      ∀ x, r = some x → x.httpBytes = (data.length : ℤ)) ?_ h _ hmem _ _ _ _ _ rfl
  intro c a c' hs size data br ok r ha
  cases hs with
  | write hw hn => simp at ha
  | read hr =>
    obtain ⟨rfl, rfl, rfl, rfl, rfl⟩ := CallRecord.read.inj ha
    exact read_counts hr

/-- In every run the reads deliver a prefix of the decrypted stream; each one
counts what it delivers; and behind an end of stream none delivers. -/
theorem inbound_stream_integrity (hE : E.Lawful H)
    (hreset : ∀ a name e, reset a name = (true, e) → H.Fresh e) {c : Conn σ}
    {hist : List CallRecord} (h : ApiRun E os reset base c hist) :
    (∃ own, c.log = base ++ own ∧ delivered hist <+: H.plain (receivedBytes own)) ∧
    (∀ size data br ok r, CallRecord.read size data br ok r ∈ hist →
      data.length ≤ size ∧ (data ≠ [] → 1 ≤ data.length ∧ ok = true) ∧
        (∀ n, br = some n → n = data.length) ∧ ∀ x, r = some x → x.httpBytes = data.length) ∧
    (StickyEof os base → ∀ pre a post, hist = pre ++ a :: post →
      (∃ size br r, CallRecord.read size [] br true r ∈ pre) → a.delivered = []) := by
  refine ⟨?_, fun size data br ok r hmem => ?_, fun hsticky => ?_⟩
  · obtain ⟨own, hacc⟩ := run_account hE hreset h
    refine ⟨own, hacc.log, ?_⟩
    rw [← hacc.delivered, hacc.ledger.delivered, ← hacc.ledger.received]
    exact List.take_prefix _ _
  · obtain ⟨hle, hok, hread, hbytes⟩ := read_records h hmem
    exact ⟨hle, fun hne => ⟨List.length_pos_of_ne_nil hne, hok hne⟩, hread, hbytes⟩
  · obtain ⟨own, hinv⟩ := run_end_inv hE hreset hsticky h
    exact hinv.silent

theorem scriptHost_sticky (room : ℕ → ℕ) (script : List (Option (List UInt8))) :
    StickyEof (scriptHost room script) [] := by
  intro own want heof
  have hended : recvEnded own = true := by
    obtain ⟨sock, e, w, hmem⟩ := heof
    exact List.any_eq_true.mpr ⟨_, hmem, rfl⟩
  simp [scriptHost, hended]

/-- Two bytes read one at a time around a write, then the end of stream. -/
theorem inbound_stream_integrity_bytes :
    ∃ c hist own,
      runScript PlainEngine.engine (scriptHost (fun _ => 2) [some [5], some [6], some [0]])
        PlainEngine.reset 9 () [.read 4, .write [65], .read 4, .read 4, .read 4] =
          some (c, hist) ∧
      delivered hist = [5, 6] ∧ c.log = own ∧
      delivered hist <+: PlainEngine.plaintext (receivedBytes own) ∧
      ∀ pre a post, hist = pre ++ a :: post →
        (∃ size br r, CallRecord.read size [] br true r ∈ pre) → a.delivered = [] := by
  obtain ⟨c, hist, hrun, hdel⟩ : ∃ c hist, runScript PlainEngine.engine
      (scriptHost (fun _ => 2) [some [5], some [6], some [0]]) PlainEngine.reset 9 ()
        [.read 4, .write [65], .read 4, .read 4, .read 4] = some (c, hist) ∧
      delivered hist = [5, 6] := ⟨_, _, rfl, rfl⟩
  obtain ⟨⟨own, hlog, hprefix⟩, -, hend⟩ := inbound_stream_integrity PlainEngine.lawful
    PlainEngine.reset_fresh (runScript_run hrun)
  exact ⟨c, hist, own, hrun, hdel, hlog, hprefix, hend (scriptHost_sticky _ _)⟩

end BearTLS
