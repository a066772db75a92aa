import BearTLS.Proofs.Response
import BearTLS.Proofs.Traffic

/-! `wm_tls_exchange` returns what it has received. Its calls on the connection are
a run of the streaming API, so the account of such runs says where the bytes of the
response come from. -/

namespace BearTLS

open Memory Relation

variable {σ α : Type} {E : Engine σ} {H : History σ} {os : Host σ} {anchors : Option α}
  {reset : α → List UInt8 → Bool × σ} {base : Log σ}

section Flag

/-- A write that succeeds leaves a clear `closed` flag clear. -/
theorem write_loop_flag {data : List UInt8} {fuel sent : ℕ} {c : Conn σ} {bw : Option ℕ}
    {r : ResultPtr} (hc : c.closed = false)
    (h : (wmTlsWriteLoop E os data fuel sent c bw r).ret = some true) :
    (wmTlsWriteLoop E os data fuel sent c bw r).conn.closed = false := by
  induction fuel generalizing sent c bw r with
  | zero => cases h
  | succ fuel ih =>
    rcases Nat.lt_or_ge sent data.length with hs | hs
    · cases hopen : (E.currentState c.eng).closed with
      | true =>
        rw [write_loop_closed data fuel sent c bw r hs hopen] at h
        cases h
      | false =>
        by_cases hchunk : writeChunk E data sent c.eng = []
        · rw [write_loop_drive data fuel sent c bw r hs hopen hchunk] at h ⊢
          cases hr : (wmTlsDriveRecords E os fuel c none).ret with
          | none =>
            rw [hr] at h
            cases h
          | some ok =>
            rw [hr] at h
            dsimp only at h ⊢
            split_ifs at h ⊢ with hstop
            · cases h
            · simp only [Bool.or_eq_true, not_or, Bool.not_eq_true] at hstop
              exact ih hstop.2 h
        · rw [write_loop_sendapp data fuel sent c bw r hs hopen hchunk] at h ⊢
          exact ih hc h
    · rw [write_loop_done data fuel sent c bw r hs]
      exact hc

theorem write_flag {fuel : ℕ} {c c' : Conn σ} {data : InBuf} {bw : Option ℕ} {r : ResultPtr}
    (hc : c.closed = false) (h : (wmTlsWrite E os fuel (some c) data bw r).ret = some true)
    (hconn : (wmTlsWrite E os fuel (some c) data bw r).conn = some c') : c'.closed = false := by
  simp only [wmTlsWrite] at h hconn
  split_ifs at h hconn
  · cases h
  · obtain rfl := Option.some.inj hconn
    exact write_loop_flag hc h

/-- The driver sets the flag for an end of stream only, with everything decrypted
taken. -/
theorem drive_flag (hE : E.Lawful H) {fuel : ℕ} {c : Conn σ} (ho : H.Open c.eng)
    (hopen : (E.currentState c.eng).closed = false) (hc : c.closed = false)
    (h : (wmTlsDriveRecords E os fuel c none).conn.closed = true) :
    H.unread (wmTlsDriveRecords E os fuel c none).conn.eng = [] := by
  simp only [wmTlsDriveRecords, hopen, Bool.false_eq_true, if_false] at h ⊢
  split_ifs at h ⊢ with hsend hrecv
  · obtain ⟨_, -, -, hflag, -⟩ := send_pending_spec (E := E) fuel c
    rw [hflag, hc] at h
    cases h
  · simp only [wmTlsRecvPendingRecords] at h ⊢
    by_cases hl : E.recvrecBuf c.eng = 0
    · simp only [if_pos hl, hc] at h
      cases h
    · simp only [if_neg hl] at h ⊢
      cases hrd : (os.recv c.log (if E.recvrecBuf c.eng < WM_HTTPS_RECV_CHUNK then
          E.recvrecBuf c.eng else WM_HTTPS_RECV_CHUNK)).map Subtype.val with
      | none =>
        rw [hrd] at h
        exact absurd (hc.symm.trans h) Bool.false_ne_true
      | some bs =>
        rw [hrd] at h
        cases bs with
        | nil => exact hE.recvrec_unread c.eng ho hrecv
        | cons b bs => exact absurd (hc.symm.trans h) Bool.false_ne_true
  · exact absurd (hc.symm.trans h) Bool.false_ne_true

/-- A read with data leaves a clear flag clear; one that succeeds without data has
taken everything. -/
theorem read_end (hE : E.Lawful H) {size fuel : ℕ} {c c' : Conn σ} {data : List UInt8}
    {br br' : Option ℕ} {y : WmHttpsResult} {r' : ResultPtr} {own : Log σ} (hsize : 0 < size)
    (hled : Ledger E H own c.eng) (hc : c.closed = false)
    (h : wmTlsRead E os fuel (some c) true size br (some y) = ⟨some true, some c', data, br', r'⟩) :
    (data ≠ [] → c'.closed = false) ∧ (data = [] → H.unread c'.eng = []) := by
  rcases read_exit h with ⟨hrej, -⟩ | ⟨head, hpump, hexit⟩
  · simp [Nat.ne_of_gt hsize] at hrej
  · obtain ⟨evs, -, hled'⟩ := ledger_steps hE hled
      ((pump_steps hpump).driver : DriverSteps E os False c head)
    have hflag : head.closed = false := by
      obtain ⟨_, -, -, -, rfl | ⟨-, hhead⟩⟩ := pump_log hpump
      · exact hc
      · exact hhead
    generalize hok : true = ok at hexit
    cases hexit with
    | closed hcl =>
      refine ⟨fun hne => absurd rfl hne, fun _ => ?_⟩
      have herr : E.lastError head.eng = 0 := by simpa using hok
      exact ((closed_ended hE hled'.isOpen hcl).mp herr).delivered
    | deliver hop ht =>
      refine ⟨fun _ => hflag, fun hnil => ?_⟩
      have hlen := congrArg List.length hnil
      rw [List.length_take_of_le (readTake_le size head.eng).2, List.length_nil] at hlen
      omega
    | failed hop ht fuel' hret => simp at hok
    | flagged hop ht fuel' hret hset =>
      exact ⟨fun hne => absurd rfl hne, fun _ => drive_flag hE hled'.isOpen hop hflag hset⟩

end Flag

section Collect

variable (E os) in
/-- A read on a connection is a call of the streaming API. -/
theorem read_call {size : ℕ} (hsize : 0 < size) (fuel : ℕ) (c : Conn σ) (r : ResultPtr) :
    ∃ c', wmTlsRead E os fuel (some c) true size (some 0) r =
      ⟨(wmTlsRead E os fuel (some c) true size (some 0) r).ret, some c',
        (wmTlsRead E os fuel (some c) true size (some 0) r).data,
        (wmTlsRead E os fuel (some c) true size (some 0) r).bytesRead,
        (wmTlsRead E os fuel (some c) true size (some 0) r).result⟩ := by
  rw [read_eq E os hsize]
  exact ⟨_, rfl⟩

variable (E os) in
theorem read_null (fuel : ℕ) (conn : Option (Conn σ)) (buffer : Bool) (size : ℕ) (br : Option ℕ)
    (r : ResultPtr) : (wmTlsRead E os fuel conn buffer size br r).result = none ↔ r = none := by
  cases conn with
  | none => exact zeroResult_null r
  | some c =>
    simp only [wmTlsRead]
    split_ifs
    · exact zeroResult_null r
    · exact (read_loop_null E os size fuel c _ _).trans (zeroResult_null r)

variable (E os) in
theorem collect_null (size fuel : ℕ) (conn : Option (Conn σ)) (m : Mem) (len : ℕ) (ok : Bool)
    (r : ResultPtr) : (wmTlsCollect E os size fuel conn m len ok r).result = none ↔ r = none := by
  induction fuel generalizing conn m len ok r with
  | zero => exact Iff.rfl
  | succ fuel ih =>
    have hread := read_null E os fuel conn true (size - len - 1) (some 0) r
    simp only [wmTlsCollect]
    cases (wmTlsRead E os fuel conn true (size - len - 1) (some 0) r).ret with
    | none => exact hread
    | some done =>
      cases done with
      | false => exact hread
      | true =>
        dsimp only
        split_ifs
        · exact hread
        · exact hread
        · exact (ih _ _ _ _ _).trans hread

/-- The loop from a connection in use: its reads continue the run, the response gets
what they deliver, and the loop ends with a full buffer or with everything taken. -/
theorem collect_account (hE : E.Lawful H) {size len fuel : ℕ} {c : Conn σ} {m : Mem} {ok b : Bool}
    {r : ResultPtr} {hist : List CallRecord} {own : Log σ} (hlen : len < size - 1) (hr : r ≠ none)
    (hacc : Account E H base c hist own) (hc : c.closed = false)
    (hret : (wmTlsCollect E os size fuel (some c) m len ok r).ret = some b) :
    let l := wmTlsCollect E os size fuel (some c) m len ok r
    ∃ c' hist' own' data, l.conn = some c' ∧ Account E H base c' hist' own' ∧
      delivered hist' = delivered hist ++ data ∧ l.responseLen = len + data.length ∧
      l.responseLen ≤ size - 1 ∧ l.response = stored m len data ∧
      l.ok = (ok || decide (data ≠ [])) ∧
      (b = true → l.responseLen = size - 1 ∨ H.unread c'.eng = []) := by
  induction fuel generalizing c m len ok r hist own with
  | zero => cases hret
  | succ fuel ih =>
    have hsize : 0 < size - len - 1 := by omega
    obtain ⟨hle, hbr, hgot⟩ := read_stores E os fuel (some c) (size - len - 1) r
    obtain ⟨c', hcall⟩ := read_call E os hsize fuel c r
    simp only [wmTlsCollect, hbr, Option.getD_some] at hret ⊢
    set o := wmTlsRead E os fuel (some c) true (size - len - 1) (some 0) r with ho
    have hconn : o.conn = some c' := by rw [hcall]
    cases hor : o.ret with
    | none =>
      rw [hor] at hret
      cases hret
    | some done =>
      have hstep : CallStep E os c (.read (size - len - 1) o.data o.bytesRead done o.result) c' :=
        .read (by rw [← ho, hcall, hor])
      obtain ⟨evs, hacc'⟩ := account_step hE hacc hstep
      have hdel : delivered (hist ++ [.read (size - len - 1) o.data o.bytesRead done o.result]) =
          delivered hist ++ o.data := by rw [delivered_append, delivered_single]; rfl
      rw [hor] at hret
      cases done with
      | false =>
        obtain rfl := Option.some.inj hret
        have hnil : o.data = [] := by
          by_contra hne
          have := hgot hne
          rw [hor] at this
          cases this
        refine ⟨c', _, _, [], hconn, hacc', by rw [hdel, hnil], rfl, Nat.le_of_lt hlen, ?_,
          by simp, by simp⟩
        rw [hnil, store_nil, stored_nil]
      | true =>
        obtain ⟨y, rfl⟩ := Option.ne_none_iff_exists'.mp hr
        obtain ⟨hflag, hend⟩ := read_end hE hsize hacc.ledger hc
          (show wmTlsRead E os fuel (some c) true (size - len - 1) (some 0) (some y) = _ by
            rw [← ho, hcall, hor])
        dsimp only at hret ⊢
        by_cases hdata : o.data = []
        · rw [if_pos (by rw [hdata, List.length_nil])] at hret ⊢
          obtain rfl := Option.some.inj hret
          refine ⟨c', _, _, [], hconn, hacc', by rw [hdel, hdata], rfl, Nat.le_of_lt hlen, ?_,
            by simp, fun _ => .inr (hend hdata)⟩
          rw [hdata, store_nil, stored_nil]
        · rw [if_neg (by simpa using hdata)] at hret ⊢
          split_ifs at hret ⊢ with hfull
          · obtain rfl := Option.some.inj hret
            have hmax : len + o.data.length = size - 1 := by omega
            refine ⟨c', _, _, o.data, hconn, hacc', hdel, rfl, Nat.le_of_eq hmax, ?_,
              by simp [hdata], fun _ => .inl hmax⟩
            rw [stored, if_neg hdata, store_append]
          · have hnext : len + o.data.length < size - 1 := Nat.lt_of_not_le hfull
            have hr' : o.result ≠ none := fun h =>
              absurd ((read_null E os fuel _ _ _ _ _).mp h) (Option.some_ne_none y)
            rw [hconn] at hret ⊢
            obtain ⟨c'', hist'', own'', data, h₁, h₂, h₃, h₄, h₅, h₆, h₇, h₈⟩ :=
              ih hnext hr' hacc' (hflag hdata) hret
            refine ⟨c'', hist'', own'', o.data ++ data, h₁, h₂, ?_, ?_, h₅, ?_, ?_, h₈⟩
            · rw [h₃, hdel, List.append_assoc]
            · rw [h₄, List.length_append, Nat.add_assoc]
            · rw [h₆, stored_append m len hdata]
            · rw [h₇]
              simp [hdata]

end Collect

section Heads

/-- The loop of the exchange before an iteration. -/
structure CollectHead (σ : Type) where
  fuel : ℕ
  conn : Option (Conn σ)
  response : Mem
  responseLen : ℕ
  ok : Bool
  result : ResultPtr

namespace CollectHead

variable (E os) (size : ℕ) (a b : CollectHead σ)

/-- The rest of the loop. -/
def run : CollectOut σ :=
  wmTlsCollect E os size (a.fuel + 1) a.conn a.response a.responseLen a.ok a.result

/-- The size of the buffer at `response + response_len` that the read is given. -/
def room : ℕ := size - a.responseLen - 1

def read : ReadOut (Option (Conn σ)) :=
  wmTlsRead E os a.fuel a.conn true (a.room size) (some 0) a.result

/-- An iteration that goes on to the next one. -/
structure Turn : Prop where
  ret : (a.read E os size).ret = some true
  got : (a.read E os size).bytesRead.getD 0 ≠ 0
  more : a.responseLen + (a.read E os size).bytesRead.getD 0 < size - 1
  fuel : a.fuel = b.fuel + 1
  next : b = ⟨b.fuel, (a.read E os size).conn,
    store (store a.response a.responseLen (a.read E os size).data)
      (a.responseLen + (a.read E os size).bytesRead.getD 0) [0],
    a.responseLen + (a.read E os size).bytesRead.getD 0, true, (a.read E os size).result⟩

end CollectHead

variable {size : ℕ} {a b : CollectHead σ}

theorem turn_run (h : a.Turn E os size b) : a.run E os size = b.run E os size := by
  obtain ⟨hret, hgot, hmore, hfuel, hnext⟩ := h
  have hrest : b.run E os size = wmTlsCollect E os size a.fuel (a.read E os size).conn
      (store (store a.response a.responseLen (a.read E os size).data)
        (a.responseLen + (a.read E os size).bytesRead.getD 0) [0])
      (a.responseLen + (a.read E os size).bytesRead.getD 0) true (a.read E os size).result := by
    rw [hfuel, hnext]
    rfl
  rw [hrest, CollectHead.run, wmTlsCollect]
  unfold CollectHead.read CollectHead.room at hret hgot hmore ⊢
  simp only [hret, if_neg hgot, if_neg (Nat.not_le.mpr hmore)]

theorem turns_run (h : ReflTransGen (CollectHead.Turn E os size) a b) :
    a.run E os size = b.run E os size := by
  induction h with
  | refl => rfl
  | tail _ hs ih => exact ih.trans (turn_run hs)

/-- At every iteration there is room before the last byte of the buffer. -/
theorem turns_room (h : ReflTransGen (CollectHead.Turn E os size) a b)
    (ha : a.responseLen < size - 1) :
    0 < b.room size ∧ b.responseLen + b.room size = size - 1 := by
  have hb : b.responseLen < size - 1 := by
    induction h with
    | refl => exact ha
    | tail _ hs _ =>
      rw [hs.next]
      exact hs.more
  unfold CollectHead.room
  omega

/-- A run that does not break stops at this head, or goes on to the next one. -/
theorem run_stops (h : (a.run E os size).ret ≠ some true) :
    (a.read E os size).ret = (a.run E os size).ret ∨
      (a.fuel = 0 ∧ a.responseLen + 1 < size - 1 ∧ (a.run E os size).ret = none) ∨
      ∃ b, a.Turn E os size b := by
  obtain ⟨fuel, conn, response, len, ok, result⟩ := a
  rw [CollectHead.run, wmTlsCollect] at h ⊢
  unfold CollectHead.read CollectHead.room
  dsimp only at h ⊢
  set o := wmTlsRead E os fuel conn true (size - len - 1) (some 0) result with ho
  cases hret : o.ret with
  | none => exact .inl rfl
  | some done =>
    cases done with
    | false => exact .inl rfl
    | true =>
      rw [hret] at h
      dsimp only at h ⊢
      split_ifs at h ⊢ with hgot hfull
      · exact absurd rfl h
      · exact absurd rfl h
      · refine .inr ?_
        cases fuel with
        | zero => exact .inl ⟨rfl, by omega, rfl⟩
        | succ fuel =>
          exact .inr ⟨⟨fuel, o.conn,
            store (store response len o.data) (len + o.bytesRead.getD 0) [0],
            len + o.bytesRead.getD 0, true, o.result⟩, hret, hgot, Nat.lt_of_not_le hfull, rfl, rfl⟩

theorem run_ends (h : (a.run E os size).ret ≠ some true) :
    ∃ b, ReflTransGen (CollectHead.Turn E os size) a b ∧
      ((b.read E os size).ret = (a.run E os size).ret ∨
        (b.fuel = 0 ∧ b.responseLen + 1 < size - 1 ∧ (a.run E os size).ret = none)) := by
  induction hfuel : a.fuel generalizing a with
  | zero =>
    rcases run_stops h with hread | hout | ⟨b, hturn⟩
    · exact ⟨a, .refl, .inl hread⟩
    · exact ⟨a, .refl, .inr hout⟩
    · have := hturn.fuel
      omega
  | succ fuel ih =>
    rcases run_stops h with hread | hout | ⟨b, hturn⟩
    · exact ⟨a, .refl, .inl hread⟩
    · exact ⟨a, .refl, .inr hout⟩
    · rw [turn_run hturn] at h ⊢
      obtain ⟨d, hturns, hend⟩ := ih h (by have := hturn.fuel; omega)
      exact ⟨d, .head hturn hturns, hend⟩

/-- The loop fails when one of its reads does. -/
theorem run_failed_iff :
    (a.run E os size).ret = some false ↔
      ∃ b, ReflTransGen (CollectHead.Turn E os size) a b ∧ (b.read E os size).ret = some false := by
  constructor
  · intro h
    have hne : (a.run E os size).ret ≠ some true := by simp [h]
    obtain ⟨b, hturns, hread | ⟨-, -, hnone⟩⟩ := run_ends hne
    · exact ⟨b, hturns, hread.trans h⟩
    · rw [h] at hnone
      cases hnone
  · rintro ⟨b, hturns, hfail⟩
    rw [turns_run hturns, CollectHead.run, wmTlsCollect]
    unfold CollectHead.read CollectHead.room at hfail
    simp only [hfail]

/-- Every turn takes one of the fuel and at least one byte of room. -/
theorem turns_fuel (h : ReflTransGen (CollectHead.Turn E os size) a b) :
    a.fuel + a.responseLen ≤ b.fuel + b.responseLen := by
  induction h with
  | refl => exact Nat.le_refl _
  | tail _ hs ih =>
    have hfuel := hs.fuel
    have hgot := hs.got
    rw [hs.next]
    dsimp only
    omega

/-- With fuel for every byte of the buffer the loop returns when its reads do. -/
theorem run_none (hfuel : size ≤ a.fuel + a.responseLen + 2)
    (h : (a.run E os size).ret = none) :
    ∃ b, ReflTransGen (CollectHead.Turn E os size) a b ∧ (b.read E os size).ret = none := by
  have hne : (a.run E os size).ret ≠ some true := by simp [h]
  obtain ⟨b, hturns, hread | ⟨h0, hroom, -⟩⟩ := run_ends hne
  · exact ⟨b, hturns, hread.trans h⟩
  · have := turns_fuel hturns
    omega

end Heads

section Written

theorem setup_received {evs : Log σ} (h : ∀ ev ∈ evs, ev.isSetup = true) :
    receivedBytes evs = [] := by
  induction evs with
  | nil => rfl
  | cons ev evs ih =>
    have hev := h ev List.mem_cons_self
    have htail := ih fun ev' hev' => h ev' (List.mem_cons_of_mem _ hev')
    cases ev with
    | recv => cases hev
    | _ => exact htail

variable (E os) in
/-- Closing a connection receives nothing. -/
theorem finish_log (fuel : ℕ) (c : Conn σ) (log : Log σ) (m : Mem) (b : Bool) (r : ResultPtr) :
    ∃ evs, (wmTlsFinish E os fuel (some c) log m b r).log = c.log ++ evs ∧
      receivedBytes evs = [] := by
  obtain ⟨evs, c', hsends, hc', hnone, hdone⟩ := close_log E os fuel c
  unfold wmTlsFinish
  dsimp only
  rw [hc']
  cases hret : (wmTlsClose E os fuel (some c)).1 with
  | none => exact ⟨evs, hnone hret, hsends.received⟩
  | some u =>
    obtain ⟨tail, htail, hsetup⟩ := disconnect_log c.sock (c.log ++ evs)
    refine ⟨evs ++ tail, ?_, ?_⟩
    · rw [← List.append_assoc, ← htail]
      exact hdone hret
    · rw [receivedBytes_append, hsends.received, setup_received hsetup, List.append_nil]

variable (hE : E.Lawful H) (hreset : ∀ a name e, reset a name = (true, e) → H.Fresh e)
  {x : ExchangeCall σ}

include hE hreset in
/-- The connection behind the `wm_tls_write` of an exchange: nothing is read from it yet. -/
theorem written_account (hres : x.result ≠ none)
    (hop : (x.opened E os anchors reset).ret = some true) {b : Bool}
    (hw : (x.written E os anchors reset).ret = some b) :
    ∃ c hist own, (x.written E os anchors reset).conn = some c ∧
      Account E H x.log c hist own ∧ delivered hist = [] ∧ (b = true → c.closed = false) ∧
      (x.written E os anchors reset).result ≠ none := by
  obtain ⟨c, hc⟩ : ∃ c, (x.opened E os anchors reset).outConn = some (some c) := by
    rcases open_cases (E := E) anchors reset x.fuel (some x.host) x.port x.sniHost
      (some none) x.log (wmHttpsZeroResult x.result) with
      ⟨hfail, -⟩ | ⟨c₀, -, ⟨-, -, hconn, -⟩ | ⟨hfail, -⟩⟩
    · exact absurd (hop.symm.trans hfail) (by decide)
    · exact ⟨_, hconn⟩
    · exact absurd hop hfail
  have hopened : Opened E os reset x.log c := ⟨anchors, x.fuel, some x.host, x.port, x.sniHost,
    some none, wmHttpsZeroResult x.result, hop, hc⟩
  obtain ⟨own, hacc⟩ := open_account hE hreset hopened
  have hwritten : x.written E os anchors reset = wmTlsWrite E os x.fuel (some c) (InBuf.of x.text)
      (some 0) (x.opened E os anchors reset).result := by
    rw [ExchangeCall.written, hc]
    rfl
  have hnonnull : (x.written E os anchors reset).result ≠ none := by
    intro h
    rw [ExchangeCall.written, write_null, ExchangeCall.opened, open_null, zeroResult_null] at h
    exact hres h
  rw [hwritten] at hw hnonnull ⊢
  set w := wmTlsWrite E os x.fuel (some c) (InBuf.of x.text) (some 0)
    (x.opened E os anchors reset).result with hcall
  obtain ⟨c', n, hconn, hn⟩ : ∃ c' n, w.conn = some c' ∧ w.bytesWritten = some n := by
    simp only [hcall, wmTlsWrite]
    split_ifs
    · exact ⟨c, 0, rfl, rfl⟩
    · obtain ⟨n, -, -, -, hbw, -⟩ := write_loop_account (E := E) (InBuf.of x.text).bytes
        x.fuel 0 c (wmHttpsZeroResult (x.opened E os anchors reset).result) (Nat.zero_le _)
      exact ⟨_, n, rfl, hbw⟩
  have hout : w = ⟨some b, some c', some n, w.result⟩ := by rw [← hw, ← hconn, ← hn]
  obtain ⟨evs, hacc'⟩ := account_step hE hacc (.write hout hn)
  refine ⟨c', _, _, hconn, hacc', rfl, ?_, hnonnull⟩
  rintro rfl
  exact write_flag (open_flag hopened) hw hconn

end Written

namespace ExchangeCall

variable (E os anchors reset) (x : ExchangeCall σ) (m : Mem)

/-- The read loop of the exchange when it starts. -/
def start : CollectHead σ :=
  ⟨x.fuel - 1, (x.written E os anchors reset).conn, store m 0 [0], 0, false,
    (x.written E os anchors reset).result⟩

/-- The call gets to the iteration at `head`. -/
structure Reaches (head : CollectHead σ) : Prop where
  opened : (x.opened E os anchors reset).ret = some true
  written : (x.written E os anchors reset).ret = some true
  turns : ReflTransGen (CollectHead.Turn E os x.responseSize.toNat)
    (x.start E os anchors reset m) head

/-- The connection that the call closes at its end. -/
def lastConn : Option (Conn σ) :=
  if (x.written E os anchors reset).ret = some true then (x.collected E os anchors reset m).conn
  else (x.written E os anchors reset).conn

end ExchangeCall

section Received

variable {x : ExchangeCall σ} {m : Mem} {head : CollectHead σ}

theorem start_run (hw : (x.written E os anchors reset).ret = some true) :
    (x.start E os anchors reset m).run E os x.responseSize.toNat =
      x.collected E os anchors reset m := by
  have hfuel : x.fuel ≠ 0 := by
    intro h0
    rw [ExchangeCall.written, h0] at hw
    cases hconn : (x.opened E os anchors reset).outConn.join with
    | none =>
      rw [hconn] at hw
      cases hw
    | some c =>
      rw [hconn] at hw
      simp only [wmTlsWrite] at hw
      split_ifs at hw
      · cases hw
      · cases hw
  rw [CollectHead.run, ExchangeCall.start, ExchangeCall.collected]
  dsimp only
  rw [Nat.sub_add_cancel (Nat.pos_of_ne_zero hfuel)]

theorem reaches_run (h : x.Reaches E os anchors reset m head) :
    head.run E os x.responseSize.toNat = x.collected E os anchors reset m :=
  (turns_run h.turns).symm.trans (start_run h.written)

theorem reaches_room (h : x.Reaches E os anchors reset m head) :
    0 < head.room x.responseSize.toNat ∧
      head.responseLen + head.room x.responseSize.toNat = x.responseSize.toNat - 1 := by
  apply turns_room h.turns
  have := x.room
  simp only [ExchangeCall.start]
  omega

variable (hE : E.Lawful H) (hreset : ∀ a name e, reset a name = (true, e) → H.Fresh e)

/-- What an account says about the data it has delivered. -/
theorem account_plain {c : Conn σ} {hist : List CallRecord} {own : Log σ}
    (h : Account E H base c hist own) :
    delivered hist <+: H.plain (receivedBytes own) ∧
      (H.unread c.eng = [] → delivered hist = H.plain (receivedBytes own)) := by
  have hdel := h.delivered.symm.trans h.ledger.delivered
  rw [h.ledger.received, hdel]
  refine ⟨List.take_prefix _ _, fun hend => ?_⟩
  exact List.take_of_length_le (List.drop_eq_nil_iff.mp hend)

variable (E os anchors reset) in
/-- A call that has returned `b`, where `data` is in the response and `plain` was received. -/
structure Outcome (x : ExchangeCall σ) (m : Mem) (plain data : List UInt8) (b : Bool) : Prop where
  response : (x.run E os anchors reset m).response = some (stored (store m 0 [0]) 0 data)
  length : data.length ≤ x.responseSize.toNat - 1
  isPrefix : data <+: plain
  failure : b = false → (x.opened E os anchors reset).ret = some false ∨
    (x.written E os anchors reset).ret = some false ∨
    (∃ head, x.Reaches E os anchors reset m head ∧
      (head.read E os x.responseSize.toNat).ret = some false) ∨ plain = []
  collected : b = true → (x.opened E os anchors reset).ret = some true ∧
    (x.written E os anchors reset).ret = some true ∧
    (x.collected E os anchors reset m).ret = some true
  success : b = true → data ≠ [] ∧ (data.length = x.responseSize.toNat - 1 ∨ data = plain) ∧
    ∃ z, (x.run E os anchors reset m).result = some z ∧ z.ok = 1 ∧ z.httpBytes = data.length

include hE hreset in
/-- The read loop of an exchange, with the account of the connection behind it. -/
theorem collected_account (hres : x.result ≠ none)
    (hop : (x.opened E os anchors reset).ret = some true)
    (hw : (x.written E os anchors reset).ret = some true) {b : Bool}
    (hl : (x.collected E os anchors reset m).ret = some b) :
    ∃ c hist own data, (x.collected E os anchors reset m).conn = some c ∧
      Account E H x.log c hist own ∧ delivered hist = data ∧
      (x.collected E os anchors reset m).responseLen = data.length ∧
      data.length ≤ x.responseSize.toNat - 1 ∧
      (x.collected E os anchors reset m).response = stored (store m 0 [0]) 0 data ∧
      (x.collected E os anchors reset m).ok = decide (data ≠ []) ∧
      (b = true → data.length = x.responseSize.toNat - 1 ∨ H.unread c.eng = []) ∧
      (x.collected E os anchors reset m).result ≠ none := by
  have hroom : 0 < x.responseSize.toNat - 1 := by
    have := x.room
    omega
  obtain ⟨c, hist, own, hconn, hacc, hnil, hflag, hnonnull⟩ :=
    written_account hE hreset hres hop hw
  rw [ExchangeCall.collected, hconn] at hl ⊢
  obtain ⟨c', hist', own', data, hconn', hacc', hdel, hlen, hle, hresp, hok, hend⟩ :=
    collect_account hE hroom hnonnull hacc (hflag rfl) hl
  rw [hnil, List.nil_append] at hdel
  rw [Nat.zero_add] at hlen
  refine ⟨c', hist', own', data, hconn', hacc', hdel, hlen, hlen ▸ hle, hresp, ?_, hlen ▸ hend, ?_⟩
  · rw [hok, Bool.false_or]
  · rwa [Ne, collect_null]

include hE hreset in
/-- What an exchange that has returned did with what it received. -/
theorem run_outcome (x : ExchangeCall σ) (hres : x.result ≠ none) (m : Mem) {b : Bool}
    (hb : (x.run E os anchors reset m).ret = some b) :
    ∃ own data, (x.run E os anchors reset m).log = x.log ++ own ∧
      Outcome E os anchors reset x m (H.plain (receivedBytes own)) data b := by
  have hexit := x.run_exit E os anchors reset m
  have hnone : some (store m 0 [0]) = some (stored (store m 0 [0]) 0 []) :=
    congrArg some (stored_nil _ _).symm
  have hroom : 0 < x.responseSize.toNat - 1 := by
    have := x.room
    omega
  generalize hrun : x.run E os anchors reset m = o at hexit hb ⊢
  cases hexit with
  | opening hop =>
    obtain ⟨own, hlog, -⟩ := open_log hE hreset anchors x.fuel (some x.host) x.port
      x.sniHost (some none) (wmHttpsZeroResult x.result)
    obtain rfl : b = false := by
      cases b with
      | false => rfl
      | true => exact absurd hb hop
    exact ⟨own, [], hlog, by rw [hrun]; exact hnone, Nat.zero_le _, List.nil_prefix,
      fun _ => .inl hb, by simp, by simp⟩
  | writing hop hw => cases hb
  | writeFailed hop hw =>
    obtain ⟨c, hist, own, hconn, hacc, hnil, -, -⟩ := written_account hE hreset hres hop hw
    rw [hconn] at hb hrun ⊢
    obtain ⟨evs, hlog, hquiet⟩ := finish_log E os x.fuel c
      (x.opened E os anchors reset).log (store m 0 [0]) false (x.written E os anchors reset).result
    obtain ⟨-, -, hfalse⟩ := Option.map_eq_some_iff.mp hb
    refine ⟨own ++ evs, [], by rw [hlog, hacc.log, List.append_assoc], by rw [hrun]; exact hnone,
      Nat.zero_le _, List.nil_prefix, fun _ => .inr (.inl hw), ?_, ?_⟩
    · intro htrue
      exact absurd (hfalse.trans htrue) Bool.false_ne_true
    · intro htrue
      exact absurd (hfalse.trans htrue) Bool.false_ne_true
  | reading hop hw hl => cases hb
  | readFailed hop hw hl =>
    obtain ⟨c, hist, own, data, hconn, hacc, rfl, -, hle, hresp, -, -, -⟩ :=
      collected_account hE hreset hres hop hw hl
    rw [hconn, hresp] at hb hrun ⊢
    obtain ⟨evs, hlog, hquiet⟩ := finish_log E os x.fuel c
      (x.opened E os anchors reset).log (stored (store m 0 [0]) 0 (delivered hist)) false
      (x.collected E os anchors reset m).result
    obtain ⟨-, -, hfalse⟩ := Option.map_eq_some_iff.mp hb
    have hread : ∃ head, x.Reaches E os anchors reset m head ∧
        (head.read E os x.responseSize.toNat).ret = some false := by
      rw [← start_run hw, run_failed_iff] at hl
      obtain ⟨head, hturns, hfail⟩ := hl
      exact ⟨head, ⟨hop, hw, hturns⟩, hfail⟩
    refine ⟨own ++ evs, delivered hist, by rw [hlog, hacc.log, List.append_assoc],
      by rw [hrun]; rfl, hle, ?_, fun _ => .inr (.inr (.inl hread)), ?_, ?_⟩
    · rw [receivedBytes_append, hquiet, List.append_nil]
      exact (account_plain hacc).1
    · intro htrue
      exact absurd (hfalse.trans htrue) Bool.false_ne_true
    · intro htrue
      exact absurd (hfalse.trans htrue) Bool.false_ne_true
  | done hop hw hl =>
    obtain ⟨c, hist, own, data, hconn, hacc, rfl, hlen, hle, hresp, hok, hend, hnonnull⟩ :=
      collected_account hE hreset hres hop hw hl
    rw [hconn, hresp] at hb hrun ⊢
    set z := (((x.collected E os anchors reset m).result.setOk
      (if (x.collected E os anchors reset m).ok then 1 else 0)).setHttpBytes
      (x.collected E os anchors reset m).responseLen) with hz
    obtain ⟨evs, hlog, hquiet⟩ := finish_log E os x.fuel c
      (x.opened E os anchors reset).log (stored (store m 0 [0]) 0 (delivered hist))
      (x.collected E os anchors reset m).ok z
    obtain ⟨-, -, hret⟩ := Option.map_eq_some_iff.mp hb
    have hplain : receivedBytes (own ++ evs) = receivedBytes own := by
      rw [receivedBytes_append, hquiet, List.append_nil]
    -- an empty response is not full, so the stream has ended
    have hempty : delivered hist = [] → H.plain (receivedBytes own) = [] := by
      intro hnil
      rcases hend rfl with hfull | hunread
      · rw [hnil, List.length_nil] at hfull
        omega
      · exact ((account_plain hacc).2 hunread).symm.trans hnil
    refine ⟨own ++ evs, delivered hist, by rw [hlog, hacc.log, List.append_assoc],
      by rw [hrun]; rfl, hle, ?_, ?_, fun _ => ⟨hop, hw, hl⟩, ?_⟩
    · rw [hplain]
      exact (account_plain hacc).1
    · rintro rfl
      rw [hplain]
      rw [hok, decide_eq_false_iff_not, not_not] at hret
      exact .inr (.inr (.inr (hempty hret)))
    · rintro rfl
      have hne : delivered hist ≠ [] := by simpa [hok] using hret
      obtain ⟨r, hr⟩ := Option.ne_none_iff_exists'.mp hnonnull
      refine ⟨hne, ?_, ?_⟩
      · rw [hplain]
        exact (hend rfl).imp_right (account_plain hacc).2
      · rw [hrun]
        exact ⟨_, by rw [hz, hr]; rfl, by simp [hret], by simp [hlen]⟩

/-- With fuel for the buffer, an exchange returns when the calls inside do. -/
theorem run_returns (x : ExchangeCall σ) (hfuel : x.responseSize.toNat ≤ x.fuel)
    (h : (x.run E os anchors reset m).ret = none) :
    (x.opened E os anchors reset).ret = none ∨ (x.written E os anchors reset).ret = none ∨
      (∃ head, x.Reaches E os anchors reset m head ∧
        (head.read E os x.responseSize.toNat).ret = none) ∨
      (wmTlsClose E os x.fuel (x.lastConn E os anchors reset m)).1 = none := by
  have hexit := x.run_exit E os anchors reset m
  generalize x.run E os anchors reset m = o at hexit h
  unfold ExchangeCall.lastConn
  cases hexit with
  | opening hop => exact .inl h
  | writing hop hw => exact .inr (.inl hw)
  | writeFailed hop hw =>
    rw [if_neg (by rw [hw]; simp)]
    exact .inr (.inr (.inr (Option.map_eq_none_iff.mp h)))
  | reading hop hw hl =>
    rw [← start_run hw] at hl
    have henough : x.responseSize.toNat ≤ (x.start E os anchors reset m).fuel +
        (x.start E os anchors reset m).responseLen + 2 := by
      simp only [ExchangeCall.start]
      omega
    obtain ⟨head, hturns, hread⟩ := run_none henough hl
    exact .inr (.inr (.inl ⟨head, ⟨hop, hw, hturns⟩, hread⟩))
  | readFailed hop hw hl =>
    rw [if_pos hw]
    exact .inr (.inr (.inr (Option.map_eq_none_iff.mp h)))
  | done hop hw hl =>
    rw [if_pos hw]
    exact .inr (.inr (.inr (Option.map_eq_none_iff.mp h)))

/-- `wm_tls_exchange` returns the received text. Its reads get the free part of the
response, and nothing behind the response changes. -/
theorem exchange_received (hE : E.Lawful H)
    (hreset : ∀ a name e, reset a name = (true, e) → H.Fresh e) (os : Host σ) (anchors : Option α)
    (fuel : ℕ) (host text : List UInt8) (port : ℕ) (sniHost : Option (List UInt8)) (m : Mem)
    (size : ℤ) (hsize : 1 < size) (log : Log σ) (y : WmHttpsResult) :
    let x : ExchangeCall σ := ⟨fuel, host, port, sniHost, text, size, log, some y, hsize⟩
    let o := wmTlsExchange E os anchors reset fuel (some host) port sniHost (some text) (some m)
      size log (some y)
    (∀ head, x.Reaches E os anchors reset m head →
      head.run E os size.toNat = x.collected E os anchors reset m ∧
      0 < head.room size.toNat ∧
      head.responseLen + head.room size.toNat = size.toNat - 1) ∧
    (∃ m', o.response = some m' ∧ (∀ i, size.toNat ≤ i → m' i = m i) ∧
      ∀ b, o.ret = some b → ∃ own n, o.log = log ++ own ∧ n ≤ size.toNat - 1 ∧
        n ≤ (H.plain (receivedBytes own)).length ∧
        load m' 0 n = (H.plain (receivedBytes own)).take n ∧ m' n = 0 ∧
        (b = true → 0 < n ∧
          (n = size.toNat - 1 ∨ n = (H.plain (receivedBytes own)).length) ∧
          ∃ z, o.result = some z ∧ z.ok = 1 ∧ z.httpBytes = n) ∧
        (b = false ↔ (x.opened E os anchors reset).ret = some false ∨
          (x.written E os anchors reset).ret = some false ∨
          (∃ head, x.Reaches E os anchors reset m head ∧
            (head.read E os size.toNat).ret = some false) ∨
          H.plain (receivedBytes own) = [])) ∧
    (size.toNat ≤ fuel → o.ret = none →
      (x.opened E os anchors reset).ret = none ∨ (x.written E os anchors reset).ret = none ∨
      (∃ head, x.Reaches E os anchors reset m head ∧ (head.read E os size.toNat).ret = none) ∨
      (wmTlsClose E os fuel (x.lastConn E os anchors reset m)).1 = none) := by
  intro x o
  refine ⟨fun head h => ⟨reaches_run h, reaches_room h⟩, ?_, run_returns x⟩
  obtain ⟨hle, stretch, hlen, hresp⟩ := run_stores E os anchors reset x m
  refine ⟨_, hresp, fun i hi => ?_, fun b hb => ?_⟩
  · have hend : stretch.length < i := by
      have hroom := x.room
      have hbound : x.responseSize.toNat ≤ i := hi
      omega
    rw [stored_outside (.inr (by omega)), store_outside]
    rw [List.length_singleton]
    omega
  · obtain ⟨own, data, hlog, hout⟩ := run_outcome hE hreset x (Option.some_ne_none y) m hb
    have hsame : stored (store m 0 [0]) 0 stretch = stored (store m 0 [0]) 0 data :=
      Option.some.inj (hresp.symm.trans hout.response)
    have htake : (H.plain (receivedBytes own)).take data.length = data :=
      List.prefix_iff_eq_take.mp hout.isPrefix |>.symm
    rw [hsame]
    refine ⟨own, data.length, hlog, hout.length, hout.isPrefix.length_le, ?_, ?_, ?_, ?_⟩
    · rw [stored_load, htake]
    · have hnul := stored_nul (show store m 0 [0] 0 = 0 from rfl) data
      rwa [Nat.zero_add] at hnul
    · intro htrue
      obtain ⟨hne, hend, z, hz, hok, hbytes⟩ := hout.success htrue
      have hcut := hend.imp_right (congrArg List.length)
      exact ⟨List.length_pos_of_ne_nil hne, hcut, z, hz, hok, hbytes⟩
    · refine ⟨hout.failure, fun hfail => ?_⟩
      by_contra htrue
      rw [Bool.not_eq_false] at htrue
      obtain ⟨hop, hw, hl⟩ := hout.collected htrue
      rcases hfail with h | h | ⟨head, hreach, hread⟩ | hnil
      · rw [hop] at h
        cases h
      · rw [hw] at h
        cases h
      · have hfailed := run_failed_iff.mpr ⟨head, hreach.turns, hread⟩
        rw [start_run hw, hl] at hfailed
        cases hfailed
      · rw [hnil, List.take_nil] at htake
        exact (hout.success htrue).1 htake.symm

open PlainEngine in
/-- A response of two bytes, ended by the peer, in a buffer of four. -/
theorem exchange_received_bytes :
    ∃ o m' own n, o = wmTlsExchange engine (scriptHost (fun _ => 2) [some [5], some [6], some [0]])
        (some ()) PlainEngine.reset 20 (some [119]) 443 none (some [71]) (some fun _ => 65) 4 []
        (some ⟨0, 0, 0, 0⟩) ∧
      o.ret = some true ∧ o.response = some m' ∧ o.log = own ∧ 0 < n ∧
      (n = 3 ∨ n = (plaintext (receivedBytes own)).length) ∧
      load m' 0 n = (plaintext (receivedBytes own)).take n ∧ m' n = 0 := by
  obtain ⟨-, ⟨m', hresp, -, hreturned⟩, -⟩ := exchange_received PlainEngine.lawful
    PlainEngine.reset_fresh (scriptHost (fun _ => 2) [some [5], some [6], some [0]]) (some ()) 20
    [119] [71] 443 none (fun _ => 65) 4 (by decide) [] ⟨0, 0, 0, 0⟩
  obtain ⟨own, n, hlog, -, -, hload, hnul, hsuccess, -⟩ := hreturned true rfl
  obtain ⟨hpos, hend, -⟩ := hsuccess rfl
  exact ⟨_, m', own, n, rfl, rfl, hresp, hlog, hpos, hend, hload, hnul⟩

end Received

end BearTLS
