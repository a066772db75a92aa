import BearTLS.Proofs.Ledger

/-! Runs of the streaming API: a connection from `wm_tls_open`, then any calls
of `wm_tls_write` and `wm_tls_read` that return. The calls' own accounts
(`*bytes_written`, `*bytes_read`) are tied to the log. -/

namespace BearTLS

open Relation Trace

variable {σ α : Type} {E : Engine σ} {H : History σ} {os : Host σ}

/-- What the driver adds to the log is `send`s and `recv`s. -/
theorem record_step_log {c c' : Conn σ} (h : RecordStep E os c c') :
    ∃ evs, c'.log = c.log ++ evs ∧ sendappBytes evs = [] ∧ recvappBytes evs = [] := by
  cases h with
  | markClosed hc => exact ⟨[], by simp, rfl, rfl⟩
  | _ => exact ⟨[_], rfl, rfl, rfl⟩

theorem record_steps_log {c c' : Conn σ} (h : RecordSteps E os c c') :
    ∃ evs, c'.log = c.log ++ evs ∧ sendappBytes evs = [] ∧ recvappBytes evs = [] := by
  induction h with
  | refl => exact ⟨[], by simp, rfl, rfl⟩
  | tail _ hs ih =>
    obtain ⟨evs, hlog, hput, htook⟩ := ih
    obtain ⟨evs', hlog', hput', htook'⟩ := record_step_log hs
    refine ⟨evs ++ evs', by rw [hlog', hlog, List.append_assoc], ?_, ?_⟩
    · rw [sendappBytes_append, hput, hput', List.append_nil]
    · rw [recvappBytes_append, htook, htook', List.append_nil]

variable (E os) in
theorem drive_log (fuel : ℕ) (c : Conn σ) :
    ∃ evs, (wmTlsDriveRecords E os fuel c none).conn.log = c.log ++ evs ∧
      sendappBytes evs = [] ∧ recvappBytes evs = [] :=
  record_steps_log (drive_steps fuel c)

/-- The data between `sent` and `n`, cut after its first `k` bytes. -/
theorem take_drop_cut (data : List UInt8) {sent k n : ℕ} (h : sent + k ≤ n) :
    (data.take n).drop sent = (data.drop sent).take k ++ (data.take n).drop (sent + k) := by
  have hcut := List.take_append_drop k ((data.take n).drop sent)
  rw [List.drop_drop] at hcut
  rw [← hcut, List.drop_take, List.take_take, Nat.min_eq_left (by omega)]

/-- The account of `wm_tls_write`: what it has put into the engine is the data
up to `*bytes_written`, and all of it when the call returns 1. -/
theorem write_loop_account (data : List UInt8) (fuel sent : ℕ) (c : Conn σ) (r : ResultPtr)
    (hs : sent ≤ data.length) :
    ∃ n evs, sent ≤ n ∧ n ≤ data.length ∧
      (wmTlsWriteLoop E os data fuel sent c (some sent) r).bytesWritten = some n ∧
      (wmTlsWriteLoop E os data fuel sent c (some sent) r).conn.log = c.log ++ evs ∧
      sendappBytes evs = (data.take n).drop sent ∧ recvappBytes evs = [] ∧
      ((wmTlsWriteLoop E os data fuel sent c (some sent) r).ret = some true → n = data.length) := by
  have hnone : [] = (data.take sent).drop sent := by simp
  induction fuel generalizing sent c r with
  | zero =>
    exact ⟨sent, [], Nat.le_refl _, hs, rfl, by simp [wmTlsWriteLoop], hnone, rfl,
      by intro h; cases h⟩
  | succ fuel ih =>
    rcases Nat.lt_or_ge sent data.length with hlt | hge
    · cases hc : (E.currentState c.eng).closed with
      | true =>
        rw [write_loop_closed data fuel sent c (some sent) r hlt hc]
        exact ⟨sent, [], Nat.le_refl _, hs, rfl, by simp, hnone, rfl, by simp⟩
      | false =>
        by_cases hd : writeChunk E data sent c.eng = []
        · obtain ⟨evs, hlog, hput, htook⟩ := drive_log E os fuel c
          have hput' := hput.trans hnone
          rw [write_loop_drive data fuel sent c (some sent) r hlt hc hd]
          cases hr : (wmTlsDriveRecords E os fuel c none).ret with
          | none => exact ⟨sent, evs, Nat.le_refl _, hs, rfl, hlog, hput', htook, by simp⟩
          | some ok =>
            simp only
            split_ifs
            · exact ⟨sent, evs, Nat.le_refl _, hs, rfl, hlog, hput', htook, by simp⟩
            · obtain ⟨n, evs', hn, hn', hbw, hlog', hput', htook', hret⟩ :=
                ih sent (wmTlsDriveRecords E os fuel c none).conn
                  (wmTlsDriveRecords E os fuel c r).result hs hnone
              refine ⟨n, evs ++ evs', hn, hn', hbw, ?_, ?_, ?_, hret⟩
              · rw [hlog', hlog, List.append_assoc]
              · rw [sendappBytes_append, hput, hput', List.nil_append]
              · rw [recvappBytes_append, htook, htook', List.append_nil]
        · obtain ⟨hchunk, hkle⟩ := writeChunk_take hd
          rw [write_loop_sendapp data fuel sent c (some sent) r hlt hc hd]
          set chunk := writeChunk E data sent c.eng
          obtain ⟨n, evs', hn, hn', hbw, hlog', hput', htook', hret⟩ :=
            ih (sent + chunk.length) ({ c with eng := E.flush (E.sendappAck c.eng chunk) }.did
              (.sendapp chunk)) r hkle (by simp)
          refine ⟨n, .sendapp chunk :: evs', by omega, hn', hbw, ?_, ?_, htook', hret⟩
          · simpa [Conn.did] using hlog'
          · rw [sendappBytes, hput', take_drop_cut data hn, ← hchunk]
    · rw [write_loop_done data fuel sent c (some sent) r hge]
      exact ⟨sent, [], Nat.le_refl _, hs, rfl, by simp, hnone, rfl, fun _ => by omega⟩

/-- A NULL `bytes_written` changes nothing else. -/
theorem write_loop_uncounted (data : List UInt8) (fuel sent k : ℕ) (c : Conn σ) (r : ResultPtr) :
    wmTlsWriteLoop E os data fuel sent c none r =
      { wmTlsWriteLoop E os data fuel sent c (some k) r with bytesWritten := none } := by
  induction fuel generalizing sent k c r with
  | zero => rfl
  | succ fuel ih =>
    rcases Nat.lt_or_ge sent data.length with hlt | hge
    · cases hc : (E.currentState c.eng).closed with
      | true =>
        rw [write_loop_closed data fuel sent c none r hlt hc,
          write_loop_closed data fuel sent c (some k) r hlt hc]
      | false =>
        by_cases hd : writeChunk E data sent c.eng = []
        · rw [write_loop_drive data fuel sent c none r hlt hc hd,
            write_loop_drive data fuel sent c (some k) r hlt hc hd]
          cases (wmTlsDriveRecords E os fuel c none).ret with
          | none => rfl
          | some ok =>
            simp only
            split_ifs
            · rfl
            · exact ih _ _ _ _
        · rw [write_loop_sendapp data fuel sent c none r hlt hc hd,
            write_loop_sendapp data fuel sent c (some k) r hlt hc hd]
          exact ih _ _ _ _
    · rw [write_loop_done data fuel sent c none r hge,
        write_loop_done data fuel sent c (some k) r hge]

/-- The account of `wm_tls_read`: what it stores is what it takes from the engine. -/
theorem read_loop_account (size fuel : ℕ) (c : Conn σ) (br : Option ℕ) (r : ResultPtr)
    (h0 : br = br.map fun _ => 0) :
    ∃ evs, (wmTlsReadLoop E os size fuel c br r).conn.log = c.log ++ evs ∧
      sendappBytes evs = [] ∧
      recvappBytes evs = (wmTlsReadLoop E os size fuel c br r).data ∧
      (wmTlsReadLoop E os size fuel c br r).bytesRead =
        br.map fun _ => (wmTlsReadLoop E os size fuel c br r).data.length := by
  induction fuel generalizing c r with
  | zero => exact ⟨[], by simp [wmTlsReadLoop], rfl, rfl, h0⟩
  | succ fuel ih =>
    cases hc : (E.currentState c.eng).closed with
    | true =>
      rw [read_loop_closed size fuel c br r hc]
      exact ⟨[], by simp, rfl, rfl, h0⟩
    | false =>
      rcases Nat.eq_zero_or_pos (readTake E size c.eng) with ht | ht
      · obtain ⟨evs, hlog, hput, htook⟩ := drive_log E os fuel c
        rw [read_loop_drive size fuel c br r hc ht]
        cases hr : (wmTlsDriveRecords E os fuel c none).ret with
        | none => exact ⟨evs, hlog, hput, htook, h0⟩
        | some ok =>
          cases ok with
          | false => exact ⟨evs, hlog, hput, htook, h0⟩
          | true =>
            simp only
            split_ifs
            · exact ⟨evs, hlog, hput, htook, h0⟩
            · obtain ⟨evs', hlog', hput', htook', hbr⟩ :=
                ih (wmTlsDriveRecords E os fuel c none).conn
                  (wmTlsDriveRecords E os fuel c r).result
              refine ⟨evs ++ evs', ?_, ?_, ?_, hbr⟩
              · rw [hlog', hlog, List.append_assoc]
              · rw [sendappBytes_append, hput, hput', List.append_nil]
              · rw [recvappBytes_append, htook, htook', List.nil_append]
      · rw [read_loop_deliver size fuel c br r hc ht]
        refine ⟨[.recvapp ((E.recvappBuf c.eng).take (readTake E size c.eng))], rfl, rfl, ?_, ?_⟩
        · simp [recvappBytes]
        · have hle : readTake E size c.eng ≤ (E.recvappBuf c.eng).length := by
            unfold readTake
            split_ifs
            · exact Nat.min_le_right _ _
            · exact Nat.zero_le _
          simp [Nat.min_eq_left hle]

section Opening

/-- The events around a connection's record traffic. -/
def Event.isSetup : Event σ → Bool
  | .send .. => false
  | .recv .. => false
  | .sendapp .. => false
  | .recvapp .. => false
  | _ => true

theorem ledger_setup {own : Log σ} {e : σ} (h : Ledger E H own e) {evs : Log σ}
    (hevs : ∀ ev ∈ evs, ev.isSetup = true) : Ledger E H (own ++ evs) e := by
  induction evs generalizing own with
  | nil => simpa using h
  | cons ev evs ih =>
    have hev := hevs ev (by simp)
    have hone : Ledger E H (own ++ [ev]) e := by
      cases ev with
      | send => simp [Event.isSetup] at hev
      | recv => simp [Event.isSetup] at hev
      | sendapp => simp [Event.isSetup] at hev
      | recvapp => simp [Event.isSetup] at hev
      | _ => exact ledger_log h rfl rfl rfl rfl trivial
    have := ih hone (fun ev' hev' => hevs ev' (by simp [hev']))
    rwa [List.append_assoc] at this

/-- `l` followed by setup events only. -/
def SetupAfter (l l' : Log σ) : Prop :=
  ∃ evs, l' = l ++ evs ∧ ∀ ev ∈ evs, ev.isSetup = true

theorem SetupAfter.refl (l : Log σ) : SetupAfter l l := ⟨[], by simp, by simp⟩

theorem SetupAfter.trans {l l' l'' : Log σ} (h : SetupAfter l l') (h' : SetupAfter l' l'') :
    SetupAfter l l'' := by
  obtain ⟨evs, rfl, hevs⟩ := h
  obtain ⟨evs', rfl, hevs'⟩ := h'
  refine ⟨evs ++ evs', List.append_assoc _ _ _, fun ev hev => ?_⟩
  rcases List.mem_append.mp hev with hev | hev
  · exact hevs ev hev
  · exact hevs' ev hev

theorem SetupAfter.add (l : Log σ) {ev : Event σ} (h : ev.isSetup = true) :
    SetupAfter l (l ++ [ev]) :=
  ⟨[ev], rfl, by simpa using h⟩

theorem SetupAfter.snoc {l l' : Log σ} (h : SetupAfter l l') {ev : Event σ}
    (hev : ev.isSetup = true) : SetupAfter l (l' ++ [ev]) :=
  h.trans (.add l' hev)

theorem ledger_setup_after {base : Log σ} {own l : Log σ} {e : σ} (h : Ledger E H own e)
    (hl : SetupAfter (base ++ own) l) : ∃ own', l = base ++ own' ∧ own <+: own' ∧
      Ledger E H own' e := by
  obtain ⟨evs, rfl, hevs⟩ := hl
  exact ⟨own ++ evs, List.append_assoc _ _ _, List.prefix_append _ _, ledger_setup h hevs⟩

/-- The events of `wm_https_connect_ipv4`, by its exits; `look` is the name lookup. -/
inductive ConnectEvents : Option Socket → Log σ → Prop
  | notStarted : ConnectEvents none [.wsaStartup false]
  | noSocket : ConnectEvents none [.wsaStartup true, .socket none, .wsaCleanup]
  | noHost (s : Socket) (host : List UInt8) : ConnectEvents none
      [.wsaStartup true, .socket (some s), .gethostbyname host none, .closesocket s, .wsaCleanup]
  | notConnected (s : Socket) (look : Log σ) (addr port : ℕ)
      (hlook : look = [] ∨ ∃ host, look = [.gethostbyname host (some addr)]) : ConnectEvents none
      ([.wsaStartup true, .socket (some s)] ++ look ++
        [.connect s addr port false, .closesocket s, .wsaCleanup])
  | connected (s : Socket) (look : Log σ) (addr port : ℕ) (timeout : Bool)
      (hlook : look = [] ∨ ∃ host, look = [.gethostbyname host (some addr)]) :
      ConnectEvents (some s)
      ([.wsaStartup true, .socket (some s)] ++ look ++
        [.connect s addr port true, .setsockopt s timeout])

/-- The call has taken one of its exits. -/
def ConnectEnds (log : Log σ) (o : ConnectOut σ) : Prop :=
  ∃ evs, ConnectEvents o.sock evs ∧ o.log = log ++ evs

variable (os) in
/-- `wm_https_connect_ipv4` behind the name lookup. -/
theorem connect_tail (log look : Log σ) (s : Socket) (addr port : ℕ) (r r' : ResultPtr)
    (hlook : look = [] ∨ ∃ host, look = [.gethostbyname host (some addr)]) :
    let l : Log σ := log ++ [.wsaStartup true] ++ [.socket (some s)] ++ look
    let l' : Log σ := l ++ [.connect s addr port true]
    ConnectEnds log (if os.connect l = false then
        ⟨none, l ++ [.connect s addr port false] ++ [.closesocket s, .wsaCleanup], r⟩
      else ⟨some s, l' ++ [.setsockopt s (os.setsockopt l')], r'⟩) := by
  intro l l'
  split_ifs
  · exact ⟨_, .notConnected s look addr port hlook, by simp [l]⟩
  · exact ⟨_, .connected s look addr port (os.setsockopt l') hlook, by simp [l, l']⟩

variable (os) in
theorem connect_events (host : List UInt8) (port : ℕ) (log : Log σ) (r : ResultPtr) :
    ConnectEnds log (wmHttpsConnectIpv4 os host port log r) := by
  simp only [wmHttpsConnectIpv4]
  split_ifs with hw
  · exact ⟨_, .notStarted, rfl⟩
  cases os.socket (log ++ [.wsaStartup true]) with
  | none => exact ⟨_, .noSocket, by simp⟩
  | some s =>
    cases os.inetAddr host with
    | some addr =>
      have htail := connect_tail os log [] s addr port
      rw [List.append_nil] at htail
      exact htail _ _ (.inl rfl)
    | none =>
      dsimp only
      cases os.gethostbyname (log ++ [.wsaStartup true] ++ [.socket (some s)]) host with
      | none => exact ⟨_, .noHost s host, by simp⟩
      | some addr => exact connect_tail os log _ s addr port _ _ (.inr ⟨host, rfl⟩)

theorem connect_setup {sock : Option Socket} {evs : Log σ} (h : ConnectEvents sock evs) :
    ∀ ev ∈ evs, ev.isSetup = true := by
  have hlooked : ∀ {look : Log σ} {addr : ℕ},
      (look = [] ∨ ∃ host, look = [.gethostbyname host (some addr)]) →
      ∀ ev ∈ look, ev.isSetup = true := by
    intro look addr hlook ev hev
    rcases hlook with rfl | ⟨host, rfl⟩
    · exact absurd hev List.not_mem_nil
    · rw [List.mem_singleton.mp hev]
      rfl
  cases h with
  | notConnected s look addr port hlook =>
    have hlook := hlooked hlook
    simpa [or_imp, forall_and, Event.isSetup] using hlook
  | connected s look addr port timeout hlook =>
    have hlook := hlooked hlook
    simpa [or_imp, forall_and, Event.isSetup] using hlook
  | _ => simp [Event.isSetup]

theorem disconnect_log (sock : Option Socket) (log : Log σ) :
    SetupAfter log (wmHttpsDisconnect sock log ++ [.heapFree]) := by
  cases sock with
  | none => exact ((SetupAfter.refl log).snoc rfl).snoc rfl
  | some s => exact (((SetupAfter.refl log).snoc rfl).snoc rfl).snoc rfl

/-- `wm_tls_open` up to its handshake loop: an engine that `br_ssl_client_reset`
has accepted, and a log of setup events. -/
structure AtHandshake (reset : α → List UInt8 → Bool × σ) (base : Log σ) (c : Conn σ) : Prop where
  engine : ∃ a name, reset a name = (true, c.eng)
  setup : SetupAfter base c.log
  closed : c.closed = false

/-- A connection on a socket of its own, as `wm_tls_open` has it before its handshake loop. -/
def OnConnected (base : Log σ) (c : Conn σ) : Prop :=
  ∃ s evs, ConnectEvents (some s) evs ∧ c.sock = some s ∧
    c.log = base ++ [.heapAlloc true] ++ evs

variable (E os) in
/-- The exits of `wm_tls_open`, and the handshake that has not returned. -/
inductive OpenExit (reset : α → List UInt8 → Bool × σ) (fuel : ℕ) (base : Log σ) : OpenOut σ → Prop
  | rejected (out : Option (Option (Conn σ))) (r : ResultPtr) :
      OpenExit reset fuel base ⟨some false, out, base, r⟩
  | noBlock (r : ResultPtr) :
      OpenExit reset fuel base ⟨some false, some none, base ++ [.heapAlloc false], r⟩
  | notConnected {evs : Log σ} (h : ConnectEvents none evs) (r : ResultPtr) :
      OpenExit reset fuel base
        ⟨some false, some none, base ++ [.heapAlloc true] ++ evs ++ [.heapFree], r⟩
  -- `wm_cert_store_init` or `br_ssl_client_reset` has returned 0
  | notSetUp {s : Socket} {evs : Log σ} (h : ConnectEvents (some s) evs) (r : ResultPtr) :
      OpenExit reset fuel base ⟨some false, some none,
        wmHttpsDisconnect (some s) (base ++ [.heapAlloc true] ++ evs) ++ [.heapFree], r⟩
  | shaking {c : Conn σ} (hc : OnConnected base c) (hat : AtHandshake reset base c)
      (hret : (wmTlsHandshake E os fuel c none).ret = none) (r : ResultPtr) :
      OpenExit reset fuel base ⟨none, some none, (wmTlsHandshake E os fuel c none).conn.log, r⟩
  | failed {c : Conn σ} (hc : OnConnected base c) (hat : AtHandshake reset base c)
      (hret : (wmTlsHandshake E os fuel c none).ret = some false) (r : ResultPtr) :
      OpenExit reset fuel base ⟨some false, some none,
        wmHttpsDisconnect (wmTlsHandshake E os fuel c none).conn.sock
          (wmTlsHandshake E os fuel c none).conn.log ++ [.heapFree], r⟩
  | opened {c : Conn σ} (hc : OnConnected base c) (hat : AtHandshake reset base c)
      (hret : (wmTlsHandshake E os fuel c none).ret = some true) (r : ResultPtr) :
      OpenExit reset fuel base ⟨some true, some (some (wmTlsHandshake E os fuel c none).conn),
        (wmTlsHandshake E os fuel c none).conn.log, r⟩

variable (E os) in
theorem open_exit (anchors : Option α) (reset : α → List UInt8 → Bool × σ) (fuel : ℕ)
    (host : Option (List UInt8)) (port : ℕ) (sniHost : Option (List UInt8))
    (outConn : Option (Option (Conn σ))) (base : Log σ) (r : ResultPtr) :
    OpenExit E os reset fuel base
      (wmTlsOpen E os anchors reset fuel host port sniHost outConn base r) := by
  simp only [wmTlsOpen]
  cases host with
  | none => exact .rejected _ _
  | some host =>
    cases outConn with
    | none => exact .rejected _ _
    | some _ =>
      simp only
      split_ifs with ha
      · exact .noBlock _
      obtain ⟨evs, hevs, hlog⟩ := connect_events os host port (base ++ [.heapAlloc true])
        (wmHttpsZeroResult r)
      generalize wmHttpsConnectIpv4 os host port (base ++ [.heapAlloc true])
        (wmHttpsZeroResult r) = cn at hevs hlog ⊢
      obtain ⟨sock, log, r⟩ := cn
      obtain rfl : log = _ := hlog
      cases sock with
      | none => exact .notConnected hevs _
      | some s =>
        cases anchors with
        | none => exact .notSetUp hevs _
        | some a =>
          simp only
          split_ifs with hok
          · exact .notSetUp hevs _
          set c : Conn σ := ⟨some s, (reset a _).2, false, base ++ [.heapAlloc true] ++ evs⟩ with hc
          have hon : OnConnected base c := ⟨s, evs, hevs, rfl, rfl⟩
          have hat : AtHandshake reset base c := by
            refine ⟨⟨a, _, Prod.ext (by simpa using hok) rfl⟩, ?_, rfl⟩
            exact (SetupAfter.add base rfl).trans ⟨evs, rfl, connect_setup hevs⟩
          rw [(handshake_result fuel c r).1, (handshake_result fuel c r).2]
          cases hret : (wmTlsHandshake E os fuel c none).ret with
          | none => exact .shaking hon hat hret _
          | some ok =>
            cases ok with
            | true => exact .opened hon hat hret _
            | false => exact .failed hon hat hret _

/-- Either `wm_tls_open` ends before its handshake loop, or it is that loop
followed by the clean-up of a failure. -/
theorem open_cases (anchors : Option α) (reset : α → List UInt8 → Bool × σ) (fuel : ℕ)
    (host : Option (List UInt8)) (port : ℕ) (sniHost : Option (List UInt8))
    (outConn : Option (Option (Conn σ))) (base : Log σ) (r : ResultPtr) :
    let o := wmTlsOpen E os anchors reset fuel host port sniHost outConn base r
    (o.ret = some false ∧ SetupAfter base o.log) ∨
    ∃ c, AtHandshake reset base c ∧
      let hs := wmTlsHandshake E os fuel c none
      (hs.ret = some true ∧ o.ret = some true ∧ o.outConn = some (some hs.conn) ∧
        o.log = hs.conn.log) ∨
      (o.ret ≠ some true ∧ SetupAfter hs.conn.log o.log) := by
  intro o
  have hblock : SetupAfter base (base ++ [.heapAlloc true]) := .add _ rfl
  have hexit : OpenExit E os reset fuel base o := open_exit ..
  generalize o = o at hexit ⊢
  cases hexit with
  | rejected => exact .inl ⟨rfl, .refl _⟩
  | noBlock => exact .inl ⟨rfl, .add _ rfl⟩
  | notConnected h =>
    exact .inl ⟨rfl, (hblock.trans ⟨_, rfl, connect_setup h⟩).snoc rfl⟩
  | notSetUp h =>
    exact .inl ⟨rfl, (hblock.trans ⟨_, rfl, connect_setup h⟩).trans (disconnect_log _ _)⟩
  | shaking hc hat => exact .inr ⟨_, hat, .inr ⟨by simp, .refl _⟩⟩
  | failed hc hat => exact .inr ⟨_, hat, .inr ⟨by simp, disconnect_log _ _⟩⟩
  | opened hc hat hret => exact .inr ⟨_, hat, .inl ⟨hret, rfl, rfl, rfl⟩⟩

end Opening

end BearTLS
