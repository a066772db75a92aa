import BearTLS.Spec.SslSession

/-! What each call of an endpoint emits, stage by stage, and that it leaves what is received
as it is. -/

namespace BearTLS

section Records

variable {κ ι : Type} (P : Protection κ ι) {maxLen : ℕ}

theorem wires_append (c : κ) (rs ts : List Plaintext) :
    P.wires c (rs ++ ts) = P.wires c rs ++ P.wires (P.ctxAfter c rs) ts := by
  induction rs generalizing c with
  | nil => rfl
  | cons r rs ih =>
    simp only [List.cons_append, Protection.wires, ih, List.append_assoc, Protection.ctxAfter,
      List.foldl_cons]

theorem ctx_after_append (c : κ) (rs ts : List Plaintext) :
    P.ctxAfter c (rs ++ ts) = P.ctxAfter (P.ctxAfter c rs) ts := by
  simp only [Protection.ctxAfter, List.foldl_append]

theorem payloads_append (rs ts : List Plaintext) :
    payloads (rs ++ ts) = payloads rs ++ payloads ts := by
  simp only [payloads, List.flatMap_append]

theorem payloads_notify : payloads [closeNotify] = [] := by
  decide

theorem payloads_data (pt : List UInt8) : payloads [(BR_SSL_APPLICATION_DATA, pt)] = pt := by
  simp [payloads]

theorem ordered_nil : Ordered maxLen false [] := ⟨[], by simp, rfl⟩

theorem ordered_notify : Ordered maxLen true [closeNotify] := ⟨[], by simp, rfl⟩

theorem ordered_data {pt : List UInt8} (hne : pt ≠ []) (hle : pt.length ≤ maxLen) :
    Ordered maxLen false [(BR_SSL_APPLICATION_DATA, pt)] :=
  ⟨[_], by simpa [IsData] using ⟨hne, hle⟩, rfl⟩

theorem Ordered.append {rs ts : List Plaintext} {notified : Bool}
    (h : Ordered maxLen false rs) (ht : Ordered maxLen notified ts) :
    Ordered maxLen notified (rs ++ ts) := by
  obtain ⟨data, hdata, rfl⟩ := h
  obtain ⟨more, hmore, rfl⟩ := ht
  refine ⟨data ++ more, ?_, by simp⟩
  intro r hr
  rcases List.mem_append.mp hr with hr | hr
  · exact hdata r hr
  · exact hmore r hr

end Records

section Endpoints

variable {κ ι : Type} {P : Protection κ ι} {maxLen : ℕ} {a : Endpoint κ ι} {g : Stage}
  {rest acc : List UInt8}

theorem Endpoint.At.input_nil (h : a.At maxLen g) : a.input = [] := by
  have hin := h.inp
  simp only [Endpoint.input]
  cases hi : a.inp with
  | header got => rfl
  | body type len got => rfl
  | plain type rest =>
    rw [hi] at hin
    exact if_pos hin.1

theorem jump_nil (hin : a.input = []) (action : ℕ) : a.jump P action = a.round P action := by
  simp only [Endpoint.jump, hin, ne_eq, not_true_eq_false, false_and, if_false]
  cases a.round P action <;> rfl

theorem after_wait_nil (hin : a.input = []) (cnr : Bool) (next : Endpoint κ ι → Bool → Phase κ ι) :
    a.afterWait cnr next = next a cnr := by
  simp only [Endpoint.afterWait, hin, or_true, if_true]

theorem jump_close_flush {cnr : Bool} (hin : a.input = []) (hco : a.co = .closeFlush cnr)
    (action : ℕ) : a.jump P action = a.closeFlush P cnr := by
  rw [jump_nil hin]
  simp only [Endpoint.round, hco]
  exact after_wait_nil hin _ _

theorem jump_close_wait {cnr : Bool} (hin : a.input = []) (hco : a.co = .closeWait cnr)
    (action : ℕ) : a.jump P action = a.closeWait cnr := by
  rw [jump_nil hin]
  simp only [Endpoint.round, hco]
  exact after_wait_nil hin _ _

/-- Where there is room, the `close_notify` is sent. -/
theorem close_flush_room (ho : a.out = .gathering []) (cnr : Bool) :
    a.closeFlush P cnr = .established { a.sendNotify P with co := .closeWait cnr } := by
  have hne : (a.sendNotify P).out ≠ .gathering [] := by
    simp [Endpoint.sendNotify, Endpoint.closeRecord]
  simp only [Endpoint.closeFlush, if_pos ho, Endpoint.closeWait]
  rw [if_neg fun hc => hne hc.2]

theorem close_flush_full (ho : a.out = .sending rest) (cnr : Bool) :
    a.closeFlush P cnr = .established { a with co := .closeFlush cnr } := by
  have hne : a.out ≠ .gathering [] := by simp [ho]
  simp only [Endpoint.closeFlush, if_neg hne]

theorem close_record_pending (b : Endpoint κ ι) (pt : List UInt8) (hctx : b.outCtx = a.outCtx) :
    (b.closeRecord P pt).pending = P.wires a.outCtx [(b.typeOut, pt)] ∧
      (b.closeRecord P pt).outCtx = P.ctxAfter a.outCtx [(b.typeOut, pt)] ∧
      (b.closeRecord P pt).gathered = [] ∧
      ∃ rest, rest ≠ [] ∧ (b.closeRecord P pt).out = .sending rest := by
  refine ⟨?_, ?_, rfl, _, ?_, rfl⟩
  · simp only [Endpoint.closeRecord, Endpoint.pending, Protection.wires, List.append_nil, hctx]
  · simp only [Endpoint.closeRecord, Protection.ctxAfter, List.foldl_cons, List.foldl_nil, hctx]
  · simp [recordWire, recordHeader]

/-- The stage behind the `close_notify`. -/
def afterNotify (heard : Bool) : Stage := if heard then .answered else .waiting

theorem notified_at {b : Endpoint κ ι} {heard : Bool} (h : b.Receiving heard)
    (happ : b.app = (afterNotify heard).app) :
    Endpoint.At maxLen { b.sendNotify P with co := .closeWait heard } (afterNotify heard) := by
  obtain ⟨-, -, -, rest, hne, ho⟩ := close_record_pending (P := P) (a := b)
    { b with typeOut := BR_SSL_ALERT } [1, 0] rfl
  have hout : OutFits maxLen (afterNotify heard) (b.sendNotify P).out := by
    rw [Endpoint.sendNotify, ho]
    exact hne
  cases heard with
  | false => exact ⟨⟨h.alert, h.shutdown, h.inp⟩, by decide, happ, rfl, rfl, hout⟩
  | true => exact ⟨⟨h.alert, h.shutdown, h.inp⟩, by decide, happ, rfl, rfl, hout⟩

/-- The `close_notify` is emitted behind what was being sent. -/
theorem notify_emits {b : Endpoint κ ι} {heard : Bool} {sent injected : List UInt8}
    (h : b.Receiving heard) (happ : b.app = (afterNotify heard).app) (hctx : b.outCtx = a.outCtx)
    (hg : g.notified = false) (hsent : sent = a.pending) (hnone : a.gathered ++ injected = []) :
    Emits P maxLen a (.established { b.sendNotify P with co := .closeWait heard }) g
      (afterNotify heard) sent injected [closeNotify] := by
  obtain ⟨hpend, hctx', hgath, -⟩ := close_record_pending (P := P) (a := a)
    { b with typeOut := BR_SSL_ALERT } [1, 0] hctx
  refine ⟨notified_at h happ, ?_, ?_, ?_, ?_, ?_⟩
  · rw [hsent]
    exact congrArg (a.pending ++ ·) hpend
  · rintro b' ⟨rfl⟩
    exact hctx'
  · rw [payloads_notify, hnone]
    exact hgath
  · intro hc
    rw [hg] at hc
    cases hc
  · intro _
    cases heard <;> exact ordered_notify

/-- A record of application data is emitted. -/
theorem data_emits {b : Endpoint κ ι} (b' : Endpoint κ ι) {g' : Stage} {pt injected : List UInt8}
    (hat : b.At maxLen g') (hout : b.out = (b'.closeRecord P pt).out)
    (hctx : b.outCtx = (b'.closeRecord P pt).outCtx) (hsame : b'.outCtx = a.outCtx)
    (htype : b'.typeOut = BR_SSL_APPLICATION_DATA) (ho : a.out = .gathering acc)
    (hpt : acc ++ injected = pt) (hne : pt ≠ []) (hle : pt.length ≤ maxLen)
    (hg : g.notified = false) (hg' : g'.notified = false) :
    Emits P maxLen a (.established b) g g' [] injected [(BR_SSL_APPLICATION_DATA, pt)] := by
  obtain ⟨hpend, hctx', hgath, rest, -, hrest⟩ := close_record_pending (P := P) (a := a) b' pt hsame
  rw [htype] at hpend hctx'
  have hb : b.out = .sending rest := hout.trans hrest
  refine ⟨hat, ?_, ?_, ?_, ?_, ?_⟩
  · show [] ++ b.pending = a.pending ++ _
    rw [← hpend]
    simp only [Endpoint.pending, ho, hb, hrest]
  · rintro b'' ⟨rfl⟩
    exact hctx.trans hctx'
  · show payloads _ ++ b.gathered = a.gathered ++ injected
    simp only [payloads_data, Endpoint.gathered, ho, hb, List.append_nil, hpt]
  · intro hc
    rw [hg] at hc
    cases hc
  · intro _
    rw [hg']
    exact ordered_data hne hle

/-- No record is closed. -/
theorem nothing_emits {b : Endpoint κ ι} {g' : Stage} {sent injected : List UInt8}
    (hat : b.At maxLen g') (hctx : b.outCtx = a.outCtx) (hpend : sent ++ b.pending = a.pending)
    (hgath : b.gathered = a.gathered ++ injected) (hg : g'.notified = g.notified) :
    Emits P maxLen a (.established b) g g' sent injected [] := by
  refine ⟨hat, ?_, ?_, hgath, fun hn => ⟨rfl, hg.trans hn⟩, fun hn => ?_⟩
  · show sent ++ b.pending = a.pending ++ []
    rw [hpend, List.append_nil]
  · rintro b' ⟨rfl⟩
    exact hctx
  · rw [hg, hn]
    exact ordered_nil

/-- The stage of an end that sends or reads application data. -/
theorem Endpoint.At.opened (h : a.At maxLen g) (happ : a.app &&& 1 ≠ 0) : g = .opened := by
  rw [h.app] at happ
  cases g with
  | opened => rfl
  | flushing => exact absurd (by decide) happ
  | waiting => exact absurd (by decide) happ
  | answering => exact absurd (by decide) happ
  | answered => exact absurd (by decide) happ
  | finished => exact absurd (by decide) happ

/-- What sends, has no room. -/
theorem Endpoint.At.gathering (h : a.At maxLen g) (ho : a.out = .gathering acc) :
    acc.length < maxLen ∧ (g = .opened ∨ g = .waiting ∧ acc = []) := by
  have hout := h.out
  rw [ho] at hout
  exact hout

theorem Stage.follows_refl (g : Stage) : g.Follows g false := by
  cases g <;> decide

theorem keeps_of_same {b : Endpoint κ ι} {g' : Stage} (hfollows : g.Follows g' false)
    (hheard : g'.heard = g.heard)
    (hinp : b.inp = a.inp) (hctx : b.inCtx = a.inCtx) (happ : b.app = a.app) :
    Keeps a (.established b) g g' [] false := by
  refine ⟨hfollows, hheard, congrArg Incoming.partly hinp, ?_, .inl ?_⟩
  · rintro b' ⟨rfl⟩
    exact hctx
  · show [] ++ b.readable = a.readable
    simp only [Endpoint.readable, hinp, happ, List.nil_append]

theorem keeps_stage {b : Endpoint κ ι} (hinp : b.inp = a.inp) (hctx : b.inCtx = a.inCtx)
    (happ : b.app = a.app) : Keeps a (.established b) g g [] false :=
  keeps_of_same (Stage.follows_refl g) rfl hinp hctx happ

/-- `closeFlush` with room, from an end that has emitted all it was sending. -/
theorem close_flush_emits {b : Endpoint κ ι} {heard : Bool} {sent injected : List UInt8}
    (h : b.Receiving heard) (ho : b.out = .gathering []) (happ : b.app = (afterNotify heard).app)
    (hctx : b.outCtx = a.outCtx) (hg : g.notified = false) (hsent : sent = a.pending)
    (hnone : a.gathered ++ injected = []) :
    Emits P maxLen a (b.closeFlush P heard) g (afterNotify heard) sent injected [closeNotify] := by
  rw [close_flush_room ho]
  exact notify_emits h happ hctx hg hsent hnone

theorem drained_receiving (h : a.At maxLen g) :
    Endpoint.Receiving { a with out := .gathering [] } g.heard := ⟨h.alert, h.shutdown, h.inp⟩

theorem readable_of_app (happ : a.app &&& 1 = 0) : a.readable = [] := by
  simp only [Endpoint.readable, happ, if_true]

/-- An end that has heard its peer receives nothing. -/
theorem Endpoint.At.partly_nil (h : a.At maxLen g) (hheard : g.heard = true) :
    a.inp.partly = [] := by
  have hin := h.inp
  cases hi : a.inp with
  | header got =>
    rw [hi] at hin
    exact hin.2 hheard
  | body type len got =>
    rw [hi] at hin
    exact absurd (hheard.symm.trans hin.2.2) (by decide)
  | plain type rest => rfl

/-- The closure is complete. -/
theorem finish_emits (h : a.At maxLen .answered) (ho : a.out = .sending rest) :
    Emits P maxLen a (.closed 0) .answered .finished rest [] [] ∧
      Keeps a (.closed 0) .answered .finished [] false := by
  have happ : a.app &&& 1 = 0 := by
    rw [h.app]
    decide
  refine ⟨⟨⟨rfl, rfl⟩, ?_, by rintro b ⟨⟩, ?_, fun _ => ⟨rfl, rfl⟩, by rintro ⟨⟩⟩,
    ⟨by decide, rfl, (h.partly_nil rfl).symm, by rintro b ⟨⟩, .inl (readable_of_app happ).symm⟩⟩
  · simp [Phase.pending, Endpoint.pending, ho, Protection.wires]
  · simp [Phase.gathered, Endpoint.gathered, ho, payloads]

/-- An end has sent the last byte of a record. -/
theorem sent_last_emits (htwo : 2 ≤ maxLen) (h : a.At maxLen g) (ho : a.out = .sending rest) :
    ∃ g' new, Emits P maxLen a (a.sent P rest.length) g g' rest [] new ∧
      Keeps a (a.sent P rest.length) g g' [] false := by
  have hpend : rest = a.pending := by simp only [Endpoint.pending, ho]
  have hgath : a.gathered ++ [] = [] := by simp only [Endpoint.gathered, ho, List.append_nil]
  have hin : ({ a with out := .gathering [] } : Endpoint κ ι).input = [] := h.input_nil
  have hb := drained_receiving h
  simp only [Endpoint.sent, ho, Nat.lt_irrefl, if_false]
  cases g with
  | opened =>
    have hstay : ¬ (a.typeOut ≠ BR_SSL_APPLICATION_DATA ∨ a.app &&& 1 = 0) := by
      rw [h.typeOut, h.app]
      decide
    rw [if_neg hstay]
    refine ⟨.opened, [], nothing_emits ?_ rfl ?_ hgath.symm rfl, keeps_stage rfl rfl rfl⟩
    · exact { h with out := ⟨Nat.lt_of_lt_of_le (by decide) htwo, .inl rfl⟩ }
    · exact (List.append_nil rest).trans hpend
  | flushing =>
    rw [if_pos (.inr (by rw [h.app]; decide)), jump_close_flush hin h.co]
    refine ⟨.waiting, _, close_flush_emits hb rfl h.app rfl rfl hpend hgath, ?_⟩
    rw [close_flush_room rfl]
    exact keeps_of_same (by decide) rfl rfl rfl rfl
  | waiting =>
    rw [if_pos (.inr (by rw [h.app]; decide)), jump_close_wait hin h.co]
    simp only [Endpoint.closeWait, Bool.false_eq_true, false_and, if_false]
    refine ⟨.waiting, [], nothing_emits ?_ rfl ?_ hgath.symm rfl, keeps_stage rfl rfl rfl⟩
    · exact { h with
        co := rfl
        out := ⟨Nat.lt_of_lt_of_le (by decide) htwo, .inr ⟨rfl, rfl⟩⟩ }
    · exact (List.append_nil rest).trans hpend
  | answering =>
    rw [if_pos (.inr (by rw [h.app]; decide)), jump_close_flush hin h.co]
    refine ⟨.answered, _, close_flush_emits hb rfl h.app rfl rfl hpend hgath, ?_⟩
    rw [close_flush_room rfl]
    exact keeps_of_same (by decide) rfl rfl rfl rfl
  | answered =>
    rw [if_pos (.inr (by rw [h.app]; decide)), jump_close_wait hin h.co]
    simp only [Endpoint.closeWait, and_self, if_true]
    exact ⟨.finished, [], finish_emits h ho⟩
  | finished => exact absurd rfl h.live

/-- `br_ssl_engine_sendrec_ack`. -/
theorem sent_emits (htwo : 2 ≤ maxLen) (h : a.At maxLen g) {n : ℕ} (hpos : 0 < n)
    (hn : n ≤ a.pending.length) :
    ∃ g' new, Emits P maxLen a (a.sent P n) g g' (a.pending.take n) [] new ∧
      Keeps a (a.sent P n) g g' [] false := by
  cases ho : a.out with
  | gathering acc =>
    simp only [Endpoint.pending, ho, List.length_nil] at hn
    omega
  | sending rest =>
    simp only [Endpoint.pending, ho] at hn ⊢
    rcases Nat.lt_or_ge n rest.length with hlt | hge
    · simp only [Endpoint.sent, ho, if_pos hlt]
      have hne : rest.drop n ≠ [] := by simpa using hlt
      refine ⟨g, [], nothing_emits { h with out := hne } rfl ?_ ?_ rfl,
        keeps_stage rfl rfl rfl⟩
      · simp only [Endpoint.pending, ho, List.take_append_drop]
      · simp only [Endpoint.gathered, ho, List.append_nil]
    · have hlen : n = rest.length := Nat.le_antisymm hn hge
      rw [hlen, List.take_length]
      exact sent_last_emits htwo h ho

theorem closed_at {b : Endpoint κ ι} (h : b.Receiving g.heard) (hlive : g ≠ .finished)
    (happ : b.app = g.app) (hco : b.co = g.co)
    (htype : b.typeOut = if g.notified then BR_SSL_ALERT else BR_SSL_APPLICATION_DATA)
    (hne : rest ≠ []) (ho : b.out = .sending rest) : b.At maxLen g :=
  { h with
    live := hlive
    app := happ
    co := hco
    typeOut := htype
    out := by rw [ho]; exact hne }

/-- `br_ssl_engine_sendapp_ack`. -/
theorem gather_emits (h : a.At maxLen g) {data : List UInt8} (hne : data ≠ [])
    (hle : data.length ≤ a.acceptable maxLen) :
    ∃ g' new, Emits P maxLen a (.established (a.gather P maxLen data)) g g' [] data new ∧
      Keeps a (.established (a.gather P maxLen data)) g g' [] false := by
  have hpos := List.length_pos_of_ne_nil hne
  have happ : a.app &&& 1 ≠ 0 := by
    intro happ
    simp only [Endpoint.acceptable, happ, if_true] at hle
    omega
  obtain rfl := h.opened happ
  simp only [Endpoint.acceptable, if_neg happ] at hle
  cases ho : a.out with
  | sending rest =>
    simp only [ho] at hle
    omega
  | gathering acc =>
    simp only [ho] at hle
    have hlt := (h.gathering ho).1
    have hlen : (acc ++ data).length = acc.length + data.length := List.length_append
    have hne' : acc ++ data ≠ [] := by simp [hne]
    simp only [Endpoint.gather, ho, ge_iff_le]
    split_ifs with hfull
    · obtain ⟨-, -, -, rest, hrest, hout⟩ := close_record_pending (P := P) (a := a) a (acc ++ data) rfl
      refine ⟨.opened, _, data_emits a ?_ rfl rfl rfl h.typeOut ho rfl hne' (by omega) rfl rfl,
        keeps_stage rfl rfl rfl⟩
      exact closed_at { h with } (by decide) h.app h.co h.typeOut hrest hout
    · refine ⟨.opened, [], nothing_emits ?_ rfl ?_ ?_ rfl, keeps_stage rfl rfl rfl⟩
      · exact { h with out := ⟨Nat.lt_of_not_le hfull, .inl rfl⟩ }
      · simp only [Endpoint.pending, ho, List.append_nil]
      · simp only [Endpoint.gathered, ho]

/-- A flush leaves nothing gathered. -/
theorem flush_empties (a : Endpoint κ ι) : (a.flush P).gathered = [] := by
  cases ho : a.out with
  | gathering acc =>
    simp only [Endpoint.flush, ho]
    split_ifs with hacc
    · simp only [Endpoint.gathered, ho, hacc]
    · rfl
  | sending rest => simp only [Endpoint.flush, ho, Endpoint.gathered]

theorem flush_emits (h : a.At maxLen .opened) :
    ∃ new, Emits P maxLen a (.established (a.flush P)) .opened .opened [] [] new ∧
      Keeps a (.established (a.flush P)) .opened .opened [] false := by
  cases ho : a.out with
  | sending rest =>
    simp only [Endpoint.flush, ho]
    exact ⟨[], nothing_emits h rfl rfl (List.append_nil _).symm rfl, keeps_stage rfl rfl rfl⟩
  | gathering acc =>
    have hlt := (h.gathering ho).1
    simp only [Endpoint.flush, ho]
    split_ifs with hacc
    · exact ⟨[], nothing_emits h rfl rfl (List.append_nil _).symm rfl, keeps_stage rfl rfl rfl⟩
    · obtain ⟨-, -, -, rest, hrest, hout⟩ := close_record_pending (P := P) (a := a) a acc rfl
      refine ⟨_, data_emits a ?_ rfl rfl rfl h.typeOut ho (List.append_nil _) hacc
        (Nat.le_of_lt hlt) rfl rfl, keeps_stage rfl rfl rfl⟩
      exact closed_at { h with } (by decide) h.app h.co h.typeOut hrest hout

@[simp] theorem consume_readable (a : Endpoint κ ι) : a.consume.readable = [] := by
  simp only [Endpoint.readable]
  split_ifs <;> rfl

/-- `br_ssl_engine_recvapp_ack`. -/
theorem take_emits (h : a.At maxLen g) {n : ℕ} (hpos : 0 < n) (hn : n ≤ a.readable.length) :
    Emits P maxLen a (.established (a.take n)) g g [] [] [] ∧
      Keeps a (.established (a.take n)) g g (a.readable.take n) false := by
  have hin := h.inp
  have happ : a.app &&& 1 ≠ 0 := by
    intro happ
    rw [readable_of_app happ, List.length_nil] at hn
    omega
  obtain rfl := h.opened happ
  cases hi : a.inp with
  | header got =>
    simp only [Endpoint.readable, hi, ite_self, List.length_nil] at hn
    omega
  | body type len got =>
    simp only [Endpoint.readable, hi, ite_self, List.length_nil] at hn
    omega
  | plain type rest =>
    rw [hi] at hin
    obtain ⟨rfl, hrest, -⟩ := hin
    have hread : a.readable = rest := by
      simp only [Endpoint.readable, if_neg happ, hi, if_true]
    simp only [hread, Endpoint.take, hi]
    split_ifs with hall
    · have hnew : Endpoint.At maxLen a.consume .opened :=
        { h with inp := ⟨by decide, fun _ => rfl⟩ }
      refine ⟨nothing_emits hnew rfl rfl (List.append_nil _).symm rfl, 
        ⟨Stage.follows_refl _, rfl, ?_, ?_, .inl ?_⟩⟩
      · rw [hi]
        rfl
      · rintro b ⟨rfl⟩
        rfl
      · rw [hread, List.take_of_length_le hall]
        show rest ++ a.consume.readable = rest
        rw [consume_readable, List.append_nil]
    · have hnew : Endpoint.At maxLen
          { a with inp := .plain BR_SSL_APPLICATION_DATA (rest.drop n) } .opened :=
        { h with inp := ⟨rfl, by simpa using hall, rfl⟩ }
      refine ⟨nothing_emits hnew rfl rfl (List.append_nil _).symm rfl, 
        ⟨Stage.follows_refl _, rfl, ?_, ?_, .inl ?_⟩⟩
      · rw [hi]
        rfl
      · rintro b ⟨rfl⟩
        rfl
      · rw [hread]
        simp only [Phase.readable, Endpoint.readable, if_neg happ, if_true]
        exact List.take_append_drop n rest

/-- The stage in front of the `close_notify`. -/
def beforeNotify (heard : Bool) : Stage := if heard then .answering else .flushing

/-- `do-close` of an open end, for its own closure or for that of its peer. -/
theorem do_close_emits {b : Endpoint κ ι} {heard : Bool} (h : a.At maxLen .opened)
    (hb : b.Receiving heard) (hout : b.out = a.out) (hctx : b.outCtx = a.outCtx)
    (happ : b.app = 1) (htype : b.typeOut = BR_SSL_APPLICATION_DATA) :
    ∃ g' new b', b.doClose P heard = .established b' ∧
      Emits P maxLen a (.established b') .opened g' [] [] new ∧
      (g' = beforeNotify heard ∨ g' = afterNotify heard) ∧ b'.inp = b.inp ∧ b'.inCtx = b.inCtx := by
  obtain ⟨b₁, hb₁⟩ : ∃ b₁ : Endpoint κ ι,
      b₁ = { b with app := if heard then 0 else b.app <<< 1 } := ⟨_, rfl⟩
  have hr : b₁.Receiving heard := by
    rw [hb₁]
    exact { hb with }
  have happ₁ : b₁.app = (afterNotify heard).app ∧ b₁.app = (beforeNotify heard).app := by
    rw [hb₁, happ]
    cases heard <;> exact ⟨rfl, rfl⟩
  have hlive : beforeNotify heard ≠ .finished := by cases heard <;> decide
  have hrecv : b₁.inp = b.inp ∧ b₁.inCtx = b.inCtx ∧ b₁.outCtx = a.outCtx ∧ b₁.out = a.out ∧
      b₁.typeOut = BR_SSL_APPLICATION_DATA := by
    rw [hb₁]
    exact ⟨rfl, rfl, hctx, hout, htype⟩
  have hdo : b.doClose P heard = (b₁.flush P).closeFlush P heard := by rw [hb₁, Endpoint.doClose]
  clear hb₁
  obtain ⟨hinp, hin, hctx₁, hout₁, htype₁⟩ := hrecv
  rw [hdo]
  cases ho : a.out with
  | gathering acc =>
    have hgath : a.gathered = acc := by simp only [Endpoint.gathered, ho]
    have hpend : [] = a.pending := by simp only [Endpoint.pending, ho]
    rw [ho] at hout₁
    by_cases hacc : acc = []
    · subst hacc
      have hsame : b₁.flush P = b₁ := by simp only [Endpoint.flush, hout₁, if_true]
      rw [hsame, close_flush_room hout₁]
      refine ⟨afterNotify heard, [closeNotify], _, rfl, ?_, .inr rfl, hinp, hin⟩
      exact notify_emits hr happ₁.1 hctx₁ rfl hpend (by rw [hgath]; rfl)
    · obtain ⟨-, -, -, rest, hrest, hsend⟩ := close_record_pending (P := P) (a := b₁) b₁ acc rfl
      have hclose : b₁.flush P = b₁.closeRecord P acc := by
        simp only [Endpoint.flush, hout₁, if_neg hacc]
      rw [hclose, close_flush_full hsend]
      refine ⟨beforeNotify heard, [(BR_SSL_APPLICATION_DATA, acc)], _, rfl, ?_, .inl rfl, hinp, hin⟩
      have hle := Nat.le_of_lt (h.gathering ho).1
      refine data_emits b₁ ?_ rfl rfl hctx₁ htype₁ ho (List.append_nil _) hacc hle rfl ?_
      · cases heard <;> exact closed_at { hr with } hlive happ₁.2 rfl htype₁ hrest hsend
      · cases heard <;> rfl
  | sending rest =>
    have hrest : rest ≠ [] := by
      have hfits := h.out
      rwa [ho] at hfits
    rw [ho] at hout₁
    have hsame : b₁.flush P = b₁ := by simp only [Endpoint.flush, hout₁]
    rw [hsame, close_flush_full hout₁]
    refine ⟨beforeNotify heard, [], _, rfl, ?_, .inl rfl, hinp, hin⟩
    refine nothing_emits ?_ hctx₁ ?_ ?_ ?_
    · cases heard <;> exact closed_at { hr with } hlive happ₁.2 rfl htype₁ hrest hout₁
    · simp only [Endpoint.pending, ho, hout₁, List.nil_append]
    · simp only [Endpoint.gathered, ho, hout₁, List.append_nil]
    · cases heard <;> rfl

theorem Endpoint.At.sending (h : a.At maxLen g) (ho : g ≠ .opened) (hw : g ≠ .waiting) :
    ∃ rest, a.out = .sending rest := by
  cases hout : a.out with
  | gathering acc =>
    rcases (h.gathering hout).2 with rfl | ⟨rfl, -⟩
    · exact absurd rfl ho
    · exact absurd rfl hw
  | sending rest => exact ⟨rest, rfl⟩

theorem same_co {c : CoPoint} (hco : a.co = c) :
    Phase.established { a with co := c } = .established a := by
  subst hco
  rfl

/-- An end that is closing has nothing to do in a round without input. -/
theorem jump_rest (h : a.At maxLen g) (hg : g ≠ .opened) (action : ℕ) :
    a.jump P action = .established a := by
  cases g with
  | opened => exact absurd rfl hg
  | flushing =>
    obtain ⟨rest, ho⟩ := h.sending (by decide) (by decide)
    rw [jump_close_flush h.input_nil h.co, close_flush_full ho]
    exact same_co h.co
  | waiting =>
    rw [jump_close_wait h.input_nil h.co, Endpoint.closeWait, if_neg (by simp)]
    exact same_co h.co
  | answering =>
    obtain ⟨rest, ho⟩ := h.sending (by decide) (by decide)
    rw [jump_close_flush h.input_nil h.co, close_flush_full ho]
    exact same_co h.co
  | answered =>
    obtain ⟨rest, ho⟩ := h.sending (by decide) (by decide)
    rw [jump_close_wait h.input_nil h.co, Endpoint.closeWait, if_neg (by simp [ho])]
    exact same_co h.co
  | finished => exact absurd rfl h.live

/-- `br_ssl_engine_close`. -/
theorem close_emits (h : a.At maxLen g) :
    ∃ g' new, Emits P maxLen a (a.jump P 1) g g' [] [] new ∧
      Keeps a (a.jump P 1) g g' [] true := by
  by_cases hg : g = .opened
  · subst hg
    have hr : a.Receiving false := h.toReceiving
    obtain ⟨g', new, b, hdo, hemits, hstage, hinp, hin⟩ :=
      do_close_emits (P := P) h hr rfl rfl h.app h.typeOut
    have hjump : a.jump P 1 = .established b := by
      rw [jump_nil h.input_nil]
      simp only [Endpoint.round, h.co, Stage.co, Endpoint.mainLoop, if_true, hdo]
    rw [hjump]
    refine ⟨g', new, hemits, ⟨?_, ?_, ?_, ?_, .inr ⟨rfl, rfl, ?_⟩⟩⟩
    · rcases hstage with rfl | rfl <;> decide
    · rcases hstage with rfl | rfl <;> rfl
    · show b.inp.partly = a.inp.partly
      rw [hinp]
    · rintro b' ⟨rfl⟩
      exact hin
    · have happ : b.app &&& 1 = 0 := by
        rw [hemits.stage.app]
        rcases hstage with rfl | rfl <;> decide
      exact readable_of_app happ
  · rw [jump_rest h hg]
    refine ⟨g, [], nothing_emits h rfl rfl (List.append_nil _).symm rfl,
      ⟨?_, rfl, rfl, ?_, .inl rfl⟩⟩
    · exact ⟨fun _ => .inl rfl, fun hc => absurd hc hg⟩
    · rintro b ⟨rfl⟩
      rfl

end Endpoints

end BearTLS
