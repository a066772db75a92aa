import BearTLS.Proofs.SslStart

/-! What the two applications of a session can rely on: the order and the completeness of
what is delivered, in every interleaving, and how a closure ends. -/

namespace BearTLS

section Records

variable {maxLen : ℕ} {rs done todo : List Plaintext} {notified : Bool}

theorem ordered_fits (htwo : 2 ≤ maxLen) (h : Ordered maxLen notified rs) :
    ∀ r ∈ rs, r.2.length ≤ maxLen := by
  obtain ⟨data, hdata, rfl⟩ := h
  intro r hr
  rcases List.mem_append.mp hr with hr | hr
  · exact (hdata r hr).2.2
  · cases notified with
    | false => exact absurd hr List.not_mem_nil
    | true =>
      obtain rfl := List.mem_singleton.mp hr
      exact htwo

theorem notify_not_data (maxLen : ℕ) : ¬ IsData maxLen closeNotify := by
  rintro ⟨htype, -, -⟩
  exact absurd htype (by decide)

/-- Nothing follows a `close_notify`. -/
theorem ordered_complete (hdone : Ordered maxLen true done)
    (h : Ordered maxLen notified (done ++ todo)) : notified = true ∧ todo = [] := by
  obtain ⟨data, -, rfl⟩ := hdone
  obtain ⟨data', hdata', heq⟩ := h
  cases notified with
  | false =>
    have hmem : closeNotify ∈ data' := by
      rw [← List.append_nil data']
      exact heq ▸ List.mem_append_left _ (List.mem_append_right _ List.mem_cons_self)
    exact absurd (hdata' _ hmem) (notify_not_data maxLen)
  | true =>
    refine ⟨rfl, ?_⟩
    rcases List.eq_nil_or_concat todo with rfl | ⟨init, last, rfl⟩
    · rfl
    · have hinit : data ++ [closeNotify] ++ init = data' := by
        rw [List.concat_eq_append, ← List.append_assoc] at heq
        exact (List.append_inj' heq rfl).1
      have hmem : closeNotify ∈ data' :=
        hinit ▸ List.mem_append_left _ (List.mem_append_right _ List.mem_cons_self)
      exact absurd (hdata' _ hmem) (notify_not_data maxLen)

end Records

section Flows

variable {κ ι : Type} {P : Protection κ ι} {maxLen room : ℕ} {rel : κ → ι → Prop}
  {x y : Phase κ ι} {gx gy : Stage} {wire injected taken : List UInt8} {closing : Bool}
  {done todo : List Plaintext} {c : κ}

/-- A record that has not come completely is not there completely. -/
theorem no_record_of_partly {heard : Bool} {i : Incoming} (hP : P.Suits maxLen room)
    (hfits : ∀ r ∈ todo, r.2.length ≤ maxLen) (hi : InFits heard i)
    (hbytes : i.partly = P.wires c todo) : todo = [] := by
  cases todo with
  | nil => rfl
  | cons r todo =>
    exfalso
    have hlen := hP.length_encode c r.1 r.2
    have hr := hfits r List.mem_cons_self
    have hfit := hP.fits
    have hsmall := hP.small
    simp only [Protection.wires, recordWire, List.append_assoc] at hbytes
    generalize (P.encode c r.1 r.2).2 = body at hbytes hlen
    cases i with
    | header got =>
      have hlt : got.length < 5 := hi.1
      have hfive := congrArg List.length hbytes
      simp only [Incoming.partly, recordHeader, List.length_append, List.length_cons,
        List.length_nil] at hfive
      omega
    | body type len got =>
      obtain ⟨hlt, hlen16, -⟩ := hi
      obtain ⟨-, rfl, hgot⟩ := record_header_inj hlen16 (by omega) hbytes
      have hfull := congrArg List.length hgot
      simp only [List.length_append] at hfull
      omega
    | plain type rest => exact absurd hbytes.symm (by simp [Incoming.partly, recordHeader])

theorem phase_no_record (hP : P.Suits maxLen room) (hfits : ∀ r ∈ todo, r.2.length ≤ maxLen)
    (hy : y.At maxLen gy) (hbytes : y.partly = P.wires c todo) : todo = [] := by
  cases y with
  | established b => exact no_record_of_partly hP hfits hy.inp hbytes
  | closed err =>
    have hnone : InFits true (.header []) := ⟨by decide, fun _ => rfl⟩
    exact no_record_of_partly hP hfits hnone hbytes
  | left => exact absurd hy id

/-- Once nothing is on its way, all records have been received. -/
theorem Flow.drained (hP : P.Suits maxLen room) (hy : y.At maxLen gy)
    (h : Flow P maxLen rel x y gx gy wire injected taken closing done todo c) (hwire : wire = [])
    (hpending : x.pending = []) : todo = [] ∧ gx.notified = gy.heard := by
  have hbytes := h.bytes
  rw [hwire, hpending, List.append_nil, List.append_nil] at hbytes
  have hfits : ∀ r ∈ todo, r.2.length ≤ maxLen := fun r hr =>
    ordered_fits hP.two_le h.ordered r (List.mem_append_right _ hr)
  obtain rfl := phase_no_record hP hfits hy hbytes
  refine ⟨rfl, ?_⟩
  have hordered := h.ordered
  rw [List.append_nil] at hordered
  cases hx : gx.notified with
  | false =>
    cases hheard : gy.heard with
    | false => rfl
    | true =>
      have hdone := h.done_ordered
      rw [hheard] at hdone
      exact absurd ((ordered_complete hdone h.ordered).1.symm.trans hx) (by decide)
  | true =>
    rw [hx] at hordered
    have hdone := h.done_ordered
    rw [← List.append_nil done] at hdone
    exact (ordered_complete hordered hdone).1.symm

end Flows

section Sessions

variable {κ ι : Type} {P : Protection κ ι} {maxLen room : ℕ} {rel : κ → ι → Prop}
  {m : Network (Phase κ ι)} {stages : Side → Stage} {t : Side}

theorem Session.prefix (h : Session P maxLen rel m stages) (t : Side) :
    m.taken t.other <+: m.injected t := by
  obtain ⟨done, todo, c, hflow⟩ := h.flow t
  rw [hflow.injected_eq, payloads_append, List.append_assoc]
  exact ((List.prefix_append _ _).trans hflow.taken_prefix).trans (List.prefix_append _ _)

/-- What an end that has not closed has received, where its peer is done. -/
theorem Session.finished (h : Session P maxLen rel m stages) (hfin : stages t = .finished)
    (hopen : m.closing t = false) :
    m.taken t = m.injected t.other ∧ m.wire t = [] ∧ (m.ends t.other).gathered = [] := by
  obtain ⟨done, todo, c, hflow⟩ := h.flow t.other
  rw [t.other_other] at hflow
  have hstage := h.stage t
  have hstage' := h.stage t.other
  rw [hfin] at hstage hflow
  obtain ⟨hnotified, rfl⟩ := ordered_complete hflow.done_ordered hflow.ordered
  have hnil : (m.ends t).partly = [] ∧ (m.ends t).readable = [] := by
    cases hx : m.ends t with
    | established a => exact absurd rfl (hx ▸ hstage).live
    | closed err => exact ⟨rfl, rfl⟩
    | left => exact ⟨rfl, rfl⟩
  have hgathered : (m.ends t.other).gathered = [] := by
    cases hx : m.ends t.other with
    | established a =>
      rw [hx] at hstage'
      cases ho : a.out with
      | gathering acc =>
        rcases (hstage'.gathering ho).2 with hg | ⟨-, rfl⟩
        · rw [hg] at hnotified
          exact absurd hnotified (by decide)
        · simp only [Phase.gathered, Endpoint.gathered, ho]
      | sending rest => simp only [Phase.gathered, Endpoint.gathered, ho]
    | closed err => rfl
    | left => rfl
  have htaken := hflow.taken_eq hopen
  rw [hnil.2, List.append_nil] at htaken
  refine ⟨?_, ?_, hgathered⟩
  · rw [htaken, hflow.injected_eq, hgathered, List.append_nil, List.append_nil]
  · have hbytes := congrArg List.length hflow.bytes
    simp only [List.length_append, Protection.wires, List.length_nil] at hbytes
    exact List.eq_nil_of_length_eq_zero (by omega)

/-- An end of a session that holds a payload back: it closes while the application has not
read all. -/
def Phase.Stuck (x : Phase κ ι) : Prop :=
  ∃ a type rest, x = .established a ∧ a.inp = .plain type rest

/-- How an end can be where nothing can be moved on. -/
theorem quiet_end (h : Session P maxLen rel m stages)
    (hq : m.Quiet (endpointEngine P maxLen room)) (t : Side) :
    (m.ends t).pending = [] ∧
      (stages t = .finished ∨
        (stages t = .opened ∨ stages t = .waiting) ∧ m.wire t = [] ∨
        stages t = .waiting ∧ (m.ends t).Stuck) := by
  have hstage := h.stage t
  have hsend := hq.sendrec t
  have hrecv := hq.recvapp t
  have hwire := hq.recvrec t
  cases hx : m.ends t with
  | established a =>
    rw [hx] at hstage hsend hrecv hwire
    have hpending : a.pending = [] := hsend
    refine ⟨hpending, .inr ?_⟩
    have hstages : stages t = .opened ∨ stages t = .waiting := by
      by_contra hne
      rw [not_or] at hne
      obtain ⟨rest, ho⟩ := hstage.sending hne.1 hne.2
      have hout := hstage.out
      rw [ho] at hout
      rw [Endpoint.pending, ho] at hpending
      exact hout hpending
    have hheard : (stages t).heard = false := by
      rcases hstages with hg | hg <;> rw [hg] <;> rfl
    have hinp := hstage.inp
    have hshut := hstage.shutdown
    rw [hheard] at hshut
    cases hi : a.inp with
    | plain type rest =>
      rw [hi] at hinp
      refine .inr ⟨hstages.resolve_left fun hg => ?_, a, type, rest, rfl, hi⟩
      have happ : ¬ a.app &&& 1 = 0 := by
        rw [hstage.app, hg]
        decide
      have hread : a.readable = [] := hrecv
      simp only [Endpoint.readable, if_neg happ, hi, if_pos hinp.1] at hread
      exact hinp.2.1 hread
    | header got =>
      rw [hi] at hinp
      refine .inl ⟨hstages, hwire.resolve_right fun hz => ?_⟩
      have hwanted : a.wanted = 0 := hz
      have hlt : got.length < 5 := hinp.1
      simp only [Endpoint.wanted, hshut, hi, Bool.false_eq_true, if_false] at hwanted
      omega
    | body type len got =>
      rw [hi] at hinp
      refine .inl ⟨hstages, hwire.resolve_right fun hz => ?_⟩
      have hwanted : a.wanted = 0 := hz
      have hlt : got.length < len := hinp.1
      simp only [Endpoint.wanted, hshut, hi, Bool.false_eq_true, if_false] at hwanted
      omega
  | closed err =>
    rw [hx] at hstage
    exact ⟨rfl, .inl hstage.2⟩
  | left =>
    rw [hx] at hstage
    exact absurd hstage id

/-- All that an end has put into records has been taken. -/
theorem Session.quiet_delivered (hP : P.Suits maxLen room) (h : Session P maxLen rel m stages)
    (hq : m.Quiet (endpointEngine P maxLen room)) (hopen : m.closing t.other = false) :
    m.injected t = m.taken t.other ++ (m.ends t).gathered := by
  rcases (quiet_end h hq t.other).2 with hfin | ⟨-, hwire⟩ | ⟨hw, -⟩
  · obtain ⟨heq, -, hgathered⟩ := h.finished hfin hopen
    rw [t.other_other] at heq hgathered
    rw [hgathered, List.append_nil, heq]
  · obtain ⟨done, todo, c, hflow⟩ := h.flow t
    obtain ⟨rfl, -⟩ := hflow.drained hP (h.stage t.other) hwire (quiet_end h hq t).1
    have htaken := hflow.taken_eq hopen
    have hread : (m.ends t.other).readable = [] := by
      have hrecv := hq.recvapp t.other
      cases hx : m.ends t.other with
      | established a =>
        rw [hx] at hrecv
        exact hrecv
      | closed err => rfl
      | left => rfl
    rw [hread, List.append_nil] at htaken
    rw [hflow.injected_eq, List.append_nil, htaken]
  · exact absurd (hopen.symm.trans (h.closes _ (.inr hw))) (by decide)

theorem flush_gathered (h : Session P maxLen rel m stages) (t : Side) :
    ((endpointEngine P maxLen room).call (m.ends t) .flush).gathered = [] := by
  have hstage := h.stage t
  cases hx : m.ends t with
  | established a =>
    rw [hx] at hstage
    show (if a.app &&& 1 ≠ 0 then a.flush P else a).gathered = []
    split_ifs with happ
    · exact flush_empties a
    · cases ho : a.out with
      | gathering acc =>
        rcases (hstage.gathering ho).2 with hg | ⟨-, rfl⟩
        · rw [hstage.app, hg] at happ
          exact absurd (by decide) happ
        · rw [Endpoint.gathered, ho]
      | sending rest => rw [Endpoint.gathered, ho]
  | closed err => rfl
  | left => rfl

/-- A closure ends with both ends closed, but for an end that has been closed too early. -/
theorem Session.quiet_closed (hP : P.Suits maxLen room) (h : Session P maxLen rel m stages)
    (hq : m.Quiet (endpointEngine P maxLen room)) (hclosing : m.closing t = true) (t' : Side) :
    stages t' = .finished ∨ stages t' = .waiting ∧ (m.ends t').Stuck := by
  -- An end whose peer has sent its `close_notify` has heard it, or holds something back.
  have hheard : ∀ t₁ : Side, (stages t₁.other).notified = true →
      stages t₁ = .finished ∨ stages t₁ = .waiting ∧ (m.ends t₁).Stuck := by
    intro t₁ hnotified
    rcases (quiet_end h hq t₁).2 with hfin | ⟨hstages, hwire⟩ | hstuck
    · exact .inl hfin
    · obtain ⟨done, todo, c, hflow⟩ := h.flow t₁.other
      rw [t₁.other_other] at hflow
      obtain ⟨-, heq⟩ := hflow.drained hP (h.stage t₁) hwire (quiet_end h hq t₁.other).1
      rw [hnotified] at heq
      rcases hstages with hg | hg <;> rw [hg] at heq <;> exact absurd heq (by decide)
    · exact .inr hstuck
  have hnotified : ∀ t₁ : Side, stages t₁ ≠ .opened → (stages t₁).notified = true := by
    intro t₁ hne
    rcases (quiet_end h hq t₁).2 with hg | ⟨hg | hg, -⟩ | ⟨hg, -⟩
    · rw [hg]
      rfl
    · exact absurd hg hne
    · rw [hg]
      rfl
    · rw [hg]
      rfl
  have hother := hheard t.other (by rw [t.other_other]; exact hnotified t (h.opened t hclosing))
  rcases t.eq_or t' with rfl | rfl
  · refine hheard t' (hnotified _ ?_)
    rcases hother with hg | ⟨hg, -⟩ <;> rw [hg] <;> decide
  · exact hother

theorem Quiet.endpoints_iff {σ τ : Type} {E : Engine σ} {F : Engine τ} {n : Network σ}
    {m : Network τ} (hview : ∀ t, E.SameView F (n.ends t) (m.ends t)) (hwire : n.wire = m.wire)
    (hq : n.Quiet E) : m.Quiet F := by
  rintro t c htransports ⟨hlegal, hprefix⟩
  exact hq t c htransports ⟨((hview t).legal_iff c).mpr hlegal, hwire ▸ hprefix⟩

end Sessions

section Stuck

variable {κ ι : Type} {P : Protection κ ι} {maxLen room : ℕ} {a : Endpoint κ ι} {g : Stage}

theorem close_flush_inp (a : Endpoint κ ι) :
    ∃ b, a.closeFlush P false = .established b ∧ b.inp = a.inp := by
  by_cases ho : a.out = .gathering []
  · exact ⟨_, close_flush_room ho false, rfl⟩
  · exact ⟨{ a with co := .closeFlush false }, if_neg ho, rfl⟩

theorem do_close_inp (a : Endpoint κ ι) :
    ∃ b, a.doClose P false = .established b ∧ b.inp = a.inp := by
  obtain ⟨b, hb, hinp⟩ := close_flush_inp (P := P)
    (Endpoint.flush P { a with app := if false then 0 else a.app <<< 1 })
  exact ⟨b, hb, hinp.trans (flush_inp _)⟩

/-- While it waits for its peer, the processor leaves what is held for the application. -/
theorem jump_inp (h : a.At maxLen g) (hheard : g.heard = false) (action : ℕ)
    (hopen : g = .opened → action = 1) :
    ∃ b, a.jump P action = .established b ∧ b.inp = a.inp := by
  have hin := h.input_nil
  have hco := h.co
  cases g with
  | opened =>
    rw [jump_nil hin]
    simp only [Endpoint.round, hco, Stage.co, Endpoint.mainLoop, hopen rfl, if_true]
    exact do_close_inp a
  | flushing =>
    rw [jump_close_flush hin hco]
    exact close_flush_inp a
  | waiting =>
    rw [jump_close_wait hin hco]
    refine ⟨{ a with co := .closeWait false }, ?_, rfl⟩
    simp only [Endpoint.closeWait, Bool.false_eq_true, false_and, if_false]
  | answering => exact absurd hheard (by decide)
  | answered => exact absurd hheard (by decide)
  | finished => exact absurd hheard (by decide)

/-- The same once its record is out. -/
theorem jump_drained (h : a.At maxLen g) (hheard : g.heard = false) (hg : g ≠ .opened) :
    ∃ b, Endpoint.jump P { a with out := .gathering [] } 0 = .established b ∧ b.inp = a.inp := by
  have hin : Endpoint.input { a with out := .gathering [] } = [] := h.input_nil
  have hco : Endpoint.co { a with out := .gathering [] } = g.co := h.co
  cases g with
  | opened => exact absurd rfl hg
  | flushing =>
    rw [jump_close_flush hin hco]
    exact close_flush_inp _
  | waiting =>
    rw [jump_close_wait hin hco]
    refine ⟨{ a with out := .gathering [], co := .closeWait false }, ?_, rfl⟩
    simp only [Endpoint.closeWait, Bool.false_eq_true, false_and, if_false]
  | answering => exact absurd hheard (by decide)
  | answered => exact absurd hheard (by decide)
  | finished => exact absurd hheard (by decide)

/-- An end that closes while it holds something back goes on holding it, whatever is called. -/
theorem held_back (h : a.At maxLen g) (hg : g ≠ .opened) {type : UInt8} {rest : List UInt8}
    (hi : a.inp = .plain type rest) {c : EngineCall}
    (hlegal : (endpointEngine P maxLen room).Legal (.established a) c) :
    ((endpointEngine P maxLen room).call (.established a) c).Stuck ∧
      (endpointEngine P maxLen room).taken (.established a) c = [] ∧ c.received = [] := by
  have hheard : g.heard = false := by
    have hinp := h.inp
    rw [hi] at hinp
    exact hinp.2.2
  have happ : a.app &&& 1 = 0 := by
    by_contra hne
    exact hg (h.opened hne)
  have hstuck : ∀ b : Endpoint κ ι, b.inp = a.inp → (Phase.established b).Stuck := fun b hb =>
    ⟨b, type, rest, rfl, hb.trans hi⟩
  cases c with
  | sendrec n =>
    refine ⟨?_, rfl, rfl⟩
    show (a.sent P n).Stuck
    cases ho : a.out with
    | gathering acc =>
      simp only [Endpoint.sent, ho]
      exact hstuck a rfl
    | sending rest' =>
      simp only [Endpoint.sent, ho]
      split_ifs
      · exact hstuck _ rfl
      · obtain ⟨b, hb, hinp⟩ := jump_drained (P := P) h hheard hg
        rw [hb]
        exact hstuck b hinp
      · exact hstuck _ rfl
  | recvrec data =>
    have hlen : data.length ≤ a.wanted := hlegal.2
    have hzero : a.wanted = 0 := by simp only [Endpoint.wanted, hi, ite_self]
    rw [hzero] at hlen
    exact absurd (List.eq_nil_of_length_eq_zero (Nat.le_zero.mp hlen)) hlegal.1
  | sendapp data =>
    have hlen : data.length ≤ a.acceptable maxLen := hlegal.2
    have hzero : a.acceptable maxLen = 0 := if_pos happ
    rw [hzero] at hlen
    exact absurd (List.eq_nil_of_length_eq_zero (Nat.le_zero.mp hlen)) hlegal.1
  | recvapp n =>
    have hlen : n ≤ a.readable.length := hlegal.2
    have hzero : a.readable = [] := readable_of_app happ
    rw [hzero] at hlen
    exact absurd (Nat.lt_of_lt_of_le hlegal.1 hlen) (Nat.lt_irrefl 0)
  | flush =>
    refine ⟨hstuck (if a.app &&& 1 ≠ 0 then a.flush P else a) ?_, rfl, rfl⟩
    split_ifs
    · exact flush_inp a
    · rfl
  | close =>
    refine ⟨?_, rfl, rfl⟩
    obtain ⟨b, hb, hinp⟩ := jump_inp (P := P) h hheard 1 fun _ => rfl
    show (a.jump P 1).Stuck
    rw [hb]
    exact hstuck b hinp

/-- The state bits of an end from which nothing can be done. -/
def EngineState.dead : EngineState := ⟨false, false, false, false, false⟩

theorem stuck_bits (h : a.At maxLen g) (hg : g ≠ .opened) {type : UInt8} {rest : List UInt8}
    (hi : a.inp = .plain type rest) :
    a.state.closed = false ∧ a.state.recvrec = false ∧ a.state.sendapp = false ∧
      a.state.recvapp = false := by
  have happ : a.app &&& 1 = 0 := by
    by_contra hne
    exact hg (h.opened hne)
  simp [Endpoint.state, hi, happ]

theorem stuck_state (h : a.At maxLen g) (hg : g ≠ .opened) {type : UInt8} {rest : List UInt8}
    (hi : a.inp = .plain type rest) (hpending : a.pending = []) : a.state = .dead := by
  obtain ⟨hclosed, hrecvrec, hsendapp, hrecvapp⟩ := stuck_bits h hg hi
  have hsendrec : a.state.sendrec = false := by
    have hout := h.out
    cases ho : a.out with
    | gathering acc => simp only [Endpoint.state, ho]
    | sending rest' =>
      rw [ho] at hout
      rw [Endpoint.pending, ho] at hpending
      exact absurd hpending hout
  cases hs : a.state with
  | mk closed sendrec recvrec sendapp recvapp =>
    simp only [hs] at hclosed hrecvrec hsendapp hrecvapp hsendrec
    subst hclosed hrecvrec hsendapp hrecvapp hsendrec
    rfl

end Stuck

section Sample

/-- A client that sends three bytes. -/
def sampleSends : List (Side × EngineCall) :=
  [(.client, .sendapp [1, 2, 3]), (.client, .flush), (.client, .sendrec 24)]

/-- Their record is received. -/
def sampleArrives : List (Side × EngineCall) :=
  [(.server, .recvrec [23, 3, 3, 0, 19]),
    (.server, .recvrec ([1, 3, 1] ++ List.replicate 16 3))]

/-- Then the client closes, and the server answers. -/
def sampleCloses : List (Side × EngineCall) :=
  [(.client, .close), (.client, .sendrec 23), (.server, .recvrec [21, 3, 3, 0, 18]),
    (.server, .recvrec ([1, 1] ++ List.replicate 16 2)), (.server, .sendrec 23),
    (.client, .recvrec [21, 3, 3, 0, 18]), (.client, .recvrec ([1, 1] ++ List.replicate 16 2))]

def sampleNetwork (cs : List (Side × EngineCall)) :
    Network (SslEngine sampleSuite.Ctx sampleSuite.Ctx) :=
  (sampleSuite.network (fun _ => .zero) sampleSuite.sampleContext).moves (sampleSuite.engine id) cs

def sampleDelivered : List (Side × EngineCall) :=
  sampleSends ++ sampleArrives ++ [(.server, .recvapp 3)]

end Sample

section Program

variable {u : Suite} {handshake : SslEngine u.Ctx u.Ctx → SslEngine u.Ctx u.Ctx}
  {rc : Side → SslEngine Unit Unit} {ctx : Side → u.Ctx} {n n' : Network (SslEngine u.Ctx u.Ctx)}
  {m : Network (Phase u.Ctx u.Ctx)} {stages : Side → Stage} {t : Side}

/-- What one application has taken out is what the other one has put in, up to some point. -/
theorem taken_prefix_injected (h : (u.network rc ctx).Reachable (u.engine handshake) n) (t : Side) :
    n.taken t.other <+: n.injected t := by
  obtain ⟨m, stages, hm⟩ := suite_reachable handshake h
  rw [hm.related.taken, hm.related.injected]
  exact hm.session.prefix t

theorem taken_prefix_injected_sample :
    let n := sampleNetwork (sampleSends ++ sampleArrives ++ [(.server, .recvapp 2)])
    n.taken .server = [1, 2] ∧ n.taken .server <+: n.injected .client :=
  ⟨by decide +kernel,
    taken_prefix_injected (Network.reachable_moves .start (by decide +kernel)) .client⟩

/-- Neither end fails. -/
theorem session_no_error (h : (u.network rc ctx).Reachable (u.engine handshake) n) (t : Side) :
    (u.engine handshake).lastError (n.ends t) = 0 := by
  obtain ⟨m, stages, hm⟩ := suite_reachable handshake h
  rw [(hm.view handshake t).lastError]
  have hstage := hm.session.stage t
  cases hx : m.ends t with
  | established a => rfl
  | closed err =>
    rw [hx] at hstage
    exact hstage.1
  | left => rfl

theorem session_no_error_sample :
    (sampleSuite.engine id).lastError ((sampleNetwork (sampleDelivered ++ sampleCloses)).ends .server)
      = 0 :=
  session_no_error (Network.reachable_moves .start (by decide +kernel)) .server

theorem finished_of_closed (hm : u.InSession n m stages)
    (hclosed : ((u.engine handshake).currentState (n.ends t)).closed = true) :
    stages t = .finished := by
  rw [(hm.view handshake t).currentState] at hclosed
  have hstage := hm.session.stage t
  cases hx : m.ends t with
  | established a =>
    rw [hx] at hclosed
    exact absurd hclosed Bool.false_ne_true
  | closed err =>
    rw [hx] at hstage
    exact hstage.2
  | left =>
    rw [hx] at hclosed
    exact absurd hclosed Bool.false_ne_true

/-- An application whose end was closed by the peer has got all that the peer has put in. -/
theorem closed_complete (h : (u.network rc ctx).Reachable (u.engine handshake) n)
    (hclosed : ((u.engine handshake).currentState (n.ends t)).closed = true)
    (hopen : n.closing t = false) : n.taken t = n.injected t.other ∧ n.wire t = [] := by
  obtain ⟨m, stages, hm⟩ := suite_reachable handshake h
  rw [hm.related.taken, hm.related.injected, hm.related.wire]
  rw [hm.related.closing] at hopen
  obtain ⟨htaken, hwire, -⟩ := hm.session.finished (finished_of_closed hm hclosed) hopen
  exact ⟨htaken, hwire⟩

theorem closed_complete_sample :
    let n := sampleNetwork (sampleDelivered ++ sampleCloses)
    n.taken .server = n.injected .client ∧ n.wire .server = [] :=
  closed_complete (t := .server) (Network.reachable_moves .start (by decide +kernel))
    (by decide +kernel) (by decide +kernel)

theorem endpoints_quiet (hm : u.InSession n m stages) (hq : n.Quiet (u.engine handshake)) :
    m.Quiet u.endpoints :=
  Quiet.endpoints_iff (fun t => hm.view handshake t) hm.related.wire hq

/-- Where nothing can be moved on and one end has been closed, both have, or one was closed
with data unread. -/
theorem quiet_closing_closed (h : (u.network rc ctx).Reachable (u.engine handshake) n)
    (hq : n.Quiet (u.engine handshake)) (hclosing : n.closing t = true) (t' : Side) :
    ((u.engine handshake).currentState (n.ends t')).closed = true ∨
      n.closing t' = true ∧ (u.engine handshake).currentState (n.ends t') = .dead := by
  obtain ⟨m, stages, hm⟩ := suite_reachable handshake h
  have hqm := endpoints_quiet hm hq
  rw [hm.related.closing] at hclosing ⊢
  rw [(hm.view handshake t').currentState]
  have hstage := hm.session.stage t'
  rcases hm.session.quiet_closed (suite_suits u) hqm hclosing t' with hfin | ⟨hwait, hstuck⟩
  · left
    rw [hfin] at hstage
    cases hx : m.ends t' with
    | established a => exact absurd rfl (hx ▸ hstage).live
    | closed err => rfl
    | left =>
      rw [hx] at hstage
      exact absurd hstage id
  · right
    refine ⟨hm.session.closes _ (.inr hwait), ?_⟩
    obtain ⟨a, type, rest, hx, hi⟩ := hstuck
    have hpending := (quiet_end hm.session hqm t').1
    rw [hx] at hstage hpending ⊢
    rw [hwait] at hstage
    exact stuck_state hstage (by decide) hi hpending

theorem quiet_closing_closed_sample :
    let n := sampleNetwork (sampleDelivered ++ sampleCloses)
    ((sampleSuite.engine id).currentState (n.ends .server)).closed = true ∨
      n.closing .server = true ∧
        (sampleSuite.engine id).currentState (n.ends .server) = .dead :=
  quiet_closing_closed (t := .client) (Network.reachable_moves .start (by decide +kernel))
    (Network.quiet_of_empty fun s => by cases s <;> decide +kernel) (by decide +kernel) .server

theorem transports_same {c : EngineCall} {E : Engine (SslEngine u.Ctx u.Ctx)}
    (htransports : c.transports = true) :
    (n.move E t c).injected = n.injected ∧ (n.move E t c).closing = n.closing := by
  have hclose : c ≠ .close := by
    rintro rfl
    exact absurd htransports Bool.false_ne_true
  simp only [Network.move, injected_of_transports htransports, List.append_nil,
    Function.update_eq_self, hclose, decide_false, Bool.or_false, and_self]

theorem transports_session (hm : u.InSession n m stages) {k : ℕ}
    (h : n.Transports (u.engine handshake) k n') :
    ∃ m' stages', u.InSession n' m' stages' ∧
      effort u.protection m' stages' + k ≤ effort u.protection m stages ∧
      (∀ t, (m'.ends t).gathered.length ≤ (m.ends t).gathered.length) ∧
      n'.injected = n.injected ∧ n'.closing = n.closing := by
  induction h with
  | start => exact ⟨m, stages, hm, Nat.le_refl _, fun t => Nat.le_refl _, rfl, rfl⟩
  | move t c _ htransports hmove ih =>
    obtain ⟨m₁, stages₁, hm₁, heffort, hgathered, hinjected, hclosing⟩ := ih
    obtain ⟨hcan, hrel⟩ := hm₁.move handshake hmove
    obtain ⟨stages₂, hsession, hless, hgathered'⟩ :=
      session_transport (suite_suits u) (suite_matched u) hm₁.session hcan htransports
    obtain ⟨hinjected', hclosing'⟩ := transports_same (t := t) (E := u.engine handshake) htransports
    have hless' : effort u.protection (m₁.move u.endpoints t c) stages₂ <
        effort u.protection m₁ stages₁ := hless
    refine ⟨_, stages₂, ⟨hrel, hsession⟩, by omega, fun t' => ?_, ?_, ?_⟩
    · exact (hgathered' t').trans (hgathered t')
    · exact hinjected'.trans hinjected
    · exact hclosing'.trans hclosing

/-- However bytes are moved on, there comes an end to it: no schedule of the transport can go
on for ever, and one that cannot go on has nothing left to move. -/
theorem transports_bounded (h : (u.network rc ctx).Reachable (u.engine handshake) n) :
    ∃ bound, (∀ k n', n.Transports (u.engine handshake) k n' → k ≤ bound) ∧
      ∃ k n', n.Transports (u.engine handshake) k n' ∧ n'.Quiet (u.engine handshake) := by
  obtain ⟨m, stages, hm⟩ := suite_reachable handshake h
  have hbound : ∀ k n', n.Transports (u.engine handshake) k n' →
      k ≤ effort u.protection m stages := by
    intro k n' hk
    obtain ⟨m', stages', -, heffort, -⟩ := transports_session hm hk
    omega
  refine ⟨_, hbound, ?_⟩
  by_contra hnone
  push Not at hnone
  have hgo : ∀ k, ∃ n', n.Transports (u.engine handshake) k n' := by
    intro k
    induction k with
    | zero => exact ⟨n, .start⟩
    | succ k ih =>
      obtain ⟨n', hk⟩ := ih
      have hloud := hnone k n' hk
      simp only [Network.Quiet] at hloud
      push Not at hloud
      obtain ⟨t, c, htransports, hmove⟩ := hloud
      exact ⟨_, .move t c hk htransports hmove⟩
  obtain ⟨n', hn'⟩ := hgo (effort u.protection m stages + 1)
  have := hbound _ n' hn'
  omega

theorem transports_bounded_sample :
    ∃ bound, (∀ k n', (sampleNetwork sampleSends).Transports (sampleSuite.engine id) k n' →
        k ≤ bound) ∧
      ∃ k n', (sampleNetwork sampleSends).Transports (sampleSuite.engine id) k n' ∧
        n'.Quiet (sampleSuite.engine id) :=
  transports_bounded (Network.reachable_moves .start (by decide +kernel))

/-- After a flush all that was put in is delivered, once nothing can be moved on. -/
theorem flushed_delivered (h : (u.network rc ctx).Reachable (u.engine handshake) n)
    (hopen : n.closing t.other = false) {k : ℕ}
    (hk : (n.move (u.engine handshake) t .flush).Transports (u.engine handshake) k n')
    (hq : n'.Quiet (u.engine handshake)) : n'.taken t.other = n.injected t := by
  obtain ⟨m, stages, hm⟩ := suite_reachable handshake h
  obtain ⟨hcan, hrel⟩ := hm.move handshake (c := .flush) (t := t) ⟨trivial, List.nil_prefix⟩
  obtain ⟨g', hsession, -⟩ := session_move (suite_suits u) (suite_matched u) hm.session hcan
  have hflushed : ((m.move u.endpoints t .flush).ends t).gathered = [] := by
    rw [(m.move_at u.endpoints t .flush).1]
    exact flush_gathered hm.session t
  obtain ⟨m', stages', hm', -, hgathered, hinjected, hclosing⟩ :=
    transports_session ⟨hrel, hsession⟩ hk
  have hnone : (m'.ends t).gathered = [] := by
    have hle := hgathered t
    rw [hflushed] at hle
    exact List.eq_nil_of_length_eq_zero (Nat.le_zero.mp hle)
  obtain ⟨-, -, -, -, hinj, -, -, -, -, hother⟩ := n.move_at (u.engine handshake) t .flush
  have hopen' : m'.closing t.other = false := by
    rw [← hm'.related.closing, hclosing, hother]
    exact hopen
  have heq := hm'.session.quiet_delivered (suite_suits u) (endpoints_quiet hm' hq) hopen'
  rw [hnone, List.append_nil, ← hm'.related.taken, ← hm'.related.injected, hinjected, hinj] at heq
  exact heq.symm.trans (List.append_nil _)

theorem flushed_delivered_sample :
    let n := sampleNetwork [(.client, .sendapp [1, 2, 3])]
    ((n.move (sampleSuite.engine id) .client .flush).moves (sampleSuite.engine id)
      ([(.client, .sendrec 24)] ++ sampleArrives ++ [(.server, .recvapp 3)])).taken .server =
        n.injected .client :=
  flushed_delivered (t := .client) (Network.reachable_moves .start (by decide +kernel))
    (by decide +kernel)
    (Network.transports_moves .start (by decide +kernel) (by decide +kernel))
    (Network.quiet_of_empty fun s => by cases s <;> decide +kernel)

/-- An end of a session that was closed while it held something back. -/
structure HeldAt (m : Network (Phase u.Ctx u.Ctx)) (t : Side) : Prop where
  closing : m.closing t = true
  stuck : (m.ends t).Stuck

theorem held_move (h : Session u.protection 16384 (fun c d : u.Ctx => c = d) m stages)
    (hheld : HeldAt m t) {t' : Side} {c : EngineCall} (hmove : m.CanMove u.endpoints t' c) :
    HeldAt (m.move u.endpoints t' c) t ∧ (m.move u.endpoints t' c).taken t = m.taken t ∧
      m.wire t <+: (m.move u.endpoints t' c).wire t := by
  obtain ⟨hends, hends', hwire, hwire', -, -, htaken, htaken', hclosing, hclosing'⟩ :=
    m.move_at u.endpoints t' c
  rcases t'.eq_or t with rfl | rfl
  · obtain ⟨a, type, rest, hx, hi⟩ := hheld.stuck
    have hat := h.stage t
    have hlegal := hmove.1
    rw [hx] at hat hlegal
    obtain ⟨hstuck, hnone, hreceived⟩ := held_back hat (h.opened t hheld.closing) hi hlegal
    have hnone' : u.endpoints.taken (.established a) c = [] := hnone
    refine ⟨⟨?_, ?_⟩, ?_, ?_⟩
    · rw [hclosing, hheld.closing, Bool.true_or]
    · rw [hends, hx]
      exact hstuck
    · rw [htaken, hx, hnone', List.append_nil]
    · rw [hwire, hreceived]
      exact List.prefix_refl _
  · refine ⟨⟨hclosing'.trans hheld.closing, ?_⟩, htaken', ?_⟩
    · rw [hends']
      exact hheld.stuck
    · rw [hwire']
      exact List.prefix_append _ _

theorem held_run (hm : u.InSession n m stages) (hheld : HeldAt m t)
    (hreach : n.Reachable (u.engine handshake) n') :
    ∃ m' stages', u.InSession n' m' stages' ∧ HeldAt m' t ∧ m'.taken t = m.taken t ∧
      m.wire t <+: m'.wire t := by
  induction hreach with
  | start => exact ⟨m, stages, hm, hheld, rfl, List.prefix_refl _⟩
  | move t' c _ hmove ih =>
    obtain ⟨m₁, stages₁, hm₁, hheld₁, htaken, hwire⟩ := ih
    obtain ⟨hcan, hrel⟩ := hm₁.move handshake hmove
    obtain ⟨g', hsession, -⟩ := session_move (suite_suits u) (suite_matched u) hm₁.session hcan
    obtain ⟨hheld₂, htaken₂, hwire₂⟩ := held_move hm₁.session hheld₁ hcan
    exact ⟨_, _, ⟨hrel, hsession⟩, hheld₂, htaken₂.trans htaken, hwire.trans hwire₂⟩

/-- An end that is closed while data is unread neither closes nor takes anything in any more:
what is on its way to it stays there. -/
theorem unread_close_stuck (h : (u.network rc ctx).Reachable (u.engine handshake) n)
    (hunread : (u.engine handshake).recvappBuf (n.ends t) ≠ [])
    (hreach : (n.move (u.engine handshake) t .close).Reachable (u.engine handshake) n') :
    ((u.engine handshake).currentState (n'.ends t)).closed = false ∧
      ((u.engine handshake).currentState (n'.ends t)).recvrec = false ∧
      ((u.engine handshake).currentState (n'.ends t)).recvapp = false ∧
      n'.taken t = n.taken t ∧ n.wire t <+: n'.wire t := by
  obtain ⟨m, stages, hm⟩ := suite_reachable handshake h
  obtain ⟨hcan, hrel⟩ := hm.move handshake (c := .close) (t := t) ⟨trivial, List.nil_prefix⟩
  obtain ⟨g', hsession, -⟩ := session_move (suite_suits u) (suite_matched u) hm.session hcan
  obtain ⟨hends, -, hwire, -, -, -, htaken, -, hclosing, -⟩ := m.move_at u.endpoints t .close
  rw [(hm.view handshake t).recvappBuf] at hunread
  have hstage := hm.session.stage t
  have hheld : HeldAt (m.move u.endpoints t .close) t := by
    refine ⟨by rw [hclosing]; exact Bool.or_true _, ?_⟩
    rw [hends]
    cases hx : m.ends t with
    | established a =>
      rw [hx] at hstage hunread
      have hread : a.readable ≠ [] := hunread
      obtain ⟨type, rest, hi⟩ : ∃ type rest, a.inp = .plain type rest := by
        by_contra hnone
        push Not at hnone
        exact hread (readable_of_not_plain hnone)
      have hheard : (stages t).heard = false := by
        have hinp := hstage.inp
        rw [hi] at hinp
        exact hinp.2.2
      obtain ⟨b, hb, hinp⟩ := jump_inp (P := u.protection) hstage hheard 1 fun _ => rfl
      exact ⟨b, type, rest, hb, hinp.trans hi⟩
    | closed err =>
      rw [hx] at hunread
      exact absurd rfl hunread
    | left =>
      rw [hx] at hunread
      exact absurd rfl hunread
  obtain ⟨m', stages', hm', hheld', htaken', hwire'⟩ := held_run ⟨hrel, hsession⟩ hheld hreach
  obtain ⟨a, type, rest, hx, hi⟩ := hheld'.stuck
  have hat := hm'.session.stage t
  rw [(hm'.view handshake t).currentState, hm'.related.taken, hm.related.taken,
    hm'.related.wire, hm.related.wire]
  rw [hx] at hat ⊢
  obtain ⟨hopen, hrecvrec, -, hrecvapp⟩ :=
    stuck_bits hat (hm'.session.opened t hheld'.closing) hi
  refine ⟨hopen, hrecvrec, hrecvapp, ?_, ?_⟩
  · rw [htaken', htaken]
    exact List.append_nil _
  · rw [hwire] at hwire'
    exact hwire'

/-- The server closes while the three bytes are unread; the client closes, too. -/
theorem unread_close_stuck_sample :
    let n := sampleNetwork (sampleSends ++ sampleArrives)
    let n' := (n.move (sampleSuite.engine id) .server .close).moves (sampleSuite.engine id)
      [(.client, .close), (.client, .sendrec 23), (.server, .sendrec 23)]
    ((sampleSuite.engine id).currentState (n'.ends .server)).closed = false ∧
      ((sampleSuite.engine id).currentState (n'.ends .server)).recvrec = false ∧
      ((sampleSuite.engine id).currentState (n'.ends .server)).recvapp = false ∧
      n'.taken .server = n.taken .server ∧ n.wire .server <+: n'.wire .server :=
  unread_close_stuck (Network.reachable_moves .start (by decide +kernel)) (by decide +kernel)
    (Network.reachable_moves .start (by decide +kernel))

end Program

end BearTLS
