import BearTLS.Proofs.SslSession

/-! What an endpoint makes of the records that its peer has sealed. -/

namespace BearTLS

section Headers

theorem word_bytes (n : ℕ) (hn : n < 65536) :
    ((((n.toUInt16 >>> 8).toUInt8.toUInt16 <<< 8) ||| n.toUInt16.toUInt8.toUInt16) : UInt16).toNat
      = n := by
  have hx : n.toUInt16.toNat = n := by simpa using Nat.mod_eq_of_lt hn
  have hhi : ((n.toUInt16 >>> 8).toUInt8.toUInt16 <<< 8).toNat = (n / 256) <<< 8 := by
    have hsmall : n / 256 < 256 := by omega
    simp [hx, Nat.shiftRight_eq_div_pow, Nat.shiftLeft_eq]
    omega
  have hlo : n.toUInt16.toUInt8.toUInt16.toNat = n % 256 := by
    simp
  rw [UInt16.toNat_or, hhi, hlo, ← Nat.shiftLeft_add_eq_or_of_lt (by omega), Nat.shiftLeft_eq]
  omega

theorem tls12_bytes : (((3 : UInt8).toUInt16 <<< 8) ||| (3 : UInt8).toUInt16) = BR_TLS12 := by
  decide

theorem record_header_inj {t t' : UInt8} {n n' : ℕ} {xs ys : List UInt8} (hn : n < 65536)
    (hn' : n' < 65536) (h : recordHeader t n ++ xs = recordHeader t' n' ++ ys) :
    t = t' ∧ n = n' ∧ xs = ys := by
  simp only [recordHeader, List.cons_append, List.nil_append, List.cons.injEq, true_and] at h
  obtain ⟨ht, hhi, hlo, hrest⟩ := h
  refine ⟨ht, ?_, hrest⟩
  rw [← word_bytes n hn, ← word_bytes n' hn', hhi, hlo]

end Headers

section Order

variable {maxLen : ℕ} {done todo : List Plaintext} {r : Plaintext} {notified : Bool}

theorem ordered_snoc (hdone : Ordered maxLen false done) (hr : IsData maxLen r) :
    Ordered maxLen false (done ++ [r]) :=
  hdone.append ⟨[r], by simpa using hr, rfl⟩

/-- The next record is application data, or the `close_notify` and the last one. -/
theorem Ordered.next (h : Ordered maxLen notified (done ++ r :: todo))
    (hdone : Ordered maxLen false done) :
    (IsData maxLen r ∧ Ordered maxLen false (done ++ [r])) ∨
      (r = closeNotify ∧ todo = [] ∧ Ordered maxLen true (done ++ [r])) := by
  obtain ⟨data, hdata, heq⟩ := h
  cases notified with
  | false =>
    left
    have hr : r ∈ data := by
      rw [← List.append_nil data]
      exact heq ▸ List.mem_append_right _ List.mem_cons_self
    exact ⟨hdata r hr, ordered_snoc hdone (hdata r hr)⟩
  | true =>
    rcases List.eq_nil_or_concat todo with rfl | ⟨init, last, rfl⟩
    · right
      obtain ⟨rfl, hlast⟩ := List.append_inj' heq rfl
      obtain rfl := List.cons.inj hlast |>.1
      exact ⟨rfl, rfl, hdone.append ordered_notify⟩
    · left
      have hinit : done ++ r :: init = data := by
        rw [List.concat_eq_append, ← List.cons_append, ← List.append_assoc] at heq
        exact (List.append_inj' heq rfl).1
      have hr : r ∈ data := hinit ▸ List.mem_append_right _ List.mem_cons_self
      exact ⟨hdata r hr, ordered_snoc hdone (hdata r hr)⟩

end Order

section Receive

variable {κ ι : Type} {P : Protection κ ι} {maxLen room : ℕ} {rel : κ → ι → Prop}
  {a : Endpoint κ ι} {g : Stage} {c : κ} {done todo : List Plaintext} {r : Plaintext}
  {data rest : List UInt8}

theorem cut_append {xs ys us vs : List UInt8} (h : xs ++ ys = us ++ vs)
    (hle : xs.length ≤ us.length) : ∃ k, us = xs ++ k ∧ ys = k ++ vs := by
  obtain ⟨k, rfl⟩ := List.prefix_of_prefix_length_le ⟨ys, h⟩ ⟨vs, rfl⟩ hle
  refine ⟨k, rfl, ?_⟩
  rw [List.append_assoc] at h
  exact List.append_cancel_left h

/-- A record that an end sends. -/
theorem fits_of_next (hP : P.Suits maxLen room)
    (hr : IsData maxLen r ∨ r = closeNotify) : r.2 ≠ [] ∧ r.2.length ≤ maxLen := by
  rcases hr with hr | rfl
  · exact hr.2
  · exact ⟨by decide, hP.two_le⟩

/-- The bytes received so far are those of the next record. -/
theorem next_of_bytes (hbytes : a.inp.partly ++ data ++ rest = P.wires c todo) (hne : data ≠ []) :
    ∃ r todo', todo = r :: todo' := by
  cases todo with
  | nil =>
    have hnil := congrArg List.length hbytes
    have hpos := List.length_pos_of_ne_nil hne
    simp only [Protection.wires, List.length_append, List.length_nil] at hnil
    omega
  | cons r todo' => exact ⟨r, todo', rfl⟩

/-- Bytes of a record that is still not complete, or the last ones of it. -/
theorem absorb_next (hP : P.Suits maxLen room) (hM : P.Matched maxLen rel)
    (h : a.At maxLen g) (hheard : g.heard = false) (hrel : rel c a.inCtx)
    (hr : r.2 ≠ [] ∧ r.2.length ≤ maxLen) (hne : data ≠ []) (hle : data.length ≤ a.wanted)
    (hbytes : a.inp.partly ++ data ++ rest = P.wires c (r :: todo)) :
    (∃ i, a.absorb P room data = .established { a with inp := i } ∧ InFits false i ∧
      i.partly = a.inp.partly ++ data ∧ ∀ type rest, i ≠ .plain type rest) ∨
    ∃ d, a.absorb P room data =
        .established { a with inp := .plain r.1 r.2, inCtx := d } ∧
      rel (P.encode c r.1 r.2).1 d ∧ rest = P.wires (P.encode c r.1 r.2).1 todo := by
  have hin := h.inp
  have hlen := hP.length_encode c r.1 r.2
  have hfits := hP.fits
  have hsmall := hP.small
  have hpos := List.length_pos_of_ne_nil hr.1
  have hdata := List.length_pos_of_ne_nil hne
  have hshut : a.shutdown = false := h.shutdown.trans hheard
  simp only [Protection.wires, recordWire, List.append_assoc] at hbytes
  generalize hbody : (P.encode c r.1 r.2).2 = body at hbytes hlen
  cases hi : a.inp with
  | header got =>
    rw [hi] at hin hbytes
    simp only [Endpoint.wanted, hi, hshut, Bool.false_eq_true, if_false] at hle
    have hlt : got.length < 5 := hin.1
    have hcat : (got ++ data).length = got.length + data.length := List.length_append
    have hbytes' : (got ++ data) ++ rest =
        recordHeader r.1 body.length ++ (body ++ P.wires (P.encode c r.1 r.2).1 todo) := by
      rw [List.append_assoc]
      exact hbytes
    have hfive : (recordHeader r.1 body.length).length = 5 := rfl
    obtain ⟨k, hheader, hrest⟩ := cut_append hbytes' (by omega)
    left
    simp only [Endpoint.absorb, hi]
    by_cases hfull : got.length + data.length = 5
    · have hk : k = [] := by
        have hlen5 := congrArg List.length hheader
        rw [List.length_append, hcat, hfull] at hlen5
        exact List.eq_nil_of_length_eq_zero (by
          simp only [recordHeader, List.length_cons, List.length_nil] at hlen5
          omega)
      rw [hk, List.append_nil] at hheader
      have hok := hM.lengthOk c a.inCtx r.1 r.2 hrel hr.2
      rw [hbody] at hok
      refine ⟨.body r.1 body.length [], ?_, ⟨by simp only [List.length_nil]; omega, by omega, rfl⟩,
        ?_, by simp⟩
      · rw [← hheader]
        simp only [recordHeader, Endpoint.absorbHeader, tls12_bytes, word_bytes body.length
          (by omega), hok]
        rw [if_neg (by decide), if_neg (by decide), if_neg (by decide), if_neg (by omega),
          if_neg (by omega)]
      · simp only [Incoming.partly, List.append_nil]
        exact hheader
    · refine ⟨.header (got ++ data), ?_, ⟨by omega, by simp⟩, rfl, by simp⟩
      split
      · next hfive =>
        have hlen5 := congrArg List.length hfive
        rw [hcat] at hlen5
        exact absurd hlen5 hfull
      · rfl
  | body type len got =>
    rw [hi] at hin hbytes
    obtain ⟨hlt, hlen16, -⟩ := hin
    simp only [Endpoint.wanted, hi, hshut, Bool.false_eq_true, if_false] at hle
    have hcat : (got ++ data).length = got.length + data.length := List.length_append
    simp only [Incoming.partly, List.append_assoc] at hbytes
    obtain ⟨rfl, hsame, hbytes'⟩ := record_header_inj hlen16 (by omega) hbytes
    rw [← List.append_assoc] at hbytes'
    obtain ⟨k, hbodyk, hrest⟩ := cut_append hbytes' (by omega)
    simp only [Endpoint.absorb, hi]
    by_cases hfull : (got ++ data).length < len
    · left
      exact ⟨.body r.1 len (got ++ data), if_pos hfull, ⟨hfull, hlen16, rfl⟩, by
        simp only [Incoming.partly, List.append_assoc], by simp⟩
    · right
      have hk : k = [] := by
        have hlenk := congrArg List.length hbodyk
        rw [List.length_append] at hlenk
        exact List.eq_nil_of_length_eq_zero (by omega)
      rw [hk, List.append_nil] at hbodyk
      rw [hk, List.nil_append] at hrest
      obtain ⟨d, hdec, hrel'⟩ := hM.decode c a.inCtx r.1 r.2 hrel hr.2
      rw [hbody, hbodyk] at hdec
      refine ⟨d, ?_, hrel', hrest⟩
      rw [if_neg hfull, Endpoint.absorbBody, hdec]
      cases hpt : r.2 with
      | nil => exact absurd hpt hr.1
      | cons x xs => rfl
  | plain type rest =>
    simp only [Endpoint.wanted, hi, ite_self] at hle
    omega

end Receive

section Deliver

variable {κ ι : Type} {P : Protection κ ι} {maxLen room : ℕ} {rel : κ → ι → Prop}
  {a b : Endpoint κ ι} {g : Stage} {c : κ} {d : ι} {done todo : List Plaintext} {r : Plaintext}
  {data rest taken : List UInt8}

/-- What is held for the application, where nothing is. -/
theorem readable_of_not_plain (hi : ∀ type rest, a.inp ≠ .plain type rest) : a.readable = [] := by
  simp only [Endpoint.readable]
  split_ifs
  · rfl
  · cases hia : a.inp with
    | header got => rfl
    | body type len got => rfl
    | plain type rest => exact absurd hia (hi type rest)

theorem not_plain_of_wanted (hpos : 0 < a.wanted) : ∀ type rest, a.inp ≠ .plain type rest := by
  intro type rest hi
  simp only [Endpoint.wanted, hi, ite_self] at hpos
  omega

/-- Application data is held for the application, and dropped in a closure. -/
theorem deliver_data (taken : List UInt8) {pt : List UInt8} (h : a.At maxLen g) (hheard : g.heard = false)
    (hi : ∀ type rest, a.inp ≠ .plain type rest) (hne : pt ≠ [])
    (hdone : Ordered maxLen false (done ++ [(BR_SSL_APPLICATION_DATA, pt)]))
    (hrel : rel (P.encode c BR_SSL_APPLICATION_DATA pt).1 d)
    (hrest : rest = P.wires (P.encode c BR_SSL_APPLICATION_DATA pt).1 todo) :
    ∃ x, Endpoint.deliver P { a with inp := .plain BR_SSL_APPLICATION_DATA pt, inCtx := d } = x ∧
      Emits P maxLen a x g g [] [] [] ∧
      Receives P maxLen rel a x g g c (P.encode c BR_SSL_APPLICATION_DATA pt).1 done
        ((BR_SSL_APPLICATION_DATA, pt) :: todo) (done ++ [(BR_SSL_APPLICATION_DATA, pt)]) todo
        rest taken := by
  have hnone := readable_of_not_plain hi
  have hpay : payloads (done ++ [(BR_SSL_APPLICATION_DATA, pt)]) = payloads done ++ pt := by
    rw [payloads_append, payloads_data]
  have hproc : ¬ (BR_SSL_APPLICATION_DATA = BR_SSL_CHANGE_CIPHER_SPEC ∨
      BR_SSL_APPLICATION_DATA = BR_SSL_ALERT ∨ BR_SSL_APPLICATION_DATA = BR_SSL_HANDSHAKE) := by
    decide
  have hemits : ∀ i, InFits false i →
      Emits P maxLen a (.established { a with inp := i, inCtx := d }) g g [] [] [] := by
    intro i hfits
    refine nothing_emits ?_ rfl rfl (List.append_nil _).symm rfl
    exact { h with inp := hheard ▸ hfits }
  have hreceives : ∀ i : Incoming, i.partly = [] →
      Endpoint.readable { a with inp := i, inCtx := d } = (if g = .opened then pt else []) →
      Receives P maxLen rel a (.established { a with inp := i, inCtx := d }) g g c
        (P.encode c BR_SSL_APPLICATION_DATA pt).1 done ((BR_SSL_APPLICATION_DATA, pt) :: todo)
        (done ++ [(BR_SSL_APPLICATION_DATA, pt)]) todo rest taken := by
    intro i hpartly hread
    refine ⟨⟨[_], rfl, rfl⟩, hheard ▸ hdone, rfl, ?_, ?_, ?_, ?_⟩
    · rintro b ⟨rfl⟩
      exact hrel
    · simp only [Phase.partly, hpartly, List.nil_append]
      exact hrest
    · intro heq hle
      simp only [Phase.readable, hread, hpay, hnone, List.append_nil] at heq hle ⊢
      split_ifs with hg
      · rw [heq hg]
      · rw [List.append_nil]
        exact hle.trans (List.prefix_append _ _)
    · intro hg heq
      simp only [Phase.readable, hread, hpay, hnone, List.append_nil, if_pos hg] at heq ⊢
      rw [heq]
  simp only [Endpoint.deliver, if_neg hproc, if_true]
  by_cases hg : g = .opened
  · have happ : a.app = 1 := by
      rw [h.app, hg]
      rfl
    have hone : ¬ a.app &&& 1 = 0 := by
      rw [happ]
      decide
    rw [if_pos happ]
    refine ⟨_, rfl, hemits _ ⟨rfl, hne, rfl⟩, hreceives _ rfl ?_⟩
    simp only [Endpoint.readable, if_neg hone, if_true, if_pos hg]
  · have happ : a.app = 2 := by
      rw [h.app]
      cases g with
      | opened => exact absurd rfl hg
      | flushing => rfl
      | waiting => rfl
      | answering => exact absurd hheard (by decide)
      | answered => exact absurd hheard (by decide)
      | finished => exact absurd rfl h.live
    have hone : ¬ a.app = 1 := by
      rw [happ]
      decide
    rw [if_neg hone, if_pos happ]
    refine ⟨_, rfl, hemits (.header []) ⟨by decide, fun _ => rfl⟩, hreceives (.header []) rfl ?_⟩
    rw [if_neg hg]
    exact consume_readable { a with inCtx := d }

theorem consume_close_wait (a : Endpoint κ ι) (cnr : Bool) :
    (a.closeWait cnr).map Endpoint.consume = a.consume.closeWait cnr := by
  simp only [Endpoint.closeWait]
  by_cases ho : cnr = true ∧ a.out = .gathering []
  · rw [if_pos ho, if_pos (show cnr = true ∧ a.consume.out = _ from ho)]
    rfl
  · rw [if_neg ho, if_neg (show ¬ (cnr = true ∧ a.consume.out = _) from ho)]
    rfl

theorem consume_close_flush (a : Endpoint κ ι) (cnr : Bool) :
    (a.closeFlush P cnr).map Endpoint.consume = a.consume.closeFlush P cnr := by
  simp only [Endpoint.closeFlush]
  by_cases ho : a.out = .gathering []
  · rw [if_pos ho, if_pos (show a.consume.out = _ from ho), consume_close_wait]
    rfl
  · rw [if_neg ho, if_neg (show ¬ a.consume.out = _ from ho)]
    rfl

theorem consume_flush (a : Endpoint κ ι) : (a.flush P).consume = a.consume.flush P := by
  have hout : a.consume.out = a.out := rfl
  cases ho : a.out with
  | gathering acc =>
    simp only [Endpoint.flush, hout, ho]
    split_ifs <;> rfl
  | sending rest => simp only [Endpoint.flush, hout, ho]

theorem consume_do_close (a : Endpoint κ ι) (cnr : Bool) :
    (a.doClose P cnr).map Endpoint.consume = a.consume.doClose P cnr := by
  simp only [Endpoint.doClose, consume_close_flush, consume_flush]
  rfl

/-- An end that has heard the `close_notify`. -/
theorem heard_receives {x : Phase κ ι} {g' : Stage} (hheard : g'.heard = true)
    (hi : ∀ type rest, a.inp ≠ .plain type rest)
    (hdone : Ordered maxLen true (done ++ [closeNotify])) (hstage : x.At maxLen g')
    (hctx : ∀ b, x = .established b → b.inCtx = d)
    (hrel : rel (P.encode c BR_SSL_ALERT [1, 0]).1 d) (hrest : rest = []) :
    Receives P maxLen rel a x g g' c (P.encode c BR_SSL_ALERT [1, 0]).1 done [closeNotify]
      (done ++ [closeNotify]) [] rest taken := by
  have hx : x.partly = [] ∧ x.readable = [] := by
    cases x with
    | established b =>
      refine ⟨hstage.partly_nil hheard, readable_of_app ?_⟩
      rw [hstage.app]
      cases g' with
      | opened => exact absurd hheard (by decide)
      | flushing => exact absurd hheard (by decide)
      | waiting => exact absurd hheard (by decide)
      | answering => rfl
      | answered => rfl
      | finished => rfl
    | closed err => exact ⟨rfl, rfl⟩
    | left => exact ⟨rfl, rfl⟩
  have hpay : payloads (done ++ [closeNotify]) = payloads done := by
    rw [payloads_append, payloads_notify, List.append_nil]
  have hnone := readable_of_not_plain hi
  refine ⟨⟨[_], rfl, rfl⟩, hheard ▸ hdone, rfl, ?_, ?_, ?_, ?_⟩
  · intro b hb
    rw [hctx b hb]
    exact hrel
  · rw [hx.1, hrest]
    rfl
  · intro _ hle
    rw [hx.2, hpay]
    rwa [hnone] at hle
  · intro _ heq
    rw [hx.2, hpay]
    rwa [hnone] at heq

/-- The round that follows the one in which the `close_notify` is read. -/
theorem jump_again {b b' : Endpoint κ ι} {g' : Stage} (hround : b.round P 0 = .established b')
    (h : b'.At maxLen g') (hg : g' ≠ .opened) : b.jump P 0 = .established b' := by
  simp only [Endpoint.jump, hround, Phase.bind]
  split_ifs
  · rw [← jump_nil h.input_nil]
    exact jump_rest h hg 0
  · rfl

theorem alert_bytes_notify : alertBytes 0 [1, 0] false = .ok (0, true) := by
  rfl

/-- The `close_notify` starts the closure, or completes it. -/
theorem deliver_notify (h : a.At maxLen g) (hheard : g.heard = false) :
    ∃ x g' new, Endpoint.deliver P { a with inp := .plain BR_SSL_ALERT [1, 0], inCtx := d } = x ∧
      Emits P maxLen a x g g' [] [] new ∧ g'.heard = true ∧
      ∀ b, x = .established b → b.inCtx = d := by
  obtain ⟨b, hb⟩ : ∃ b : Endpoint κ ι,
    b = { a with inp := .plain BR_SSL_ALERT [1, 0], inCtx := d } := ⟨_, rfl⟩
  have hinp : b.inp = .plain BR_SSL_ALERT [1, 0] := by rw [hb]
  have hinput : b.input = [1, 0] := by
    simp only [Endpoint.input, hinp]
    decide
  have hnil : ¬ b.input = [] := by
    rw [hinput]
    decide
  have hsame : b.out = a.out ∧ b.outCtx = a.outCtx ∧ b.app = a.app ∧ b.typeOut = a.typeOut ∧
      b.alert = 0 ∧ b.co = a.co ∧ b.inCtx = d := by
    rw [hb]
    exact ⟨rfl, rfl, rfl, rfl, h.alert, rfl, rfl⟩
  obtain ⟨hout, hctx, happ, htype, halert, hco, hin⟩ := hsame
  have hdeliver : Endpoint.deliver P b = b.jump P 0 := by
    simp only [Endpoint.deliver, hinp, or_true, true_or, if_true]
  have hread : (b.readAlerts 0 true).consume.Receiving true :=
    ⟨rfl, rfl, by decide, fun _ => rfl⟩
  rw [← hb, hdeliver]
  clear hb
  cases g with
  | opened =>
    obtain ⟨g', new, b', hdo, hemits, hstage, -, hin'⟩ :=
      do_close_emits (P := P) h hread hout hctx (happ.trans h.app) (htype.trans h.typeOut)
    have hround : b.round P 0 = .established b' := by
      simp only [Endpoint.round, hco, h.co, Stage.co, Endpoint.mainLoop, if_neg hnil, hinp, halert,
        alert_bytes_notify, if_true, consume_do_close, hdo]
      rfl
    have hg' : g' ≠ .opened ∧ g'.heard = true := by
      rcases hstage with rfl | rfl <;> decide
    refine ⟨_, g', new, jump_again hround hemits.stage hg'.1, hemits, hg'.2, ?_⟩
    rintro b'' ⟨rfl⟩
    exact hin'.trans hin
  | flushing =>
    obtain ⟨rest, ho⟩ := h.sending (by decide) (by decide)
    have hfits := h.out
    rw [ho] at hfits
    have hround : b.round P 0 = .established
        { (b.readAlerts 0 true).consume with app := 0, co := .closeFlush true } := by
      simp only [Endpoint.round, hco, h.co, Stage.co, Endpoint.afterWait, hnil, hinp, halert,
        alert_bytes_notify, Bool.false_eq_true, or_self, if_false, if_true, consume_close_flush]
      have hbusy : ({ (b.readAlerts 0 true).consume with app := 0 } : Endpoint κ ι).out =
          .sending rest := hout.trans ho
      exact close_flush_full hbusy true
    have hat : Endpoint.At maxLen
        { (b.readAlerts 0 true).consume with app := 0, co := .closeFlush true } .answering :=
      closed_at { hread with } (by decide) rfl rfl (htype.trans h.typeOut) hfits (hout.trans ho)
    refine ⟨_, .answering, [], jump_again hround hat (by decide), ?_, rfl, ?_⟩
    · refine nothing_emits hat hctx ?_ ?_ rfl
      · exact congrArg (fun o => Endpoint.pending { a with out := o }) hout
      · rw [List.append_nil]
        exact congrArg (fun o => Endpoint.gathered { a with out := o }) hout
    · rintro b'' ⟨rfl⟩
      exact hin
  | waiting =>
    have hwait : b.round P 0 =
        Endpoint.closeWait { (b.readAlerts 0 true).consume with app := 0 } true := by
      simp only [Endpoint.round, hco, h.co, Stage.co, Endpoint.afterWait, hnil, hinp, halert,
        alert_bytes_notify, Bool.false_eq_true, or_self, if_false, if_true, consume_close_wait]
      rfl
    cases ho : a.out with
    | gathering acc =>
      obtain rfl : acc = [] := by
        rcases (h.gathering ho).2 with hc | hc
        · exact absurd hc (by decide)
        · exact hc.2
      have hround : b.round P 0 = .closed 0 := by
        rw [hwait, Endpoint.closeWait, if_pos]
        exact ⟨rfl, hout.trans ho⟩
      refine ⟨.closed 0, .finished, [], by simp only [Endpoint.jump, hround, Phase.bind], ?_, rfl,
        by rintro b'' ⟨⟩⟩
      refine ⟨⟨rfl, rfl⟩, ?_, by rintro b'' ⟨⟩, ?_, fun _ => ⟨rfl, rfl⟩, by rintro ⟨⟩⟩
      · simp [Phase.pending, Endpoint.pending, ho, Protection.wires]
      · simp [Phase.gathered, Endpoint.gathered, ho, payloads]
    | sending rest =>
      have hfits := h.out
      rw [ho] at hfits
      have hround : b.round P 0 = .established
          { (b.readAlerts 0 true).consume with app := 0, co := .closeWait true } := by
        have hbusy : b.out ≠ .gathering [] := by simp [hout, ho]
        rw [hwait, Endpoint.closeWait, if_neg fun hc => hbusy hc.2]
      have hat : Endpoint.At maxLen
          { (b.readAlerts 0 true).consume with app := 0, co := .closeWait true } .answered :=
        closed_at { hread with } (by decide) rfl rfl (htype.trans h.typeOut) hfits (hout.trans ho)
      refine ⟨_, .answered, [], jump_again hround hat (by decide), ?_, rfl, ?_⟩
      · refine nothing_emits hat hctx ?_ ?_ rfl
        · exact congrArg (fun o => Endpoint.pending { a with out := o }) hout
        · rw [List.append_nil]
          exact congrArg (fun o => Endpoint.gathered { a with out := o }) hout
      · rintro b'' ⟨rfl⟩
        exact hin
  | answering => exact absurd hheard (by decide)
  | answered => exact absurd hheard (by decide)
  | finished => exact absurd rfl h.live

/-- `br_ssl_engine_recvrec_ack`, with bytes that the peer has sealed. -/
theorem receive_flows (taken : List UInt8) (hP : P.Suits maxLen room) (hM : P.Matched maxLen rel) {gx : Stage}
    (h : a.At maxLen g) (horder : Ordered maxLen gx.notified (done ++ todo))
    (hdone : Ordered maxLen g.heard done) (hrel : rel c a.inCtx) (hne : data ≠ [])
    (hle : data.length ≤ a.wanted) (hbytes : a.inp.partly ++ data ++ rest = P.wires c todo) :
    g.heard = false ∧ ∃ g' new c' done' todo',
      Emits P maxLen a (a.receive P room data) g g' [] [] new ∧ (g' = g ∨ g'.heard = true) ∧
      Receives P maxLen rel a (a.receive P room data) g g' c c' done todo done' todo' rest taken := by
  have hpos := List.length_pos_of_ne_nil hne
  have hheard : g.heard = false := by
    rw [← h.shutdown]
    cases hs : a.shutdown with
    | false => rfl
    | true =>
      simp only [Endpoint.wanted, hs, if_true] at hle
      omega
  refine ⟨hheard, ?_⟩
  have hi := not_plain_of_wanted (Nat.lt_of_lt_of_le hpos hle)
  obtain ⟨r, todo, rfl⟩ := next_of_bytes hbytes hne
  rw [hheard] at hdone
  have hnext := horder.next hdone
  have hr : IsData maxLen r ∨ r = closeNotify := hnext.imp And.left And.left
  rcases absorb_next hP hM h hheard hrel (fits_of_next hP hr) hne hle hbytes with
    ⟨i, habsorb, hfits, hpartly, hplain⟩ | ⟨d, habsorb, hrel', hrest⟩
  · have hstay : a.receive P room data = .established { a with inp := i } := by
      rw [Endpoint.receive, habsorb]
      cases i with
      | header got => rfl
      | body type len got => rfl
      | plain type rest => exact absurd rfl (hplain type rest)
    have hread : Endpoint.readable { a with inp := i } = a.readable := by
      rw [readable_of_not_plain hi]
      exact readable_of_not_plain hplain
    rw [hstay]
    refine ⟨g, [], c, done, r :: todo, ?_, .inl rfl, ⟨[], rfl, (List.append_nil _).symm⟩,
      hheard ▸ hdone, rfl, ?_, ?_, ?_, ?_⟩
    · refine nothing_emits ?_ rfl rfl (List.append_nil _).symm rfl
      exact { h with inp := hheard ▸ hfits }
    · rintro b ⟨rfl⟩
      exact hrel
    · rw [← hbytes, ← hpartly]
      rfl
    · intro _ hle
      simpa only [Phase.readable, hread] using hle
    · intro _ heq
      simpa only [Phase.readable, hread] using heq
  · have hbind : a.receive P room data =
        Endpoint.deliver P { a with inp := .plain r.1 r.2, inCtx := d } := by
      rw [Endpoint.receive, habsorb]
      rfl
    rw [hbind]
    rcases hnext with ⟨hdata, hdone'⟩ | ⟨rfl, rfl, hdone'⟩
    · obtain ⟨type, pt⟩ := r
      obtain rfl : type = BR_SSL_APPLICATION_DATA := hdata.1
      obtain ⟨x, hx, hemits, hreceives⟩ :=
        deliver_data taken h hheard hi hdata.2.1 hdone' hrel' hrest
      rw [hx]
      exact ⟨g, [], _, _, _, hemits, .inl rfl, hreceives⟩
    · obtain ⟨x, g', new, hx, hemits, hheard', hctx⟩ := deliver_notify (P := P) (d := d) h hheard
      rw [closeNotify, hx]
      refine ⟨g', new, (P.encode c BR_SSL_ALERT [1, 0]).1, done ++ [closeNotify], [], hemits,
        .inr hheard', ?_⟩
      exact heard_receives hheard' hi hdone' hemits.stage hctx hrel' hrest

end Deliver

end BearTLS
