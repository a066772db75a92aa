import BearTLS.Proofs.SslReceiving
import BearTLS.Proofs.SslRefinement

/-! Two established ends: what one application puts in is what the other one takes out, in
every interleaving of calls and deliveries, closures included. -/

namespace BearTLS

section Flows

variable {κ ι : Type} {P : Protection κ ι} {maxLen room : ℕ} {rel : κ → ι → Prop}
  {x y x' y' : Phase κ ι} {a b : Endpoint κ ι} {gx gy gx' gy' : Stage}
  {wire injected taken sent inj tak data rest : List UInt8} {closing closes : Bool}
  {done todo new done' todo' : List Plaintext} {c c' : κ}

theorem emitted_ordered {old : List Plaintext} (h : Ordered maxLen gx.notified old)
    (he : Emits P maxLen a x' gx gx' sent inj new) : Ordered maxLen gx'.notified (old ++ new) := by
  cases hg : gx.notified with
  | true =>
    obtain ⟨rfl, hg'⟩ := he.notified hg
    rw [List.append_nil, hg', ← hg]
    exact h
  | false =>
    rw [hg] at h
    exact h.append (he.ordered hg)

/-- The flow from an end that makes a call. -/
theorem Flow.emits
    (h : Flow P maxLen rel (.established a) y gx gy wire injected taken closing done todo c)
    (he : Emits P maxLen a x' gx gx' sent inj new) :
    Flow P maxLen rel x' y gx' gy (wire ++ sent) (injected ++ inj) taken closing done
      (todo ++ new) c := by
  have hctx : a.outCtx = P.ctxAfter c todo := h.outCtx a rfl
  refine ⟨?_, h.done_ordered, ?_, h.inCtx, ?_, ?_, h.taken_prefix, h.taken_eq⟩
  · rw [← List.append_assoc]
    exact emitted_ordered h.ordered he
  · intro a' ha'
    rw [he.outCtx a' ha', hctx, ctx_after_append]
  · have hbytes : y.partly ++ wire ++ a.pending = P.wires c todo := h.bytes
    calc y.partly ++ (wire ++ sent) ++ x'.pending
        = y.partly ++ wire ++ (sent ++ x'.pending) := by simp only [List.append_assoc]
      _ = P.wires c todo ++ P.wires a.outCtx new := by
        rw [he.pending, ← List.append_assoc, hbytes]
      _ = P.wires c (todo ++ new) := by rw [wires_append, hctx]
  · have hinj : injected = payloads (done ++ todo) ++ a.gathered := h.injected_eq
    rw [← List.append_assoc, payloads_append, List.append_assoc, he.gathered, ← List.append_assoc,
      hinj]

/-- The flow to an end that makes a call but receives nothing. -/
theorem Flow.keeps
    (h : Flow P maxLen rel x (.established b) gx gy wire injected taken closing done todo c)
    (hk : Keeps b y' gy gy' tak closes) :
    Flow P maxLen rel x y' gx gy' wire injected (taken ++ tak) (closing || closes) done todo c := by
  have hread : taken ++ tak ++ y'.readable = taken ++ b.readable ∨
      closes = true ∧ taken ++ tak ++ y'.readable = taken := by
    rcases hk.readable with heq | ⟨hc, rfl, hnil⟩
    · exact .inl (by rw [List.append_assoc, heq])
    · exact .inr ⟨hc, by rw [hnil, List.append_nil, List.append_nil]⟩
  have hprefix : taken ++ b.readable <+: payloads done := h.taken_prefix
  refine ⟨h.ordered, hk.heard ▸ h.done_ordered, h.outCtx, ?_, ?_, h.injected_eq, ?_, ?_⟩
  · intro b' hb'
    rw [hk.inCtx b' hb']
    exact h.inCtx b rfl
  · rw [hk.partly]
    exact h.bytes
  · rcases hread with heq | ⟨-, heq⟩
    · rw [heq]
      exact hprefix
    · rw [heq]
      exact (List.prefix_append _ _).trans hprefix
  · intro hclosing
    rw [Bool.or_eq_false_iff] at hclosing
    rcases hread with heq | ⟨hc, -⟩
    · rw [heq]
      exact h.taken_eq hclosing.1
    · exact absurd (hclosing.2.symm.trans hc) (by decide)

/-- The flow to an end that receives. -/
theorem Flow.receives
    (h : Flow P maxLen rel x (.established b) gx gy (data ++ rest) injected taken closing done
      todo c)
    (hr : Receives P maxLen rel b y' gy gy' c c' done todo done' todo' (rest ++ x.pending) taken)
    (hopen : closing = false → gy = .opened) (hclosed : gy = .opened → closing = false) :
    Flow P maxLen rel x y' gx gy' rest injected taken closing done' todo' c' := by
  obtain ⟨come, hcome, hdone'⟩ := hr.split
  have hsplit : done' ++ todo' = done ++ todo := by
    rw [hcome, hdone', List.append_assoc]
  refine ⟨?_, hr.ordered, ?_, hr.inCtx, ?_, ?_, ?_, ?_⟩
  · rw [hsplit]
    exact h.ordered
  · intro a ha
    rw [h.outCtx a ha, hr.ctx]
  · rw [List.append_assoc]
    exact hr.bytes
  · rw [hsplit]
    exact h.injected_eq
  · exact hr.taken_prefix (fun hg => h.taken_eq (hclosed hg)) h.taken_prefix
  · intro hc
    exact hr.taken_eq (hopen hc) (h.taken_eq hc)

end Flows

section Effort

variable {κ ι : Type} {P : Protection κ ι} {maxLen room : ℕ} {rel : κ → ι → Prop}
  {x : Phase κ ι} {a : Endpoint κ ι} {g g' : Stage} {taken sent data rest : List UInt8}
  {done todo new done' todo' : List Plaintext} {c c' : κ}

theorem payloads_cons_le (r : Plaintext) (rs : List Plaintext) :
    (payloads (r :: rs)).length ≤ r.2.length + (payloads rs).length := by
  have hcons : payloads (r :: rs) = payloads [r] ++ payloads rs := payloads_append [r] rs
  rw [hcons, List.length_append]
  refine Nat.add_le_add_right ?_ _
  simp only [payloads, List.flatMap_cons, List.flatMap_nil, List.append_nil]
  split_ifs
  · exact Nat.le_refl _
  · exact Nat.zero_le _

theorem length_wires_cons (hP : P.Suits maxLen room) (c : κ) (r : Plaintext)
    (rs : List Plaintext) : (P.wires c (r :: rs)).length =
      5 + P.before + r.2.length + P.after + (P.wires (P.encode c r.1 r.2).1 rs).length := by
  have hlen := hP.length_encode c r.1 r.2
  simp only [Protection.wires, List.length_append, length_recordWire]
  omega

/-- The length does not depend on the keys. -/
theorem length_wires_eq (hP : P.Suits maxLen room) (c c' : κ) (rs : List Plaintext) :
    (P.wires c rs).length = (P.wires c' rs).length := by
  induction rs generalizing c c' with
  | nil => rfl
  | cons r rs ih =>
    rw [length_wires_cons hP, length_wires_cons hP,
      ih (P.encode c r.1 r.2).1 (P.encode c' r.1 r.2).1]

theorem payloads_le_wires (hP : P.Suits maxLen room) (c : κ) (rs : List Plaintext) :
    (payloads rs).length ≤ (P.wires c rs).length := by
  induction rs generalizing c with
  | nil => exact Nat.le_refl _
  | cons r rs ih =>
    have hcons := payloads_cons_le r rs
    have hrest := ih (P.encode c r.1 r.2).1
    rw [length_wires_cons hP]
    omega

theorem data_wires_le (hP : P.Suits maxLen room) (c : κ) {data : List Plaintext}
    (h : ∀ r ∈ data, IsData maxLen r) :
    (P.wires c data).length ≤ (6 + P.before + P.after) * (payloads data).length := by
  induction data generalizing c with
  | nil => exact Nat.zero_le _
  | cons r rs ih =>
    obtain ⟨htype, hne, -⟩ := h r List.mem_cons_self
    have hrest := ih (P.encode c r.1 r.2).1 fun r' hr' => h r' (List.mem_cons_of_mem _ hr')
    have hcons : payloads (r :: rs) = r.2 ++ payloads rs := by
      simp only [payloads, List.flatMap_cons, htype, if_true]
    have hone : 5 + P.before + r.2.length + P.after ≤ (6 + P.before + P.after) * r.2.length := by
      obtain ⟨k, hk⟩ : ∃ k, r.2.length = k + 1 :=
        ⟨r.2.length - 1, by have := List.length_pos_of_ne_nil hne; omega⟩
      have hmul : (6 + P.before + P.after) * (k + 1) =
          (6 + P.before + P.after) * k + (6 + P.before + P.after) := Nat.mul_succ _ _
      have hle : 6 * k ≤ (6 + P.before + P.after) * k := Nat.mul_le_mul_right k (by omega)
      rw [hk, hmul]
      omega
    rw [length_wires_cons hP, hcons, List.length_append, Nat.mul_add]
    exact Nat.add_le_add hone hrest

theorem wires_le (hP : P.Suits maxLen room) {notified : Bool} (h : Ordered maxLen notified new)
    (c : κ) : (P.wires c new).length ≤ (6 + P.before + P.after) * (payloads new).length +
      if notified then 7 + P.before + P.after else 0 := by
  obtain ⟨data, hdata, rfl⟩ := h
  have hle := data_wires_le hP c hdata
  rw [wires_append, payloads_append, List.length_append, List.length_append, Nat.mul_add]
  cases notified with
  | false =>
    simp only [Bool.false_eq_true, if_false, Protection.wires, List.length_nil]
    omega
  | true =>
    have hlen : (P.wires (P.ctxAfter c data) [closeNotify]).length = 7 + P.before + P.after := by
      rw [length_wires_cons hP]
      show 5 + P.before + 2 + P.after + 0 = _
      omega
    simp only [if_true, hlen]
    omega

theorem emits_effort (hP : P.Suits maxLen room) {injected : List UInt8}
    (he : Emits P maxLen a x g g' sent injected new) (hinj : injected = []) :
    outEffort P x g' + 3 * sent.length ≤ outEffort P (.established a) g := by
  subst hinj
  have hpending := congrArg List.length he.pending
  have hgathered := congrArg List.length he.gathered
  simp only [List.length_append, List.length_nil, Nat.add_zero] at hpending hgathered
  have hmul : (6 + P.before + P.after) * a.gathered.length =
      (6 + P.before + P.after) * (payloads new).length +
        (6 + P.before + P.after) * x.gathered.length := by
    rw [← Nat.mul_add, hgathered]
  show 3 * ((6 + P.before + P.after) * x.gathered.length + x.pending.length +
      if g'.notified then 0 else 7 + P.before + P.after) + 3 * sent.length ≤
    3 * ((6 + P.before + P.after) * a.gathered.length + a.pending.length +
      if g.notified then 0 else 7 + P.before + P.after)
  cases hg : g.notified with
  | true =>
    obtain ⟨rfl, hg'⟩ := he.notified hg
    have hnone : (payloads []).length = 0 := rfl
    rw [hnone, Nat.mul_zero, Nat.zero_add] at hmul
    simp only [Protection.wires, List.length_nil] at hpending
    simp only [hg', if_true]
    omega
  | false =>
    have hwires := wires_le hP (he.ordered hg) a.outCtx
    cases hg' : g'.notified with
    | true =>
      simp only [hg', if_true, Bool.false_eq_true, if_false] at hwires ⊢
      omega
    | false =>
      simp only [hg', Bool.false_eq_true, if_false] at hwires ⊢
      omega

theorem emits_gathered {injected : List UInt8} (he : Emits P maxLen a x g g' sent injected new) :
    x.gathered.length ≤ a.gathered.length + injected.length := by
  have hgathered := congrArg List.length he.gathered
  simp only [List.length_append] at hgathered
  omega

theorem keeps_effort {closes : Bool} (hk : Keeps a x g g' taken closes) :
    inEffort x + taken.length ≤ inEffort (.established a) := by
  have hpartly := congrArg List.length hk.partly
  show x.partly.length + x.readable.length + taken.length ≤
    a.inp.partly.length + a.readable.length
  rcases hk.readable with hread | ⟨-, rfl, hread⟩
  · have hlen := congrArg List.length hread
    rw [List.length_append] at hlen
    omega
  · rw [hread, List.length_nil]
    omega

theorem readable_of_stage (hat : x.At maxLen g') (hg : g' ≠ .opened) : x.readable = [] := by
  cases x with
  | established b =>
    refine readable_of_app ?_
    by_contra happ
    exact hg (hat.opened happ)
  | closed err => rfl
  | left => rfl

theorem receives_effort (hP : P.Suits maxLen room) (hat : x.At maxLen g')
    (hbytes : a.inp.partly ++ data ++ rest = P.wires c todo)
    (hr : Receives P maxLen rel a x g g' c c' done todo done' todo' rest taken)
    (hopen : g' = .opened → g = .opened ∧ taken ++ a.readable = payloads done) :
    inEffort x ≤ inEffort (.established a) + data.length := by
  obtain ⟨come, rfl, rfl⟩ := hr.split
  have hlen := congrArg List.length hbytes
  have hlen' := congrArg List.length hr.bytes
  have hsame := length_wires_eq hP (P.ctxAfter c come) c' todo'
  have hcome := payloads_le_wires hP c come
  simp only [wires_append, List.length_append] at hlen hlen'
  show x.partly.length + x.readable.length ≤ a.inp.partly.length + a.readable.length + data.length
  by_cases hg : g' = .opened
  · obtain ⟨hopened, htaken⟩ := hopen hg
    have hread := hr.taken_eq hopened htaken
    rw [payloads_append, ← htaken, List.append_assoc] at hread
    have hread' := congrArg List.length (List.append_cancel_left hread)
    rw [List.length_append] at hread'
    omega
  · rw [readable_of_stage hat hg, List.length_nil]
    omega

end Effort

section Sessions

variable {κ ι : Type} {P : Protection κ ι} {maxLen room : ℕ} {rel : κ → ι → Prop}
  {a : Endpoint κ ι} {g : Stage} {m : Network (Phase κ ι)} {stages : Side → Stage}

/-- A call that receives nothing. -/
theorem call_emits (hP : P.Suits maxLen room) (h : a.At maxLen g) (c : EngineCall)
    (hlegal : (endpointEngine P maxLen room).Legal (.established a) c) (hnone : c.received = []) :
    ∃ g' new,
      Emits P maxLen a ((endpointEngine P maxLen room).call (.established a) c) g g'
        ((endpointEngine P maxLen room).sent (.established a) c) c.injected new ∧
      Keeps a ((endpointEngine P maxLen room).call (.established a) c) g g'
        ((endpointEngine P maxLen room).taken (.established a) c) (c = .close) := by
  cases c with
  | sendrec n => exact sent_emits hP.two_le h hlegal.1 hlegal.2
  | recvrec data => exact absurd hnone hlegal.1
  | sendapp data => exact gather_emits h hlegal.1 hlegal.2
  | recvapp n => exact ⟨g, [], take_emits h hlegal.1 hlegal.2⟩
  | flush =>
    show ∃ g' new,
      Emits P maxLen a (.established (if a.app &&& 1 ≠ 0 then a.flush P else a)) g g' [] [] new ∧
        Keeps a (.established (if a.app &&& 1 ≠ 0 then a.flush P else a)) g g' [] false
    split_ifs with happ
    · obtain rfl := h.opened happ
      exact ⟨.opened, flush_emits h⟩
    · exact ⟨g, [], nothing_emits h rfl rfl (List.append_nil _).symm rfl, keeps_stage rfl rfl rfl⟩
  | close => exact close_emits h

theorem Session.step {F : Engine (Phase κ ι)} (h : Session P maxLen rel m stages) {s : Side}
    {c : EngineCall} (g' : Stage) (hstage : (F.call (m.ends s) c).At maxLen g')
    (hfollows : (stages s).Follows g' (c = .close))
    (hout : ∃ done todo k, Flow P maxLen rel (F.call (m.ends s) c) (m.ends s.other) g'
      (stages s.other) (m.wire s.other ++ F.sent (m.ends s) c) (m.injected s ++ c.injected)
      (m.taken s.other) (m.closing s.other) done todo k)
    (hin : ∃ done todo k, Flow P maxLen rel (m.ends s.other) (F.call (m.ends s) c)
      (stages s.other) g' ((m.wire s).drop c.received.length) (m.injected s.other)
      (m.taken s ++ F.taken (m.ends s) c) (m.closing s || c = .close) done todo k) :
    Session P maxLen rel (m.move F s c) (Function.update stages s g') := by
  have hne := s.other_ne
  obtain ⟨hends, hends', hwire, hwire', hinj, hinj', htaken, htaken', hclosing, hclosing'⟩ :=
    Network.move_at F m s c
  refine ⟨fun t => ?_, fun t ht => ?_, fun t ht => ?_, fun t => ?_⟩
  · rcases s.eq_or t with rfl | rfl
    · rw [hends, Function.update_self]
      exact hstage
    · rw [hends', Function.update_of_ne hne]
      exact h.stage _
  · rcases s.eq_or t with rfl | rfl
    · rw [Function.update_self] at ht
      rw [hclosing]
      rcases hfollows.1 ht with hc | hg
      · rw [hc, Bool.or_true]
      · rw [h.closes _ hg, Bool.true_or]
    · rw [Function.update_of_ne hne] at ht
      rw [hclosing']
      exact h.closes _ ht
  · rcases s.eq_or t with rfl | rfl
    · rw [hclosing, Bool.or_eq_true] at ht
      rw [Function.update_self]
      intro hg'
      obtain ⟨hg, hc⟩ := hfollows.2 hg'
      rcases ht with ht | ht
      · exact h.opened _ ht hg
      · rw [hc] at ht
        cases ht
    · rw [hclosing'] at ht
      rw [Function.update_of_ne hne]
      exact h.opened _ ht
  · rcases s.eq_or t with rfl | rfl
    · rw [hends, hends', hwire', hinj, htaken', hclosing', Function.update_self,
        Function.update_of_ne hne]
      exact hout
    · rw [s.other_other, hends, hends', hwire, hinj', htaken, hclosing, Function.update_self,
        Function.update_of_ne hne]
      exact hin

theorem Flow.closing_or {x y : Phase κ ι} {gx gy : Stage} {wire injected taken : List UInt8}
    {closing : Bool} {done todo : List Plaintext} {c : κ}
    (h : Flow P maxLen rel x y gx gy wire injected taken closing done todo c) (closes : Bool) :
    Flow P maxLen rel x y gx gy wire injected taken (closing || closes) done todo c :=
  { h with taken_eq := fun hc => h.taken_eq (Bool.or_eq_false_iff.mp hc).1 }

/-- A closed end makes no call that has an effect. -/
theorem closed_call {err : ℤ} {c : EngineCall}
    (hlegal : (endpointEngine P maxLen room).Legal (.closed err) c) :
    (endpointEngine P maxLen room).call (.closed err) c = .closed err ∧
      (endpointEngine P maxLen room).sent (.closed err) c = [] ∧
      (endpointEngine P maxLen room).taken (.closed err) c = [] ∧ c.received = [] ∧
      c.injected = [] := by
  cases c with
  | sendrec n => exact absurd (Nat.lt_of_lt_of_le hlegal.1 hlegal.2) (Nat.lt_irrefl 0)
  | recvrec data => exact absurd (List.eq_nil_of_length_eq_zero (Nat.le_zero.mp hlegal.2)) hlegal.1
  | sendapp data => exact absurd (List.eq_nil_of_length_eq_zero (Nat.le_zero.mp hlegal.2)) hlegal.1
  | recvapp n => exact absurd (Nat.lt_of_lt_of_le hlegal.1 hlegal.2) (Nat.lt_irrefl 0)
  | flush => exact ⟨rfl, rfl, rfl, rfl, rfl⟩
  | close => exact ⟨rfl, rfl, rfl, rfl, rfl⟩

theorem follows_heard {g' : Stage} (h : g' = g ∨ g'.heard = true) : g.Follows g' false := by
  rcases h with rfl | hheard
  · exact Stage.follows_refl _
  · cases g' with
    | opened => exact absurd hheard (by decide)
    | flushing => exact absurd hheard (by decide)
    | waiting => exact absurd hheard (by decide)
    | answering => cases g <;> decide
    | answered => cases g <;> decide
    | finished => cases g <;> decide

/-- Every legal call keeps the session, and what it sends or hands over is work done. -/
theorem session_move (hP : P.Suits maxLen room) (hM : P.Matched maxLen rel)
    (h : Session P maxLen rel m stages) {s : Side} {c : EngineCall}
    (hmove : m.CanMove (endpointEngine P maxLen room) s c) :
    ∃ g', Session P maxLen rel (m.move (endpointEngine P maxLen room) s c)
        (Function.update stages s g') ∧
      (c.injected = [] →
        outEffort P ((endpointEngine P maxLen room).call (m.ends s) c) g' +
          3 * ((endpointEngine P maxLen room).sent (m.ends s) c).length ≤
            outEffort P (m.ends s) (stages s)) ∧
      inEffort ((endpointEngine P maxLen room).call (m.ends s) c) +
        ((endpointEngine P maxLen room).taken (m.ends s) c).length ≤
          inEffort (m.ends s) + c.received.length ∧
      ((endpointEngine P maxLen room).call (m.ends s) c).gathered.length ≤
        (m.ends s).gathered.length + c.injected.length := by
  obtain ⟨hlegal, hwire⟩ := hmove
  have hstage := h.stage s
  have hflow := h.flow s
  have hflow' := h.flow s.other
  rw [s.other_other] at hflow'
  cases hx : m.ends s with
  | established a =>
    rw [hx] at hstage hflow hflow' hlegal
    obtain ⟨done, todo, k, hout⟩ := hflow
    obtain ⟨done', todo', k', hin⟩ := hflow'
    by_cases hnone : c.received = []
    · obtain ⟨g', new, hemits, hkeeps⟩ := call_emits hP hstage c hlegal hnone
      refine ⟨g', h.step g' ?_ ?_ ?_ ?_, ?_, ?_, ?_⟩
      · rw [hx]
        exact hemits.stage
      · exact hkeeps.follows
      · rw [hx]
        exact ⟨_, _, _, hout.emits hemits⟩
      · rw [hx, hnone]
        exact ⟨_, _, _, hin.keeps hkeeps⟩
      · exact emits_effort hP hemits
      · rw [hnone]
        exact keeps_effort hkeeps
      · exact emits_gathered hemits
    · cases c with
      | recvrec data =>
        obtain ⟨rest, hrest⟩ := hwire
        have hrest' : data ++ rest = m.wire s := hrest
        rw [← hrest'] at hin
        have hbytes : a.inp.partly ++ data ++ (rest ++ (m.ends s.other).pending) =
            P.wires k' todo' := by
          rw [← hin.bytes]
          simp only [Phase.partly, List.append_assoc]
        obtain ⟨hheard, g', new, c', done₁, todo₁, hemits, hg', hreceives⟩ :=
          receive_flows (m.taken s) hP hM hstage hin.ordered hin.done_ordered (hin.inCtx a rfl)
            hlegal.1 hlegal.2 hbytes
        have hopen : m.closing s = false → stages s = .opened := by
          intro hc
          cases hg : stages s with
          | opened => rfl
          | flushing => exact absurd (hc.symm.trans (h.closes s (.inl hg))) (by decide)
          | waiting => exact absurd (hc.symm.trans (h.closes s (.inr hg))) (by decide)
          | answering => exact absurd (hg ▸ hheard) (by decide)
          | answered => exact absurd (hg ▸ hheard) (by decide)
          | finished => exact absurd (hg ▸ hheard) (by decide)
        have hclosed : stages s = .opened → m.closing s = false := by
          intro hg
          cases hc : m.closing s with
          | false => rfl
          | true => exact absurd hg (h.opened s hc)
        refine ⟨g', h.step g' ?_ (follows_heard hg') ?_ ?_, ?_, ?_, emits_gathered hemits⟩
        · rw [hx]
          exact hemits.stage
        · rw [hx]
          exact ⟨_, _, _, hout.emits hemits⟩
        · have hdrop : (m.wire s).drop (EngineCall.recvrec data).received.length = rest := by
            rw [← hrest']
            exact List.drop_left
          have htaken : m.taken s ++ (endpointEngine P maxLen room).taken (.established a)
              (.recvrec data) = m.taken s := List.append_nil _
          have hclosing : (m.closing s || EngineCall.recvrec data = .close) = m.closing s :=
            Bool.or_false _
          rw [hx, hdrop, htaken, hclosing]
          exact ⟨_, _, _, hin.receives hreceives hopen hclosed⟩
        · exact emits_effort hP hemits
        · refine receives_effort hP hemits.stage hbytes hreceives fun hopened => ?_
          have hg : stages s = .opened := by
            rcases hg' with rfl | hheard'
            · exact hopened
            · rw [hopened] at hheard'
              exact absurd hheard' (by decide)
          exact ⟨hg, hin.taken_eq (hclosed hg)⟩
      | _ => exact absurd rfl hnone
  | closed err =>
    rw [hx] at hstage hflow hflow' hlegal
    obtain ⟨hcall, hsent, htaken, hreceived, hinjected⟩ := closed_call hlegal
    obtain ⟨done, todo, k, hout⟩ := hflow
    obtain ⟨done', todo', k', hin⟩ := hflow'
    have hfin : stages s = .finished := hstage.2
    refine ⟨stages s, h.step (stages s) ?_ ?_ ?_ ?_, fun _ => ?_, ?_, ?_⟩
    · rw [hx, hcall]
      exact hstage
    · rw [hfin]
      cases decide (c = .close) <;> decide
    · rw [hx, hcall, hsent, hinjected, List.append_nil, List.append_nil]
      exact ⟨_, _, _, hout⟩
    · rw [hx, hcall, htaken, hreceived, List.append_nil]
      exact ⟨_, _, _, hin.closing_or _⟩
    · rw [hcall, hsent]
      exact Nat.le_refl _
    · rw [hcall, htaken]
      exact Nat.le_add_right _ _
    · rw [hcall]
      exact Nat.zero_le _
  | left =>
    rw [hx] at hstage
    exact absurd hstage id

theorem effort_eq (m : Network (Phase κ ι)) (g : Side → Stage) (s : Side) :
    effort P m g = sideEffort P m g s + sideEffort P m g s.other := by
  cases s with
  | client => rfl
  | server => exact Nat.add_comm _ _

/-- A call that moves bytes on moves at least one. -/
theorem transports_pos {σ : Type} {E : Engine σ} {x : σ} {c : EngineCall} (h : E.Legal x c)
    (htransports : c.transports = true) :
    0 < (E.sent x c).length + (E.taken x c).length + c.received.length := by
  cases c with
  | sendrec n =>
    have hlen : (E.sent x (.sendrec n)).length = n := List.length_take_of_le h.2
    have := h.1
    omega
  | recvrec data =>
    have hpos : 0 < (EngineCall.recvrec data).received.length := List.length_pos_of_ne_nil h.1
    omega
  | recvapp n =>
    have hlen : (E.taken x (.recvapp n)).length = n := List.length_take_of_le h.2
    have := h.1
    omega
  | sendapp data => exact absurd htransports Bool.false_ne_true
  | flush => exact absurd htransports Bool.false_ne_true
  | close => exact absurd htransports Bool.false_ne_true

theorem injected_of_transports {c : EngineCall} (h : c.transports = true) : c.injected = [] := by
  cases c with
  | sendapp data => exact absurd h Bool.false_ne_true
  | _ => rfl

/-- Each move that moves bytes on leaves less to do, and puts nothing new in. -/
theorem session_transport (hP : P.Suits maxLen room) (hM : P.Matched maxLen rel)
    (h : Session P maxLen rel m stages) {s : Side} {c : EngineCall}
    (hmove : m.CanMove (endpointEngine P maxLen room) s c) (htransports : c.transports = true) :
    ∃ stages', Session P maxLen rel (m.move (endpointEngine P maxLen room) s c) stages' ∧
      effort P (m.move (endpointEngine P maxLen room) s c) stages' < effort P m stages ∧
      ∀ t, ((m.move (endpointEngine P maxLen room) s c).ends t).gathered.length ≤
        (m.ends t).gathered.length := by
  obtain ⟨g', hsession, hout, hin, hgathered⟩ := session_move hP hM h hmove
  have hne := s.other_ne
  have hinj := injected_of_transports htransports
  obtain ⟨hends, hends', hwire₁, hwire₂, -⟩ := m.move_at (endpointEngine P maxLen room) s c
  refine ⟨_, hsession, ?_, fun t => ?_⟩
  · have hpos := transports_pos hmove.1 htransports
    have hout := hout hinj
    have hwire : c.received.length ≤ (m.wire s).length := hmove.2.length_le
    rw [effort_eq _ _ s, effort_eq _ _ s]
    simp only [sideEffort, hends, hends', hwire₁, hwire₂, Function.update_self,
      Function.update_of_ne hne, List.length_append, List.length_drop]
    omega
  · rcases s.eq_or t with rfl | rfl
    · rw [hends]
      rwa [hinj] at hgathered
    · rw [hends']

end Sessions

end BearTLS
