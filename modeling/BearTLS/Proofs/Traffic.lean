import BearTLS.Proofs.Calls

/-! The traffic of an open connection: everything that happens to it between
`wm_tls_open` and the release in `wm_tls_close` is on its own socket. -/

namespace BearTLS

open Relation

variable {σ α : Type} {E : Engine σ} {os : Host σ}

/-- Record traffic on a socket, or plaintext in or out. -/
def Event.onSocket (sock : Option Socket) : Event σ → Prop
  | .send s _ _ => s = sock
  | .recv s _ _ _ => s = sock
  | .sendapp _ => True
  | .recvapp _ => True
  | _ => False

structure Traffic (c c' : Conn σ) : Prop where
  sock : c'.sock = c.sock
  log : ∃ evs, c'.log = c.log ++ evs ∧ ∀ ev ∈ evs, ev.onSocket c.sock

theorem Traffic.refl (c : Conn σ) : Traffic c c := ⟨rfl, [], by simp, by simp⟩

theorem Traffic.trans {c c' c'' : Conn σ} (h : Traffic c c') (h' : Traffic c' c'') :
    Traffic c c'' := by
  obtain ⟨hsock, evs, hlog, hevs⟩ := h
  obtain ⟨hsock', evs', hlog', hevs'⟩ := h'
  refine ⟨hsock'.trans hsock, evs ++ evs', by rw [hlog', hlog, List.append_assoc], ?_⟩
  intro ev hev
  rcases List.mem_append.mp hev with hev | hev
  · exact hevs ev hev
  · exact hsock ▸ hevs' ev hev

theorem Traffic.single {c c' : Conn σ} {ev : Event σ} (hsock : c'.sock = c.sock)
    (hlog : c'.log = c.log ++ [ev]) (hev : ev.onSocket c.sock) : Traffic c c' :=
  ⟨hsock, [ev], hlog, by simpa using hev⟩

section Close

/-- Nothing but `send` on the socket. -/
def SendsOn (sock : Option Socket) (evs : Log σ) : Prop :=
  ∀ ev ∈ evs, ∃ buf wr, ev = .send sock buf wr

theorem SendsOn.received {sock : Option Socket} {evs : Log σ} (h : SendsOn sock evs) :
    receivedBytes evs = [] := by
  induction evs with
  | nil => rfl
  | cons ev evs ih =>
    obtain ⟨buf, wr, rfl⟩ := h ev (List.mem_cons_self ..)
    exact ih fun ev' hev' => h ev' (List.mem_cons_of_mem _ hev')

theorem SendsOn.append {sock : Option Socket} {evs evs' : Log σ} (h : SendsOn sock evs)
    (h' : SendsOn sock evs') : SendsOn sock (evs ++ evs') := by
  intro ev hev
  exact (List.mem_append.mp hev).elim (h ev) (h' ev)

variable (E os) in
theorem send_pending_sends (fuel : ℕ) (c : Conn σ) (r : ResultPtr) :
    (wmTlsSendPendingRecords E os fuel c r).conn.sock = c.sock ∧
      ∃ evs, SendsOn c.sock evs ∧
        (wmTlsSendPendingRecords E os fuel c r).conn.log = c.log ++ evs := by
  induction fuel generalizing c with
  | zero => exact ⟨rfl, [], by simp [SendsOn], by simp [wmTlsSendPendingRecords]⟩
  | succ fuel ih =>
    simp only [wmTlsSendPendingRecords]
    have hone : ∀ wr, SendsOn c.sock ([.send c.sock (E.sendrecBuf c.eng) wr] : Log σ) := by
      intro wr ev hev
      exact ⟨_, wr, List.mem_singleton.mp hev⟩
    split_ifs
    · exact ⟨rfl, [_], hone _, rfl⟩
    · obtain ⟨hsock, evs, hevs, hlog⟩ := ih { c.did (.send c.sock (E.sendrecBuf c.eng)
        ((os.send c.log (E.sendrecBuf c.eng)).map Fin.val)) with
          eng := E.sendrecAck c.eng (((os.send c.log (E.sendrecBuf c.eng)).map Fin.val).getD 0) }
      exact ⟨hsock, [_] ++ evs, (hone _).append hevs, hlog.trans (List.append_assoc ..)⟩
    · exact ⟨rfl, [], by simp [SendsOn], by simp⟩

variable (E os) in
theorem close_drain_sends (fuel : ℕ) (c : Conn σ) :
    (wmTlsCloseDrain E os fuel c).2.sock = c.sock ∧
      ∃ evs, SendsOn c.sock evs ∧ (wmTlsCloseDrain E os fuel c).2.log = c.log ++ evs := by
  induction fuel generalizing c with
  | zero => exact ⟨rfl, [], by simp [SendsOn], by simp [wmTlsCloseDrain]⟩
  | succ fuel ih =>
    simp only [wmTlsCloseDrain]
    split_ifs
    · have hsend := send_pending_sends E os fuel c none
      cases (wmTlsSendPendingRecords E os fuel c none).ret with
      | none => exact hsend
      | some ok =>
        cases ok with
        | false => exact hsend
        | true =>
          obtain ⟨hsock, evs, hevs, hlog⟩ := hsend
          obtain ⟨hsock', evs', hevs', hlog'⟩ := ih (wmTlsSendPendingRecords E os fuel c none).conn
          rw [hsock] at hevs'
          refine ⟨hsock'.trans hsock, evs ++ evs', hevs.append hevs', ?_⟩
          rw [hlog', hlog, List.append_assoc]
    · exact ⟨rfl, [], by simp [SendsOn], by simp⟩

variable (E os) in
/-- A close sends what is pending, and then releases the connection once. -/
theorem close_log (fuel : ℕ) (c : Conn σ) :
    ∃ evs c', SendsOn c.sock evs ∧ (wmTlsClose E os fuel (some c)).2 = some c' ∧
      ((wmTlsClose E os fuel (some c)).1 = none → c'.log = c.log ++ evs) ∧
      ((wmTlsClose E os fuel (some c)).1 = some () →
        c'.log = wmHttpsDisconnect c.sock (c.log ++ evs) ++ [.heapFree]) := by
  have hdrain : ∃ evs, SendsOn c.sock evs ∧
      (if c.closed then (some (), c)
        else wmTlsCloseDrain E os fuel { c with eng := E.close c.eng }).2.log = c.log ++ evs ∧
      (if c.closed then (some (), c)
        else wmTlsCloseDrain E os fuel { c with eng := E.close c.eng }).2.sock = c.sock := by
    split_ifs
    · exact ⟨[], by simp [SendsOn], by simp, rfl⟩
    · obtain ⟨hsock, evs, hevs, hlog⟩ := close_drain_sends E os fuel
        { c with eng := E.close c.eng }
      exact ⟨evs, hevs, hlog, hsock⟩
  obtain ⟨evs, hevs, hlog, hsock⟩ := hdrain
  simp only [wmTlsClose]
  set d := if c.closed then (some (), c)
    else wmTlsCloseDrain E os fuel { c with eng := E.close c.eng }
  cases hd : d.1 with
  | none => exact ⟨evs, d.2, hevs, rfl, fun _ => hlog, by simp⟩
  | some u =>
    refine ⟨evs, _, hevs, rfl, by simp, fun _ => ?_⟩
    rw [← hsock, ← hlog]

end Close

end BearTLS
