import BearTLS.Proofs.Exchange
import BearTLS.Proofs.Inbound
import BearTLS.Proofs.EndOfStream
import BearTLS.Proofs.TwoRuns

/-! What an exchange leaves in the response buffer: the bytes it has received, and
a NUL behind them. -/

namespace BearTLS

open Memory Relation

variable {σ α : Type} {E : Engine σ} {H : History σ} {os : Host σ} {anchors : Option α}
  {reset : α → List UInt8 → Bool × σ}

section Collect

variable (E os) in
/-- The memory does not steer the loop. -/
theorem collect_memory (size fuel : ℕ) (conn : Option (Conn σ)) (m m' : Mem) (len : ℕ) (ok : Bool)
    (r : ResultPtr) :
    let l := wmTlsCollect E os size fuel conn m len ok r
    let l' := wmTlsCollect E os size fuel conn m' len ok r
    l.ret = l'.ret ∧ l.conn = l'.conn ∧ l.responseLen = l'.responseLen ∧ l.ok = l'.ok ∧
      l.result = l'.result := by
  induction fuel generalizing conn m m' len ok r with
  | zero => exact ⟨rfl, rfl, rfl, rfl, rfl⟩
  | succ fuel ih =>
    simp only [wmTlsCollect]
    cases (wmTlsRead E os fuel conn true (size - len - 1) (some 0) r).ret with
    | none => exact ⟨rfl, rfl, rfl, rfl, rfl⟩
    | some done =>
      cases done with
      | false => exact ⟨rfl, rfl, rfl, rfl, rfl⟩
      | true =>
        dsimp only
        split_ifs
        · exact ⟨rfl, rfl, rfl, rfl, rfl⟩
        · exact ⟨rfl, rfl, rfl, rfl, rfl⟩
        · exact ih _ _ _ _ _ _

variable (E os) in
theorem read_loop_stores (size fuel : ℕ) (c : Conn σ) (br : Option ℕ) (r : ResultPtr) :
    (wmTlsReadLoop E os size fuel c br r).data.length ≤ size ∧
      ((wmTlsReadLoop E os size fuel c br r).data ≠ [] →
        (wmTlsReadLoop E os size fuel c br r).ret = some true) := by
  induction fuel generalizing c r with
  | zero => exact ⟨Nat.zero_le _, fun h => absurd rfl h⟩
  | succ fuel ih =>
    cases hc : (E.currentState c.eng).closed with
    | true =>
      rw [read_loop_closed size fuel c br r hc]
      exact ⟨Nat.zero_le _, fun h => absurd rfl h⟩
    | false =>
      rcases Nat.eq_zero_or_pos (readTake E size c.eng) with ht | ht
      · rw [read_loop_drive size fuel c br r hc ht]
        cases (wmTlsDriveRecords E os fuel c none).ret with
        | none => exact ⟨Nat.zero_le _, fun h => absurd rfl h⟩
        | some done =>
          cases done with
          | false => exact ⟨Nat.zero_le _, fun h => absurd rfl h⟩
          | true =>
            dsimp only
            split_ifs
            · exact ⟨Nat.zero_le _, fun h => absurd rfl h⟩
            · exact ih _ _
      · rw [read_loop_deliver size fuel c br r hc ht]
        refine ⟨?_, fun _ => rfl⟩
        rw [List.length_take]
        have := (readTake_le (E := E) size c.eng).1
        omega

variable (E os) in
/-- A read stores at most what fits, counts it, and stores nothing unless it succeeds. -/
theorem read_stores (fuel : ℕ) (conn : Option (Conn σ)) (size : ℕ) (r : ResultPtr) :
    let o := wmTlsRead E os fuel conn true size (some 0) r
    o.data.length ≤ size ∧ o.bytesRead = some o.data.length ∧
      (o.data ≠ [] → o.ret = some true) := by
  cases conn with
  | none => exact ⟨Nat.zero_le _, rfl, fun h => absurd rfl h⟩
  | some c =>
    rcases Nat.eq_zero_or_pos size with rfl | hsize
    · exact ⟨Nat.zero_le _, rfl, fun h => absurd rfl h⟩
    · rw [read_eq E os hsize]
      obtain ⟨-, -, -, -, hbr⟩ := read_loop_account (E := E) size fuel c (some 0)
        (wmHttpsZeroResult r) rfl
      obtain ⟨hle, hret⟩ := read_loop_stores E os size fuel c (some 0)
        (wmHttpsZeroResult r)
      exact ⟨hle, hbr, hret⟩

/-- What is in memory behind `data` stored at `len`. -/
def stored (m : Mem) (len : ℕ) (data : List UInt8) : Mem :=
  if data = [] then m else store m len (data ++ [0])

theorem stored_nil (m : Mem) (len : ℕ) : stored m len [] = m := if_pos rfl

theorem stored_outside {m : Mem} {len : ℕ} {data : List UInt8} {i : ℕ}
    (h : i < len ∨ len + data.length < i) : stored m len data i = m i := by
  unfold stored
  split_ifs with hd
  · rfl
  · apply store_outside
    rw [List.length_append, List.length_singleton]
    omega

theorem stored_nul {m : Mem} {len : ℕ} (hm : m len = 0) (data : List UInt8) :
    stored m len data (len + data.length) = 0 := by
  unfold stored
  split_ifs with hd
  · rw [hd]
    exact hm
  · rw [← store_append]
    have h := load_store_same (store m len data) (len + data.length) [0]
    rw [List.length_singleton, load_one] at h
    exact List.head_eq_of_cons_eq h

theorem stored_load {m : Mem} {len : ℕ} (data : List UInt8) :
    load (stored m len data) len data.length = data := by
  unfold stored
  split_ifs with hd
  · rw [hd]
    rfl
  · rw [← store_append, load_store_disjoint _ _ _ _ _ (.inl (Nat.le_refl _)), load_store_same]

/-- More data behind what is stored, over the NUL. -/
theorem stored_append (m : Mem) (len : ℕ) {xs : List UInt8} (hxs : xs ≠ []) (ys : List UInt8) :
    stored (store (store m len xs) (len + xs.length) [0]) (len + xs.length) ys =
      stored m len (xs ++ ys) := by
  have hne : xs ++ ys ≠ [] := fun h => hxs (List.append_eq_nil_iff.mp h).1
  unfold stored
  rw [if_neg hne]
  split_ifs with hys
  · rw [hys, List.append_nil, store_append]
  · rw [store_overwrite _ _ _ _ (by simp), store_append, List.append_assoc]

variable (E os) in
/-- The loop stores some data in one stretch, with a NUL behind it. -/
theorem collect_stores (size fuel : ℕ) (conn : Option (Conn σ)) (m : Mem) {len : ℕ} (ok : Bool)
    (r : ResultPtr) (hlen : len < size - 1) :
    let l := wmTlsCollect E os size fuel conn m len ok r
    ∃ data, l.responseLen = len + data.length ∧ l.responseLen ≤ size - 1 ∧
      l.response = stored m len data ∧ l.ok = (ok || decide (data ≠ [])) := by
  induction fuel generalizing conn m len ok r with
  | zero => exact ⟨[], rfl, Nat.le_of_lt hlen, (stored_nil m len).symm, by simp [wmTlsCollect]⟩
  | succ fuel ih =>
    obtain ⟨hle, hbr, hret⟩ := read_stores E os fuel conn (size - len - 1) r
    simp only [wmTlsCollect, hbr, Option.getD_some]
    set o := wmTlsRead E os fuel conn true (size - len - 1) (some 0) r
    by_cases hdata : o.data = []
    · have hstore : store m len o.data = m := by rw [hdata, store_nil]
      rw [hstore, hdata]
      cases o.ret with
      | none => exact ⟨[], rfl, Nat.le_of_lt hlen, (stored_nil m len).symm, by simp⟩
      | some done =>
        cases done with
        | false => exact ⟨[], rfl, Nat.le_of_lt hlen, (stored_nil m len).symm, by simp⟩
        | true => exact ⟨[], rfl, Nat.le_of_lt hlen, (stored_nil m len).symm, by simp⟩
    · rw [hret hdata]
      dsimp only
      rw [if_neg (by simpa using hdata)]
      split_ifs with hfull
      · refine ⟨o.data, rfl, ?_, ?_, by simp [hdata]⟩
        · dsimp only
          omega
        · rw [stored, if_neg hdata, store_append]
      · have hnext : len + o.data.length < size - 1 := Nat.lt_of_not_le hfull
        obtain ⟨data, h₁, h₂, h₃, h₄⟩ := ih o.conn
          (store (store m len o.data) (len + o.data.length) [0]) true o.result hnext
        refine ⟨o.data ++ data, ?_, h₂, ?_, ?_⟩
        · rw [h₁, List.length_append, Nat.add_assoc]
        · rw [h₃, stored_append m len hdata]
        · rw [h₄]
          simp [hdata]

end Collect

section Terminated

variable (E os anchors reset) in
/-- How many bytes the call has collected. -/
def ExchangeCall.responseLen (x : ExchangeCall σ) : ℕ :=
  if (x.opened E os anchors reset).ret = some true ∧
      (x.written E os anchors reset).ret = some true then
    (x.collected E os anchors reset fun _ => 0).responseLen
  else 0

variable (E os anchors reset) in
/-- At every moment of an accepted call the response holds what has been collected,
with a NUL behind it, and nothing else has changed. -/
theorem run_stores (x : ExchangeCall σ) (m : Mem) :
    x.responseLen E os anchors reset ≤ x.responseSize.toNat - 1 ∧
    ∃ data, data.length = x.responseLen E os anchors reset ∧
      (x.run E os anchors reset m).response = some (stored (store m 0 [0]) 0 data) := by
  have hroom : 0 < x.responseSize.toNat - 1 := by
    have := x.room
    omega
  have hlen := (collect_memory E os x.responseSize.toNat x.fuel
    (x.written E os anchors reset).conn (store m 0 [0]) (store (fun _ => 0) 0 [0]) 0 false
    (x.written E os anchors reset).result).2.2.1
  obtain ⟨data, hdata, hle, hresp, -⟩ := collect_stores E os x.responseSize.toNat
    x.fuel (x.written E os anchors reset).conn (store m 0 [0]) false
    (x.written E os anchors reset).result hroom
  have hnone := (stored_nil (store m 0 [0]) 0).symm
  unfold ExchangeCall.responseLen
  have hexit := x.run_exit E os anchors reset m
  generalize x.run E os anchors reset m = o at hexit ⊢
  have hcount : data.length = (x.collected E os anchors reset fun _ => 0).responseLen := by
    rw [ExchangeCall.collected, ← hlen, hdata, Nat.zero_add]
  cases hexit with
  | opening hop =>
    rw [if_neg fun h => hop h.1]
    exact ⟨Nat.zero_le _, [], rfl, congrArg some hnone⟩
  | writing hop hw =>
    rw [if_neg fun h => by simp [hw] at h]
    exact ⟨Nat.zero_le _, [], rfl, congrArg some hnone⟩
  | writeFailed hop hw =>
    rw [if_neg fun h => by simp [hw] at h]
    exact ⟨Nat.zero_le _, [], rfl, congrArg some hnone⟩
  | reading hop hw hl =>
    rw [if_pos ⟨hop, hw⟩, ← hcount]
    exact ⟨by omega, data, rfl, congrArg some hresp⟩
  | readFailed hop hw hl =>
    rw [if_pos ⟨hop, hw⟩, ← hcount]
    exact ⟨by omega, data, rfl, congrArg some hresp⟩
  | done hop hw hl =>
    rw [if_pos ⟨hop, hw⟩, ← hcount]
    exact ⟨by omega, data, rfl, congrArg some hresp⟩

/-- Some byte of the buffer is NUL whenever the call has returned, whatever was
there before; `o` is the call on a given buffer. -/
def Terminates (responseSize : ℤ) (o : Mem → ExchangeOut σ) : Prop :=
  ∃ i < responseSize.toNat, ∀ m ret, (o m).ret = some ret →
    ∃ m', (o m).response = some m' ∧ m' i = 0

theorem run_terminates (x : ExchangeCall σ) :
    Terminates x.responseSize (x.run E os anchors reset) := by
  refine ⟨x.responseLen E os anchors reset, ?_, fun m ret _ => ?_⟩
  · have hle := (run_stores E os anchors reset x fun _ => 0).1
    have := x.room
    omega
  · obtain ⟨-, data, hlen, hresp⟩ := run_stores E os anchors reset x m
    refine ⟨_, hresp, ?_⟩
    have hnul := stored_nul (show store m 0 [0] 0 = 0 from rfl) data
    rwa [Nat.zero_add, hlen] at hnul

/-- A call that returns at once and stores nothing does not terminate the buffer. -/
theorem not_terminates {responseSize : ℤ} {o : Mem → ExchangeOut σ}
    (h : ∀ m, (o m).ret = some false ∧ (o m).response = some m) : ¬ Terminates responseSize o := by
  rintro ⟨i, -, hnul⟩
  obtain ⟨m', hm', h0⟩ := hnul (fun _ => 1) false (h _).1
  rw [(h _).2] at hm'
  obtain rfl := Option.some.inj hm'
  cases h0

theorem request_terminates_iff (fuel : ℕ) (host : Option CString) (port : UInt16)
    (method path extraHeaders body : Option CString) (responseSize : ℤ) (stack : Mem)
    (log : Log σ) (r : ResultPtr) :
    Terminates responseSize (fun m => wmHttpsRequest E os anchors reset fuel host port method path
        extraHeaders body (some m) responseSize stack log r) ↔
      host ≠ none ∧ path ≠ none ∧ 1 < responseSize := by
  by_cases hrej : RequestRejected host path (some fun _ => 0) responseSize
  · have hsame : ∀ m, RequestRejected host path (some m) responseSize := by
      intro m
      simpa only [RequestRejected, reduceCtorEq, false_or] using hrej
    refine iff_of_false (not_terminates fun m => ?_) ?_
    · rcases request_cases E os anchors reset fuel host port method path extraHeaders body (some m)
        responseSize stack log r with ⟨-, heq⟩ | ⟨hacc, -⟩
      · rw [heq]
        exact ⟨rfl, rfl⟩
      · exact absurd (hsame m) hacc
    · rintro ⟨hhost, hpath, hsize⟩
      rcases hrej with h | h | h | h
      · exact hhost h
      · exact hpath h
      · cases h
      · omega
  · rcases request_cases E os anchors reset fuel host port method path extraHeaders body
      (some fun _ => 0) responseSize stack log r with ⟨h, -⟩ | ⟨-, x, rfl, -, -, heq⟩
    · exact absurd h hrej
    · simp only [RequestRejected, not_or] at hrej
      refine iff_of_true ?_ ⟨hrej.1, hrej.2.1, by omega⟩
      rw [funext heq]
      exact run_terminates x

/-- The response is a C string after a call exactly when the call has accepted its
arguments: the other pointers are there and the buffer has room for a byte and a NUL. -/
theorem response_terminated_iff (E : Engine σ) (os : Host σ) (anchors : Option α)
    (reset : α → List UInt8 → Bool × σ) :
    (∀ fuel host port sniHost requestText (responseSize : ℤ) log r, 0 < responseSize →
      (Terminates responseSize (fun m => wmTlsExchange E os anchors reset fuel host port sniHost
          requestText (some m) responseSize log r) ↔
        host ≠ none ∧ requestText ≠ none ∧ 1 < responseSize)) ∧
    (∀ fuel host port method path extraHeaders body (responseSize : ℤ) stack log r,
      0 < responseSize →
      (Terminates responseSize (fun m => wmHttpsRequest E os anchors reset fuel host port method
          path extraHeaders body (some m) responseSize stack log r) ↔
        host ≠ none ∧ path ≠ none ∧ 1 < responseSize)) ∧
    (∀ fuel host port path (responseSize : ℤ) stack log r, 0 < responseSize →
      (Terminates responseSize (fun m => wmHttpsGet E os anchors reset fuel host port path (some m)
          responseSize stack log r) ↔
        host ≠ none ∧ path ≠ none ∧ 1 < responseSize)) := by
  refine ⟨?_, ?_, ?_⟩
  · intro fuel host port sniHost requestText responseSize log r _
    unfold wmTlsExchange
    by_cases hrej : ExchangeRejected host requestText (some fun _ => 0) responseSize
    · have hsame : ∀ m, ExchangeRejected host requestText (some m) responseSize := by
        intro m
        simpa only [ExchangeRejected, reduceCtorEq, false_or] using hrej
      refine iff_of_false (not_terminates fun m => ?_) ?_
      · rcases exchange_cases E os anchors reset fuel host port sniHost requestText (some m)
          responseSize log r with ⟨-, heq⟩ | ⟨hacc, -⟩
        · rw [heq]
          exact ⟨rfl, rfl⟩
        · exact absurd (hsame m) hacc
      · rintro ⟨hhost, htext, hsize⟩
        rcases hrej with h | h | h | h
        · exact hhost h
        · exact htext h
        · cases h
        · omega
    · rcases exchange_cases E os anchors reset fuel host port sniHost requestText
        (some fun _ => 0) responseSize log r with ⟨h, -⟩ | ⟨-, x, -, -, rfl, -, -, heq⟩
      · exact absurd h hrej
      · simp only [ExchangeRejected, not_or] at hrej
        refine iff_of_true ?_ ⟨hrej.1, hrej.2.1, by omega⟩
        rw [funext heq]
        exact run_terminates x
  · intro fuel host port method path extraHeaders body responseSize stack log r _
    exact request_terminates_iff fuel host port method path extraHeaders body responseSize stack
      log r
  · intro fuel host port path responseSize stack log r _
    exact request_terminates_iff fuel host port _ path none none responseSize stack log r

open PlainEngine in
/-- Without a host, or with one byte of room, the buffer keeps its bytes. -/
theorem rejected_response_unterminated :
    (wmHttpsGet engine (scriptHost (fun _ => 2) []) (some ()) PlainEngine.reset 1 none 443 none
      (some fun _ => 65) 16 (fun _ => 0) [] none).ret = some false ∧
    (wmHttpsGet engine (scriptHost (fun _ => 2) []) (some ()) PlainEngine.reset 1 none 443 none
      (some fun _ => 65) 16 (fun _ => 0) [] none).response = some (fun _ => 65) ∧
    (wmTlsExchange engine (scriptHost (fun _ => 2) []) (some ()) PlainEngine.reset 1 (some [119])
      443 none (some [71]) (some fun _ => 65) 1 [] none).ret = some false ∧
    (wmTlsExchange engine (scriptHost (fun _ => 2) []) (some ()) PlainEngine.reset 1 (some [119])
      443 none (some [71]) (some fun _ => 65) 1 [] none).response = some (fun _ => 65) :=
  ⟨rfl, rfl, rfl, rfl⟩

end Terminated

end BearTLS
