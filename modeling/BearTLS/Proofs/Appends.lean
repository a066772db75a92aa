import BearTLS.Spec.Request

/-! The capped appends compose to a prefix of the whole request: from any fill level
an append adds what fits, and nothing once one of them has been cut short. -/

namespace BearTLS

open HeaderBlock Memory

/-- The buffer holds what fits of `text`, a NUL behind it, and nothing beyond `cap`. -/
structure Filled (cap : ℕ) (m₀ : Mem) (text : List UInt8) (b : RequestBuf) : Prop where
  used : b.used = min text.length (cap - 1)
  text : load b.request 0 b.used = text.take (cap - 1)
  nul : b.request b.used = 0
  frame : ∀ i, cap ≤ i → b.request i = m₀ i

variable {requestSize : ℤ} {m₀ : Mem}

theorem filled_start (h : 0 < requestSize) (m₀ : Mem) :
    Filled requestSize.toNat m₀ [] ⟨store m₀ 0 [0], 0⟩ where
  used := by simp
  text := by simp
  nul := rfl
  frame i hi := store_outside m₀ 0 [0] (.inr (by simp only [List.length_singleton]; omega))

/-- One append, from any fill level. -/
theorem append_filled (h : 0 < requestSize) {text : List UInt8} {b : RequestBuf}
    (hb : Filled requestSize.toNat m₀ text b) (chunk : List UInt8) :
    Filled requestSize.toNat m₀ (text ++ chunk) (appendCapped requestSize b (some chunk)) := by
  have hused := hb.used
  simp only [appendCapped, if_neg (Int.not_le.mpr h)]
  by_cases hfull : b.used ≥ requestSize.toNat - 1
  · -- no room: the text already reaches the end of the buffer
    rw [if_pos hfull]
    have hlen : requestSize.toNat - 1 ≤ text.length := by omega
    refine ⟨?_, ?_, hb.nul, hb.frame⟩
    · rw [List.length_append]
      omega
    · rw [hb.text, List.take_append_of_le_length hlen]
  rw [if_neg hfull]
  set k := if chunk.length > requestSize.toNat - b.used - 1 then requestSize.toNat - b.used - 1
    else chunk.length with hk
  have hmin : k = min chunk.length (requestSize.toNat - b.used - 1) := by
    rw [hk]
    split_ifs <;> omega
  have hall : b.used = text.length := by omega
  have hchunk : (chunk.take k).length = k := by
    rw [List.length_take]
    omega
  set m := store b.request b.used (chunk.take k) with hm
  have hbelow : load b.request 0 b.used = text := by
    rw [hb.text]
    exact List.take_of_length_le (by omega)
  have hnew := load_store_append b.request b.used (chunk.take k)
  rw [hchunk, hbelow, ← hm] at hnew
  have hwhole : load (store m (b.used + k) [0]) 0 (b.used + k) = text ++ chunk.take k := by
    rw [load_store_disjoint _ _ _ _ _ (.inl (by omega)), hnew]
  constructor
  · dsimp only
    rw [List.length_append]
    omega
  · dsimp only
    rw [hwhole, List.take_append, List.take_of_length_le (l := text) (by omega)]
    congr 1
    rw [List.take_eq_take_iff]
    omega
  · simp [store]
  · intro i hi
    dsimp only
    rw [store_outside m _ _ (.inr (by simp only [List.length_singleton]; omega)), hm,
      store_outside _ _ _ (.inr (by omega)), hb.frame i hi]

/-- A full buffer takes nothing more. -/
theorem append_full {b : RequestBuf} (hfull : b.used ≥ requestSize.toNat - 1)
    (chunk : List UInt8) : appendCapped requestSize b (some chunk) = b := by
  rw [appendCapped]
  dsimp only
  split_ifs
  · rfl
  · rfl

theorem append_cut (h : 0 < requestSize) {text chunk : List UInt8} {b : RequestBuf}
    (hb : Filled requestSize.toNat m₀ text b)
    (hcut : (appendCapped requestSize b (some chunk)).used < b.used + chunk.length) :
    (appendCapped requestSize b (some chunk)).used ≥ requestSize.toNat - 1 := by
  have hused := hb.used
  have hnext := (append_filled h hb chunk).used
  rw [List.length_append] at hnext
  omega

section Appends

variable {b : RequestBuf} {texts : List (List UInt8)}

@[simp] theorem appends_nil : appends requestSize b [] = b := rfl

@[simp] theorem appends_cons (text : List UInt8) : appends requestSize b (text :: texts) =
    appends requestSize (appendCapped requestSize b (some text)) texts := rfl

theorem appends_append (more : List (List UInt8)) : appends requestSize b (texts ++ more) =
    appends requestSize (appends requestSize b texts) more := List.foldl_append

theorem appends_toList (text : Option (List UInt8)) :
    appends requestSize b text.toList = appendCapped requestSize b text := by
  cases text with
  | none => rfl
  | some text => rfl

theorem appends_filled (h : 0 < requestSize) {text : List UInt8}
    (hb : Filled requestSize.toNat m₀ text b) :
    Filled requestSize.toNat m₀ (text ++ texts.flatten) (appends requestSize b texts) := by
  induction texts generalizing text b with
  | nil => rwa [List.flatten_nil, List.append_nil]
  | cons chunk texts ih =>
    rw [List.flatten_cons, ← List.append_assoc]
    exact ih (append_filled h hb chunk)

theorem appends_full (hfull : b.used ≥ requestSize.toNat - 1) :
    appends requestSize b texts = b := by
  induction texts with
  | nil => rfl
  | cons chunk texts ih => rw [appends_cons, append_full hfull, ih]

/-- After any of the appends the buffer holds what fits of their texts. -/
theorem start_filled (h : 0 < requestSize) (request : Mem) (done : List (List UInt8)) :
    Filled requestSize.toNat request done.flatten
      (appends requestSize ⟨store request 0 [0], 0⟩ done) :=
  appends_filled h (filled_start h request)

end Appends

namespace RequestArgs

variable (a : RequestArgs)

theorem snprintf_fits {size : ℕ} {text : List UInt8} (h : text.length < size) :
    snprintf size text = text :=
  List.take_of_length_le (by omega)

theorem body_fits : a.bodyBytes.length < 2 ^ 32 := by
  unfold bodyBytes
  cases a.body with
  | none => exact Nat.two_pow_pos 32
  | some s => exact s.fits

theorem port_text : snprintf 16 (ascii ":" ++ decimal a.port.toNat) =
    ascii ":" ++ decimal a.port.toNat := by
  apply snprintf_fits
  have hport := a.port.toNat_lt
  have := length_decimal (n := a.port.toNat) (k := 5) (by omega) (by omega)
  have hcolon : (ascii ":").length = 1 := rfl
  rw [List.length_append, hcolon]
  omega

theorem length_text (n : ℕ) : snprintf 32 (ascii "\r\nContent-Length: " ++ decimal (n % 2 ^ 32)) =
    ascii "\r\nContent-Length: " ++ decimal (n % 2 ^ 32) := by
  apply snprintf_fits
  have hn : n % 2 ^ 32 < 2 ^ 32 := Nat.mod_lt _ (Nat.two_pow_pos 32)
  have := length_decimal (n := n % 2 ^ 32) (k := 10) (by omega) (by omega)
  have hname : (ascii "\r\nContent-Length: ").length = 18 := rfl
  rw [List.length_append, hname]
  omega

theorem include_port :
    (!(a.port == 443 || a.port == 80)) = true ↔ ¬ (a.port = 443 ∨ a.port = 80) := by
  simp

theorem appends_port (b : RequestBuf) :
    appends requestSize b
        (if a.port = 443 ∨ a.port = 80 then [] else [ascii ":" ++ decimal a.port.toNat]) =
      if (!(a.port == 443 || a.port == 80)) = true then
        wmHttpsAppendRequestText requestSize b
          (some (snprintf 16 (ascii ":" ++ decimal a.port.toNat)))
      else b := by
  rw [a.port_text]
  simp only [a.include_port]
  split_ifs
  · rfl
  · rfl

theorem appends_extra (b : RequestBuf) :
    appends requestSize b
        (if a.extraBytes = [] then [] else [ascii "\r\n", a.extraBytes]) =
      match a.extraHeaders with
      | some s =>
        if s.bytes = [] then b
        else wmHttpsAppendRequestText requestSize
          (wmHttpsAppendRequestText requestSize b (some (ascii "\r\n"))) (some s.bytes)
      | none => b := by
  unfold extraBytes
  cases a.extraHeaders with
  | none => rfl
  | some s =>
    simp only [Option.map_some, Option.getD_some]
    split_ifs
    · rfl
    · rfl

theorem appends_length (b : RequestBuf) :
    appends requestSize b (if a.bodyBytes = [] then []
        else [ascii "\r\nContent-Length: " ++ decimal a.bodyBytes.length]) =
      if 0 < a.bodyBytes.length then
        wmHttpsAppendRequestText requestSize b (some (snprintf 32
          (ascii "\r\nContent-Length: " ++ decimal (a.bodyBytes.length % 2 ^ 32))))
      else b := by
  rw [length_text, Nat.mod_eq_of_lt a.body_fits]
  simp only [List.length_pos_iff, ne_eq, ite_not]
  split_ifs
  · rfl
  · rfl

theorem appends_body (b : RequestBuf) :
    appends requestSize b (if a.bodyBytes = [] then [] else [a.bodyBytes]) =
      if 0 < a.bodyBytes.length then
        wmHttpsAppendRequestData requestSize b (a.body.map CString.bytes) a.bodyBytes.length
      else b := by
  unfold bodyBytes
  cases a.body with
  | none => rfl
  | some s =>
    simp only [Option.map_some, Option.getD_some, List.length_pos_iff, ne_eq, ite_not,
      wmHttpsAppendRequestData, List.take_length]
    split_ifs
    · rfl
    · rfl

/-- The function is its appends, one behind the other. -/
theorem build_appends (h : 0 < requestSize) (request : Mem) :
    wmHttpsBuildRequest requestSize a.host a.port a.method a.path a.extraHeaders a.body request =
      appends requestSize ⟨store request 0 [0], 0⟩ a.appended := by
  unfold wmHttpsBuildRequest
  rw [if_neg (Int.not_le.mpr h)]
  extract_lets b₀ bodyLen includePort b₁ b₂ b₃ b₄ b₅ b₆ b₇ b₈ b₉ b₁₀
  have hlen : bodyLen = a.bodyBytes.length := by
    unfold bodyBytes bodyLen
    cases a.body <;> rfl
  -- one fact for each part, in the order of the source
  have hline : appends requestSize b₀ [orDefault a.method (ascii "GET"), ascii " ",
      orDefault a.path (ascii "/"), ascii " HTTP/1.1\r\nHost: "] = b₄ := rfl
  have hhost : appends requestSize b₄ (a.host.map CString.bytes).toList = b₅ := appends_toList _
  have hport : appends requestSize b₅ _ = b₆ := a.appends_port b₅
  have hfixed : appends requestSize b₆ [_] = b₇ := rfl
  have hextra : appends requestSize b₇ _ = b₈ := a.appends_extra b₇
  have hlength : appends requestSize b₈ (if a.bodyBytes = [] then []
      else [ascii "\r\nContent-Length: " ++ decimal a.bodyBytes.length]) = b₉ := by
    rw [a.appends_length b₈, ← hlen]
  have hblank : appends requestSize b₉ [ascii "\r\n\r\n"] = b₁₀ := rfl
  rw [hlen, ← a.appends_body b₁₀, appended]
  simp only [appends_append]
  rw [hline, hhost, hport, hfixed, hextra, hlength, hblank]

/-- The buffer ends as the longest prefix of the whole message that fits, the appends
write nothing outside it, and none of them adds anything behind a cut. -/
theorem request_prefix (h : 0 < requestSize) (request : Mem) :
    let b := wmHttpsBuildRequest requestSize a.host a.port a.method a.path a.extraHeaders a.body
      request
    let start : RequestBuf := ⟨store request 0 [0], 0⟩
    let n := min a.whole.length (requestSize.toNat - 1)
    load b.request 0 n = a.whole.take n ∧ b.request n = 0 ∧
      b = appends requestSize start a.appended ∧
      (∀ done, done <+: a.appended → ∀ i, requestSize.toNat ≤ i →
        (appends requestSize start done).request i = request i) ∧
      ∀ done cut rest, a.appended = done ++ cut :: rest →
        (appends requestSize start (done ++ [cut])).used <
          (appends requestSize start done).used + cut.length →
        ∀ more, more <+: rest → appends requestSize start (done ++ [cut] ++ more) =
          appends requestSize start (done ++ [cut]) := by
  intro b start n
  have hb : b = appends requestSize start a.appended := a.build_appends h request
  have hfilled := start_filled h request a.appended
  have hused : (appends requestSize start a.appended).used = n := hfilled.used
  refine ⟨?_, ?_, hb, ?_, ?_⟩
  · have htext := hfilled.text
    rw [hused] at htext
    rw [hb, htext, ← whole, List.take_eq_take_iff]
    omega
  · rw [hb, ← hused]
    exact hfilled.nul
  · intro done _ i hi
    exact (start_filled h request done).frame i hi
  · intro done cut rest _ hcut more _
    have hstep : appends requestSize start (done ++ [cut]) =
        appendCapped requestSize (appends requestSize start done) (some cut) := appends_append [cut]
    rw [hstep] at hcut
    have hfull := append_cut h (start_filled h request done) hcut
    rw [appends_append more, hstep]
    exact appends_full hfull

def bare : RequestArgs := ⟨none, 443, none, none, none, none⟩

set_option maxRecDepth 4000 in
/-- The request line does not fit into five bytes. -/
theorem request_prefix_bare :
    load (wmHttpsBuildRequest 5 none 443 none none none none fun _ => 0).request 0 4 =
      ascii "GET " := by
  have hlen : 4 ≤ bare.whole.length := by decide
  obtain ⟨htext, -⟩ := request_prefix bare (show (0 : ℤ) < 5 by decide) fun _ => 0
  rw [show (5 : ℤ).toNat - 1 = 4 from rfl, Nat.min_eq_right hlen] at htext
  exact htext.trans rfl

end RequestArgs

end BearTLS
