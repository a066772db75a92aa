import BearTLS.Proofs.Appends

/-! A prefix of a request is well framed only when it is the whole. -/

namespace BearTLS

open HeaderBlock Memory

namespace RequestArgs

variable (a : RequestArgs)

/-- The parts of the request in the order of the appends. -/
def parts : List UInt8 :=
  orDefault a.method (ascii "GET") ++ ascii " " ++ orDefault a.path (ascii "/") ++
    ascii " HTTP/1.1\r\nHost: " ++ a.hostBytes ++
    (if (!(a.port == 443 || a.port == 80)) = true then
      snprintf 16 (ascii ":" ++ decimal a.port.toNat) else []) ++
    (ascii "\r\nUser-Agent: Mozilla/5.0 (Windows CE; ARM; HP iPAQ 212)" ++
      ascii "\r\nAccept: */*" ++ ascii "\r\nConnection: close") ++
    (if a.extraBytes = [] then [] else ascii "\r\n" ++ a.extraBytes) ++
    (if 0 < a.bodyBytes.length then snprintf 32 (ascii "\r\nContent-Length: " ++
      decimal (a.bodyBytes.length % 2 ^ 32)) else []) ++
    ascii "\r\n\r\n" ++ a.bodyBytes

/-- No `snprintf` cuts its text. -/
theorem whole_eq_parts : a.whole = a.parts := by
  have hhost : (a.host.map CString.bytes).toList.flatten = a.hostBytes := by
    unfold hostBytes
    cases a.host with
    | none => rfl
    | some s => simp
  have hport : (if a.port = 443 ∨ a.port = 80 then []
      else [ascii ":" ++ decimal a.port.toNat]).flatten =
      if (!(a.port == 443 || a.port == 80)) = true then ascii ":" ++ decimal a.port.toNat
      else [] := by
    simp only [a.include_port]
    split_ifs
    · rfl
    · exact List.flatten_singleton
  have hextra : (if a.extraBytes = [] then [] else [ascii "\r\n", a.extraBytes]).flatten =
      if a.extraBytes = [] then [] else ascii "\r\n" ++ a.extraBytes := by
    split_ifs
    · rfl
    · simp
  have hlength : (if a.bodyBytes = [] then []
      else [ascii "\r\nContent-Length: " ++ decimal a.bodyBytes.length]).flatten =
      if 0 < a.bodyBytes.length then ascii "\r\nContent-Length: " ++ decimal a.bodyBytes.length
      else [] := by
    simp only [List.length_pos_iff, ne_eq, ite_not]
    split_ifs
    · rfl
    · exact List.flatten_singleton
  have hbody : (if a.bodyBytes = [] then [] else [a.bodyBytes]).flatten = a.bodyBytes := by
    split_ifs with h0
    · rw [h0, List.flatten_nil]
    · exact List.flatten_singleton
  unfold whole appended parts
  rw [a.port_text, length_text, Nat.mod_eq_of_lt a.body_fits]
  simp only [List.flatten_append, hhost, hport, hextra, hlength, hbody, List.flatten_cons,
    List.flatten_nil, List.append_nil, List.append_assoc]

theorem build_filled {requestSize : ℤ} (h : 0 < requestSize) (m₀ : Mem) :
    Filled requestSize.toNat m₀ a.parts (wmHttpsBuildRequest requestSize a.host a.port
      a.method a.path a.extraHeaders a.body m₀) := by
  rw [a.build_appends h, ← a.whole_eq_parts]
  exact start_filled h m₀ a.appended

theorem orDefault_not_mem {s : Option CString} {dflt : List UInt8} {b : UInt8} (h : b ∉ dflt)
    (hs : ∀ t, s = some t → b ∉ t.bytes) : b ∉ orDefault s dflt := by
  cases s with
  | none => exact h
  | some t =>
    rw [orDefault]
    split_ifs
    · exact h
    · exact hs t rfl

theorem optional_nul_free (s : Option CString) : (0 : UInt8) ∉ (s.map CString.bytes).getD [] := by
  cases s with
  | none => exact List.not_mem_nil
  | some t => exact t.nul_free

theorem decimal_nul_free (n : ℕ) : (0 : UInt8) ∉ decimal n := fun h =>
  absurd (decimal_digits n 0 h) (by decide)

theorem parts_nul_free : (0 : UInt8) ∉ a.parts := by
  unfold parts
  rw [length_text, port_text]
  simp only [List.mem_append, not_or]
  and_intros
  · exact orDefault_not_mem (by decide) fun t _ => t.nul_free
  · decide
  · exact orDefault_not_mem (by decide) fun t _ => t.nul_free
  · decide
  · exact optional_nul_free a.host
  · split_ifs
    · simpa [List.mem_append] using ⟨(by decide : (0 : UInt8) ∉ ascii ":"), decimal_nul_free _⟩
    · exact List.not_mem_nil
  · decide
  · decide
  · decide
  · split_ifs
    · exact List.not_mem_nil
    · rw [List.mem_append, not_or]
      exact ⟨by decide, optional_nul_free a.extraHeaders⟩
  · split_ifs
    · rw [List.mem_append, not_or]
      exact ⟨by decide, decimal_nul_free _⟩
    · exact List.not_mem_nil
  · decide
  · exact optional_nul_free a.body

/-- What is handed over is cut at the end of the array. -/
theorem handed_eq {response : Option Mem} {responseSize : ℤ} {stack : Mem} {text : List UInt8}
    (h : a.handed response responseSize stack = some text) :
    text = a.parts.take (WM_HTTPS_REQUEST_SIZE - 1) := by
  unfold handed wmHttpsRequestText at h
  split_ifs at h
  obtain rfl := Option.some.inj h
  have hb := a.build_filled (show (0 : ℤ) < WM_HTTPS_REQUEST_SIZE by decide) stack
  set b := wmHttpsBuildRequest WM_HTTPS_REQUEST_SIZE a.host a.port a.method a.path a.extraHeaders
    a.body stack
  have hused : b.used = (a.parts.take (WM_HTTPS_REQUEST_SIZE - 1)).length := by
    rw [hb.used, List.length_take, Nat.min_comm]
    rfl
  have htext := hb.text
  have hnul := hb.nul
  rw [hused] at htext hnul
  refine cstr_eq (fun hmem => a.parts_nul_free (List.mem_of_mem_take hmem)) ?_ htext ?_
  · rw [List.length_take]
    exact Nat.lt_of_le_of_lt (Nat.min_le_left _ _) (by decide)
  · rwa [Nat.zero_add]

theorem handed_none_iff (response : Option Mem) (responseSize : ℤ) (stack : Mem) :
    a.handed response responseSize stack = none ↔
      a.host = none ∨ a.path = none ∨ response = none ∨ responseSize ≤ 1 := by
  unfold handed wmHttpsRequestText
  simp only [Option.isNone_iff_eq_none]
  split_ifs with h
  · exact iff_of_true rfl h
  · exact iff_of_false (by simp) h

theorem parts_eq_message {extra : List (List UInt8)} (h : a.WellFormed extra) :
    a.parts = a.message extra := by
  have hbody : a.bodyBytes.length % 2 ^ 32 = a.bodyBytes.length := Nat.mod_eq_of_lt a.body_fits
  have hextra := joined_lines h.extra
  rw [← h.joined] at hextra
  have hafter : ∀ rest, (if a.extraBytes = [] then [] else CRLF ++ a.extraBytes) ++
      (CRLF ++ rest) = CRLF ++ (extra.flatMap (· ++ CRLF) ++ rest) := by
    intro rest
    rw [← List.append_assoc, hextra, List.append_assoc]
  have hport : (if (!(a.port == 443 || a.port == 80)) = true then
      ascii ":" ++ decimal a.port.toNat else []) =
      if a.port = 443 ∨ a.port = 80 then [] else ascii ":" ++ decimal a.port.toNat := by
    simp only [a.include_port, ite_not]
  -- the line ends of the source's literals
  have hstart : ascii " HTTP/1.1\r\nHost: " = ascii " HTTP/1.1" ++ (CRLF ++ ascii "Host: ") := rfl
  have hagent : ascii "\r\nUser-Agent: Mozilla/5.0 (Windows CE; ARM; HP iPAQ 212)" =
    CRLF ++ ascii "User-Agent: Mozilla/5.0 (Windows CE; ARM; HP iPAQ 212)" := rfl
  have haccept : ascii "\r\nAccept: */*" = CRLF ++ ascii "Accept: */*" := rfl
  have hconn : ascii "\r\nConnection: close" = CRLF ++ ascii "Connection: close" := rfl
  have hlength : ascii "\r\nContent-Length: " = CRLF ++ ascii "Content-Length: " := rfl
  have hend : ascii "\r\n\r\n" = CRLF ++ CRLF := rfl
  have hcrlf : ascii "\r\n" = CRLF := rfl
  unfold parts message lines hostLine render
  rw [length_text, port_text, hbody, hport, hstart, hagent, haccept, hconn, hlength, hend, hcrlf]
  by_cases hnil : a.bodyBytes = []
  · have hlen : ¬ 0 < a.bodyBytes.length := by simp [hnil]
    rw [if_neg hlen, if_pos hnil]
    simp only [List.flatMap_append, List.flatMap_cons, List.flatMap_nil, List.append_assoc,
      List.append_nil, hafter]
  · rw [if_pos (List.length_pos_iff.mpr hnil), if_neg hnil]
    simp only [List.flatMap_append, List.flatMap_cons, List.flatMap_nil, List.append_assoc,
      List.append_nil, hafter]

theorem decimal_no_cr (n : ℕ) : (13 : UInt8) ∉ decimal n := fun h =>
  absurd (decimal_digits n 13 h) (by decide)

theorem request_line_clean {extra : List (List UInt8)} (h : a.WellFormed extra) :
    Clean (orDefault a.method (ascii "GET") ++ ascii " " ++ orDefault a.path (ascii "/") ++
      ascii " HTTP/1.1") := by
  refine ⟨List.append_ne_nil_of_right_ne_nil _ (by decide), ?_⟩
  simp only [List.mem_append, not_or]
  exact ⟨⟨⟨orDefault_not_mem (by decide) h.method, by decide⟩,
    orDefault_not_mem (by decide) h.path⟩, by decide⟩

theorem hostLine_clean {extra : List (List UInt8)} (h : a.WellFormed extra) : Clean a.hostLine := by
  unfold hostLine
  refine ⟨List.append_ne_nil_of_left_ne_nil (List.append_ne_nil_of_left_ne_nil (by decide) _) _, ?_⟩
  simp only [List.mem_append, not_or]
  refine ⟨⟨by decide, h.host⟩, ?_⟩
  split_ifs
  · exact List.not_mem_nil
  · rw [List.mem_append, not_or]
    exact ⟨by decide, decimal_no_cr _⟩

theorem length_line_clean (n : ℕ) : Clean (ascii "Content-Length: " ++ decimal n) := by
  refine ⟨List.append_ne_nil_of_left_ne_nil (by decide) _, ?_⟩
  rw [List.mem_append, not_or]
  exact ⟨by decide, decimal_no_cr n⟩

theorem lines_clean {extra : List (List UInt8)} (h : a.WellFormed extra) :
    ∀ l ∈ a.lines extra, Clean l := by
  intro l hl
  unfold lines at hl
  simp only [List.mem_append, List.mem_cons, List.not_mem_nil, or_false] at hl
  rcases hl with ((rfl | rfl | rfl | rfl | rfl) | hl) | hl
  · exact a.request_line_clean h
  · exact a.hostLine_clean h
  · exact ⟨by decide, by decide⟩
  · exact ⟨by decide, by decide⟩
  · exact ⟨by decide, by decide⟩
  · exact h.extra l hl
  · split_ifs at hl
    · exact absurd hl List.not_mem_nil
    · obtain rfl := List.mem_singleton.mp hl
      exact length_line_clean _

theorem hostLine_not_length : ¬ IsContentLength a.hostLine := by
  have hfield : a.hostLine = ascii "Host" ++ 58 :: (32 :: (a.hostBytes ++
      if a.port = 443 ∨ a.port = 80 then [] else ascii ":" ++ decimal a.port.toNat)) := by
    unfold hostLine
    rw [List.append_assoc]
    rfl
  rw [hfield, isContentLength_field (by decide)]
  decide

theorem length_line (n : ℕ) : IsContentLength (ascii "Content-Length: " ++ decimal n) ∧
    fieldLength (ascii "Content-Length: " ++ decimal n) = some n := by
  have hname : ascii "Content-Length: " = ascii "Content-Length" ++ [58, 32] := rfl
  refine ⟨?_, ?_⟩
  · rw [hname, List.append_assoc]
    exact (isContentLength_field (by decide)).mpr (by decide)
  · rw [hname]
    exact fieldLength_decimal (by decide) n

/-- Only the caller's own lines and the last one say a length. -/
theorem lengths_iff (extra : List (List UInt8)) (n : ℕ) :
    (∀ l ∈ (a.lines extra).tail, IsContentLength l → fieldLength l = some n) ↔
      (∀ l ∈ extra, IsContentLength l → fieldLength l = some n) ∧
        (a.bodyBytes ≠ [] → a.bodyBytes.length = n) := by
  have hlen := length_line a.bodyBytes.length
  have htail : (a.lines extra).tail = [a.hostLine,
      ascii "User-Agent: Mozilla/5.0 (Windows CE; ARM; HP iPAQ 212)", ascii "Accept: */*",
      ascii "Connection: close"] ++ extra ++ (if a.bodyBytes = [] then []
        else [ascii "Content-Length: " ++ decimal a.bodyBytes.length]) := rfl
  rw [htail]
  constructor
  · intro h
    refine ⟨fun l hl => h l (by simp [hl]), fun hne => ?_⟩
    have := h _ (List.mem_append_right _ (by rw [if_neg hne]; exact List.mem_singleton_self _))
      hlen.1
    exact Option.some.inj (hlen.2.symm.trans this)
  · rintro ⟨hextra, hbody⟩ l hl hcl
    simp only [List.mem_append, List.mem_cons, List.not_mem_nil, or_false] at hl
    rcases hl with ((rfl | rfl | rfl | rfl) | hl) | hl
    · exact absurd hcl a.hostLine_not_length
    · exact absurd hcl (by decide)
    · exact absurd hcl (by decide)
    · exact absurd hcl (by decide)
    · exact hextra l hl hcl
    · split_ifs at hl with hne
      · exact absurd hl List.not_mem_nil
      · obtain rfl := List.mem_singleton.mp hl
        rw [hlen.2, hbody hne]

/-- A prefix of the message is well framed only when nothing is cut. -/
theorem framed_take_iff {extra : List (List UInt8)} (h : a.WellFormed extra) (cap : ℕ) :
    Framed (a.lines extra) ((a.message extra).take cap) ↔
      (a.message extra).length ≤ cap ∧
        ∀ l ∈ extra, IsContentLength l → fieldLength l = some a.bodyBytes.length := by
  have hmessage : (a.message extra).length =
      (render (a.lines extra)).length + a.bodyBytes.length := List.length_append
  constructor
  · rintro ⟨body, hparse, hlengths⟩
    obtain ⟨hextra, hown⟩ := (a.lengths_iff extra body.length).mp hlengths
    have hsplit := congrArg List.length (parse_sound hparse)
    rw [List.length_take, List.length_append] at hsplit
    have hbody : a.bodyBytes.length = body.length := by
      by_cases hnil : a.bodyBytes = []
      · rw [hnil, List.length_nil] at hmessage ⊢
        omega
      · exact hown hnil
    exact ⟨by omega, hbody ▸ hextra⟩
  · rintro ⟨hfits, hextra⟩
    rw [List.take_of_length_le hfits]
    exact ⟨a.bodyBytes, parse_render (a.lines_clean h) _,
      (a.lengths_iff extra _).mpr ⟨hextra, fun _ => rfl⟩⟩

/-- The handed text is well framed exactly when the message fits the array and the
caller's own lengths are right. -/
theorem request_framed_iff (a : RequestArgs) {extra : List (List UInt8)} (h : a.WellFormed extra)
    (response : Option Mem) (responseSize : ℤ) (stack : Mem) :
    (∀ text, a.handed response responseSize stack = some text → Framed (a.lines extra) text) ↔
      (a.host = none ∨ a.path = none ∨ response = none ∨ responseSize ≤ 1) ∨
        ((a.message extra).length ≤ 4095 ∧
          ∀ l ∈ extra, IsContentLength l → fieldLength l = some a.bodyBytes.length) := by
  rw [← a.handed_none_iff response responseSize stack, ← a.framed_take_iff h]
  have hcut : ∀ text, a.handed response responseSize stack = some text →
      text = (a.message extra).take 4095 := fun text ht =>
    (a.handed_eq ht).trans (by rw [a.parts_eq_message h]; rfl)
  cases hs : a.handed response responseSize stack with
  | none => exact iff_of_true (fun text ht => absurd ht (by simp)) (.inl rfl)
  | some text =>
    rw [← hcut text hs]
    constructor
    · intro hf
      exact .inr (hf text rfl)
    · rintro (hnone | hf) text' ht
      · simp at hnone
      · exact Option.some.inj ht ▸ hf

section Requests

def word (c : UInt8) (hc : 0 ≠ c) (n : ℕ) (hn : n < 2 ^ 32) : CString where
  bytes := List.replicate n c
  nul_free h := hc (List.eq_of_mem_replicate h)
  fits := by rwa [List.length_replicate]

/-- A `POST` of `n` bytes to a one-letter host. -/
def post (n : ℕ) (hn : n < 2 ^ 32) : RequestArgs where
  host := some (word 104 (by decide) 1 (by decide))
  port := 443
  method := some ⟨ascii "POST", by decide, by decide⟩
  path := some (word 47 (by decide) 1 (by decide))
  extraHeaders := none
  body := some (word 65 (by decide) n hn)

theorem post_wellFormed (n : ℕ) (hn : n < 2 ^ 32) : (post n hn).WellFormed [] where
  method s hs := by
    obtain rfl := Option.some.inj hs
    decide
  path s hs := by
    obtain rfl := Option.some.inj hs
    decide
  host := by
    change (13 : UInt8) ∉ List.replicate 1 104
    decide
  joined := rfl
  extra _ hl := absurd hl List.not_mem_nil

theorem post_handed (n : ℕ) (hn : n < 2 ^ 32) :
    ∃ text, (post n hn).handed (some fun _ => 0) 4096 (fun _ => 0) = some text := by
  rw [← Option.isSome_iff_exists, ← Option.ne_none_iff_isSome, ne_eq, handed_none_iff]
  rintro (h | h | h | h)
  · cases h
  · cases h
  · simp at h
  · exact absurd h (by decide)

set_option maxRecDepth 4000 in
theorem request_framed_iff_post : ∃ text,
    (post 5 (by decide)).handed (some fun _ => 0) 4096 (fun _ => 0) = some text ∧
      Framed ((post 5 (by decide)).lines []) text := by
  obtain ⟨text, ht⟩ := post_handed 5 (by decide)
  have hfits : ((post 5 (by decide)).message []).length ≤ 4095 := by decide
  exact ⟨text, ht, (request_framed_iff (post 5 (by decide)) (post_wellFormed 5 (by decide))
    (some fun _ => 0) 4096 fun _ => 0).mpr
      (.inr ⟨hfits, fun _ hl => absurd hl List.not_mem_nil⟩) text ht⟩

/-- A body as long as the array is cut, and the server waits for the rest. -/
theorem long_body_breaks_framing : ¬ ∀ (a : RequestArgs) (extra : List (List UInt8)),
    a.WellFormed extra → ∀ (response : Option Mem) (responseSize : ℤ) (stack : Mem)
      (text : List UInt8), a.handed response responseSize stack = some text →
        Framed (a.lines extra) text := by
  intro hclaim
  obtain ⟨text, ht⟩ := post_handed 4096 (by decide)
  have hframed := hclaim _ [] (post_wellFormed 4096 (by decide)) _ _ _ text ht
  rw [handed_eq _ ht, parts_eq_message _ (post_wellFormed 4096 (by decide)),
    framed_take_iff _ (post_wellFormed 4096 (by decide))] at hframed
  have hlen : ((post 4096 (by decide)).message []).length =
      (render ((post 4096 (by decide)).lines [])).length + 4096 := by
    rw [message, List.length_append]
    exact congrArg _ List.length_replicate
  have hle : _ ≤ 4095 := hframed.1
  omega

end Requests

end RequestArgs

end BearTLS
