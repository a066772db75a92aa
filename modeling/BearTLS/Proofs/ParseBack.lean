import BearTLS.Proofs.Request

/-! The arguments of a request, read back from its text. -/

namespace BearTLS

open HeaderBlock Memory

namespace RequestArgs

variable (a : RequestArgs)

/-- With room for the whole message and a NUL the buffer holds the message. -/
theorem built_eq {extra : List (List UInt8)} (h : a.WellFormed extra) {requestSize : ℤ}
    (hfits : ((a.message extra).length : ℤ) ≤ requestSize - 1) (request : Mem) :
    a.built requestSize request = a.message extra := by
  have hlen : a.parts.length ≤ requestSize.toNat - 1 := by
    rw [a.parts_eq_message h]
    omega
  have hb := a.build_filled (show 0 < requestSize by omega) request
  have hused := hb.used
  have htext := hb.text
  have hnul := hb.nul
  rw [Nat.min_eq_left hlen] at hused
  rw [List.take_of_length_le hlen, hused] at htext
  rw [hused] at hnul
  rw [← a.parts_eq_message h]
  refine cstr_eq a.parts_nul_free (by omega) htext ?_
  rwa [Nat.zero_add]

/-- The words of the request line. -/
theorem request_line_words (h : a.Worded) :
    (orDefault a.method (ascii "GET") ++ ascii " " ++ orDefault a.path (ascii "/") ++
      ascii " HTTP/1.1").splitOn 32 =
      [orDefault a.method (ascii "GET"), orDefault a.path (ascii "/"), ascii "HTTP/1.1"] := by
  have hmethod : (32 : UInt8) ∉ orDefault a.method (ascii "GET") :=
    orDefault_not_mem (by decide) h.method
  have hpath : (32 : UInt8) ∉ orDefault a.path (ascii "/") := orDefault_not_mem (by decide) h.path
  have hjoin : orDefault a.method (ascii "GET") ++ ascii " " ++ orDefault a.path (ascii "/") ++
      ascii " HTTP/1.1" = [32].intercalate
        [orDefault a.method (ascii "GET"), orDefault a.path (ascii "/"), ascii "HTTP/1.1"] := by
    have hspace : ascii " HTTP/1.1" = ascii " " ++ ascii "HTTP/1.1" := rfl
    rw [hspace, List.intercalate_cons_cons, List.intercalate_cons_cons, List.intercalate_singleton]
    simp only [List.append_assoc]
    rfl
  rw [hjoin]
  apply List.splitOn_intercalate
  · intro word hword
    simp only [List.mem_cons, List.not_mem_nil, or_false] at hword
    rcases hword with rfl | rfl | rfl
    · exact hmethod
    · exact hpath
    · decide
  · exact List.cons_ne_nil _ _

/-- Split at its first empty line, the text gives the body and a head whose lines say
the other arguments. -/
theorem request_parses_back {extra : List (List UInt8)} (h : a.WellFormed extra)
    (hwords : a.Worded) (requestSize : ℤ)
    (hfits : ((a.message extra).length : ℤ) ≤ requestSize - 1) (request : Mem) :
    ∃ head requestLine port length,
      splitBlank (a.built requestSize request) = some (head, a.bodyBytes) ∧
      splitLines head = [requestLine, ascii "Host: " ++ a.hostBytes ++ port,
        ascii "User-Agent: Mozilla/5.0 (Windows CE; ARM; HP iPAQ 212)", ascii "Accept: */*",
        ascii "Connection: close"] ++ extra ++ length ∧
      requestLine.splitOn 32 =
        [orDefault a.method (ascii "GET"), orDefault a.path (ascii "/"), ascii "HTTP/1.1"] ∧
      (if a.port = 443 ∨ a.port = 80 then port = []
        else ∃ digits, port = ascii ":" ++ digits ∧ parseDecimal digits = some a.port.toNat) ∧
      if a.bodyBytes = [] then length = []
      else ∃ digits, length = [ascii "Content-Length: " ++ digits] ∧
        parseDecimal digits = some a.bodyBytes.length := by
  have hne : a.lines extra ≠ [] := List.cons_ne_nil _ _
  have hclean := a.lines_clean h
  have hlines : splitLines (CRLF.intercalate (a.lines extra)) = a.lines extra :=
    splitLines_joined (fun l hl => (hclean l hl).no_cr) hne
  have hfirst := a.request_line_words hwords
  refine ⟨CRLF.intercalate (a.lines extra), _, _, _, ?_, hlines, hfirst, ?_, ?_⟩
  · rw [a.built_eq h hfits]
    exact splitBlank_render hclean hne a.bodyBytes
  · split_ifs with hport
    · rfl
    · exact ⟨_, rfl, parseDecimal_decimal _⟩
  · split_ifs with hbody
    · rfl
    · exact ⟨_, rfl, parseDecimal_decimal _⟩

theorem post_worded (n : ℕ) (hn : n < 2 ^ 32) : (post n hn).Worded where
  method s hs := by
    obtain rfl := Option.some.inj hs
    decide
  path s hs := by
    obtain rfl := Option.some.inj hs
    decide

set_option maxRecDepth 4000 in
/-- A `POST` of five bytes that just fits. -/
theorem request_parses_back_post : ∃ head,
    splitBlank ((post 5 (by decide)).built 141 fun _ => 0) = some (head, List.replicate 5 65) ∧
      (splitLines head).length = 6 := by
  have hfits : (((post 5 (by decide)).message []).length : ℤ) ≤ 141 - 1 := by decide
  obtain ⟨head, requestLine, port, length, hsplit, hlines, -, -, hlength⟩ := request_parses_back
    (post 5 (by decide)) (post_wellFormed 5 (by decide)) (post_worded 5 (by decide)) 141 hfits
    fun _ => 0
  refine ⟨head, hsplit, ?_⟩
  rw [if_neg (by decide)] at hlength
  obtain ⟨digits, rfl, -⟩ := hlength
  rw [hlines]
  rfl

end RequestArgs

end BearTLS
