import Mathlib.Data.List.TakeWhile
import Mathlib.Data.Nat.Digits.Lemmas

/-! Header blocks: lines that end in CRLF, up to an empty line, and the
Content-Length fields among them. -/

namespace HeaderBlock

def CRLF : List UInt8 := [13, 10]

/-- The lines with their line ends, and the empty line. -/
def render (lines : List (List UInt8)) : List UInt8 := lines.flatMap (· ++ CRLF) ++ CRLF

/-- A line that can stand in a header block. -/
structure Clean (line : List UInt8) : Prop where
  ne_nil : line ≠ []
  no_cr : (13 : UInt8) ∉ line

/-- The text up to the first CRLF, and the text behind it. -/
def splitLine : List UInt8 → Option (List UInt8 × List UInt8)
  | [] => none
  | b :: rest =>
    if b = 13 ∧ rest.head? = some 10 then some ([], rest.tail)
    else (splitLine rest).map fun p => (b :: p.1, p.2)

def parseLines : ℕ → List UInt8 → Option (List (List UInt8) × List UInt8)
  | 0, _ => none
  | n + 1, text =>
    match splitLine text with
    | none => none
    | some ([], rest) => some ([], rest)
    | some (b :: line, rest) => (parseLines n rest).map fun p => ((b :: line) :: p.1, p.2)

/-- A receiver's view of a message: the lines up to the first empty one, and the rest. -/
def parse (text : List UInt8) : Option (List (List UInt8) × List UInt8) :=
  parseLines text.length text

theorem splitLine_append {line : List UInt8} (h : (13 : UInt8) ∉ line) (rest : List UInt8) :
    splitLine (line ++ (CRLF ++ rest)) = some (line, rest) := by
  induction line with
  | nil => rfl
  | cons b line ih =>
    rw [List.mem_cons, not_or] at h
    have hb : ¬ (b = 13 ∧ (line ++ (CRLF ++ rest)).head? = some 10) := fun hc => h.1 hc.1.symm
    rw [List.cons_append, splitLine, if_neg hb, ih h.2]
    rfl

theorem splitLine_sound {text line rest : List UInt8} (h : splitLine text = some (line, rest)) :
    text = line ++ (CRLF ++ rest) := by
  induction text generalizing line with
  | nil => cases h
  | cons b text ih =>
    rw [splitLine] at h
    split_ifs at h with hend
    · obtain ⟨rfl, hhead⟩ := hend
      obtain ⟨rfl, rfl⟩ := Prod.mk.inj (Option.some.inj h)
      cases text with
      | nil => simp at hhead
      | cons b' text =>
        obtain rfl := Option.some.inj hhead
        rfl
    · obtain ⟨⟨line', rest'⟩, hp, he⟩ := Option.map_eq_some_iff.mp h
      obtain ⟨rfl, rfl⟩ := Prod.mk.inj he
      rw [ih hp]
      rfl

theorem render_cons (line : List UInt8) (lines : List (List UInt8)) :
    render (line :: lines) = line ++ (CRLF ++ render lines) := by
  simp [render]

theorem length_render (lines : List (List UInt8)) : lines.length < (render lines).length := by
  induction lines with
  | nil => decide
  | cons line lines ih =>
    rw [render_cons]
    simp only [List.length_append, List.length_cons, CRLF, List.length_nil] at ih ⊢
    omega

theorem parseLines_render {lines : List (List UInt8)} (h : ∀ l ∈ lines, Clean l)
    (rest : List UInt8) {n : ℕ} (hn : lines.length < n) :
    parseLines n (render lines ++ rest) = some (lines, rest) := by
  induction lines generalizing n with
  | nil =>
    obtain ⟨k, rfl⟩ : ∃ k, n = k + 1 := ⟨n - 1, by simp at hn; omega⟩
    rfl
  | cons line lines ih =>
    obtain ⟨k, rfl⟩ : ∃ k, n = k + 1 := ⟨n - 1, by simp at hn; omega⟩
    have hline := h line List.mem_cons_self
    have htail := ih (fun l hl => h l (List.mem_cons_of_mem _ hl)) (n := k)
      (by simpa using hn)
    rw [render_cons, List.append_assoc, List.append_assoc, parseLines,
      splitLine_append hline.no_cr]
    cases line with
    | nil => exact absurd rfl hline.ne_nil
    | cons b line =>
      simp only [htail]
      rfl

theorem parse_render {lines : List (List UInt8)} (h : ∀ l ∈ lines, Clean l)
    (rest : List UInt8) : parse (render lines ++ rest) = some (lines, rest) := by
  apply parseLines_render h rest
  have := length_render lines
  rw [List.length_append]
  omega

theorem parseLines_sound {n : ℕ} {text rest : List UInt8} {lines : List (List UInt8)}
    (h : parseLines n text = some (lines, rest)) : text = render lines ++ rest := by
  induction n generalizing text lines with
  | zero => cases h
  | succ n ih =>
    rw [parseLines] at h
    cases hs : splitLine text with
    | none =>
      rw [hs] at h
      simp at h
    | some p =>
      obtain ⟨line, tail⟩ := p
      rw [hs] at h
      have htext := splitLine_sound hs
      cases line with
      | nil =>
        obtain ⟨rfl, rfl⟩ := Prod.mk.inj (Option.some.inj h)
        exact htext
      | cons b line =>
        obtain ⟨⟨ls, r⟩, hp, he⟩ := Option.map_eq_some_iff.mp h
        obtain ⟨rfl, rfl⟩ := Prod.mk.inj he
        rw [htext, ih hp, render_cons]
        simp

theorem parse_sound {text rest : List UInt8} {lines : List (List UInt8)}
    (h : parse text = some (lines, rest)) : text = render lines ++ rest :=
  parseLines_sound h

section Splitting

/-- The texts between the line ends. -/
def splitLines : List UInt8 → List (List UInt8)
  | [] => [[]]
  | [b] => [[b]]
  | b :: c :: rest =>
    if b = 13 ∧ c = 10 then [] :: splitLines rest
    else (splitLines (c :: rest)).modifyHead (b :: ·)

/-- The text up to the first empty line, and the text behind it. -/
def splitBlank : List UInt8 → Option (List UInt8 × List UInt8)
  | [] => none
  | b :: rest =>
    if CRLF ++ CRLF <+: b :: rest then some ([], rest.drop 3)
    else (splitBlank rest).map fun p => (b :: p.1, p.2)

theorem splitLines_cons {b : UInt8} (hb : b ≠ 13) (rest : List UInt8) :
    splitLines (b :: rest) = (splitLines rest).modifyHead (b :: ·) := by
  cases rest with
  | nil => rfl
  | cons c rest => rw [splitLines, if_neg fun h => hb h.1]

theorem splitLines_line {line : List UInt8} (h : (13 : UInt8) ∉ line) :
    splitLines line = [line] := by
  induction line with
  | nil => rfl
  | cons b line ih =>
    rw [List.mem_cons, not_or] at h
    rw [splitLines_cons (Ne.symm h.1), ih h.2]
    rfl

theorem splitLines_append {line : List UInt8} (h : (13 : UInt8) ∉ line) (rest : List UInt8) :
    splitLines (line ++ (CRLF ++ rest)) = line :: splitLines rest := by
  induction line with
  | nil => rfl
  | cons b line ih =>
    rw [List.mem_cons, not_or] at h
    rw [List.cons_append, splitLines_cons (Ne.symm h.1), ih h.2]
    rfl

theorem splitLines_joined {lines : List (List UInt8)} (h : ∀ l ∈ lines, (13 : UInt8) ∉ l)
    (hne : lines ≠ []) : splitLines (CRLF.intercalate lines) = lines := by
  induction lines with
  | nil => exact absurd rfl hne
  | cons line lines ih =>
    have hline := h line List.mem_cons_self
    cases lines with
    | nil =>
      rw [List.intercalate_singleton]
      exact splitLines_line hline
    | cons next lines =>
      rw [List.intercalate_cons_cons, List.append_assoc, splitLines_append hline,
        ih (fun l hl => h l (List.mem_cons_of_mem _ hl)) (List.cons_ne_nil _ _)]

theorem intercalate_crlf (line : List UInt8) (rest : List (List UInt8)) :
    CRLF.intercalate (line :: rest) ++ CRLF = (line :: rest).flatMap (· ++ CRLF) := by
  induction rest generalizing line with
  | nil => simp [List.intercalate]
  | cons next rest ih =>
    have hsplit : CRLF.intercalate (line :: next :: rest) =
        line ++ (CRLF ++ CRLF.intercalate (next :: rest)) := by simp [List.intercalate]
    rw [hsplit, List.flatMap_cons, ← ih next]
    simp only [List.append_assoc]

/-- Joined lines, opened and closed by a line end, are lines that each end in one. -/
theorem joined_lines {extra : List (List UInt8)} (h : ∀ l ∈ extra, Clean l) :
    (if CRLF.intercalate extra = [] then [] else CRLF ++ CRLF.intercalate extra) ++ CRLF =
      CRLF ++ extra.flatMap (· ++ CRLF) := by
  cases extra with
  | nil => rfl
  | cons line rest =>
    have hne : CRLF.intercalate (line :: rest) ≠ [] := by
      have hline := (h line List.mem_cons_self).ne_nil
      cases rest with
      | nil => simpa [List.intercalate] using hline
      | cons next rest => simp [List.intercalate, hline]
    rw [if_neg hne, List.append_assoc, intercalate_crlf]

theorem splitBlank_append {line : List UInt8} (h : (13 : UInt8) ∉ line) (rest : List UInt8) :
    splitBlank (line ++ rest) = (splitBlank rest).map fun p => (line ++ p.1, p.2) := by
  induction line with
  | nil => simp
  | cons b line ih =>
    rw [List.mem_cons, not_or] at h
    have hno : ¬ CRLF ++ CRLF <+: b :: (line ++ rest) := by
      intro hpre
      exact h.1 (List.cons_prefix_cons.mp hpre).1
    rw [List.cons_append, splitBlank, if_neg hno, ih h.2, Option.map_map]
    rfl

/-- A line end in front of a line is no empty line. -/
theorem splitBlank_line_end {b : UInt8} (hb : b ≠ 13) (rest : List UInt8) :
    splitBlank (CRLF ++ b :: rest) = (splitBlank (b :: rest)).map fun p => (CRLF ++ p.1, p.2) := by
  have hno : ¬ CRLF ++ CRLF <+: 13 :: 10 :: b :: rest := by
    intro hpre
    simp only [CRLF, List.cons_append, List.nil_append, List.cons_prefix_cons, true_and] at hpre
    exact hb hpre.1.symm
  have hno' : ¬ CRLF ++ CRLF <+: 10 :: b :: rest := by
    intro hpre
    simp [CRLF, List.cons_prefix_cons] at hpre
  rw [CRLF, List.cons_append, List.cons_append, List.nil_append, splitBlank, if_neg hno, splitBlank,
    if_neg hno', Option.map_map]
  rfl

/-- Behind non-empty lines the first empty line is the end of the block. -/
theorem splitBlank_joined {lines : List (List UInt8)} (h : ∀ l ∈ lines, Clean l)
    (hne : lines ≠ []) (body : List UInt8) :
    splitBlank (CRLF.intercalate lines ++ (CRLF ++ CRLF ++ body)) =
      some (CRLF.intercalate lines, body) := by
  induction lines with
  | nil => exact absurd rfl hne
  | cons line lines ih =>
    have hline := h line List.mem_cons_self
    cases lines with
    | nil =>
      have hend : splitBlank (CRLF ++ CRLF ++ body) = some ([], body) := by
        simp [splitBlank, CRLF]
      rw [List.intercalate_singleton, splitBlank_append hline.no_cr, hend, Option.map_some,
        List.append_nil]
    | cons next lines =>
      have hnext := h next (List.mem_cons_of_mem _ List.mem_cons_self)
      have htail := ih (fun l hl => h l (List.mem_cons_of_mem _ hl)) (List.cons_ne_nil _ _)
      obtain ⟨b, next, rfl⟩ := List.exists_cons_of_ne_nil hnext.ne_nil
      have hb : b ≠ 13 := fun h13 => hnext.no_cr (h13 ▸ List.mem_cons_self)
      obtain ⟨more, hmore⟩ : ∃ more, CRLF.intercalate ((b :: next) :: lines) = b :: more := by
        cases lines with
        | nil => exact ⟨next, List.intercalate_singleton⟩
        | cons line' lines => exact ⟨_, List.intercalate_cons_cons⟩
      rw [List.intercalate_cons_cons, List.append_assoc, List.append_assoc,
        splitBlank_append hline.no_cr]
      rw [hmore, List.cons_append] at htail ⊢
      rw [splitBlank_line_end hb, htail, Option.map_some, Option.map_some, List.append_assoc]

/-- A message behind its last line, seen from the first empty one. -/
theorem splitBlank_render {lines : List (List UInt8)} (h : ∀ l ∈ lines, Clean l)
    (hne : lines ≠ []) (body : List UInt8) :
    splitBlank (render lines ++ body) = some (CRLF.intercalate lines, body) := by
  obtain ⟨line, rest, rfl⟩ := List.exists_cons_of_ne_nil hne
  rw [render, ← intercalate_crlf, List.append_assoc, List.append_assoc, ← List.append_assoc CRLF]
  exact splitBlank_joined h hne body

end Splitting

section ContentLength

/-- `%u`. -/
def decimal (n : ℕ) : List UInt8 :=
  if n = 0 then [48] else (Nat.digits 10 n).reverse.map fun d => (48 + d).toUInt8

def isDigit (b : UInt8) : Bool := 48 ≤ b && b ≤ 57

def parseDecimal (ds : List UInt8) : Option ℕ :=
  if ds ≠ [] ∧ ds.all isDigit then some (ds.foldl (fun n b => 10 * n + (b.toNat - 48)) 0)
  else none

def lower (b : UInt8) : UInt8 := if 65 ≤ b ∧ b ≤ 90 then b + 32 else b

def isBlank (b : UInt8) : Bool := b = 32 || b = 9

def trim (bs : List UInt8) : List UInt8 :=
  ((bs.dropWhile isBlank).reverse.dropWhile isBlank).reverse

/-- `content-length` -/
def contentLengthName : List UInt8 :=
  [99, 111, 110, 116, 101, 110, 116, 45, 108, 101, 110, 103, 116, 104]

/-- Field names are compared without regard to case. -/
def IsContentLength (line : List UInt8) : Prop :=
  (58 : UInt8) ∈ line ∧ (line.takeWhile (· ≠ 58)).map lower = contentLengthName

instance (line : List UInt8) : Decidable (IsContentLength line) :=
  inferInstanceAs (Decidable (_ ∧ _))

/-- What the field says, `none` for anything but one decimal number. -/
def fieldLength (line : List UInt8) : Option ℕ :=
  parseDecimal (trim ((line.dropWhile (· ≠ 58)).drop 1))

theorem decimal_digits (n : ℕ) : ∀ b ∈ decimal n, isDigit b = true := by
  intro b hb
  unfold decimal at hb
  split_ifs at hb with h0
  · obtain rfl := List.mem_singleton.mp hb
    decide
  · obtain ⟨d, hd, rfl⟩ := List.mem_map.mp hb
    have hlt : d < 10 := Nat.digits_lt_base (by omega) (List.mem_reverse.mp hd)
    have hall : ∀ d < 10, isDigit (48 + d).toUInt8 = true := by decide
    exact hall d hlt

theorem decimal_ne_nil (n : ℕ) : decimal n ≠ [] := by
  unfold decimal
  split_ifs with h0
  · exact List.cons_ne_nil _ _
  · rw [ne_eq, List.map_eq_nil_iff, List.reverse_eq_nil_iff]
    exact Nat.digits_ne_nil_iff_ne_zero.mpr h0

theorem decimal_value {ds : List ℕ} (h : ∀ d ∈ ds, d < 10) :
    (ds.reverse.map fun d => (48 + d).toUInt8).foldl (fun n b => 10 * n + (b.toNat - 48)) 0 =
      Nat.ofDigits 10 ds := by
  rw [List.foldl_map, List.foldl_reverse]
  induction ds with
  | nil => rfl
  | cons d ds ih =>
    have hd : ∀ d < 10, (48 + d).toUInt8.toNat - 48 = d := by decide
    rw [List.foldr_cons, ih fun d' hd' => h d' (List.mem_cons_of_mem _ hd'), Nat.ofDigits_cons,
      hd d (h d List.mem_cons_self)]
    exact Nat.add_comm _ _

theorem parseDecimal_decimal (n : ℕ) : parseDecimal (decimal n) = some n := by
  rw [parseDecimal, if_pos ⟨decimal_ne_nil n, List.all_eq_true.mpr (decimal_digits n)⟩]
  unfold decimal
  split_ifs with h0
  · rw [h0]
    rfl
  · rw [decimal_value fun d hd => Nat.digits_lt_base (by omega) hd, Nat.ofDigits_digits]

theorem length_decimal {n k : ℕ} (h : n < 10 ^ k) (hk : 0 < k) : (decimal n).length ≤ k := by
  unfold decimal
  split_ifs with h0
  · exact hk
  · rw [List.length_map, List.length_reverse]
    exact (Nat.digits_length_le_iff (by omega) n).mpr h

theorem trim_digits {bs : List UInt8} (h : ∀ b ∈ bs, isDigit b = true) : trim (32 :: bs) = bs := by
  have hblank : ∀ b : UInt8, isDigit b = true → isBlank b = false := by
    intro b hb
    cases hbl : isBlank b with
    | false => rfl
    | true =>
      have : b = 32 ∨ b = 9 := by simpa [isBlank] using hbl
      rcases this with rfl | rfl
      · exact absurd hb (by decide)
      · exact absurd hb (by decide)
  have hdrop : ∀ cs : List UInt8, (∀ b ∈ cs, isDigit b = true) → cs.dropWhile isBlank = cs := by
    intro cs hcs
    cases cs with
    | nil => rfl
    | cons c cs =>
      rw [List.dropWhile_cons, hblank c (hcs c List.mem_cons_self), if_neg Bool.false_ne_true]
  have hfirst : (32 :: bs).dropWhile isBlank = bs := by
    rw [List.dropWhile_cons, if_pos (by decide), hdrop bs h]
  rw [trim, hfirst, hdrop bs.reverse fun b hb => h b (List.mem_reverse.mp hb), List.reverse_reverse]

/-- A field in the usual form, `name: value`. -/
theorem fieldLength_decimal {name : List UInt8} (h : (58 : UInt8) ∉ name) (n : ℕ) :
    fieldLength (name ++ [58, 32] ++ decimal n) = some n := by
  have hall : ∀ b ∈ name, decide (b ≠ 58) = true := by
    intro b hb
    have : b ≠ 58 := fun hc => h (hc ▸ hb)
    simpa using this
  rw [fieldLength, List.append_assoc, List.dropWhile_append_of_pos hall]
  have hdrop : ([58, 32] ++ decimal n).dropWhile (fun b => decide (b ≠ 58)) =
      58 :: 32 :: decimal n := rfl
  rw [hdrop, List.drop_one, List.tail_cons, trim_digits (decimal_digits n), parseDecimal_decimal]

theorem isContentLength_field {name value : List UInt8} (h : (58 : UInt8) ∉ name) :
    IsContentLength (name ++ 58 :: value) ↔ name.map lower = contentLengthName := by
  have hall : ∀ b ∈ name, decide (b ≠ 58) = true := by
    intro b hb
    have : b ≠ 58 := fun hc => h (hc ▸ hb)
    simpa using this
  rw [IsContentLength, List.takeWhile_append_of_pos hall]
  simp

end ContentLength

end HeaderBlock
