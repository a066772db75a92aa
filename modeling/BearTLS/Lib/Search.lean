import Mathlib.Data.List.Infix

/-! Searching a text for markers: first occurrences, the number of occurrences
that do not overlap, and the blocks between an opening and a closing marker. -/

namespace Search

variable {α : Type*} [DecidableEq α]

/-- The text from the first occurrence on. -/
def find (needle : List α) : List α → Option (List α)
  | [] => if needle = [] then some [] else none
  | c :: rest => if needle <+: c :: rest then some (c :: rest) else find needle rest

variable {needle text p : List α}

theorem find_suffix (h : find needle text = some p) : p <:+ text := by
  induction text with
  | nil =>
    rw [find] at h
    split_ifs at h
    obtain rfl := Option.some.inj h
    exact List.suffix_refl _
  | cons c rest ih =>
    rw [find] at h
    split_ifs at h
    · obtain rfl := Option.some.inj h
      exact List.suffix_refl _
    · exact (ih h).trans (List.suffix_cons c rest)

theorem prefix_of_find (h : find needle text = some p) : needle <+: p := by
  induction text with
  | nil =>
    rw [find] at h
    split_ifs at h with hnil
    obtain rfl := Option.some.inj h
    rw [hnil]
  | cons c rest ih =>
    rw [find] at h
    split_ifs at h with hpre
    · obtain rfl := Option.some.inj h
      exact hpre
    · exact ih h

theorem find_of_prefixed (h : needle <+: text) : find needle text = some text := by
  cases text with
  | nil => rw [find, if_pos (List.prefix_nil.mp h)]
  | cons c rest => rw [find, if_pos h]

/-- Text without the marker's first character does not matter. -/
theorem find_append {d : α} {rest : List α} (hd : needle.head? = some d) {pre : List α}
    (hpre : d ∉ pre) : find needle (pre ++ rest) = find needle rest := by
  induction pre with
  | nil => rfl
  | cons c pre ih =>
    rw [List.mem_cons, not_or] at hpre
    rw [List.cons_append, find, ih hpre.2, if_neg]
    intro h
    obtain ⟨tail, htail⟩ := h
    cases needle with
    | nil => simp at hd
    | cons x needle =>
      obtain rfl : x = d := Option.some.inj hd
      exact hpre.1 (List.cons.inj htail).1

/-- More text behind does not move a first occurrence. -/
theorem find_append_some (h : find needle text = some p) (rest : List α) :
    find needle (text ++ rest) = some (p ++ rest) := by
  induction text with
  | nil =>
    rw [find] at h
    split_ifs at h with hnil
    obtain rfl := Option.some.inj h
    exact find_of_prefixed (hnil ▸ List.nil_prefix)
  | cons c text ih =>
    rw [find] at h
    split_ifs at h with hpre
    · obtain rfl := Option.some.inj h
      exact find_of_prefixed (hpre.trans (List.prefix_append _ _))
    · have hlen : needle.length ≤ (c :: text).length :=
        (prefix_of_find h).length_le.trans ((find_suffix h).length_le.trans (Nat.le_succ _))
      rw [List.cons_append, find, if_neg, ih h]
      intro hpre'
      exact hpre (List.prefix_of_prefix_length_le hpre' (List.prefix_append _ _) hlen)

theorem find_after_length (hne : needle ≠ []) (h : find needle text = some p) :
    (p.drop needle.length).length < text.length := by
  have hp := (prefix_of_find h).length_le
  have ht := (find_suffix h).length_le
  have hn := List.length_pos_of_ne_nil hne
  rw [List.length_drop]
  omega

section Count

/-- The number of occurrences that a scan from left to right meets when it goes on
behind each. -/
def count (needle text : List α) : ℕ :=
  if _hne : needle = [] then 0
  else
    match h : find needle text with
    | none => 0
    | some p => 1 + count needle (p.drop needle.length)
termination_by text.length
decreasing_by exact find_after_length _hne h

theorem count_none (h : find needle text = none) : count needle text = 0 := by
  rw [count]
  split_ifs
  · rfl
  · split
    · rfl
    · rename_i p hp
      exact absurd (h.symm.trans hp) (by simp)

theorem count_some (hne : needle ≠ []) (h : find needle text = some p) :
    count needle text = 1 + count needle (p.drop needle.length) := by
  rw [count, dif_neg hne]
  split
  · rename_i hn
    exact absurd (hn.symm.trans h) (by simp)
  · rename_i p' hp
    rw [Option.some.inj (hp.symm.trans h)]

/-- One step of `count_suffix_le`, for texts no longer than the one at hand. -/
private theorem count_cons_le (hne : needle ≠ []) {c : α} {rest : List α}
    (hk : ∀ k ≤ needle.length, count needle rest ≤ 1 + count needle (rest.drop k)) :
    count needle rest ≤ count needle (c :: rest) := by
  by_cases hpre : needle <+: c :: rest
  · obtain ⟨m, hm⟩ : ∃ m, needle.length = m + 1 :=
      Nat.exists_eq_succ_of_ne_zero (by rwa [ne_eq, List.length_eq_zero_iff])
    rw [count_some hne (find_of_prefixed hpre), hm, List.drop_succ_cons]
    exact hk m (by omega)
  · have hfind : find needle (c :: rest) = find needle rest := by rw [find, if_neg hpre]
    cases hr : find needle rest with
    | none => rw [count_none hr]; exact Nat.zero_le _
    | some p => rw [count_some hne hr, count_some hne (hfind.trans hr)]

/-- Skipping less than a marker loses at most one occurrence. -/
theorem count_le_drop (hne : needle ≠ []) (text : List α) :
    ∀ k ≤ needle.length, count needle text ≤ 1 + count needle (text.drop k) := by
  induction hlen : text.length using Nat.strong_induction_on generalizing text with
  | _ n ih =>
  subst hlen
  intro k hk
  -- the texts shorter than this one already satisfy the statement
  have hsuffix : ∀ xs ys : List α, (xs ++ ys).length ≤ text.length →
      count needle ys ≤ count needle (xs ++ ys) := by
    intro xs ys hle
    induction xs with
    | nil => exact Nat.le_refl _
    | cons x xs ihx =>
      have hlt : (xs ++ ys).length < text.length := by
        rw [List.cons_append, List.length_cons] at hle
        omega
      exact Nat.le_trans (ihx (Nat.le_of_lt hlt)) (count_cons_le hne (ih _ hlt _ rfl))
  cases hf : find needle text with
  | none =>
    rw [count_none hf]
    exact Nat.zero_le _
  | some p =>
    obtain ⟨pre, hpre⟩ := find_suffix hf
    obtain ⟨tail, htail⟩ := prefix_of_find hf
    have htext : text = pre ++ needle ++ tail := by rw [List.append_assoc, htail, hpre]
    have hdrop : p.drop needle.length = tail := by rw [← htail, List.drop_left]
    rw [count_some hne hf, hdrop]
    have hkle : k ≤ (pre ++ needle).length := by
      rw [List.length_append]
      omega
    have hrest : text.drop k = (pre ++ needle).drop k ++ tail := by
      rw [htext, List.drop_append_of_le_length hkle]
    rw [hrest]
    have hle : ((pre ++ needle).drop k ++ tail).length ≤ text.length := by
      rw [← hrest, List.length_drop]
      omega
    have := hsuffix _ _ hle
    omega

/-- Text in front loses no occurrence. -/
theorem count_append_le (hne : needle ≠ []) (pre text : List α) :
    count needle text ≤ count needle (pre ++ text) := by
  induction pre with
  | nil => exact Nat.le_refl _
  | cons c pre ih => exact Nat.le_trans ih (count_cons_le hne (count_le_drop hne (pre ++ text)))

theorem count_suffix_le (hne : needle ≠ []) {s : List α} (h : s <:+ text) :
    count needle s ≤ count needle text := by
  obtain ⟨pre, rfl⟩ := h
  exact count_append_le hne pre s

/-- Occurrences that do not overlap need room. -/
theorem count_mul_le (needle text : List α) : count needle text * needle.length ≤ text.length := by
  induction hlen : text.length using Nat.strong_induction_on generalizing text with
  | _ n ih =>
  subst hlen
  cases h : find needle text with
  | none =>
    rw [count_none h, Nat.zero_mul]
    exact Nat.zero_le _
  | some p =>
    by_cases hne : needle = []
    · rw [hne, List.length_nil, Nat.mul_zero]
      exact Nat.zero_le _
    · have hrest := ih _ (find_after_length hne h) _ rfl
      have hp := (prefix_of_find h).length_le
      have htext := (find_suffix h).length_le
      rw [List.length_drop] at hrest
      rw [count_some hne h, Nat.add_mul, Nat.one_mul]
      omega

end Count

section Blocks

variable (opening closing : List α)

/-- The bodies between an opening marker and the next closing one. -/
def blocks (text : List α) : List (List α) :=
  if _hne : opening = [] then []
  else
    match _h : find opening text with
    | none => []
    | some p =>
      match _h' : find closing (p.drop opening.length) with
      | none => []
      | some q =>
        (p.drop opening.length).take ((p.drop opening.length).length - q.length) ::
          blocks (q.drop closing.length)
termination_by text.length
decreasing_by
  have := find_after_length _hne _h
  have := (find_suffix _h').length_le
  rw [List.length_drop]
  omega

variable {opening closing}

theorem blocks_none (h : find opening text = none) : blocks opening closing text = [] := by
  rw [blocks]
  split_ifs
  · rfl
  · split
    · rfl
    · rename_i p hp
      exact absurd (h.symm.trans hp) (by simp)

theorem blocks_open (hne : opening ≠ []) (h : find opening text = some p)
    (h' : find closing (p.drop opening.length) = none) : blocks opening closing text = [] := by
  rw [blocks, dif_neg hne]
  split
  · rfl
  · rename_i p' hp
    obtain rfl := Option.some.inj (hp.symm.trans h)
    split
    · rfl
    · rename_i q hq
      exact absurd (h'.symm.trans hq) (by simp)

theorem blocks_some (hne : opening ≠ []) {q : List α} (h : find opening text = some p)
    (h' : find closing (p.drop opening.length) = some q) :
    blocks opening closing text =
      (p.drop opening.length).take ((p.drop opening.length).length - q.length) ::
        blocks opening closing (q.drop closing.length) := by
  rw [blocks, dif_neg hne]
  split
  · rename_i hn
    exact absurd (hn.symm.trans h) (by simp)
  · rename_i p' hp
    obtain rfl := Option.some.inj (hp.symm.trans h)
    split
    · rename_i hn
      exact absurd (hn.symm.trans h') (by simp)
    · rename_i q' hq
      rw [Option.some.inj (hq.symm.trans h')]

/-- Every block has an opening marker of its own. -/
theorem length_blocks_le (hne : opening ≠ []) (text : List α) :
    (blocks opening closing text).length ≤ count opening text := by
  induction hlen : text.length using Nat.strong_induction_on generalizing text with
  | _ n ih =>
  subst hlen
  cases h : find opening text with
  | none =>
    rw [blocks_none h]
    exact Nat.zero_le _
  | some p =>
    cases h' : find closing (p.drop opening.length) with
    | none =>
      rw [blocks_open hne h h']
      exact Nat.zero_le _
    | some q =>
      have hsuffix : q.drop closing.length <:+ p.drop opening.length :=
        (List.drop_suffix _ _).trans (find_suffix h')
      have hlt := Nat.lt_of_le_of_lt hsuffix.length_le (find_after_length hne h)
      have hrest := Nat.le_trans (ih _ hlt _ rfl) (count_suffix_le hne hsuffix)
      rw [blocks_some hne h h', count_some hne h, List.length_cons]
      omega

/-- A well-formed text in front: commentary and body without the markers' first character. -/
theorem blocks_append {d : α} (ho : opening.head? = some d) (hc : closing.head? = some d)
    {comment body : List α} (hcomment : d ∉ comment) (hbody : d ∉ body) (rest : List α) :
    blocks opening closing (comment ++ opening ++ body ++ closing ++ rest) =
      body :: blocks opening closing rest := by
  have hne : opening ≠ [] := by
    rintro rfl
    simp at ho
  have hopen : find opening (comment ++ opening ++ body ++ closing ++ rest) =
      some (opening ++ (body ++ (closing ++ rest))) := by
    rw [List.append_assoc, List.append_assoc, List.append_assoc, find_append ho hcomment]
    exact find_of_prefixed (List.prefix_append _ _)
  have hclose : find closing ((opening ++ (body ++ (closing ++ rest))).drop opening.length) =
      some (closing ++ rest) := by
    rw [List.drop_left, find_append hc hbody]
    exact find_of_prefixed (List.prefix_append _ _)
  rw [blocks_some hne hopen hclose, List.drop_left, List.drop_left]
  simp

end Blocks

section Leftover

variable (opening closing : List α)

/-- What lies behind the last complete block. -/
def leftover (text : List α) : List α :=
  if _hne : opening = [] then text
  else
    match _h : find opening text with
    | none => text
    | some p =>
      match _h' : find closing (p.drop opening.length) with
      | none => text
      | some q => leftover (q.drop closing.length)
termination_by text.length
decreasing_by
  have := find_after_length _hne _h
  have := (find_suffix _h').length_le
  rw [List.length_drop]
  omega

/-- No opening marker starts in what is left, also not one that the next marker completes. -/
def Between (text : List α) : Prop :=
  find opening (leftover opening closing text ++ opening) = some opening

instance (text : List α) : Decidable (Between opening closing text) :=
  inferInstanceAs (Decidable (_ = _))

variable {opening closing}

theorem leftover_none (h : find opening text = none) : leftover opening closing text = text := by
  rw [leftover]
  split_ifs
  · rfl
  · split
    · rfl
    · rename_i p hp
      exact absurd (h.symm.trans hp) (by simp)

theorem leftover_open (h : find opening text = some p)
    (h' : find closing (p.drop opening.length) = none) : leftover opening closing text = text := by
  rw [leftover]
  split_ifs
  · rfl
  · split
    · rfl
    · rename_i p' hp
      obtain rfl := Option.some.inj (hp.symm.trans h)
      split
      · rfl
      · rename_i q hq
        exact absurd (h'.symm.trans hq) (by simp)

theorem leftover_some (hne : opening ≠ []) {q : List α} (h : find opening text = some p)
    (h' : find closing (p.drop opening.length) = some q) :
    leftover opening closing text = leftover opening closing (q.drop closing.length) := by
  rw [leftover, dif_neg hne]
  split
  · rename_i hn
    exact absurd (hn.symm.trans h) (by simp)
  · rename_i p' hp
    obtain rfl := Option.some.inj (hp.symm.trans h)
    split
    · rename_i hn
      exact absurd (hn.symm.trans h') (by simp)
    · rename_i q' hq
      rw [Option.some.inj (hq.symm.trans h')]

variable (closing) in
/-- A scan of a longer text meets the same complete blocks first, and goes on
from what they have left. -/
theorem scan_append (hne : opening ≠ []) (text rest : List α) :
    blocks opening closing (text ++ rest) =
        blocks opening closing text ++
          blocks opening closing (leftover opening closing text ++ rest) ∧
      leftover opening closing (text ++ rest) =
        leftover opening closing (leftover opening closing text ++ rest) := by
  induction hlen : text.length using Nat.strong_induction_on generalizing text with
  | _ n ih =>
  subst hlen
  cases h : find opening text with
  | none => rw [blocks_none h, leftover_none h, List.nil_append]; exact ⟨rfl, rfl⟩
  | some p =>
    cases h' : find closing (p.drop opening.length) with
    | none => rw [blocks_open hne h h', leftover_open h h', List.nil_append]; exact ⟨rfl, rfl⟩
    | some q =>
      have hp : opening.length ≤ p.length := (prefix_of_find h).length_le
      have hq : closing.length ≤ q.length := (prefix_of_find h').length_le
      have hqp : q.length ≤ (p.drop opening.length).length := (find_suffix h').length_le
      have hopen : find opening (text ++ rest) = some (p ++ rest) := find_append_some h rest
      have hclose : find closing ((p ++ rest).drop opening.length) = some (q ++ rest) := by
        rw [List.drop_append_of_le_length hp]
        exact find_append_some h' rest
      have hlt : (q.drop closing.length).length < text.length := by
        have := find_after_length hne h
        rw [List.length_drop]
        omega
      obtain ⟨hblocks, hleft⟩ := ih _ hlt _ rfl
      have hbody : ((p ++ rest).drop opening.length).take
          (((p ++ rest).drop opening.length).length - (q ++ rest).length) =
            (p.drop opening.length).take ((p.drop opening.length).length - q.length) := by
        rw [List.drop_append_of_le_length hp, List.length_append, List.length_append,
          Nat.add_sub_add_right, List.take_append_of_le_length (Nat.sub_le _ _)]
      rw [blocks_some hne hopen hclose, blocks_some hne h h', leftover_some hne hopen hclose,
        leftover_some hne h h', hbody, List.drop_append_of_le_length hq, hblocks, hleft]
      exact ⟨rfl, rfl⟩

/-- A complete block behind text that leaves no block open. -/
theorem scan_between (hne : opening ≠ []) {front body : List α}
    (hfront : Between opening closing front) (hbody : find closing (body ++ closing) = some closing)
    (rest : List α) :
    blocks opening closing (front ++ opening ++ body ++ closing ++ rest) =
        blocks opening closing front ++ body :: blocks opening closing rest ∧
      leftover opening closing (front ++ opening ++ body ++ closing ++ rest) =
        leftover opening closing rest := by
  have htext : front ++ opening ++ body ++ closing ++ rest =
      front ++ (opening ++ (body ++ closing ++ rest)) := by
    simp only [List.append_assoc]
  have hopen : find opening (leftover opening closing front ++
      (opening ++ (body ++ closing ++ rest))) = some (opening ++ (body ++ closing ++ rest)) := by
    have := find_append_some hfront (body ++ closing ++ rest)
    rwa [List.append_assoc] at this
  have hclose : find closing ((opening ++ (body ++ closing ++ rest)).drop opening.length) =
      some (closing ++ rest) := by
    rw [List.drop_left]
    exact find_append_some hbody rest
  obtain ⟨hblocks, hleft⟩ := scan_append closing hne front (opening ++ (body ++ closing ++ rest))
  rw [htext, hblocks, hleft, blocks_some hne hopen hclose, leftover_some hne hopen hclose,
    List.drop_left, List.drop_left]
  simp

variable (closing) in
/-- Text in which no opening marker starts. -/
theorem between_plain (hne : opening ≠ []) (h : find opening (text ++ opening) = some opening) :
    find opening text = none ∧ Between opening closing text := by
  have hnone : find opening text = none := by
    refine Option.eq_none_iff_forall_ne_some.mpr fun p hp => ?_
    have hlong := Option.some.inj ((find_append_some hp opening).symm.trans h)
    have hnil : p = [] := List.append_left_eq_self.mp hlong
    exact hne (List.prefix_nil.mp (hnil ▸ prefix_of_find hp))
  refine ⟨hnone, ?_⟩
  rw [Between, leftover_none hnone]
  exact h

end Leftover

end Search
