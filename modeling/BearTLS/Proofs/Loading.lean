import BearTLS.Proofs.AnchorBuilding
import BearTLS.Proofs.TrustAnchors
import BearTLS.Spec.Loading

/-! The loading loops keep the trust store well formed: one index, one count and two
parallel arrays, of which an iteration touches no more than the slot at the index. -/

namespace BearTLS

section Build

variable {decode : X509Decoder} (s : Loading) (der : List UInt8)

theorem build_capacity : (s.build decode der).st.capacity = s.st.capacity := by
  unfold Loading.build
  dsimp only
  split_ifs <;> rfl

theorem build_anchor_other {i : ℕ} (hi : i ≠ s.next) :
    (s.build decode der).st.anchors i = s.st.anchors i := by
  unfold Loading.build
  dsimp only
  split_ifs <;> exact Function.update_of_ne hi _ _

theorem build_storage_other {i : ℕ} (hi : i ≠ s.next) :
    (s.build decode der).st.storage i = s.st.storage i := by
  unfold Loading.build
  dsimp only
  split_ifs <;> exact Function.update_of_ne hi _ _

theorem build_anchor_self : (s.build decode der).st.anchors s.next =
    (wmBuildAnchorFromDer decode der s.next (s.st.storage s.next)).anchor := by
  unfold Loading.build
  dsimp only
  split_ifs <;> exact Function.update_self _ _ _

theorem build_storage_self : (s.build decode der).st.storage s.next =
    (wmBuildAnchorFromDer decode der s.next (s.st.storage s.next)).storage := by
  unfold Loading.build
  dsimp only
  split_ifs <;> exact Function.update_self _ _ _

variable {s der}

theorem build_accepted (h : (s.attempt decode der).accepted = true) :
    (s.build decode der).next = s.next + 1 ∧ (s.build decode der).st.count = s.st.count + 1 := by
  have hret : (wmBuildAnchorFromDer decode der s.next (s.st.storage s.next)).ret = true := h
  simp only [Loading.build, hret, if_true, and_self]

theorem build_rejected (h : (s.attempt decode der).accepted = false) :
    (s.build decode der).next = s.next ∧ (s.build decode der).st.count = s.st.count := by
  have hret : (wmBuildAnchorFromDer decode der s.next (s.st.storage s.next)).ret = false := h
  simp only [Loading.build, hret, Bool.false_eq_true, if_false, and_self]

end Build

section Steps

variable {decode : X509Decoder} {tables : RootTables} {x x' : LoadState} {a : Option Attempt}

/-- Without room no certificate is offered. -/
theorem turn_no_room (pt : LoadPoint) : (pt.turn tables false).2 = none := by
  cases pt <;> rfl

/-- An iteration leaves the store alone, or builds in the slot at the index. -/
theorem load_step_cases (h : LoadStep decode tables x a x') :
    (a = none ∧ x'.loading = x.loading) ∨
      ∃ der, x.loading.next < x.loading.st.capacity ∧
        a = some (x.loading.attempt decode der) ∧ x'.loading = x.loading.build decode der := by
  obtain ⟨-, -, hload⟩ := h
  cases hroom : x.loading.room with
  | false =>
    rw [hroom, turn_no_room] at hload
    exact .inl hload
  | true =>
    cases hder : (x.point.turn tables x.loading.room).2 with
    | none =>
      rw [hder] at hload
      exact .inl hload
    | some der =>
      rw [hder] at hload
      exact .inr ⟨der, of_decide_eq_true hroom, hload⟩

end Steps

section Whole

variable (decode : X509Decoder) (tables : RootTables)

theorem load_loop_stop {p : List UInt8} {s : Loading} (h : s.room = false ∨ nextBlock p = none) :
    wmCertStoreLoadLoop decode p s = s := by
  rw [wmCertStoreLoadLoop]
  split_ifs with hroom
  · have hnone : nextBlock p = none := by
      rcases h with h | h
      · exact absurd hroom (of_decide_eq_false h)
      · exact h
    unfold nextBlock at hnone
    split
    · rfl
    · rename_i q hb
      rw [hb] at hnone
      dsimp only at hnone ⊢
      split
      · rfl
      · rename_i footer he
        rw [he] at hnone
        exact absurd hnone (Option.some_ne_none _)
  · rfl

theorem nextBlock_some {p body rest : List UInt8} (h : nextBlock p = some (body, rest)) :
    ∃ q footer, wmCertStoreFindText p beginMarker = some q ∧
      wmCertStoreFindText (q.drop beginMarker.length) endMarker = some footer ∧
      body = (q.drop beginMarker.length).take ((q.drop beginMarker.length).length - footer.length) ∧
      rest = footer.drop endMarker.length := by
  unfold nextBlock at h
  cases hb : wmCertStoreFindText p beginMarker with
  | none =>
    rw [hb] at h
    exact absurd h (Option.some_ne_none _).symm
  | some q =>
    rw [hb] at h
    dsimp only at h
    cases he : wmCertStoreFindText (q.drop beginMarker.length) endMarker with
    | none =>
      rw [he] at h
      exact absurd h (Option.some_ne_none _).symm
    | some footer =>
      rw [he] at h
      obtain ⟨rfl, rfl⟩ := Prod.mk.inj (Option.some.inj h)
      exact ⟨q, footer, rfl, he, rfl, rfl⟩

theorem nextBlock_length {p body rest : List UInt8} (h : nextBlock p = some (body, rest)) :
    rest.length < p.length := by
  obtain ⟨q, footer, hb, he, -, rfl⟩ := nextBlock_some h
  have h₁ := find_text_length hb
  have h₂ := find_text_length he
  have : beginMarker.length = 27 := rfl
  rw [List.length_drop] at h₂ ⊢
  omega

theorem load_loop_block {p body rest : List UInt8} {s : Loading} (hroom : s.room = true)
    (h : nextBlock p = some (body, rest)) :
    wmCertStoreLoadLoop decode p s =
      wmCertStoreLoadLoop decode rest ((blockDer body).elim s (s.build decode)) := by
  obtain ⟨q, footer, hb, he, rfl, rfl⟩ := nextBlock_some h
  rw [wmCertStoreLoadLoop, if_pos (of_decide_eq_true hroom)]
  split
  · rename_i hb'
    rw [hb] at hb'
    exact absurd hb' (Option.some_ne_none _)
  · rename_i q' hb'
    obtain rfl := Option.some.inj (hb.symm.trans hb')
    dsimp only
    split
    · rename_i he'
      rw [he] at he'
      exact absurd he' (Option.some_ne_none _)
    · rename_i footer' he'
      obtain rfl := Option.some.inj (he.symm.trans he')
      unfold blockDer
      dsimp only
      split_ifs <;> rfl

/-- What is left of the input. -/
def LoadPoint.left : LoadPoint → ℕ
  | .pem p => p.length + tables.builtin.length + tables.extra.length + 3
  | .builtin ders => ders.length + tables.extra.length + 2
  | .extra ders => ders.length + 1
  | .done => 0

variable {decode tables} {x x' : LoadState} {a : Option Attempt}

theorem load_ders_cons (der : List UInt8) (ders : List (List UInt8)) (s : Loading) :
    wmCertStoreLoadDers decode (der :: ders) s =
      if s.room = true then wmCertStoreLoadDers decode ders (s.build decode der) else s := by
  simp only [wmCertStoreLoadDers, Loading.room, decide_eq_true_eq]

variable (decode tables) in
/-- A turn of the machine is one of the program, and it uses some input up. -/
theorem turn_finish (pt : LoadPoint) (s : Loading) (hpt : pt ≠ .done) :
    let t := pt.turn tables s.room
    LoadState.finish decode tables ⟨t.1, t.2.elim s (s.build decode)⟩ =
        LoadState.finish decode tables ⟨pt, s⟩ ∧
      t.1.left tables < pt.left tables := by
  rcases pt with p | ders | ders | _
  · cases hroom : s.room with
    | false =>
      refine ⟨?_, by simp only [LoadPoint.turn, LoadPoint.left]; omega⟩
      simp only [LoadState.finish, LoadPoint.turn, Option.elim_none,
        load_loop_stop decode (.inl hroom)]
    | true =>
      cases hb : nextBlock p with
      | none =>
        refine ⟨?_, by simp only [LoadPoint.turn, hb, LoadPoint.left]; omega⟩
        simp only [LoadState.finish, LoadPoint.turn, hb, Option.elim_none,
          load_loop_stop decode (.inr hb)]
      | some b =>
        obtain ⟨body, rest⟩ := b
        have hlen := nextBlock_length hb
        refine ⟨?_, by simp only [LoadPoint.turn, hb, LoadPoint.left]; omega⟩
        simp only [LoadState.finish, LoadPoint.turn, hb, load_loop_block decode hroom hb]
  · rcases ders with _ | ⟨der, ders⟩
    · refine ⟨?_, ?_⟩
      · cases s.room <;> rfl
      · cases s.room <;> simp only [LoadPoint.turn, LoadPoint.left, List.length_nil] <;> omega
    · cases hroom : s.room with
      | false =>
        refine ⟨?_, by simp only [LoadPoint.turn, LoadPoint.left]; omega⟩
        simp only [LoadState.finish, LoadPoint.turn, load_ders_cons, hroom, Bool.false_eq_true,
          if_false, Option.elim_none]
      | true =>
        refine ⟨?_, by simp only [LoadPoint.turn, LoadPoint.left, List.length_cons]; omega⟩
        simp only [LoadState.finish, LoadPoint.turn, load_ders_cons, hroom, if_true,
          Option.elim_some]
  · rcases ders with _ | ⟨der, ders⟩
    · refine ⟨?_, ?_⟩
      · cases s.room <;> rfl
      · cases s.room <;> simp only [LoadPoint.turn, LoadPoint.left, List.length_nil] <;> omega
    · cases hroom : s.room with
      | false =>
        refine ⟨?_, by simp only [LoadPoint.turn, LoadPoint.left]; omega⟩
        simp only [LoadState.finish, LoadPoint.turn, load_ders_cons, hroom, Bool.false_eq_true,
          if_false, Option.elim_none]
      | true =>
        refine ⟨?_, by simp only [LoadPoint.turn, LoadPoint.left, List.length_cons]; omega⟩
        simp only [LoadState.finish, LoadPoint.turn, load_ders_cons, hroom, if_true,
          Option.elim_some]
  · exact absurd rfl hpt

variable (decode tables) in
theorem load_step_turn (x : LoadState) (hpt : x.point ≠ .done) :
    ∃ a, LoadStep decode tables x a
      ⟨(x.point.turn tables x.loading.room).1,
        (x.point.turn tables x.loading.room).2.elim x.loading (x.loading.build decode)⟩ := by
  cases hder : (x.point.turn tables x.loading.room).2 with
  | none =>
    refine ⟨none, hpt, rfl, ?_⟩
    rw [hder]
    exact ⟨rfl, rfl⟩
  | some der =>
    refine ⟨some (x.loading.attempt decode der), hpt, rfl, ?_⟩
    rw [hder]
    exact ⟨rfl, rfl⟩

/-- From every loop head the loops come to an end, with what the program computes. -/
theorem loads_done {env : CertEnv} {x : LoadState} {h : List (Option Attempt)}
    (hx : Loads decode tables env x h) :
    ∃ x' h', Loads decode tables env x' h' ∧ x'.point = .done ∧
      x'.loading = x.finish decode tables := by
  induction hleft : x.point.left tables using Nat.strong_induction_on generalizing x h with
  | _ n ih =>
  subst hleft
  by_cases hpt : x.point = .done
  · refine ⟨x, h, hx, hpt, ?_⟩
    unfold LoadState.finish
    rw [hpt]
  · obtain ⟨a, hstep⟩ := load_step_turn decode tables x hpt
    obtain ⟨hfinish, hlt⟩ := turn_finish decode tables x.point x.loading hpt
    obtain ⟨x', h', hx', hdone, heq⟩ := ih _ hlt (hx.snoc hstep) rfl
    exact ⟨x', h', hx', hdone, heq.trans hfinish⟩

end Whole

section Invariant

variable {decode : X509Decoder} {tables : RootTables}

theorem build_touched (s : Loading) (der : List UInt8) (hroom : s.next < s.st.capacity) :
    Touched s (s.build decode der) (s.attempt decode der) where
  slot := rfl
  slot_lt := hroom
  anchors _ hi := build_anchor_other s der hi
  storage _ hi := build_storage_other s der hi
  within := by
    have h := build_within decode der s.next (s.st.storage s.next)
    rwa [← build_storage_self s der] at h
  accepted := build_accepted
  rejected := build_rejected

/-- What a slot holds depends on nothing but the slot. -/
theorem anchored_congr {st st' : CertStore} {i : ℕ} {der : List UInt8}
    (h : st.Anchored decode i der) (hanchor : st'.anchors i = st.anchors i)
    (hstorage : st'.storage i = st.storage i) : st'.Anchored decode i der := by
  obtain ⟨hown, k, hk, htype, hread⟩ := h
  refine ⟨by rwa [hanchor], k, hk, by rwa [hanchor], ?_⟩
  rw [hanchor, ← hread]
  exact readAnchor_congr hown hstorage

theorem build_anchored (s : Loading) (der : List UInt8)
    (h : (s.attempt decode der).accepted = true) :
    (s.build decode der).st.Anchored decode s.next der := by
  have hret : (wmBuildAnchorFromDer decode der s.next (s.st.storage s.next)).ret = true := h
  obtain ⟨v, hv⟩ := (build_ret_iff decode der s.next (s.st.storage s.next)).mp hret
  have hspec := build_spec decode der s.next (s.st.storage s.next)
  dsimp only at hspec
  rw [hv] at hspec
  obtain ⟨-, hown, hread⟩ := hspec
  obtain ⟨-, -, -, k, hk, -, rfl⟩ := anchor_eq_some.mp hv
  rw [← build_anchor_self s der] at hown hread
  refine ⟨hown, k, hk, ?_, hread _ (build_storage_self s der)⟩
  rw [build_anchor_self]
  exact build_keyType hk hret

/-- The store is well formed, and holds the anchors of the certificates `ders`. -/
structure WellLoaded (decode : X509Decoder) (cap : ℕ) (s : Loading) (ders : List (List UInt8)) :
    Prop where
  capacity : s.st.capacity = cap
  count : s.st.count = s.next
  room : s.next ≤ cap
  length : ders.length = s.next
  anchored : ∀ i (hi : i < ders.length), s.st.Anchored decode i ders[i]

theorem build_well_loaded {cap : ℕ} {s : Loading} {ders : List (List UInt8)}
    (h : WellLoaded decode cap s ders) (hroom : s.next < cap) (der : List UInt8) :
    WellLoaded decode cap (s.build decode der)
      (ders ++ acceptedDers [some (s.attempt decode der)]) := by
  have hbelow : ∀ i (hi : i < ders.length),
      (s.build decode der).st.Anchored decode i ders[i] := by
    intro i hi
    have hne : i ≠ s.next := by
      rw [← h.length]
      exact Nat.ne_of_lt hi
    exact anchored_congr (h.anchored i hi) (build_anchor_other s der hne)
      (build_storage_other s der hne)
  cases hret : (s.attempt decode der).accepted with
  | false =>
    obtain ⟨hnext, hcount⟩ := build_rejected hret
    simp only [acceptedDers, hret, Bool.false_eq_true, if_false, List.append_nil]
    exact ⟨(build_capacity s der).trans h.capacity, by rw [hcount, hnext, h.count],
      hnext ▸ h.room, hnext ▸ h.length, hbelow⟩
  | true =>
    obtain ⟨hnext, hcount⟩ := build_accepted hret
    have hdone : acceptedDers [some (s.attempt decode der)] = [der] := by
      simp only [acceptedDers, hret, if_true]
      rfl
    rw [hdone]
    refine ⟨(build_capacity s der).trans h.capacity, by rw [hcount, hnext, h.count],
      by rw [hnext]; exact hroom, by rw [List.length_append, h.length, hnext]; rfl, ?_⟩
    intro i hi
    rw [List.length_append, List.length_singleton] at hi
    rcases Nat.lt_succ_iff_lt_or_eq.mp hi with hi | rfl
    · rw [List.getElem_append_left hi]
      exact hbelow i hi
    · rw [List.getElem_concat_length rfl, h.length]
      exact build_anchored s der hret

theorem acceptedDers_append (h h' : List (Option Attempt)) :
    acceptedDers (h ++ h') = acceptedDers h ++ acceptedDers h' := by
  induction h with
  | nil => rfl
  | cons a h ih =>
    rcases a with _ | ⟨slot, der, ret⟩
    · exact ih
    · simp only [List.cons_append, acceptedDers, ih]
      split_ifs <;> rfl

theorem loads_well_loaded {env : CertEnv} {x : LoadState} {h : List (Option Attempt)}
    (hx : Loads decode tables env x h) :
    WellLoaded decode (WM_PUBLIC_ROOT_COUNT + env.filePlaces) x.loading (acceptedDers h) := by
  refine Trace.Run.invariant
    (fun x h => WellLoaded decode (WM_PUBLIC_ROOT_COUNT + env.filePlaces) x.loading
      (acceptedDers h)) ?_ ?_ hx
  · rintro x rfl
    exact ⟨rfl, rfl, Nat.zero_le _, rfl, fun i hi => absurd hi (Nat.not_lt_zero i)⟩
  · intro x h a x' hw hstep
    rw [acceptedDers_append]
    rcases load_step_cases hstep with ⟨rfl, heq⟩ | ⟨der, hroom, rfl, heq⟩
    · rw [heq]
      exact (List.append_nil (acceptedDers h)).symm ▸ hw
    · rw [heq]
      exact build_well_loaded hw (hw.capacity ▸ hroom) der

end Invariant

section Init

variable (decode : X509Decoder) (tables : RootTables) {env : CertEnv} {st : CertStore}

theorem init_finish (hst : st.initialized = false) (hanchors : env.allocAnchors = true)
    (hstorage : env.allocStorage = true) :
    let s := (LoadState.start tables env).finish decode tables
    wmCertStoreInit decode tables env st =
      (decide (0 < s.st.count), { s.st with initialized := true }) := by
  have hfile : (LoadState.start tables env).finish decode tables =
      wmCertStoreLoadDers decode tables.extra (wmCertStoreLoadDers decode tables.builtin
        (if 0 < env.filePlaces ∧ env.rootsPath = true then
          wmCertStoreLoadPemRoots decode env (.start (WM_PUBLIC_ROOT_COUNT + env.filePlaces))
        else .start (WM_PUBLIC_ROOT_COUNT + env.filePlaces))) := by
    unfold LoadState.finish LoadState.start wmCertStoreLoadPemRoots
    dsimp only
    by_cases hplaces : 0 < env.filePlaces
    · rw [if_pos ⟨hplaces, rootsPath_of_places hplaces⟩]
      cases wmCertStoreReadFile env.secondRead with
      | none => rfl
      | some pem =>
        cases hder : env.allocDer with
        | false => simp
        | true => simp [hplaces]
    · rw [if_neg fun hload => hplaces hload.1]
      cases wmCertStoreReadFile env.secondRead with
      | none => rfl
      | some pem =>
        dsimp only
        rw [if_neg fun hload => hplaces hload.1]
  rw [hfile]
  exact init_eq decode tables env hst hanchors hstorage

variable {decode tables}

theorem load_step_eq {x x' : LoadState} {a : Option Attempt} (h : LoadStep decode tables x a x') :
    x' = ⟨(x.point.turn tables x.loading.room).1,
      (x.point.turn tables x.loading.room).2.elim x.loading (x.loading.build decode)⟩ := by
  obtain ⟨pt', s'⟩ := x'
  obtain ⟨-, hpt, hload⟩ := h
  dsimp only at hpt hload
  cases hder : (x.point.turn tables x.loading.room).2 with
  | none =>
    rw [hder] at hload
    rw [hpt, hload.2, Option.elim_none]
  | some der =>
    rw [hder] at hload
    rw [hpt, hload.2, Option.elim_some]

/-- Every loop head of a run is on the way to the same result. -/
theorem loads_finish {x : LoadState} {h : List (Option Attempt)}
    (hx : Loads decode tables env x h) :
    x.finish decode tables = (LoadState.start tables env).finish decode tables := by
  refine Trace.Run.invariant (fun x _ => x.finish decode tables =
    (LoadState.start tables env).finish decode tables) ?_ ?_ hx
  · rintro x rfl
    rfl
  · intro x h a x' heq hstep
    rw [load_step_eq hstep, ← heq]
    exact (turn_finish _ _ x.point x.loading hstep.1).1

/-- The loops come to an end. At every loop head on the way the count is the index
and is at most the capacity, and the anchors below it are those of the accepted
certificates in order; an iteration writes to no slot but the one at the index. -/
theorem trust_store_invariant (decode : X509Decoder) (tables : RootTables) (env : CertEnv)
    (st : CertStore) (hst : st.initialized = false) (hanchors : env.allocAnchors = true)
    (hstorage : env.allocStorage = true) :
    (∃ x h, Loads decode tables env x h ∧ x.point = .done ∧
      wmCertStoreInit decode tables env st =
        (decide (0 < x.loading.st.count), { x.loading.st with initialized := true })) ∧
    ∀ x h, Loads decode tables env x h →
      wmCertStoreInit decode tables env st =
        (decide (0 < (x.finish decode tables).st.count),
          { (x.finish decode tables).st with initialized := true }) ∧
      x.loading.st.capacity = WM_PUBLIC_ROOT_COUNT + env.filePlaces ∧
      x.loading.st.count = x.loading.next ∧
      x.loading.next ≤ x.loading.st.capacity ∧
      x.loading.st.count = (acceptedDers h).length ∧
      (∀ i (hi : i < (acceptedDers h).length),
        x.loading.st.Anchored decode i (acceptedDers h)[i]) ∧
      ∀ a x', LoadStep decode tables x a x' →
        (a = none → x'.loading = x.loading) ∧
        ∀ t, a = some t → Touched x.loading x'.loading t := by
  have hinit := init_finish decode tables hst hanchors hstorage
  dsimp only at hinit
  refine ⟨?_, fun x h hx => ?_⟩
  · obtain ⟨x, h, hx, hdone, heq⟩ := loads_done
      (Trace.Run.nil rfl : Loads decode tables env (.start tables env) [])
    refine ⟨x, h, hx, hdone, ?_⟩
    rw [hinit, heq]
  · have hw := loads_well_loaded hx
    rw [loads_finish hx]
    refine ⟨hinit, hw.capacity, hw.count, ?_, ?_, hw.anchored, ?_⟩
    · rw [hw.capacity]
      exact hw.room
    · rw [hw.count, hw.length]
    · intro a x' hstep
      rcases load_step_cases hstep with ⟨rfl, heq⟩ | ⟨der, hroom, rfl, heq⟩
      · exact ⟨fun _ => heq, by simp⟩
      · refine ⟨by simp, ?_⟩
        rintro t ⟨⟩
        rw [heq]
        exact build_touched x.loading der hroom

/-- The key of the sample root is in no other certificate. -/
theorem root_of_key {der : List UInt8} (h : (withSampleRoot der).pkey = some anchorRoot.key) :
    der = CERT_ROOT_EC_DER := by
  by_contra hroot
  rw [withSampleRoot, if_neg hroot, twoCertificates] at h
  split_ifs at h with hR4 hX2
  · subst hR4
    exact absurd h (by decide)
  · subst hX2
    exact absurd h (by decide)

/-- Of a file with three blocks, one of them rejected, two get a slot, and the first slot has
the sample root. -/
theorem trust_store_invariant_mixed :
    ∃ x h, Loads withSampleRoot (repeatedTables WM_ISRG_ROOT_X2_DER WM_GTS_ROOT_R4_DER)
        ⟨true, .whole (bundleText mixedBundle), .whole (bundleText mixedBundle), true, true, true⟩
        x h ∧
      x.point = .done ∧ x.loading.st.count = 25 ∧ (acceptedDers h).length = 25 ∧
      x.loading.st.Anchored withSampleRoot 0 CERT_ROOT_EC_DER := by
  obtain ⟨⟨x, h, hx, hdone, hinit⟩, hall⟩ := trust_store_invariant withSampleRoot
    (repeatedTables WM_ISRG_ROOT_X2_DER WM_GTS_ROOT_R4_DER)
    ⟨true, .whole (bundleText mixedBundle), .whole (bundleText mixedBundle), true, true, true⟩ .start
    rfl rfl rfl
  obtain ⟨-, -, -, -, hcount, hanchored, -⟩ := hall x h hx
  have htrusted := bundle_trusted withSampleRoot
    (repeatedTables WM_ISRG_ROOT_X2_DER WM_GTS_ROOT_R4_DER)
    (show mixedBundle.length ≤ WM_MAX_EXTERNAL_ROOT_COUNT by decide)
    (Nat.le_trans length_mixedBundle (by decide)) (show CertStore.start.initialized = false from rfl)
  rw [hinit, anchors_mixedBundle, anchors_sampleTables] at htrusted
  have hlist : x.loading.st.trusted =
      [anchorRoot, anchorR4] ++ (List.replicate 9 anchorX2 ++ List.replicate 14 anchorR4) := htrusted
  have hlength : x.loading.st.count = 25 := by
    have hlen := congrArg List.length hlist
    rwa [trusted_length] at hlen
  have hpos : 0 < (acceptedDers h).length := by omega
  have hfirst := hanchored 0 hpos
  obtain ⟨k, hk, -, hread⟩ := hfirst.key
  have hhead : readAnchor x.loading.st.storage (x.loading.st.anchors 0) = anchorRoot := by
    have hzero := congrArg (fun vs => vs[0]?) hlist
    simpa [CertStore.trusted, hlength] using hzero
  rw [hhead] at hread
  have hkey : k = anchorRoot.key := (congrArg AnchorView.key hread).symm
  rw [hkey] at hk
  rw [root_of_key hk] at hfirst
  exact ⟨x, h, hx, hdone, hlength, hcount.symm.trans hlength, hfirst⟩

end Init

end BearTLS
