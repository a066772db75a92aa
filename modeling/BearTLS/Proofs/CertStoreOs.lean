import BearTLS.Proofs.CertStore
import BearTLS.Spec.CertStoreOs

/-! Whatever is called and whatever the system answers, the store keeps its two arrays and
nothing else, and is frozen once it is loaded. -/

namespace BearTLS

open Holdings

section Reading

variable (a : FileAnswers)

theorem read_os_length {bytes : List UInt8} (h : (wmCertStoreReadFileOs a).1 = some bytes) :
    bytes.length ≠ 0 ∧ ¬ bytes.length > WM_CERT_FILE_MAX_BYTES := by
  unfold wmCertStoreReadFileOs at h
  dsimp only at h
  split_ifs at h with hopened hsize halloc
  cases hread : a.read with
  | none =>
    rw [hread] at h
    cases h
  | some stored =>
    rw [hread] at h
    dsimp only at h
    split_ifs at h with hlen
    obtain rfl : stored = bytes := Option.some.inj h
    rw [not_or, not_or] at hsize
    rw [not_ne_iff.mp hlen]
    exact ⟨fun hzero => hsize.2.1 (UInt32.toNat_inj.mp hzero), hsize.2.2⟩

theorem read_os_eq : wmCertStoreReadFile a.toRead = (wmCertStoreReadFileOs a).1 := by
  cases h : (wmCertStoreReadFileOs a).1 with
  | none => rw [wmCertStoreReadFile, FileAnswers.toRead, h]
  | some bytes =>
    obtain ⟨hpos, hmax⟩ := read_os_length a h
    rw [wmCertStoreReadFile, FileAnswers.toRead, h]
    dsimp only
    rw [if_neg (by simp only [hpos, hmax, reduceCtorEq, or_self, not_false_eq_true]),
      if_neg (by decide), if_neg (by decide)]

/-- The block that a read returns. -/
def FileAnswers.kept : Multiset StoreResource :=
  (wmCertStoreReadFileOs a).1.elim 0 fun _ => {.pem}

/-- A read closes its handle, and keeps only the block that it returns. -/
theorem read_os_moves : Moves 0 (wmCertStoreReadFileOs a).2 a.kept := by
  unfold FileAnswers.kept wmCertStoreReadFileOs
  dsimp only
  split_ifs with hopened hsize halloc
  · exact .nil 0
  · decide
  · decide
  · cases a.read with
    | none =>
      dsimp only
      decide
    | some bytes =>
      dsimp only
      split_ifs with hlen
      · simp only [Option.elim_none]
        decide
      · simp only [Option.elim_some]
        decide

end Reading

section Refinement

variable (a : StoreAnswers)

theorem external_count_eq : a.externalCount.1 =
    if a.toEnv.rootsPath then
      match wmCertStoreReadFile a.toEnv.firstRead with
      | some pem => wmCertStoreCountPemCerts pem
      | none => 0
    else 0 := by
  unfold StoreAnswers.externalCount
  rw [show wmCertStoreReadFile a.toEnv.firstRead = _ from read_os_eq a.firstRead,
    show a.toEnv.rootsPath = a.rootsPath from rfl]
  cases a.rootsPath with
  | false => rfl
  | true =>
    rw [if_pos rfl, if_pos rfl]
    obtain ⟨read, log⟩ := wmCertStoreReadFileOs a.firstRead
    cases read with
    | none => rfl
    | some pem => rfl

theorem alloc_os_eq (capacity : ℕ) (st : CertStore) :
    wmCertStoreAlloc a.toEnv capacity st =
      ((wmCertStoreAllocOs a capacity st).1, (wmCertStoreAllocOs a capacity st).2.1) := by
  unfold wmCertStoreAlloc wmCertStoreAllocOs
  change (if capacity = 0 then (false, st)
    else if a.allocAnchors = false ∨ a.allocStorage = false then _ else _) = _
  by_cases hzero : capacity = 0
  · rw [if_pos hzero, if_pos hzero]
  · rw [if_neg hzero, if_neg hzero]
    cases a.allocAnchors with
    | false => rfl
    | true =>
      cases a.allocStorage with
      | false => rfl
      | true => rfl

variable (decode : X509Decoder)

theorem load_os_eq (s : Loading) :
    wmCertStoreLoadPemRoots decode a.toEnv s = (wmCertStoreLoadPemRootsOs decode a s).1 := by
  unfold wmCertStoreLoadPemRoots wmCertStoreLoadPemRootsOs
  rw [show wmCertStoreReadFile a.toEnv.secondRead = _ from read_os_eq a.secondRead,
    show a.toEnv.allocDer = a.allocDer from rfl]
  obtain ⟨read, log⟩ := wmCertStoreReadFileOs a.secondRead
  cases read with
  | none => rfl
  | some pem =>
    cases a.allocDer with
    | false => rfl
    | true => rfl

/-- Without its calls this is `wmCertStoreInit`. -/
theorem init_os_eq (tables : RootTables) (st : CertStore) :
    wmCertStoreInit decode tables a.toEnv st =
      ((wmCertStoreInitOs decode tables a st).1, (wmCertStoreInitOs decode tables a st).2.1) := by
  unfold wmCertStoreInit wmCertStoreInitOs
  by_cases hinit : st.initialized = true
  · rw [if_pos hinit, if_pos hinit]
  · rw [if_neg hinit, if_neg hinit]
    extract_lets externalCount capacity external alloc _ start load
    have hcount : externalCount = external.1 := (external_count_eq a).symm
    have hcap : capacity = WM_PUBLIC_ROOT_COUNT + external.1 := by rw [← hcount]
    have hload : (if 0 < external.1 ∧ a.rootsPath = true then
        wmCertStoreLoadPemRoots decode a.toEnv start else start) = load.1 := by
      by_cases hfile : 0 < external.1 ∧ a.rootsPath = true
      · rw [if_pos hfile, load_os_eq, show load = _ from if_pos hfile]
      · rw [if_neg hfile, show load = _ from if_neg hfile]
    rw [hcap, hcount, alloc_os_eq]
    change (if alloc.1 = false then (false, alloc.2.1) else _) = _
    cases hok : alloc.1 with
    | false => rfl
    | true =>
      -- what follows the file is the same on both sides
      exact congrArg (fun s : Loading =>
        let s := wmCertStoreLoadDers decode tables.builtin s
        let s := wmCertStoreLoadDers decode tables.extra s
        (decide (0 < s.st.count), { s.st with initialized := true })) hload

end Refinement

section Arrays

variable {decode : X509Decoder}

theorem build_allocated (der : List UInt8) (s : Loading) :
    (s.build decode der).st.allocated = s.st.allocated := by
  unfold Loading.build
  dsimp only
  split_ifs
  · rfl
  · rfl

theorem load_ders_allocated (ders : List (List UInt8)) (s : Loading) :
    (wmCertStoreLoadDers decode ders s).st.allocated = s.st.allocated := by
  induction ders generalizing s with
  | nil => rfl
  | cons der ders ih =>
    rw [wmCertStoreLoadDers]
    split_ifs
    · rw [ih, build_allocated]
    · rfl

theorem load_loop_allocated (p : List UInt8) (s : Loading) :
    (wmCertStoreLoadLoop decode p s).st.allocated = s.st.allocated := by
  fun_induction wmCertStoreLoadLoop decode p s with
  | case1 => rfl
  | case2 => rfl
  | case3 p s hroom q hq body footer hfooter der ih =>
    simp only [dite_eq_ite] at ih
    rw [ih]
    split_ifs
    · exact build_allocated _ s
    · rfl
  | case4 => rfl

theorem load_pem_roots_allocated (env : CertEnv) (s : Loading) :
    (wmCertStoreLoadPemRoots decode env s).st.allocated = s.st.allocated := by
  unfold wmCertStoreLoadPemRoots
  cases wmCertStoreReadFile env.secondRead with
  | none => rfl
  | some pem =>
    dsimp only
    split_ifs
    · rfl
    · exact load_loop_allocated pem s

end Arrays

section Moves

variable (a : StoreAnswers)

theorem external_count_moves : Moves 0 a.externalCount.2 0 := by
  unfold StoreAnswers.externalCount
  cases a.rootsPath with
  | false => exact .nil 0
  | true =>
    have hread := read_os_moves a.firstRead
    unfold FileAnswers.kept at hread
    rw [if_pos rfl]
    rcases hcall : wmCertStoreReadFileOs a.firstRead with ⟨_ | pem, log⟩
    · rw [hcall] at hread
      exact hread
    · rw [hcall] at hread
      refine hread.trans ?_
      change Moves {StoreResource.pem} [.use .pem, .release .pem] 0
      decide

theorem alloc_os_moves {capacity : ℕ} (hpos : capacity ≠ 0) (st : CertStore) :
    Moves 0 (wmCertStoreAllocOs a capacity st).2.2
      (wmCertStoreAllocOs a capacity st).2.1.held := by
  unfold wmCertStoreAllocOs CertStore.held
  rw [if_neg hpos]
  cases a.allocAnchors with
  | false =>
    cases a.allocStorage with
    | false => exact .nil 0
    | true =>
      change Moves 0 [.acquire StoreResource.storage, .release .storage] 0
      decide
  | true =>
    cases a.allocStorage with
    | false =>
      change Moves 0 [.acquire StoreResource.anchors, .release .anchors] 0
      decide
    | true =>
      change Moves 0 [.acquire StoreResource.anchors, .acquire .storage] {.anchors, .storage}
      decide

theorem alloc_os_allocated {capacity : ℕ} {st : CertStore}
    (h : (wmCertStoreAllocOs a capacity st).1 = true) :
    (wmCertStoreAllocOs a capacity st).2.1.allocated = true := by
  unfold wmCertStoreAllocOs at h ⊢
  dsimp only at h ⊢
  split_ifs at h ⊢ <;> rfl

/-- The load leaves the two arrays, and nothing of its own. -/
theorem load_os_moves (decode : X509Decoder) (s : Loading) :
    Moves {.anchors, .storage} (wmCertStoreLoadPemRootsOs decode a s).2 {.anchors, .storage} := by
  have hread := (read_os_moves a.secondRead).frame {.anchors, .storage}
  rw [zero_add] at hread
  unfold FileAnswers.kept at hread
  unfold wmCertStoreLoadPemRootsOs
  rcases hcall : wmCertStoreReadFileOs a.secondRead with ⟨_ | pem, log⟩
  · rw [hcall] at hread
    exact hread
  · rw [hcall] at hread
    cases a.allocDer with
    | false =>
      refine hread.trans ?_
      change Moves {StoreResource.pem, .anchors, .storage} [.release .pem] {.anchors, .storage}
      decide
    | true =>
      refine hread.trans ?_
      change Moves {StoreResource.pem, .anchors, .storage} [.acquire .der, .use .pem, .use .der, .use .anchors,
        .use .storage, .release .der, .release .pem] {.anchors, .storage}
      decide

end Moves

section Filling

variable (decode : X509Decoder) (tables : RootTables) (a : StoreAnswers) {st : CertStore}

theorem CertStore.Kept.held_empty (h : st.Kept) (hinit : st.initialized = false) :
    st.held = 0 := by
  rw [CertStore.held, h.arrays, hinit]
  rfl

theorem CertStore.Kept.held_full (h : st.Kept) (hinit : st.initialized = true) :
    st.held = {.anchors, .storage} := by
  rw [CertStore.held, h.arrays, hinit]
  rfl

theorem start_kept : CertStore.start.Kept :=
  ⟨rfl, Nat.le_refl 0, fun i hi => absurd hi (Nat.not_lt_zero i), fun _ => ⟨rfl, rfl⟩⟩

/-- Without the two arrays nothing is loaded. -/
theorem init_unallocated (hinit : st.initialized = false)
    (h : a.allocAnchors = false ∨ a.allocStorage = false) :
    wmCertStoreInit decode tables a.toEnv st =
      (false, { st with allocated := false, capacity := 0 }) := by
  unfold wmCertStoreInit
  rw [if_neg (by rw [hinit]; decide)]
  extract_lets externalCount capacity
  have hpos : capacity ≠ 0 := Nat.ne_of_gt (Nat.add_pos_left (by decide) _)
  have halloc : wmCertStoreAlloc a.toEnv capacity st =
      (false, { st with allocated := false, capacity := 0 }) := by
    rw [wmCertStoreAlloc, if_neg hpos]
    exact if_pos h
  rw [halloc]
  rfl

/-- What an initialisation leaves where it gets its arrays. -/
theorem init_allocated (hinit : st.initialized = false) (hanchors : a.allocAnchors = true)
    (hstorage : a.allocStorage = true) :
    let st' := (wmCertStoreInit decode tables a.toEnv st).2
    st'.Kept ∧ st'.initialized = true ∧ st'.trusted = a.filled decode tables := by
  have htrusted := init_trusted decode tables a.toEnv hinit hanchors hstorage
  have hfile := file_holds decode a.toEnv (start_holds (WM_PUBLIC_ROOT_COUNT + a.toEnv.filePlaces))
  have hbuiltin := load_ders_holds decode hfile tables.builtin
  have hextra := load_ders_holds decode hbuiltin tables.extra
  rw [init_eq decode tables a.toEnv hinit hanchors hstorage] at htrusted ⊢
  refine ⟨⟨?_, ?_, fun i hi => hextra.own i ?_, ?_⟩, rfl, htrusted⟩
  · dsimp only
    rw [load_ders_allocated, load_ders_allocated]
    split_ifs
    · exact load_pem_roots_allocated _ _
    · rfl
  · dsimp only
    rw [hextra.count, hextra.capacity, hextra.next]
    exact hextra.room
  · rw [← hextra.count]
    exact hi
  · exact fun hfalse => Bool.noConfusion hfalse

theorem allocs_iff : a.allocs = true ↔ a.allocAnchors = true ∧ a.allocStorage = true := by
  rw [StoreAnswers.allocs, Bool.and_eq_true]

theorem not_allocs_iff : ¬ a.allocs = true ↔ a.allocAnchors = false ∨ a.allocStorage = false := by
  rw [allocs_iff, not_and_or, Bool.not_eq_true, Bool.not_eq_true]

theorem trusted_nil (hcount : st.count = 0) : st.trusted = [] := by
  rw [CertStore.trusted, hcount]
  rfl

/-- One initialisation of an empty store chooses the anchors, or leaves it empty. -/
theorem init_os_shows (h : st.Shows none) :
    (wmCertStoreInitOs decode tables a st).2.1.Shows (Trust.call decode tables none a) := by
  have hinit : st.initialized = false := h.initialized
  have heq : (wmCertStoreInitOs decode tables a st).2.1 =
      (wmCertStoreInit decode tables a.toEnv st).2 := by rw [init_os_eq]
  rw [heq, Trust.call]
  by_cases halloc : a.allocs = true
  · rw [if_pos halloc]
    obtain ⟨hanchors, hstorage⟩ := (allocs_iff a).mp halloc
    obtain ⟨hkept, htrue, htrusted⟩ := init_allocated decode tables a hinit hanchors hstorage
    exact ⟨hkept, htrue, htrusted⟩
  · rw [if_neg halloc]
    rw [init_unallocated decode tables a hinit ((not_allocs_iff a).mp halloc)]
    have hcount := (h.kept.empty hinit).1
    exact ⟨⟨hinit.symm, Nat.le_of_eq hcount, h.kept.own, fun _ => ⟨hcount, rfl⟩⟩, hinit,
      trusted_nil hcount⟩

/-- The initialisation returns whether it has chosen any anchor. -/
theorem init_os_ret (h : st.Shows none) :
    let o := wmCertStoreInitOs decode tables a st
    o.1 = decide (0 < o.2.1.count) := by
  have hinit : st.initialized = false := h.initialized
  suffices hret : (wmCertStoreInit decode tables a.toEnv st).1 = decide
      (0 < (wmCertStoreInit decode tables a.toEnv st).2.count) by
    rwa [init_os_eq] at hret
  by_cases halloc : a.allocs = true
  · obtain ⟨hanchors, hstorage⟩ := (allocs_iff a).mp halloc
    rw [init_eq decode tables a.toEnv hinit hanchors hstorage]
  · rw [init_unallocated decode tables a hinit ((not_allocs_iff a).mp halloc)]
    dsimp only
    rw [(h.kept.empty hinit).1]
    rfl

/-- The calls of one initialisation go from nothing to the two arrays, or back to nothing. -/
theorem init_os_moves (h : st.Shows none) :
    Moves 0 (wmCertStoreInitOs decode tables a st).2.2
      (wmCertStoreInitOs decode tables a st).2.1.held := by
  have hinit : st.initialized = false := h.initialized
  have hkept := (init_os_shows decode tables a h).kept
  revert hkept
  unfold wmCertStoreInitOs
  rw [if_neg (by rw [hinit]; decide)]
  extract_lets external alloc _ start load
  have hpos : WM_PUBLIC_ROOT_COUNT + external.1 ≠ 0 :=
    Nat.ne_of_gt (Nat.add_pos_left (by decide) _)
  have halloc := (external_count_moves a).trans (alloc_os_moves a hpos st)
  cases hok : alloc.1 with
  | false => exact fun _ => halloc
  | true =>
    intro hkept
    have harrays : alloc.2.1.held = {.anchors, .storage} := if_pos (alloc_os_allocated a hok)
    have hload : Moves {.anchors, .storage} load.2 {.anchors, .storage} := by
      by_cases hfile : 0 < external.1 ∧ a.rootsPath = true
      · rw [show load = _ from if_pos hfile]
        exact load_os_moves a decode start
      · rw [show load = _ from if_neg hfile]
        exact .nil _
    rw [hkept.held_full rfl]
    rw [harrays] at halloc
    exact (halloc.trans hload).trans (by decide)

end Filling

section Runs

variable (decode : X509Decoder) (tables : RootTables) {st : CertStore} {t : Trust}

theorem CertStore.Shows.count (h : st.Shows t) : st.count = (t.getD []).length := by
  rw [← h.trusted, trusted_length]

theorem CertStore.Shows.pointer (h : st.Shows t) : st.allocated = t.isSome := by
  rw [h.kept.arrays, h.initialized]

/-- A filled store is not touched again. -/
theorem store_call_filled {vs : List AnchorView} (h : st.Shows (some vs)) (call : StoreCall)
    (a : StoreAnswers) :
    storeCall decode tables a st call = (Trust.reply (some vs) (some vs) call, st, []) := by
  have hinit : st.initialized = true := h.initialized
  cases call with
  | init =>
    rw [storeCall, wmCertStoreInitOs, if_pos hinit]
    rfl
  | anchors =>
    rw [storeCall, wmCertStoreAnchors, hinit, if_neg (by decide), h.pointer]
    rfl
  | anchorCount =>
    rw [storeCall, wmCertStoreAnchorCount, hinit, if_neg (by decide), h.count]
    rfl

/-- Each of the three functions initialises an empty store. -/
theorem store_call_empty (h : st.Shows none) (call : StoreCall) (a : StoreAnswers) :
    storeCall decode tables a st call =
      (Trust.reply none (Trust.call decode tables none a) call,
        (wmCertStoreInitOs decode tables a st).2) := by
  have hinit : st.initialized = false := h.initialized
  have hshows := init_os_shows decode tables a h
  cases call with
  | init =>
    rw [storeCall, init_os_ret decode tables a h, hshows.count]
    rfl
  | anchors =>
    rw [storeCall, wmCertStoreAnchors, hinit, if_pos (by decide), hshows.pointer]
    rfl
  | anchorCount =>
    rw [storeCall, wmCertStoreAnchorCount, hinit, if_pos (by decide), hshows.count]
    rfl

/-- One call. -/
theorem store_call_shows (h : st.Shows t) (call : StoreCall) (a : StoreAnswers) :
    let o := storeCall decode tables a st call
    o.1 = t.reply (t.call decode tables a) call ∧ o.2.1.Shows (t.call decode tables a) ∧
      Moves st.held o.2.2 o.2.1.held := by
  cases t with
  | none =>
    rw [store_call_empty decode tables h call a, h.kept.held_empty h.initialized]
    exact ⟨rfl, init_os_shows decode tables a h, init_os_moves decode tables a h⟩
  | some vs =>
    rw [store_call_filled decode tables h call a]
    exact ⟨rfl, h, .nil _⟩

/-- The replies of a run are those of the chosen anchors, and all memory but the two arrays
has been given back. -/
theorem store_run_shows (h : st.Shows t) (calls : List (StoreCall × StoreAnswers)) :
    let r := storeRun decode tables st calls
    let r' := t.run decode tables calls
    r.1 = r'.1 ∧ r.2.1.Shows r'.2 ∧ Moves st.held r.2.2 r.2.1.held := by
  induction calls generalizing st t with
  | nil => exact ⟨rfl, h, .nil _⟩
  | cons c calls ih =>
    obtain ⟨hreply, hshows, hmoves⟩ := store_call_shows decode tables h c.1 c.2
    obtain ⟨hreplies, hlast, hrest⟩ := ih hshows
    refine ⟨?_, hlast, hmoves.trans hrest⟩
    rw [storeRun, Trust.run, hreply, hreplies]

theorem store_run_filled {vs : List AnchorView} (h : st.Shows (some vs))
    (calls : List (StoreCall × StoreAnswers)) : (storeRun decode tables st calls).2 = (st, []) := by
  induction calls with
  | nil => rfl
  | cons c calls ih =>
    rw [storeRun, store_call_filled decode tables h c.1 c.2]
    dsimp only
    rw [ih]
    rfl

theorem start_shows : CertStore.start.Shows none :=
  ⟨start_kept, rfl, rfl⟩

/-- Every run of calls from the start: the replies are those of a list of anchors that is chosen
once, no handle and no block but the two arrays is kept, and what follows the choice
asks nothing of the system. -/
theorem store_runs (calls more : List (StoreCall × StoreAnswers)) :
    let r := storeRun decode tables .start calls
    let r' := Trust.run decode tables none calls
    r.1 = r'.1 ∧ r.2.1.Shows r'.2 ∧ Moves 0 r.2.2 r.2.1.held ∧
      (r'.2.isSome = true → (storeRun decode tables r.2.1 more).2 = (r.2.1, [])) := by
  intro r r'
  obtain ⟨hreplies, hshows, hmoves⟩ := store_run_shows decode tables start_shows calls
  refine ⟨hreplies, hshows, hmoves, fun hsome => ?_⟩
  obtain ⟨vs, hvs⟩ := Option.isSome_iff_exists.mp hsome
  exact store_run_filled decode tables (hvs ▸ hshows) more

/-- One of the two arrays is refused: the other one goes back. -/
example : let refused : StoreAnswers := ⟨false, ⟨false, 0, false, none⟩, ⟨false, 0, false, none⟩,
      true, false, false⟩
    let r := storeRun decode tables .start [(.init, refused), (.anchors, refused)]
    r.1 = [.ret false, .pointer false] ∧
      r.2.2 = [.acquire .anchors, .release .anchors, .acquire .anchors, .release .anchors] :=
  ⟨rfl, rfl⟩

end Runs

end BearTLS
