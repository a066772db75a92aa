import BearTLS.Lib.Trace
import BearTLS.Spec.CertStore

/-! The three loading loops of `wm_cert_store_init` as one machine whose states are
the loop heads. -/

namespace BearTLS

/-- The head of a loop, with what is left of its input. -/
inductive LoadPoint where
  | pem (p : List UInt8)
  | builtin (ders : List (List UInt8))
  | extra (ders : List (List UInt8))
  | done
deriving DecidableEq

/-- The text between the next two markers, and what follows them. -/
def nextBlock (p : List UInt8) : Option (List UInt8 × List UInt8) :=
  match wmCertStoreFindText p beginMarker with
  | none => none
  | some q =>
    let body := q.drop beginMarker.length
    match wmCertStoreFindText body endMarker with
    | none => none
    | some footer =>
      some (body.take (body.length - footer.length), footer.drop endMarker.length)

/-- The certificate in a block, unless its base64 text gives nothing. -/
def blockDer (body : List UInt8) : Option (List UInt8) :=
  let der := wmCertStoreDecodeB64 body WM_CERT_DER_MAX_BYTES
  if 0 < der.len then some (der.out.take der.len) else none

/-- The next loop head, and the certificate that the iteration offers. -/
def LoadPoint.turn (tables : RootTables) (room : Bool) :
    LoadPoint → LoadPoint × Option (List UInt8)
  | .pem p =>
    match room, nextBlock p with
    | true, some (body, rest) => (.pem rest, blockDer body)
    | _, _ => (.builtin tables.builtin, none)
  | .builtin ders =>
    match room, ders with
    | true, der :: ders => (.builtin ders, some der)
    | _, _ => (.extra tables.extra, none)
  | .extra ders =>
    match room, ders with
    | true, der :: ders => (.extra ders, some der)
    | _, _ => (.done, none)
  | .done => (.done, none)

/-- A call of `wm_build_anchor_from_der`: the slot it is given, and its answer. -/
structure Attempt where
  slot : ℕ
  der : List UInt8
  accepted : Bool

structure LoadState where
  point : LoadPoint
  loading : Loading

section Machine

variable (decode : X509Decoder) (tables : RootTables)

def Loading.room (s : Loading) : Bool := s.next < s.st.capacity

def Loading.attempt (s : Loading) (der : List UInt8) : Attempt :=
  ⟨s.next, der, (wmBuildAnchorFromDer decode der s.next (s.st.storage s.next)).ret⟩

/-- One iteration of a loop, or the way from one loop to the next. -/
def LoadStep (x : LoadState) (a : Option Attempt) (x' : LoadState) : Prop :=
  x.point ≠ .done ∧
    x'.point = (x.point.turn tables x.loading.room).1 ∧
    match (x.point.turn tables x.loading.room).2 with
    | none => a = none ∧ x'.loading = x.loading
    | some der => a = some (x.loading.attempt decode der) ∧ x'.loading = x.loading.build decode der

/-- The first loop head after a successful allocation. -/
def LoadState.start (env : CertEnv) : LoadState where
  point := match wmCertStoreReadFile env.secondRead with
    | some pem => if 0 < env.filePlaces ∧ env.allocDer = true then .pem pem
        else .builtin tables.builtin
    | none => .builtin tables.builtin
  loading := .start (WM_PUBLIC_ROOT_COUNT + env.filePlaces)

/-- The runs of the loops. -/
def Loads (env : CertEnv) : LoadState → List (Option Attempt) → Prop :=
  Trace.Run (· = .start tables env) (LoadStep decode tables)

/-- What the rest of `wm_cert_store_init` does from a loop head. -/
def LoadState.finish (x : LoadState) : Loading :=
  match x.point with
  | .pem p => wmCertStoreLoadDers decode tables.extra
      (wmCertStoreLoadDers decode tables.builtin (wmCertStoreLoadLoop decode p x.loading))
  | .builtin ders => wmCertStoreLoadDers decode tables.extra
      (wmCertStoreLoadDers decode ders x.loading)
  | .extra ders => wmCertStoreLoadDers decode ders x.loading
  | .done => x.loading

end Machine

/-- What an iteration that offers a certificate may do. -/
structure Touched (s s' : Loading) (t : Attempt) : Prop where
  slot : t.slot = s.next
  slot_lt : t.slot < s.st.capacity
  anchors : ∀ i, i ≠ t.slot → s'.st.anchors i = s.st.anchors i
  storage : ∀ i, i ≠ t.slot → s'.st.storage i = s.st.storage i
  within : (s.st.storage t.slot).Within (s'.st.storage t.slot)
  accepted : t.accepted = true → s'.next = s.next + 1 ∧ s'.st.count = s.st.count + 1
  rejected : t.accepted = false → s'.next = s.next ∧ s'.st.count = s.st.count

/-- Anchor `i` has the name and the key of a certificate, read through its pointers. -/
structure CertStore.Anchored (decode : X509Decoder) (st : CertStore) (i : ℕ) (der : List UInt8) :
    Prop where
  own : (st.anchors i).Own i
  key : ∃ k, (decode der).pkey = some k ∧ (st.anchors i).keyType = k.keyType ∧
    readAnchor st.storage (st.anchors i) = ⟨(decode der).dnChunks.flatten, BR_X509_TA_CA, k⟩

/-- The certificates accepted so far, in order. -/
def acceptedDers : List (Option Attempt) → List (List UInt8)
  | [] => []
  | some a :: h => if a.accepted then a.der :: acceptedDers h else acceptedDers h
  | none :: h => acceptedDers h

end BearTLS
