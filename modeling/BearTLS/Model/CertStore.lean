import BearTLS.Lib.Memory
import BearTLS.Lib.Search
import BearTLS.Model.Request
import Mathlib.Logic.Function.Basic

/-! The trust store of `wm_cert_store.c`: trust anchors that point into a
parallel array of storage slots, filled from a PEM file and from two tables of
certificates. The X.509 decoder is a parameter. -/

namespace BearTLS

open Memory

def WM_BUILTIN_ROOT_COUNT : ℕ := 9
def WM_EXTRA_ROOT_COUNT : ℕ := 14
def WM_PUBLIC_ROOT_COUNT : ℕ := WM_BUILTIN_ROOT_COUNT + WM_EXTRA_ROOT_COUNT
def WM_MAX_DN_LEN : ℕ := 512
def WM_MAX_RSA_N_LEN : ℕ := 512
def WM_MAX_RSA_E_LEN : ℕ := 8
def WM_MAX_EC_Q_LEN : ℕ := 133
def WM_MAX_EXTERNAL_ROOT_COUNT : ℕ := 256
def WM_CERT_FILE_MAX_BYTES : ℕ := 512 * 1024
def WM_CERT_DER_MAX_BYTES : ℕ := 8192

def BR_KEYTYPE_RSA : ℕ := 1
def BR_KEYTYPE_EC : ℕ := 2
def BR_X509_TA_CA : ℕ := 1

section Decoder

/-- `br_x509_pkey`; `other` is a key type that is neither RSA nor EC. -/
inductive X509Pkey where
  | rsa (n e : List UInt8)
  | ec (curve : ℕ) (q : List UInt8)
  | other
deriving DecidableEq, Repr

def X509Pkey.keyType : X509Pkey → ℕ
  | .rsa .. => BR_KEYTYPE_RSA
  | .ec .. => BR_KEYTYPE_EC
  | .other => 0

/-- What `br_x509_decoder` says about a certificate, with its calls of `append_dn`. -/
structure X509Decoded where
  lastError : ℤ
  dnChunks : List (List UInt8)
  pkey : Option X509Pkey
  isCA : Bool

abbrev X509Decoder := List UInt8 → X509Decoded

end Decoder

section Anchor

/-- `wm_dn_sink`. -/
structure DnSink where
  buf : Mem
  cap : ℕ
  len : ℕ
  overflow : Bool

/-- `wm_anchor_storage`: four arrays, each with the memory behind its end. -/
structure AnchorStorage where
  dn : Mem
  rsaN : Mem
  rsaE : Mem
  ecQ : Mem

/-- A pointer to the start of an array of a storage slot, and a length. -/
structure SlotRef where
  slot : ℕ
  len : ℕ

/-- `anchor->pkey.key`; `none` is all zeros. -/
inductive KeyRef where
  | none
  | rsa (n e : SlotRef)
  | ec (curve : ℕ) (q : SlotRef)

/-- `br_x509_trust_anchor`. -/
structure TrustAnchor where
  dn : Option SlotRef
  flags : ℕ
  keyType : ℕ
  key : KeyRef

def TrustAnchor.zero : TrustAnchor := ⟨none, 0, 0, .none⟩

/-- `memset` of a whole storage slot. -/
def AnchorStorage.zeroed (s : AnchorStorage) : AnchorStorage where
  dn := store s.dn 0 (List.replicate WM_MAX_DN_LEN 0)
  rsaN := store s.rsaN 0 (List.replicate WM_MAX_RSA_N_LEN 0)
  rsaE := store s.rsaE 0 (List.replicate WM_MAX_RSA_E_LEN 0)
  ecQ := store s.ecQ 0 (List.replicate WM_MAX_EC_Q_LEN 0)

def wmCertStoreAppendDn (sink : DnSink) (buf : List UInt8) : DnSink :=
  if sink.overflow = true ∨ sink.len + buf.length > sink.cap then { sink with overflow := true }
  else { sink with buf := store sink.buf sink.len buf, len := sink.len + buf.length }

structure BuildOut where
  ret : Bool
  anchor : TrustAnchor
  storage : AnchorStorage

/-- `slot` is the index of `storage` in `g_anchor_storage`. -/
def wmBuildAnchorFromDer (decode : X509Decoder) (certDer : List UInt8) (slot : ℕ)
    (storage : AnchorStorage) : BuildOut :=
  let storage := storage.zeroed
  let anchor := TrustAnchor.zero
  let decoder := decode certDer
  let sink := decoder.dnChunks.foldl wmCertStoreAppendDn ⟨storage.dn, WM_MAX_DN_LEN, 0, false⟩
  let storage := { storage with dn := sink.buf }
  if decoder.lastError ≠ 0 ∨ sink.overflow = true then ⟨false, anchor, storage⟩
  else
    match decoder.pkey with
    | none => ⟨false, anchor, storage⟩
    | some pkey =>
      if decoder.isCA = false then ⟨false, anchor, storage⟩
      else
        let anchor := { anchor with
          dn := some ⟨slot, sink.len⟩, flags := BR_X509_TA_CA, keyType := pkey.keyType }
        match pkey with
        | .rsa n e =>
          if n.length > WM_MAX_RSA_N_LEN ∨ e.length > WM_MAX_RSA_E_LEN then
            ⟨false, anchor, storage⟩
          else
            ⟨true, { anchor with key := .rsa ⟨slot, n.length⟩ ⟨slot, e.length⟩ },
              { storage with rsaN := store storage.rsaN 0 n, rsaE := store storage.rsaE 0 e }⟩
        | .ec curve q =>
          if q.length > WM_MAX_EC_Q_LEN then ⟨false, anchor, storage⟩
          else
            ⟨true, { anchor with key := .ec curve ⟨slot, q.length⟩ },
              { storage with ecQ := store storage.ecQ 0 q }⟩
        | .other => ⟨false, anchor, storage⟩

end Anchor

section Pem

def beginMarker : List UInt8 := ascii "-----BEGIN CERTIFICATE-----"

def endMarker : List UInt8 := ascii "-----END CERTIFICATE-----"

/-- A pointer into the text is what lies between it and `end`. -/
def wmCertStoreFindText (text needle : List UInt8) : Option (List UInt8) :=
  if needle.length = 0 then some text else Search.find needle text

theorem find_text_length {text needle p : List UInt8}
    (h : wmCertStoreFindText text needle = some p) :
    p.length ≤ text.length ∧ needle.length ≤ p.length := by
  unfold wmCertStoreFindText at h
  split_ifs at h with h0
  · obtain rfl := Option.some.inj h
    omega
  · exact ⟨(Search.find_suffix h).length_le, (Search.prefix_of_find h).length_le⟩

/-- The `while` of `wm_cert_store_count_pem_certs`. -/
def wmCertStoreCountLoop (p : List UInt8) (count : ℕ) : ℕ :=
  match _h : wmCertStoreFindText p beginMarker with
  | none => count
  | some q =>
    if count + 1 ≥ WM_MAX_EXTERNAL_ROOT_COUNT then count + 1
    else wmCertStoreCountLoop (q.drop beginMarker.length) (count + 1)
termination_by p.length
decreasing_by
  have := find_text_length _h
  have : beginMarker.length = 27 := rfl
  rw [List.length_drop]
  omega

def wmCertStoreCountPemCerts (text : List UInt8) : ℕ := wmCertStoreCountLoop text 0

def wmCertStoreB64Value (c : UInt8) : Option ℕ :=
  if 65 ≤ c ∧ c ≤ 90 then some (c.toNat - 65)
  else if 97 ≤ c ∧ c ≤ 122 then some (c.toNat - 97 + 26)
  else if 48 ≤ c ∧ c ≤ 57 then some (c.toNat - 48 + 52)
  else if c = 43 then some 62
  else if c = 47 then some 63
  else none

/-- The bytes stored at `out`, and the return value. -/
structure B64Out where
  out : List UInt8
  len : ℕ

def wmCertStoreDecodeLoop (outCap : ℕ) : List UInt8 → UInt32 → ℕ → List UInt8 → B64Out
  | [], _, _, out => ⟨out, out.length⟩
  | c :: rest, acc, bits, out =>
    if c = 61 then wmCertStoreDecodeLoop outCap rest acc bits out
    else
      match wmCertStoreB64Value c with
      | none => wmCertStoreDecodeLoop outCap rest acc bits out
      | some v =>
        let acc := (acc <<< 6) ||| v.toUInt32
        let bits := bits + 6
        if bits ≥ 8 then
          let bits := bits - 8
          if out.length ≥ outCap then ⟨out, 0⟩
          else
            wmCertStoreDecodeLoop outCap rest acc bits
              (out ++ [((acc >>> bits.toUInt32) &&& 0xFF).toUInt8])
        else wmCertStoreDecodeLoop outCap rest acc bits out

def wmCertStoreDecodeB64 (text : List UInt8) (outCap : ℕ) : B64Out :=
  wmCertStoreDecodeLoop outCap text 0 0 []

end Pem

section Store

/-- One attempt to read the file: its bytes (`none` where it cannot be opened),
and whether `GetFileSize`, `HeapAlloc` and `ReadFile` do their work. -/
structure FileRead where
  file : Option (List UInt8)
  sized : Bool
  alloc : Bool
  complete : Bool

def wmCertStoreReadFile (f : FileRead) : Option (List UInt8) :=
  match f.file with
  | none => none
  | some bytes =>
    if f.sized = false ∨ bytes.length = 0 ∨ bytes.length > WM_CERT_FILE_MAX_BYTES then none
    else if f.alloc = false then none
    else if f.complete = false then none
    else some bytes

/-- The globals. `allocated` says that the two array pointers are not NULL. -/
structure CertStore where
  anchors : ℕ → TrustAnchor
  storage : ℕ → AnchorStorage
  allocated : Bool
  capacity : ℕ
  count : ℕ
  initialized : Bool

def AnchorStorage.zero : AnchorStorage := ⟨fun _ => 0, fun _ => 0, fun _ => 0, fun _ => 0⟩

def CertStore.start : CertStore :=
  ⟨fun _ => .zero, fun _ => .zero, false, 0, 0, false⟩

/-- WM_BUILTIN_ROOT_DERS and WM_EXTRA_ROOT_DERS. -/
structure RootTables where
  builtin : List (List UInt8)
  extra : List (List UInt8)
  builtin_count : builtin.length = WM_BUILTIN_ROOT_COUNT
  extra_count : extra.length = WM_EXTRA_ROOT_COUNT

/-- The answers of the system during one `wm_cert_store_init`. -/
structure CertEnv where
  rootsPath : Bool
  firstRead : FileRead
  secondRead : FileRead
  allocAnchors : Bool
  allocStorage : Bool
  allocDer : Bool

def wmCertStoreAlloc (env : CertEnv) (capacity : ℕ) (st : CertStore) : Bool × CertStore :=
  if capacity = 0 then (false, st)
  else if env.allocAnchors = false ∨ env.allocStorage = false then
    (false, { st with allocated := false, capacity := 0 })
  else
    (true, ⟨fun _ => .zero, fun _ => .zero, true, capacity, st.count, st.initialized⟩)

/-- The store and `next_anchor`. -/
structure Loading where
  st : CertStore
  next : ℕ

/-- `wm_build_anchor_from_der` into slot `next_anchor`, which a success moves on. -/
def Loading.build (decode : X509Decoder) (der : List UInt8) (s : Loading) : Loading :=
  let o := wmBuildAnchorFromDer decode der s.next (s.st.storage s.next)
  let st := { s.st with
    anchors := Function.update s.st.anchors s.next o.anchor,
    storage := Function.update s.st.storage s.next o.storage }
  if o.ret then ⟨{ st with count := st.count + 1 }, s.next + 1⟩ else ⟨st, s.next⟩

variable (decode : X509Decoder)

/-- The `while` of `wm_cert_store_load_pem_roots`. -/
def wmCertStoreLoadLoop (p : List UInt8) (s : Loading) : Loading :=
  if s.next < s.st.capacity then
    match _h : wmCertStoreFindText p beginMarker with
    | none => s
    | some q =>
      let body := q.drop beginMarker.length
      match _h' : wmCertStoreFindText body endMarker with
      | none => s
      | some footer =>
        let der := wmCertStoreDecodeB64 (body.take (body.length - footer.length))
          WM_CERT_DER_MAX_BYTES
        wmCertStoreLoadLoop (footer.drop endMarker.length)
          (if 0 < der.len then s.build decode (der.out.take der.len) else s)
  else s
termination_by p.length
decreasing_by
  have := find_text_length _h
  have := find_text_length _h'
  have : beginMarker.length = 27 := rfl
  simp only [body, List.length_drop] at *
  omega

def wmCertStoreLoadPemRoots (env : CertEnv) (s : Loading) : Loading :=
  match wmCertStoreReadFile env.secondRead with
  | none => s
  | some pem => if env.allocDer = false then s else wmCertStoreLoadLoop decode pem s

/-- The two `for` loops over the compiled-in tables. -/
def wmCertStoreLoadDers : List (List UInt8) → Loading → Loading
  | [], s => s
  | der :: ders, s =>
    if s.next < s.st.capacity then wmCertStoreLoadDers ders (s.build decode der) else s

def wmCertStoreInit (tables : RootTables) (env : CertEnv) (st : CertStore) : Bool × CertStore :=
  if st.initialized then (true, st)
  else
    let externalCount :=
      if env.rootsPath then
        match wmCertStoreReadFile env.firstRead with
        | some pem => wmCertStoreCountPemCerts pem
        | none => 0
      else 0
    let capacity := WM_PUBLIC_ROOT_COUNT + externalCount
    let (ok, st) := wmCertStoreAlloc env capacity st
    if ok = false then (false, st)
    else
      let s : Loading := ⟨{ st with count := 0 }, 0⟩
      let s := if 0 < externalCount ∧ env.rootsPath = true then
          wmCertStoreLoadPemRoots decode env s
        else s
      let s := wmCertStoreLoadDers decode tables.builtin s
      let s := wmCertStoreLoadDers decode tables.extra s
      (0 < s.st.count, { s.st with initialized := true })

end Store

end BearTLS
