import BearTLS.Lib.Base64
import BearTLS.Lib.Bounded
import BearTLS.Model.CertStore

/-! What the trust store is for: a list of trust anchors, each a subject name
and a CA key, read through the pointers of the array. -/

namespace BearTLS

open Memory

/-- A trust anchor as the X.509 engine reads it. -/
structure AnchorView where
  dn : List UInt8
  flags : ℕ
  key : X509Pkey
deriving DecidableEq, Repr

/-- A key that fits its storage. -/
def X509Pkey.fits : X509Pkey → Bool
  | .rsa n e => n.length ≤ WM_MAX_RSA_N_LEN && e.length ≤ WM_MAX_RSA_E_LEN
  | .ec _ q => q.length ≤ WM_MAX_EC_Q_LEN
  | .other => false

/-- The anchor that a decoded certificate gives, if any. -/
def X509Decoded.anchor (d : X509Decoded) : Option AnchorView :=
  match d.pkey with
  | some pkey =>
    if d.lastError = 0 ∧ d.isCA = true ∧ d.dnChunks.flatten.length ≤ WM_MAX_DN_LEN ∧
        pkey.fits = true then
      some ⟨d.dnChunks.flatten, BR_X509_TA_CA, pkey⟩
    else none
  | none => none

section Reading

variable (storage : ℕ → AnchorStorage)

def readKey : KeyRef → X509Pkey
  | .none => .other
  | .rsa n e => .rsa (load (storage n.slot).rsaN 0 n.len) (load (storage e.slot).rsaE 0 e.len)
  | .ec curve q => .ec curve (load (storage q.slot).ecQ 0 q.len)

/-- An anchor, read through its pointers. -/
def readAnchor (a : TrustAnchor) : AnchorView where
  dn := match a.dn with
    | some r => load (storage r.slot).dn 0 r.len
    | none => []
  flags := a.flags
  key := readKey storage a.key

/-- `g_trust_anchors[0..g_trust_anchor_count)`. -/
def CertStore.trusted (st : CertStore) : List AnchorView :=
  (List.range st.count).map fun i => readAnchor st.storage (st.anchors i)

end Reading

/-- What `wm_build_anchor_from_der` builds in a slot of its own, where it accepts. -/
def builtAnchor (decode : X509Decoder) (der : List UInt8) : Option AnchorView :=
  let o := wmBuildAnchorFromDer decode der 0 .zero
  if o.ret then some (readAnchor (fun _ => o.storage) o.anchor) else none

section Building

/-- All pointers of an anchor go to one storage slot. -/
def TrustAnchor.Own (slot : ℕ) (a : TrustAnchor) : Prop :=
  (∀ r, a.dn = some r → r.slot = slot) ∧
    match a.key with
    | .none => True
    | .rsa n e => n.slot = slot ∧ e.slot = slot
    | .ec _ q => q.slot = slot

/-- Nothing behind the end of an array of the slot has changed. -/
structure AnchorStorage.Within (s s' : AnchorStorage) : Prop where
  dn : ∀ i, WM_MAX_DN_LEN ≤ i → s'.dn i = s.dn i
  rsaN : ∀ i, WM_MAX_RSA_N_LEN ≤ i → s'.rsaN i = s.rsaN i
  rsaE : ∀ i, WM_MAX_RSA_E_LEN ≤ i → s'.rsaE i = s.rsaE i
  ecQ : ∀ i, WM_MAX_EC_Q_LEN ≤ i → s'.ecQ i = s.ecQ i

/-- Two reports on a certificate that differ only in how the name is cut. -/
structure X509Decoded.SameName (d d' : X509Decoded) : Prop where
  lastError : d'.lastError = d.lastError
  pkey : d'.pkey = d.pkey
  isCA : d'.isCA = d.isCA
  name : d'.dnChunks.flatten = d.dnChunks.flatten

end Building

/-- Empty arrays of a given capacity. -/
def Loading.start (capacity : ℕ) : Loading :=
  ⟨⟨fun _ => .zero, fun _ => .zero, true, capacity, 0, false⟩, 0⟩

section Sources

variable (decode : X509Decoder)

/-- The anchors of a table of certificates. -/
def tableAnchors (ders : List (List UInt8)) : List AnchorView :=
  ders.filterMap fun der => (decode der).anchor

/-- The anchor of one block of a PEM file. -/
def blockAnchor (body : List UInt8) : Option AnchorView :=
  let der := wmCertStoreDecodeB64 body WM_CERT_DER_MAX_BYTES
  if 0 < der.len then (decode (der.out.take der.len)).anchor else none

/-- The anchors of the complete blocks of a PEM file. -/
def pemAnchors (text : List UInt8) : List AnchorView :=
  (Search.blocks beginMarker endMarker text).filterMap (blockAnchor decode)

/-- The anchors of the compiled-in tables. -/
def RootTables.anchors (tables : RootTables) : List AnchorView :=
  tableAnchors decode tables.builtin ++ tableAnchors decode tables.extra

/-- The places that the counting read provides for the file. -/
def CertEnv.filePlaces (env : CertEnv) : ℕ :=
  match env.rootsPath, wmCertStoreReadFile env.firstRead with
  | true, some first => min (Search.count beginMarker first) WM_MAX_EXTERNAL_ROOT_COUNT
  | _, _ => 0

/-- The anchors of the loading read, which takes place only if the first one has
counted something. -/
def CertEnv.fileAnchors (env : CertEnv) : List AnchorView :=
  match wmCertStoreReadFile env.secondRead with
  | some pem => if 0 < env.filePlaces ∧ env.allocDer = true then pemAnchors decode pem else []
  | none => []

end Sources

section Bundle

/-- A byte that may stand anywhere in the base64 text. -/
def isBreak (c : UInt8) : Bool := c = 10 || c = 13 || c = 32

/-- One certificate as a PEM file holds it. -/
structure PemBlock where
  comment : List UInt8
  der : List UInt8
  body : List UInt8
  comment_plain : (45 : UInt8) ∉ comment
  der_pos : 0 < der.length
  der_le : der.length ≤ WM_CERT_DER_MAX_BYTES
  body_base64 : body.filter (fun c => !isBreak c) = Base64.encode der

def PemBlock.text (b : PemBlock) : List UInt8 := b.comment ++ beginMarker ++ b.body ++ endMarker

def bundleText (bs : List PemBlock) : List UInt8 := bs.flatMap PemBlock.text

/-- A read that finds the file and gets all of it. -/
def FileRead.whole (text : List UInt8) : FileRead := ⟨some text, true, true, true⟩

end Bundle

section Damage

/-- A complete block: no BEGIN marker starts in its commentary, and no END marker
in its body. -/
structure PemEntry where
  comment : List UInt8
  body : List UInt8
  opens : Search.find beginMarker (comment ++ beginMarker) = some beginMarker
  closes : Search.find endMarker (body ++ endMarker) = some endMarker

def PemEntry.text (b : PemEntry) : List UInt8 := b.comment ++ beginMarker ++ b.body ++ endMarker

def entriesText (bs : List PemEntry) : List UInt8 := bs.flatMap PemEntry.text

/-- The base64 of the body decodes. -/
def BodyDecodes (body der : List UInt8) : Prop :=
  wmCertStoreDecodeB64 body WM_CERT_DER_MAX_BYTES = ⟨der, der.length⟩ ∧ 0 < der.length

/-- Blocks behind a text that may leave a block open: those that are lost in it,
those from the first that is met with no block open, and the text in front of
the BEGIN marker of that one. -/
structure Resumed where
  front : List UInt8
  lost : List PemEntry
  kept : List PemEntry

def resume : List UInt8 → List PemEntry → Resumed
  | front, [] => ⟨front, [], []⟩
  | front, b :: bs =>
    if Search.Between beginMarker endMarker (front ++ b.comment) then
      ⟨front ++ b.comment, [], b :: bs⟩
    else
      let r := resume (front ++ b.text) bs
      ⟨r.front, b :: r.lost, r.kept⟩

end Damage

end BearTLS
