import BearTLS.Lib.Holdings
import BearTLS.Model.CertStore

/-! `wm_cert_store_init` with the calls that it makes: the file handle and the blocks of the
heap. A loop is one use of each block that it reads or writes. -/

namespace BearTLS

open Holdings

/-- The handle and the blocks; the last two are the globals. -/
inductive StoreResource where
  | file
  | pem
  | der
  | anchors
  | storage
deriving DecidableEq

abbrev StoreAction := Action StoreResource

/-- What the system answers to one `wm_cert_store_read_file`: `read` is `none` where
`ReadFile` fails, else the bytes that it has stored. -/
structure FileAnswers where
  opened : Bool
  size : UInt32
  alloc : Bool
  read : Option (List UInt8)

def wmCertStoreReadFileOs (a : FileAnswers) : Option (List UInt8) × List StoreAction :=
  if !a.opened then (none, [])
  else
    let log := [.acquire .file, .use .file]
    if a.size = 0xFFFFFFFF ∨ a.size = 0 ∨ a.size.toNat > WM_CERT_FILE_MAX_BYTES then
      (none, log ++ [.release .file])
    else if !a.alloc then (none, log ++ [.release .file])
    else
      let log := log ++ [.acquire .pem, .use .file, .use .pem]
      match a.read with
      | none => (none, log ++ [.release .pem, .release .file])
      | some bytes =>
        if bytes.length ≠ a.size.toNat then (none, log ++ [.release .pem, .release .file])
        else (some bytes, log ++ [.release .file, .use .pem])

/-- The answers of the system during one `wm_cert_store_init`. -/
structure StoreAnswers where
  rootsPath : Bool
  firstRead : FileAnswers
  secondRead : FileAnswers
  allocAnchors : Bool
  allocStorage : Bool
  allocDer : Bool

def wmCertStoreAllocOs (a : StoreAnswers) (capacity : ℕ) (st : CertStore) :
    Bool × CertStore × List StoreAction :=
  if capacity = 0 then (false, st, [])
  else
    let log := (if a.allocAnchors then [.acquire .anchors] else []) ++
      (if a.allocStorage then [.acquire .storage] else [])
    if !a.allocAnchors || !a.allocStorage then
      (false, { st with allocated := false, capacity := 0 },
        log ++ (if a.allocAnchors then [.release .anchors] else []) ++
          (if a.allocStorage then [.release .storage] else []))
    else (true, ⟨fun _ => .zero, fun _ => .zero, true, capacity, st.count, st.initialized⟩, log)

variable (decode : X509Decoder)

def wmCertStoreLoadPemRootsOs (a : StoreAnswers) (s : Loading) : Loading × List StoreAction :=
  match wmCertStoreReadFileOs a.secondRead with
  | (none, log) => (s, log)
  | (some pem, log) =>
    if !a.allocDer then (s, log ++ [.release .pem])
    else
      (wmCertStoreLoadLoop decode pem s,
        log ++ [.acquire .der, .use .pem, .use .der, .use .anchors, .use .storage, .release .der,
          .release .pem])

/-- `external_count`: the first read only counts. -/
def StoreAnswers.externalCount (a : StoreAnswers) : ℕ × List StoreAction :=
  if a.rootsPath then
    match wmCertStoreReadFileOs a.firstRead with
    | (none, log) => (0, log)
    | (some pem, log) => (wmCertStoreCountPemCerts pem, log ++ [.use .pem, .release .pem])
  else (0, [])

def wmCertStoreInitOs (tables : RootTables) (a : StoreAnswers) (st : CertStore) :
    Bool × CertStore × List StoreAction :=
  if st.initialized then (true, st, [])
  else
    let external := a.externalCount
    let alloc := wmCertStoreAllocOs a (WM_PUBLIC_ROOT_COUNT + external.1) st
    if !alloc.1 then (false, alloc.2.1, external.2 ++ alloc.2.2)
    else
      let s : Loading := ⟨{ alloc.2.1 with count := 0 }, 0⟩
      let load := if 0 < external.1 ∧ a.rootsPath = true then wmCertStoreLoadPemRootsOs decode a s
        else (s, [])
      let s := wmCertStoreLoadDers decode tables.builtin load.1
      let s := wmCertStoreLoadDers decode tables.extra s
      (decide (0 < s.st.count), { s.st with initialized := true },
        external.2 ++ alloc.2.2 ++ load.2 ++ [.use .anchors, .use .storage])

/-- The functions of `wm_cert_store.h` that work on the store. -/
inductive StoreCall where
  | init
  | anchors
  | anchorCount

/-- What they return; a pointer is only said to be NULL or not. -/
inductive StoreReply where
  | ret (ok : Bool)
  | pointer (set : Bool)
  | count (n : ℕ)
deriving DecidableEq

def wmCertStoreAnchors (tables : RootTables) (a : StoreAnswers) (st : CertStore) :
    StoreReply × CertStore × List StoreAction :=
  let o := if !st.initialized then (wmCertStoreInitOs decode tables a st).2 else (st, [])
  (.pointer o.1.allocated, o)

def wmCertStoreAnchorCount (tables : RootTables) (a : StoreAnswers) (st : CertStore) :
    StoreReply × CertStore × List StoreAction :=
  let o := if !st.initialized then (wmCertStoreInitOs decode tables a st).2 else (st, [])
  (.count o.1.count, o)

def storeCall (tables : RootTables) (a : StoreAnswers) (st : CertStore) :
    StoreCall → StoreReply × CertStore × List StoreAction
  | .init =>
    let o := wmCertStoreInitOs decode tables a st
    (.ret o.1, o.2.1, o.2.2)
  | .anchors => wmCertStoreAnchors decode tables a st
  | .anchorCount => wmCertStoreAnchorCount decode tables a st

/-- One call after another, each with its own answers of the system. -/
def storeRun (tables : RootTables) (st : CertStore) :
    List (StoreCall × StoreAnswers) → List StoreReply × CertStore × List StoreAction
  | [] => ([], st, [])
  | (call, a) :: calls =>
    let o := storeCall decode tables a st call
    let r := storeRun tables o.2.1 calls
    (o.1 :: r.1, r.2.1, o.2.2 ++ r.2.2)

end BearTLS
