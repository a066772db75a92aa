import BearTLS.Model.CertStoreOs
import BearTLS.Spec.CertStore

/-! The trust store as a holder of memory: the two arrays are all that it keeps, and it is
filled at most once. -/

namespace BearTLS

section Answers

/-- The same read without its calls. -/
def FileAnswers.toRead (a : FileAnswers) : FileRead :=
  ⟨(wmCertStoreReadFileOs a).1, true, true, true⟩

/-- The answers without the calls. -/
def StoreAnswers.toEnv (a : StoreAnswers) : CertEnv :=
  ⟨a.rootsPath, a.firstRead.toRead, a.secondRead.toRead, a.allocAnchors, a.allocStorage,
    a.allocDer⟩

end Answers

/-- What the two globals point to. -/
def CertStore.held (st : CertStore) : Multiset StoreResource :=
  if st.allocated then {.anchors, .storage} else 0

/-- The store between two calls. -/
structure CertStore.Kept (st : CertStore) : Prop where
  arrays : st.allocated = st.initialized
  room : st.count ≤ st.capacity
  own : ∀ i < st.count, (st.anchors i).Own i
  empty : st.initialized = false → st.count = 0 ∧ st.capacity = 0

section Trust

/-- The answers get both arrays. -/
def StoreAnswers.allocs (a : StoreAnswers) : Bool := a.allocAnchors && a.allocStorage

variable (decode : X509Decoder) (tables : RootTables)

/-- The anchors that an initialisation with these answers trusts. -/
def StoreAnswers.filled (a : StoreAnswers) : List AnchorView :=
  (a.toEnv.fileAnchors decode ++ tables.anchors decode).take
    (WM_PUBLIC_ROOT_COUNT + a.toEnv.filePlaces)

/-- What the store is for: a list of anchors that is chosen once. -/
abbrev Trust := Option (List AnchorView)

def Trust.call (t : Trust) (a : StoreAnswers) : Trust :=
  match t with
  | some vs => some vs
  | none => if a.allocs then some (a.filled decode tables) else none

/-- The reply to a call that leaves `t'`. Only the initialisation that chooses the anchors says
whether there are any; a later one says yes. -/
def Trust.reply (t t' : Trust) : StoreCall → StoreReply
  | .init => .ret (t.isSome || decide (0 < (t'.getD []).length))
  | .anchors => .pointer t'.isSome
  | .anchorCount => .count (t'.getD []).length

def Trust.run (t : Trust) : List (StoreCall × StoreAnswers) → List StoreReply × Trust
  | [] => ([], t)
  | (call, a) :: calls =>
    let t' := t.call decode tables a
    let r := Trust.run t' calls
    (t.reply t' call :: r.1, r.2)

/-- The globals stand for the anchors that are chosen. -/
structure CertStore.Shows (st : CertStore) (t : Trust) : Prop where
  kept : st.Kept
  initialized : st.initialized = t.isSome
  trusted : st.trusted = t.getD []

end Trust

end BearTLS
