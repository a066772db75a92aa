import BearTLS.Model.Registration

/-! What a registration of an install directory should leave in the registry, and what
`GetModuleFileName` is documented to do. -/

namespace BearTLS

open Terminated

/-- With room for the terminator the path is stored and its length returned; without, the
result is no less than the size of the array. -/
structure NamesModule (path : List WCHAR)
    (getModuleFileName : WideArray → ℕ → ℕ × WideArray) : Prop where
  length_eq : ∀ out count, path.length < count → (getModuleFileName out count).1 = path.length
  reads : ∀ out count, path.length < count → Reads (getModuleFileName out count).2 path
  cut : ∀ out count, count ≤ path.length → count ≤ (getModuleFileName out count).1

def registeredPaths (dir : List WCHAR) : List RegValue :=
  [⟨wide "InstallDir", dir ++ [0]⟩,
    ⟨wide "DllPath", dir ++ wide "\\wm_https.dll" ++ [0]⟩,
    ⟨wide "RootsPath", dir ++ wide "\\certs\\roots.pem" ++ [0]⟩,
    ⟨wide "Version", wide "1.0.0" ++ [0]⟩]

/-- All four values, or none: the key must open and the longest of the paths must fit. -/
def registration (dir : List WCHAR) (key : Option HKEY) : Registered :=
  if key.isSome ∧ (dir ++ wide "\\certs\\roots.pem").length < MAX_PATH then
    ⟨1, registeredPaths dir⟩
  else ⟨0, []⟩

end BearTLS
