import BearTLS.Lib.Terminated
import Mathlib.Data.UInt

/-! Two registrations of one installation: `bt_write_registry` of `BearTLS_CAB.cpp` and
`wm_bear_tls_register_runtime` of `wm_cert_store.c`. `RegCreateKeyEx` and
`GetModuleFileName` are parameters. The arrays hold MAX_PATH characters, so that no
`DWORD` or `size_t` here wraps. -/

namespace BearTLS

open Terminated

def MAX_PATH : ℕ := 260

abbrev WCHAR := UInt16

abbrev WideArray := ℕ → WCHAR

/-- The characters of a wide C string, without its terminator. -/
structure WideString where
  chars : List WCHAR
  nul_free : (0 : WCHAR) ∉ chars

def wide (s : String) : List WCHAR := s.toList.map fun c => c.toNat.toUInt16

/-- A key as `RegCreateKeyEx` hands it out. -/
structure HKEY where
  handle : UInt32
  opened : handle ≠ 0

/-- A REG_SZ value: its name, and the characters that were passed, terminator included. -/
structure RegValue where
  name : List WCHAR
  data : List WCHAR
deriving DecidableEq, Repr

/-- The return value, and the values that were set under the key. -/
structure Registered where
  ret : ℤ
  values : List RegValue
deriving DecidableEq, Repr

/-- `RegSetValueEx` of a string, with `wcslen(value) + 1` characters. -/
def regSetValueEx (values : List RegValue) (name : String) (value : List WCHAR) : List RegValue :=
  values ++ [⟨wide name, value ++ [0]⟩]

section Installer

variable (regCreateKeyEx : List WCHAR → Option HKEY)

def btCopyString (dest : WideArray) (destCount : ℕ) (src : List WCHAR) : WideArray × Bool :=
  if destCount = 0 then (dest, false) else copyFrom destCount dest 0 src

def btAppendString (dest : WideArray) (destCount : ℕ) (suffix : List WCHAR) : WideArray × Bool :=
  if destCount = 0 then (dest, false)
  else
    let len := length dest destCount
    if len ≥ destCount then (dest, false) else copyFrom destCount dest len suffix

def btSetRegString (values : List RegValue) (key : HKEY) (name : String) (value : List WCHAR) :
    List RegValue :=
  if key.handle = 0 then values else regSetValueEx values name value

/-- `dllPath` and `rootsPath` are what the two arrays hold at first. -/
def btWriteRegistry (installDir : Option WideString) (dllPath rootsPath : WideArray) :
    Registered :=
  match installDir with
  | none => ⟨0, []⟩
  | some installDir =>
    if installDir.chars = [] then ⟨0, []⟩
    else
      let dll := btCopyString dllPath MAX_PATH installDir.chars
      if !dll.2 then ⟨0, []⟩
      else
        let dll := btAppendString dll.1 MAX_PATH (wide "\\wm_https.dll")
        if !dll.2 then ⟨0, []⟩
        else
          let roots := btCopyString rootsPath MAX_PATH installDir.chars
          if !roots.2 then ⟨0, []⟩
          else
            let roots := btAppendString roots.1 MAX_PATH (wide "\\certs\\roots.pem")
            if !roots.2 then ⟨0, []⟩
            else
              match regCreateKeyEx (wide "Software\\BearTLS") with
              | none => ⟨0, []⟩
              | some key =>
                let values := btSetRegString [] key "InstallDir" installDir.chars
                let values := btSetRegString values key "DllPath" (chars dll.1 MAX_PATH)
                let values := btSetRegString values key "RootsPath" (chars roots.1 MAX_PATH)
                let values := btSetRegString values key "Version" (wide "1.0.0")
                ⟨1, values⟩

end Installer

section Runtime

variable (getModuleFileName : WideArray → ℕ → ℕ × WideArray)

def wmBearTlsFindLastSlash (path : WideArray) (pathCount : ℕ) : Option ℕ :=
  last (fun c => c = 92 ∨ c = 47) path pathCount

def wmBearTlsGetDllPath (out : WideArray) (outCount : ℕ) : WideArray × Bool :=
  if outCount = 0 then (out, false)
  else
    let (n, out) := getModuleFileName (Function.update out 0 0) outCount
    if n = 0 ∨ n ≥ outCount then (Function.update out 0 0, false) else (out, true)

def wmBearTlsGetInstallDir (out : WideArray) (outCount : ℕ) : WideArray × Bool :=
  let (out, found) := wmBearTlsGetDllPath getModuleFileName out outCount
  if !found then (out, false)
  else
    match wmBearTlsFindLastSlash out outCount with
    | none => (out, false)
    | some last => (Function.update out last 0, true)

def wmBearTlsAppendPath (path : WideArray) (pathCount : ℕ) (suffix : List WCHAR) :
    WideArray × Bool :=
  let pathLen := length path pathCount
  let suffixLen := suffix.length
  if pathLen + suffixLen + 1 > pathCount then (path, false)
  else (write path pathLen (suffix ++ [0]), true)

def wmBearTlsGetRootsPath (out : WideArray) (outCount : ℕ) : WideArray × Bool :=
  let (out, found) := wmBearTlsGetInstallDir getModuleFileName out outCount
  if !found then (out, false)
  else wmBearTlsAppendPath out outCount (wide "\\certs\\roots.pem")

def wmBearTlsRegisterRuntime (regCreateKeyEx : List WCHAR → Option HKEY)
    (dllPath installDir rootsPath : WideArray) : Registered :=
  let dll := wmBearTlsGetDllPath getModuleFileName dllPath MAX_PATH
  if !dll.2 then ⟨0, []⟩
  else
    let dir := wmBearTlsGetInstallDir getModuleFileName installDir MAX_PATH
    if !dir.2 then ⟨0, []⟩
    else
      let roots := wmBearTlsGetRootsPath getModuleFileName rootsPath MAX_PATH
      if !roots.2 then ⟨0, []⟩
      else
        match regCreateKeyEx (wide "Software\\BearTLS") with
        | none => ⟨0, []⟩
        | some _ =>
          let values := regSetValueEx [] "InstallDir" (chars dir.1 MAX_PATH)
          let values := regSetValueEx values "DllPath" (chars dll.1 MAX_PATH)
          let values := regSetValueEx values "RootsPath" (chars roots.1 MAX_PATH)
          let values := regSetValueEx values "Version" (wide "1.0.0")
          ⟨1, values⟩

end Runtime

end BearTLS
