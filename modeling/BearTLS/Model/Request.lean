import BearTLS.Lib.HeaderBlock
import BearTLS.Lib.Memory

/-! The request text of `wm_https.c`: the capped appends and
`wm_https_build_request`. The target is a 32-bit ARM, so a C string is shorter
than 2 ^ 32 bytes. -/

namespace BearTLS

open HeaderBlock Memory

def WM_HTTPS_REQUEST_SIZE : ℕ := 4096

/-- The bytes of a C string, without its terminator. -/
structure CString where
  bytes : List UInt8
  nul_free : (0 : UInt8) ∉ bytes
  fits : bytes.length < 2 ^ 32

def ascii (s : String) : List UInt8 := s.toList.map fun c => c.toNat.toUInt8

/-- `_snprintf` into an array of `size` bytes, with the NUL that follows it in the last one. -/
def snprintf (size : ℕ) (text : List UInt8) : List UInt8 := text.take (size - 1)

structure RequestBuf where
  request : Mem
  used : ℕ

section Build

variable (requestSize : ℤ)

/-- The common body of the two appends; `none` is a NULL source. -/
def appendCapped (b : RequestBuf) (text : Option (List UInt8)) : RequestBuf :=
  match text with
  | none => b
  | some text =>
    if requestSize ≤ 0 then b
    else
      let requestCap := requestSize.toNat
      if b.used ≥ requestCap - 1 then b
      else
        let chunkLen :=
          if text.length > requestCap - b.used - 1 then requestCap - b.used - 1 else text.length
        let request := store b.request b.used (text.take chunkLen)
        ⟨store request (b.used + chunkLen) [0], b.used + chunkLen⟩

def wmHttpsAppendRequestText (b : RequestBuf) (text : Option (List UInt8)) : RequestBuf :=
  appendCapped requestSize b text

def wmHttpsAppendRequestData (b : RequestBuf) (data : Option (List UInt8)) (dataLen : ℕ) :
    RequestBuf :=
  appendCapped requestSize b (data.map (List.take dataLen))

/-- `(s != 0 && s[0] != '\0') ? s : dflt`. -/
def orDefault (s : Option CString) (dflt : List UInt8) : List UInt8 :=
  match s with
  | some t => if t.bytes = [] then dflt else t.bytes
  | none => dflt

def wmHttpsBuildRequest (host : Option CString) (port : UInt16)
    (method path extraHeaders body : Option CString) (request : Mem) : RequestBuf :=
  if requestSize ≤ 0 then ⟨request, 0⟩
  else
    let b : RequestBuf := ⟨store request 0 [0], 0⟩
    let bodyLen := match body with
      | some s => s.bytes.length
      | none => 0
    let includePort := !(port == 443 || port == 80)
    let b := wmHttpsAppendRequestText requestSize b (some (orDefault method (ascii "GET")))
    let b := wmHttpsAppendRequestText requestSize b (some (ascii " "))
    let b := wmHttpsAppendRequestText requestSize b (some (orDefault path (ascii "/")))
    let b := wmHttpsAppendRequestText requestSize b (some (ascii " HTTP/1.1\r\nHost: "))
    let b := wmHttpsAppendRequestText requestSize b (host.map CString.bytes)
    let b := if includePort then
        wmHttpsAppendRequestText requestSize b
          (some (snprintf 16 (ascii ":" ++ decimal port.toNat)))
      else b
    let b := wmHttpsAppendRequestText requestSize b
      (some (ascii "\r\nUser-Agent: Mozilla/5.0 (Windows CE; ARM; HP iPAQ 212)" ++
        ascii "\r\nAccept: */*" ++ ascii "\r\nConnection: close"))
    let b := match extraHeaders with
      | some s =>
        if s.bytes = [] then b
        else wmHttpsAppendRequestText requestSize
          (wmHttpsAppendRequestText requestSize b (some (ascii "\r\n"))) (some s.bytes)
      | none => b
    let b := if 0 < bodyLen then
        wmHttpsAppendRequestText requestSize b
          (some (snprintf 32 (ascii "\r\nContent-Length: " ++ decimal (bodyLen % 2 ^ 32))))
      else b
    let b := wmHttpsAppendRequestText requestSize b (some (ascii "\r\n\r\n"))
    if 0 < bodyLen then
      wmHttpsAppendRequestData requestSize b (body.map CString.bytes) bodyLen
    else b

end Build

/-- The text that `wm_https_request` hands to `wm_tls_exchange_internal`, `none`
where it rejects its arguments. `stack` is what the array held before. -/
def wmHttpsRequestText (host : Option CString) (port : UInt16)
    (method path extraHeaders body : Option CString) (response : Option Mem) (responseSize : ℤ)
    (stack : Mem) : Option (List UInt8) :=
  if host.isNone ∨ path.isNone ∨ response.isNone ∨ responseSize ≤ 1 then none
  else
    let b := wmHttpsBuildRequest WM_HTTPS_REQUEST_SIZE host port method path extraHeaders body stack
    some (cstr b.request 0 WM_HTTPS_REQUEST_SIZE)

end BearTLS
