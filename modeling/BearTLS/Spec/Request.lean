import BearTLS.Model.Request

/-! The request that `wm_https_request` means to send, and what makes a text
that a server receives a whole request. -/

namespace BearTLS

open HeaderBlock

/-- The arguments of `wm_https_request` that the request is made of. -/
structure RequestArgs where
  host : Option CString
  port : UInt16
  method : Option CString
  path : Option CString
  extraHeaders : Option CString
  body : Option CString

namespace RequestArgs

variable (a : RequestArgs)

def bodyBytes : List UInt8 := (a.body.map CString.bytes).getD []

def extraBytes : List UInt8 := (a.extraHeaders.map CString.bytes).getD []

def hostBytes : List UInt8 := (a.host.map CString.bytes).getD []

def hostLine : List UInt8 :=
  ascii "Host: " ++ a.hostBytes ++
    if a.port = 443 ∨ a.port = 80 then [] else ascii ":" ++ decimal a.port.toNat

/-- The lines of the header block, with `extra` for the caller's own. -/
def lines (extra : List (List UInt8)) : List (List UInt8) :=
  [orDefault a.method (ascii "GET") ++ ascii " " ++ orDefault a.path (ascii "/") ++
      ascii " HTTP/1.1",
    a.hostLine, ascii "User-Agent: Mozilla/5.0 (Windows CE; ARM; HP iPAQ 212)",
    ascii "Accept: */*", ascii "Connection: close"] ++ extra ++
    if a.bodyBytes = [] then []
    else [ascii "Content-Length: " ++ decimal a.bodyBytes.length]

/-- The whole message, of any length. -/
def message (extra : List (List UInt8)) : List UInt8 := render (a.lines extra) ++ a.bodyBytes

/-- What the caller promises: one-line method, path and host, and extra headers
that are empty or the lines `extra` joined by CRLF. -/
structure WellFormed (extra : List (List UInt8)) : Prop where
  method : ∀ s, a.method = some s → (13 : UInt8) ∉ s.bytes
  path : ∀ s, a.path = some s → (13 : UInt8) ∉ s.bytes
  host : (13 : UInt8) ∉ a.hostBytes
  joined : a.extraBytes = CRLF.intercalate extra
  extra : ∀ l ∈ extra, Clean l

/-- Method and path without a space, so that the request line has three words. -/
structure Worded : Prop where
  method : ∀ s, a.method = some s → (32 : UInt8) ∉ s.bytes
  path : ∀ s, a.path = some s → (32 : UInt8) ∉ s.bytes

/-- The texts that `wm_https_build_request` appends, in its order. -/
def appended : List (List UInt8) :=
  [orDefault a.method (ascii "GET"), ascii " ", orDefault a.path (ascii "/"),
    ascii " HTTP/1.1\r\nHost: "] ++ (a.host.map CString.bytes).toList ++
  (if a.port = 443 ∨ a.port = 80 then [] else [ascii ":" ++ decimal a.port.toNat]) ++
  [ascii "\r\nUser-Agent: Mozilla/5.0 (Windows CE; ARM; HP iPAQ 212)" ++
    ascii "\r\nAccept: */*" ++ ascii "\r\nConnection: close"] ++
  (if a.extraBytes = [] then [] else [ascii "\r\n", a.extraBytes]) ++
  (if a.bodyBytes = [] then []
    else [ascii "\r\nContent-Length: " ++ decimal a.bodyBytes.length]) ++
  [ascii "\r\n\r\n"] ++ if a.bodyBytes = [] then [] else [a.bodyBytes]

/-- The message of any arguments, of any length. -/
def whole : List UInt8 := a.appended.flatten

/-- The text in a buffer of `requestSize` bytes after `wm_https_build_request`. -/
def built (requestSize : ℤ) (request : Memory.Mem) : List UInt8 :=
  Memory.cstr (wmHttpsBuildRequest requestSize a.host a.port a.method a.path a.extraHeaders a.body
    request).request 0 requestSize.toNat

/-- The text handed to the exchange for these arguments. -/
def handed (response : Option Memory.Mem) (responseSize : ℤ) (stack : Memory.Mem) :
    Option (List UInt8) :=
  wmHttpsRequestText a.host a.port a.method a.path a.extraHeaders a.body response responseSize stack

end RequestArgs

/-- Texts appended one behind the other. -/
def appends (requestSize : ℤ) (b : RequestBuf) (texts : List (List UInt8)) : RequestBuf :=
  texts.foldl (fun b text => appendCapped requestSize b (some text)) b

/-- A server that reads `text` finds the header block `lines` complete, and behind
it as many bytes as each Content-Length field says. -/
def Framed (lines : List (List UInt8)) (text : List UInt8) : Prop :=
  ∃ body, parse text = some (lines, body) ∧
    ∀ l ∈ lines.tail, IsContentLength l → fieldLength l = some body.length

end BearTLS
