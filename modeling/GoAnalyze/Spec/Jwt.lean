import GoAnalyze.Lib.Base64
import GoAnalyze.Lib.UriComponent
import GoAnalyze.Lib.JsJson
import GoAnalyze.Spec.Models
import GoAnalyze.Spec.BrowserAuth

/-! The texts of tokens in `auth.ts`: what `base64UrlEncode` is made of, and `decodeJwt`. -/

namespace GoAnalyze

namespace Auth

/-- The string that `base64UrlEncode` collects, with a character for each byte. -/
def binaryString (bytes : List UInt8) : List Char := bytes.map fun b => Char.ofNat b.toNat

/-- `btoa`: a character that is no byte throws. -/
def btoa (str : List Char) : Option (List Char) :=
  if str.all (·.toNat < 256) then some (Base64.encode (str.map fun c => UInt8.ofNat c.toNat))
  else none

def atob (s : List Char) : Option (List Char) := (Base64.decode s).map binaryString

/-- The two replacements of `base64UrlEncode`, one after the other. -/
def toBase64Url (s : List Char) : List Char :=
  (s.map fun c => if c = '+' then '-' else c).map fun c => if c = '/' then '_' else c

/-- The two replacements of `decodeJwt`. -/
def fromBase64Url (s : List Char) : List Char :=
  (s.map fun c => if c = '-' then '+' else c).map fun c => if c = '_' then '/' else c

/-- The payload of the token, or `null` where a step throws. -/
def decodeJwt (token : String) : JsJson.Value :=
  let decoded : Option JsJson.Value := do
    let payload ← (token.toList.splitOn '.')[1]?
    let binary ← atob (fromBase64Url payload)
    let json ← UriComponent.decode (binary.flatMap fun c => UriComponent.escape c.toNat)
    JsJson.parse json
  decoded.getD .null

end Auth

/-- A value with the properties of its objects in the order of their enumeration. -/
structure JsonValue where
  value : JsJson.Value
  ordered : value.Ordered

end GoAnalyze
