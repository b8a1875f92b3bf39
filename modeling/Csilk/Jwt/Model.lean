import Csilk.Jwt.Base64
import Csilk.Lib.Double
import Mathlib.Data.Rat.Cast.Order

namespace Csilk.Jwt
open Csilk.Lib

inductive JwtAlg
  | hs256 | rs256 | es256
  deriving DecidableEq

def csilkJwtRequireExp : UInt32 := 1
def csilkJwtRequireNbf : UInt32 := 2
def csilkJwtRequireIat : UInt32 := 4

structure JwtOptions where
  algorithm : JwtAlg
  flags : UInt32
  leewaySec : Int

def JwtOptions.none : JwtOptions := ⟨.hs256, 0, 0⟩

/-- Texts and strings are byte strings, a number has the value of a double. -/
structure Json (J : Type) where
  parse : Bytes → Option J
  serialize : J → Option Bytes
  get : J → Bytes → Option J
  stringValue : J → Option Bytes
  numberValue : J → Option ℚ

structure Cipher where
  hmacSha256 : Bytes → Bytes → { bs : Bytes // bs.length = 32 }
  sign : JwtAlg → Bytes → Bytes → Option Bytes
  verify : JwtAlg → Bytes → Bytes → Bytes → Bool

def csilkRsaSignatureSize : Nat := 256
def sizeMax : Nat := 2 ^ 64 - 1

def jwtAlgStr : JwtAlg → Bytes
  | .rs256 => ascii "RS256"
  | .es256 => ascii "ES256"
  | .hs256 => ascii "HS256"

def jwtBuildHeader (alg : JwtAlg) : Bytes :=
  (ascii "\x7b\"alg\":\"" ++ jwtAlgStr alg ++ ascii "\",\"typ\":\"JWT\"\x7d").take 47

def require (b : Bool) : Option Unit := if b then some () else none

section Library
variable {J : Type} (lib : Json J) (cipher : Cipher)

def jwtGenerateInternal (payload : J) (key : Bytes) (algorithm : JwtAlg) : Option Bytes := do
  let headerJson := jwtBuildHeader algorithm
  require (headerJson.length ≤ sizeMax / 4 - 1)
  let headerB64 := csilkBase64urlEncode headerJson
  let payloadStr ← lib.serialize payload
  let payloadStr := cString payloadStr
  require (payloadStr.length ≤ sizeMax / 4 - 1)
  let payloadB64 := csilkBase64urlEncode payloadStr
  require (headerB64.length ≤ sizeMax - 2 - payloadB64.length)
  let signInput := headerB64 ++ 46 :: payloadB64
  let sig ← match algorithm with
    | .hs256 => some (cipher.hmacSha256 key signInput).1
    | _ => cipher.sign algorithm key signInput
  let sigB64 := csilkBase64urlEncode sig
  require (signInput.length ≤ sizeMax - 2 - sigB64.length)
  return signInput ++ 46 :: sigB64

def cutDot (text : Bytes) : Option (Bytes × Bytes) :=
  if 46 ∈ text then some (text.takeWhile (· ≠ 46), (text.dropWhile (· ≠ 46)).drop 1) else none

def decodePart (part : Bytes) : Option Bytes := csilkBase64urlDecode part (part.length + 1)

/-- The guard against another algorithm: the strings are compared with `strcmp`. -/
def algMatches (header : J) (algorithm : JwtAlg) : Bool :=
  match (lib.get header (ascii "alg")).bind lib.stringValue with
  | none => false
  | some s => cString s = jwtAlgStr algorithm

def sigOk (algorithm : JwtAlg) (key signInput sig : Bytes) : Bool :=
  match algorithm with
  | .hs256 => sig = csilkBase64urlEncode (cipher.hmacSha256 key signInput).1
  | _ => match csilkBase64urlDecode sig csilkRsaSignatureSize with
    | none => false
    | some decoded => 0 < decoded.length && cipher.verify algorithm key signInput decoded

def checkClaim (payload : J) (name : Bytes) (required : Bool) (fails : ℚ → Bool) : Bool :=
  match lib.get payload name with
  | none => !required
  | some claim => match lib.numberValue claim with
    | none => false
    | some x => !fails x

def checkExp (payload : J) (flags : UInt32) (leeway now : Int) : Bool :=
  checkClaim lib payload (ascii "exp") (flags &&& csilkJwtRequireExp ≠ 0)
    fun x => x < (toDouble (toDouble now - toDouble leeway) : ℚ)

def checkNbf (payload : J) (flags : UInt32) (leeway now : Int) : Bool :=
  checkClaim lib payload (ascii "nbf") (flags &&& csilkJwtRequireNbf ≠ 0)
    fun x => (toDouble (toDouble now + toDouble leeway) : ℚ) < x

def checkIat (payload : J) (flags : UInt32) : Bool :=
  checkClaim lib payload (ascii "iat") (flags &&& csilkJwtRequireIat ≠ 0) fun _ => false

/-- The JSON functions see a decoded part up to its first NUL. -/
def jwtVerifyInternal (token key : Bytes) (options : Option JwtOptions) (now : Int) : Option J := do
  require (16 ≤ key.length)
  let options := options.getD .none
  let (header, rest) ← cutDot (cString token)
  let (payload, sig) ← cutDot rest
  let hdrJson ← decodePart header
  let hdrObj ← lib.parse (cString hdrJson)
  require (algMatches lib hdrObj options.algorithm)
  require (sigOk cipher options.algorithm key (header ++ 46 :: payload) sig)
  let json ← decodePart payload
  let payload ← lib.parse (cString json)
  require (checkExp lib payload options.flags options.leewaySec now)
  require (checkNbf lib payload options.flags options.leewaySec now)
  require (checkIat lib payload options.flags)
  return payload

end Library

end Csilk.Jwt
