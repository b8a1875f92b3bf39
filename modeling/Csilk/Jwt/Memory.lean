import Csilk.Jwt.Verify

namespace Csilk.Jwt.Memory
open List

inductive Part
  | header
  | payload
  deriving DecidableEq

/-- What is freed again: the copy of a part, its decoded text and its document. -/
inductive Obj
  | b64 (part : Part)
  | json (part : Part)
  | doc (part : Part)
  deriving DecidableEq

/-- `views` are the values of `csilk_json_get`; no call frees them. -/
structure Mem where
  live : List Obj
  freed : List Obj
  views : List Bytes
  misused : Bool

/-- A return of NULL ends the function in the memory it has reached. -/
abbrev M := OptionT (StateM Mem)

def alloc (o : Obj) : M Unit := modify fun s => { s with live := o :: s.live }

def use (o : Obj) : M Unit := modify fun s => { s with misused := s.misused || decide (o ∉ s.live) }

def free (o : Obj) : M Unit :=
  modify fun s => ⟨s.live.erase o, o :: s.freed, s.views, s.misused || decide (o ∉ s.live)⟩

section Verify
variable {J : Type} (lib : Json J) (cipher : Cipher) (malloc : Obj → Bool)
  (parse : Part → Bytes → Option J)

def parsePart (p : Part) (text : Bytes) : M J := do
  if !malloc (.b64 p) then failure
  alloc (.b64 p)
  use (.b64 p)
  if !malloc (.json p) then
    free (.b64 p)
    failure
  alloc (.json p)
  use (.b64 p)
  use (.json p)
  free (.b64 p)
  match decodePart text with
  | none =>
    free (.json p)
    failure
  | some json =>
    use (.json p)
    match parse p (cString json) with
    | none =>
      free (.json p)
      failure
    | some obj =>
      alloc (.doc p)
      free (.json p)
      return obj

def jsonGet (p : Part) (obj : J) (name : Bytes) : M (Option J) := do
  use (.doc p)
  match lib.get obj name with
  | none => return none
  | some v =>
    modify fun s => { s with views := name :: s.views }
    return some v

def checkAlg (hdrObj : J) (algorithm : JwtAlg) : M Unit := do
  let algVal ← jsonGet lib .header hdrObj (ascii "alg")
  match algVal.bind lib.stringValue with
  | none =>
    free (.doc .header)
    failure
  | some algStr =>
    use (.doc .header)
    free (.doc .header)
    if cString algStr ≠ jwtAlgStr algorithm then
      -- the log statement prints the string
      use (.doc .header)
      failure

def checkClaim (payload : J) (name : Bytes) (holds : Bool) : M Unit := do
  let claim ← jsonGet lib .payload payload name
  if claim.isSome then use (.doc .payload)
  if !holds then
    free (.doc .payload)
    failure

def verifyParts (key : Bytes) (options : JwtOptions) (now : Int) (header payload sig : Bytes) :
    M J := do
  let hdrObj ← parsePart malloc parse .header header
  checkAlg lib hdrObj options.algorithm
  if !sigOk cipher options.algorithm key (header ++ 46 :: payload) sig then failure
  let obj ← parsePart malloc parse .payload payload
  checkClaim lib obj (ascii "exp") (checkExp lib obj options.flags options.leewaySec now)
  checkClaim lib obj (ascii "nbf") (checkNbf lib obj options.flags options.leewaySec now)
  checkClaim lib obj (ascii "iat") (checkIat lib obj options.flags)
  return obj

def jwtVerifyInternal (token key : Option Bytes) (options : Option JwtOptions) (now : Int) : M J :=
  match token, key with
  | some token, some key =>
    if key.length < 16 then failure
    else match cutDot (cString token) with
    | none => failure
    | some (header, rest) =>
      match cutDot rest with
      | none => failure
      | some (payload, sig) =>
        verifyParts lib cipher malloc parse key (options.getD .none) now header payload sig
  | _, _ => failure

end Verify

def document (parse : Part → Bytes → Option J) (p : Part) (text : Bytes) : Option J :=
  (decodePart text).bind fun json => parse p (cString json)

def docAlg (lib : Json J) (hdrObj : J) : Option Bytes :=
  (lib.get hdrObj (ascii "alg")).bind lib.stringValue

def headerAlg (lib : Json J) (parse : Part → Bytes → Option J) (token : Bytes) : Option Bytes := do
  let (header, _) ← cutDot (cString token)
  docAlg lib (← document parse .header header)

def M.exec (m : M α) (s : Mem) : Option α × Mem := m.run.run s

/-- What was allocated is freed once, but for the document returned, and not used afterwards. -/
structure Managed (r : Option J × Mem) : Prop where
  live : r.2.live = if r.1.isSome then [.doc .payload] else []
  freed : r.2.freed.Nodup
  intact : r.2.misused = false

section Managed
variable {J : Type} {lib : Json J} {malloc : Obj → Bool} {parse : Part → Bytes → Option J}
  {fs : List Obj} {vs : List Bytes}

theorem Managed.stop (h : fs.Nodup) :
    Managed ((none, ⟨[], fs, vs, false⟩) : Option J × Mem) := ⟨rfl, h, rfl⟩

theorem Managed.done {obj : J} (h : fs.Nodup) :
    Managed (some obj, ⟨[.doc .payload], fs, vs, false⟩) := ⟨rfl, h, rfl⟩

-- Each of these says what a step needs of the steps `k` that follow it.
theorem parsePart_managed {p : Part} {text : Bytes} {k : J → M J}
    (h : (.json p :: .b64 p :: fs).Nodup)
    (hk : ∀ obj, document parse p text = some obj →
      Managed ((k obj).exec ⟨[.doc p], .json p :: .b64 p :: fs, vs, false⟩)) :
    Managed (M.exec (parsePart malloc parse p text >>= k) ⟨[], fs, vs, false⟩) := by
  rw [document] at hk
  rw [parsePart]
  cases malloc (.b64 p) with
  | false => exact .stop h.of_cons.of_cons
  | true =>
    cases malloc (.json p) with
    | false => cases p <;> exact .stop h.of_cons
    | true =>
      cases hjson : decodePart text with
      | none => cases p <;> exact .stop h
      | some json =>
        dsimp only
        cases hobj : parse p (cString json) with
        | none => cases p <;> exact .stop h
        | some obj =>
          have := hk obj (by rw [hjson]; exact hobj)
          cases p <;> exact this

theorem checkAlg_managed {hdrObj : J} {algorithm : JwtAlg} {k : M J}
    (h : (.doc .header :: fs).Nodup)
    (halg : ∀ s ∈ docAlg lib hdrObj, cString s = jwtAlgStr algorithm)
    (hk : ∀ vs, Managed (k.exec ⟨[], .doc .header :: fs, vs, false⟩)) :
    Managed (M.exec (checkAlg lib hdrObj algorithm >>= fun _ => k)
      ⟨[.doc .header], fs, vs, false⟩) := by
  rw [docAlg] at halg
  rw [checkAlg, jsonGet]
  cases hget : lib.get hdrObj (ascii "alg") with
  | none => exact .stop h
  | some v =>
    simp only [hget, Option.bind_some, bind_assoc, pure_bind] at halg ⊢
    cases hval : lib.stringValue v with
    | none => exact .stop h
    | some s =>
      simp only [halg s hval, ne_eq]
      exact hk _

theorem checkClaim_managed {obj : J} {name : Bytes} {holds : Bool} {k : M J}
    (h : (.doc .payload :: fs).Nodup)
    (hk : ∀ vs, Managed (k.exec ⟨[.doc .payload], fs, vs, false⟩)) :
    Managed (M.exec (checkClaim lib obj name holds >>= fun _ => k)
      ⟨[.doc .payload], fs, vs, false⟩) := by
  rw [checkClaim, jsonGet]
  cases holds with
  | false => cases lib.get obj name <;> exact .stop h
  | true => cases lib.get obj name <;> exact hk _

theorem verifyParts_managed (cipher : Cipher) (key : Bytes) (options : JwtOptions) (now : Int)
    (header payload sig : Bytes)
    (halg : ∀ hdrObj, document parse .header header = some hdrObj →
      ∀ s ∈ docAlg lib hdrObj, cString s = jwtAlgStr options.algorithm) :
    Managed ((verifyParts lib cipher malloc parse key options now header payload sig).exec
      ⟨[], [], [], false⟩) := by
  apply parsePart_managed (by decide)
  intro hdrObj hdoc
  apply checkAlg_managed (by decide) (halg hdrObj hdoc)
  intro vs
  cases sigOk cipher options.algorithm key (header ++ 46 :: payload) sig with
  | false => exact .stop (by decide)
  | true =>
    apply parsePart_managed (by decide)
    intro obj _
    apply checkClaim_managed (by decide)
    intro vs
    apply checkClaim_managed (by decide)
    intro vs
    apply checkClaim_managed (by decide)
    intro vs
    exact .done (by decide)

end Managed

def textJson : Json Bytes where
  parse := some
  serialize := some
  get text _ := some text
  stringValue := some
  numberValue _ := none

end Csilk.Jwt.Memory
