import Csilk.Dispatch.Chain

namespace Csilk.Dispatch
open Csilk.Routing List

structure Response where
  status : Int
  body : Bytes

structure Exchange where
  chain : Chain
  response : Response

structure PermDriver where
  check : Option (Bytes → Option Bytes → Int)

def csilkPermCheck (defaultDriver : Option PermDriver) (permission : Bytes)
    (resource : Option Bytes) : Int :=
  match defaultDriver.bind PermDriver.check with
  | none => -1
  | some check => check permission resource

def csilkPermRequire (defaultDriver : Option PermDriver) (x : Exchange) (permission : Bytes)
    (resource : Option Bytes) : Exchange :=
  if csilkPermCheck defaultDriver permission resource ≠ 0 then
    ⟨csilkAbort x.chain, 403, ascii "\x7b\"error\":\"Forbidden\"\x7d"⟩
  else x

def csilkPermAutoMiddleware (defaultDriver : Option PermDriver) (x : Exchange) : Exchange :=
  match x.chain.req.currentHandler.bind MethodHandler.permRequired with
  | none => x
  | some perm =>
    csilkPermRequire defaultDriver x perm
      (x.chain.req.currentHandler.bind MethodHandler.permResource)

structure Middleware where
  before : Response → Response
  after : Response → Response

/-- `csilk_next` with what it calls; `auto` is `csilk_perm_auto_middleware`. -/
def callNext (driver : Option PermDriver) (auto : Handler) (env : Handler → Middleware) :
    Nat → Exchange → Exchange
  | 0, x => x
  | fuel + 1, x =>
    match csilkNext x.chain with
    | (c, none) => ⟨c, x.response⟩
    | (c, some i) =>
      let fn := handlerAt (c.req.handlers.getD []) i
      if fn = auto then csilkPermAutoMiddleware driver ⟨c, x.response⟩
      else
        let x := callNext driver auto env fuel ⟨c, (env fn).before x.response⟩
        ⟨x.chain, (env fn).after x.response⟩

def dispatch (driver : Option PermDriver) (auto : Handler) (env : Handler → Middleware)
    (req : RequestCtx) (response : Response) : Exchange :=
  callNext driver auto env (req.handlerCount + 1) ⟨install req, response⟩

/-- The route has no permission metadata, or the driver's check returns 0. -/
def Allowed (driver : Option PermDriver) (req : RequestCtx) : Prop :=
  ∀ perm, req.currentHandler.bind MethodHandler.permRequired = some perm →
    csilkPermCheck driver perm (req.currentHandler.bind MethodHandler.permResource) = 0

/-- The last handler runs if allowed to; else the answer is 403 and nothing behind runs. -/
def Gated (driver : Option PermDriver) (req : RequestCtx) (before : Nat) (x : Exchange) : Prop :=
  (.start (req.handlerCount - 1 : Int) ∈ x.chain.log ↔ Allowed driver req) ∧
    (¬Allowed driver req → x.response.status = 403 ∧
      ∀ i : Int, .start i ∈ x.chain.log → i ≤ before)

theorem csilkPermAutoMiddleware_chain (driver : Option PermDriver) (x : Exchange) :
    (csilkPermAutoMiddleware driver x).chain = x.chain ∨
      (csilkPermAutoMiddleware driver x).chain = csilkAbort x.chain := by
  unfold csilkPermAutoMiddleware csilkPermRequire
  split
  · exact .inl rfl
  · split
    · exact .inr rfl
    · exact .inl rfl

theorem csilkPermAutoMiddleware_status (h : ¬Allowed driver x.chain.req) :
    (csilkPermAutoMiddleware driver x).response.status = 403 := by
  unfold csilkPermAutoMiddleware csilkPermRequire
  split
  · rename_i hnone
    refine absurd ?_ h
    intro perm hperm
    rw [hnone] at hperm
    cases hperm
  · rename_i perm hperm
    rw [if_pos]
    intro hzero
    refine h ?_
    intro perm' hperm'
    rw [hperm] at hperm'
    cases hperm'
    exact hzero

def Chain.begin (c : Chain) (n : Int) : Chain :=
  { c with req.handlerIndex := n, log := c.log ++ [.read n] ++ [.start n] }

theorem handlerAt_get {array : List Handler} {n : Nat} (h : array[n]? = some fn) :
    handlerAt array n = fn := by
  obtain ⟨hn, -⟩ := List.getElem?_eq_some_iff.1 h
  have happ : (array ++ [0])[n]? = some fn := (getElem?_append_left hn).trans h
  exact congrArg (·.getD 0) happ

theorem csilkNext_begin {c : Chain} {n : Nat} (hrun : (c.aborted || c.panicked) = false)
    (hh : c.req.handlers = some array) (hcount : c.req.handlerCount = array.length)
    (hidx : c.req.handlerIndex + 1 = n) (hn : n < 2 ^ 31) (hget : array[n]? = some fn)
    (hfn : fn ≠ 0) : csilkNext c = (c.begin n, some (n : Int)) := by
  obtain ⟨hlt, -⟩ := List.getElem?_eq_some_iff.1 hget
  have hint : cInt (c.req.handlerIndex + 1) = n := by
    rw [hidx]
    apply Int.bmod_eq_of_le <;> omega
  have hin : ¬(0 < c.req.handlerCount ∧ c.req.handlerCount ≤ ((n : Int) % 2 ^ 64).toNat) := by
    omega
  rw [csilkNext, hrun, if_neg Bool.false_ne_true]
  split
  · rename_i hnone
    rw [hnone] at hh
    cases hh
  · rename_i array' hsome
    cases Option.some.inj (hsome.symm.trans hh)
    simp only [hint]
    rw [if_neg hin, if_neg (by rwa [handlerAt_get hget])]
    rfl

structure Stopped (driver : Option PermDriver) (c : Chain) (k : Nat) (x : Exchange) : Prop where
  starts : ∀ i : Int, .start i ∈ x.chain.log → .start i ∈ c.log ∨ i ≤ k
  denied : ¬Allowed driver c.req → x.response.status = 403

/-- The handlers from `n` on up to the middleware at `k` run, and none behind it. -/
theorem callNext_stopped {c : Chain} {n : Nat} (hrun : (c.aborted || c.panicked) = false)
    (hh : c.req.handlers = some array) (hcount : c.req.handlerCount = array.length)
    (hidx : c.req.handlerIndex + 1 = n) (hauto : array[k]? = some auto) (hk : k < 32)
    (hfns : ∀ i ≤ k, array[i]? ≠ some 0) (hother : ∀ i < k, array[i]? ≠ some auto)
    (hafter : ∀ fn r, ((env fn).after r).status = r.status) (hn : n ≤ k) (hfuel : k < n + fuel) :
    Stopped driver c k (callNext driver auto env fuel ⟨c, r⟩) := by
  induction fuel generalizing c n r with
  | zero => omega
  | succ fuel ih =>
    obtain ⟨hlen, -⟩ := List.getElem?_eq_some_iff.1 hauto
    have hget : array[n]? = some array[n] := getElem?_eq_getElem (lt_of_le_of_lt hn hlen)
    have hfn : array[n] ≠ 0 := fun hzero => hfns n hn (hzero ▸ hget)
    have hbegin : ∀ i : Int, .start i ∈ (c.begin n).log → .start i ∈ c.log ∨ i = n := by
      intro i hi
      simpa [Chain.begin] using hi
    rw [callNext, csilkNext_begin hrun hh hcount hidx (by omega) hget hfn]
    have hat : handlerAt ((c.begin n).req.handlers.getD []) n = array[n] := by
      rw [show (c.begin n).req.handlers = some array from hh]
      exact handlerAt_get hget
    simp only [hat]
    by_cases hlast : n = k
    · subst hlast
      rw [hauto] at hget
      rw [if_pos (Option.some.inj hget).symm]
      refine ⟨?_, fun hd => csilkPermAutoMiddleware_status (x := ⟨c.begin n, r⟩) hd⟩
      intro i hi
      have hmem : .start i ∈ (c.begin n).log := by
        obtain hc | hc := csilkPermAutoMiddleware_chain driver ⟨c.begin n, r⟩
        · rwa [hc] at hi
        · rw [hc] at hi
          simpa [csilkAbort] using hi
      exact (hbegin i hmem).imp_right fun h => h.le
    · have hne : array[n] ≠ auto := fun heq => hother n (by omega) (heq ▸ hget)
      rw [if_neg hne]
      have hrest := ih (c := c.begin n) (n := n + 1) (r := (env array[n]).before r) hrun hh hcount
        (by simp [Chain.begin]) (by omega) (by omega)
      refine ⟨?_, fun hd => (hafter _ _).trans (hrest.denied hd)⟩
      intro i hi
      obtain hi | hi := hrest.starts i hi
      · exact (hbegin i hi).imp_right fun h => by omega
      · exact .inr hi

/-- The middleware never calls `csilk_next`, so only a refusal is right. -/
theorem csilkPermAutoMiddleware_gated (hmatch : csilkRouterMatchCtx vector r q = (1, req))
    (hh : req.handlers = some (front ++ auto :: back)) (hlen : front.length < 32)
    (hfront : ∀ fn ∈ front, fn ≠ 0 ∧ fn ≠ auto) (hauto : auto ≠ 0) (hback : back ≠ [])
    (hafter : ∀ fn r, ((env fn).after r).status = r.status) :
    Gated driver req front.length (dispatch driver auto env req response) ↔
      ¬Allowed driver req := by
  obtain ⟨array, hh', hcount, hidx⟩ := csilkRouterMatchCtx_installs hmatch
  cases Option.some.inj (hh.symm.trans hh')
  have hget : ∀ i < front.length, (front ++ auto :: back)[i]? = front[i]? :=
    fun i hi => getElem?_append_left hi
  have hat : (front ++ auto :: back)[front.length]? = some auto := by simp
  have hstopped : Stopped driver (install req) front.length
      (dispatch driver auto env req response) := by
    apply callNext_stopped (n := 0) rfl hh hcount (by simp [install, hidx]) hat hlen _ _ hafter
      (Nat.zero_le _)
    · rw [hcount, length_append]
      omega
    · intro i hi hzero
      obtain hi | rfl := Nat.lt_or_eq_of_le hi
      · rw [hget i hi] at hzero
        exact (hfront 0 (mem_of_getElem? hzero)).1 rfl
      · rw [hat] at hzero
        exact hauto (Option.some.inj hzero)
    · intro i hi hsame
      rw [hget i hi] at hsame
      exact (hfront auto (mem_of_getElem? hsame)).2 rfl
  have hstarts : ∀ i : Int, .start i ∈ (dispatch driver auto env req response).chain.log →
      i ≤ front.length := by
    intro i hi
    exact (hstopped.starts i hi).resolve_left not_mem_nil
  have hlast : .start (req.handlerCount - 1 : Int) ∉
      (dispatch driver auto env req response).chain.log := by
    intro hmem
    have hle := hstarts _ hmem
    have hpos := length_pos_iff.2 hback
    rw [hcount, length_append, length_cons] at hle
    omega
  rw [Gated, iff_false_left hlast]
  exact ⟨And.left, fun hd => ⟨hd, fun hd => ⟨hstopped.denied hd, hstarts⟩⟩⟩

def guardedRoute (perm : Option Bytes) : RouteArgs :=
  { oneRoute with handlers := some [3], permRequired := perm }

def guardedRequest (perm : Option Bytes) : RequestCtx :=
  { oneMatched with
    handlers := some [2, 1, 3]
    handlerCount := 3
    currentHandler := some { (guardedRoute perm).entry with handlers := [2, 1, 3] } }

theorem compile_new (globals : List Handler) : csilkRouterCompile csilkRouterNew globals =
    { csilkRouterNew with globalMiddlewares := globals.take 32 } := by
  rw [csilkRouterCompile, csilkRouterNew, nodeNew, nodeCompileHandlers]
  rfl

theorem guardedRequest_matched : ∀ perm ∈ [none, some (ascii "read")],
    csilkRouterMatchCtx [] (compiledRouter [.compile [2, 1], .add (guardedRoute perm)]) oneRequest =
      (1, guardedRequest perm) := by
  simp only [compiledRouter, foldl_cons, RouterCall.run, compile_new]
  decide +kernel

def guardedRun (driver : Option PermDriver) (perm : Option Bytes) : Exchange :=
  dispatch driver 1 (fun _ => ⟨id, id⟩) (guardedRequest perm) ⟨200, []⟩

theorem csilkPermAutoMiddleware_refuses :
    Gated none (guardedRequest (some (ascii "read"))) 1 (guardedRun none (some (ascii "read"))) := by
  have hmatch := guardedRequest_matched (some (ascii "read")) (by simp)
  have hh : (guardedRequest (some (ascii "read"))).handlers = some ([2] ++ 1 :: [3]) := rfl
  refine (csilkPermAutoMiddleware_gated hmatch hh (by decide) (by decide) (by decide) (by decide)
    fun _ _ => rfl).2 ?_
  intro hallowed
  cases hallowed (ascii "read") rfl

/-- Without permission metadata the request ends in the middleware, unanswered. -/
theorem csilkPermAutoMiddleware_blocks : ¬Gated none (guardedRequest none) 1 (guardedRun none none) := by
  intro h
  have hlog : (guardedRun none none).chain.log = [.read 0, .start 0, .read 1, .start 1] := rfl
  have hran := h.1.2 fun perm hperm => by cases hperm
  rw [hlog] at hran
  simp [guardedRequest] at hran

end Csilk.Dispatch
