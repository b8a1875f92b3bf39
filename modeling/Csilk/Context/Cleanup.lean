import Csilk.Context.Api

namespace Csilk.Context
open Csilk.Headers Option

def HeaderMap.Marked (m : HeaderMap) : Prop := m.used = false → m = .empty

def KvMap.Marked (m : KvMap) : Prop := m.used = false → m = .empty

theorem HeaderMap.Marked.clearUsed (h : HeaderMap.Marked m) : HeaderMap.clearUsed m = .empty := by
  rw [HeaderMap.clearUsed]
  split
  · rfl
  · exact h (eq_false_of_ne_true ‹_›)

theorem KvMap.Marked.clearUsed (h : KvMap.Marked m) : m.clearUsed = .empty := by
  rw [KvMap.clearUsed]
  split
  · rfl
  · exact h (eq_false_of_ne_true ‹_›)

theorem HeaderMap.Marked.of_used (h : m.used = true) : HeaderMap.Marked m :=
  fun hm => absurd (h.symm.trans hm) (by simp)

theorem HeaderMap.marked_empty : HeaderMap.Marked .empty := fun _ => rfl

theorem KvMap.marked_empty : KvMap.Marked .empty := fun _ => rfl

section

variable (m : HeaderMap) (key v : Bytes)
include m key v

theorem prependEntry_used : (m.prependEntry key v).1.used = m.used := by
  rw [HeaderMap.prependEntry, setKnown_eq]

theorem writeEntry_used : (m.writeEntry key v).1.used = m.used := by
  unfold HeaderMap.writeEntry
  dsimp only
  split
  · rfl
  · split
    · rw [setKnown_eq]
      rfl
    · exact prependEntry_used _ _ _

theorem marked_mapSetView : HeaderMap.Marked (mapSetView m key v).1 :=
  .of_used (writeEntry_used _ _ _)

theorem marked_mapSet : HeaderMap.Marked (mapSet m key v).1 := by
  unfold mapSet
  dsimp only
  split
  · exact .of_used rfl
  · exact .of_used (writeEntry_used _ _ _)

theorem marked_mapAdd : HeaderMap.Marked (mapAdd m key v).1 := by
  unfold mapAdd
  dsimp only
  split
  · exact .of_used rfl
  · exact .of_used (prependEntry_used _ _ _)

end

theorem marked_mapKvAdd (m : KvMap) (key v : Bytes) : KvMap.Marked (mapKvAdd m key v) := by
  have hused : (mapKvAdd m key v).used = true := by
    unfold mapKvAdd
    dsimp only
    split <;> rfl
  exact fun h => absurd (hused.symm.trans h) (by simp)

structure Marked (c : Ctx) : Prop where
  requestHeaders : HeaderMap.Marked c.request.headers
  queryParams : KvMap.Marked c.request.queryParams
  formParams : KvMap.Marked c.request.formParams
  responseHeaders : HeaderMap.Marked c.response.headers

theorem marked_csilkCtxInit : Marked csilkCtxInit :=
  ⟨HeaderMap.marked_empty, KvMap.marked_empty, KvMap.marked_empty, HeaderMap.marked_empty⟩

def KeepsMarked (f : Ctx → Option Ctx) : Prop := ∀ c c', Marked c → f c = some c' → Marked c'

theorem KeepsMarked.foldlM {f : Ctx → α → Option Ctx} (h : ∀ a, KeepsMarked (f · a))
    (as : List α) : KeepsMarked (as.foldlM f) := by
  induction as with
  | nil =>
    intro c c' hc he
    cases he
    exact hc
  | cons a as ih =>
    intro c c' hc he
    dsimp only at he
    rw [List.foldlM_cons] at he
    obtain ⟨k, hk, he⟩ := bind_eq_some_iff.1 he
    exact ih k c' (h a c k hc hk) he

theorem Marked.csilkSetHeader (h : Marked c) : Marked (csilkSetHeader c key value) :=
  { h with responseHeaders := marked_mapSet _ _ _ }

theorem Marked.setHeaders (h : Marked c) (hs : List (Bytes × Bytes)) :
    Marked (hs.foldl (fun c h => Context.csilkSetHeader c h.1 h.2) c) := by
  induction hs generalizing c with
  | nil => exact h
  | cons _ hs ih => exact ih h.csilkSetHeader

theorem Marked.csilkSseInit (h : Marked c) : Marked (csilkSseInit c) := by
  have k := h.setHeaders sseHeaders
  exact ⟨k.requestHeaders, k.queryParams, k.formParams, k.responseHeaders⟩

section Callbacks
variable {run : Fn → Ctx → Option Ctx} (hrun : ∀ fn, KeepsMarked (run fn))
include hrun

theorem csilkCtxDeferFree_keepsMarked : KeepsMarked (csilkCtxDeferFree run) := by
  intro c c' hc he
  obtain ⟨k, hk, he⟩ := bind_eq_some_iff.1 he
  cases he
  have hm := KeepsMarked.foldlM hrun _ c k hc hk
  exact { hm with }

theorem csilkSetEx_keepsMarked (key : Bytes) (value : Option Nat) (freeFn : Option Fn) :
    KeepsMarked (csilkSetEx run · key value freeFn) := by
  have hset {c : Ctx} (h : Marked c) : Marked (c.setItem key value freeFn) :=
    { h with }
  intro c c' hc he
  dsimp only [csilkSetEx] at he
  split at he
  · split at he
    · obtain ⟨k, hk, he⟩ := bind_eq_some_iff.1 he
      cases he
      exact hset (hrun _ c k hc hk)
    · cases he
      exact hset hc
  · cases he
    exact hset hc
  · split at he
    · cases he
      exact hc
    · cases he
      exact { hc with }

theorem perform_keepsMarked (call : Call) : KeepsMarked (perform run call) := by
  intro c c' hc he
  obtain ⟨hr, hq, hf, hs⟩ := hc
  cases call with
  | storeHeader field value =>
    cases he
    exact ⟨marked_mapSetView _ _ _, hq, hf, hs⟩
  | addQuery key value =>
    cases he
    exact ⟨hr, marked_mapKvAdd _ _ _, hf, hs⟩
  | addForm key value =>
    cases he
    exact ⟨hr, hq, marked_mapKvAdd _ _ _, hs⟩
  | csilkSetRequestHeader key value =>
    cases he
    exact ⟨marked_mapSet _ _ _, hq, hf, hs⟩
  | csilkSetHeader key value =>
    cases he
    exact Marked.csilkSetHeader ⟨hr, hq, hf, hs⟩
  | csilkAddHeader key value =>
    cases he
    exact ⟨hr, hq, hf, marked_mapAdd _ _ _⟩
  | csilkSseInit =>
    cases he
    exact Marked.csilkSseInit ⟨hr, hq, hf, hs⟩
  | csilkNext =>
    cases he
    unfold csilkNext
    split <;> exact ⟨hr, hq, hf, hs⟩
  | csilkPanic =>
    exact csilkCtxDeferFree_keepsMarked hrun { c with panicked := true, aborted := true } c'
      ⟨hr, hq, hf, hs⟩ he
  | csilkCtxDeferFree => exact csilkCtxDeferFree_keepsMarked hrun _ _ ⟨hr, hq, hf, hs⟩ he
  | csilkSetEx key value freeFn =>
    exact csilkSetEx_keepsMarked hrun key value freeFn _ _ ⟨hr, hq, hf, hs⟩ he
  | _ =>
    cases he
    exact ⟨hr, hq, hf, hs⟩

theorem releaseCallbacks_keepsMarked : KeepsMarked (releaseCallbacks run) := by
  intro c c' hc he
  obtain ⟨k, hk, he⟩ := bind_eq_some_iff.1 he
  obtain ⟨j, hj, he⟩ := bind_eq_some_iff.1 he
  cases he
  have hk := csilkCtxDeferFree_keepsMarked hrun c k hc hk
  have hm : Marked j := by
    refine KeepsMarked.foldlM ?_ _ k j hk hj
    intro key c c' hc he
    dsimp only at he
    split at he
    · obtain ⟨i, hi, he⟩ := bind_eq_some_iff.1 he
      cases he
      have hm := hrun _ c i hc hi
      exact { hm with }
    · cases he
      exact hc
  exact { hm with }

end Callbacks

theorem fire_keepsMarked (app : Fn → List Call) (depth : Nat) (fn : Fn) :
    KeepsMarked (fire app depth fn) := by
  induction depth generalizing fn with
  | zero =>
    intro c c' _ he
    cases he
  | succ depth ih =>
    intro c c' hc he
    exact KeepsMarked.foldlM (f := fun c call => perform (fire app depth) call c)
      (fun call => perform_keepsMarked ih call) (app fn) c c' hc he

theorem marked_resetFields (h : Marked c) : Marked (resetFields c) where
  requestHeaders _ := h.requestHeaders.clearUsed
  queryParams _ := h.queryParams.clearUsed
  formParams _ := h.formParams.clearUsed
  responseHeaders _ := h.responseHeaders.clearUsed

theorem csilkHandlePostResponse_keepsMarked {run : Fn → Ctx → Option Ctx}
    (hrun : ∀ fn, KeepsMarked (run fn)) : KeepsMarked (csilkHandlePostResponse run) := by
  intro c c' hc he
  obtain ⟨k, hk, he⟩ := bind_eq_some_iff.1 he
  obtain ⟨j, hj, hk⟩ := bind_eq_some_iff.1 hk
  cases hk
  cases he
  obtain ⟨hr, hq, hf, hs⟩ := marked_resetFields (releaseCallbacks_keepsMarked hrun c j hc hj)
  split <;> split <;> exact ⟨hr, hq, hf, hs⟩

theorem marked_of_reachable (h : (context app depth).Reachable ok c) : Marked c := by
  have hrun := fire_keepsMarked app depth
  apply h.invariant
  · rintro c rfl
    exact marked_csilkCtxInit
  · intro c e c' hc _ hs
    cases e with
    | call call => exact perform_keepsMarked hrun call c c' hc hs
    | postResponse => exact csilkHandlePostResponse_keepsMarked hrun c c' hc hs
    | recycle =>
      cases hs
      exact { hc with }

/-- All of a context but its sequence number and the list of deferred callbacks. -/
def Ctx.restricted (c : Ctx) : Ctx := { c with requestSeq := 0, deferHead := [] }

structure Residue where
  method : Option Bytes
  onWsSend : Option Fn
  fileFd : Int
  requestId : Bytes
  deriving DecidableEq

/-- The method, the send callback, a negative descriptor, and an empty request id stay. -/
def Ctx.residue (c : Ctx) : Residue where
  method := c.request.method
  onWsSend := c.onWsSend
  fileFd := if c.fileFd ≥ 0 then -1 else c.fileFd
  requestId := if c.requestId.headD 0 ≠ 0 then List.replicate csilkUuidBufSize 0 else c.requestId

def Residue.toCtx (r : Residue) : Ctx :=
  { csilkCtxInit with
    request := { csilkCtxInit.request with method := r.method }
    onWsSend := r.onWsSend
    fileFd := r.fileFd
    requestId := r.requestId }

theorem releaseCallbacks_storageHead (h : releaseCallbacks run c = some k) :
    k.storageHead = [] := by
  obtain ⟨_, _, h⟩ := bind_eq_some_iff.1 h
  obtain ⟨_, _, h⟩ := bind_eq_some_iff.1 h
  cases h
  rfl

theorem restricted_resetFields (h : Marked c) (hs : c.storageHead = []) :
    (resetFields c).restricted = c.residue.toCtx.restricted := by
  simp only [resetFields, h.requestHeaders.clearUsed, h.queryParams.clearUsed,
    h.formParams.clearUsed, h.responseHeaders.clearUsed, hs]
  rfl

theorem Residue.toCtx_restricted_inj (r r' : Residue) :
    r.toCtx.restricted = r'.toCtx.restricted ↔ r = r' := by
  refine ⟨fun h => ?_, fun h => h ▸ rfl⟩
  have hm := congrArg (fun c : Ctx => c.request.method) h
  have hw := congrArg Ctx.onWsSend h
  have hf := congrArg Ctx.fileFd h
  have hi := congrArg Ctx.requestId h
  cases r
  cases r'
  cases hm
  cases hw
  cases hf
  cases hi
  rfl

theorem csilkCtxCleanup_restricted (h : (context app depth).Reachable ok c)
    (hk : releaseCallbacks (fire app depth) c = some k) :
    ∃ e, csilkCtxCleanup (fire app depth) c = some e ∧
      e.restricted = k.residue.toCtx.restricted := by
  have hrun := fire_keepsMarked app depth
  have hm := releaseCallbacks_keepsMarked hrun c k (marked_of_reachable h) hk
  refine ⟨resetFields k, ?_, restricted_resetFields hm (releaseCallbacks_storageHead hk)⟩
  rw [csilkCtxCleanup, hk]
  rfl

/-- Two histories are the same after cleanup exactly if their residues are. -/
theorem csilkCtxCleanup_forgets (h₁ : (context app₁ depth₁).Reachable (fun _ _ => True) c₁)
    (h₂ : (context app₂ depth₂).Reachable (fun _ _ => True) c₂)
    (hk₁ : releaseCallbacks (fire app₁ depth₁) c₁ = some k₁)
    (hk₂ : releaseCallbacks (fire app₂ depth₂) c₂ = some k₂) :
    ∃ e₁ e₂, csilkCtxCleanup (fire app₁ depth₁) c₁ = some e₁ ∧
      csilkCtxCleanup (fire app₂ depth₂) c₂ = some e₂ ∧
      (e₁.restricted = e₂.restricted ↔ k₁.residue = k₂.residue) := by
  obtain ⟨e₁, he₁, hr₁⟩ := csilkCtxCleanup_restricted h₁ hk₁
  obtain ⟨e₂, he₂, hr₂⟩ := csilkCtxCleanup_restricted h₂ hk₂
  refine ⟨e₁, e₂, he₁, he₂, ?_⟩
  rw [hr₁, hr₂]
  exact Residue.toCtx_restricted_inj _ _

def sampleApp : Fn → List Call := fun _ => [.csilkAbort]

def busyRequest : List Event :=
  [.call (.finalize (some (ascii "GET")) (some (ascii "/a"))), .call (.storeHeader [65] [66]),
    .call (.addQuery [67] [68]), .call (.matched [([69], [70])] [1, 2] (some (3, 2))),
    .call .csilkNext, .call (.csilkSetEx [71] (some 4) (some 5)), .call (.csilkCtxDefer 6),
    .call (.csilkSetHeader [72] [73]), .call (.csilkSetFileResponse 9 0 100),
    .call (.csilkCtxSetWebsocket 1), .call (.csilkSetOnWsMessage (some 8)),
    .call (.csilkSetRequestId [74, 75]), .call (.csilkString 500 (some [76])), .call .csilkPanic]

def plainRequest : List Event := [.call (.finalize (some (ascii "GET")) (some (ascii "/b")))]

def sendRequest : List Event := plainRequest ++ [.call (.csilkSetOnWsSend (some 7))]

def residueOf (history : List Event) : Option Residue :=
  ((context sampleApp 1).exec (fun _ _ => True) csilkCtxInit history).bind fun c =>
    (releaseCallbacks (fire sampleApp 1) c).map Ctx.residue

theorem exists_of_residueOf (h : residueOf history = some r) :
    ∃ c k, (context sampleApp 1).Reachable (fun _ _ => True) c ∧
      releaseCallbacks (fire sampleApp 1) c = some k ∧ k.residue = r := by
  obtain ⟨c, hc, h⟩ := bind_eq_some_iff.1 h
  obtain ⟨k, hk, h⟩ := map_eq_some_iff.1 h
  exact ⟨c, k, (Lib.System.Reachable.init rfl).exec hc, hk, h⟩

theorem csilkCtxCleanup_forgets_busy :
    ∃ c₁ c₂ e₁ e₂, (context sampleApp 1).Reachable (fun _ _ => True) c₁ ∧
      (context sampleApp 1).Reachable (fun _ _ => True) c₂ ∧
      csilkCtxCleanup (fire sampleApp 1) c₁ = some e₁ ∧
      csilkCtxCleanup (fire sampleApp 1) c₂ = some e₂ ∧ e₁.restricted = e₂.restricted := by
  have hbusy : residueOf busyRequest =
      some { csilkCtxInit.residue with method := ascii "GET" } := by decide +kernel
  have hplain : residueOf plainRequest =
      some { csilkCtxInit.residue with method := ascii "GET" } := by decide +kernel
  obtain ⟨c₁, k₁, h₁, hk₁, hr₁⟩ := exists_of_residueOf hbusy
  obtain ⟨c₂, k₂, h₂, hk₂, hr₂⟩ := exists_of_residueOf hplain
  obtain ⟨e₁, e₂, he₁, he₂, h⟩ := csilkCtxCleanup_forgets h₁ h₂ hk₁ hk₂
  exact ⟨c₁, c₂, e₁, e₂, h₁, h₂, he₁, he₂, h.2 (hr₁.trans hr₂.symm)⟩

/-- Cleanup clears `on_ws_message` but not `on_ws_send`. -/
theorem csilkCtxCleanup_leaks_onWsSend :
    ∃ c₁ c₂ e₁ e₂, (context sampleApp 1).Reachable (fun _ _ => True) c₁ ∧
      (context sampleApp 1).Reachable (fun _ _ => True) c₂ ∧
      csilkCtxCleanup (fire sampleApp 1) c₁ = some e₁ ∧
      csilkCtxCleanup (fire sampleApp 1) c₂ = some e₂ ∧
      e₁.onWsSend = some 7 ∧ e₂.onWsSend = none ∧ e₁.restricted ≠ e₂.restricted := by
  have hsend : (residueOf sendRequest).map Residue.onWsSend = some (some 7) := by decide +kernel
  have hplain : (residueOf plainRequest).map Residue.onWsSend = some none := by decide +kernel
  obtain ⟨r₁, hr₁, hw₁⟩ := map_eq_some_iff.1 hsend
  obtain ⟨r₂, hr₂, hw₂⟩ := map_eq_some_iff.1 hplain
  obtain ⟨c₁, k₁, h₁, hk₁, rfl⟩ := exists_of_residueOf hr₁
  obtain ⟨c₂, k₂, h₂, hk₂, rfl⟩ := exists_of_residueOf hr₂
  obtain ⟨e₁, he₁, hs₁⟩ := csilkCtxCleanup_restricted h₁ hk₁
  obtain ⟨e₂, he₂, hs₂⟩ := csilkCtxCleanup_restricted h₂ hk₂
  have hw₁ : e₁.onWsSend = some 7 := (congrArg Ctx.onWsSend hs₁).trans hw₁
  have hw₂ : e₂.onWsSend = none := (congrArg Ctx.onWsSend hs₂).trans hw₂
  refine ⟨c₁, c₂, e₁, e₂, h₁, h₂, he₁, he₂, hw₁, hw₂, fun h => ?_⟩
  have hw : e₁.restricted.onWsSend = e₂.restricted.onWsSend := congrArg Ctx.onWsSend h
  change e₁.onWsSend = e₂.onWsSend at hw
  rw [hw₁, hw₂] at hw
  cases hw

end Csilk.Context
