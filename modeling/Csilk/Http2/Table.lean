import Csilk.Http2.StreamMap
import Csilk.Lib.Intrusive
import Mathlib.Data.List.Perm.Subperm
import Mathlib.Data.Sum.Basic

namespace Csilk.Http2
open Csilk.Lib List Function

/-- `hand` is that of a call which has taken it from one place for another. -/
inductive Place where
  | unborn
  | hand
  | bucket (i : Nat)
  | pool
  | detached
  | freed
deriving DecidableEq

def Place.list : Place → Option (Option Nat)
  | .bucket i => some (some i)
  | .pool => some none
  | _ => none

def Place.Ok (hash : Nat) (unborn freed : Prop) (held refs : Nat) : Place → Prop
  | .unborn => unborn ∧ ¬freed ∧ held = 0
  | .hand => ¬unborn ∧ ¬freed
  | .bucket i => ¬unborn ∧ ¬freed ∧ refs = held + 1 ∧ hash = i
  | .pool => ¬unborn ∧ ¬freed ∧ held = 0 ∧ refs = 0
  | .detached => ¬unborn ∧ ¬freed ∧ refs = held ∧ 0 < held
  | .freed => ¬unborn ∧ freed ∧ held = 0 ∧ refs = 0

def State.CtxOk (s : State) (c : Nat) : Place → Prop :=
  Place.Ok (streamHash (s.ctx c).streamId s.map.mask) (s.allocated ≤ c) (c ∈ s.freed) (s.held c)
    (s.ctx c).streamRef

def Place.dropped : Place → Bool
  | .pool | .detached | .freed => true
  | _ => false

theorem Place.Ok.recount {p : Place} {u f : Prop} (h : p.Ok idx u f held refs)
    (hlive : 0 < held ∨ 0 < refs ∧ ¬u) (hk : n + held = k + refs) (hn : 0 < n) : p.Ok idx u f k n := by
  cases p with
  | unborn =>
    obtain ⟨hu, -, hheld⟩ := h
    exact absurd hu (hlive.resolve_left (by omega)).2
  | hand => exact h
  | bucket i =>
    obtain ⟨hu, hf, href, hi⟩ := h
    exact ⟨hu, hf, by omega, hi⟩
  | pool | freed =>
    obtain ⟨-, -, hheld, href⟩ := h
    omega
  | detached =>
    obtain ⟨hu, hf, href, -⟩ := h
    exact ⟨hu, hf, by omega, by omega⟩

def nextOf (ctx : Nat → Ctx) (c : Nat) : Option Nat := (ctx c).nextStream

theorem nextOf_update (ctx : Nat → Ctx) (c : Nat) (x : Ctx) :
    nextOf (update ctx c x) = update (nextOf ctx) c x.nextStream :=
  comp_update Ctx.nextStream ctx c x

def firstOf (buckets : Nat → Option Nat) (freeList : Option Nat) : Option Nat → Option Nat
  | some i => buckets i
  | none => freeList

theorem firstOf_bucket (buckets : Nat → Option Nat) (freeList x : Option Nat) (i : Nat) :
    update (firstOf buckets freeList) (some i) x = firstOf (update buckets i x) freeList := by
  funext j
  cases j with
  | none => rfl
  | some j => by_cases hj : j = i <;> simp [firstOf, hj]

theorem firstOf_pool (buckets : Nat → Option Nat) (freeList x : Option Nat) :
    update (firstOf buckets freeList) none x = firstOf buckets x := by
  funext j
  cases j <;> simp [firstOf]

theorem Place.list_pool {p : Place} (h : p.list = some none) : p = .pool := by
  cases p with
  | pool => rfl
  | _ => cases h

theorem Place.list_bucket {p : Place} (h : p.list = some (some i)) : p = .bucket i := by
  cases p with
  | bucket j => cases h; rfl
  | _ => cases h

structure Table (s : State) (buckets : Nat → Option Nat) (chain : Option Nat → List Nat)
    (place : Nat → Place) : Prop where
  lists : Lists (nextOf s.ctx) (firstOf buckets s.map.freeList) chain fun c => (place c).list
  poolCount : (chain none).length = s.map.poolCount
  poolMax : s.map.poolCount ≤ s.map.poolMax
  ctxs : ∀ c, s.CtxOk c (place c)

theorem init_table : Table init init.map.buckets (fun _ => []) (fun _ => .unborn) where
  lists := ⟨fun i => by cases i <;> rfl, fun i c => by simp [Place.list]⟩
  poolCount := rfl
  poolMax := Nat.le_refl _
  ctxs c := by simp [State.CtxOk, Place.Ok, init]

section Table

variable {s : State} {buckets : Nat → Option Nat} {chain : Option Nat → List Nat} {place : Nat → Place}
variable (h : Table s buckets chain place)
include h

theorem Table.allocated_of_bucket (hp : place c = .bucket i) : c < s.allocated := by
  have hok := h.ctxs c
  rw [hp] at hok
  exact Nat.lt_of_not_le hok.1

theorem Table.mem_bucket : c ∈ chain (some i) ↔ place c = .bucket i := by
  rw [h.lists.member]
  exact ⟨Place.list_bucket, fun hp => by rw [hp]; rfl⟩

theorem Table.mem_pool : c ∈ chain none ↔ place c = .pool := by
  rw [h.lists.member]
  exact ⟨Place.list_pool, fun hp => by rw [hp]; rfl⟩

theorem Table.chain_length (i : Option Nat) : (chain i).length ≤ s.allocated := by
  have hsub : chain i ⊆ List.range s.allocated := by
    intro c hc
    have hok := h.ctxs c
    cases i with
    | none =>
      rw [h.mem_pool.1 hc] at hok
      exact mem_range.2 (Nat.lt_of_not_le hok.1)
    | some i => exact mem_range.2 (h.allocated_of_bucket (h.mem_bucket.1 hc))
  have hle := (subperm_of_subset (h.lists.threaded i).nodup hsub).length_le
  rwa [length_range] at hle

theorem Table.move {s' : State}
    (hlists : Lists (nextOf s'.ctx) (firstOf buckets' s'.map.freeList) chain'
      (update (fun b => (place b).list) c q.list))
    (hcount : (chain' none).length = s'.map.poolCount ∧ s'.map.poolCount ≤ s'.map.poolMax)
    (hself : s'.CtxOk c q) (hother : ∀ b ≠ c, ∀ p, s.CtxOk b p → s'.CtxOk b p) :
    Table s' buckets' chain' (update place c q) := by
  refine ⟨?_, hcount.1, hcount.2, ?_⟩
  · have hplace : (fun b => (update place c q b).list) = update (fun b => (place b).list) c q.list :=
      comp_update Place.list place c q
    rw [hplace]
    exact hlists
  · exact (forall_update_iff place fun b p => s'.CtxOk b p).2 ⟨hself, fun b hb => hother b hb _ (h.ctxs b)⟩

theorem Table.put {f : List Nat} (hq : q.list = (place c).list)
    (hx : (place c).list = none ∨ x.nextStream = (s.ctx c).nextStream)
    (hself : State.CtxOk { s with ctx := update s.ctx c x, held := update s.held c k, freed := f, allocated := a } c q)
    (hf : ∀ b ≠ c, b ∈ f ↔ b ∈ s.freed) (ha : ∀ b ≠ c, a ≤ b ↔ s.allocated ≤ b) :
    Table { s with ctx := update s.ctx c x, held := update s.held c k, freed := f, allocated := a }
      buckets chain (update place c q) := by
  have hplace : update (fun b => (place b).list) c q.list = fun b => (place b).list := by
    rw [hq]
    exact update_eq_self c fun b => (place b).list
  refine h.move ?_ ⟨h.poolCount, h.poolMax⟩ hself fun b hb p hp => ?_
  · rw [hplace, nextOf_update]
    rcases hx with hnone | hx
    · exact h.lists.write hnone
    · rw [hx]
      exact (update_eq_self c (nextOf s.ctx)).symm ▸ h.lists
  · simpa [State.CtxOk, hb, hf b hb, ha b hb] using hp

theorem Table.write (hq : q.list = (place c).list)
    (hx : (place c).list = none ∨ x.nextStream = (s.ctx c).nextStream)
    (hself : State.CtxOk { s with ctx := update s.ctx c x, held := update s.held c k } c q) :
    Table { s with ctx := update s.ctx c x, held := update s.held c k } buckets chain (update place c q) :=
  h.put hq hx hself (fun _ _ => Iff.rfl) fun _ _ => Iff.rfl

theorem Table.place_unborn (hc : s.allocated ≤ c) : place c = .unborn := by
  have hok := h.ctxs c
  cases hp : place c with
  | unborn => rfl
  | _ =>
    rw [hp] at hok
    exact absurd hc hok.1

theorem Table.popPool (hfree : s.map.freeList = some c) : place c = .pool ∧ ∃ l, chain none = c :: l ∧
    Table { s with map := { s.map with freeList := (s.ctx c).nextStream, poolCount := s.map.poolCount - 1 } }
      buckets (update chain none l) (update place c .hand) := by
  obtain ⟨l, hchain, hlists⟩ := h.lists.pop (i := none) hfree
  have hp := h.mem_pool.1 (hchain ▸ mem_cons_self)
  have hok := h.ctxs c
  have hcount := h.poolCount
  have hmax := h.poolMax
  rw [hp] at hok
  rw [hchain, length_cons] at hcount
  rw [firstOf_pool] at hlists
  refine ⟨hp, l, hchain, h.move hlists ?_ ⟨hok.1, hok.2.1⟩ fun _ _ _ hb => hb⟩
  simp only [update_self]
  omega

theorem Table.popBucket (hfirst : buckets i = some c) : place c = .bucket i ∧ ∃ l, chain (some i) = c :: l ∧
    Table s (update buckets i (s.ctx c).nextStream) (update chain (some i) l) (update place c .hand) := by
  obtain ⟨l, hchain, hlists⟩ := h.lists.pop (i := some i) hfirst
  have hp := h.mem_bucket.1 (hchain ▸ mem_cons_self)
  have hok := h.ctxs c
  rw [hp] at hok
  rw [firstOf_bucket] at hlists
  refine ⟨hp, l, hchain, h.move hlists ?_ ⟨hok.1, hok.2.1⟩ fun _ _ _ hb => hb⟩
  exact ⟨h.poolCount, h.poolMax⟩

theorem Table.unlinkNext (hchain : chain (some i) = l₁ ++ [b] ++ c :: l₂) :
    Table { s with ctx := update s.ctx b { s.ctx b with nextStream := (s.ctx c).nextStream } } buckets
      (update chain (some i) (l₁ ++ [b] ++ l₂)) (update place c .hand) := by
  have hlists := h.lists.unlink hchain
  have hok := h.ctxs c
  rw [h.mem_bucket.1 (by rw [hchain]; simp : c ∈ chain (some i))] at hok
  refine h.move ?_ ?_ ⟨hok.1, hok.2.1⟩ fun d _ p hp => ?_
  · rw [nextOf_update]
    exact hlists
  · exact ⟨h.poolCount, h.poolMax⟩
  · by_cases hd : d = b
    · simpa [State.CtxOk, hd] using hp
    · simpa [State.CtxOk, hd] using hp

section Hand

variable (hp : place c = .hand)
include hp

theorem Table.link (hidx : streamHash (s.ctx c).streamId s.map.mask = idx)
    (href : (s.ctx c).streamRef = s.held c + 1) :
    Table { s with ctx := update s.ctx c { s.ctx c with nextStream := buckets idx } }
      (update buckets idx (some c)) (update chain (some idx) (c :: chain (some idx)))
      (update place c (.bucket idx)) := by
  have hlists := h.lists.push (a := c) (by rw [hp]; rfl) (some idx)
  have hok := h.ctxs c
  rw [hp] at hok
  refine h.move ?_ ?_ ?_ fun b hb p hp => ?_
  · rw [nextOf_update, ← firstOf_bucket]
    exact hlists
  · exact ⟨h.poolCount, h.poolMax⟩
  · simpa [State.CtxOk, Place.Ok, href, hidx] using hok
  · simpa [State.CtxOk, hb] using hp

theorem Table.recycle (hroom : s.map.poolCount < s.map.poolMax) (hheld : s.held c = 0)
    (hnext : x.nextStream = s.map.freeList) (href : x.streamRef = 0) :
    Table { s with
      ctx := update s.ctx c x
      map := { s.map with freeList := some c, poolCount := s.map.poolCount + 1 } }
      buckets (update chain none (c :: chain none)) (update place c .pool) := by
  have hlists := h.lists.push (a := c) (by rw [hp]; rfl) none
  have hok := h.ctxs c
  rw [hp] at hok
  refine h.move ?_ ?_ ?_ fun b hb p hp => ?_
  · rw [nextOf_update, hnext, ← firstOf_pool]
    exact hlists
  · rw [update_self, length_cons, h.poolCount]
    exact ⟨rfl, hroom⟩
  · simpa [State.CtxOk, Place.Ok, href, hheld] using hok
  · simpa [State.CtxOk, hb] using hp

theorem Table.destroy (href : (s.ctx c).streamRef = 0) (hheld : s.held c = 0) :
    ∃ chain' q, (q = .pool ∨ q = .freed) ∧ (∀ i, chain' (some i) = chain (some i)) ∧
      Table (streamDestroyPhysically s c) buckets chain' (update place c q) := by
  have hok := h.ctxs c
  rw [hp] at hok
  rw [streamDestroyPhysically]
  split
  · exact ⟨_, .pool, .inl rfl, fun i => update_of_ne (by simp) .., h.recycle hp ‹_› hheld rfl href⟩
  · refine ⟨chain, .freed, .inr rfl, fun _ => rfl, ?_⟩
    have hput := h.put (c := c) (q := .freed) (x := { s.ctx c with streamState := .closed }) (k := s.held c)
      (f := c :: s.freed) (a := s.allocated) (by rw [hp]; rfl) (.inr rfl)
      (by simpa [State.CtxOk, Place.Ok, href, hheld] using hok.1) (fun b hb => by simp [hb]) fun _ _ => Iff.rfl
    rwa [update_eq_self] at hput

/-- `q` is where a context can be when its last use by the table has ended. -/
theorem Table.drop (href : (s.ctx c).streamRef = s.held c + 1) :
    ∃ chain' q, q.dropped = true ∧ (∀ i, chain' (some i) = chain (some i)) ∧
      Table (csilkStreamUnref s c) buckets chain' (update place c q) := by
  have hok := h.ctxs c
  rw [hp] at hok
  rw [csilkStreamUnref, href]
  have hwrite {q : Place} (hq : q.list = none) (hself : State.CtxOk { s with
      ctx := update s.ctx c { s.ctx c with streamRef := s.held c }
      held := update s.held c (s.held c) } c q) :=
    h.write (x := { s.ctx c with streamRef := s.held c }) (by rw [hp]; exact hq) (.inr rfl) hself
  simp only [update_eq_self] at hwrite
  by_cases hheld : s.held c = 0
  · rw [if_neg (by omega)]
    obtain ⟨chain', q, hq, hchain, hd⟩ :=
      (hwrite (q := .hand) rfl ⟨hok.1, hok.2⟩).destroy (update_self ..)
        ((congrArg Ctx.streamRef (update_self ..)).trans hheld) hheld
    rw [update_idem] at hd
    refine ⟨chain', q, ?_, hchain, hd⟩
    rcases hq with rfl | rfl <;> rfl
  · rw [if_pos (by omega)]
    refine ⟨chain, .detached, rfl, fun _ => rfl, hwrite rfl ⟨hok.1, hok.2, ?_, Nat.pos_of_ne_zero hheld⟩⟩
    simp

end Hand

end Table

section Table

variable {s : State} {buckets : Nat → Option Nat} {chain : Option Nat → List Nat} {place : Nat → Place}
variable (h : Table s buckets chain place)
include h

theorem Table.recount (hlive : 0 < s.held c ∨ 0 < (s.ctx c).streamRef ∧ c < s.allocated)
    (hk : n + s.held c = k + (s.ctx c).streamRef) (hn : 0 < n) :
    Table { s with ctx := update s.ctx c { s.ctx c with streamRef := n }, held := update s.held c k }
      buckets chain place := by
  have hok : (place c).Ok _ _ _ k n :=
    (h.ctxs c).recount (hlive.imp_right fun hc => ⟨hc.1, Nat.not_le.2 hc.2⟩) hk hn
  have hwrite := h.write (q := place c) (x := { s.ctx c with streamRef := n }) (k := k) rfl (.inr rfl)
    (by simpa [State.CtxOk] using hok)
  rwa [update_eq_self] at hwrite

theorem Table.ref (hc : c < s.allocated) (href : 0 < (s.ctx c).streamRef) :
    Table { csilkStreamRef s c with held := update s.held c (s.held c + 1) } buckets chain place :=
  h.recount (.inr ⟨href, hc⟩) (by omega) (Nat.succ_pos _)

theorem Table.unref (hheld : 0 < s.held c) (hp : place c ≠ .hand) :
    ∃ chain' q, (q = place c ∨ place c = .detached ∧ q.dropped = true) ∧
      (∀ i, chain' (some i) = chain (some i)) ∧
      Table { csilkStreamUnref s c with held := update s.held c (s.held c - 1) } buckets chain'
        (update place c q) := by
  rw [csilkStreamUnref]
  by_cases hlt : 1 < (s.ctx c).streamRef
  · rw [if_pos hlt]
    refine ⟨chain, place c, .inl rfl, fun _ => rfl, ?_⟩
    rw [update_eq_self]
    exact h.recount (.inl hheld) (by omega) (by omega)
  · rw [if_neg hlt]
    have hok := h.ctxs c
    cases hpc : place c with
    | detached =>
      rw [hpc] at hok
      obtain ⟨hu, hf, href, -⟩ := hok
      have hwrite := h.write (c := c) (q := .hand) (x := { s.ctx c with streamRef := (s.ctx c).streamRef - 1 })
        (k := s.held c - 1) (by rw [hpc]; rfl) (.inr rfl) ⟨hu, hf⟩
      obtain ⟨chain', q, hq, hchain, hd⟩ :=
        hwrite.destroy (update_self ..) (by simp only [update_self]; omega) (by simp only [update_self]; omega)
      rw [update_idem] at hd
      refine ⟨chain', q, .inr ⟨rfl, ?_⟩, hchain, ?_⟩
      · rcases hq with rfl | rfl <;> rfl
      · rw [streamDestroyPhysically] at hd ⊢
        split at hd <;> rename_i hroom
        · rwa [if_pos hroom]
        · rwa [if_neg hroom]
    | hand => exact absurd hpc hp
    | bucket i =>
      rw [hpc] at hok
      obtain ⟨-, -, href, -⟩ := hok
      omega
    | unborn =>
      rw [hpc] at hok
      obtain ⟨-, -, hzero⟩ := hok
      omega
    | pool | freed =>
      rw [hpc] at hok
      obtain ⟨-, -, hzero, -⟩ := hok
      omega

theorem Table.acquire (k : Nat) :
    ∃ c allocated freeList poolCount s' chain', s' = { s with
        ctx := update s.ctx c (streamCtxInit k)
        allocated := allocated
        map := { s.map with freeList := freeList, poolCount := poolCount } } ∧
      acquireCtx s k = (s', c) ∧ s.held c = 0 ∧ (∀ i, place c ≠ .bucket i) ∧
      Table s' buckets chain' (update place c .hand) := by
  have hok := h.ctxs
  rw [acquireCtx]
  cases hfree : s.map.freeList with
  | some c =>
    obtain ⟨hp, l, -, hpop⟩ := h.popPool hfree
    have hokc := hok c
    rw [hp] at hokc
    obtain ⟨hu, hf, hheld, -⟩ := hokc
    refine ⟨c, s.allocated, _, _, _, update chain none l, rfl, rfl, hheld, by rw [hp]; simp, ?_⟩
    have hwrite := hpop.write (c := c) (q := .hand) (x := streamCtxInit k) (k := s.held c)
      (by rw [update_self]) (.inl (by rw [update_self]; rfl)) ⟨hu, hf⟩
    simp only [update_eq_self, update_idem] at hwrite
    exact hwrite
  | none =>
    have hp := h.place_unborn (Nat.le_refl s.allocated)
    have hokc := hok s.allocated
    rw [hp] at hokc
    obtain ⟨-, hf, hheld⟩ := hokc
    refine ⟨s.allocated, s.allocated + 1, _, _, _, chain, rfl, rfl, hheld, by rw [hp]; simp, ?_⟩
    have hput := h.put (c := s.allocated) (q := .hand) (x := streamCtxInit k) (k := s.held s.allocated)
      (f := s.freed) (a := s.allocated + 1) (by rw [hp]; rfl) (.inl (by rw [hp]; rfl))
      ⟨Nat.not_succ_le_self _, hf⟩ (fun _ _ => Iff.rfl) fun _ _ => by omega
    simp only [update_eq_self] at hput
    exact hput

end Table

theorem findStream_eq {id : Nat} (h : Threaded (nextOf ctx) first l) (hfuel : l.length ≤ fuel) :
    findStream ctx id fuel first = some (l.find? fun c => (ctx c).streamId = id) := by
  induction l generalizing first fuel with
  | nil =>
    rw [threaded_nil.1 h]
    cases fuel <;> rfl
  | cons c l ih =>
    rw [h.1]
    cases fuel with
    | zero => cases hfuel
    | succ fuel =>
      rw [findStream, find?_cons]
      by_cases hid : (ctx c).streamId = id
      · simp [hid]
      · simp only [hid]
        exact ih h.2 (Nat.le_of_succ_le_succ hfuel)

def Relinked (ctx ctx' : Nat → Ctx) : Prop := ∀ c, ∃ x, ctx' c = { ctx c with nextStream := x }

theorem Relinked.trans (h : Relinked ctx ctx') (h' : Relinked ctx' ctx'') : Relinked ctx ctx'' := by
  intro c
  obtain ⟨x, hx⟩ := h c
  obtain ⟨y, hy⟩ := h' c
  exact ⟨y, by rw [hy, hx]⟩

theorem Relinked.same (h : Relinked ctx ctx') (c : Nat) :
    (ctx' c).streamId = (ctx c).streamId ∧ (ctx' c).streamRef = (ctx c).streamRef := by
  obtain ⟨x, hx⟩ := h c
  rw [hx]
  exact ⟨rfl, rfl⟩

theorem relinked_update (ctx : Nat → Ctx) (c : Nat) (x : Option Nat) :
    Relinked ctx (update ctx c { ctx c with nextStream := x }) := by
  intro a
  by_cases ha : a = c
  · subst ha
    exact ⟨x, update_self ..⟩
  · exact ⟨(ctx a).nextStream, update_of_ne ha ..⟩

section Rehash

variable {old buckets : Nat → Option Nat} {chain : Nat → List Nat} {chain' : Option Nat → List Nat}
  {place : Nat → Option (Nat ⊕ Option Nat)}

/-- The old lists are on the left, the pool and the new ones on the right. -/
theorem rehashChain_eq (mask : Nat)
    (h : Lists (nextOf ctx) (Sum.elim (update old i curr) (firstOf buckets freeList))
      (Sum.elim (update chain i l) chain') place) (hfuel : l.length ≤ fuel) :
    ∃ ctx' buckets' chain'', rehashChain mask fuel ctx buckets curr = some (ctx', buckets') ∧
      Relinked ctx ctx' ∧ chain'' none = chain' none ∧
      Lists (nextOf ctx') (Sum.elim (update old i none) (firstOf buckets' freeList))
        (Sum.elim (update chain i []) chain'') fun c => if place c = some (.inl i) then
          some (.inr (some (streamHash (ctx c).streamId mask))) else place c := by
  induction l generalizing ctx buckets chain' curr fuel place with
  | nil =>
    have hl : Threaded (nextOf ctx) curr [] := by simpa using h.threaded (.inl i)
    cases threaded_nil.1 hl
    refine ⟨ctx, buckets, chain', by cases fuel <;> rfl, fun _ => ⟨_, rfl⟩, rfl, ?_⟩
    have hout : ∀ c, place c ≠ some (.inl i) := by simp [← h.member]
    simp only [hout]
    exact h
  | cons c l ih =>
    have hl : Threaded (nextOf ctx) curr (c :: l) := by simpa using h.threaded (.inl i)
    cases hl.1
    cases fuel with
    | zero => cases hfuel
    | succ fuel =>
      have hplace : place c = some (.inl i) := (h.member _ c).1 (by simp)
      obtain ⟨l', hcons, hpop⟩ := h.pop (i := .inl i) (a := c) (by simp)
      simp only [Sum.elim_inl, update_self, cons.injEq, true_and] at hcons
      subst hcons
      have hpush := hpop.push (a := c) (update_self ..) (.inr (some (streamHash (ctx c).streamId mask)))
      simp only [Sum.update_elim_inl, Sum.update_elim_inr, firstOf_bucket, update_idem, Sum.elim_inr,
        firstOf] at hpush
      rw [← nextOf_update ctx c { ctx c with nextStream := buckets (streamHash (ctx c).streamId mask) }] at hpush
      obtain ⟨ctx', buckets', chain'', heq, hrel, hnone, hlists⟩ := ih hpush (Nat.le_of_succ_le_succ hfuel)
      have hone := relinked_update ctx c (buckets (streamHash (ctx c).streamId mask))
      refine ⟨ctx', buckets', chain'', heq, hone.trans hrel, hnone.trans (update_of_ne (by simp) ..), ?_⟩
      refine (congrArg (Lists _ _ _) (funext fun a => ?_)).mp hlists
      by_cases ha : a = c
      · simp [ha, hplace]
      · simp [ha]

theorem rehash_eq (mask : Nat)
    (h : Lists (nextOf ctx) (Sum.elim curr (firstOf buckets freeList)) (Sum.elim chain chain') place)
    (his : is.Nodup) (hcurr : ∀ i ∈ is, curr i = old i) (hfuel : ∀ i ∈ is, (chain i).length ≤ fuel) :
    ∃ ctx' buckets' curr' oldc chain'', rehash mask fuel old is ctx buckets = some (ctx', buckets') ∧
      Relinked ctx ctx' ∧ chain'' none = chain' none ∧
      Lists (nextOf ctx') (Sum.elim curr' (firstOf buckets' freeList)) (Sum.elim oldc chain'')
        fun c => if ∃ i ∈ is, place c = some (.inl i) then
          some (.inr (some (streamHash (ctx c).streamId mask))) else place c := by
  induction is generalizing ctx buckets curr chain chain' place with
  | nil => exact ⟨ctx, buckets, curr, chain, chain', rfl, fun _ => ⟨_, rfl⟩, rfl, by simpa using h⟩
  | cons i is ih =>
    obtain ⟨hi, his⟩ := nodup_cons.1 his
    rw [← update_eq_self i curr, ← update_eq_self i chain] at h
    obtain ⟨ctx₁, buckets₁, chain₁, heq₁, hrel₁, hnone₁, h₁⟩ := rehashChain_eq mask h (hfuel i mem_cons_self)
    have hne : ∀ j ∈ is, j ≠ i := fun j hj heq => hi (heq ▸ hj)
    obtain ⟨ctx₂, buckets₂, curr₂, oldc, chain₂, heq₂, hrel₂, hnone₂, h₂⟩ := ih h₁ his
      (fun j hj => by rw [update_of_ne (hne j hj)]; exact hcurr j (mem_cons_of_mem _ hj))
      (fun j hj => by rw [update_of_ne (hne j hj)]; exact hfuel j (mem_cons_of_mem _ hj))
    refine ⟨ctx₂, buckets₂, curr₂, oldc, chain₂, ?_, hrel₁.trans hrel₂, hnone₂.trans hnone₁, ?_⟩
    · rw [rehash, ← hcurr i mem_cons_self, heq₁]
      exact heq₂
    · refine (congrArg (Lists _ _ _) (funext fun c => ?_)).mp h₂
      rw [(hrel₁.same c).1]
      by_cases hc : place c = some (.inl i)
      · simp [hc]
      · simp [hc]

end Rehash

end Csilk.Http2
