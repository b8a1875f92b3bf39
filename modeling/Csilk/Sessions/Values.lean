import Csilk.Sessions.Lifetime

namespace Csilk.Sessions
open Csilk.Lib List Option

/-- A pointer that a handler stored, or one into the arena of the request. -/
def Valid (s : State) (p : Pointer) : Prop :=
  (∃ q ∈ s.stored, p = .handler q) ∨ ∃ v, p = .arena s.request v

/-- A request ends with no cached value, and the store is swept between requests only. -/
def tidy (s : State) : Event → Bool
  | .cleanup => s.fetched.isEmpty
  | .init => !s.active
  | _ => true

theorem assign_cases (key : Bytes) (value : Option Pointer) (data : List Item) :
    assign key value data = none ∧ (∀ d ∈ data, d.key ≠ key) ∨
      ∃ data' d rest, assign key value data = some data' ∧ d.key = key ∧ data ~ d :: rest ∧
        data' ~ ⟨key, value⟩ :: rest := by
  induction data with
  | nil => exact .inl ⟨rfl, by simp⟩
  | cons x data ih =>
    rw [assign]
    split
    case isTrue hx => exact .inr ⟨_, x, data, rfl, hx, .refl _, hx ▸ .refl _⟩
    case isFalse hx =>
      rcases ih with ⟨heq, hnone⟩ | ⟨data', d, rest, heq, hd, hold, hnew⟩
      · exact .inl ⟨by rw [heq]; rfl, forall_mem_cons.2 ⟨hx, hnone⟩⟩
      · exact .inr ⟨x :: data', d, x :: rest, by rw [heq]; rfl, hd, (hold.cons x).trans (.swap ..),
          (hnew.cons x).trans (.swap ..)⟩

theorem mem_setData (hkeys : (data.map Item.key).Nodup) (hd : d ∈ setData key value alloc data) :
    d = ⟨key, value⟩ ∧ ((∃ d ∈ data, d.key = key) ∨ alloc = true) ∨ d ∈ data ∧ d.key ≠ key := by
  rw [setData] at hd
  rcases assign_cases key value data with ⟨heq, hnone⟩ | ⟨data', x, rest, heq, rfl, hold, hnew⟩
  · rw [heq] at hd
    dsimp only at hd
    split at hd
    case isTrue halloc =>
      rcases mem_cons.1 hd with rfl | hd
      · exact .inl ⟨rfl, .inr halloc⟩
      · exact .inr ⟨hd, hnone d hd⟩
    case isFalse => exact .inr ⟨hd, hnone d hd⟩
  · rw [heq] at hd
    rcases mem_cons.1 (hnew.mem_iff.1 hd) with rfl | hd
    · exact .inl ⟨rfl, .inl ⟨x, hold.mem_iff.2 mem_cons_self, rfl⟩⟩
    · rw [(hold.map _).nodup_iff, map_cons, nodup_cons] at hkeys
      exact .inr ⟨hold.mem_iff.2 (mem_cons_of_mem _ hd), fun he => hkeys.1 (he ▸ List.mem_map_of_mem hd)⟩

theorem keys_setData (hkeys : (data.map Item.key).Nodup) :
    ((setData key value alloc data).map Item.key).Nodup := by
  rw [setData]
  rcases assign_cases key value data with ⟨heq, hnone⟩ | ⟨data', x, rest, heq, rfl, hold, hnew⟩
  · rw [heq]
    dsimp only
    split
    · refine nodup_cons.2 ⟨?_, hkeys⟩
      intro hmem
      obtain ⟨d, hd, hkey⟩ := List.mem_map.1 hmem
      exact hnone d hd hkey
    · exact hkeys
  · rw [heq]
    exact (hnew.map _).nodup_iff.2 ((hold.map _).nodup_iff.1 hkeys)

/-- A value of the session: a handler's, or fetched in its request. -/
def Owned (s : State) (addr : Nat) (d : Item) (p : Pointer) : Prop :=
  (∃ q ∈ s.stored, p = .handler q) ∨
    (∃ v, p = .arena s.request v) ∧ s.current = some addr ∧ d.key ∈ s.fetched

theorem Owned.handler (h : Owned s addr d p) (hnot : s.current = some addr → d.key ∉ s.fetched) :
    ∃ q ∈ s.stored, p = .handler q := by
  rcases h with h | ⟨-, hcurrent, hfetched⟩
  · exact h
  · exact absurd hfetched (hnot hcurrent)

structure Held (s : State) : Prop where
  keys : ∀ x ∈ s.store, (x.data.map Item.key).Nodup
  values : ∀ x ∈ s.store, ∀ d ∈ x.data, ∀ p, d.value = some p → Owned s x.addr d p
  current : ∀ addr, s.current = some addr → ∃ x ∈ s.store, x.addr = addr
  idle : s.active = false → s.fetched = [] ∧ s.current = none

theorem Held.start (now : Nat) : Held (.start now) where
  keys _ h := by cases h
  values _ h := by cases h
  current _ h := by cases h
  idle _ := ⟨rfl, rfl⟩

theorem Held.usable (h : Held s) (hinv : Inv s) :
    (s.current.isNone || s.session.isSome) = true := by
  cases hcurrent : s.current with
  | none => rfl
  | some addr =>
    obtain ⟨x, hx, rfl⟩ := h.current addr hcurrent
    rw [State.session, hcurrent, bind_some, hinv.deref hx]
    rfl

theorem Held.sweep (h : Held s) (hidle : s.active = false) : Held (csilkSessionInit s) := by
  have hsub : ∀ x ∈ cleanupExpired s.now s.store, x ∈ s.store := fun x hx => mem_of_mem_filter hx
  refine ⟨fun x hx => h.keys x (hsub x hx), fun x hx => h.values x (hsub x hx), ?_, h.idle⟩
  intro addr hcurrent
  have hcurrent : s.current = some addr := hcurrent
  rw [(h.idle hidle).2] at hcurrent
  cases hcurrent

theorem Held.cleanup (h : Held s) (hfetched : s.fetched = []) : Held (csilkCtxCleanup s) := by
  refine ⟨h.keys, ?_, (by rintro _ ⟨⟩), fun _ => ⟨rfl, rfl⟩⟩
  intro x hx d hd p hp
  left
  apply (h.values x hx d hd p hp).handler
  intro _
  rw [hfetched]
  exact not_mem_nil

theorem Held.starts (h : Held s) (hinv : Inv s) (hidle : s.active = false) (cookie : Option Bytes)
    (newId : Bytes) : Held (csilkSessionStart s.begin cookie newId) := by
  have hhandler : ∀ x ∈ s.store, ∀ d ∈ x.data, ∀ p, d.value = some p →
      ∃ q ∈ s.stored, p = .handler q := by
    intro x hx d hd p hp
    apply (h.values x hx d hd p hp).handler
    intro _
    rw [(h.idle hidle).1]
    exact not_mem_nil
  unfold csilkSessionStart
  split
  · refine ⟨?_, ?_, ?_, (by rintro ⟨⟩)⟩
    · exact forall_mem_cons.2 ⟨nodup_nil, h.keys⟩
    · intro x hx d hd p hp
      rcases mem_cons.1 hx with rfl | hx
      · cases hd
      · exact .inl (hhandler x hx d hd p hp)
    · intro addr hcurrent
      cases hcurrent
      exact ⟨_, mem_cons_self, rfl⟩
  case h_2 x hfind =>
    obtain ⟨id, -, hfind⟩ := bind_eq_some_iff.1 hfind
    have hx := (findSession_some hfind).1
    refine ⟨?_, ?_, ?_, (by rintro ⟨⟩)⟩
    · exact forall_modify hinv.addrs hx (h.keys x hx) fun y hy _ => h.keys y hy
    · exact forall_modify hinv.addrs hx (fun d hd p hp => .inl (hhandler x hx d hd p hp))
        fun y hy _ d hd p hp => .inl (hhandler y hy d hd p hp)
    · intro addr hcurrent
      cases hcurrent
      exact ⟨_, List.mem_map.2 ⟨x, hx, if_pos rfl⟩, rfl⟩

theorem Held.write {f : List Item → List Item} (h : Held s) (hinv : Inv s) (hx : x ∈ s.store) (hcurrent : s.current = some x.addr)
    (hs : { s with
      store := modify x.addr (fun x => { x with data := f x.data }) s.store
      stored := st
      fetched := l } = s')
    (hstored : ∀ q ∈ s.stored, q ∈ st) (hkeys : ((f x.data).map Item.key).Nodup)
    (hvalues : ∀ d ∈ f x.data, ∀ p, d.value = some p → Owned s' x.addr d p) : Held s' := by
  subst hs
  refine ⟨?_, ?_, ?_, ?_⟩
  · exact forall_modify hinv.addrs hx hkeys fun y hy _ => h.keys y hy
  · refine forall_modify hinv.addrs hx hvalues fun y hy hne d hd p hp => ?_
    obtain ⟨q, hq, heq⟩ := (h.values y hy d hd p hp).handler
      fun hc => absurd (Option.some.inj (hcurrent.symm.trans hc)).symm hne
    exact .inl ⟨q, hstored q hq, heq⟩
  · intro addr hc
    cases hcurrent.symm.trans hc
    exact ⟨{ x with data := f x.data }, List.mem_map.2 ⟨x, hx, if_pos rfl⟩, rfl⟩
  · intro hidle
    cases (h.idle hidle).2.symm.trans hcurrent

theorem Held.set (h : Held s) (hinv : Inv s) (key : Bytes) (value : Option Nat) (alloc : Bool) :
    Held { csilkSessionSet s key (value.map .handler) alloc with
      stored := value.toList ++ s.stored
      fetched := s.fetched.filter (· ≠ key) } := by
  have hstored : ∀ q ∈ s.stored, q ∈ value.toList ++ s.stored := fun q hq => mem_append_right _ hq
  rcases csilkSessionSet_cases (h.usable hinv) key (value.map .handler) alloc with
    ⟨hcurrent, heq⟩ | ⟨x, hx, hcurrent, heq⟩
  · rw [heq]
    refine ⟨h.keys, ?_, h.current, ?_⟩
    · intro x hx d hd p hp
      obtain ⟨q, hq, hp⟩ := (h.values x hx d hd p hp).handler (fun hc => by
        rw [hcurrent] at hc
        cases hc)
      exact .inl ⟨q, hstored q hq, hp⟩
    · intro hidle
      refine ⟨?_, hcurrent⟩
      show s.fetched.filter _ = []
      rw [(h.idle hidle).1]
      rfl
  · rw [heq]
    refine h.write hinv hx hcurrent rfl hstored (keys_setData (h.keys x hx)) ?_
    intro d hd p hp
    rcases mem_setData (h.keys x hx) hd with ⟨rfl, -⟩ | ⟨hd, hkey⟩
    · obtain ⟨q, hq, rfl⟩ := map_eq_some_iff.1 hp
      exact .inl ⟨q, mem_append_left _ (mem_toList.2 hq), rfl⟩
    · rcases h.values x hx d hd p hp with ⟨q, hq, hp⟩ | ⟨harena, hsame, hfetched⟩
      · exact .inl ⟨q, hstored q hq, hp⟩
      · exact .inr ⟨harena, hsame, mem_filter.2 ⟨hfetched, decide_eq_true hkey⟩⟩

theorem Held.fetch (h : Held s) (hinv : Inv s) (hx : x ∈ s.store) (hcurrent : s.current = some x.addr)
    (hkey : ∀ d ∈ x.data, d.key ≠ key) (answer : Option Bytes) (copied alloc : Bool) :
    Held (fetch s key answer copied alloc).2 := by
  cases answer with
  | none => exact h
  | some val =>
    rw [Sessions.fetch]
    rcases csilkSessionSet_cases (h.usable hinv) key
      (if copied then some (.arena s.request val) else none) alloc with ⟨hnone, -⟩ | ⟨y, hy, hsame, heq⟩
    · rw [hcurrent] at hnone
      cases hnone
    · rw [hcurrent] at hsame
      cases inj_on_of_nodup_map hinv.addrs hx hy (Option.some.inj hsame)
      rw [heq]
      refine h.write hinv hx hcurrent rfl (fun q hq => hq) (keys_setData (h.keys x hx)) ?_
      intro d hd p hp
      rcases mem_setData (h.keys x hx) hd with ⟨rfl, hwritten⟩ | ⟨hd, -⟩
      · have halloc : alloc = true := by
          rcases hwritten with ⟨d, hd, heq⟩ | halloc
          · exact absurd heq (hkey d hd)
          · exact halloc
        cases copied with
        | false => cases hp
        | true =>
          cases hp
          rw [halloc]
          exact .inr ⟨⟨val, rfl⟩, hcurrent, mem_cons_self⟩
      · rcases h.values x hx d hd p hp with hhandler | ⟨harena, hsame, hfetched⟩
        · exact .inl hhandler
        · refine .inr ⟨harena, hsame, ?_⟩
          show d.key ∈ if copied && alloc then key :: s.fetched else s.fetched
          split
          · exact mem_cons_of_mem _ hfetched
          · exact hfetched

section

variable (h : Held s) (hinv : Inv s)
include h hinv

theorem Held.get (key : Bytes) (answer : Option Bytes)
    (copied alloc : Bool) : Held (csilkSessionGet s key answer copied alloc).2 := by
  rcases csilkSessionGet_cases (h.usable hinv) key answer copied alloc with
    heq | ⟨x, hx, hcurrent, ⟨d, -, heq⟩ | ⟨hkey, heq⟩⟩
  · rw [heq]
    exact h
  · rw [heq]
    exact h
  · rw [heq]
    exact h.fetch hinv hx hcurrent hkey answer copied alloc

theorem Held.valid (hp : (csilkSessionGet s key answer copied alloc).1 = some p) : Valid s p := by
  rcases csilkSessionGet_cases (h.usable hinv) key answer copied alloc with
    heq | ⟨x, hx, -, ⟨d, hd, heq⟩ | ⟨-, heq⟩⟩
  · rw [heq] at hp
    cases hp
  · rw [heq] at hp
    exact (h.values x hx d hd p hp).imp id And.left
  · rw [heq] at hp
    cases answer with
    | none => cases hp
    | some val =>
      cases copied with
      | false => cases hp
      | true =>
        cases hp
        exact .inr ⟨val, rfl⟩

theorem Held.destroy : Held (csilkSessionDestroy s) := by
  rw [csilkSessionDestroy]
  rcases withSession_eq (h.usable hinv) () _ with ⟨-, heq⟩ | ⟨x, hx, hcurrent, heq⟩
  · rw [heq]
    exact h
  · rw [heq]
    refine ⟨?_, ?_, (by simp), fun _ => ⟨rfl, rfl⟩⟩
    · exact forall_erase hinv.addrs fun y hy _ => h.keys y hy
    · refine forall_erase hinv.addrs fun y hy hne d hd p hp => ?_
      left
      apply (h.values y hy d hd p hp).handler
      intro hsame
      exact absurd (Option.some.inj (hcurrent.symm.trans hsame)).symm hne

theorem Held.step (htidy : tidy s e = true) (hs : step s e = some s') :
    Held s' := by
  cases e with
  | advance time =>
    obtain ⟨-, rfl⟩ := of_enabled hs
    exact { h with }
  | init =>
    cases hs
    rw [tidy, Bool.not_eq_true'] at htidy
    exact h.sweep htidy
  | start cookie newId =>
    obtain ⟨hc, rfl⟩ := of_enabled hs
    have hidle := (Bool.and_eq_true_iff.1 hc).1
    rw [Bool.not_eq_true'] at hidle
    exact h.starts hinv hidle cookie newId
  | set key value alloc =>
    obtain ⟨-, rfl⟩ := of_enabled hs
    exact h.set hinv key value alloc
  | get key answer copied alloc =>
    obtain ⟨-, rfl⟩ := of_enabled hs
    exact h.get hinv key answer copied alloc
  | destroy =>
    obtain ⟨-, rfl⟩ := of_enabled hs
    exact h.destroy hinv
  | cleanup =>
    obtain ⟨-, rfl⟩ := of_enabled hs
    exact h.cleanup (List.isEmpty_iff.1 htidy)

end

theorem held_of_reachable (h : sessions.Reachable (fun s e => tidy s e = true) s) : Inv s ∧ Held s := by
  apply h.invariant (P := fun s => Inv s ∧ Held s)
  · intro s hs
    obtain ⟨now, rfl⟩ := hs
    exact ⟨.start now, .start now⟩
  · intro s e s' hboth hok hs
    obtain ⟨hinv, hheld⟩ := hboth
    have husable : usable s e = true := by
      cases e with
      | set | get | destroy => exact hheld.usable hinv
      | advance | init | start | cleanup => rfl
    exact ⟨hinv.step husable hs, hheld.step hinv hok hs⟩

/-- While no request ends with a cached value, a get returns what a handler stored or a string of
the request's arena. -/
theorem get_valid (h : sessions.Reachable (fun s e => tidy s e = true) s) :
    s.faulted = false ∧ ∀ key answer copied alloc p,
      (csilkSessionGet s key answer copied alloc).1 = some p → Valid s p := by
  obtain ⟨hinv, hheld⟩ := held_of_reachable h
  refine ⟨hinv.sound, ?_⟩
  intro key answer copied alloc p hp
  exact hheld.valid hinv hp

def cartKey : Bytes := ascii "cart"

theorem get_valid_fetched : ∃ s, sessions.Reachable (fun s e => tidy s e = true) s ∧
    (csilkSessionGet s cartKey none true true).1 = some (.arena 1 (ascii "3 items")) ∧
    s.faulted = false ∧ ∀ key answer copied alloc p,
      (csilkSessionGet s key answer copied alloc).1 = some p → Valid s p := by
  have hrun := sessions.run (p := fun s e => tidy s e = true) (.start 0) [.start none firstId,
    .get cartKey (some (ascii "3 items")) true true] ⟨0, rfl⟩ rfl
  exact ⟨_, hrun, rfl, get_valid hrun⟩

/-- The second request is given the arena of the first. -/
theorem get_dangling : ∃ s, sessions.Reachable (fun _ _ => True) s ∧ s.active = true ∧ s.request = 2 ∧
    (csilkSessionGet s cartKey none true true).1 = some (.arena 1 (ascii "3 items")) ∧
    ¬ Valid s (.arena 1 (ascii "3 items")) := by
  have hrun := sessions.run (p := fun _ _ => True) (.start 0) [.start none firstId,
    .get cartKey (some (ascii "3 items")) true true, .cleanup, .start (some firstId) secondId] ⟨0, rfl⟩ rfl
  refine ⟨_, hrun, rfl, rfl, rfl, ?_⟩
  intro hvalid
  rcases hvalid with ⟨q, hq, -⟩ | ⟨v, hv⟩
  · cases hq
  · cases hv

end Csilk.Sessions
