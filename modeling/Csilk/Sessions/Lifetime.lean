import Csilk.Sessions.Model
import Mathlib.Data.List.Nodup

namespace Csilk.Sessions
open Csilk.Lib List Option

def Mark.startOf (id : Bytes) : Mark → Option Nat
  | .created id' time | .resumed id' time => if id' = id then some time else none
  | .destroyed _ => none

def lastStart (history : List Mark) (id : Bytes) : Option Nat := history.findSome? (Mark.startOf id)

/-- The session was created, not destroyed since, and last started within its lifetime. -/
def Resumable (s : State) (id : Bytes) : Prop :=
  (∃ t, .created id t ∈ s.history) ∧ .destroyed id ∉ s.history ∧
    ∃ t, lastStart s.history id = some t ∧ s.now < t + sessionTtl

def State.session (s : State) : Option Session := s.current.bind s.deref

def Resumes (s s' : State) (id : Bytes) : Prop :=
  ∃ x ∈ s.store, x.id = id ∧ s'.session = some { x with expiresAt := s.now + sessionTtl } ∧
    s'.cookies = s.cookies

def Creates (s s' : State) (newId : Bytes) : Prop :=
  (∀ t, .created newId t ∉ s.history) ∧
    ∃ x, s'.session = some x ∧ s'.store = x :: s.store ∧ x.id = newId ∧ x.data = [] ∧
      x.expiresAt = s.now + sessionTtl ∧
      s'.cookies = s.cookies ++ [⟨sessionCookie, newId, 60 * 60 * 24, ascii "/", none, true, true⟩]

def StartsRight (s : State) (cookie : Option Bytes) (newId : Bytes) (s' : State) : Prop :=
  (∀ id, cookie = some id → Resumable s id → Resumes s s' id) ∧
    ((∀ id, cookie = some id → ¬ Resumable s id) → Creates s s' newId)

/-- The session of the request has not been swept under it. -/
def usable (s : State) : Event → Bool
  | .set _ _ _ | .get _ _ _ _ | .destroy => s.current.isNone || s.session.isSome
  | _ => true

/-- When the lifetime ends, if it was not destroyed since its last start. -/
def due : List Mark → Bytes → Option Nat
  | [], _ => none
  | .destroyed id' :: history, id => if id' = id then none else due history id
  | .created id' t :: history, id | .resumed id' t :: history, id =>
    if id' = id then some (t + sessionTtl) else due history id

/-- A session is created once, and nothing follows its destruction. -/
def Ordered : List Mark → Prop
  | [] => True
  | .created id _ :: history => (∀ t, .created id t ∉ history) ∧ Ordered history
  | .resumed id _ :: history | .destroyed id :: history =>
    (∃ e, due history id = some e) ∧ Ordered history

structure Kept (now : Nat) (store : List Session) (allocated : Nat) (history : List Mark) : Prop where
  addrs : (store.map Session.addr).Nodup
  bound : ∀ a ∈ store.map Session.addr, a < allocated
  ids : (store.map Session.id).Nodup
  ordered : Ordered history
  expires : ∀ x ∈ store, due history x.id = some x.expiresAt
  /-- A session that is in the store no more was destroyed or has lapsed. -/
  found : ∀ id e, due history id = some e → now < e → id ∈ store.map Session.id

structure Inv (s : State) : Prop extends Kept s.now s.store s.allocated s.history where
  sound : s.faulted = false

theorem Inv.start (now : Nat) : Inv (.start now) where
  sound := rfl
  addrs := nodup_nil
  bound _ h := by cases h
  ids := nodup_nil
  ordered := trivial
  expires _ h := by cases h
  found _ _ h := by cases h

theorem Kept.later (h : Kept now store n history) (hle : now ≤ now') : Kept now' store n history :=
  { h with found := fun id e hdue hlt => h.found id e hdue (lt_of_le_of_lt hle hlt) }

section

variable {store : List Session} {P : Session → Prop} (hnodup : (store.map Session.addr).Nodup)
include hnodup

theorem forall_modify (hx : x ∈ store) (hself : P (f x)) (hother : ∀ y ∈ store, y.addr ≠ x.addr → P y) :
    ∀ y ∈ modify x.addr f store, P y := by
  refine forall_mem_map.2 fun y hy => ?_
  split
  case isTrue haddr =>
    rw [inj_on_of_nodup_map hnodup hy hx haddr]
    exact hself
  case isFalse haddr => exact hother y hy haddr

theorem forall_erase (h : ∀ y ∈ store, y.addr ≠ addr → P y) :
    ∀ y ∈ store.eraseP fun y => y.addr = addr, P y := by
  intro y hy
  apply h y (mem_of_mem_eraseP hy)
  rintro rfl
  have hmem : y.addr ∈ (store.map Session.addr).erase y.addr := by
    rw [erase_eq_eraseP', eraseP_map]
    exact List.mem_map_of_mem hy
  exact hnodup.not_mem_erase hmem

end

theorem map_modify {g : Session → α} (hf : ∀ x, g (f x) = g x) (addr : Nat) (store : List Session) :
    (modify addr f store).map g = store.map g := by
  rw [modify, List.map_map]
  apply map_congr_left
  intro x _
  rw [Function.comp_apply]
  split
  · exact hf x
  · rfl

theorem Kept.modify (h : Kept now store n history) (hx : x ∈ store) (haddr : ∀ x, (f x).addr = x.addr)
    (hid : ∀ x, (f x).id = x.id) (hordered : Ordered history')
    (hself : due history' x.id = some (f x).expiresAt)
    (hother : ∀ id, x.id ≠ id → due history' id = due history id) :
    Kept now (modify x.addr f store) n history' := by
  have haddrs := map_modify haddr x.addr store
  have hids := map_modify hid x.addr store
  refine ⟨haddrs ▸ h.addrs, haddrs ▸ h.bound, hids ▸ h.ids, hordered, forall_modify h.addrs hx ?_ ?_, ?_⟩
  · rw [hid]
    exact hself
  · intro y hy hne
    rw [hother y.id fun heq => hne (congrArg _ (inj_on_of_nodup_map h.ids hy hx heq.symm))]
    exact h.expires y hy
  · intro id e hdue hlt
    rw [hids]
    by_cases hsame : x.id = id
    · exact hsame ▸ List.mem_map_of_mem hx
    · exact h.found id e ((hother id hsame).symm.trans hdue) hlt

theorem deref_some {s : State} (h : s.deref addr = some x) : x ∈ s.store ∧ x.addr = addr := by
  have haddr := find?_some h
  exact ⟨mem_of_find?_eq_some h, of_decide_eq_true haddr⟩

section

variable {s : State} (husable : (s.current.isNone || s.session.isSome) = true)
include husable

theorem withSession_eq (r : ρ)
    (f : Session → ρ × State) : s.current = none ∧ s.withSession r f = (r, s) ∨
      ∃ x ∈ s.store, s.current = some x.addr ∧ s.withSession r f = f x := by
  rw [State.withSession]
  cases hcurrent : s.current with
  | none => exact .inl ⟨rfl, rfl⟩
  | some addr =>
    cases hderef : s.deref addr with
    | none =>
      rw [State.session, hcurrent, bind_some, hderef] at husable
      cases husable
    | some x =>
      obtain ⟨hx, rfl⟩ := deref_some hderef
      right
      refine ⟨x, hx, rfl, ?_⟩
      dsimp only
      rw [hderef]

theorem csilkSessionSet_cases (key : Bytes) (value : Option Pointer) (alloc : Bool) :
    s.current = none ∧ csilkSessionSet s key value alloc = s ∨
      ∃ x ∈ s.store, s.current = some x.addr ∧ csilkSessionSet s key value alloc =
        { s with store := modify x.addr
                  (fun x => { x with data := setData key value alloc x.data }) s.store } := by
  rw [csilkSessionSet]
  rcases withSession_eq husable () _ with ⟨hcurrent, heq⟩ | ⟨x, hx, hcurrent, heq⟩
  · rw [heq]
    exact .inl ⟨hcurrent, rfl⟩
  · rw [heq]
    exact .inr ⟨x, hx, hcurrent, rfl⟩

theorem csilkSessionGet_cases (key : Bytes) (answer : Option Bytes) (copied alloc : Bool) :
    csilkSessionGet s key answer copied alloc = (none, s) ∨ ∃ x ∈ s.store, s.current = some x.addr ∧
        ((∃ d ∈ x.data, csilkSessionGet s key answer copied alloc = (d.value, s)) ∨
          (∀ d ∈ x.data, d.key ≠ key) ∧
            csilkSessionGet s key answer copied alloc = fetch s key answer copied alloc) := by
  rw [csilkSessionGet]
  rcases withSession_eq husable none _ with ⟨-, heq⟩ | ⟨x, hx, hcurrent, heq⟩
  · rw [heq]
    exact .inl rfl
  · rw [heq]
    refine .inr ⟨x, hx, hcurrent, ?_⟩
    cases hfind : x.data.find? fun d => d.key = key with
    | some d => exact .inl ⟨d, mem_of_find?_eq_some hfind, rfl⟩
    | none =>
      refine .inr ⟨?_, rfl⟩
      intro d hd hkey
      exact find?_eq_none.1 hfind d hd (decide_eq_true hkey)

theorem Inv.set (h : Inv s) (key : Bytes) (value : Option Pointer) (alloc : Bool) :
    Inv (csilkSessionSet s key value alloc) := by
  rcases csilkSessionSet_cases husable key value alloc with ⟨-, heq⟩ | ⟨x, hx, -, heq⟩
  · rw [heq]
    exact h
  · rw [heq]
    exact ⟨h.toKept.modify hx (fun _ => rfl) (fun _ => rfl) h.ordered (h.expires x hx) fun _ _ => rfl,
      h.sound⟩

theorem Inv.get (h : Inv s) (key : Bytes) (answer : Option Bytes) (copied alloc : Bool) :
    Inv (csilkSessionGet s key answer copied alloc).2 := by
  rcases csilkSessionGet_cases husable key answer copied alloc with
    heq | ⟨x, -, -, ⟨d, -, heq⟩ | ⟨-, heq⟩⟩
  · rw [heq]
    exact h
  · rw [heq]
    exact h
  · rw [heq]
    cases answer with
    | none => exact h
    | some val =>
      exact { h.set husable key (if copied then some (.arena s.request val) else none) alloc with }

end

theorem lastStart_cons (m : Mark) (history : List Mark) (id : Bytes) :
    lastStart (m :: history) id = (m.startOf id).or (lastStart history id) := by
  rw [lastStart, findSome?_cons]
  cases m.startOf id <;> rfl

theorem Ordered.due_iff (h : Ordered history) (id : Bytes) :
    (.destroyed id ∈ history → ∃ t, .created id t ∈ history) ∧
      ∀ e, due history id = some e ↔ (∃ t, .created id t ∈ history) ∧ .destroyed id ∉ history ∧
        ∃ t, lastStart history id = some t ∧ t + sessionTtl = e := by
  induction history with
  | nil => exact ⟨by simp, by simp [due]⟩
  | cons m history ih =>
    cases m with
    | created id' t | resumed id' t | destroyed id' =>
      have hold := ih h.2
      have hfirst := h.1
      simp only [due, lastStart_cons, Mark.startOf, mem_cons, Mark.created.injEq,
        Mark.destroyed.injEq, reduceCtorEq, false_or]
      by_cases hid : id' = id
      · grind
      · grind

section

variable {now : Nat} {store : List Session} {n : Nat} {history : List Mark}
  (h : Kept now store n history)
include h

theorem Kept.sweep : Kept now (cleanupExpired now store) n history := by
  have hsub : (cleanupExpired now store).Sublist store := filter_sublist
  refine ⟨h.addrs.sublist (hsub.map _), fun a ha => h.bound a ((hsub.map _).subset ha),
    h.ids.sublist (hsub.map _), h.ordered, fun x hx => h.expires x (hsub.subset hx), ?_⟩
  intro id e hdue hlt
  obtain ⟨x, hx, rfl⟩ := List.mem_map.1 (h.found id e hdue hlt)
  cases (h.expires x hx).symm.trans hdue
  exact List.mem_map_of_mem (mem_filter.2 ⟨hx, decide_eq_true hlt⟩)

theorem Kept.created (hx : x ∈ store) : ∃ t, .created x.id t ∈ history :=
  ((h.ordered.due_iff x.id).2 _ |>.1 (h.expires x hx)).1

theorem Kept.create (hfresh : ∀ t, .created newId t ∉ history) :
    Kept now (⟨n, newId, [], now + sessionTtl⟩ :: store) (n + 1) (.created newId now :: history) := by
  have hother : ∀ x ∈ store, newId ≠ x.id := by
    intro x hx heq
    obtain ⟨t, hcreated⟩ := h.created hx
    rw [← heq] at hcreated
    exact hfresh t hcreated
  constructor
  · exact nodup_cons.2 ⟨fun hmem => Nat.lt_irrefl _ (h.bound n hmem), h.addrs⟩
  · exact forall_mem_cons.2 ⟨Nat.lt_succ_self _, fun a ha => Nat.lt_succ_of_lt (h.bound a ha)⟩
  · refine nodup_cons.2 ⟨?_, h.ids⟩
    intro hmem
    obtain ⟨x, hx, heq⟩ := List.mem_map.1 hmem
    exact hother x hx heq.symm
  · exact ⟨hfresh, h.ordered⟩
  · refine forall_mem_cons.2 ⟨if_pos rfl, ?_⟩
    intro x hx
    exact (if_neg (hother x hx)).trans (h.expires x hx)
  · intro id e hdue hlt
    by_cases hid : newId = id
    · exact hid ▸ mem_cons_self
    · rw [due, if_neg hid] at hdue
      exact mem_cons_of_mem _ (h.found id e hdue hlt)

end

theorem Kept.remove (h : Kept now store n history) (hx : x ∈ store) :
    Kept now (store.eraseP fun y => y.addr = x.addr) n (.destroyed x.id :: history) := by
  have hsub : (store.eraseP fun y => y.addr = x.addr).Sublist store := eraseP_sublist
  refine ⟨h.addrs.sublist (hsub.map _), fun a ha => h.bound a ((hsub.map _).subset ha),
    h.ids.sublist (hsub.map _), ⟨⟨_, h.expires x hx⟩, h.ordered⟩, forall_erase h.addrs ?_, ?_⟩
  · intro y hy haddr
    refine (if_neg ?_).trans (h.expires y hy)
    intro heq
    exact haddr (congrArg Session.addr (inj_on_of_nodup_map h.ids hy hx heq.symm))
  · intro id e hdue hlt
    rw [due] at hdue
    split at hdue
    · cases hdue
    case isFalse hne =>
      obtain ⟨y, hy, rfl⟩ := List.mem_map.1 (h.found id e hdue hlt)
      refine List.mem_map_of_mem ((mem_eraseP_of_neg ?_).2 hy)
      intro haddr
      exact hne (congrArg Session.id (inj_on_of_nodup_map h.addrs hx hy (of_decide_eq_true haddr).symm))

theorem of_fresh {id : Bytes} (h : fresh history id = true) (t : Nat) : .created id t ∉ history := by
  intro hmem
  have hne := List.all_eq_true.1 h _ hmem
  exact of_decide_eq_true hne rfl

theorem findSession_some {store : List Session} {id : Bytes} (h : findSession store id = some x) :
    x ∈ store ∧ x.id = id := by
  have hid := find?_some h
  exact ⟨mem_of_find?_eq_some h, of_decide_eq_true hid⟩

/-- A start only reads the store, the clock and the number of allocations. -/
def State.begin (s : State) : State := { s with request := s.request + 1, active := true }

theorem Inv.begin (h : Inv s) : Inv s.begin := { h with }

theorem Inv.starts (h : Inv s) (hfresh : fresh s.history newId = true) (cookie : Option Bytes) :
    Inv (csilkSessionStart s cookie newId) := by
  unfold csilkSessionStart
  split
  · exact ⟨h.toKept.create (of_fresh hfresh), h.sound⟩
  case h_2 x hfind =>
    obtain ⟨id, -, hfind⟩ := bind_eq_some_iff.1 hfind
    have hx := (findSession_some hfind).1
    exact ⟨h.toKept.modify hx (fun _ => rfl) (fun _ => rfl) ⟨⟨_, h.expires x hx⟩, h.ordered⟩ (if_pos rfl)
      fun _ hne => if_neg hne, h.sound⟩

theorem Inv.destroy (h : Inv s) (husable : (s.current.isNone || s.session.isSome) = true) :
    Inv (csilkSessionDestroy s) := by
  rw [csilkSessionDestroy]
  rcases withSession_eq husable () _ with ⟨-, heq⟩ | ⟨x, hx, -, heq⟩
  · rw [heq]
    exact h
  · rw [heq]
    exact ⟨h.toKept.remove hx, h.sound⟩

theorem Inv.step (h : Inv s) (husable : usable s e = true) (hs : step s e = some s') : Inv s' := by
  cases e with
  | advance time =>
    obtain ⟨hle, rfl⟩ := of_enabled hs
    exact ⟨h.toKept.later hle, h.sound⟩
  | init =>
    cases hs
    exact ⟨h.toKept.sweep, h.sound⟩
  | start cookie newId =>
    obtain ⟨hc, rfl⟩ := of_enabled hs
    exact h.begin.starts (Bool.and_eq_true_iff.1 hc).2 cookie
  | set key value alloc =>
    obtain ⟨-, rfl⟩ := of_enabled hs
    exact { h.set husable key (value.map .handler) alloc with }
  | get key answer copied alloc =>
    obtain ⟨-, rfl⟩ := of_enabled hs
    exact h.get husable key answer copied alloc
  | destroy =>
    obtain ⟨-, rfl⟩ := of_enabled hs
    exact h.destroy husable
  | cleanup =>
    obtain ⟨-, rfl⟩ := of_enabled hs
    exact { h with }

theorem Inv.of_reachable (h : sessions.Reachable (fun s e => usable s e = true) s) : Inv s := by
  apply h.invariant (P := Inv)
  · intro s hs
    obtain ⟨now, rfl⟩ := hs
    exact .start now
  · intro s e s' hinv hok hs
    exact hinv.step hok hs

theorem Inv.resumable_iff (h : Inv s) (id : Bytes) :
    Resumable s id ↔ ∃ x, findSession s.store id = some x ∧ s.now < x.expiresAt := by
  have hdue := (h.ordered.due_iff id).2
  constructor
  · intro hres
    obtain ⟨hcreated, hkept, t, hlast, hlt⟩ := hres
    have hend := (hdue _).2 ⟨hcreated, hkept, t, hlast, rfl⟩
    obtain ⟨y, hy, rfl⟩ := List.mem_map.1 (h.found id _ hend hlt)
    cases hfind : findSession s.store y.id with
    | none => exact absurd (decide_eq_true rfl) (find?_eq_none.1 hfind y hy)
    | some x =>
      obtain ⟨hx, hid⟩ := findSession_some hfind
      have hexpires := h.expires x hx
      rw [hid, hend] at hexpires
      exact ⟨x, rfl, Option.some.inj hexpires ▸ hlt⟩
  · intro hfound
    obtain ⟨x, hfind, hlt⟩ := hfound
    obtain ⟨hx, rfl⟩ := findSession_some hfind
    obtain ⟨hcreated, hkept, t, hlast, heq⟩ := (hdue _).1 (h.expires x hx)
    exact ⟨hcreated, hkept, t, hlast, heq ▸ hlt⟩

theorem Inv.deref (h : Inv s) (hx : x ∈ s.store) : s.deref x.addr = some x := by
  cases hderef : s.deref x.addr with
  | none => exact absurd (decide_eq_true rfl) (find?_eq_none.1 hderef x hx)
  | some y =>
    obtain ⟨hy, haddr⟩ := deref_some hderef
    rw [inj_on_of_nodup_map h.addrs hy hx haddr]

theorem starts_resume (h : Inv s) (hfresh : fresh s.history newId = true)
    (hfind : cookie.bind (findSession s.store) = some x) :
    (csilkSessionStart s.begin cookie newId).session =
        some { x with expiresAt := s.now + sessionTtl } ∧
      (csilkSessionStart s.begin cookie newId).cookies = s.cookies := by
  have hinv := h.begin.starts hfresh cookie
  have heq : csilkSessionStart s.begin cookie newId = { s.begin with
        store := modify x.addr (fun x => { x with expiresAt := s.now + sessionTtl }) s.store
        current := some x.addr
        history := .resumed x.id s.now :: s.history } := by
    rw [csilkSessionStart, State.begin]
    rw [hfind]
  rw [heq] at hinv ⊢
  obtain ⟨id, -, hfind⟩ := bind_eq_some_iff.1 hfind
  have hmem : { x with expiresAt := s.now + sessionTtl } ∈
      modify x.addr (fun x => { x with expiresAt := s.now + sessionTtl }) s.store :=
    List.mem_map.2 ⟨x, (findSession_some hfind).1, if_pos rfl⟩
  exact ⟨hinv.deref hmem, rfl⟩

theorem starts_create (hfresh : fresh s.history newId = true)
    (hfind : cookie.bind (findSession s.store) = none) :
    Creates s (csilkSessionStart s.begin cookie newId) newId := by
  refine ⟨of_fresh hfresh, ⟨s.allocated, newId, [], s.now + sessionTtl⟩, ?_⟩
  rw [csilkSessionStart, State.begin]
  rw [hfind]
  refine ⟨?_, rfl, rfl, rfl, rfl, rfl⟩
  show List.find? (fun y => y.addr = s.allocated) (_ :: s.store) = _
  apply find?_cons_of_pos
  exact decide_eq_true rfl

/-- A start does right exactly when the session it is presented with has not lapsed in the store. -/
theorem start_right_iff (h : sessions.Reachable (fun s e => usable s e = true) s)
    (hs : sessions.step s (.start cookie newId) = some s') :
    s.faulted = false ∧ (StartsRight s cookie newId s' ↔
      ∀ id x, cookie = some id → findSession s.store id = some x → s.now < x.expiresAt) := by
  have hinv := Inv.of_reachable h
  obtain ⟨hc, rfl⟩ := of_enabled hs
  have hfresh := (Bool.and_eq_true_iff.1 hc).2
  refine ⟨hinv.sound, ?_, ?_⟩
  · intro hright id x hcookie hfind
    by_contra hlapsed
    have hnone : ∀ id', cookie = some id' → ¬ Resumable s id' := by
      intro id' hcookie' hres
      cases hcookie.symm.trans hcookie'
      obtain ⟨y, hfind', hlt⟩ := (hinv.resumable_iff id).1 hres
      cases hfind.symm.trans hfind'
      exact hlapsed hlt
    obtain ⟨hnew, y, hsession, -, hid, -⟩ := hright.2 hnone
    have hfound : cookie.bind (findSession s.store) = some x := by rw [hcookie, bind_some, hfind]
    cases hsession.symm.trans (starts_resume hinv hfresh hfound).1
    obtain ⟨t, hcreated⟩ := hinv.toKept.created (findSession_some hfind).1
    rw [hid] at hcreated
    exact hnew t hcreated
  · intro hlive
    constructor
    · intro id hcookie hres
      obtain ⟨x, hfind, -⟩ := (hinv.resumable_iff id).1 hres
      have hfound : cookie.bind (findSession s.store) = some x := by rw [hcookie, bind_some, hfind]
      obtain ⟨hx, hid⟩ := findSession_some hfind
      exact ⟨x, hx, hid, starts_resume hinv hfresh hfound⟩
    · intro hnone
      apply starts_create hfresh
      cases hfound : cookie.bind (findSession s.store) with
      | none => rfl
      | some x =>
        obtain ⟨id, hcookie, hfind⟩ := bind_eq_some_iff.1 hfound
        exact absurd ((hinv.resumable_iff id).2 ⟨x, hfind, hlive id x hcookie hfind⟩) (hnone id hcookie)

def firstId : Bytes := ascii "11111111-1111-4111-8111-111111111111"

def secondId : Bytes := ascii "22222222-2222-4222-8222-222222222222"

def returning (time : Nat) : List Event := [.start none firstId, .cleanup, .advance time]

/-- Of the sessions still valid the store has just those of the history, with their ends. -/
theorem store_refines (h : sessions.Reachable (fun s e => usable s e = true) s) (id : Bytes)
    (hlt : s.now < e) :
    (∃ x ∈ s.store, x.id = id ∧ x.expiresAt = e) ↔ due s.history id = some e := by
  have hinv := Inv.of_reachable h
  constructor
  · rintro ⟨x, hx, rfl, rfl⟩
    exact hinv.expires x hx
  · intro hdue
    obtain ⟨x, hx, rfl⟩ := List.mem_map.1 (hinv.found id e hdue hlt)
    exact ⟨x, hx, rfl, Option.some.inj ((hinv.expires x hx).symm.trans hdue)⟩

theorem store_refines_returning : ∃ s, sessions.Reachable (fun s e => usable s e = true) s ∧
    ∃ x ∈ s.store, x.id = firstId ∧ x.expiresAt = 3600 := by
  have hrun := sessions.run (p := fun s e => usable s e = true) (.start 0) (returning 3599)
    ⟨0, rfl⟩ rfl
  exact ⟨_, hrun, (store_refines hrun firstId (by decide)).2 rfl⟩

theorem start_right_in_time : ∃ s s', sessions.Reachable (fun s e => usable s e = true) s ∧
    sessions.step s (.start (some firstId) secondId) = some s' ∧ s.now = 3599 ∧
    s.faulted = false ∧ StartsRight s (some firstId) secondId s' := by
  have hstart : sessions.Reachable (fun s e => usable s e = true) (.start 0) := .init ⟨0, rfl⟩
  have hrun := hstart.exec (show sessions.exec _ _ (returning 3599) = some _ from rfl)
  obtain ⟨hsound, hiff⟩ := start_right_iff hrun
    (show sessions.step _ (.start (some firstId) secondId) = some _ from rfl)
  refine ⟨_, _, hrun, rfl, rfl, hsound, hiff.2 ?_⟩
  intro id x hid hfind
  cases hid
  cases hfind
  decide

/-- An hour later the session is still resumed; a sweep frees the session of a running request. -/
theorem start_resumes_lapsed : (∃ s s', sessions.Reachable (fun s e => usable s e = true) s ∧
      sessions.step s (.start (some firstId) secondId) = some s' ∧ s.now = 3600 ∧
      ¬ Resumable s firstId ∧ s'.session.map Session.id = some firstId ∧
      ¬ StartsRight s (some firstId) secondId s') ∧
    ∃ s, sessions.Reachable (fun _ _ => True) s ∧ s.faulted = true := by
  constructor
  · have hstart : sessions.Reachable (fun s e => usable s e = true) (.start 0) := .init ⟨0, rfl⟩
    have hrun := hstart.exec (show sessions.exec _ _ (returning 3600) = some _ from rfl)
    refine ⟨_, _, hrun, rfl, rfl, ?_, rfl, ?_⟩
    · intro hres
      obtain ⟨-, -, t, hlast, hlt⟩ := hres
      cases hlast
      exact absurd hlt (by decide)
    · intro hright
      obtain ⟨-, x, -, hstore, -⟩ := hright.2 (by
        intro id hid hres
        cases hid
        obtain ⟨-, -, t, hlast, hlt⟩ := hres
        cases hlast
        exact absurd hlt (by decide))
      have hlength := congrArg List.length hstore
      rw [length_cons] at hlength
      exact absurd hlength (by decide)
  · have hstart : sessions.Reachable (fun _ _ => True) (.start 0) := .init ⟨0, rfl⟩
    have hrun := hstart.exec (show sessions.exec _ _ [.start none firstId, .advance 3600, .init,
      .set (ascii "cart") (some 0) true] = some _ from rfl)
    exact ⟨_, hrun, rfl⟩

end Csilk.Sessions
