import Csilk.Bytes
import Mathlib.Data.List.Nodup

namespace Csilk.WebSocket.Rooms
open Function List

/-- Snapshots are numbered in the order of their allocation, contexts are numbers. -/
structure Room where
  roomName : Bytes
  snapshot : Nat
deriving DecidableEq

/-- The manager and the snapshots: `clients` has the members of each. -/
structure Table where
  rooms : List Room
  clients : Nat → List Nat
  allocated : Nat
  freed : List Nat

def Table.empty : Table := ⟨[], fun _ => [], 0, []⟩

def findRoom (rooms : List Room) (name : Bytes) : Option Room :=
  rooms.find? fun r => r.roomName = name

def storeSnapshot (name : Bytes) (snap : Nat) : List Room → List Room
  | [] => []
  | r :: rooms =>
    if r.roomName = name then { r with snapshot := snap } :: rooms
    else r :: storeSnapshot name snap rooms

def Table.alloc (T : Table) (clients : List Nat) : Table :=
  { T with clients := update T.clients T.allocated clients, allocated := T.allocated + 1 }

def Table.replace (T : Table) (name : Bytes) (old : Nat) (clients : List Nat) : Table :=
  { T.alloc clients with
    rooms := storeSnapshot name T.allocated T.rooms
    freed := old :: T.freed }

def Table.room (T : Table) (name : Bytes) : Room × Table :=
  match findRoom T.rooms name with
  | some room => (room, T)
  | none => (⟨name, T.allocated⟩, { T.alloc [] with rooms := T.rooms ++ [⟨name, T.allocated⟩] })

def Table.join (T : Table) (c : Nat) (name : Bytes) : Table :=
  let (room, T) := T.room name
  if c ∈ T.clients room.snapshot then T
  else T.replace name room.snapshot (T.clients room.snapshot ++ [c])

def Table.leave (T : Table) (c : Nat) (name : Bytes) : Table :=
  match findRoom T.rooms name with
  | none => T
  | some room =>
    if c ∈ T.clients room.snapshot then
      T.replace name room.snapshot ((T.clients room.snapshot).erase c)
    else T

def Table.members (T : Table) (name : Bytes) : List Nat :=
  match findRoom T.rooms name with
  | none => []
  | some room => T.clients room.snapshot

/-- A name has one room, a room has a snapshot of its own that is not freed, and its members satisfy
`P`. -/
structure Table.Wf (P : Bytes → List Nat → Prop) (T : Table) : Prop where
  names : (T.rooms.map Room.roomName).Nodup
  own : (T.rooms.map Room.snapshot ++ T.freed).Nodup
  bound : ∀ snap ∈ T.rooms.map Room.snapshot ++ T.freed, snap < T.allocated
  ok : ∀ r ∈ T.rooms, P r.roomName (T.clients r.snapshot)

theorem Table.Wf.empty : Table.empty.Wf P where
  names := nodup_nil
  own := nodup_nil
  bound _ h := by cases h
  ok _ h := by cases h

theorem findRoom_iff {rooms : List Room} : findRoom rooms name = some r ↔
    r.roomName = name ∧ ∃ l₁ l₂, rooms = l₁ ++ r :: l₂ ∧ ∀ x ∈ l₁, x.roomName ≠ name := by
  simp [findRoom, find?_eq_some_iff_append]

theorem findRoom_none {rooms : List Room} :
    findRoom rooms name = none ↔ ∀ r ∈ rooms, r.roomName ≠ name := by
  simp [findRoom]

theorem findRoom_mem {rooms : List Room} (h : findRoom rooms name = some r) : r ∈ rooms ∧ r.roomName = name := by
  obtain ⟨hname, l₁, l₂, rfl, -⟩ := findRoom_iff.1 h
  exact ⟨mem_append_right _ mem_cons_self, hname⟩

theorem storeSnapshot_split {l₁ : List Room} (hl : ∀ x ∈ l₁, x.roomName ≠ r.roomName) :
    storeSnapshot r.roomName snap (l₁ ++ r :: l₂) = l₁ ++ ⟨r.roomName, snap⟩ :: l₂ := by
  induction l₁ with
  | nil => exact if_pos rfl
  | cons x l₁ ih =>
    obtain ⟨hx, hl⟩ := forall_mem_cons.1 hl
    rw [cons_append, storeSnapshot, if_neg hx, ih hl, cons_append]

section Wf

variable {T : Table} (h : T.Wf P)
include h

theorem Table.Wf.live (hr : r ∈ T.rooms) : r.snapshot ∉ T.freed := by
  intro hfreed
  exact (nodup_append.1 h.own).2.2 _ (List.mem_map_of_mem hr) _ hfreed rfl

theorem Table.Wf.find (hr : r ∈ T.rooms) : findRoom T.rooms r.roomName = some r := by
  cases hfind : findRoom T.rooms r.roomName with
  | none => exact absurd rfl (findRoom_none.1 hfind r hr)
  | some r' =>
    obtain ⟨hr', hname⟩ := findRoom_mem hfind
    rw [inj_on_of_nodup_map h.names hr' hr hname]

theorem Table.Wf.fresh {rooms : List Room} {freed : List Nat} (name : Bytes)
    (hnames : (rooms.map Room.roomName).Nodup)
    (hperm : rooms.map Room.snapshot ++ freed ~ T.allocated :: (T.rooms.map Room.snapshot ++ T.freed))
    (hrooms : ∀ r ∈ rooms, r = ⟨name, T.allocated⟩ ∨ r ∈ T.rooms ∧ r.roomName ≠ name)
    (hother : ∀ n ≠ name, ∀ l, P n l → P' n l) (hnew : P' name new) :
    Table.Wf P' { T.alloc new with rooms := rooms, freed := freed } := by
  refine ⟨hnames, ?_, ?_, ?_⟩
  · rw [hperm.nodup_iff, nodup_cons]
    exact ⟨fun hmem => Nat.lt_irrefl _ (h.bound _ hmem), h.own⟩
  · intro snap hsnap
    rcases mem_cons.1 (hperm.mem_iff.1 hsnap) with rfl | hsnap
    · exact Nat.lt_succ_self _
    · exact Nat.lt_succ_of_lt (h.bound snap hsnap)
  · intro r hr
    show P' _ (update T.clients T.allocated new r.snapshot)
    rcases hrooms r hr with rfl | ⟨hr, hne⟩
    · rwa [update_self]
    · have hlt := h.bound _ (mem_append_left _ (List.mem_map_of_mem hr))
      rw [update_of_ne (Nat.ne_of_lt hlt)]
      exact hother _ hne _ (h.ok r hr)

theorem Table.Wf.edit [Decidable q] (hfind : findRoom T.rooms name = some r)
    (hother : ∀ n ≠ name, ∀ l, P n l → P' n l) (hkeep : q → P' name (T.clients r.snapshot))
    (hnew : ¬q → P' name new) :
    (if q then T else T.replace name r.snapshot new).Wf P' ∧ ∀ x ∈ T.rooms, (x.roomName = name → q) →
      x ∈ (if q then T else T.replace name r.snapshot new).rooms := by
  obtain ⟨rfl, l₁, l₂, hrooms, hl⟩ := findRoom_iff.1 hfind
  split
  case isTrue hq =>
    refine ⟨⟨h.names, h.own, h.bound, fun x hx => ?_⟩, fun x hx _ => hx⟩
    by_cases hx' : x.roomName = r.roomName
    · have hsame := h.find hx
      rw [hx', hfind] at hsame
      cases hsame
      exact hkeep hq
    · exact hother _ hx' _ (h.ok x hx)
  case isFalse hq =>
    have hnames := h.names
    have hstore : storeSnapshot r.roomName T.allocated T.rooms = l₁ ++ ⟨r.roomName, T.allocated⟩ :: l₂ := by
      rw [hrooms]
      exact storeSnapshot_split hl
    have hbehind : ∀ x ∈ l₂, x.roomName ≠ r.roomName := by
      intro x hx heq
      rw [hrooms, map_append, map_cons] at hnames
      exact (nodup_cons.1 hnames.of_append_right).1 (heq ▸ List.mem_map_of_mem hx)
    constructor
    · apply h.fresh r.roomName _ _ _ hother (hnew hq)
      · rw [hstore]
        rw [hrooms] at hnames
        simpa using hnames
      · rw [hstore, hrooms]
        simp only [map_append, map_cons, append_assoc, cons_append]
        exact perm_middle.trans (.cons _ (.append_left _ perm_middle))
      · intro x hx
        rw [hstore] at hx
        rw [hrooms]
        rcases mem_append.1 hx with hx | hx
        · exact .inr ⟨mem_append_left _ hx, hl x hx⟩
        · apply (mem_cons.1 hx).imp_right
          intro hx
          exact ⟨mem_append_right _ (mem_cons_of_mem _ hx), hbehind x hx⟩
    · intro x hx hne
      rw [hrooms] at hx
      rw [Table.replace, hstore]
      rcases mem_append.1 hx with hx | hx
      · exact mem_append_left _ hx
      · rcases mem_cons.1 hx with rfl | hx
        · exact absurd (hne rfl) hq
        · exact mem_append_right _ (mem_cons_of_mem _ hx)

theorem Table.Wf.room (hnil : P name []) : (T.room name).2.Wf P ∧
    findRoom (T.room name).2.rooms name = some (T.room name).1 ∧
    (T.room name).2.clients (T.room name).1.snapshot = T.members name ∧
    ∀ r ∈ T.rooms, r ∈ (T.room name).2.rooms := by
  rw [Table.room, Table.members]
  cases hfind : findRoom T.rooms name with
  | some r => exact ⟨h, hfind, rfl, fun _ hr => hr⟩
  | none =>
    have hne := findRoom_none.1 hfind
    refine ⟨h.fresh name ?_ ?_ ?_ (fun _ _ _ hl => hl) hnil, ?_, update_self .., fun r hr => ?_⟩
    · rw [map_append]
      refine h.names.append (nodup_singleton _) fun n hn hn' => ?_
      obtain ⟨r, hr, rfl⟩ := List.mem_map.1 hn
      exact hne r hr (mem_singleton.1 hn')
    · simp only [map_append, append_assoc]
      exact perm_middle
    · intro r hr
      rcases mem_append.1 hr with hr | hr
      · exact .inr ⟨hr, hne r hr⟩
      · exact .inl (mem_singleton.1 hr)
    · exact findRoom_iff.2 ⟨rfl, T.rooms, [], rfl, hne⟩
    · exact mem_append_left _ hr

theorem Table.Wf.join (hnil : P name []) (hother : ∀ n ≠ name, ∀ l, P n l → P' n l)
    (hkeep : ∀ l, c ∈ l → P name l → P' name l) (hnew : ∀ l, c ∉ l → P name l → P' name (l ++ [c])) :
    (T.join c name).Wf P' ∧ ∀ x ∈ T.rooms, (x.roomName = name → c ∈ T.members name) →
      x ∈ (T.join c name).rooms := by
  obtain ⟨hwf, hfind, hmembers, hkept⟩ := h.room hnil
  obtain ⟨hr, hname⟩ := findRoom_mem hfind
  have hok := hname ▸ hwf.ok _ hr
  rw [← hmembers]
  obtain ⟨hedit, hmem⟩ := hwf.edit hfind hother (fun hc => hkeep _ hc hok) (fun hc => hnew _ hc hok)
  exact ⟨hedit, fun x hx => hmem x (hkept x hx)⟩

theorem Table.Wf.leave (hother : ∀ n ≠ name, ∀ l, P n l → P' n l)
    (hkeep : ∀ l, c ∉ l → P name l → P' name l) (hnew : ∀ l, P name l → P' name (l.erase c)) :
    (T.leave c name).Wf P' ∧ ∀ x ∈ T.rooms, (x.roomName = name → c ∉ T.members name) →
      x ∈ (T.leave c name).rooms := by
  rw [Table.leave, Table.members]
  cases hfind : findRoom T.rooms name with
  | none =>
    have hne := findRoom_none.1 hfind
    exact ⟨⟨h.names, h.own, h.bound, fun r hr => hother _ (hne r hr) _ (h.ok r hr)⟩, fun _ hx _ => hx⟩
  | some r =>
    obtain ⟨hr, hname⟩ := findRoom_mem hfind
    have hok := hname ▸ h.ok _ hr
    simp only [← ite_not (p := c ∈ _)]
    exact h.edit hfind hother (fun hc => hkeep _ hc hok) fun _ => hnew _ hok

end Wf

end Csilk.WebSocket.Rooms
