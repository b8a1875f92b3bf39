import Csilk.Bytes
import Csilk.Lib.BinarySearch

namespace Csilk.Routing
open Csilk.Lib

def slash : UInt8 := 47

def colon : UInt8 := 58

def star : UInt8 := 42

inductive NodeType where
  | static
  | param
  | wildcard
deriving DecidableEq, Repr

def NodeType.rank : NodeType → Nat
  | .static => 0
  | .param => 1
  | .wildcard => 2

abbrev Handler := Nat

structure MethodHandler where
  method : Bytes
  rawHandlers : List Handler
  handlers : List Handler
  path : Bytes
  inputType : Option Bytes
  outputType : Option Bytes
  summary : Option Bytes
  description : Option Bytes
  permRequired : Option Bytes
  permResource : Option Bytes
deriving DecidableEq, Repr

structure RouterNode where
  segment : Bytes
  type : NodeType
  handlers : List MethodHandler
  children : List RouterNode

structure Router where
  root : RouterNode
  globalMiddlewares : List Handler

/-- The arguments of `router_add_full`; `none` is a NULL pointer. -/
structure RouteArgs where
  method : Option Bytes
  path : Option Bytes
  handlers : Option (List Handler)
  pathPattern : Option Bytes
  inputType : Option Bytes
  outputType : Option Bytes
  summary : Option Bytes
  description : Option Bytes
  permRequired : Option Bytes
  permResource : Option Bytes

def nodeNew (segment : Bytes) (type : NodeType) : RouterNode := ⟨segment, type, [], []⟩

def csilkRouterNew : Router := ⟨nodeNew [] .static, []⟩

def strcmp : Bytes → Bytes → Ordering
  | [], [] => .eq
  | [], _ :: _ => .lt
  | _ :: _, [] => .gt
  | a :: as, b :: bs => if a < b then .lt else if b < a then .gt else strcmp as bs

def nodeCmpKey (type : NodeType) (segment : Bytes) (node : RouterNode) : Ordering :=
  if type ≠ node.type then
    if type.rank < node.type.rank then .lt else .gt
  else strcmp segment node.segment

def nodeFindChild (parent : RouterNode) (type : NodeType) (segment : Bytes) : Int × Int :=
  binarySearch (nodeCmpKey type segment) parent.children 0 ((parent.children.length : Int) - 1)

def nodeAddChild (parent child : RouterNode) (insertPos : Int) : Option RouterNode :=
  if insertPos < 0 ∨ parent.children.length < insertPos then none
  else some { parent with children := parent.children.insertIdx insertPos.toNat child }

def getNextSegment (p : Bytes) : Option Bytes × Bytes :=
  let start := p.dropWhile (· = slash)
  if start = [] then (none, start)
  else (some (start.takeWhile (· ≠ slash)), start.dropWhile (· ≠ slash))

theorem dropWhile_cons_not {q : α → Bool} {l : List α} (h : l.dropWhile q = b :: bs) : q b = false := by
  have hd := List.head?_dropWhile_not q l
  rwa [h] at hd

theorem getNextSegment_shrinks (h : getNextSegment p = (some seg, p')) : p'.length < p.length := by
  simp only [getNextSegment] at h
  split at h
  · cases h
  · rename_i hne
    cases h
    have hd := (List.dropWhile_suffix (· = slash) (l := p)).length_le
    cases hs : p.dropWhile (· = slash) with
    | nil => exact absurd hs hne
    | cons b bs =>
      have hb : b ≠ slash := by simpa using dropWhile_cons_not hs
      rw [hs] at hd
      have ht := (List.dropWhile_suffix (· ≠ slash) (l := bs)).length_le
      rw [List.dropWhile_cons_of_pos (by simpa using hb)]
      simp only [List.length_cons] at hd
      omega

def segmentKind (seg : Bytes) : NodeType × Bytes :=
  match seg with
  | b :: name => if b = colon then (.param, name) else if b = star then (.wildcard, name)
      else (.static, seg)
  | [] => (.static, seg)

def newHandler (r : Router) (a : RouteArgs) (method path : Bytes) (handlers : List Handler) :
    MethodHandler where
  method := method
  rawHandlers := handlers
  handlers := r.globalMiddlewares ++ handlers
  path := a.pathPattern.getD path
  inputType := a.inputType
  outputType := a.outputType
  summary := a.summary
  description := a.description
  permRequired := a.permRequired
  permResource := a.permResource

def addHandler (mh : MethodHandler) (curr : RouterNode) : Int × RouterNode :=
  if curr.handlers.any (·.method = mh.method) then (0, curr)
  else (0, { curr with handlers := mh :: curr.handlers })

def findOrAddChild (curr : RouterNode) (type : NodeType) (segName : Bytes) :
    Option (RouterNode × Nat) :=
  let (foundIdx, insertPos) := nodeFindChild curr type segName
  if 0 ≤ foundIdx then some (curr, foundIdx.toNat)
  else (nodeAddChild curr (nodeNew segName type) insertPos).map (·, insertPos.toNat)

/-- The segment loop of `router_add_full`, from the node reached so far. -/
def addSegments (mh : MethodHandler) (curr : RouterNode) (p : Bytes) : Int × RouterNode :=
  match _h : getNextSegment p with
  | (none, _) => addHandler mh curr
  | (some seg, p') =>
    let (type, segName) := segmentKind seg
    match findOrAddChild curr type segName with
    | none => (-1, curr)
    | some (curr', i) =>
      match curr'.children[i]? with
      | none => (-1, curr')
      | some found =>
        let (rc, found') :=
          if type = .wildcard then addHandler mh found else addSegments mh found p'
        (rc, { curr' with children := curr'.children.set i found' })
termination_by p.length
decreasing_by exact getNextSegment_shrinks _h

def routerAddFull (r : Router) (a : RouteArgs) : Int × Router :=
  match a.method, a.path, a.handlers with
  | some method, some path, some handlers =>
    let (rc, root) := addSegments (newHandler r a method path handlers) r.root path
    (rc, { r with root := root })
  | _, _, _ => (-1, r)

end Csilk.Routing
