import Csilk.Cache.Mvcc

namespace Csilk.Cache
open Csilk.Lib Function
open List hiding head tail iter after

/-- A chain of bucket `b`: at most one node per key, and only keys of the bucket. -/
structure ChainOk (c : Config) (heap : Heap Node) (b : Nat) (p : Option Nat) : Prop where
  valid : heap.Valid p
  nodup : ((heap.vals p).map Node.key).Nodup
  bucket : ∀ node ∈ heap.vals p, c.bucketOf node.key = b

def Write.Ok (w : Write) : Prop := ∀ node, w.node = some node → node.key = w.key

def Write.replace (w : Write) (nodes : List Node) : List Node :=
  w.node.toList ++ nodes.filter (·.key ≠ w.key)

def Job.Ok : Job → Prop
  | .get _ _ => True
  | .write w => w.Ok

theorem ChainOk.bucket_eq (h : ChainOk c heap b p) (h' : ChainOk c heap b' p')
    (hn : n ∈ heap.addrs p) (hn' : n ∈ heap.addrs p') : b = b' := by
  obtain ⟨⟨n, node⟩, hmem, rfl⟩ := mem_map.1 hn
  obtain ⟨⟨n', node'⟩, hmem', heq⟩ := mem_map.1 hn'
  cases heq
  obtain ⟨cell, hc, rfl⟩ := heap.cell_of_mem_path h.valid hmem
  obtain ⟨cell', hc', rfl⟩ := heap.cell_of_mem_path h'.valid hmem'
  rw [hc] at hc'
  cases hc'
  rw [← h.bucket cell.val (mem_map_of_mem (f := Prod.snd) hmem),
    ← h'.bucket cell.val (mem_map_of_mem (f := Prod.snd) hmem')]

/-- A chain about to replace the one at `head`, without what is retired. -/
structure CasOk (c : Config) (heap : Heap Node) (w : Write) (head : Option Nat) (new : List Node)
    (tail : Option Nat) (retire : Option (Nat × Bool)) : Prop where
  write : w.Ok
  chain : ChainOk c heap (c.bucketOf w.key) head
  tail_valid : heap.Valid tail
  content : new ++ heap.vals tail = w.replace (heap.vals head)
  unlink : match retire with
    | none => heap.addrs tail = heap.addrs head
    | some (n, false) => heap.addrs head = n :: heap.addrs tail
    | some (n, true) => head = some n ∧ tail = none
  present : w.node = none → ∃ node ∈ heap.vals head, node.key = w.key

def After.Ok (heap : Heap Node) : After → Prop
  | .ret _ | .released => True
  | .retry w => w.Ok
  | .retire n _ _ => n < heap.size

def PcOk (c : Config) (heap : Heap Node) : Pc → Prop
  | .idle | .setEpoch _ _ | .setAlloc _ _ _ | .deleteEpoch _ => True
  | .enterDepth job | .enterEpoch job | .enterActive job _ | .loadHead job => job.Ok
  | .walk job head cur => job.Ok ∧ ChainOk c heap (c.bucketOf job.key) (some head) ∧
    heap.Valid cur ∧ ∃ pre, heap.path (some head) = pre ++ heap.path cur ∧
      ∀ x ∈ pre, x.2.key ≠ job.key
  | .clone w head found iter copied => w.Ok ∧ ChainOk c heap (c.bucketOf w.key) (some head) ∧
    heap.Valid iter ∧ (∃ node, (found, node) ∈ heap.path (some head) ∧ node.key = w.key) ∧
    ∃ pre, heap.path (some head) = pre ++ heap.path iter ∧
      copied = (pre.filter (·.1 ≠ found)).map Prod.snd
  | .cas w head new tail retire => CasOk c heap w head new tail retire
  | .exitDepth after | .exitActive after => after.Ok heap
  | .retireNext n _ => n < heap.size
  | .retireLoad n _ rest | .retireCas n _ rest _ => n < heap.size ∧ heap.Valid rest
  | .retireCount _ rest | .reclaim _ rest _ => heap.Valid rest

structure View where
  heap : Heap Node
  buckets : Nat → Option Nat
  threads : Nat → Thread
  calls : Nat
  history : List (ClientEvent Op Res)
  effects : List (Done Op Res)

abbrev State.view (s : State) : View := ⟨s.heap, s.buckets, s.threads, s.calls, s.history, s.effects⟩

/-- Every bucket is a chain of its keys, and pointers are valid. -/
structure Wf (c : Config) (s : View) : Prop where
  bucket : ∀ b, ChainOk c s.heap b (s.buckets b)
  heads : ∀ t, ∀ h ∈ (s.threads t).heads, h < s.heap.size
  pc : ∀ t, PcOk c s.heap (s.threads t).pc

theorem ChainOk.extend (h : ChainOk c heap b p) (he : heap.Extends heap') :
    ChainOk c heap' b p := by
  refine ⟨he.valid h.valid, ?_, ?_⟩
  · rw [he.vals h.valid]
    exact h.nodup
  · rw [he.vals h.valid]
    exact h.bucket

theorem CasOk.extend (h : CasOk c heap w head new tail retire) (he : heap.Extends heap') :
    CasOk c heap' w head new tail retire := by
  refine ⟨h.write, h.chain.extend he, he.valid h.tail_valid, ?_, ?_, ?_⟩
  · rw [he.vals h.tail_valid, he.vals h.chain.valid]
    exact h.content
  · rw [he.addrs h.tail_valid, he.addrs h.chain.valid]
    exact h.unlink
  · rw [he.vals h.chain.valid]
    exact h.present

theorem After.Ok.extend (h : After.Ok heap after) (he : heap.Extends heap') :
    After.Ok heap' after := by
  cases after with
  | ret | released => trivial
  | retry w => exact h
  | retire n chain e => exact lt_of_lt_of_le h he.size

theorem PcOk.extend (h : PcOk c heap pc) (he : heap.Extends heap') : PcOk c heap' pc := by
  cases pc with
  | idle | setEpoch | setAlloc | deleteEpoch => trivial
  | enterDepth | enterEpoch | enterActive | loadHead => exact h
  | walk job head cur =>
    obtain ⟨hjob, hchain, hcur, hpre⟩ := h
    refine ⟨hjob, hchain.extend he, he.valid hcur, ?_⟩
    rwa [he.path hchain.valid, he.path hcur]
  | clone w head found iter copied =>
    obtain ⟨hw, hchain, hiter, hfound, hpre⟩ := h
    refine ⟨hw, hchain.extend he, he.valid hiter, ?_, ?_⟩
    · rwa [he.path hchain.valid]
    · rwa [he.path hchain.valid, he.path hiter]
  | cas w head new tail retire => exact CasOk.extend h he
  | exitDepth after | exitActive after => exact After.Ok.extend h he
  | retireNext n e => exact lt_of_lt_of_le h he.size
  | retireLoad n e rest | retireCas n e rest head =>
    exact ⟨lt_of_lt_of_le h.1 he.size, he.valid h.2⟩
  | retireCount e rest | reclaim e rest pc => exact he.valid h

theorem mvccCacheNew_wf (c : Config) : Wf c mvccCacheNew.view := by
  refine ⟨fun b => ⟨Heap.valid_none _, ?_, ?_⟩, ?_, fun t => trivial⟩
  · simp [mvccCacheNew]
  · intro node hnode
    simp [mvccCacheNew] at hnode
  · rintro _ _ ⟨⟩

theorem tryReclaim_view (s : State) (t epoch : Nat) (rest : Option Nat) (ok : Bool) (pc : ReclaimPc) :
    (tryReclaim s t epoch rest ok pc).view = (afterRetire s t epoch rest).view ∨
      ∃ pc', (tryReclaim s t epoch rest ok pc).view = (s.goto t (.reclaim epoch rest pc')).view := by
  cases pc with
  | tryLock =>
    rw [tryReclaim]
    split
    · exact .inl rfl
    · exact .inr ⟨_, rfl⟩
  | unlock => exact .inl rfl
  | sweep limit recs kept =>
    cases recs with
    | nil => exact .inr ⟨_, rfl⟩
    | cons rec recs =>
      rw [tryReclaim]
      split <;> exact .inr ⟨_, rfl⟩
  | scan current i low | pushBack kept head =>
    rw [tryReclaim]
    split <;> exact .inr ⟨_, rfl⟩
  | loadEpoch | detach limit | storeCount n => exact .inr ⟨_, rfl⟩

theorem Wf.withThread {s : View} (h : Wf c s) (hheads : ∀ i ∈ thread.heads, i < s.heap.size)
    (hpc : PcOk c s.heap thread.pc) :
    Wf c ⟨s.heap, s.buckets, update s.threads t thread, calls, history, effects⟩ := by
  refine ⟨h.bucket, ?_, ?_⟩
  · exact (forall_update_iff s.threads fun _ u => ∀ i ∈ u.heads, i < s.heap.size).2
      ⟨hheads, fun t' _ => h.heads t'⟩
  · exact (forall_update_iff s.threads fun _ u => PcOk c s.heap u.pc).2 ⟨hpc, fun t' _ => h.pc t'⟩

theorem Wf.withPc {s : View} {pc : Pc} (h : Wf c s) (hpc : PcOk c s.heap pc) :
    Wf c ⟨s.heap, s.buckets, update s.threads t { s.threads t with pc := pc }, calls, history, effects⟩ :=
  h.withThread (h.heads t) hpc

theorem Write.mem_replace {node : Node} (h : node ∈ Write.replace w nodes) :
    w.node = some node ∨ node ∈ nodes := by
  rcases mem_append.1 h with h | h
  · exact .inl (Option.mem_toList.1 h)
  · exact .inr (mem_filter.1 h).1

theorem Write.Ok.replace_nodup (h : Write.Ok w) (hl : (nodes.map Node.key).Nodup) :
    ((w.replace nodes).map Node.key).Nodup := by
  have hfilter : ((nodes.filter (·.key ≠ w.key)).map Node.key).Nodup :=
    hl.sublist (filter_sublist.map _)
  rw [Write.replace]
  cases hn : w.node with
  | none => exact hfilter
  | some node =>
    refine nodup_cons.2 ⟨fun hmem => ?_, hfilter⟩
    obtain ⟨node', hnode', hkey⟩ := mem_map.1 hmem
    have hne := of_decide_eq_true (mem_filter.1 hnode').2
    exact hne (hkey.trans (h node hn))

theorem find_filter_key (nodes : List Node) (key key' : Bytes) :
    (nodes.filter (·.key ≠ key')).find? (·.key = key) =
      if key = key' then none else nodes.find? (·.key = key) := by
  rw [find?_filter]
  split
  · rename_i hk
    simp [hk]
  · rename_i hk
    congr
    funext node
    by_cases hkey : node.key = key
    · simp [hkey, hk]
    · simp [hkey]

theorem Write.Ok.find_replace (h : Write.Ok w) (nodes : List Node) (key : Bytes) :
    (w.replace nodes).find? (·.key = key) =
      if key = w.key then w.node else nodes.find? (·.key = key) := by
  rw [Write.replace, find?_append, find_filter_key]
  cases hn : w.node with
  | none => rfl
  | some node =>
    by_cases hk : key = w.key
    · simp [h node hn, hk]
    · have hne : node.key ≠ key := fun he => hk (he.symm.trans (h node hn))
      simp [hne, hk]

theorem CasOk.published (h : CasOk c heap w head new tail retire)
    (ha : heap.Allocated new tail heap' p) : ChainOk c heap' (c.bucketOf w.key) p := by
  have hvals := ha.vals.trans h.content
  refine ⟨ha.valid, ?_, ?_⟩
  · rw [hvals]
    exact h.write.replace_nodup h.chain.nodup
  · intro node hnode
    rw [hvals] at hnode
    rcases Write.mem_replace hnode with hnode | hnode
    · rw [h.write node hnode]
    · exact h.chain.bucket node hnode

theorem Write.replace_of_absent (h : ∀ node ∈ nodes, node.key ≠ Write.key w) :
    w.replace nodes = w.node.toList ++ nodes := by
  rw [Write.replace, filter_eq_self.2 fun node hnode => by simpa using h node hnode]

theorem notFound_ok (hjob : Job.Ok job) (hchain : ChainOk c heap (c.bucketOf job.key) head)
    (habs : ∀ node ∈ heap.vals head, node.key ≠ job.key) : PcOk c heap (notFound head job) := by
  cases job with
  | get key bufLen => trivial
  | write w =>
    cases hn : w.node with
    | none =>
      simp only [notFound, hn]
      trivial
    | some node =>
      simp only [notFound, hn]
      refine ⟨hjob, hchain, hchain.valid, ?_, rfl, ?_⟩
      · rw [Write.replace_of_absent habs, hn]
        rfl
      · rw [hn]
        simp

theorem headCas_ok (hw : Write.Ok w) (hchain : ChainOk c heap (c.bucketOf w.key) (some n))
    (hc : heap.cells[n]? = some cell) (hkey : cell.val.key = w.key) :
    CasOk c heap w (some n) w.node.toList cell.next (some (n, false)) := by
  have hvals := heap.vals_some hc
  have hnodup := hchain.nodup
  rw [hvals] at hnodup
  refine ⟨hw, hchain, heap.valid_next hc, ?_, heap.addrs_some hc, fun _ => ⟨cell.val, ?_, hkey⟩⟩
  · rw [hvals, Write.replace, filter_cons_of_neg (by simpa using hkey)]
    congr 1
    refine (filter_eq_self.2 fun node hnode => ?_).symm
    have hne : node.key ≠ cell.val.key := fun he =>
      (nodup_cons.1 hnodup).1 (he ▸ mem_map_of_mem hnode)
    simpa [← hkey] using hne
  · rw [hvals]
    exact mem_cons_self

theorem foundAt_ok (hjob : Job.Ok (.write w))
    (hchain : ChainOk c heap (c.bucketOf w.key) (some head)) (hc : heap.cells[n]? = some cell)
    (hmem : (n, cell.val) ∈ heap.path (some head)) (hkey : cell.val.key = w.key) :
    PcOk c heap (if n = head then .cas w (some head) w.node.toList cell.next (some (head, false))
      else .clone w head n (some head) []) := by
  split
  · rename_i hn
    subst hn
    exact headCas_ok hjob hchain hc hkey
  · exact ⟨hjob, hchain, hchain.valid, ⟨_, hmem, hkey⟩, [], rfl, rfl⟩

theorem filter_found (hchain : ChainOk c heap b p) (hmem : (found, node) ∈ heap.path p)
    (hkey : node.key = key) :
    ((heap.path p).filter (·.1 ≠ found)).map Prod.snd = (heap.vals p).filter (·.key ≠ key) := by
  have hkeys : ((heap.path p).map fun x => x.2.key).Nodup := by
    have := hchain.nodup
    rwa [Heap.vals, map_map] at this
  rw [Heap.vals, filter_map]
  congr 1
  apply filter_congr
  intro x hx
  have hiff : x.1 = found ↔ x.2.key = key := by
    constructor
    · intro he
      rw [inj_on_of_nodup_map (heap.addrs_nodup hchain.valid) hx hmem he]
      exact hkey
    · intro he
      rw [inj_on_of_nodup_map hkeys hx hmem (he.trans hkey.symm)]
  simp [hiff]

theorem cloneEnd_ok (h : PcOk c heap (.clone w head found none copied)) :
    CasOk c heap w (some head) (w.node.toList ++ copied) none (some (head, true)) := by
  obtain ⟨hw, hchain, -, ⟨node, hmem, hkey⟩, pre, hpath, rfl⟩ := h
  rw [Heap.path_none, append_nil] at hpath
  refine ⟨hw, hchain, heap.valid_none, ?_, ⟨rfl, rfl⟩, fun _ => ⟨node, ?_, hkey⟩⟩
  · rw [Heap.vals_none, append_nil, Write.replace, ← hpath, filter_found hchain hmem hkey]
  · exact mem_map_of_mem (f := Prod.snd) hmem

theorem walk_wf {s : State} (h : Wf c s.view) (hpc : (s.threads t).pc = .walk job head cur)
    (hs : walk s t job head cur = some s') : Wf c s'.view := by
  have hok := h.pc t
  rw [hpc] at hok
  obtain ⟨hjob, hchain, hcur, pre, hpath, hpre⟩ := hok
  cases cur with
  | none =>
    cases hs
    apply h.withPc
    apply notFound_ok hjob hchain
    intro node hnode
    obtain ⟨x, hx, rfl⟩ := mem_map.1 hnode
    rw [hpath, Heap.path_none, append_nil] at hx
    exact hpre x hx
  | some n =>
    obtain ⟨cell, hc⟩ := s.heap.exists_cell hcur
    rw [s.heap.path_some hc] at hpath
    simp only [walk, hc, Option.some.injEq] at hs
    subst hs
    have hmem : (n, cell.val) ∈ s.heap.path (some head) := by
      rw [hpath]
      exact mem_append_right _ mem_cons_self
    by_cases hkey : cell.val.key = job.key
    · rw [if_pos hkey]
      cases job with
      | get key bufLen =>
        cases bufLen with
        | none =>
          have hview : Wf c (s.setThread t { s.threads t with views := n :: (s.threads t).views }).view :=
            h.withThread (h.heads t) (h.pc t)
          exact hview.withPc trivial
        | some bufLen => exact h.withPc trivial
      | write w => exact h.withPc (foundAt_ok hjob hchain hc hmem hkey)
    · rw [if_neg hkey]
      refine h.withPc ⟨hjob, hchain, s.heap.valid_next hc, pre ++ [(n, cell.val)], ?_, ?_⟩
      · rw [hpath, append_assoc]
        rfl
      · exact forall_mem_append.2 ⟨hpre, forall_mem_singleton.2 hkey⟩

theorem clone_wf {s : State} (h : Wf c s.view) (hpc : (s.threads t).pc = .clone w head found iter copied)
    (hs : clone s t w head found copied ok iter = some s') : Wf c s'.view := by
  have hok := h.pc t
  rw [hpc] at hok
  cases iter with
  | none =>
    cases hs
    exact h.withPc (cloneEnd_ok hok)
  | some n =>
    obtain ⟨hw, hchain, hiter, hfound, pre, hpath, hcopied⟩ := hok
    obtain ⟨cell, hc⟩ := s.heap.exists_cell hiter
    rw [s.heap.path_some hc] at hpath
    simp only [clone, hc, Option.some.injEq] at hs
    subst hs
    have hnext : s.heap.path (some head) = (pre ++ [(n, cell.val)]) ++ s.heap.path cell.next := by
      rw [hpath, append_assoc]
      rfl
    apply h.withPc
    split
    · rename_i hn
      refine ⟨hw, hchain, s.heap.valid_next hc, hfound, _, hnext, ?_⟩
      simp [hcopied, hn]
    · rename_i hn
      split
      · refine ⟨hw, hchain, s.heap.valid_next hc, hfound, _, hnext, ?_⟩
        simp [hcopied, hn]
      · trivial

theorem CasOk.retire_lt {whole : Bool} (h : CasOk c heap w head new tail (some (n, whole))) :
    n < heap.size := by
  have hunlink := h.unlink
  cases whole with
  | false =>
    apply heap.addrs_lt_size h.chain.valid
    rw [hunlink]
    exact mem_cons_self
  | true => exact h.chain.valid n hunlink.1

theorem cas_wf {s : State} (h : Wf c s.view) (hpc : (s.threads t).pc = .cas w head new tail retire) :
    Wf c (cas c s t w head new tail retire ok).view := by
  have hok := h.pc t
  rw [hpc] at hok
  have hcas : CasOk c s.heap w head new tail retire := hok
  unfold cas
  dsimp only
  split
  · obtain ⟨hext, hvalid, hpath⟩ := s.heap.allocAll_spec new hcas.tail_valid
    have hpub := hcas.published (s.heap.allocAll_spec new hcas.tail_valid)
    have hheap : Wf c { s.view with
        heap := (s.heap.allocAll new tail).1
        buckets := update s.buckets (c.bucketOf w.key) (s.heap.allocAll new tail).2 } := by
      refine ⟨?_, ?_, ?_⟩
      · exact (forall_update_iff s.buckets (ChainOk c _)).2 ⟨hpub, fun b _ => (h.bucket b).extend hext⟩
      · exact fun t i hi => lt_of_lt_of_le (h.heads t i hi) hext.size
      · exact fun t => (h.pc t).extend hext
    refine hheap.withPc ?_
    cases retire with
    | none => trivial
    | some r => exact lt_of_lt_of_le hcas.retire_lt hext.size
  · exact h.withPc hcas.write

def afterLoad (job : Job) : Option Nat → Pc
  | some h => .walk job h (some h)
  | none => notFound none job

structure Store where
  heap : Heap Node
  buckets : Nat → Option Nat
  globalEpoch : Nat
  slots : Nat → Slot
  retired : List (Nat × Nat)
  freed : List Nat

abbrev State.store (s : State) : Store :=
  ⟨s.heap, s.buckets, s.globalEpoch, s.slots, s.retired, s.freed⟩

theorem loadHead_store (c : Config) (s : State) (t : Nat) (job : Job) :
    (loadHead c s t job).store = s.store := by
  unfold loadHead
  split <;> rfl

theorem loadHead_threads (c : Config) (s : State) (t : Nat) (job : Job) :
    (loadHead c s t job).threads = update s.threads t { s.threads t with
      pc := afterLoad job (s.buckets (c.bucketOf job.key))
      heads := (s.buckets (c.bucketOf job.key)).toList ++ (s.threads t).heads } := by
  unfold loadHead afterLoad
  split <;> rfl

section

variable {s s' : State} (h : Wf c s.view)
include h

theorem loadHead_wf (hjob : job.Ok) : Wf c (loadHead c s t job).view := by
  have hchain : ChainOk c s.heap (c.bucketOf job.key) (s.buckets (c.bucketOf job.key)) := h.bucket _
  have hheap : (loadHead c s t job).heap = s.heap := congrArg Store.heap (loadHead_store c s t job)
  have hbuckets : (loadHead c s t job).buckets = s.buckets :=
    congrArg Store.buckets (loadHead_store c s t job)
  rw [State.view, hheap, hbuckets, loadHead_threads]
  refine h.withThread ?_ ?_
  · intro i hi
    rcases mem_append.1 hi with hi | hi
    · exact hchain.valid i (Option.mem_toList.1 hi)
    · exact h.heads t i hi
  · generalize s.buckets (c.bucketOf job.key) = head at hchain ⊢
    cases head with
    | none => exact notFound_ok hjob hchain fun node hnode => by simp at hnode
    | some i => exact ⟨hjob, hchain, hchain.valid, [], rfl, (by simp)⟩

theorem afterExit_wf (ha : after.Ok s.heap) : Wf c (afterExit s t after).view := by
  cases after with
  | ret res => exact h.withPc trivial
  | released => exact h.withPc trivial
  | retry w => exact h.withPc ha
  | retire n chain epoch =>
    cases chain with
    | false => exact h.withPc ⟨ha, s.heap.valid_none⟩
    | true => exact h.withPc ha

theorem afterRetire_wf (hrest : s.heap.Valid rest) :
    Wf c (afterRetire s t epoch rest).view := by
  cases rest with
  | none => exact h.withPc trivial
  | some n => exact h.withPc (hrest n rfl)

theorem tryReclaim_wf (hrest : s.heap.Valid rest) :
    Wf c (tryReclaim s t epoch rest ok pc).view := by
  rcases tryReclaim_view s t epoch rest ok pc with hs | ⟨pc', hs⟩
  · rw [hs]
    exact afterRetire_wf h hrest
  · rw [hs]
    exact h.withPc hrest

theorem threadStep_wf (hs : threadStep c s t ok = some s') : Wf c s'.view := by
  have hok := h.pc t
  unfold threadStep at hs
  generalize hpc : (s.threads t).pc = pc at hs hok
  cases pc with
  | idle => cases hs
  | setEpoch key val =>
    cases hs
    exact h.withPc trivial
  | setAlloc key val epoch =>
    cases hs
    split
    · refine h.withPc ?_
      rintro node ⟨⟩
      rfl
    · exact h.withPc trivial
  | deleteEpoch key =>
    cases hs
    exact h.withPc (by rintro _ ⟨⟩)
  | enterDepth job =>
    cases hs
    apply h.withPc
    split <;> exact hok
  | enterEpoch job | retireLoad n epoch rest =>
    cases hs
    exact h.withPc hok
  | enterActive job epoch =>
    cases hs
    exact h.withPc hok
  | loadHead job =>
    cases hs
    exact loadHead_wf h hok
  | walk job head cur =>
    exact walk_wf h hpc hs
  | clone w head found iter copied =>
    exact clone_wf h hpc hs
  | cas w head new tail retire =>
    cases hs
    exact cas_wf h hpc
  | exitDepth after =>
    cases hs
    split
    · exact h.withPc hok
    · exact afterExit_wf (s := s.setSlot _ _) h hok
  | exitActive after =>
    cases hs
    refine afterExit_wf ?_ ?_
    · refine h.withThread (by simp) ?_
      rw [hpc]
      exact hok
    · exact hok
  | retireNext n epoch =>
    obtain ⟨cell, hc⟩ := s.heap.exists_cell (i := n) fun i hi => by cases hi; exact hok
    simp only [hc, Option.some.injEq] at hs
    subst hs
    exact h.withPc ⟨hok, s.heap.valid_next hc⟩
  | retireCas n epoch rest head =>
    cases hs
    split
    · exact h.withPc hok.2
    · exact h.withPc hok
  | retireCount epoch rest =>
    cases hs
    split
    · exact h.withPc hok
    · exact afterRetire_wf (s := { s with retiredCount := s.retiredCount + 1 }) h hok
  | reclaim epoch rest pc =>
    cases hs
    exact tryReclaim_wf h hok

theorem begin_wf (hs : begin c s t op pc = some s') (hpc : PcOk c s.heap pc) :
    Wf c s'.view := by
  obtain ⟨-, rfl⟩ := of_enabled hs
  exact h.withThread (h.heads t) hpc

theorem step_wf (hs : step c s a = some s') : Wf c s'.view := by
  cases a with
  | set t key val | delete t key | getView t key | getCopy t key bufLen =>
    exact begin_wf h hs trivial
  | invalid t =>
    obtain ⟨s₁, hs₁, rfl⟩ := Option.map_eq_some_iff.1 hs
    exact (begin_wf h hs₁ trivial).withPc trivial
  | releaseView t n =>
    obtain ⟨-, rfl⟩ := of_enabled hs
    exact h.withThread (h.heads t) trivial
  | thread t ok => exact threadStep_wf h hs

end

end Csilk.Cache
