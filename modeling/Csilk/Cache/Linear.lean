import Csilk.Cache.Chains

namespace Csilk.Cache
open Csilk.Lib Function Option
open List hiding head tail iter after lookup

/-- The cache as its callers may think of it: a map from keys to values. -/
def mapSpec : SeqSpec (Bytes → Option Bytes) Op Res where
  init := fun _ => none
  apply m
    | .set key val => (update m key (some val), .ok)
    | .delete key => if (m key).isSome then (update m key none, .ok) else (m, .fail)
    | .getView key => (m, (m key).elim .fail .view)
    | .getCopy key bufLen =>
      (m, (m key).elim .fail fun val => .copy (val.take bufLen) val.length)
    | .invalid => (m, .fail)

inductive Phase where
  | none
  | pending
  | done (res : Res)

def After.phase : After → Phase
  | .ret res => .done res
  | .released => .none
  | .retry _ => .pending
  | .retire _ _ _ => .done .ok

/-- What is found from `cur` on decides a get, or a delete of a missing key. -/
def Pc.phase (heap : Heap Node) : Pc → Phase
  | .idle => .none
  | .setEpoch _ _ | .setAlloc _ _ _ | .deleteEpoch _
  | .enterDepth _ | .enterEpoch _ | .enterActive _ _ | .loadHead _ => .pending
  | .walk job _ cur =>
    (headEffect ((heap.vals cur).find? (·.key = job.key)) job).elim .pending .done
  | .clone _ _ _ _ _ | .cas _ _ _ _ _ => .pending
  | .exitDepth after | .exitActive after => after.phase
  | .retireNext _ _ | .retireLoad _ _ _ | .retireCas _ _ _ _ | .retireCount _ _
  | .reclaim _ _ _ => .done .ok

def Job.Serves (op : Op) : Job → Prop
  | .get key none => op = .getView key
  | .get key (some bufLen) => op = .getCopy key bufLen
  | .write w => op = w.node.elim (.delete w.key) fun node => .set w.key node.val

def After.Serves (op : Op) : After → Prop
  | .retry w => (Job.write w).Serves op
  | _ => True

def Pc.Serves (op : Op) : Pc → Prop
  | .setEpoch key val | .setAlloc key val _ => op = .set key val
  | .deleteEpoch key => op = .delete key
  | .enterDepth job | .enterEpoch job | .enterActive job _ | .loadHead job | .walk job _ _ =>
    job.Serves op
  | .clone w _ _ _ _ | .cas w _ _ _ _ => (Job.write w).Serves op
  | .exitDepth after | .exitActive after => after.Serves op
  | _ => True

def View.InPhase (s : View) (num : Nat) (op : Op) : Phase → Prop
  | .none => True
  | .pending => .call num op ∈ s.history ∧ num ∉ s.effects.map Done.num
  | .done res => ⟨num, op, res⟩ ∈ s.effects

def View.lookup (c : Config) (s : View) (key : Bytes) : Option Node :=
  (s.heap.vals (s.buckets (c.bucketOf key))).find? (·.key = key)

/-- A call that is under way belongs to one thread, its owner. -/
structure Lin (c : Config) (s : View) : Prop where
  recorded : Recorded mapSpec s.calls s.history s.effects
  agrees : ∀ key, mapSpec.run s.effects key = (s.lookup c key).map Node.val
  phase : ∀ t, s.InPhase (s.threads t).num (s.threads t).op ((s.threads t).pc.phase s.heap)
  serves : ∀ t, (s.threads t).pc.Serves (s.threads t).op
  owned : ∃ owner : Nat → Nat, ∀ t, (s.threads t).pc.phase s.heap ≠ .none → owner (s.threads t).num = t

def Pc.allocates : Pc → Bool
  | .setAlloc _ _ _ | .clone _ _ _ _ _ => true
  | _ => false

def AllocOk (s : State) : Act → Prop
  | .thread t ok => (s.threads t).pc.allocates = true → ok = true
  | _ => True

instance (s : State) : (a : Act) → Decidable (AllocOk s a)
  | .thread t ok => inferInstanceAs (Decidable ((s.threads t).pc.allocates = true → ok = true))
  | .set _ _ _ | .delete _ _ | .getView _ _ | .getCopy _ _ _ | .invalid _ | .releaseView _ _ =>
    .isTrue trivial

theorem mvccCacheNew_lin (c : Config) : Lin c mvccCacheNew.view := by
  refine ⟨recorded_nil _, fun key => ?_, fun t => trivial, fun t => trivial, id, ?_⟩
  · simp [mapSpec, SeqSpec.run, View.lookup, mvccCacheNew]
  · exact fun t h => absurd rfl h

section

variable {s s' : View}

theorem View.InPhase.mono (h : s.InPhase num op phase)
    (hhist : s.history ⊆ s'.history) (heff : s.effects ⊆ s'.effects)
    (hnew : ∀ d ∈ s'.effects, d ∈ s.effects ∨ d.num ≠ num) : s'.InPhase num op phase := by
  cases phase with
  | none => trivial
  | pending =>
    refine ⟨hhist h.1, fun hmem => ?_⟩
    obtain ⟨d, hd, hnum⟩ := mem_map.1 hmem
    rcases hnew d hd with hd | hne
    · exact h.2 (mem_map.2 ⟨d, hd, hnum⟩)
    · exact hne hnum
  | done res => exact heff h

theorem View.InPhase.num_lt (h : s.InPhase num op phase) (hne : phase ≠ .none)
    (hrec : Recorded mapSpec s.calls s.history s.effects) : num < s.calls := by
  cases phase with
  | none => exact absurd rfl hne
  | pending => exact hrec.fresh num op h.1
  | done res => exact hrec.fresh num op (hrec.linearization.called _ h)

variable {thread : Thread} (h : Lin c s)
include h

theorem Lin.move (hothers : ∀ t' ≠ t, (s.threads t').pc.phase heap = (s.threads t').pc.phase s.heap)
    (hrec : Recorded mapSpec calls history effects)
    (hagrees : ∀ key, mapSpec.run effects key =
      ((heap.vals (buckets (c.bucketOf key))).find? (·.key = key)).map Node.val)
    (hhist : s.history ⊆ history) (heff : s.effects ⊆ effects)
    (hnew : ∀ t' ≠ t, (s.threads t').pc.phase s.heap ≠ .none →
      ∀ d ∈ effects, d ∈ s.effects ∨ d.num ≠ (s.threads t').num)
    (hphase : View.InPhase ⟨heap, buckets, update s.threads t thread, calls, history, effects⟩
      thread.num thread.op (thread.pc.phase heap))
    (hserves : thread.pc.Serves thread.op)
    (howned : ∃ owner : Nat → Nat, (thread.pc.phase heap ≠ .none → owner thread.num = t) ∧
      ∀ t', (s.threads t').pc.phase s.heap ≠ .none → owner (s.threads t').num = t') :
    Lin c ⟨heap, buckets, update s.threads t thread, calls, history, effects⟩ := by
  refine ⟨hrec, hagrees, ?_, ?_, ?_⟩
  · refine (forall_update_iff s.threads fun _ u =>
      View.InPhase _ u.num u.op (u.pc.phase heap)).2 ⟨hphase, fun t' ht => ?_⟩
    rw [hothers t' ht]
    by_cases hn : (s.threads t').pc.phase s.heap = .none
    · rw [hn]
      trivial
    · exact (h.phase t').mono hhist heff (hnew t' ht hn)
  · exact (forall_update_iff s.threads fun _ u => u.pc.Serves u.op).2
      ⟨hserves, fun t' _ => h.serves t'⟩
  · obtain ⟨owner, hself, hother⟩ := howned
    refine ⟨owner, (forall_update_iff s.threads fun t' u =>
      u.pc.phase heap ≠ .none → owner u.num = t').2 ⟨hself, fun t' ht hn => hother t' ?_⟩⟩
    rwa [hothers t' ht] at hn

theorem Lin.setThread (hnum : thread.num = (s.threads t).num) (hop : thread.op = (s.threads t).op)
    (hphase : thread.pc.phase s.heap = (s.threads t).pc.phase s.heap)
    (hserves : thread.pc.Serves (s.threads t).op) :
    Lin c { s with threads := update s.threads t thread } := by
  obtain ⟨owner, howner⟩ := h.owned
  refine h.move (fun _ _ => rfl) h.recorded h.agrees (List.Subset.refl _) (List.Subset.refl _)
    (fun _ _ _ d hd => .inl hd) ?_ (hop ▸ hserves) ⟨owner, ?_, howner⟩
  · rw [hnum, hop]
    exact hphase ▸ h.phase t
  · rw [hnum, hphase]
    exact howner t

theorem Lin.commit (hothers : ∀ t' ≠ t, (s.threads t').pc.phase heap = (s.threads t').pc.phase s.heap)
    (hnum : thread.num = (s.threads t).num) (hop : thread.op = (s.threads t).op)
    (hpending : (s.threads t).pc.phase s.heap = .pending)
    (hdone : thread.pc.phase heap = .done res) (hserves : thread.pc.Serves (s.threads t).op)
    (hres : (mapSpec.apply (mapSpec.run s.effects) (s.threads t).op).2 = res)
    (hagrees : ∀ key, (mapSpec.apply (mapSpec.run s.effects) (s.threads t).op).1 key =
      ((heap.vals (buckets (c.bucketOf key))).find? (·.key = key)).map Node.val) :
    Lin c { s with
      heap := heap
      buckets := buckets
      threads := update s.threads t thread
      effects := s.effects ++ [⟨(s.threads t).num, (s.threads t).op, res⟩] } := by
  have hphase := h.phase t
  rw [hpending] at hphase
  obtain ⟨hcall, hnot⟩ := hphase
  obtain ⟨owner, howner⟩ := h.owned
  have ht : owner (s.threads t).num = t := howner t (by rw [hpending]; simp)
  refine h.move hothers (h.recorded.commit hcall hnot hres) ?_ (List.Subset.refl _)
    (subset_append_left _ _) ?_ ?_ (hop ▸ hserves) ⟨owner, fun _ => hnum ▸ ht, howner⟩
  · rw [SeqSpec.run_concat]
    exact hagrees
  · intro t' hne hp d hd
    rcases mem_append.1 hd with hd | hd
    · exact .inl hd
    · cases mem_singleton.1 hd
      refine .inr fun heq => hne ?_
      rw [← howner t' hp, ← heq, ht]
  · rw [hdone, hnum, hop]
    exact mem_append_right _ mem_cons_self

theorem Lin.withPc {pc : Pc} (hphase : pc.phase s.heap = (s.threads t).pc.phase s.heap)
    (hserves : pc.Serves (s.threads t).op) :
    Lin c { s with threads := update s.threads t { s.threads t with pc := pc } } :=
  h.setThread rfl rfl hphase hserves

end

theorem headEffect_spec (hserves : Job.Serves op job)
    (hagrees : m job.key = found.map Node.val) (he : headEffect found job = some res) :
    mapSpec.apply m op = (m, res) := by
  cases job with
  | get key bufLen =>
    cases he
    change m key = found.map Node.val at hagrees
    cases bufLen with
    | none | some bufLen =>
      cases hserves
      simp only [mapSpec, hagrees]
      cases found <;> rfl
  | write w =>
    obtain ⟨⟨hn, rfl⟩, rfl⟩ := of_enabled he
    simp only [Job.Serves, hn] at hserves
    subst hserves
    change m w.key = none at hagrees
    simp [mapSpec, hagrees]

theorem notFound_phase (heap : Heap Node) (head : Option Nat) (job : Job) :
    (notFound head job).phase heap = (headEffect none job).elim .pending .done := by
  cases job with
  | get key bufLen => rfl
  | write w => cases hn : w.node <;> simp [notFound, headEffect, hn, Pc.phase, After.phase]

theorem notFound_serves (h : Job.Serves op job) : (notFound head job).Serves op := by
  cases job with
  | get key bufLen => trivial
  | write w =>
    cases hn : w.node with
    | none =>
      simp only [notFound, hn]
      trivial
    | some node =>
      simp only [notFound, hn]
      exact h

theorem lookup_published {s : State} (hcas : CasOk c s.heap w head new tail retire)
    (hb : s.buckets (c.bucketOf w.key) = head) (hv : ∀ b, s.heap.Valid (s.buckets b))
    (key : Bytes) :
    (((s.heap.allocAll new tail).1.vals
      (update s.buckets (c.bucketOf w.key) (s.heap.allocAll new tail).2 (c.bucketOf key))).find?
        (·.key = key)) = if key = w.key then w.node else s.view.lookup c key := by
  have ha := s.heap.allocAll_spec new hcas.tail_valid
  have hvals := ha.vals.trans hcas.content
  simp only [View.lookup]
  by_cases hk : c.bucketOf key = c.bucketOf w.key
  · rw [hk, update_self, hvals, hcas.write.find_replace, hb]
  · have hne : key ≠ w.key := fun he => hk (he ▸ rfl)
    rw [update_of_ne hk, if_neg hne, ha.extend.vals (hv _)]

theorem write_spec (hserves : Job.Serves op (.write w)) (hpresent : w.node = none → (m w.key).isSome) :
    mapSpec.apply m op = (update m w.key (w.node.map Node.val), .ok) := by
  cases hn : w.node with
  | none =>
    simp only [Job.Serves, hn] at hserves
    subst hserves
    simp [mapSpec, hpresent hn]
  | some node =>
    simp only [Job.Serves, hn] at hserves
    subst hserves
    rfl

/-- Chains do not change, so neither do the results they lead to. -/
theorem Pc.phase_extend (hok : PcOk c heap pc) (he : heap.Extends heap') :
    pc.phase heap' = pc.phase heap := by
  cases pc with
  | walk job head cur => rw [Pc.phase, Pc.phase, he.vals hok.2.2.1]
  | _ => rfl

section

variable {s s' : State} (h : Lin c s.view)
include h

theorem Lin.ret (hdone : (s.threads t).pc.phase s.heap = .done res) : Lin c (s.ret t res).view := by
  have hphase := h.phase t
  rw [hdone] at hphase
  obtain ⟨owner, howner⟩ := h.owned
  exact h.move (fun _ _ => rfl) (h.recorded.ret hphase) h.agrees (subset_append_left _ _)
    (List.Subset.refl _) (fun _ _ _ d hd => .inl hd) trivial trivial
    ⟨owner, fun hn => absurd rfl hn, howner⟩

theorem Lin.calls_fresh : s.calls ∉ s.effects.map Done.num := by
  intro hmem
  obtain ⟨d, hd, hnum⟩ := mem_map.1 hmem
  have hlt := h.recorded.fresh d.num d.op (h.recorded.linearization.called d hd)
  exact lt_irrefl _ (hnum ▸ hlt)

theorem Lin.call (hpc : pc.phase s.heap = .pending) (hserves : pc.Serves op) :
    Lin c (s.call t op pc).view := by
  obtain ⟨owner, howner⟩ := h.owned
  refine h.move (fun _ _ => rfl) (h.recorded.call op) h.agrees (subset_append_left _ _)
    (List.Subset.refl _) (fun _ _ _ d hd => .inl hd) ?_ hserves
    ⟨update owner s.calls t, fun _ => update_self _ _ _, fun t' hp => ?_⟩
  · change View.InPhase _ _ _ (pc.phase s.heap)
    rw [hpc]
    exact ⟨mem_append_right _ mem_cons_self, h.calls_fresh⟩
  · rw [update_of_ne (ne_of_lt ((h.phase t').num_lt hp h.recorded))]
    exact howner t' hp

theorem Lin.invalid : Lin c (((s.call t .invalid .idle).commit t .fail).ret t .fail).view := by
  have hcall := h.recorded.call Op.invalid
  have hrec := (hcall.commit (mem_append_right _ mem_cons_self) h.calls_fresh rfl).ret
    (mem_append_right _ mem_cons_self)
  have hs' : (((s.call t .invalid .idle).commit t .fail).ret t .fail).view =
      { (s.call t .invalid .idle).view with
        effects := s.effects ++ [⟨s.calls, .invalid, .fail⟩]
        history := s.history ++ [.call s.calls .invalid] ++ [.ret s.calls .fail] } := by
    simp [State.ret, State.commit, State.goto, State.setThread, State.call]
  obtain ⟨owner, howner⟩ := h.owned
  rw [hs']
  refine h.move (fun _ _ => rfl) hrec ?_ ?_ (subset_append_left _ _) ?_ trivial trivial
    ⟨owner, fun hn => absurd rfl hn, howner⟩
  · rw [SeqSpec.run_concat]
    exact h.agrees
  · exact fun e he => mem_append_left _ (mem_append_left _ he)
  · intro t' _ hp d hd
    rcases mem_append.1 hd with hd | hd
    · exact .inl hd
    · cases mem_singleton.1 hd
      exact .inr (ne_of_gt ((h.phase t').num_lt hp h.recorded))

theorem loadHead_lin (hpc : (s.threads t).pc = .loadHead job) : Lin c (loadHead c s t job).view := by
  have hserves := h.serves t
  rw [hpc] at hserves
  have hpending : (s.threads t).pc.phase s.heap = .pending := by rw [hpc]; rfl
  -- In either case the thread goes on to where the rest of the chain decides as the whole does.
  have hphase : Pc.phase s.heap (afterLoad job (s.buckets (c.bucketOf job.key))) =
      (headEffect (s.lookup c job.key) job).elim .pending .done := by
    rw [State.lookup]
    cases hb : s.buckets (c.bucketOf job.key) with
    | none => simpa [afterLoad] using notFound_phase s.heap none job
    | some n => rfl
  have hserves' : Pc.Serves (s.threads t).op (afterLoad job (s.buckets (c.bucketOf job.key))) := by
    cases hb : s.buckets (c.bucketOf job.key) with
    | none => exact notFound_serves hserves
    | some n => exact hserves
  unfold loadHead
  cases he : headEffect (s.lookup c job.key) job with
  | none =>
    rw [he] at hphase
    exact h.setThread rfl rfl (hphase.trans hpending.symm) hserves'
  | some res =>
    rw [he] at hphase
    have hspec := headEffect_spec hserves (h.agrees job.key) he
    refine h.commit (fun _ _ => rfl) rfl rfl hpending hphase hserves' ?_ ?_
    · rw [hspec]
    · rw [hspec]
      exact h.agrees

theorem walk_lin (hpc : (s.threads t).pc = .walk job head cur)
    (hs : walk s t job head cur = some s') : Lin c s'.view := by
  have hserves := h.serves t
  rw [hpc] at hserves
  cases cur with
  | none =>
    cases hs
    apply h.withPc
    · rw [hpc, notFound_phase, Pc.phase, Heap.vals_none]
      rfl
    · exact notFound_serves hserves
  | some n =>
    cases hc : s.heap.cells[n]? with
    | none => simp [walk, hc] at hs
    | some cell =>
      simp only [walk, hc, Option.some.injEq] at hs
      subst hs
      have hvals := s.heap.vals_some hc
      by_cases hkey : cell.val.key = job.key
      · rw [if_pos hkey]
        have hphase : (s.threads t).pc.phase s.heap =
            (headEffect (some cell.val) job).elim .pending .done := by
          rw [hpc, Pc.phase, hvals, find?_cons_of_pos (by simpa using hkey)]
        cases job with
        | get key bufLen =>
          cases bufLen with
          | none =>
            have hview : Lin c (s.setThread t { s.threads t with
                views := n :: (s.threads t).views }).view :=
              h.setThread rfl rfl rfl (h.serves t)
            apply hview.ret
            rw [State.setThread_self]
            exact hphase
          | some bufLen => exact h.withPc hphase.symm trivial
        | write w =>
          have hnone : headEffect (some cell.val) (.write w) = none := by simp [headEffect]
          apply h.withPc
          · rw [hphase, hnone]
            split <;> rfl
          · split <;> exact hserves
      · rw [if_neg hkey]
        apply h.withPc
        · rw [hpc, Pc.phase, Pc.phase, hvals, find?_cons_of_neg (by simpa using hkey)]
        · exact hserves

theorem clone_lin (hpc : (s.threads t).pc = .clone w head found iter copied)
    (hs : clone s t w head found copied true iter = some s') : Lin c s'.view := by
  have hserves := h.serves t
  rw [hpc] at hserves
  cases iter with
  | none =>
    cases hs
    apply h.withPc
    · rw [hpc]
      rfl
    · exact hserves
  | some n =>
    cases hc : s.heap.cells[n]? with
    | none => simp [clone, hc] at hs
    | some cell =>
      simp only [clone, hc, Option.some.injEq] at hs
      subst hs
      apply h.withPc
      · rw [hpc]
        split <;> rfl
      · split <;> exact hserves

theorem cas_lin (hwf : Wf c s.view) (hpc : (s.threads t).pc = .cas w head new tail retire) :
    Lin c (cas c s t w head new tail retire ok).view := by
  have hserves := h.serves t
  have hcas := hwf.pc t
  rw [hpc] at hserves hcas
  have hpending : (s.threads t).pc.phase s.heap = .pending := by rw [hpc]; rfl
  unfold cas
  dsimp only
  split
  · rename_i hok
    have hext := (s.heap.allocAll_spec new hcas.tail_valid).extend
    have hfound : (mapSpec.run s.effects w.key) = (s.lookup c w.key).map Node.val :=
      h.agrees w.key
    have hspec := write_spec (m := mapSpec.run s.effects) hserves fun hn => by
      obtain ⟨node, hnode, hkey⟩ := hcas.present hn
      rw [hfound, State.lookup, hok.2, isSome_map, find?_isSome]
      exact ⟨node, hnode, by simpa using hkey⟩
    refine h.commit (fun t' _ => Pc.phase_extend (hwf.pc t') hext) rfl rfl hpending ?_ ?_ ?_ ?_
    · cases retire <;> rfl
    · cases retire <;> trivial
    · rw [hspec]
    · intro key
      have hlookup := lookup_published hcas hok.2 (fun b => (hwf.bucket b).valid) key
      rw [hspec]
      refine Eq.trans ?_ (congrArg (Option.map Node.val) hlookup.symm)
      change update _ w.key _ key = _
      by_cases hk : key = w.key
      · rw [hk, update_self, if_pos rfl]
      · rw [update_of_ne hk, if_neg hk]
        exact h.agrees key
  · apply h.withPc
    · rw [hpc]
      rfl
    · exact hserves

theorem afterExit_lin (hphase : (s.threads t).pc.phase s.heap = after.phase)
    (hserves : after.Serves (s.threads t).op) : Lin c (afterExit s t after).view := by
  cases after with
  | ret res => exact h.ret hphase
  | released => exact h.withPc hphase.symm trivial
  | retry w => exact h.withPc hphase.symm hserves
  | retire n chain epoch => cases chain <;> exact h.withPc hphase.symm trivial

theorem afterRetire_lin (hphase : (s.threads t).pc.phase s.heap = .done .ok) :
    Lin c (afterRetire s t epoch rest).view := by
  cases rest with
  | none => exact h.ret hphase
  | some n => exact h.withPc hphase.symm trivial

theorem tryReclaim_lin (hphase : (s.threads t).pc.phase s.heap = .done .ok) :
    Lin c (tryReclaim s t epoch rest ok pc).view := by
  rcases tryReclaim_view s t epoch rest ok pc with hs | ⟨pc', hs⟩
  · rw [hs]
    exact afterRetire_lin h hphase
  · rw [hs]
    exact h.withPc hphase.symm trivial

theorem threadStep_lin (hwf : Wf c s.view) (hok : AllocOk s (.thread t ok))
    (hs : threadStep c s t ok = some s') : Lin c s'.view := by
  have hserves := h.serves t
  have hphase : ∀ pc, (s.threads t).pc = pc → (s.threads t).pc.phase s.heap = pc.phase s.heap :=
    fun pc he => congrArg _ he
  unfold threadStep at hs
  generalize hpc : (s.threads t).pc = pc at hs hserves
  cases pc with
  | idle => cases hs
  | setEpoch key val | deleteEpoch key | enterEpoch job =>
    cases hs
    exact h.withPc (hphase _ hpc).symm hserves
  | setAlloc key val epoch =>
    cases hs
    rw [if_pos (hok (by rw [hpc]; rfl))]
    exact h.withPc (hphase _ hpc).symm hserves
  | enterDepth job =>
    cases hs
    apply h.withPc
    · rw [hpc]
      split <;> rfl
    · split <;> exact hserves
  | enterActive job epoch =>
    cases hs
    exact h.withPc (hphase _ hpc).symm hserves
  | loadHead job =>
    cases hs
    exact loadHead_lin h hpc
  | walk job head cur =>
    exact walk_lin h hpc hs
  | clone w head found iter copied =>
    simp only [hok (by rw [hpc]; rfl)] at hs
    exact clone_lin h hpc hs
  | cas w head new tail retire =>
    cases hs
    exact cas_lin h hwf hpc
  | exitDepth after =>
    cases hs
    split
    · exact h.withPc (hphase _ hpc).symm hserves
    · exact afterExit_lin (s := s.setSlot _ _) h (hphase _ hpc) hserves
  | exitActive after =>
    cases hs
    apply afterExit_lin
    · refine h.setThread rfl rfl rfl ?_
      rw [hpc]
      exact hserves
    · rw [State.setThread_self]
      exact hphase _ hpc
    · rw [State.setThread_self]
      exact hserves
  | retireNext n epoch =>
    cases hc : s.heap.cells[n]? with
    | none => simp [hc] at hs
    | some cell =>
      simp only [hc, Option.some.injEq] at hs
      subst hs
      exact h.withPc (hphase _ hpc).symm trivial
  | retireLoad n epoch rest =>
    cases hs
    exact h.withPc (hphase _ hpc).symm trivial
  | retireCas n epoch rest head =>
    cases hs
    split <;> exact h.withPc (hphase _ hpc).symm trivial
  | retireCount epoch rest =>
    cases hs
    split
    · exact h.withPc (hphase _ hpc).symm trivial
    · exact afterRetire_lin (s := { s with retiredCount := s.retiredCount + 1 }) h (hphase _ hpc)
  | reclaim epoch rest pc =>
    cases hs
    exact tryReclaim_lin h (hphase _ hpc)

theorem step_lin (hwf : Wf c s.view) (hok : AllocOk s a) (hs : step c s a = some s') : Lin c s'.view := by
  cases a with
  | set t key val | delete t key | getView t key | getCopy t key bufLen =>
    obtain ⟨-, rfl⟩ := of_enabled hs
    exact h.call rfl rfl
  | invalid t =>
    obtain ⟨s₁, hs₁, rfl⟩ := map_eq_some_iff.1 hs
    obtain ⟨-, rfl⟩ := of_enabled hs₁
    exact h.invalid
  | releaseView t n =>
    obtain ⟨⟨hpc, -⟩, rfl⟩ := of_enabled hs
    exact h.setThread rfl rfl (by rw [hpc]; rfl) trivial
  | thread t ok => exact threadStep_lin h hwf hok hs

end

theorem mapSpec_fail (m : Bytes → Option Bytes) (op : Op) (h : (mapSpec.apply m op).2 = .fail) :
    (mapSpec.apply m op).1 = m := by
  cases op with
  | set key val => cases h
  | delete key =>
    by_cases hm : (m key).isSome
    · simp [mapSpec, hm] at h
    · simp [mapSpec, hm]
  | getView key | getCopy key bufLen | invalid => rfl

/-- While allocations succeed the calls are linearizable as those of a map; failing calls change
nothing. -/
theorem mvccCache_linearizable (h : (mvcc c).Reachable AllocOk s) :
    (∃ L, Linearization mapSpec s.history L ∧
      (∀ key, (s.lookup c key).map Node.val = mapSpec.run L key) ∧
      ∀ A d B, L = A ++ d :: B → d.res = .fail → mapSpec.run (A ++ [d]) = mapSpec.run A) ∧
    ∀ b, ((s.heap.vals (s.buckets b)).map Node.key).Nodup := by
  obtain ⟨hwf, hlin⟩ := h.invariant (P := fun s => Wf c s.view ∧ Lin c s.view)
    (fun s hs => by cases hs; exact ⟨mvccCacheNew_wf c, mvccCacheNew_lin c⟩)
    (fun s a s' hi hok hs => ⟨step_wf hi.1 hs, step_lin hi.2 hi.1 hok hs⟩)
  have hL := hlin.recorded.linearization
  refine ⟨⟨s.effects, hL, fun key => (hlin.agrees key).symm, ?_⟩, fun b => (hwf.bucket b).nodup⟩
  intro A d B heq hfail
  rw [SeqSpec.run_concat]
  exact mapSpec_fail _ _ ((hL.legal A d B heq).trans hfail)

theorem mvccCache_linearizable_setGet : ∃ s, (mvcc ⟨1, 2, id⟩).exec AllocOk mvccCacheNew
        (.set 0 [] [7] :: replicate 9 (.thread 0 true) ++
          .getView 1 [] :: replicate 5 (.thread 1 true)) = some s ∧
      s.history = [.call 0 (.set [] [7]), .ret 0 .ok, .call 1 (.getView []), .ret 1 (.view [7])] ∧
      ∃ L, Linearization mapSpec s.history L := by
  refine ⟨_, rfl, rfl, ?_⟩
  have hrun := (mvcc ⟨1, 2, id⟩).run (p := AllocOk) mvccCacheNew (.set 0 [] [7] ::
    replicate 9 (.thread 0 true) ++ .getView 1 [] :: replicate 5 (.thread 1 true)) rfl rfl
  obtain ⟨⟨L, hL, -⟩, -⟩ := mvccCache_linearizable hrun
  exact ⟨L, hL⟩

end Csilk.Cache
