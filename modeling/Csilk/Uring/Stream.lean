import Csilk.Uring.Submission

namespace Csilk.Uring.Write
open Csilk.Lib List

def delivers (w : Send) (res : Int) : Bool :=
  decide (res ≤ w.data.length) && (decide (0 < res) || decide (w.data.length = 0 ∧ res = 0))

/-- The connection stays open, sends complete in order, and no allocation fails once an entry of the
ring is taken. -/
def orderly (s : State) : Act → Bool
  | .clientWrite _ e | .sendDataOwned _ e => !e.sqe || (e.op && e.ctx)
  | .complete i res => decide (i = 0) && s.inFlight.head?.any fun w => delivers w res
  | .orphan _ => true
  | .close | .recycle => false

/-- The accepted data are those of the completed sends and those in flight; a result says how many
bytes were transmitted. -/
structure Flow (s : State) : Prop where
  accepted : s.accepted = s.completed.map Prod.fst ++ s.inFlight.map Send.data
  transmitted : s.transmitted = s.completed.flatMap fun c => c.1.take c.2.toNat
  bounds : ∀ c ∈ s.completed, 0 ≤ c.2 ∧ c.2 ≤ c.1.length
  orphans : s.orphans = 0

theorem Flow.start : Flow start where
  accepted := rfl
  transmitted := rfl
  bounds _ hc := by cases hc
  orphans := rfl

theorem Flow.handled (hf : Flow s) (he : e.Tidy) (hh : Handled s e s') : Flow s' := by
  cases hh with
  | dropped h hext => exact { hf with }
  | refused h orphans buf hext ho => exact { hf with orphans := (ho he).trans hf.orphans }
  | accepted h w hext =>
    refine { hf with accepted := ?_ }
    show s.accepted ++ [w.data] = _
    rw [hf.accepted, map_append, append_assoc]
    rfl

theorem csilkUvOnWriteDone_eq (s : State) (w : Send) : ∃ h f,
    csilkUvOnWriteDone s w = { s with heap := h, primaryWriteInFlight := f } := by
  rw [csilkUvOnWriteDone]
  split
  case isTrue => exact ⟨_, s.primaryWriteInFlight, rfl⟩
  case isFalse =>
    rw [onWrite, dropReq]
    split
    case isTrue => exact ⟨_, false, rfl⟩
    case isFalse => exact ⟨_, s.primaryWriteInFlight, rfl⟩

theorem delivers_bounds (h : delivers w res = true) : 0 ≤ res ∧ res ≤ w.data.length := by
  simp only [delivers, Bool.and_eq_true, Bool.or_eq_true, decide_eq_true_eq] at h
  omega

theorem Flow.arrive (hf : Flow s) (hw : s.inFlight[0]? = some w) (hd : delivers w res = true) :
    Flow (s.arrive 0 w res) where
  accepted := by
    obtain ⟨ws, hws⟩ : ∃ ws, s.inFlight = w :: ws := by
      cases hin : s.inFlight with
      | nil =>
        rw [hin] at hw
        cases hw
      | cons v ws =>
        rw [hin] at hw
        cases hw
        exact ⟨ws, rfl⟩
    show s.accepted = (s.completed ++ [(w.data, res)]).map Prod.fst ++
      (s.inFlight.eraseIdx 0).map Send.data
    rw [hf.accepted, hws]
    simp
  transmitted := by
    show s.transmitted ++ w.data.take res.toNat = (s.completed ++ [(w.data, res)]).flatMap _
    rw [flatMap_append, hf.transmitted, flatMap_singleton]
  bounds c hc := by
    rcases mem_append.1 hc with hc | hc
    · exact hf.bounds c hc
    · rw [mem_singleton.1 hc]
      exact delivers_bounds hd
  orphans := hf.orphans

theorem Flow.complete (hf : Flow s) (hok : orderly s (.complete i res) = true)
    (hs : complete s i res = some s') : Flow s' := by
  obtain ⟨w, hw, rfl⟩ := complete_some hs
  simp only [orderly, Bool.and_eq_true, decide_eq_true_eq] at hok
  obtain ⟨rfl, hhead⟩ := hok
  rw [head?_eq_getElem?, hw] at hhead
  have harrive := hf.arrive hw hhead
  split
  case isTrue =>
    obtain ⟨h, f, heq⟩ := csilkUvOnWriteDone_eq (s.arrive 0 w res) w
    rw [heq]
    exact { harrive with }
  case isFalse => exact harrive

theorem Flow.step (hf : Flow s) (hok : orderly s a = true) (hs : step s a = some s') : Flow s' := by
  cases a with
  | clientWrite data e =>
    cases hs
    refine hf.handled (fun hsqe => ?_) csilkClientWrite_handled
    simpa [orderly, hsqe] using hok
  | sendDataOwned data e =>
    cases hs
    refine hf.handled (fun hsqe => ?_) csilkSendDataOwned_handled
    simpa [orderly, hsqe] using hok
  | complete i res => exact hf.complete hok hs
  | orphan bytes =>
    rw [Write.step, if_pos hf.orphans] at hs
    cases hs
  | close | recycle => cases hok

theorem flatMap_take_eq_flatten_iff {cs : List (Bytes × Int)}
    (hb : ∀ c ∈ cs, 0 ≤ c.2 ∧ c.2 ≤ c.1.length) :
    cs.flatMap (fun c => c.1.take c.2.toNat) = (cs.map Prod.fst).flatten ↔
      ∀ c ∈ cs, c.2 = c.1.length := by
  have hle : ∀ cs : List (Bytes × Int), (cs.flatMap fun c => c.1.take c.2.toNat).length ≤
      (cs.map Prod.fst).flatten.length := by
    intro cs
    induction cs with
    | nil => exact le_rfl
    | cons c cs ih =>
      simp only [flatMap_cons, map_cons, flatten_cons, length_append,
        length_take]
      omega
  induction cs with
  | nil => simp
  | cons c cs ih =>
    have hc := hb c mem_cons_self
    have hcs := ih fun d hd => hb d (mem_cons_of_mem _ hd)
    rw [flatMap_cons, map_cons, flatten_cons, forall_mem_cons]
    constructor
    · intro heq
      have hlen := congrArg List.length heq
      have hrest := hle cs
      simp only [length_append, length_take] at hlen
      have hfull : c.2 = c.1.length := by omega
      rw [hfull, Int.toNat_natCast, take_length] at heq
      exact ⟨hfull, hcs.1 (append_cancel_left heq)⟩
    · rintro ⟨hfull, hrest⟩
      rw [hfull, Int.toNat_natCast, take_length, hcs.2 hrest]

/-- Once every send has completed, the bytes transmitted are those accepted if and only if every
send was complete. -/
theorem csilkClientWrite_stream (h : system.Reachable (fun s a => orderly s a = true) s)
    (hdone : s.inFlight = []) :
    s.transmitted = s.accepted.flatten ↔ ∀ c ∈ s.completed, c.2 = c.1.length := by
  have hf : Flow s := by
    refine h.invariant (P := Flow) ?_ fun s a s' hs hok hstep => hs.step hok hstep
    rintro s rfl
    exact Flow.start
  rw [hf.transmitted, hf.accepted, hdone, map_nil, append_nil]
  exact flatMap_take_eq_flatten_iff hf.bounds

theorem csilkClientWrite_stream_full :
    ∃ s, system.Reachable (fun s a => orderly s a = true) s ∧ s.inFlight = [] ∧
      (s.transmitted = s.accepted.flatten ↔ ∀ c ∈ s.completed, c.2 = c.1.length) ∧
      s.transmitted = [1, 2, 3] := by
  have hrun := system.run (p := fun s a => orderly s a = true) start [.clientWrite [1, 2] plenty,
    .clientWrite [3] plenty, .complete 0 2, .complete 0 1] rfl rfl
  exact ⟨_, hrun, rfl, csilkClientWrite_stream hrun rfl, rfl⟩

/-- The first of two sends is cut short, and the rest of it is lost. -/
theorem csilkClientWrite_short :
    ∃ s, system.Reachable (fun s a => orderly s a = true) s ∧ s.inFlight = [] ∧
      s.accepted = [[1, 2], [3]] ∧ s.transmitted = [1, 3] := by
  have hrun := system.run (p := fun s a => orderly s a = true) start [.clientWrite [1, 2] plenty,
    .clientWrite [3] plenty, .complete 0 1, .complete 0 1] rfl rfl
  exact ⟨_, hrun, rfl, rfl, rfl⟩

end Csilk.Uring.Write
