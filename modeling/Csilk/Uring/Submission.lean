import Csilk.Uring.Write

namespace Csilk.Uring.Write
open Csilk.Lib Function

/-- `csilk_io_write` takes no entry of the ring that it leaves behind. -/
def Supply.Tidy (e : Supply) : Prop := e.sqe = true → e.op = true ∧ e.ctx = true

inductive Handled (s : State) (e : Supply) : State → Prop
  | dropped (h : MallocHeap) (he : s.heap.Extends h) : Handled s e { s with heap := h }
  | refused (h : MallocHeap) (orphans buf : Nat) (he : s.heap.Extends h)
      (ho : e.Tidy → orphans = s.orphans) (hnew : s.heap.next ≤ buf) (hlt : buf < h.next)
      (hfreed : (∀ b ∈ s.heap.frees, b < s.heap.next) → h.frees.count buf = 1) :
      Handled s e { s with heap := h, orphans := orphans, handed := buf :: s.handed }
  | accepted (h : MallocHeap) (w : Send) (he : s.heap.Extends h) (hnew : s.heap.next ≤ w.buf)
      (hlt : w.buf < h.next) (hlive : h.live w.buf = true)
      (hfreed : (∀ b ∈ s.heap.frees, b < s.heap.next) → h.frees.count w.buf = 0)
      (hreq : w.req = primaryWriteReq ↔ s.primaryWriteInFlight = false) :
      Handled s e { s with
        heap := h
        primaryWriteInFlight := true
        inFlight := s.inFlight ++ [w]
        handed := w.buf :: s.handed
        accepted := s.accepted ++ [w.data] }

def Owner (s : State) (req : Ptr) (h : MallocHeap) : Prop :=
  req = primaryWriteReq ∧ s.primaryWriteInFlight = false ∨
    s.primaryWriteInFlight = true ∧ ∃ r, req = ⟨r, 0⟩ ∧ s.heap.next ≤ r ∧ r < h.next ∧
      h.live r = true

structure Prepared (s : State) (req : Ptr) (buf : Nat) (h : MallocHeap) : Prop where
  heap : s.heap.Extends h
  frees : h.frees = s.heap.frees
  buf_new : s.heap.next ≤ buf
  buf_lt : buf < h.next
  buf_live : h.live buf = true
  owner : Owner s req h
  ne : req ≠ ⟨buf, 0⟩

theorem takeReq_cases (s : State) (e : Supply) :
    takeReq s e = (none, s) ∨ ∃ req h, s.heap.Extends h ∧ h.frees = s.heap.frees ∧ Owner s req h ∧
      takeReq s e = (some req, { s with heap := h, primaryWriteInFlight := true }) := by
  rw [takeReq]
  cases hflag : s.primaryWriteInFlight with
  | false => exact .inr ⟨primaryWriteReq, s.heap, .refl _, rfl, .inl ⟨rfl, hflag⟩, rfl⟩
  | true =>
    cases e.req with
    | false => exact .inl rfl
    | true =>
      refine .inr ⟨_, _, (MallocHeap.Extends.refl _).malloc, rfl, .inr ⟨hflag, ?_⟩, rfl⟩
      exact ⟨_, rfl, Nat.le_refl _, Nat.lt_succ_self _, s.heap.malloc_live⟩

theorem Owner.dropReq (hreq : Owner s req h) (he : s.heap.Extends h) :
    ∃ h', s.heap.Extends h' ∧ h'.next = h.next ∧
      (∀ b, h.live b = false → h'.frees.count b = h.frees.count b) ∧
      dropReq { s with heap := h, primaryWriteInFlight := true, orphans := o, handed := l } req =
        { s with heap := h', orphans := o, handed := l } := by
  rcases hreq with ⟨rfl, hflag⟩ | ⟨hflag, r, rfl, hnew, hlt, hr⟩
  · refine ⟨h, he, rfl, fun _ _ => rfl, ?_⟩
    rw [Write.dropReq, if_pos rfl, ← hflag]
  · refine ⟨_, he.free hnew hlt hr, ?_, fun b hb => ?_, ?_⟩
    · rw [MallocHeap.free_start hr]
    · have hne : r ≠ b := fun hc => by
        rw [← hc, hr] at hb
        cases hb
      rw [MallocHeap.free_start hr, List.count_cons_of_ne hne]
    · rw [Write.dropReq, if_neg (by rintro ⟨⟩), ← hflag]

theorem csilkIoWrite_cases (s : State) (e : Supply) (req : Ptr) (buf : Nat) (data : Bytes) :
    (∃ h orphans, s.heap.Extends h ∧ (e.Tidy → orphans = s.orphans) ∧
      csilkIoWrite s e req buf data = (false, { s with heap := h, orphans := orphans })) ∨
    ∃ h w, s.heap.Extends h ∧ w.req = req ∧ w.buf = buf ∧ w.data = data ∧
      csilkIoWrite s e req buf data = (true, { s with
        heap := h
        inFlight := s.inFlight ++ [w]
        accepted := s.accepted ++ [w.data] }) := by
  have hop : s.heap.Extends s.heap.malloc := (MallocHeap.Extends.refl _).malloc
  rw [csilkIoWrite]
  split
  case isTrue => exact .inl ⟨s.heap, s.orphans, .refl _, fun _ => rfl, rfl⟩
  case isFalse hsqe =>
    have hsqe : e.sqe = true := by
      simp only [Bool.or_eq_true, Bool.not_eq_true', not_or, Bool.not_eq_false] at hsqe
      exact hsqe.2
    split
    case isTrue hnop =>
      refine .inl ⟨s.heap, s.orphans + 1, .refl _, fun hc => ?_, rfl⟩
      rw [(hc hsqe).1] at hnop
      cases hnop
    case isFalse =>
      split
      case isTrue hnctx =>
        refine .inl ⟨_, s.orphans + 1, ?_, fun hc => ?_, rfl⟩
        · exact hop.free (Nat.le_refl _) (Nat.lt_succ_self _) s.heap.malloc_live
        · rw [(hc hsqe).2] at hnctx
          cases hnctx
      case isFalse => exact .inr ⟨_, _, hop.malloc, rfl, rfl, rfl, rfl⟩

theorem Prepared.refuse (hp : Prepared s req buf h₁) (he : h₁.Extends h) :
    ∃ h', s.heap.Extends h' ∧ buf < h'.next ∧ h'.frees.count buf = h.frees.count buf + 1 ∧
      dropReq { s with
        heap := h.free ⟨buf, 0⟩, primaryWriteInFlight := true, orphans := o, handed := l } req =
        { s with heap := h', orphans := o, handed := l } := by
  have hlt : buf < h.next := lt_of_lt_of_le hp.buf_lt he.next
  have hlive : h.live buf = true := (he.live buf hp.buf_lt).trans hp.buf_live
  have hext : s.heap.Extends (h.free ⟨buf, 0⟩) := (hp.heap.trans he).free hp.buf_new hlt hlive
  have howner : Owner s req (h.free ⟨buf, 0⟩) := by
    rw [MallocHeap.free_start hlive]
    refine hp.owner.imp_right fun ⟨hflag, r, hreq, hnew, hrlt, hr⟩ => ?_
    have hne : r ≠ buf := fun hc => hp.ne (hc ▸ hreq)
    exact ⟨hflag, r, hreq, hnew, lt_of_lt_of_le hrlt he.next,
      (update_of_ne hne ..).trans ((he.live r hrlt).trans hr)⟩
  obtain ⟨h', he', hnext, hcount, hdrop⟩ := howner.dropReq hext (o := o) (l := l)
  refine ⟨h', he', ?_, ?_, hdrop⟩
  · rw [hnext, MallocHeap.free_start hlive]
    exact hlt
  · rw [hcount buf, MallocHeap.free_start hlive]
    · exact List.count_cons_self ..
    · rw [MallocHeap.free_start hlive]
      exact update_self ..

theorem Prepared.submit (hp : Prepared s req buf h₁) :
    Handled s e (submit { s with heap := h₁, primaryWriteInFlight := true } e req buf data) := by
  rw [Write.submit]
  rcases csilkIoWrite_cases { s with
      heap := h₁, primaryWriteInFlight := true, handed := buf :: s.handed } e req buf data with
    ⟨h, o, he, ho, heq⟩ | ⟨h, w, he, rfl, rfl, rfl, heq⟩
  · obtain ⟨h', he', hlt, hcount, hdrop⟩ := hp.refuse he (o := o) (l := buf :: s.handed)
    rw [heq]
    show Handled s e (Write.dropReq _ req)
    rw [hdrop]
    refine .refused h' o buf he' ho hp.buf_new hlt fun hbd => ?_
    rw [hcount, he.frees buf hp.buf_lt, hp.frees, MallocHeap.count_new hbd hp.buf_new]
  · rw [heq]
    refine .accepted h w (hp.heap.trans he) hp.buf_new (lt_of_lt_of_le hp.buf_lt he.next)
      ((he.live _ hp.buf_lt).trans hp.buf_live) (fun hbd => ?_) ?_
    · rw [he.frees _ hp.buf_lt, hp.frees, MallocHeap.count_new hbd hp.buf_new]
    · rcases hp.owner with ⟨hreq, hflag⟩ | ⟨hflag, r, hreq, -⟩
      · exact iff_of_true hreq hflag
      · rw [hreq, hflag]
        exact iff_of_false (by rintro ⟨⟩) (by rintro ⟨⟩)

theorem csilkClientWrite_handled : Handled s e (csilkClientWrite s data e) := by
  rw [csilkClientWrite]
  split
  case isTrue => exact .dropped s.heap (.refl _)
  case isFalse =>
    rcases takeReq_cases s e with heq | ⟨req, h, he, hfrees, howner, heq⟩
    · rw [heq]
      exact .dropped s.heap (.refl _)
    · rw [heq]
      cases hbuf : e.buf with
      | false =>
        obtain ⟨h', he', -, -, hdrop⟩ := howner.dropReq he (o := s.orphans) (l := s.handed)
        show Handled s e (dropReq _ req)
        rw [hdrop]
        exact .dropped h' he'
      | true =>
        have hprepared (howner : Owner s req h.malloc) (hne : req ≠ ⟨h.next, 0⟩) :
            Prepared s req h.next h.malloc :=
          ⟨he.malloc, hfrees, he.next, Nat.lt_succ_self _, h.malloc_live, howner, hne⟩
        refine (hprepared ?_ ?_).submit
        · refine howner.imp_right fun ⟨hflag, r, hreq, hnew, hlt, hr⟩ => ?_
          exact ⟨hflag, r, hreq, hnew, Nat.lt_succ_of_lt hlt,
            (update_of_ne (Nat.ne_of_lt hlt) ..).trans hr⟩
        · rcases howner with ⟨rfl, -⟩ | ⟨-, r, rfl, -, hlt, -⟩
          · exact fun hc => Nat.one_ne_zero (congrArg Ptr.offset hc)
          · exact fun hc => Nat.ne_of_lt hlt (congrArg Ptr.block hc)

theorem refused_now (e : Supply) (s : State) : Handled s e { s with
    heap := s.heap.malloc.free ⟨s.heap.next, 0⟩, handed := s.heap.next :: s.handed } := by
  have hext : s.heap.Extends (s.heap.malloc.free ⟨s.heap.next, 0⟩) :=
    (MallocHeap.Extends.refl _).malloc.free (Nat.le_refl _) (Nat.lt_succ_self _) s.heap.malloc_live
  refine .refused _ s.orphans _ hext (fun _ => rfl) (Nat.le_refl _) ?_ fun hbd => ?_
  · rw [MallocHeap.free_start s.heap.malloc_live]
    exact Nat.lt_succ_self _
  · rw [MallocHeap.free_start s.heap.malloc_live]
    have hnone : s.heap.frees.count s.heap.next = 0 := MallocHeap.count_new hbd (Nat.le_refl _)
    exact List.count_cons_self.trans (congrArg (· + 1) hnone)

theorem csilkSendDataOwned_handled : Handled s e (csilkSendDataOwned s data e) := by
  rw [csilkSendDataOwned]
  split
  case isTrue => exact refused_now e s
  case isFalse =>
    have hone : s.heap.Extends s.heap.malloc := (MallocHeap.Extends.refl _).malloc
    rcases takeReq_cases { s with heap := s.heap.malloc } e with
      heq | ⟨req, h, he, hfrees, howner, heq⟩
    · rw [heq]
      exact refused_now e s
    · rw [heq]
      have hprepared (howner : Owner s req h) (hne : req ≠ ⟨s.heap.next, 0⟩) :
          Prepared s req s.heap.next h :=
        ⟨hone.trans he, hfrees, Nat.le_refl _, Nat.lt_of_lt_of_le (Nat.lt_succ_self _) he.next,
          (he.live _ (Nat.lt_succ_self _)).trans s.heap.malloc_live, howner, hne⟩
      refine (hprepared ?_ ?_).submit
      · refine howner.imp_right fun ⟨hflag, r, hreq, hnew, hlt, hr⟩ => ?_
        exact ⟨hflag, r, hreq, Nat.le_of_succ_le hnew, hlt, hr⟩
      · rcases howner with ⟨rfl, -⟩ | ⟨-, r, rfl, hnew, -⟩
        · exact fun hc => Nat.one_ne_zero (congrArg Ptr.offset hc)
        · exact fun hc => Nat.ne_of_gt hnew (congrArg Ptr.block hc)

theorem complete_some (hs : complete s i res = some s') : ∃ w, s.inFlight[i]? = some w ∧
    s' = if w.tagged then csilkUvOnWriteDone (s.arrive i w res) w else s.arrive i w res := by
  rw [complete] at hs
  split at hs
  case h_1 => cases hs
  case h_2 w hw => exact ⟨w, hw, (Option.some.inj hs).symm⟩

end Csilk.Uring.Write
