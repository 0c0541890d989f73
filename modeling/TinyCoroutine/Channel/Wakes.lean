import TinyCoroutine.Channel.CallStacks

/-!
# Every parked coroutine is woken once

The coroutines that have parked are those that were removed from a wait queue, in the same
order, and those that wait. A call passes on exactly the coroutines it has removed, in the
order in which it removed them, before it returns. What such a coroutine will find in its
awaiter is fixed when it is removed.
-/
namespace TinyCoroutine.Channel.Calls

open Foundation

variable {T : Type*} {s s' : State T}

/-- The entries of call `n`. -/
def ofCall (n : Nat) (l : List (Nat × Wake T)) : List (Wake T) :=
  (l.filter fun p => p.1 == n).map Prod.snd

@[simp] theorem ofCall_append (n : Nat) (l m : List (Nat × Wake T)) :
    ofCall n (l ++ m) = ofCall n l ++ ofCall n m := by simp [ofCall]

theorem ofCall_self (n : Nat) (ws : List (Wake T)) : ofCall n (ws.map fun w => (n, w)) = ws := by
  simp [ofCall, List.filter_map, Function.comp_def]

theorem ofCall_of_ne {m n : Nat} (h : m ≠ n) (ws : List (Wake T)) :
    ofCall n (ws.map fun w => (m, w)) = [] := by
  simp [ofCall, List.filter_map, Function.comp_def, h]

theorem mem_ofCall {n : Nat} {l : List (Nat × Wake T)} {w : Wake T} :
    w ∈ ofCall n l ↔ (n, w) ∈ l := by
  simp [ofCall]

theorem nodup_of_ofCall {l : List (Nat × Wake T)} (h : ∀ n, (ofCall n l).Nodup) : l.Nodup := by
  induction l with
  | nil => exact List.nodup_nil
  | cons p l ih =>
    rw [List.nodup_cons]
    refine ⟨?_, ih fun n => ?_⟩
    · obtain ⟨n, w⟩ := p
      have hn : (w :: ofCall n l).Nodup := by simpa [ofCall] using h n
      intro hmem
      exact (List.nodup_cons.mp hn).1 (mem_ofCall.mpr hmem)
    · have hn := h n
      rw [show p :: l = [p] ++ l from rfl, ofCall_append] at hn
      exact hn.of_append_right

/-! ## A call passes on what it has removed -/

structure Passes (s : State T) : Prop where
  active : ∀ t, ∀ c ∈ s.calls t, ofCall c.number s.removed =
    ofCall c.number s.rescheduled ++ pending c.code
  settled : ∀ n, (∀ t, ∀ c ∈ s.calls t, c.number ≠ n) → ofCall n s.removed = ofCall n s.rescheduled
  returned : ∀ n ∈ s.returned, n < s.next ∧ ∀ t, ∀ c ∈ s.calls t, c.number ≠ n

theorem passes_start (c : Channel T) : Passes (start c) := by
  constructor <;> simp [start, ofCall]

/-- The innermost call of a thread goes on: what it removes it has then to pass on, and what it
passes on was pending. -/
theorem Passes.replace (h : Passes s) (hf : Frames s) {t n : Nat} {is js : List (Instr T)}
    {b d : Bool} {rest : List (Call T)} {r p : List (Wake T)}
    (at_ : s.calls t = ⟨n, is, b⟩ :: rest)
    (hcalls : s'.calls = Function.update s.calls t (⟨n, js, d⟩ :: rest))
    (hremoved : s'.removed = s.removed ++ r.map fun w => (n, w))
    (hrescheduled : s'.rescheduled = s.rescheduled ++ p.map fun w => (n, w))
    (hpending : pending is ++ r = p ++ pending js) (hreturned : s'.returned = s.returned)
    (hnext : s'.next = s.next) : Passes s' := by
  have hfirst : (⟨n, is, b⟩ : Call T) ∈ s.calls t := by simp [at_]
  -- the calls of the new state, up to the code of the one that went on
  have hmem : ∀ u, ∀ c ∈ s'.calls u, c = ⟨n, js, d⟩ ∨ (c ∈ s.calls u ∧ c.number ≠ n) := by
    intro u c hc
    rw [hcalls, Function.update_apply] at hc
    split_ifs at hc with hu
    · rcases List.mem_cons.mp hc with rfl | hc
      · exact .inl rfl
      · exact .inr ⟨by simp [hu, at_, hc], hf.number_ne at_ hc⟩
    · refine .inr ⟨hc, ?_⟩
      intro hn
      exact hu (hf.eq_of_number hc hfirst hn).1
  have hback : ∀ u, ∀ c ∈ s.calls u, ∃ d ∈ s'.calls u, d.number = c.number := by
    intro u c hc
    by_cases hu : u = t
    · subst hu
      rw [at_] at hc
      rcases List.mem_cons.mp hc with rfl | hc
      · exact ⟨⟨n, js, d⟩, by simp [hcalls], rfl⟩
      · exact ⟨c, by simp [hcalls, hc], rfl⟩
    · exact ⟨c, by rw [hcalls, Function.update_of_ne hu]; exact hc, rfl⟩
  constructor
  · intro u c hc
    rcases hmem u c hc with rfl | ⟨hc, hne⟩
    · rw [hremoved, hrescheduled, ofCall_append, ofCall_append, ofCall_self, ofCall_self,
        h.active t _ hfirst, List.append_assoc, List.append_assoc, hpending]
    · rw [hremoved, hrescheduled, ofCall_append, ofCall_append, ofCall_of_ne hne.symm,
        ofCall_of_ne hne.symm, List.append_nil, List.append_nil]
      exact h.active u c hc
  · intro m hm
    have hne : n ≠ m := hm t ⟨n, js, d⟩ (by simp [hcalls])
    rw [hremoved, hrescheduled, ofCall_append, ofCall_append, ofCall_of_ne hne, ofCall_of_ne hne,
      List.append_nil, List.append_nil]
    refine h.settled m fun u c hc => ?_
    obtain ⟨d, hd, hnum⟩ := hback u c hc
    exact hnum ▸ hm u d hd
  · intro m hm
    rw [hreturned] at hm
    obtain ⟨hlt, hnone⟩ := h.returned m hm
    refine ⟨hnext ▸ hlt, fun u c hc => ?_⟩
    rcases hmem u c hc with rfl | ⟨hc, -⟩
    · exact hnone t ⟨n, is, b⟩ hfirst
    · exact hnone u c hc

theorem Passes.push (h : Passes s) (hf : Frames s) {t : Nat} {is : List (Instr T)}
    (hpending : pending is = []) :
    Passes { s.setCalls t (⟨s.next, is, false⟩ :: s.calls t) with next := s.next + 1 } := by
  have hmem : ∀ u, ∀ c ∈ Function.update s.calls t (⟨s.next, is, false⟩ :: s.calls t) u,
      c = ⟨s.next, is, false⟩ ∨ c ∈ s.calls u := by
    intro u c hc
    rw [Function.update_apply] at hc
    split_ifs at hc with hu
    · subst hu
      exact List.mem_cons.mp hc
    · exact .inr hc
  have hfresh : ∀ t, ∀ c ∈ s.calls t, c.number ≠ s.next := fun t c hc =>
    Nat.ne_of_lt (hf.shape t c hc).2.1
  constructor
  · intro u c hc
    rcases hmem u c hc with rfl | hc
    · rw [hpending, List.append_nil]
      exact h.settled s.next hfresh
    · exact h.active u c hc
  · intro m hm
    refine h.settled m fun u c hc => hm u c ?_
    simp only [State.setCalls, Function.update_apply]
    split_ifs with hu
    · subst hu
      exact List.mem_cons_of_mem _ hc
    · exact hc
  · intro m hm
    obtain ⟨hlt, hnone⟩ := h.returned m hm
    refine ⟨Nat.lt_succ_of_lt hlt, fun u c hc => ?_⟩
    rcases hmem u c hc with rfl | hc
    · exact (Nat.ne_of_lt hlt).symm
    · exact hnone u c hc

theorem Passes.pop (h : Passes s) (hf : Frames s) {t n : Nat} {rest : List (Call T)}
    (at_ : s.calls t = ⟨n, [], false⟩ :: rest) :
    Passes { s.setCalls t rest with returned := s.returned ++ [n] } := by
  have hfirst : (⟨n, [], false⟩ : Call T) ∈ s.calls t := by simp [at_]
  have hmem : ∀ u, ∀ c ∈ Function.update s.calls t rest u, c ∈ s.calls u ∧ c.number ≠ n := by
    intro u c hc
    rw [Function.update_apply] at hc
    split_ifs at hc with hu
    · exact ⟨by simp [hu, at_, hc], hf.number_ne at_ hc⟩
    · exact ⟨hc, fun hn => hu (hf.eq_of_number hc hfirst hn).1⟩
  constructor
  · exact fun u c hc => h.active u c (hmem u c hc).1
  · intro m hm
    by_cases hn : m = n
    · subst hn
      simpa [pending, State.setCalls] using h.active t _ hfirst
    · refine h.settled m fun u c hc => ?_
      by_cases hrest : c ∈ Function.update s.calls t rest u
      · exact hm u c hrest
      · -- only the call that returns has left
        rw [Function.update_apply] at hrest
        split_ifs at hrest with hu
        · subst hu
          rw [at_] at hc
          rcases List.mem_cons.mp hc with rfl | hc
          · exact fun heq => hn heq.symm
          · exact absurd hc hrest
        · exact absurd hc hrest
  · intro m hm
    rcases List.mem_append.mp hm with hm | hm
    · obtain ⟨hlt, hnone⟩ := h.returned m hm
      exact ⟨hlt, fun u c hc => hnone u c (hmem u c hc).1⟩
    · obtain rfl := List.mem_singleton.mp hm
      exact ⟨(hf.shape t _ hfirst).2.1, fun u c hc => (hmem u c hc).2⟩

theorem Passes.preserved {hasContext : Nat → Bool} (h : Passes s) (hf : Frames s)
    (step : Transition hasContext s s') : Passes s' := by
  cases step with
  | call t op out own => exact h.push hf (pending_code op)
  | ret at_ => exact h.pop hf at_
  | lock at_ free =>
    exact h.replace hf (r := []) (p := []) at_ rfl (by simp [State.setCalls])
      (by simp [State.setCalls]) (by simp [pending]) rfl rfl
  | @critical t n op is rest r at_ run =>
    obtain ⟨-, rfl⟩ := (hf.shape t _ (at_ ▸ List.mem_cons_self)).1.of_critical
    refine h.replace hf (r := (op.run s.reported.log.channel).2.2) (p := []) at_ rfl rfl
      (by simp [State.setCalls, State.enter]) ?_ rfl rfl
    simp [pending, List.filterMap_map]
  | unlock at_ =>
    exact h.replace hf (r := []) (p := []) at_ rfl (by simp [State.setCalls])
      (by simp [State.setCalls]) (by simp [pending]) rfl rfl
  | @reschedule t n w is rest at_ =>
    exact h.replace hf (r := []) (p := [w]) at_ rfl (by simp [State.setCalls]) rfl
      (by simp [pending]) rfl rfl
  | back at_ =>
    exact h.replace hf (r := []) (p := []) at_ rfl (by simp [State.setCalls])
      (by simp [State.setCalls]) (by simp) rfl rfl

/-! ## The outcome of a coroutine that is woken -/

def awaiter : Wake T → Nat
  | .sender _ a => a.id
  | .receiver _ a => a.id

/-- What the awaiter will say is decided: the value of the sender has been taken, or it has been
told of the close; the receiver has a value, or the channel is closed. -/
def Fixed (r : Reported T) : Wake T → Prop
  | .sender _ a => a.close = true ∨ ((some a.id, a.value), .done) ∈ r.sends
  | .receiver _ a => (∃ v, a.value = some v ∧ (.awaiter a.id, .ok v) ∈ r.receives) ∨
      a.value = none ∧ r.log.channel.close = true

section

variable {r r' : Reported T} {op : Op T} {xs : List T}

theorem reported_channel (h : r.step op = some r') :
    r'.log.channel = (op.run r.log.channel).1 := by
  rw [(Logged.step_eq (Reported.step_eq h).1).1]
  rfl

/-- A closed channel stays closed. -/
theorem close_of_step (h : r.log.channel.WellFormed xs) (hstep : r.step op = some r')
    (hc : r.log.channel.close = true) : r'.log.channel.close = true := by
  obtain ⟨xs', htr⟩ := (conserves h op fun _ => hc).transfer
  rw [reported_channel hstep, htr.close, hc]

theorem Fixed.step {w : Wake T} (hw : Fixed r w) (h : r.log.channel.WellFormed xs)
    (hstep : r.step op = some r') : Fixed r' w := by
  obtain ⟨-, hsends, hreceives⟩ := Reported.step_eq hstep
  cases w with
  | sender handle a =>
    refine hw.imp id fun hdone => ?_
    rw [hsends]
    exact List.mem_append_left _ hdone
  | receiver handle a =>
    refine hw.imp ?_ fun hclosed => ⟨hclosed.1, close_of_step h hstep hclosed.2⟩
    rintro ⟨v, hv, hmem⟩
    rw [hreceives]
    exact ⟨v, hv, List.mem_append_left _ hmem⟩

/-- A receiver is woken without a value only by a close. -/
theorem closed_of_failed (h : r.log.channel.WellFormed xs) {handle : Handle}
    {a : ReceiverAwaiter T} (hstep : r.step op = some r')
    (hw : .receiver handle a ∈ (op.run r.log.channel).2.2) (hv : a.value = none) :
    r'.log.channel.close = true := by
  have hfailed : failed (op.run r.log.channel).2.2 ≠ [] := by
    refine List.ne_nil_of_mem (a := a.id) (List.mem_filterMap.mpr ⟨_, hw, ?_⟩)
    simp [hv]
  by_cases hop : op = .close ∧ r.log.channel.close = false
  · obtain ⟨rfl, hopen⟩ := hop
    rw [reported_channel hstep]
    exact (h.closeChannel hopen).2.1
  · refine absurd (conserves h op fun hclose => ?_).benign.2 hfailed
    by_contra hc
    exact hop ⟨hclose, by simpa using hc⟩

theorem fixed_of_woken (h : r.log.channel.WellFormed xs) (hstep : r.step op = some r') {w : Wake T}
    (hw : w ∈ (op.run r.log.channel).2.2) : Fixed r' w := by
  obtain ⟨-, hsends, hreceives⟩ := Reported.step_eq hstep
  cases w with
  | sender handle a =>
    have hmem : ((some a.id, a.value), .ofExcept a.awaitResume) ∈ r'.sends := by
      rw [hsends]
      refine List.mem_append_right _ (List.mem_append_right _ ?_)
      exact List.mem_filterMap.mpr ⟨_, hw, rfl⟩
    cases hclose : a.close with
    | true => exact .inl hclose
    | false =>
      right
      simpa [SenderAwaiter.awaitResume, hclose] using hmem
  | receiver handle a =>
    have hmem : (.awaiter a.id, a.awaitResume) ∈ r'.receives := by
      rw [hreceives]
      refine List.mem_append_right _ (List.mem_append_left _ ?_)
      exact List.mem_filterMap.mpr ⟨_, hw, rfl⟩
    cases hv : a.value with
    | none => exact .inr ⟨hv, closed_of_failed h hstep hw hv⟩
    | some v =>
      left
      refine ⟨v, hv, ?_⟩
      simpa [ReceiverAwaiter.awaitResume, hv] using hmem

end

/-- The awaiter of an operation is ready or parked. -/
theorem readyTags_parks (c : Channel T) (op : Op T) :
    readyTags c op ++ (op.parksSender c).map Prod.snd ++ (op.parksReceiver c).map Prod.snd =
      op.sendTags ++ op.requestTags := by
  cases op with
  | awaitSend handle id v =>
    rcases hr : (SenderAwaiter.awaitSuspend .ok c handle { id, value := v }).result with e | (- | a)
      <;> simp [readyTags, Op.parksSender, Op.parksReceiver, Op.sendTags, Op.requestTags, hr]
  | awaitReceive handle id =>
    cases hr : (ReceiverAwaiter.awaitSuspend c handle { id }).result <;>
      simp [readyTags, Op.parksSender, Op.parksReceiver, Op.sendTags, Op.requestTags, hr]
  | _ => simp [readyTags, Op.parksSender, Op.parksReceiver, Op.sendTags, Op.requestTags]

end TinyCoroutine.Channel.Calls
