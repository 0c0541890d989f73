import TinyCoroutine.Channel.Wakes

/-!
# The wake-up protocol

Nothing is lost between the wait queues and `reschedule_or_resume`, whatever the threads do in
between and however deep the calls are nested.
-/
namespace TinyCoroutine.Channel.Calls

open Foundation

variable {T : Type*} {s s' : State T}

/-- The awaiters whose `await_suspend` is over. -/
def State.awaited (s : State T) : List Nat :=
  s.ready ++ s.parkedSenders.map Prod.snd ++ s.parkedReceivers.map Prod.snd

/-- The critical section of the call with this number is over. -/
def State.Past (s : State T) (n : Nat) : Prop :=
  n < s.next ∧ ∀ t, ∀ c ∈ s.calls t, c.number = n → begun c.code

/-- The channel, the queues and the records of a state belong together. -/
structure Tracked (s : State T) : Prop where
  accounts : ∃ xs, s.reported.Accounts xs
  senders : s.parkedSenders = wokenSenders (s.removed.map Prod.snd) ++
    waitingSenders s.reported.log.channel
  receivers : s.parkedReceivers = wokenReceivers (s.removed.map Prod.snd) ++
    waitingReceivers s.reported.log.channel
  fixed : ∀ p ∈ s.removed, Fixed s.reported p.2
  once : s.awaited.Nodup
  past : ∀ n ∈ s.awaited ++ s.reported.log.sendersUsed ++ s.reported.log.receiversUsed, s.Past n

theorem tracked_start {c : Channel T} (hc : Constructed c) : Tracked (start c) := by
  obtain ⟨hs, hr⟩ := hc.queues
  refine ⟨⟨[], Reported.start_accounts hc⟩, ?_, ?_, by simp [start],
    by simp [start, State.awaited], ?_⟩
  · simp [start, Reported.start, Logged.start, waitingSenders, hs]
  · simp [start, Reported.start, Logged.start, waitingReceivers, hr]
  · simp [start, State.awaited, Reported.start, Logged.start]

/-- A critical section that has not run yet is not past. -/
theorem not_past {t n : Nat} {op : Op T} {is : List (Instr T)} {b : Bool} {rest : List (Call T)}
    (at_ : s.calls t = ⟨n, .critical op :: is, b⟩ :: rest) : ¬s.Past n := by
  intro h
  have := h.2 t ⟨n, .critical op :: is, b⟩ (by simp [at_]) rfl op
  simp at this

theorem State.Past.replace {m t n : Nat} {is js : List (Instr T)} {b d : Bool}
    {rest : List (Call T)} (h : s.Past m) (at_ : s.calls t = ⟨n, is, b⟩ :: rest)
    (hcalls : s'.calls = Function.update s.calls t (⟨n, js, d⟩ :: rest)) (hnext : s'.next = s.next)
    (hbegun : n = m → begun is → begun js) : s'.Past m := by
  refine ⟨hnext ▸ h.1, fun u c hc hn => ?_⟩
  rw [hcalls, Function.update_apply] at hc
  split_ifs at hc with hu
  · rcases List.mem_cons.mp hc with rfl | hc
    · exact hbegun hn (h.2 t ⟨n, is, b⟩ (by simp [at_]) hn)
    · exact h.2 t c (by simp [at_, hc]) hn
  · exact h.2 u c hc hn

/-- A step that does not touch the channel. -/
theorem Tracked.control (h : Tracked s) (hr : s'.reported = s.reported)
    (hs : s'.parkedSenders = s.parkedSenders) (hv : s'.parkedReceivers = s.parkedReceivers)
    (hready : s'.ready = s.ready) (hremoved : s'.removed = s.removed)
    (hpast : ∀ n, s.Past n → s'.Past n) : Tracked s' := by
  have hawaited : s'.awaited = s.awaited := by simp only [State.awaited, hs, hv, hready]
  obtain ⟨h1, h2, h3, h4, h5, h6⟩ := h
  refine ⟨hr ▸ h1, ?_, ?_, ?_, hawaited ▸ h5, ?_⟩
  · rw [hs, hremoved, hr, h2]
  · rw [hv, hremoved, hr, h3]
  · rw [hremoved, hr]
    exact h4
  · rw [hawaited, hr]
    exact fun n hn => hpast n (h6 n hn)

theorem nodup_tags (op : Op T) : (op.sendTags ++ op.requestTags).Nodup := by
  cases op <;> simp [Op.sendTags, Op.requestTags]

/-- The critical section. -/
theorem Tracked.enter (h : Tracked s) (hf : Frames s) {t n : Nat} {op : Op T}
    {is : List (Instr T)} {rest : List (Call T)} {r : Reported T}
    (at_ : s.calls t = ⟨n, .critical op :: is, false⟩ :: rest) (run : s.reported.step op = some r) :
    Tracked ((s.enter r n op).setCalls t
      (⟨n, is ++ (op.run s.reported.log.channel).2.2.map .reschedule, false⟩ :: rest)) := by
  have hfirst : (⟨n, .critical op :: is, false⟩ : Call T) ∈ s.calls t := by simp [at_]
  obtain ⟨own, rfl⟩ := (hf.shape t _ hfirst).1.of_critical
  obtain ⟨⟨xs, hacc⟩, hsenders, hreceivers, hfixed, honce, hpast⟩ := h
  have hwf := hacc.log.wellFormed
  have hq := queues hwf op
  have hchannel := reported_channel run
  set s' := (s.enter r n op).setCalls t
    (⟨n, [.unlock] ++ (op.run s.reported.log.channel).2.2.map .reschedule, false⟩ :: rest) with hs'
  have hold : ∀ m, s.Past m → s'.Past m := fun m hm =>
    hm.replace at_ rfl rfl fun hmn _ => absurd (hmn ▸ hm) (not_past at_)
  have hself : s'.Past n := by
    refine ⟨(hf.shape t _ hfirst).2.1, fun u c hc hn => ?_⟩
    simp only [hs', State.setCalls, State.enter, Function.update_apply] at hc
    split_ifs at hc with hu
    · rcases List.mem_cons.mp hc with rfl | hc
      · simp [begun]
      · exact absurd hn (hf.number_ne at_ hc)
    · exact absurd (hf.eq_of_number hc hfirst hn).1 hu
  have hmark := (Logged.step_eq (Reported.step_eq run).1).1
  have hawaited : s'.awaited.Perm (s.awaited ++ (op.sendTags ++ op.requestTags)) := by
    rw [← readyTags_parks s.reported.log.channel op]
    simp only [hs', State.awaited, State.setCalls, State.enter, List.map_append]
    refine List.perm_iff_count.mpr fun a => ?_
    simp only [List.count_append]
    omega
  refine ⟨Reported.Accounts.preserved ⟨xs, hacc⟩ run, ?_, ?_, ?_, ?_, ?_⟩
  · simp only [hs', State.setCalls, State.enter, hsenders, List.map_append, wokenSenders_append,
      List.map_map, Function.comp_def, List.map_id', List.append_assoc, hchannel, hq.senders]
  · simp only [hs', State.setCalls, State.enter, hreceivers, List.map_append,
      wokenReceivers_append, List.map_map, Function.comp_def, List.map_id', List.append_assoc,
      hchannel, hq.receivers]
  · intro p hp
    rcases List.mem_append.mp hp with hp | hp
    · exact (hfixed p hp).step hwf run
    · obtain ⟨w, hw, rfl⟩ := List.mem_map.mp hp
      exact fixed_of_woken hwf run hw
  · rw [hawaited.nodup_iff]
    refine List.Nodup.append honce (nodup_tags op) fun id hid htag => ?_
    obtain rfl := own id htag
    exact not_past at_ (hpast id (List.mem_append_left _ (List.mem_append_left _ hid)))
  · intro m hm
    have hcases : m ∈ s.awaited ++ s.reported.log.sendersUsed ++ s.reported.log.receiversUsed ∨
        m ∈ op.sendTags ++ op.requestTags := by
      have hused : r.log.sendersUsed = op.sendTags ++ s.reported.log.sendersUsed ∧
          r.log.receiversUsed = op.requestTags ++ s.reported.log.receiversUsed := by
        rw [hmark]
        exact ⟨rfl, rfl⟩
      simp only [List.mem_append, hawaited.mem_iff] at hm ⊢
      simp only [hs', State.setCalls, State.enter, hused.1, hused.2, List.mem_append] at hm
      tauto
    rcases hcases with hm | hm
    · exact hold m (hpast m hm)
    · rw [own m hm]
      exact hself

theorem Tracked.preserved {hasContext : Nat → Bool} (h : Tracked s) (hf : Frames s)
    (step : Transition hasContext s s') : Tracked s' := by
  cases step with
  | call t op out own =>
    refine h.control rfl rfl rfl rfl rfl fun n hn => ⟨Nat.lt_succ_of_lt hn.1, fun u c hc hnum => ?_⟩
    simp only [State.setCalls, Function.update_apply] at hc
    split_ifs at hc with hu
    · rcases List.mem_cons.mp hc with rfl | hc
      · exact absurd hnum (Nat.ne_of_lt hn.1).symm
      · exact hn.2 t c hc hnum
    · exact hn.2 u c hc hnum
  | @ret t n rest at_ =>
    refine h.control rfl rfl rfl rfl rfl fun m hm => ⟨hm.1, fun u c hc hnum => ?_⟩
    simp only [State.setCalls, Function.update_apply] at hc
    split_ifs at hc with hu
    · exact hm.2 t c (by simp [at_, hc]) hnum
    · exact hm.2 u c hc hnum
  | lock at_ free =>
    exact h.control rfl rfl rfl rfl rfl fun m hm =>
      hm.replace at_ rfl rfl fun _ hb op hop => hb op (List.mem_cons_of_mem _ hop)
  | critical at_ run => exact h.enter hf at_ run
  | unlock at_ =>
    exact h.control rfl rfl rfl rfl rfl fun m hm =>
      hm.replace at_ rfl rfl fun _ hb op hop => hb op (List.mem_cons_of_mem _ hop)
  | reschedule at_ =>
    exact h.control rfl rfl rfl rfl rfl fun m hm =>
      hm.replace at_ rfl rfl fun _ hb op hop => hb op (List.mem_cons_of_mem _ hop)
  | back at_ =>
    exact h.control rfl rfl rfl rfl rfl fun m hm => hm.replace at_ rfl rfl fun _ hb => hb

/-! ## The protocol -/

/-- All three invariants. -/
structure WakeInv (s : State T) : Prop where
  frames : Frames s
  passes : Passes s
  tracked : Tracked s

theorem WakeInv.of_run {hasContext : Nat → Bool} {c : Channel T} (hc : Constructed c)
    (run : Run (step hasContext) Always (start c) s) : WakeInv s := by
  refine run.invariant ⟨frames_start c, passes_start c, tracked_start hc⟩ ?_
  intro s a s' h _ hstep
  have htr := step_transition hstep
  exact ⟨h.frames.preserved htr, h.passes.preserved h.frames htr,
    h.tracked.preserved h.frames htr⟩

/-- Each coroutine was removed once: awaiters do not repeat among the removed ones, and those
that were ready are not among them. -/
theorem Tracked.removed_once (h : Tracked s) :
    (s.ready ++ s.removed.map fun p => awaiter p.2).Nodup := by
  have hperm : ∀ wakes : List (Wake T), (wakes.map awaiter).Perm
      ((wokenSenders wakes).map Prod.snd ++ (wokenReceivers wakes).map Prod.snd) := by
    intro wakes
    induction wakes with
    | nil => exact List.Perm.refl _
    | cons w wakes ih =>
      cases w with
      | sender handle a => simpa [wokenSenders, wokenReceivers, awaiter] using ih
      | receiver handle a =>
        refine (List.Perm.cons a.id ih).trans ?_
        simpa [wokenSenders, wokenReceivers] using List.perm_middle.symm
  have hremoved := hperm (s.removed.map Prod.snd)
  rw [List.map_map] at hremoved
  refine (hremoved.append_left s.ready).nodup_iff.mpr ?_
  refine h.once.sublist ?_
  rw [State.awaited, h.senders, h.receivers, List.map_append, List.map_append, ← List.append_assoc]
  refine List.Sublist.append ?_ (List.sublist_append_left _ _)
  exact List.Sublist.append_left (List.sublist_append_left _ _) _

/-- What a call has passed on, it has removed. -/
theorem Passes.subset (h : Passes s) {p : Nat × Wake T} (hp : p ∈ s.rescheduled) :
    p ∈ s.removed := by
  obtain ⟨n, w⟩ := p
  rw [← mem_ofCall] at hp ⊢
  by_cases hactive : ∃ t, ∃ c ∈ s.calls t, c.number = n
  · obtain ⟨t, c, hc, rfl⟩ := hactive
    rw [h.active t c hc]
    exact List.mem_append_left _ hp
  · rw [h.settled n fun t c hc hn => hactive ⟨t, c, hc, hn⟩]
    exact hp

theorem WakeInv.rescheduled_once (h : WakeInv s) :
    (s.rescheduled.map fun p => awaiter p.2).Nodup := by
  have honce := h.tracked.removed_once.of_append_right
  have hremoved : s.removed.Nodup := honce.of_map _
  have hlist : s.rescheduled.Nodup := by
    refine nodup_of_ofCall fun n => ?_
    have hn : (ofCall n s.removed).Nodup := by
      refine List.Nodup.map_on ?_ (hremoved.filter _)
      intro p hp q hq heq
      have hpn := (List.mem_filter.mp hp).2
      have hqn := (List.mem_filter.mp hq).2
      simp only [beq_iff_eq] at hpn hqn
      exact Prod.ext (hpn.trans hqn.symm) heq
    by_cases hactive : ∃ t, ∃ c ∈ s.calls t, c.number = n
    · obtain ⟨t, c, hc, rfl⟩ := hactive
      rw [h.passes.active t c hc] at hn
      exact hn.of_append_left
    · rwa [h.passes.settled n fun t c hc hn => hactive ⟨t, c, hc, hn⟩] at hn
  refine List.Nodup.map_on ?_ hlist
  intro p hp q hq heq
  exact List.inj_on_of_nodup_map honce (h.passes.subset hp) (h.passes.subset hq) heq

theorem reported_step_isSome {r : Reported T} {op : Op T}
    (hs : ∀ id ∈ op.sendTags, id ∉ r.log.sendersUsed)
    (hr : ∀ id ∈ op.requestTags, id ∉ r.log.receiversUsed) : ∃ r', r.step op = some r' := by
  cases op with
  | awaitSend handle id v =>
    have := hs id (by simp [Op.sendTags])
    exact ⟨_, by rw [Reported.step, Logged.step, if_neg this]; rfl⟩
  | awaitReceive handle id =>
    have := hr id (by simp [Op.requestTags])
    exact ⟨_, by rw [Reported.step, Logged.step, if_neg this]; rfl⟩
  | _ => exact ⟨_, rfl⟩

theorem exec_unlock (hasContext : Nat → Bool) {t n : Nat} {is : List (Instr T)}
    {rest : List (Call T)} (at_ : s.calls t = ⟨n, .unlock :: is, false⟩ :: rest) :
    ∃ s', step hasContext s (.exec t) = some s' ∧ s'.owner = none := by
  simp only [step, at_]
  exact ⟨_, rfl, rfl⟩

/-- The thread that holds the mutex releases it by itself, in at most two steps. -/
theorem WakeInv.release (h : WakeInv s) (hasContext : Nat → Bool) {u : Nat}
    (howner : s.owner = some u) :
    ∃ s₁, step hasContext s (.exec u) = some s₁ ∧
      (s₁.owner = none ∨ ∃ s₂, step hasContext s₁ (.exec u) = some s₂ ∧ s₂.owner = none) := by
  obtain ⟨c, hc, hholds⟩ := (h.frames.mutex u).mp howner
  have hmem := List.mem_of_mem_head? hc
  obtain ⟨rest, hcalls⟩ : ∃ rest, s.calls u = c :: rest := by
    cases hcs : s.calls u with
    | nil => simp [hcs] at hc
    | cons d rest => exact ⟨rest, by simpa [hcs, eq_comm] using hc⟩
  obtain ⟨n, is, b⟩ := c
  have hb : b = false := by
    cases hb : b with
    | false => rfl
    | true =>
      rw [h.frames.not_holds_of_resuming hmem hb] at hholds
      cases hholds
  subst hb
  have hshape := (h.frames.shape u _ hmem).1
  generalize hn : (⟨n, is, false⟩ : Call T).number = m at hshape
  obtain rfl : n = m := hn
  cases hshape with
  | entering => cases hholds
  | waking wakes =>
    rw [holds_wakes] at hholds
    cases hholds
  | leaving wakes =>
    obtain ⟨s₁, hs₁, hfree⟩ := exec_unlock hasContext hcalls
    exact ⟨s₁, hs₁, .inl hfree⟩
  | inside op own =>
    have hfresh : ∀ id ∈ op.sendTags ++ op.requestTags,
        id ∉ s.reported.log.sendersUsed ∧ id ∉ s.reported.log.receiversUsed := by
      intro id hid
      obtain rfl := own id hid
      have hpast := h.tracked.past
      refine ⟨fun hused => not_past hcalls (hpast _ ?_), fun hused => not_past hcalls (hpast _ ?_)⟩
      · exact List.mem_append_left _ (List.mem_append_right _ hused)
      · exact List.mem_append_right _ hused
    obtain ⟨r, hr⟩ := reported_step_isSome (r := s.reported)
      (fun id hid => (hfresh id (List.mem_append_left _ hid)).1)
      (fun id hid => (hfresh id (List.mem_append_right _ hid)).2)
    refine ⟨_, by simp only [step, hcalls, hr]; rfl, .inr ?_⟩
    exact exec_unlock hasContext (n := n) (by simp only [State.setCalls, Function.update_self]; rfl)

/-- The wake-up protocol. -/
structure WakeProtocol (hasContext : Nat → Bool) (s : State T) : Prop where
  /-- Who has parked has been removed, first come first served, or waits. -/
  senders : s.parkedSenders = wokenSenders (s.removed.map Prod.snd) ++
    waitingSenders s.reported.log.channel
  receivers : s.parkedReceivers = wokenReceivers (s.removed.map Prod.snd) ++
    waitingReceivers s.reported.log.channel
  /-- An awaiter is ready or parks, and this once. -/
  awaitedOnce : s.awaited.Nodup
  /-- A call has passed on a first part of what it removed; the rest is what its code passes on
  next. -/
  passing : ∀ t, ∀ c ∈ s.calls t, ofCall c.number s.removed =
    ofCall c.number s.rescheduled ++ pending c.code
  passed : ∀ n ∈ s.returned, ofCall n s.removed = ofCall n s.rescheduled
  rescheduledOnce : (s.rescheduled.map fun p => awaiter p.2).Nodup
  onlyRemoved : ∀ p ∈ s.rescheduled, p ∈ s.removed
  readyNever : ∀ p ∈ s.rescheduled, awaiter p.2 ∉ s.ready
  fixed : ∀ p ∈ s.removed, Fixed s.reported p.2
  movedOnce : (reportedSenders s.reported.sends).Nodup ∧
    (sent s.reported.sends).map Prod.snd =
      (received s.reported.receives).map Prod.snd ++ s.reported.log.channel.contents
  unlocked : ∀ t n w is b rest, s.calls t = ⟨n, .reschedule w :: is, b⟩ :: rest →
    s.owner ≠ some t
  /-- A coroutine that was resumed inline can call any operation: the mutex is free, or another
  thread holds it and releases it by itself. -/
  callable : ∀ t, s.outside t → ∀ op : Op T,
    (∀ id ∈ op.sendTags ++ op.requestTags, id = s.next) →
    (step hasContext s (.call t op)).isSome ∧ s.owner ≠ some t
  released : ∀ u, s.owner = some u → ∃ s₁, step hasContext s (.exec u) = some s₁ ∧
    (s₁.owner = none ∨ ∃ s₂, step hasContext s₁ (.exec u) = some s₂ ∧ s₂.owner = none)

/-- The protocol holds in every state that any interleaving of calls on any threads reaches. -/
theorem wake_up_protocol {hasContext : Nat → Bool} {c : Channel T} (hc : Constructed c)
    (run : Run (step hasContext) Always (start c) s) : WakeProtocol hasContext s := by
  have h := WakeInv.of_run hc run
  obtain ⟨xs, hacc⟩ := h.tracked.accounts
  constructor
  · exact h.tracked.senders
  · exact h.tracked.receivers
  · exact h.tracked.once
  · exact h.passes.active
  · exact fun n hn => h.passes.settled n (h.passes.returned n hn).2
  · exact h.rescheduled_once
  · exact fun p hp => h.passes.subset hp
  · intro p hp hready
    refine List.disjoint_of_nodup_append h.tracked.removed_once hready ?_
    exact List.mem_map.mpr ⟨p, h.passes.subset hp, rfl⟩
  · exact h.tracked.fixed
  · obtain rfl : s.reported.log.channel.contents = xs := hacc.log.wellFormed.ring.contents
    exact ⟨(List.nodup_append.mp (hacc.senders.nodup_iff.mpr hacc.sendersOnce)).1, hacc.values⟩
  · intro t n w is b rest at_ howner
    cases (h.frames.owner_iff at_).mp howner
  · intro t hout op hop
    refine ⟨?_, h.frames.not_owner_of_outside hout⟩
    simp only [step, if_pos (And.intro hout hop), Option.isSome_some]
  · exact fun u howner => h.release hasContext howner

/-- A receiver parks on one thread; a thread without context sends to it, resumes it inline, and
the resumed coroutine holds the mutex of the same channel. -/
theorem wake_up_protocol_inline :
    ∃ s : State Nat, Run (step fun _ => false) Always (start sampleChannel) s ∧
      WakeProtocol (fun _ => false) s ∧ s.owner = some 1 ∧ (s.calls 1).length = 2 ∧
      s.parkedReceivers = [(7, 0)] ∧
      s.rescheduled.map (fun p => (p.1, awaiter p.2)) = [(1, 0)] := by
  obtain ⟨s, hs, hstate⟩ := exists_run (step fun _ => false) Always (start sampleChannel)
    [.call 0 (.awaitReceive 7 0), .exec 0, .exec 0, .exec 0, .exec 0, .call 1 (.trySend 5), .exec 1,
      .exec 1, .exec 1, .exec 1, .call 1 (.trySend 6), .exec 1]
    (fun s => s.owner = some 1 ∧ (s.calls 1).length = 2 ∧ s.parkedReceivers = [(7, 0)] ∧
      s.rescheduled.map (fun p => (p.1, awaiter p.2)) = [(1, 0)]) (by decide)
  exact ⟨s, hs, wake_up_protocol ⟨false, .inr ⟨1, rfl⟩⟩ hs, hstate⟩

end TinyCoroutine.Channel.Calls
