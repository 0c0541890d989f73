import TinyCoroutine.Channel.Reported

/-!
# A closed channel

Once the channel is closed every send fails, and the receives hand out what the buffer held at
that time, in order, and fail only after the last of it. `Drains` states this for a stretch of a
run and composes.
-/
namespace TinyCoroutine.Channel

open Foundation

variable {T : Type*}

/-- A stretch of a run on a closed channel that held `xs` and holds `xs'` at its end. -/
structure Drains (xs : List T) (sends : List (SendReport T)) (receives : List (ReceiveReport T))
    (xs' : List T) : Prop where
  sends : ∀ s ∈ sends, s.2 = .failed channelIsClosed
  receives : ∃ (ys : List (Request × T)) (qs : List Request),
    receives = ys.map (fun y => (y.1, .ok y.2)) ++ qs.map (fun q => (q, .error channelIsClosed)) ∧
      xs = ys.map Prod.snd ++ xs' ∧ (qs ≠ [] → xs' = [])

theorem Drains.refl (xs : List T) : Drains xs [] [] xs :=
  ⟨by simp, [], [], rfl, rfl, by simp⟩

theorem Drains.trans {xs ys zs : List T} {s t : List (SendReport T)} {q r : List (ReceiveReport T)}
    (h : Drains xs s q ys) (g : Drains ys t r zs) : Drains xs (s ++ t) (q ++ r) zs := by
  obtain ⟨hs, as, ps, rfl, rfl, hps⟩ := h
  obtain ⟨ht, bs, qs, rfl, rfl, hqs⟩ := g
  refine ⟨?_, ?_⟩
  · intro p hp
    exact (List.mem_append.mp hp).elim (hs p) (ht p)
  · by_cases hp : ps = []
    · subst hp
      exact ⟨as ++ bs, qs, by simp, by simp, hqs⟩
    · -- after the first failure nothing is left for the second stretch
      obtain ⟨hb, hz⟩ := List.append_eq_nil_iff.mp (hps hp)
      obtain rfl := List.map_eq_nil_iff.mp hb
      exact ⟨as, ps ++ qs, by simp, by simp [hz], fun _ => hz⟩

section

variable {c : Channel T} {xs : List T}

theorem closed_takeBuffered {x : T} (h : c.WellFormed (x :: xs)) (hc : c.close = true) :
    c.takeBuffered.1 = some x ∧ c.takeBuffered.2.1.WellFormed xs ∧
      c.takeBuffered.2.1.close = true ∧ c.takeBuffered.2.2 = [] := by
  obtain ⟨hv, hwf, -, -, hclose, hwakes⟩ := h.takeBuffered
  have hs := (h.closed hc).1
  refine ⟨hv, ?_, hclose.trans hc, ?_⟩
  · simpa [hs] using hwf
  · simpa [hs] using hwakes

/-- A batch receive on a closed channel takes the first values of the buffer. -/
theorem closed_receiveLoop (h : c.WellFormed xs) (hc : c.close = true) (n : Nat) :
    (c.receiveLoop n).1 = xs.take n ∧ (c.receiveLoop n).2.1.WellFormed (xs.drop n) ∧
      (c.receiveLoop n).2.1.close = true ∧ (c.receiveLoop n).2.2 = [] := by
  induction n generalizing c xs with
  | zero => exact ⟨by simp [receiveLoop], by simpa [receiveLoop] using h, hc, rfl⟩
  | succ n ih =>
    cases hempty : c.isEmpty with
    | false =>
      obtain ⟨x, rest, rfl⟩ := h.cons_of_count (isEmpty_eq_false.mp hempty)
      obtain ⟨hv, hwf, hclose, hwakes⟩ := closed_takeBuffered h hc
      obtain ⟨htake, hdrop, hstill, hnone⟩ := ih hwf hclose
      simp only [receiveLoop, hempty, Bool.not_false, if_true, hv, htake, hwakes, hnone]
      exact ⟨by simp, hdrop, hstill, rfl⟩
    | true =>
      obtain rfl : xs = [] := h.nil_of_count (by simpa [isEmpty] using hempty)
      simp only [receiveLoop, hempty, Bool.not_true, Bool.false_eq_true, if_false,
        (h.closed hc).1]
      exact ⟨by simp, by simpa using h, hc, trivial⟩

/-- The answer to a receive that found a value or nothing, on a closed channel. -/
def orClosed : Option T → Except Exn T
  | some x => .ok x
  | none => .error channelIsClosed

theorem closed_awaitReceive (h : c.WellFormed xs) (hc : c.close = true) (handle : Handle)
    (id : Nat) :
    ∃ a, (ReceiverAwaiter.awaitSuspend c handle { id }).result = .ready a ∧
      a.awaitResume = orClosed xs.head? ∧
      (ReceiverAwaiter.awaitSuspend c handle { id }).wakes = [] ∧
      (ReceiverAwaiter.awaitSuspend c handle { id }).channel.WellFormed xs.tail ∧
      (ReceiverAwaiter.awaitSuspend c handle { id }).channel.close = true := by
  cases xs with
  | cons x rest =>
    have hempty : c.isEmpty = false := by simp [h.count]
    obtain ⟨hv, hwf, hclose, hwakes⟩ := closed_takeBuffered h hc
    simp only [ReceiverAwaiter.awaitSuspend, hempty, Bool.not_false, if_true]
    exact ⟨_, rfl, by simp [ReceiverAwaiter.awaitResume, hv, orClosed], hwakes, hwf, hclose⟩
  | nil =>
    have hempty : c.isEmpty = true := by simp [isEmpty, h.count]
    simp only [ReceiverAwaiter.awaitSuspend, hempty, hc, Bool.not_true, Bool.false_eq_true,
      if_false, if_true]
    exact ⟨_, rfl, rfl, trivial, by simpa using h, by simpa using hc⟩

theorem closed_tryReceive (h : c.WellFormed xs) (hc : c.close = true) :
    c.tryReceive.result = (orClosed xs.head?).map some ∧
      c.tryReceive.wakes = [] ∧ c.tryReceive.channel.WellFormed xs.tail ∧
      c.tryReceive.channel.close = true := by
  cases xs with
  | cons x rest =>
    have hempty : c.isEmpty = false := by simp [h.count]
    obtain ⟨hv, hwf, hclose, hwakes⟩ := closed_takeBuffered h hc
    simp only [tryReceive, hempty, Bool.not_false, if_true]
    exact ⟨by rw [hv]; rfl, hwakes, hwf, hclose⟩
  | nil =>
    have hempty : c.isEmpty = true := by simp [isEmpty, h.count]
    simp only [tryReceive, hempty, hc, (h.closed hc).1, Bool.not_true, Bool.false_eq_true,
      if_false, if_true]
    exact ⟨rfl, trivial, by simpa using h, by simpa using hc⟩

theorem closed_tryReceiveMany (h : c.WellFormed xs) (hc : c.close = true) {n : Nat} (hn : n ≠ 0) :
    (c.tryReceiveMany n).result =
        (if xs.isEmpty then .error channelIsClosed else .ok (xs.take n)) ∧
      (c.tryReceiveMany n).wakes = [] ∧ (c.tryReceiveMany n).channel.WellFormed (xs.drop n) ∧
      (c.tryReceiveMany n).channel.close = true := by
  obtain ⟨hvalues, hwf, hclose, hwakes⟩ := closed_receiveLoop h hc n
  generalize hl : c.receiveLoop n = r at hvalues hwf hclose hwakes
  obtain ⟨values, c', wakes⟩ := r
  obtain rfl : values = xs.take n := hvalues
  obtain rfl : wakes = [] := hwakes
  cases xs with
  | cons x rest =>
    obtain ⟨n, rfl⟩ := Nat.exists_eq_succ_of_ne_zero hn
    simp only [tryReceiveMany, hl, hn, if_false, List.take_succ_cons, List.isEmpty_cons,
      Bool.false_and, Bool.false_eq_true]
    exact ⟨trivial, trivial, hwf, hclose⟩
  | nil =>
    have hclose' : c'.close = true := hclose
    simp only [tryReceiveMany, hl, hn, if_false, List.take_nil, List.isEmpty_nil, Bool.true_and,
      hclose', if_true]
    exact ⟨trivial, trivial, by simpa using hwf, by simpa using hclose⟩

/-- Every operation on a closed channel drains it or fails. It wakes nobody. -/
structure Op.Closed (op : Op T) (c : Channel T) (xs xs' : List T) : Prop where
  drains : Drains xs (op.sendReports c) (op.receiveReports c) xs'
  wellFormed : (op.run c).1.WellFormed xs'
  close : (op.run c).1.close = true
  wakes : (op.run c).2.2 = []

theorem closed_send (h : c.WellFormed xs) (hc : c.close = true) {op : Op T} {k : Counter}
    {d : UInt64} (hrun : (op.run c).1 = c.statsAdd k d ∨ (op.run c).1 = c)
    (hwakes : (op.run c).2.2 = []) (hown : ∀ s ∈ op.ownSends c, s.2 = .failed channelIsClosed)
    (hnone : op.ownReceives c = []) : op.Closed c xs xs := by
  refine ⟨⟨?_, [], [], ?_, rfl, by simp⟩, ?_, ?_, hwakes⟩
  · simpa [Op.sendReports, hwakes, sendOutcomes] using hown
  · simp [Op.receiveReports, hwakes, hnone, receiveOutcomes]
  · rcases hrun with hrun | hrun <;> simpa [hrun] using h
  · rcases hrun with hrun | hrun <;> simpa [hrun] using hc

theorem closed_op (h : c.WellFormed xs) (hc : c.close = true) (op : Op T) :
    ∃ xs', op.Closed c xs xs' := by
  cases op with
  | send id v =>
    refine ⟨xs, closed_send h hc (k := .closedFailures) (d := 1) (.inl ?_) ?_ ?_ rfl⟩ <;>
      simp [Op.run, Op.ownSends, send, hc]
  | awaitSend handle id v =>
    refine ⟨xs, closed_send h hc (k := .closedFailures) (d := 1) (.inl ?_) ?_ ?_ rfl⟩ <;>
      simp [Op.run, Op.ownSends, SenderAwaiter.awaitSuspend, SenderAwaiter.awaitResume, hc]
  | trySend v =>
    refine ⟨xs, closed_send h hc (k := .closedFailures) (d := 1) (.inl ?_) ?_ ?_ rfl⟩ <;>
      simp [Op.run, Op.ownSends, trySend, hc]
  | trySendMany vs =>
    cases vs with
    | nil =>
      refine ⟨xs, closed_send h hc (k := .closedFailures) (d := 1) (.inr ?_) ?_ ?_ rfl⟩ <;>
        simp [Op.run, Op.ownSends, trySendMany]
    | cons v vs =>
      refine ⟨xs, closed_send h hc (k := .closedFailures) (d := 1) (.inl ?_) ?_ ?_ rfl⟩ <;>
        simp [Op.run, Op.ownSends, trySendMany, hc]
  | awaitReceive handle id =>
    obtain ⟨a, hready, hresume, hwakes, hwf, hclose⟩ := closed_awaitReceive h hc handle id
    have hreport : (Op.awaitReceive handle id).receiveReports c =
        [(.awaiter id, a.awaitResume)] := by
      simp [Op.receiveReports, Op.ownReceives, Op.run, hready, hwakes, receiveOutcomes]
    refine ⟨xs.tail, ⟨?_, ?_⟩, hwf, hclose, hwakes⟩
    · simp [Op.sendReports, Op.ownSends, Op.run, hwakes, sendOutcomes]
    · rw [hreport, hresume]
      cases xs with
      | cons x rest => exact ⟨[(.awaiter id, x)], [], by simp [orClosed]⟩
      | nil => exact ⟨[], [.awaiter id], by simp [orClosed]⟩
  | tryReceive =>
    obtain ⟨hresult, hwakes, hwf, hclose⟩ := closed_tryReceive h hc
    refine ⟨xs.tail, ⟨?_, ?_⟩, hwf, hclose, hwakes⟩
    · simp [Op.sendReports, Op.ownSends, Op.run, hwakes, sendOutcomes]
    · simp only [Op.receiveReports, Op.ownReceives, Op.run, hwakes, hresult]
      cases xs with
      | cons x rest => exact ⟨[(.call, x)], [], by simp [receiveOutcomes, orClosed, Except.map]⟩
      | nil => exact ⟨[], [.call], by simp [receiveOutcomes, orClosed, Except.map]⟩
  | tryReceiveMany n =>
    by_cases hn : n = 0
    · subst hn
      refine ⟨xs, closed_send h hc (k := .closedFailures) (d := 1) (.inr ?_) ?_ ?_ ?_⟩ <;>
        simp [Op.run, Op.ownSends, Op.ownReceives, tryReceiveMany]
    · obtain ⟨hresult, hwakes, hwf, hclose⟩ := closed_tryReceiveMany h hc hn
      refine ⟨xs.drop n, ⟨?_, ?_⟩, hwf, hclose, hwakes⟩
      · simp [Op.sendReports, Op.ownSends, Op.run, hwakes, sendOutcomes]
      · simp only [Op.receiveReports, Op.ownReceives, Op.run, hwakes, hresult]
        cases xs with
        | cons x rest =>
          refine ⟨((x :: rest).take n).map fun v => (.call, v), [], ?_, ?_, by simp⟩
          · simp [receiveOutcomes, Function.comp_def]
          · simp [Function.comp_def]
        | nil => exact ⟨[], [.call], by simp [receiveOutcomes]⟩
  | close =>
    refine ⟨xs, closed_send h hc (k := .closedFailures) (d := 1) (.inr ?_) ?_ ?_ rfl⟩ <;>
      simp [Op.run, Op.ownSends, closeChannel, hc]

end

end TinyCoroutine.Channel
