import TinyCoroutine.Channel.Close
import TinyCoroutine.Channel.Sessions

/-!
# The close contract

What `close()` promises to those that are parked, to those that come later and to the values in
the buffer. It holds along every session that nothing disturbs. A reservation of memory that
fails makes `try_receive_many` throw something else than `"channel is closed"`, and an exception
of an iterator makes `try_send_many` fail with a value already in the buffer.
-/
namespace TinyCoroutine.Channel

open Foundation

variable {T : Type*}

/-- What every call on a closed channel does. -/
structure AnswersClosed (c : Channel T) : Prop where
  queues : c.senderQueue = [] ∧ c.receiverQueue = []
  parksNobody : ∀ a : Operation T,
    (a.run c).1.senderQueue = [] ∧ (a.run c).1.receiverQueue = []
  awaitSend : ∀ (move : T → Except Exn T) (handle : Handle) (a : SenderAwaiter T),
    ∃ b, (a.awaitSuspend move c handle).result = .ok (.ready b) ∧
      b.awaitResume = .error channelIsClosed
  send : ∀ id item, (c.sendItem id item).result = .error channelIsClosed
  trySend : ∀ item, (c.trySend item).result = .error channelIsClosed
  trySendMany : ∀ items, items ≠ [] → (c.trySendMany items).result = .error channelIsClosed
  awaitReceive : ∀ (handle : Handle) (id : Nat),
    ∃ b, (ReceiverAwaiter.awaitSuspend c handle { id }).result = .ready b ∧
      b.awaitResume = orClosed c.contents.head?
  tryReceive : c.tryReceive.result = (orClosed c.contents.head?).map some
  tryReceiveMany : ∀ (mem : Allocator) (n : Nat), 1 ≤ n → mem.reserve n = .ok () →
    (c.tryReceiveManyReserved mem n).result =
      if c.contents.isEmpty then .error channelIsClosed else .ok (c.contents.take n)

/-- The contract between the state `l` before `close()`, the state `k` after it and a later
state `m`. -/
structure CloseContract (l k m : Session T) : Prop where
  parkedSendersFail : ∀ s ∈ parkedSends l.channel, (s, .failed channelIsClosed) ∈ k.sends
  parkedReceiversFail : ∀ id ∈ parkedReceivers l.channel,
    (.awaiter id, .error channelIsClosed) ∈ k.receives
  sendersToldOnce : (reportedSenders m.sends).Nodup
  receiversToldOnce : (reportedReceivers m.receives).Nodup
  laterSendsFail : ∃ sends, m.sends = k.sends ++ sends ∧
    ∀ s ∈ sends, s.2 = .failed channelIsClosed
  successes : (sent m.sends).map Prod.snd =
    (received m.receives).map Prod.snd ++ m.channel.contents
  success_iff : (m.sends.map fun s => s.1.2).Nodup → ∀ s ∈ m.sends,
    (s.2 = .done ↔ s.1.2 ∈ (received m.receives).map Prod.snd ∨ s.1.2 ∈ m.channel.contents)
  drained : ∃ (ys : List (Request × T)) (qs : List Request),
    m.receives = k.receives ++ (ys.map (fun y => (y.1, .ok y.2)) ++
      qs.map fun q => (q, .error channelIsClosed)) ∧
    l.channel.contents = ys.map Prod.snd ++ m.channel.contents ∧
    (qs ≠ [] → m.channel.contents = [])
  answers : m.channel.AnswersClosed

/-! ## A closed channel stays closed -/

section

variable {c : Channel T} {xs : List T}

theorem Operation.closed (h : c.WellFormed xs) (hc : c.close = true) (a : Operation T) :
    (a.run c).1.close = true := by
  cases a with
  | op op =>
    obtain ⟨xs', hop⟩ := closed_op h hc op
    exact hop.close
  | sendThrows e => simp [run, sendItem, hc]
  | awaitSendThrows handle id v e => simp [run, SenderAwaiter.awaitSuspend, hc]
  | trySendThrows e => simp [run, Channel.trySend, hc]
  | trySendMany items =>
    cases items with
    | nil => simpa [run, Channel.trySendMany] using hc
    | cons item items => simp [run, Channel.trySendMany, hc]
  | tryReceiveMany mem n =>
    obtain ⟨heq, -⟩ | ⟨e, -, -, heq⟩ := c.tryReceiveManyReserved_cases mem n
    · obtain ⟨xs', hop⟩ := closed_op h hc (.tryReceiveMany n)
      simpa only [run, heq, Op.run] using hop.close
    · simpa only [run, heq] using hc
  | resetStats => simpa [run] using hc

theorem WellFormed.answersClosed (h : c.WellFormed xs) (hc : c.close = true) :
    c.AnswersClosed := by
  obtain rfl : c.contents = xs := h.ring.contents
  constructor
  · exact h.closed hc
  · intro a
    obtain ⟨xs', hwf⟩ := a.wellFormed h
    exact hwf.closed (a.closed h hc)
  · intro move handle a
    exact ⟨{ a with close := true }, by simp [SenderAwaiter.awaitSuspend, hc],
      by simp [SenderAwaiter.awaitResume]⟩
  · simp [sendItem, hc]
  · simp [Channel.trySend, hc]
  · intro items hne
    simp [Channel.trySendMany, hc, hne]
  · intro handle id
    obtain ⟨a, hready, hresume, -⟩ := closed_awaitReceive h hc handle id
    exact ⟨a, hready, hresume⟩
  · exact (closed_tryReceive h hc).1
  · intro mem n hn hmem
    rw [c.tryReceiveManyReserved_eq (.inr hmem)]
    exact (closed_tryReceiveMany h hc (Nat.one_le_iff_ne_zero.mp hn)).1

end

/-- After close, a session drains the buffer. -/
theorem Session.drains_of_run {k m : Session T} {xs : List T} (h : k.channel.WellFormed xs)
    (hc : k.channel.close = true) (run : Run Session.step Undisturbed k m) :
    ∃ xs' sends receives, m.channel.WellFormed xs' ∧ m.channel.close = true ∧
      m.sends = k.sends ++ sends ∧ m.receives = k.receives ++ receives ∧
      Drains xs sends receives xs' := by
  refine run.invariant (I := fun m => ∃ xs' sends receives, m.channel.WellFormed xs' ∧
      m.channel.close = true ∧ m.sends = k.sends ++ sends ∧
      m.receives = k.receives ++ receives ∧ Drains xs sends receives xs')
    ⟨xs, [], [], h, hc, by simp, by simp, .refl xs⟩ ?_
  rintro m a n ⟨xs', sends, receives, hwf, hclose, hsends, hreceives, hdrains⟩ hu hstep
  obtain ⟨-, rfl⟩ := step_eq hstep
  obtain ⟨op, hop⟩ | rfl := hu.performs m.channel
  · obtain ⟨xs'', hclosed⟩ := closed_op hwf hclose op
    refine ⟨xs'', _, _, ?_, ?_, ?_, ?_, hdrains.trans hclosed.drains⟩
    · simpa only [hop.run] using hclosed.wellFormed
    · simpa only [hop.run] using hclosed.close
    · simp only [hop.run, hop.ownSends, hsends, Op.sendReports, List.append_assoc]
    · simp only [hop.run, hop.ownReceives, hreceives, Op.receiveReports, List.append_assoc]
  · exact ⟨xs', sends, receives, hwf.resetStats, by simpa [Operation.run] using hclose,
      by simpa [Operation.run, Operation.ownSends, sendOutcomes] using hsends,
      by simpa [Operation.run, Operation.ownReceives, receiveOutcomes] using hreceives, hdrains⟩

/-! ## The contract -/

theorem mem_sent {sends : List (SendReport T)} {s : Option Nat × T} :
    s ∈ sent sends ↔ (s, .done) ∈ sends := by
  simp only [sent, List.mem_filterMap, Prod.exists]
  constructor
  · rintro ⟨a, b, r, hr, hs⟩
    cases r <;> simp_all
  · intro h
    exact ⟨s.1, s.2, .done, h, rfl⟩

theorem Reported.Accounts.success_iff {r : Reported T} {xs : List T} (h : r.Accounts xs)
    (hnodup : (r.sends.map fun s => s.1.2).Nodup) {s : SendReport T} (hs : s ∈ r.sends) :
    s.2 = .done ↔ s.1.2 ∈ (received r.receives).map Prod.snd ∨ s.1.2 ∈ xs := by
  rw [← List.mem_append, ← h.values, List.mem_map]
  constructor
  · intro hdone
    exact ⟨s.1, mem_sent.mpr (hdone ▸ hs), rfl⟩
  · rintro ⟨t, ht, hvalue⟩
    have hsame := List.inj_on_of_nodup_map hnodup hs (mem_sent.mp ht) hvalue.symm
    rw [hsame]

/-- The close contract, for every constructed channel, every open state it can reach and every
way to go on after `close()`, as long as no client code throws and every reservation
succeeds. -/
theorem close_contract {c : Channel T} (hc : Constructed c) {l k m : Session T}
    (before : Run Session.step Undisturbed (Session.start c) l)
    (hopen : l.channel.close = false) (hclose : l.step (.op .close) = some k)
    (after : Run Session.step Undisturbed k m) : CloseContract l k m := by
  obtain ⟨xs, rl, rfl, hl⟩ := Session.Accounts.of_run hc before
  obtain ⟨rk, hstep, rfl⟩ := Reported.step_of_performs ⟨rfl, rfl, rfl, rfl, rfl⟩ hclose
  obtain ⟨hk, hclosed, hsends, hreceives⟩ := hl.close hopen hstep
  obtain ⟨ys, rm, rfl, hm⟩ : ∃ ys, m.Accounts ys :=
    after.invariant (I := fun m => ∃ ys, m.Accounts ys) ⟨xs, rk, rfl, hk⟩
      fun h hu hstep => Session.Accounts.step h hu hstep
  obtain ⟨xs', sends, receives, hwf, hstill, hsends', hreceives', hdrains⟩ :=
    Session.drains_of_run hk.log.wellFormed hclosed after
  obtain ⟨hfail, given, refused, hsplit, hcontents, hempty⟩ := hdrains
  obtain rfl : rl.log.channel.contents = xs := hl.log.wellFormed.ring.contents
  obtain rfl : rm.log.channel.contents = xs' := hwf.ring.contents
  obtain rfl : rm.log.channel.contents = ys := hm.log.wellFormed.ring.contents
  constructor
  · intro s hs
    rw [Reported.session, hsends]
    exact List.mem_append_right _ (List.mem_map_of_mem hs)
  · intro id hid
    rw [Reported.session, hreceives]
    exact List.mem_append_right _ (List.mem_map_of_mem hid)
  · exact (List.nodup_append.mp (hm.senders.nodup_iff.mpr hm.sendersOnce)).1
  · exact (List.nodup_append.mp (hm.receivers.nodup_iff.mpr hm.receiversOnce)).1
  · exact ⟨sends, hsends', hfail⟩
  · exact hm.values
  · exact fun hnodup s hs => hm.success_iff hnodup hs
  · exact ⟨given, refused, by rw [hreceives', hsplit], hcontents, hempty⟩
  · exact hwf.answersClosed hstill

/-- Capacity one: a sender parks behind the buffered value when the channel is closed, and
another awaits its awaiter too late. -/
theorem close_contract_parked_sender :
    ∃ l k m : Session Nat,
      Run Session.step Undisturbed (Session.start sampleChannel) l ∧
      l.step (.op .close) = some k ∧ CloseContract l k m ∧
      m.sends = [((some 1, 5), .done), ((some 2, 6), .failed channelIsClosed),
        ((some 3, 7), .failed channelIsClosed)] ∧
      received m.receives = [(.call, 5)] ∧ m.receives.length = 2 := by
  obtain ⟨l, hl⟩ : ∃ l, exec Session.step Undisturbed (Session.start sampleChannel)
      [.op (.awaitSend 1 1 5), .op (.awaitSend 2 2 6)] = some l := ⟨_, rfl⟩
  obtain ⟨k, hk⟩ : ∃ k, exec Session.step Undisturbed l [.op .close] = some k := by
    cases hl
    exact ⟨_, rfl⟩
  obtain ⟨m, hm⟩ : ∃ m, exec Session.step Undisturbed k
      [.op (.awaitSend 3 3 7), .tryReceiveMany ⟨8, fun _ => true⟩ 4, .op .tryReceive] = some m := by
    cases hl
    cases hk
    exact ⟨_, rfl⟩
  have before := Run.of_exec .refl hl
  have after := Run.of_exec .refl hm
  cases hl
  cases hk
  cases hm
  exact ⟨_, _, _, before, rfl, close_contract ⟨false, .inr ⟨1, rfl⟩⟩ before rfl rfl after,
    by decide, by decide, by decide⟩

/-- A later report that is neither a value nor `"channel is closed"` is against the contract. -/
theorem not_drained {l k m : Session T} {e : Exn} (hk : k.receives = [])
    (hm : m.receives = [(.call, .error e)]) (he : e ≠ channelIsClosed) : ¬CloseContract l k m := by
  intro h
  obtain ⟨ys, qs, hreceives, -, -⟩ := h.drained
  rw [hk, hm, List.nil_append] at hreceives
  have hmem : (.call, .error e) ∈
      ys.map (fun y => ((y.1, .ok y.2) : ReceiveReport T)) ++
        qs.map fun q => (q, .error channelIsClosed) := hreceives ▸ List.mem_singleton_self _
  simp only [List.mem_append, List.mem_map, Prod.mk.injEq, Except.error.injEq, reduceCtorEq,
    and_false, exists_false, false_or] at hmem
  obtain ⟨q, -, -, hclosed⟩ := hmem
  exact he hclosed.symm

/-- On a closed empty channel `try_receive_many` throws `length_error` for the largest
`max_items`, and `bad_alloc` for one that the vector could have but the memory does not. A batch
send that its iterator throws out of has failed, and its first value is in the buffer. -/
theorem close_contract_disturbed :
    (∃ k m, (Session.start sampleChannel).step (.op .close) = some k ∧
      k.step (.tryReceiveMany ⟨2 ^ 61 - 1, fun _ => true⟩ (2 ^ 64 - 1)) = some m ∧
      m.receives = [(.call, .error (.lengthError "vector::reserve"))] ∧
      ¬CloseContract (Session.start sampleChannel) k m) ∧
    (∃ k m, (Session.start sampleChannel).step (.op .close) = some k ∧
      k.step (.tryReceiveMany ⟨2 ^ 61 - 1, fun n => n < 2 ^ 40⟩ (2 ^ 61 - 1)) = some m ∧
      m.receives = [(.call, .error .badAlloc)] ∧
      ¬CloseContract (Session.start sampleChannel) k m) ∧
    ∃ l k, (Session.start sampleChannel).step
        (.trySendMany [.value 5, .iteratorThrows (.client 1)]) = some l ∧
      l.step (.op .close) = some k ∧ k.sends = [((none, 5), .failed (.client 1))] ∧
      k.channel.contents = [5] ∧ ¬CloseContract l k k := by
  refine ⟨⟨_, _, rfl, rfl, rfl, not_drained rfl rfl (by decide)⟩,
    ⟨_, _, rfl, rfl, rfl, not_drained rfl rfl (by decide)⟩, _, _, rfl, rfl, rfl, rfl, fun h => ?_⟩
  have hvalues := h.successes
  revert hvalues
  decide

end TinyCoroutine.Channel
