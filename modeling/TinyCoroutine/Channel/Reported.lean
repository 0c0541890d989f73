import TinyCoroutine.Channel.ReceiveReports

/-!
# The reports along a run

A run is kept with everything its clients have been told. The account ties this to the log:
the sends that succeeded carry the values given and the values still in the buffer, in this
order, and no awaiter is told twice.
-/
namespace TinyCoroutine.Channel

open Foundation

variable {T : Type*}

theorem Constructed.queues {c : Channel T} (hc : Constructed c) :
    c.senderQueue = [] ∧ c.receiverQueue = [] := by
  have h := hc.accounts
  obtain ⟨settled, hacc, -⟩ := h.sends
  have hreq := h.requests
  refine ⟨?_, by simpa [Logged.start, parkedRequests] using hreq⟩
  have : settled = [] ∧ c.senderQueue = [] := by simpa [Logged.start, parkedSends] using hacc
  exact this.2

/-- A logged channel with all outcomes so far. -/
structure Reported (T : Type*) where
  log : Logged T
  sends : List (SendReport T)
  receives : List (ReceiveReport T)

namespace Reported

def start (c : Channel T) : Reported T := ⟨Logged.start c, [], []⟩

def step (r : Reported T) (op : Op T) : Option (Reported T) :=
  (r.log.step op).map fun l =>
    ⟨l, r.sends ++ op.sendReports r.log.channel, r.receives ++ op.receiveReports r.log.channel⟩

theorem step_eq {r s : Reported T} {op : Op T} (h : r.step op = some s) :
    r.log.step op = some s.log ∧ s.sends = r.sends ++ op.sendReports r.log.channel ∧
      s.receives = r.receives ++ op.receiveReports r.log.channel := by
  obtain ⟨l, hl, rfl⟩ := Option.map_eq_some_iff.mp h
  exact ⟨hl, rfl, rfl⟩

/-- The sends that succeeded are the accepted ones that no longer wait, the values received
are the given ones, and an awaiter that was awaited is parked or has been told once. -/
structure Accounts (r : Reported T) (xs : List T) : Prop where
  log : r.log.Accounts xs
  accepted : r.log.accepted = sent r.sends ++ parkedSends r.log.channel
  given : r.log.given = received r.receives
  senders : (reportedSenders r.sends ++ parkedSenders r.log.channel).Perm r.log.sendersUsed
  receivers :
    (reportedReceivers r.receives ++ parkedReceivers r.log.channel).Perm r.log.receiversUsed
  sendersOnce : r.log.sendersUsed.Nodup
  receiversOnce : r.log.receiversUsed.Nodup

variable {r s : Reported T} {xs : List T}

theorem Accounts.values (h : r.Accounts xs) :
    (sent r.sends).map Prod.snd = (received r.receives).map Prod.snd ++ xs := by
  obtain ⟨settled, hacc, hsettled⟩ := h.log.sends
  obtain rfl : sent r.sends = settled := List.append_cancel_right (h.accepted.symm.trans hacc)
  rw [hsettled, h.given]

theorem start_accounts {c : Channel T} (hc : Constructed c) : (start c).Accounts [] := by
  obtain ⟨hs, hr⟩ := hc.queues
  refine ⟨hc.accounts, ?_, rfl, ?_, ?_, List.nodup_nil, List.nodup_nil⟩
  · simp [start, Logged.start, parkedSends, hs, sent]
  · simp [start, Logged.start, parkedSenders, hs, reportedSenders]
  · simp [start, Logged.start, parkedReceivers, hr, reportedReceivers]

theorem perm_tags {old new parked parked' used tags : List Nat}
    (h : (old ++ parked).Perm used) (g : (new ++ parked').Perm (parked ++ tags)) :
    ((old ++ new) ++ parked').Perm (tags ++ used) := by
  calc
    ((old ++ new) ++ parked').Perm (old ++ (parked ++ tags)) := by
      rw [List.append_assoc]
      exact g.append_left old
    _ |>.Perm (used ++ tags) := by
      rw [← List.append_assoc]
      exact h.append_right tags
    _ |>.Perm (tags ++ used) := List.perm_append_comm

/-- An operation other than a successful close. -/
theorem Accounts.step {op : Op T} (h : r.Accounts xs)
    (hop : op = .close → r.log.channel.close = true)
    (hstep : r.step op = some s) : ∃ xs', s.Accounts xs' := by
  obtain ⟨hlog, hsends, hreceives⟩ := step_eq hstep
  obtain ⟨hmark, hfresh, hfresh'⟩ := Logged.step_eq hlog
  obtain ⟨xs', hacc⟩ := h.log.step hop hfresh hfresh'
  have hben := (conserves h.log.wellFormed op hop).benign
  have ht := tells h.log.wellFormed op hop
  obtain ⟨hsenders, hreceivers⟩ := (queues h.log.wellFormed op).told
  rw [← hmark] at hacc
  rw [Logged.record_of_benign _ _ hben] at hmark
  refine ⟨xs', hacc, ?_, ?_, ?_, ?_, ?_, ?_⟩
  · rw [hsends, sent_append, hmark]
    simp only [Logged.mark, h.accepted, List.append_assoc, ht.settles]
  · rw [hreceives, received_append, hmark]
    simp only [Logged.mark, h.given, ht.gives]
  · rw [hsends, reportedSenders_append, hmark]
    exact perm_tags h.senders hsenders
  · rw [hreceives, reportedReceivers_append, hmark]
    exact perm_tags h.receivers hreceivers
  · rw [hmark]
    exact List.Nodup.append op.sendTags_nodup h.sendersOnce hfresh
  · rw [hmark]
    exact List.Nodup.append op.requestTags_nodup h.receiversOnce hfresh'

theorem reported_failed (l : List (Option Nat × T)) (e : Exn) :
    reportedSenders (l.map fun s => (s, .failed e)) = l.filterMap Prod.fst ∧
      sent (l.map fun s => (s, .failed e)) = [] := by
  simp [reportedSenders, sent, List.filterMap_map]

theorem reported_closed (l : List Nat) :
    reportedReceivers (l.map fun id => ((.awaiter id, .error channelIsClosed) : ReceiveReport T)) =
        l ∧
      received (l.map fun id => ((.awaiter id, .error channelIsClosed) : ReceiveReport T)) =
        [] := by
  simp [reportedReceivers, received, List.filterMap_map, Request.tag]

/-- A successful close leaves the values where they are and tells those that were parked. -/
theorem Accounts.close (h : r.Accounts xs) (hopen : r.log.channel.close = false)
    (hstep : r.step .close = some s) :
    s.Accounts xs ∧ s.log.channel.close = true ∧
      s.sends = r.sends ++ (parkedSends r.log.channel).map (fun p => (p, .failed channelIsClosed)) ∧
      s.receives = r.receives ++
        (parkedReceivers r.log.channel).map fun id => (.awaiter id, .error channelIsClosed) := by
  obtain ⟨hlog, hsends, hreceives⟩ := step_eq hstep
  obtain ⟨m, hm, hacc, hclosed, hdrop, hgiven, -⟩ := h.log.close hopen
  obtain rfl : m = s.log := Option.some.inj (hm.symm.trans hlog)
  obtain ⟨hmark, -, -⟩ := Logged.step_eq hlog
  obtain ⟨hsr, hrr⟩ := close_reports h.log.wellFormed hopen
  obtain ⟨hsq, hrq⟩ := hacc.wellFormed.closed hclosed
  rw [hsr] at hsends
  rw [hrr] at hreceives
  refine ⟨⟨hacc, ?_, ?_, ?_, ?_, ?_, ?_⟩, hclosed, hsends, hreceives⟩
  · rw [hsends, sent_append, (reported_failed _ _).2, parkedSends, hsq]
    have := hdrop.symm.trans h.accepted
    simpa using List.append_cancel_right this
  · rw [hreceives, received_append, (reported_closed _).2, hgiven, h.given, List.append_nil]
  · have hnone : parkedSenders s.log.channel = [] := by rw [parkedSenders, hsq, List.map_nil]
    have htags : (parkedSends r.log.channel).filterMap Prod.fst = parkedSenders r.log.channel := by
      simp [parkedSends, parkedSenders, List.filterMap_map]
    rw [hsends, reportedSenders_append, (reported_failed _ _).1, hnone, List.append_nil, htags,
      hmark]
    exact h.senders
  · have hnone : parkedReceivers s.log.channel = [] := by rw [parkedReceivers, hrq, List.map_nil]
    rw [hreceives, reportedReceivers_append, (reported_closed _).1, hnone, List.append_nil, hmark]
    exact h.receivers
  · rw [hmark]
    exact h.sendersOnce
  · rw [hmark]
    exact h.receiversOnce

theorem Accounts.preserved {op : Op T} (h : ∃ xs, r.Accounts xs) (hstep : r.step op = some s) :
    ∃ xs, s.Accounts xs := by
  obtain ⟨xs, h⟩ := h
  by_cases hclose : op = .close ∧ r.log.channel.close = false
  · obtain ⟨rfl, hopen⟩ := hclose
    exact ⟨xs, (h.close hopen hstep).1⟩
  · refine h.step (fun hop => ?_) hstep
    by_contra hc
    exact hclose ⟨hop, by simpa using hc⟩

end Reported

end TinyCoroutine.Channel
