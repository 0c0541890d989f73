import TinyCoroutine.Channel.Conservation
import TinyCoroutine.Foundation.Run

/-!
# The channel is a FIFO queue

The critical sections of all operations are interleaved in any order. A log beside
the channel records what clients observe: the values accepted, the values given to
receivers and the receive requests that arrived, each in the order of the critical
sections.
-/
namespace TinyCoroutine.Channel

open Foundation

variable {T : Type*}

/-- A channel with the log of its history. -/
structure Logged (T : Type*) where
  channel : Channel T
  /-- Accepted values in order: a sender that parks is accepted when it parks. -/
  accepted : List (Option Nat × T)
  /-- Values in the order they were given, each with the request it answered. -/
  given : List (Request × T)
  /-- Requests in order of arrival, without those that failed or found nothing. -/
  requests : List Request
  /-- Awaiters that have been awaited. -/
  sendersUsed : List Nat
  receiversUsed : List Nat

def Logged.start (c : Channel T) : Logged T := ⟨c, [], [], [], [], []⟩

/-- Append what an operation shows, then remove what its wakes withdraw. -/
def Logged.record (l : Logged T) (r : Channel T × Flow T × List (Wake T)) : Logged T :=
  { l with
    channel := r.1
    accepted := (l.accepted ++ r.2.1.accepted).filter fun e =>
      !(withdrawn r.2.2).any fun id => e.1 == some id
    given := l.given ++ r.2.1.given
    requests := (l.requests ++ r.2.1.arrived).filter fun q =>
      !(failed r.2.2).any fun id => q == .awaiter id }

/-- One critical section. An awaiter that was awaited before is not awaited again. -/
def Logged.step (l : Logged T) (op : Op T) : Option (Logged T) :=
  match op with
  | .awaitSend _ id _ =>
    if id ∈ l.sendersUsed then none
    else some { l.record (op.run l.channel) with sendersUsed := id :: l.sendersUsed }
  | .awaitReceive _ id =>
    if id ∈ l.receiversUsed then none
    else some { l.record (op.run l.channel) with receiversUsed := id :: l.receiversUsed }
  | _ => some (l.record (op.run l.channel))

/-! ## The log along a run -/

/-- The log accounts for the channel. -/
structure Logged.Accounts (l : Logged T) (xs : List T) : Prop where
  wellFormed : l.channel.WellFormed xs
  sends : ∃ settled, l.accepted = settled ++ parkedSends l.channel ∧
    settled.map Prod.snd = l.given.map Prod.snd ++ xs
  requests : l.requests = l.given.map Prod.fst ++ parkedRequests l.channel
  sendTags : (l.accepted.filterMap Prod.fst).Nodup
  sendTagsUsed : ∀ id ∈ l.accepted.filterMap Prod.fst, id ∈ l.sendersUsed
  requestTags : (l.requests.filterMap Request.tag).Nodup
  requestTagsUsed : ∀ id ∈ l.requests.filterMap Request.tag, id ∈ l.receiversUsed

theorem Logged.start_accounts {c : Channel T} (h : c.WellFormed []) (hs : c.senderQueue = [])
    (hr : c.receiverQueue = []) : (Logged.start c).Accounts [] where
  wellFormed := h
  sends := ⟨[], by simp [start, parkedSends, hs], rfl⟩
  requests := by simp [start, parkedRequests, hr]
  sendTags := List.nodup_nil
  sendTagsUsed id hid := by cases hid
  requestTags := List.nodup_nil
  requestTagsUsed id hid := by cases hid

/-- A benign operation appends to the log. -/
theorem Logged.record_of_benign (l : Logged T) (op : Op T) (h : Benign (op.run l.channel).2.2) :
    l.record (op.run l.channel) =
      { l with
        channel := (op.run l.channel).1
        accepted := l.accepted ++ (op.run l.channel).2.1.accepted
        given := l.given ++ (op.run l.channel).2.1.given
        requests := l.requests ++ (op.run l.channel).2.1.arrived } := by
  simp [record, h.1, h.2]

theorem nodup_append_of_prefix {used new tags : List Nat} {old : List Nat} (hold : old.Nodup)
    (hused : ∀ id ∈ old, id ∈ used) (hnew : new <+: tags) (htags : tags.Nodup)
    (hfresh : ∀ id ∈ tags, id ∉ used) :
    (old ++ new).Nodup ∧ ∀ id ∈ old ++ new, id ∈ tags ++ used := by
  refine ⟨List.Nodup.append hold (htags.sublist hnew.sublist) ?_, ?_⟩
  · intro id h1 h2
    exact hfresh id (hnew.subset h2) (hused id h1)
  · intro id hid
    rcases List.mem_append.mp hid with h1 | h2
    · exact List.mem_append_right _ (hused id h1)
    · exact List.mem_append_left _ (hnew.subset h2)

/-- The log with the awaiters of `op` marked as used. -/
def Logged.mark (l : Logged T) (op : Op T) : Logged T :=
  { l with
    sendersUsed := op.sendTags ++ l.sendersUsed
    receiversUsed := op.requestTags ++ l.receiversUsed }

theorem Logged.step_eq {l m : Logged T} {op : Op T} (h : l.step op = some m) :
    m = (l.record (op.run l.channel)).mark op ∧ (∀ id ∈ op.sendTags, id ∉ l.sendersUsed) ∧
      ∀ id ∈ op.requestTags, id ∉ l.receiversUsed := by
  cases op with
  | awaitSend handle id v =>
    simp only [step] at h
    split_ifs at h with hused
    obtain rfl := Option.some.inj h
    simpa [mark, Op.sendTags, Op.requestTags, record] using hused
  | awaitReceive handle id =>
    simp only [step] at h
    split_ifs at h with hused
    obtain rfl := Option.some.inj h
    simpa [mark, Op.sendTags, Op.requestTags, record] using hused
  | _ =>
    obtain rfl := Option.some.inj h
    simp [mark, Op.sendTags, Op.requestTags]

theorem Logged.step_of_fresh {l : Logged T} {op : Op T}
    (hsend : ∀ id ∈ op.sendTags, id ∉ l.sendersUsed)
    (hrequest : ∀ id ∈ op.requestTags, id ∉ l.receiversUsed) :
    l.step op = some ((l.record (op.run l.channel)).mark op) := by
  cases op with
  | awaitSend handle id v =>
    have hfresh : id ∉ l.sendersUsed := hsend id (by simp [Op.sendTags])
    simp [step, mark, hfresh, Op.sendTags, Op.requestTags, record]
  | awaitReceive handle id =>
    have hfresh : id ∉ l.receiversUsed := hrequest id (by simp [Op.requestTags])
    simp [step, mark, hfresh, Op.sendTags, Op.requestTags, record]
  | _ => rfl

theorem Op.sendTags_nodup (op : Op T) : op.sendTags.Nodup := by cases op <;> simp [sendTags]
theorem Op.requestTags_nodup (op : Op T) : op.requestTags.Nodup := by
  cases op <;> simp [requestTags]

/-- An operation other than a successful close keeps the account. -/
theorem Logged.Accounts.step {l : Logged T} {xs : List T} {op : Op T} (h : l.Accounts xs)
    (hop : op = .close → l.channel.close = true)
    (hsend : ∀ id ∈ op.sendTags, id ∉ l.sendersUsed)
    (hreq : ∀ id ∈ op.requestTags, id ∉ l.receiversUsed) :
    ∃ xs', ((l.record (op.run l.channel)).mark op).Accounts xs' := by
  obtain ⟨⟨xs', htr⟩, hben, htags, hrtags⟩ := conserves h.wellFormed op hop
  obtain ⟨settled, hacc, hsettled⟩ := h.sends
  obtain ⟨more, hmore, hvalues⟩ := htr.sends
  have hs := nodup_append_of_prefix h.sendTags h.sendTagsUsed htags op.sendTags_nodup hsend
  have hr := nodup_append_of_prefix h.requestTags h.requestTagsUsed hrtags op.requestTags_nodup hreq
  rw [l.record_of_benign op hben]
  refine ⟨xs', htr.wellFormed, ⟨settled ++ more, ?_, ?_⟩, ?_, ?_, ?_, ?_, ?_⟩
  · simp only [mark, hacc, List.append_assoc, hmore]
  · simp only [mark, List.map_append, hsettled, List.append_assoc, hvalues]
  · simp only [mark, h.requests, List.map_append, List.append_assoc, htr.requests]
  · simpa [mark] using hs.1
  · simpa [mark, List.filterMap_append] using hs.2
  · simpa [mark] using hr.1
  · simpa [mark, List.filterMap_append] using hr.2

/-- Removing the tags of a suffix removes the suffix, when tags do not repeat. -/
theorem filter_tags {α β : Type*} [BEq β] [LawfulBEq β] (tag : α → Option β) (l m : List α)
    (all : ∀ x ∈ m, (tag x).isSome) (hnodup : ((l ++ m).filterMap tag).Nodup) :
    ((l ++ m).filter fun x => !(m.filterMap tag).any fun b => tag x == some b) = l := by
  rw [List.filter_append]
  have hl : l.filter (fun x => !(m.filterMap tag).any fun b => tag x == some b) = l := by
    rw [List.filter_eq_self]
    intro x hx
    simp only [Bool.not_eq_true', List.any_eq_false]
    intro b hb heq
    rw [List.filterMap_append] at hnodup
    have hxb : b ∈ l.filterMap tag := List.mem_filterMap.mpr ⟨x, hx, by simpa using heq⟩
    exact List.disjoint_of_nodup_append hnodup hxb hb
  have hm : m.filter (fun x => !(m.filterMap tag).any fun b => tag x == some b) = [] := by
    rw [List.filter_eq_nil_iff]
    intro x hx
    obtain ⟨b, hb⟩ := Option.isSome_iff_exists.mp (all x hx)
    simp only [Bool.not_eq_true, Bool.not_eq_false', List.any_eq_true]
    exact ⟨b, List.mem_filterMap.mpr ⟨x, hx, hb⟩, by simp [hb]⟩
  rw [hl, hm, List.append_nil]

/-- The wakes of a successful close: every parked sender withdrawn, every parked
receiver failed. -/
theorem close_wakes {c : Channel T} {xs : List T} (h : c.WellFormed xs) (hopen : c.close = false) :
    withdrawn c.closeChannel.wakes = (parkedSends c).filterMap Prod.fst ∧
      failed c.closeChannel.wakes = (parkedRequests c).filterMap Request.tag := by
  simp only [closeChannel, hopen, Bool.false_eq_true, if_false, withdrawn, failed, parkedSends,
    parkedRequests, List.filterMap_append, List.filterMap_map]
  refine ⟨?_, ?_⟩
  · simp
  · simp only [Function.comp_def, List.filterMap_none, List.nil_append, Request.tag]
    exact List.filterMap_congr fun p hp => by simp [h.receiving p hp]

/-- A successful close withdraws exactly the parked sends and requests. -/
theorem Logged.Accounts.close {l : Logged T} {xs : List T} (h : l.Accounts xs)
    (hopen : l.channel.close = false) :
    ∃ m, l.step .close = some m ∧ m.Accounts xs ∧ m.channel.close = true ∧
      l.accepted = m.accepted ++ parkedSends l.channel ∧ m.given = l.given ∧
      l.requests = m.requests ++ parkedRequests l.channel := by
  obtain ⟨settled, hacc, hsettled⟩ := h.sends
  obtain ⟨hw, hf⟩ := close_wakes h.wellFormed hopen
  obtain ⟨hwf, hclosed, hsq, hrq⟩ := h.wellFormed.closeChannel hopen
  have haccepted : (l.record (Op.close.run l.channel)).accepted = settled := by
    simp only [record, Op.run, List.append_nil, hw, hacc]
    refine filter_tags Prod.fst settled (parkedSends l.channel) ?_ (hacc ▸ h.sendTags)
    intro x hx
    obtain ⟨p, -, rfl⟩ := List.mem_map.mp hx
    rfl
  have hrequests : (l.record (Op.close.run l.channel)).requests = l.given.map Prod.fst := by
    simp only [record, Op.run, List.append_nil, hf, h.requests]
    have htag : ∀ (q : Request) (id : Nat), (q == Request.awaiter id) = (q.tag == some id) := by
      intro q id
      rw [Bool.eq_iff_iff]
      cases q <;> simp [Request.tag]
    simp only [htag]
    refine filter_tags Request.tag (l.given.map Prod.fst) (parkedRequests l.channel) ?_
      (h.requests ▸ h.requestTags)
    intro x hx
    obtain ⟨p, -, rfl⟩ := List.mem_map.mp hx
    rfl
  have hgiven : (l.record (Op.close.run l.channel)).given = l.given := by simp [record, Op.run]
  refine ⟨_, rfl, ⟨hwf, ⟨settled, ?_, ?_⟩, ?_, ?_, ?_, ?_, ?_⟩, hclosed, ?_, hgiven, ?_⟩
  · rw [haccepted]
    simp [record, Op.run, parkedSends, hsq]
  · rw [hgiven, hsettled]
  · rw [hrequests, hgiven]
    simp [record, Op.run, parkedRequests, hrq]
  · rw [haccepted]
    exact h.sendTags.sublist ((hacc ▸ List.sublist_append_left _ _).filterMap _)
  · rw [haccepted]
    exact fun id hid => h.sendTagsUsed id
      (((hacc ▸ List.sublist_append_left _ _).filterMap Prod.fst).subset hid)
  · rw [hrequests]
    exact h.requestTags.sublist ((h.requests ▸ List.sublist_append_left _ _).filterMap _)
  · rw [hrequests]
    exact fun id hid => h.requestTagsUsed id
      (((h.requests ▸ List.sublist_append_left _ _).filterMap Request.tag).subset hid)
  · rw [haccepted, hacc]
  · rw [hrequests, h.requests]

theorem Logged.Accounts.preserved {l m : Logged T} {op : Op T} (h : ∃ xs, l.Accounts xs)
    (hstep : l.step op = some m) : ∃ xs, m.Accounts xs := by
  obtain ⟨xs, h⟩ := h
  by_cases hclose : op = .close ∧ l.channel.close = false
  · obtain ⟨rfl, hopen⟩ := hclose
    obtain ⟨m', hm', hacc, -⟩ := h.close hopen
    obtain rfl : m' = m := Option.some.inj (hm'.symm.trans hstep)
    exact ⟨xs, hacc⟩
  · obtain ⟨rfl, hsend, hreq⟩ := step_eq hstep
    refine h.step (fun hop => ?_) hsend hreq
    by_contra hc
    exact hclose ⟨hop, by simpa using hc⟩

/-- A channel as its constructors build it: any capacity from one on, or the default. -/
def Constructed (c : Channel T) : Prop :=
  ∃ stats, c = Channel.default stats ∨ ∃ capacity, Channel.create stats capacity = .ok c

theorem Constructed.accounts {c : Channel T} (h : Constructed c) :
    (Logged.start c).Accounts [] := by
  obtain ⟨stats, rfl | ⟨capacity, hc⟩⟩ := h
  · exact Logged.start_accounts (default_wellFormed stats) rfl rfl
  · have hwf := (create_wellFormed hc).1
    unfold create at hc
    split_ifs at hc
    cases hc
    exact Logged.start_accounts hwf rfl rfl

theorem Logged.Accounts.of_run {c : Channel T} (hc : Constructed c) {l : Logged T}
    (run : Run Logged.step Always (Logged.start c) l) : ∃ xs, l.Accounts xs :=
  run.invariant ⟨[], hc.accounts⟩ fun h _ hstep => Logged.Accounts.preserved h hstep

/-- The channel is a FIFO queue under every interleaving of critical sections. What
was accepted is what was given, then the buffer, then the parked senders; a closed
channel has no parked senders, and closing withdraws exactly theirs. The `i`-th
request in order of arrival is answered with the `i`-th accepted value, or is still
parked behind the answered ones. -/
theorem channel_is_fifo {c : Channel T} (hc : Constructed c) {l : Logged T}
    (run : Run Logged.step Always (Logged.start c) l) :
    l.accepted.map Prod.snd = l.given.map Prod.snd ++ l.channel.contents ++
        l.channel.senderQueue.map (fun p => p.2.value) ∧
      (l.channel.close = true →
        l.accepted.map Prod.snd = l.given.map Prod.snd ++ l.channel.contents) ∧
      (l.channel.close = false → ∃ m, l.step .close = some m ∧ m.channel.close = true ∧
        l.accepted = m.accepted ++ parkedSends l.channel ∧
        m.accepted.map Prod.snd = m.given.map Prod.snd ++ m.channel.contents) ∧
      l.requests = l.given.map Prod.fst ++ parkedRequests l.channel ∧
      ∀ i (q : Request), l.requests[i]? = some q →
        (∃ v, l.given[i]? = some (q, v) ∧ (l.accepted.map Prod.snd)[i]? = some v) ∨
        (l.given.length ≤ i ∧ (parkedRequests l.channel)[i - l.given.length]? = some q) := by
  obtain ⟨xs, h⟩ := Logged.Accounts.of_run hc run
  obtain ⟨settled, hacc, hsettled⟩ := h.sends
  have hcontents := h.wellFormed.ring.contents
  have hall : l.accepted.map Prod.snd = l.given.map Prod.snd ++ l.channel.contents ++
      l.channel.senderQueue.map (fun p => p.2.value) := by
    rw [hacc, List.map_append, hsettled, hcontents]
    simp [parkedSends, Function.comp_def]
  refine ⟨hall, fun hclosed => ?_, fun hopen => ?_, h.requests, fun i q hq => ?_⟩
  · rw [hall, (h.wellFormed.closed hclosed).1, List.map_nil, List.append_nil]
  · obtain ⟨m, hm, hmacc, hmclosed, hdrop, -⟩ := h.close hopen
    obtain ⟨settled', hacc', hsettled'⟩ := hmacc.sends
    refine ⟨m, hm, hmclosed, hdrop, ?_⟩
    rw [hacc', List.map_append, hsettled', hmacc.wellFormed.ring.contents, parkedSends,
      (hmacc.wellFormed.closed hmclosed).1, List.map_nil, List.map_nil, List.append_nil]
  · rw [h.requests] at hq
    rcases Nat.lt_or_ge i l.given.length with hlt | hge
    · left
      rw [List.getElem?_append_left (by simpa using hlt), List.getElem?_map,
        List.getElem?_eq_getElem hlt] at hq
      refine ⟨l.given[i].2, ?_, ?_⟩
      · rw [List.getElem?_eq_getElem hlt]
        simpa [Prod.ext_iff] using hq
      · rw [hall, List.append_assoc, List.getElem?_append_left (by simpa using hlt),
          List.getElem?_map, List.getElem?_eq_getElem hlt, Option.map_some]
    · right
      rw [List.getElem?_append_right (by simpa using hge), List.length_map] at hq
      exact ⟨hge, hq⟩

/-- A send, a send that parks, and three requests of which the last one parks. -/
def sampleOps : List (Op Nat) :=
  [.awaitSend 1 1 5, .awaitSend 2 2 6, .tryReceive, .awaitReceive 3 1, .awaitReceive 4 2]

def sampleChannel : Channel Nat := { default false with toRingBuffer := RingBuffer.empty 1 }

/-- Capacity one: the second sender parks, a receive takes the first value and lets
the second in, and two more receivers take it and park. -/
theorem channel_is_fifo_capacity_one :
    ∃ l : Logged Nat, Run Logged.step Always (Logged.start sampleChannel) l ∧
      l.accepted.map Prod.snd = l.given.map Prod.snd ++ l.channel.contents ++
        l.channel.senderQueue.map (fun p => p.2.value) ∧
      l.given = [(.call, 5), (.awaiter 1, 6)] ∧ parkedRequests l.channel = [.awaiter 2] := by
  obtain ⟨l, hl, hgiven, hparked⟩ := exists_run Logged.step Always (Logged.start sampleChannel)
    sampleOps (fun l => l.given = [(.call, 5), (.awaiter 1, 6)] ∧
      parkedRequests l.channel = [.awaiter 2]) (by decide)
  exact ⟨l, hl, (channel_is_fifo ⟨false, .inr ⟨1, rfl⟩⟩ hl).1, hgiven, hparked⟩

end TinyCoroutine.Channel
