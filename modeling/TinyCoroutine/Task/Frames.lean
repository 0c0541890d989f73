import TinyCoroutine.Task.CallChains

/-!
# The frames along a run

Every rule of the view keeps `FramesInv`: the rules on frames that have not started or have
finished in one lemma (`FramesInv.keep`), those that switch from one frame to another in a
second one (`FramesInv.switch`).
-/
namespace TinyCoroutine.Task

variable {v w : View}

theorem Linked.mono {h : Handle} (hl : Linked v h)
    (howner : (w.frames h).owner = .detached ↔ (v.frames h).owner = .detached)
    (hself : (w.frames h).caller = (v.frames h).caller) (hacc : ∀ g ∈ v.accepted, g ∈ w.accepted)
    (hawait : ∀ q, (v.frames q).status = .awaiting h → (w.frames q).status = .awaiting h) :
    Linked w h := by
  cases hl with
  | root hdet hnone hmem => exact .root (howner.mpr hdet) (hself.trans hnone) (hacc h hmem)
  | inner hq hst hdet =>
    exact .inner (hself.trans hq) (hawait _ hst) fun hw => hdet (howner.mp hw)

/-- A step of client code or of the current coroutine on frames that have not started, or
have finished. -/
theorem FramesInv.keep (I : FramesInv v) (hworker : w.worker = v.worker)
    (hmid : ∀ g, (v.frames g).status.midway = true → w.frames g = v.frames g ∨
      ∃ owner, owner ≠ .detached ∧ (v.frames g).owner ≠ .detached ∧
        w.frames g = { v.frames g with owner })
    (hmid' : ∀ g, (w.frames g).status.midway = true → (v.frames g).status.midway = true)
    (hcaller : ∀ g q, (v.frames g).caller = some q → (w.frames g).caller = some q)
    (hroots : ∀ g ∈ v.accepted, g ∈ w.accepted ∧ (w.frames g = v.frames g ∨
      w.frames g = { v.frames g with status := .destroyed } ∧ (v.frames g).status ≠ .initial ∧
        v.worker ≠ .resumed g ∧ v.worker ≠ .destroy g))
    (hnew : ∀ g ∈ w.accepted, g ∉ v.accepted →
      (w.frames g).owner = .detached ∧ (w.frames g).status = .initial)
    (hnodup : w.accepted.Nodup) (hfresh : ∀ h, w.next ≤ h → w.frames h = {})
    (hinit : ∀ h, (w.frames h).status = .initial → (w.frames h).finished = false ∧
      (w.frames h).caller = none ∧ ((w.frames h).owner = .detached → h ∈ w.accepted))
    (hplaces : w.places.Nodup)
    (hmem : ∀ h ∈ w.places, h ∈ v.places ∨ h ∈ w.accepted ∧ h ∉ v.accepted) : FramesInv w where
  fresh := hfresh
  midway h hh := by
    have hframe := hmid h (hmid' h hh)
    obtain ⟨hfin, hlinked⟩ := I.midway h (hmid' h hh)
    refine ⟨by grind, hlinked.mono (by grind) (by grind) (fun g hg => (hroots g hg).1) ?_⟩
    intro q hq
    have hawaiting := hmid q (by simp [hq, Status.midway])
    grind
  initial := hinit
  current p i hw := by
    rw [hworker] at hw
    obtain ⟨hrun, hcalls⟩ := I.current p i hw
    have hframe := hmid i (by simp [hrun, Status.midway])
    exact ⟨by grind, hcalls.mono hcaller⟩
  running i hi := by
    rw [hworker]
    have hframe := hmid i (hmid' i (by simp [hi, Status.midway]))
    exact I.running i (by grind)
  resumed p hw := by
    have hroot := I.resumed p (hworker ▸ hw)
    grind
  destroy p hw := by
    have hroot := I.destroy p (hworker ▸ hw)
    grind
  places_nodup := hplaces
  places h hh := by
    have hold := I.places h
    have hinit := I.initial h
    grind [Status.midway]
  accepted_nodup := hnodup
  accepted h hh := by
    have hold := I.accepted h
    grind

section

variable {who : Owner} {g h i p q : Handle}

theorem FramesInv.lt_next (I : FramesInv v) (h : (v.frames g).status ≠ .none) : g < v.next := by
  by_contra hge
  exact h (by rw [I.fresh g (Nat.le_of_not_lt hge)])

theorem FramesInv.create (I : FramesInv v) (hacts : v.Acts who) :
    FramesInv { v.setFrame v.next { status := .initial, owner := who } with
      next := v.next + 1 } := by
  have hnone := I.fresh v.next (Nat.le_refl _)
  have hwho : who ≠ .detached := by
    obtain rfl | ⟨p, i, -, rfl⟩ := hacts <;> simp
  have hold : ∀ g, (v.frames g).status ≠ .none → g ≠ v.next := by
    rintro g hg rfl
    simp [hnone] at hg
  have hroot := I.accepted
  have hfresh := I.fresh
  have hinit := I.initial
  refine I.keep rfl ?_ ?_ ?_ ?_ (fun g hg hg' => absurd hg hg') I.accepted_nodup ?_ ?_
    I.places_nodup (fun h hh => .inl hh)
  all_goals
    simp only [View.setFrame, Function.update_apply]
    grind [Status.midway]

theorem FramesInv.move {dest : Owner} (I : FramesInv v) (hacts : v.Acts who)
    (howner : (v.frames g).owner = who) (hlive : (v.frames g).status.live = true)
    (hdest : dest ≠ .detached) : FramesInv (v.setOwner g dest) := by
  have hwho : who ≠ .detached := by
    obtain rfl | ⟨p, i, -, rfl⟩ := hacts <;> simp
  have hlt : g < v.next := I.lt_next fun hnone => by simp [hnone, Status.live] at hlive
  have hroot := I.accepted
  have hfresh := I.fresh
  have hinit := I.initial
  refine I.keep rfl ?_ ?_ ?_ ?_ (fun g hg hg' => absurd hg hg') I.accepted_nodup ?_ ?_
    I.places_nodup (fun h hh => .inl hh)
  all_goals
    simp only [View.setOwner, View.setFrame, Function.update_apply]
    grind [Status.midway]

theorem FramesInv.accept (I : FramesInv v) (hacts : v.Acts who)
    (howner : (v.frames g).owner = who) (hg : (v.frames g).status = .initial) :
    FramesInv { v.setOwner g .detached with
      places := v.places + {g}, pending := fetchAdd v.pending 1
      accepted := v.accepted ++ [g] } := by
  have hwho : who ≠ .detached := by
    obtain rfl | ⟨p, i, -, rfl⟩ := hacts <;> simp
  have hlt : g < v.next := I.lt_next (by simp [hg])
  have hroot := I.accepted
  have hfresh := I.fresh
  have hinit := I.initial
  have hnot : g ∉ v.accepted := fun hmem => hwho (howner ▸ (I.accepted g hmem).1)
  have hout : g ∉ v.places := by
    intro hmem
    obtain hsusp | ⟨-, hdet⟩ := I.places g hmem
    · simp [hg] at hsusp
    · exact hwho (howner ▸ hdet)
  refine I.keep rfl ?_ ?_ ?_ ?_ ?_ ?_ ?_ ?_ ?_ ?_
  case refine_6 =>
    exact List.nodup_append.mpr ⟨I.accepted_nodup, List.nodup_singleton g, by grind⟩
  case refine_9 =>
    rw [Multiset.nodup_add]
    exact ⟨I.places_nodup, Multiset.nodup_singleton g, by simpa using hout⟩
  all_goals
    simp only [View.setOwner, View.setFrame, Function.update_apply, List.mem_append,
      List.mem_singleton, Multiset.mem_add, Multiset.mem_singleton]
    grind [Status.midway]

/-- A frame is destroyed with everything it owns. -/
theorem FramesInv.destroyFrame (I : FramesInv v) (hspares : v.Spares h)
    (hlive : (v.frames h).status ≠ .none)
    (hfree : h ∈ v.accepted → (v.frames h).status = .final ∧ v.worker ≠ .resumed h ∧
      v.worker ≠ .destroy h) : FramesInv (v.destroyFrame h) := by
  have hlt : h < v.next := I.lt_next hlive
  have hframes := I.frames_destroyFrame hspares
  have hroot := I.accepted
  have hfresh := I.fresh
  have hinit := I.initial
  have hsame : (v.destroyFrame h).accepted = v.accepted := rfl
  have hnext : (v.destroyFrame h).next = v.next := rfl
  refine I.keep rfl ?_ ?_ ?_ ?_ (fun g hg hg' => absurd hg hg') I.accepted_nodup ?_ ?_
    I.places_nodup (fun h hh => .inl hh)
  all_goals grind [Status.midway]

theorem FramesInv.drop (I : FramesInv v) (hacts : v.Acts who) (howner : (v.frames g).owner = who)
    (hlive : (v.frames g).status.live = true) (hspares : v.Spares g) :
    FramesInv (v.destroyFrame g) := by
  refine I.destroyFrame hspares ?_ ?_
  · intro hnone
    simp [hnone, Status.live] at hlive
  · intro hmem
    have hdet := (I.accepted g hmem).1
    obtain rfl | ⟨p, i, -, rfl⟩ := hacts <;> simp [hdet] at howner

/-- The worker goes on, and no frame changes. -/
theorem FramesInv.setWorker (I : FramesInv v) (hframes : w.frames = v.frames)
    (hnext : w.next = v.next) (hplaces : w.places = v.places) (haccepted : w.accepted = v.accepted)
    (hrun : ∀ p i, v.worker ≠ .running p i) (hrun' : ∀ p i, w.worker ≠ .running p i)
    (hres : ∀ p, w.worker ≠ .resumed p)
    (hdes : ∀ p, w.worker = .destroy p → (v.frames p).status = .final ∧ p ∈ v.accepted) :
    FramesInv w where
  fresh := by rw [hframes, hnext]; exact I.fresh
  midway h hh := by
    rw [hframes] at hh ⊢
    obtain ⟨hfin, hlinked⟩ := I.midway h hh
    refine ⟨hfin, hlinked.mono (by rw [hframes]) (by rw [hframes])
      (by rw [haccepted]; exact fun _ => id) ?_⟩
    rw [hframes]
    exact fun _ => id
  initial := by rw [hframes, haccepted]; exact I.initial
  current p i hw := absurd hw (hrun' p i)
  running i hi := by
    rw [hframes] at hi
    obtain ⟨p, hp⟩ := I.running i hi
    exact absurd hp (hrun p i)
  resumed p hw := absurd hw (hres p)
  destroy p hw := by rw [hframes, haccepted]; exact hdes p hw
  places_nodup := hplaces ▸ I.places_nodup
  places := by rw [hframes, hplaces]; exact I.places
  accepted_nodup := haccepted ▸ I.accepted_nodup
  accepted := by rw [hframes, haccepted]; exact I.accepted

/-- A step in which the frame that is being executed, and another one, change. -/
structure Switches (v w : View) : Prop where
  next : w.next = v.next
  accepted : w.accepted = v.accepted
  caller : ∀ g q, (v.frames g).caller = some q → (w.frames g).caller = some q
  owner : ∀ g, (w.frames g).owner = (v.frames g).owner
  fresh : ∀ g, (v.frames g).status = .none → w.frames g = v.frames g
  initial : ∀ g, (w.frames g).status = .initial → w.frames g = v.frames g
  started : ∀ g, (v.frames g).status ≠ .none → (w.frames g).status ≠ .none

theorem FramesInv.linked (I : FramesInv v) (S : Switches v w)
    (hmid : (v.frames g).status.midway = true)
    (hfin : (w.frames g).finished = (v.frames g).finished)
    (hself : (w.frames g).caller = (v.frames g).caller)
    (hawait : ∀ q, (v.frames q).status = .awaiting g → (w.frames q).status = .awaiting g) :
    (w.frames g).finished = false ∧ Linked w g := by
  obtain ⟨hold, hlinked⟩ := I.midway g hmid
  exact ⟨hfin.trans hold, hlinked.mono (by rw [S.owner g]) hself
    (by rw [S.accepted]; exact fun _ => id) hawait⟩

theorem FramesInv.switch (I : FramesInv v) (S : Switches v w)
    (hmid : ∀ g, (w.frames g).status.midway = true → (w.frames g).finished = false ∧ Linked w g)
    (hcur : ∀ p i, w.worker = .running p i → (w.frames i).status = .running ∧ Calls w i p)
    (hrun : ∀ i, (w.frames i).status = .running → ∃ p, w.worker = .running p i)
    (hres : ∀ p, w.worker = .resumed p → (w.frames p).status.midway = true ∨
      (w.frames p).status = .final ∧ p ∈ v.accepted)
    (hdes : ∀ p, w.worker ≠ .destroy p) (hnodup : w.places.Nodup)
    (hplaces : ∀ h ∈ w.places, h ∈ v.places ∧ w.frames h = v.frames h ∨
      (w.frames h).status = .suspended) : FramesInv w where
  fresh h hh := by
    have hnone := I.fresh h (S.next ▸ hh)
    rw [S.fresh h (by rw [hnone]), hnone]
  midway := hmid
  initial h hh := by
    have hframe := S.initial h hh
    rw [hframe] at hh ⊢
    rw [S.accepted]
    exact I.initial h hh
  current := hcur
  running := hrun
  resumed p hw := by
    rw [S.accepted]
    exact hres p hw
  destroy p hw := absurd hw (hdes p)
  places_nodup := hnodup
  places h hh := by
    have hold := I.places h
    grind
  accepted_nodup := S.accepted ▸ I.accepted_nodup
  accepted h hh := by
    rw [S.accepted] at hh
    obtain ⟨hdet, hst⟩ := I.accepted h hh
    exact ⟨(S.owner h).trans hdet, S.started h hst⟩

theorem FramesInv.call (I : FramesInv v) (hw : v.worker = .running p i)
    (hg : (v.frames g).status = .initial) (howner : (v.frames g).owner ≠ .detached)
    (hframes : ∀ x, w.frames x =
      if x = g then { v.frames g with status := .running, caller := some i }
      else if x = i then { v.frames i with status := .awaiting g } else v.frames x)
    (hworker : w.worker = .running p g) (hnext : w.next = v.next) (hplaces : w.places = v.places)
    (haccepted : w.accepted = v.accepted) : FramesInv w := by
  obtain ⟨hrun, hcalls⟩ := I.current p i hw
  obtain ⟨hfin, hnone, -⟩ := I.initial g hg
  have hne : i ≠ g := by
    rintro rfl
    simp [hrun] at hg
  have S : Switches v w := by
    constructor <;> grind
  have hi : w.frames i = { v.frames i with status := .awaiting g } := by grind
  refine I.switch S ?_ ?_ ?_ ?_ ?_ (hplaces ▸ I.places_nodup) ?_
  · intro x hx
    by_cases hxg : x = g
    · subst hxg
      rw [hframes, if_pos rfl]
      refine ⟨hfin, .inner (q := i) ?_ ?_ ?_⟩
      · rw [hframes, if_pos rfl]
      · rw [hi]
      · rw [hframes, if_pos rfl]
        exact howner
    · have hmid : (v.frames x).status.midway = true := by grind [Status.midway]
      exact I.linked S hmid (by grind) (by grind) (by grind)
  · intro p' i' hw'
    rw [hworker] at hw'
    cases hw'
    refine ⟨by rw [hframes, if_pos rfl], .head ?_ (hcalls.mono S.caller)⟩
    rw [hframes, if_pos rfl]
  · intro x hx
    have hold := I.running x
    grind
  · simp [hworker]
  · simp [hworker]
  · have hold := I.places
    grind

theorem FramesInv.suspend (I : FramesInv v) (hw : v.worker = .running p i)
    (hframes : ∀ x, w.frames x =
      if x = i then { v.frames i with status := .suspended } else v.frames x)
    (hworker : w.worker = .resumed p) (hnext : w.next = v.next)
    (hplaces : w.places = v.places + {i}) (haccepted : w.accepted = v.accepted) :
    FramesInv w := by
  obtain ⟨hrun, hcalls⟩ := I.current p i hw
  have S : Switches v w := by
    constructor <;> grind
  have hmid : ∀ x, (w.frames x).status.midway = (v.frames x).status.midway := by
    grind [Status.midway]
  refine I.switch S ?_ ?_ ?_ ?_ ?_ ?_ ?_
  · intro x hx
    exact I.linked S (hmid x ▸ hx) (by grind) (by grind) (by grind)
  · simp [hworker]
  · intro x hx
    have hold := I.running x
    grind
  · intro p' hw'
    rw [hworker] at hw'
    cases hw'
    rw [hmid]
    exact .inl (I.calls_midway hcalls (by simp [hrun, Status.midway]))
  · simp [hworker]
  · have hout : i ∉ v.places := by
      intro hmem
      have hold := I.places i hmem
      simp [hrun] at hold
    rw [hplaces, Multiset.nodup_add]
    exact ⟨I.places_nodup, Multiset.nodup_singleton i, by simpa using hout⟩
  · intro x hx
    rw [hplaces, Multiset.mem_add, Multiset.mem_singleton] at hx
    grind

theorem FramesInv.resume {places : Multiset Handle} (I : FramesInv v) (hw : v.worker = .forLoop)
    (hpop : v.places = {h} + places)
    (hframes : ∀ x, w.frames x =
      if x = h then { v.frames h with status := .running } else v.frames x)
    (hworker : w.worker = .running h h) (hnext : w.next = v.next) (hplaces : w.places = places)
    (haccepted : w.accepted = v.accepted) : FramesInv w := by
  have hmem : h ∈ v.places := by simp [hpop]
  have hst := I.places h hmem
  have hnodup := I.places_nodup
  rw [hpop, Multiset.singleton_add, Multiset.nodup_cons] at hnodup
  have hinit := I.initial h
  have S : Switches v w := by
    constructor <;> grind
  refine I.switch S ?_ ?_ ?_ ?_ ?_ (hplaces ▸ hnodup.2) ?_
  · intro x hx
    by_cases hxh : x = h ∧ (v.frames h).status = .initial
    · obtain ⟨rfl, hxinit⟩ := hxh
      obtain ⟨hfin, hnone, hacc⟩ := I.initial x hxinit
      have hdet : (v.frames x).owner = .detached := by grind
      refine ⟨by grind, .root ?_ ?_ ?_⟩
      · exact (S.owner x).trans hdet
      · grind
      · rw [haccepted]
        exact hacc hdet
    · have hmid : (v.frames x).status.midway = true := by grind [Status.midway]
      exact I.linked S hmid (by grind) (by grind) (by grind)
  · intro p' i' hw'
    rw [hworker] at hw'
    cases hw'
    exact ⟨by rw [hframes, if_pos rfl], .refl⟩
  · intro x hx
    have hold := I.running x
    grind
  · simp [hworker]
  · simp [hworker]
  · intro x hx
    have hne : x ≠ h := by
      rintro rfl
      exact hnodup.1 (hplaces ▸ hx)
    refine .inl ⟨?_, by grind⟩
    rw [hpop, Multiset.mem_add]
    exact .inr (hplaces ▸ hx)

theorem FramesInv.caller_awaiting (I : FramesInv v) (hw : v.worker = .running p i)
    (hq : (v.frames i).caller = some q) : (v.frames q).status = .awaiting i := by
  obtain ⟨hrun, -⟩ := I.current p i hw
  cases (I.midway i (by simp [hrun, Status.midway])).2 with
  | root _ hnone => simp [hq] at hnone
  | inner hq' hst =>
    rw [hq] at hq'
    cases hq'
    exact hst

/-- The current coroutine ends and its caller goes on. -/
theorem FramesInv.returnTo (I : FramesInv v) (hw : v.worker = .running p i)
    (hq : (v.frames i).caller = some q) (hne : i ≠ p)
    (hframes : ∀ x, w.frames x =
      if x = q then { v.frames q with status := .running }
      else if x = i then { v.frames i with status := .final, finished := true } else v.frames x)
    (hworker : w.worker = .running p q) (hnext : w.next = v.next) (hplaces : w.places = v.places)
    (haccepted : w.accepted = v.accepted) : FramesInv w := by
  obtain ⟨hrun, hcalls⟩ := I.current p i hw
  have hawait := I.caller_awaiting hw hq
  have hup : Calls v q p := by
    obtain rfl | ⟨r, hr, hrest⟩ := hcalls.cases_head
    · exact absurd rfl hne
    · rw [hq] at hr
      cases hr
      exact hrest
  have S : Switches v w := by
    constructor <;> grind
  refine I.switch S ?_ ?_ ?_ ?_ ?_ (hplaces ▸ I.places_nodup) ?_
  · intro x hx
    have hmid : (v.frames x).status.midway = true := by grind [Status.midway]
    have hxi : x ≠ i := by grind [Status.midway]
    exact I.linked S hmid (by grind) (by grind) (by grind)
  · intro p' i' hw'
    rw [hworker] at hw'
    cases hw'
    exact ⟨by rw [hframes, if_pos rfl], hup.mono S.caller⟩
  · intro x hx
    have hold := I.running x
    grind
  · simp [hworker]
  · simp [hworker]
  · have hold := I.places
    grind

/-- The coroutine that ends without a caller is the one that the worker has popped, and was
accepted. -/
theorem FramesInv.root_of_finish (I : FramesInv v) (hw : v.worker = .running p i)
    (hq : (v.frames i).caller = none) :
    i = p ∧ (v.frames i).status = .running ∧ i ∈ v.accepted := by
  obtain ⟨hrun, hcalls⟩ := I.current p i hw
  refine ⟨?_, hrun, ?_⟩
  · obtain rfl | ⟨r, hr, -⟩ := hcalls.cases_head
    · rfl
    · simp [hq] at hr
  · cases (I.midway i (by simp [hrun, Status.midway])).2 with
    | root _ _ hmem => exact hmem
    | inner hq' => simp [hq] at hq'

theorem FramesInv.finish (I : FramesInv v) (hw : v.worker = .running p i)
    (hq : (v.frames i).caller = none)
    (hframes : ∀ x, w.frames x =
      if x = i then { v.frames i with status := .final, finished := true } else v.frames x)
    (hworker : w.worker = .resumed p) (hnext : w.next = v.next) (hplaces : w.places = v.places)
    (haccepted : w.accepted = v.accepted) : FramesInv w := by
  obtain ⟨rfl, hrun, hmem⟩ := I.root_of_finish hw hq
  have S : Switches v w := by
    constructor <;> grind
  refine I.switch S ?_ ?_ ?_ ?_ ?_ (hplaces ▸ I.places_nodup) ?_
  · intro x hx
    have hmid : (v.frames x).status.midway = true := by grind [Status.midway]
    have hxi : x ≠ i := by grind [Status.midway]
    exact I.linked S hmid (by grind) (by grind) (by grind)
  · simp [hworker]
  · intro x hx
    have hold := I.running x
    grind
  · intro p' hw'
    rw [hworker] at hw'
    cases hw'
    exact .inr ⟨by rw [hframes, if_pos rfl], hmem⟩
  · simp [hworker]
  · have hold := I.places
    grind

end

/-- `done()` is asked of a frame that is there, and only a root is done. -/
theorem FramesInv.checkDone {h : Handle} {answer : Bool} (I : FramesInv v)
    (hw : v.worker = .resumed h) (hdone : DoneAnswer (v.frames h).status answer) :
    if answer then (v.frames h).status = .final ∧ h ∈ v.accepted
    else (v.frames h).status.midway = true := by
  obtain hmid | ⟨hfinal, hmem⟩ := I.resumed h hw
  · have hnot : (v.frames h).status ≠ .destroyed ∧ (v.frames h).status ≠ .final := by
      grind [Status.midway]
    obtain hdead | rfl := hdone
    · exact absurd hdead hnot.1
    · simpa [hnot.2] using hmid
  · obtain hdead | rfl := hdone
    · simp [hfinal] at hdead
    · simpa [hfinal] using hmem

theorem FramesInv.preserved (I : FramesInv v) (h : Rule v w) : FramesInv w := by
  cases h with
  | idle => exact I
  | @loop u hv hu =>
    refine I.setWorker rfl rfl rfl rfl ?_ ?_ ?_ ?_ <;> grind [WorkerPc.between]
  | create hacts hroom => exact I.create hacts
  | move hacts howner hlive hdest => exact I.move hacts howner hlive hdest
  | drop hacts howner hlive hspares => exact I.drop hacts howner hlive hspares
  | accept hacts howner hg => exact I.accept hacts howner hg
  | call hw hg howner =>
    refine I.call hw hg howner (fun x => ?_) rfl rfl rfl rfl
    simp only [View.setStatus, View.setFrame, Function.update_apply]
  | suspend hw => exact I.suspend hw (fun _ => Function.update_apply ..) rfl rfl rfl rfl
  | resume hw hpop => exact I.resume hw hpop (fun _ => Function.update_apply ..) rfl rfl rfl rfl
  | @returnTo p i q hw hq hne =>
    have hqi : q ≠ i := by
      rintro rfl
      have hawait := I.caller_awaiting hw hq
      simp [(I.current p q hw).1] at hawait
    refine I.returnTo hw hq hne (fun x => ?_) rfl rfl rfl rfl
    simp only [View.setStatus, View.setFrame, Function.update_apply, if_neg hqi]
  | finish hw hq => exact I.finish hw hq (fun _ => Function.update_apply ..) rfl rfl rfl rfl
  | @checkDone h answer hw hdone =>
    have hres := I.checkDone hw hdone
    refine I.setWorker rfl rfl rfl rfl ?_ ?_ ?_ ?_ <;> grind
  | @destroy h hw hspares =>
    obtain ⟨hfinal, hmem⟩ := I.destroy h hw
    have hfree : FramesInv { v with destroyed := v.destroyed ++ [h], worker := .completed h } := by
      refine I.setWorker rfl rfl rfl rfl ?_ ?_ ?_ ?_ <;> grind
    exact hfree.destroyFrame hspares (by rw [hfinal]; simp)
      fun _ => ⟨hfinal, by simp, by simp⟩
  | complete hw =>
    refine I.setWorker rfl rfl rfl rfl ?_ ?_ ?_ ?_ <;> grind

end TinyCoroutine.Task
