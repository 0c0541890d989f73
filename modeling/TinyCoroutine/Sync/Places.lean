import TinyCoroutine.Sync.Transition

/-!
# Every parked coroutine is in one place

The handle of a coroutine that waits is in the queue of the mutex, in the queue of one
condition variable, or in the hands of the coroutine or tail that is about to wake it, and
nowhere else; so it is woken once for each time it parks.
-/
namespace TinyCoroutine.Sync

variable {s t : State} {a : Action}

/-- The coroutine has the mutex, or will have it when its handle is taken from the queue. -/
def Pc.acquired : Pc → Bool
  | .lockResume => true
  | .relockResume _ _ => true
  | _ => false

/-- The handles a coroutine is about to wake. -/
def Pc.hand : Pc → List Nat
  | .handing h _ _ => [h]
  | .waking hs => hs
  | _ => []

def Tail.holds (τ : Tail) (h : Nat) : Prop := τ.stage = .handing h

structure Places (s : State) : Prop where
  mutex_nodup : s.waitQueue.Nodup
  mutex : ∀ i, i ∈ s.waitQueue ↔ (s.coros i).place = .mutexQueue
  cv_nodup : ∀ v, (s.cvs v).Nodup
  cv : ∀ v i, i ∈ s.cvs v ↔ (s.coros i).place = .cvQueue v
  hand_nodup : ∀ j, (s.coros j).pc.hand.Nodup
  hand : ∀ j i, i ∈ (s.coros j).pc.hand ↔ (s.coros i).place = .heldBy j
  tail : ∀ k i, (∃ τ, s.tails k = some τ ∧ τ.holds i) ↔ (s.coros i).place = .heldByTail k
  acquired : ∀ i, (s.coros i).place = .mutexQueue → (s.coros i).pc.acquired = true

theorem Places.init : Places init := by
  constructor <;> simp [Sync.init, Pc.hand]

/-- A step that moves no handle. The coroutine that acts is running, so the coroutines in
the queue of the mutex stay where they are. -/
theorem Places.frame (I : Places s) (hq : t.waitQueue = s.waitQueue) (hcv : t.cvs = s.cvs)
    (hplace : ∀ i, (t.coros i).place = (s.coros i).place)
    (hhand : ∀ i, (t.coros i).pc.hand = (s.coros i).pc.hand)
    (hwait : ∀ i, (s.coros i).place = .mutexQueue → (t.coros i).pc = (s.coros i).pc)
    (htail : ∀ k i, (∃ τ, t.tails k = some τ ∧ τ.holds i) ↔ ∃ τ, s.tails k = some τ ∧ τ.holds i) :
    Places t where
  mutex_nodup := hq ▸ I.mutex_nodup
  mutex i := by rw [hq, hplace, I.mutex]
  cv_nodup v := hcv ▸ I.cv_nodup v
  cv v i := by rw [hcv, hplace, I.cv]
  hand_nodup j := hhand j ▸ I.hand_nodup j
  hand j i := by rw [hhand, hplace, I.hand]
  tail k i := by rw [htail, hplace, I.tail]
  acquired i hi := by
    rw [hplace] at hi
    rw [hwait i hi]
    exact I.acquired i hi

/-- A running coroutine that holds no handle moves from one place in its code to another. -/
theorem Places.movePc {i : Nat} {pc : Pc} (I : Places s) (hr : (s.coros i).place = .running)
    (hs : (s.coros i).pc.hand = []) (hpc : pc.hand = [])
    (ht : ∀ j, t.coros j = if j = i then ⟨pc, .running⟩ else s.coros j)
    (hq : t.waitQueue = s.waitQueue) (hcv : t.cvs = s.cvs) (htail : t.tails = s.tails) :
    Places t := by
  refine I.frame hq hcv ?_ ?_ ?_ ?_ <;> grind

/-- A tail that holds no handle before and after its step. -/
theorem Places.moveTail {k : Nat} {τ τ' : Tail} (I : Places s) (hk : s.tails k = some τ)
    (hτ : ∀ h, ¬ τ.holds h) (hτ' : ∀ h, ¬ τ'.holds h)
    (ht : ∀ j, t.tails j = if j = k then some τ' else s.tails j) (hq : t.waitQueue = s.waitQueue)
    (hcv : t.cvs = s.cvs) (hcoros : t.coros = s.coros) : Places t := by
  refine I.frame hq hcv ?_ ?_ ?_ ?_ <;> grind

theorem Locks.hand {i : Nat} {pc : Pc} (h : Locks s i a pc) :
    (s.coros i).pc.hand = [] ∧ pc.hand = [] ∧ pc.acquired = true := by
  cases h <;> simp_all [Pc.hand, Pc.acquired]

theorem Waits.hand {i v g : Nat} {γ : Guard} {next : After} (h : Waits s i a v g γ next) :
    (s.coros i).pc.hand = [] := by
  cases h <;> simp_all [Pc.hand]

theorem Moves.hand {i : Nat} {pc : Pc} (h : Moves s i a pc) :
    (s.coros i).pc.hand = [] ∧ pc.hand = [] := by
  cases h <;> simp_all [Pc.hand]

theorem Finishes.hand {i g : Nat} {γ : Guard} {kind : Release} (h : Finishes s i g γ a kind) :
    (s.coros i).pc.hand = [] := by
  cases h <;> simp_all [Pc.hand]

theorem Wakes.hand {i h : Nat} {pc : Pc} (hw : Wakes s i h pc) :
    (s.coros i).pc.hand = h :: pc.hand := by
  cases hw <;> simp_all [Pc.hand]

section

variable {i h : Nat} {rest : List Nat} {pc : Pc}

theorem Places.lockBusy (I : Places s) (hr : (s.coros i).place = .running)
    (hl : Locks s i a pc) :
    Places ({ s with waitQueue := s.waitQueue ++ [i] }.setCoro i ⟨pc, .mutexQueue⟩) := by
  obtain ⟨hs, hpc, hacq⟩ := hl.hand
  obtain ⟨hmn, hm, hcn, hc, hhn, hh, ht, ha⟩ := I
  constructor <;> simp only [State.setCoro, Function.update_apply] <;> grind

theorem Places.cvPush {v g : Nat} {γ : Guard} {next : After} (I : Places s)
    (hr : (s.coros i).place = .running) (hw : Waits s i a v g γ next)
    (hfresh : s.tails s.nextTail = none) : Places (s.cvPush i v g γ next) := by
  have hs := hw.hand
  have hpc : (Pc.relock g next).hand = [] := rfl
  have htail : ∀ h, ¬ Tail.holds { guard := g } h := by simp [Tail.holds]
  obtain ⟨hmn, hm, hcn, hc, hhn, hh, ht, ha⟩ := I
  constructor <;>
    simp only [State.cvPush, State.setCoro, State.setGuard, State.setTail, Function.update_apply]
  all_goals grind

theorem Places.handOver (g : Nat) (kind : Release) (I : Places s)
    (hr : (s.coros i).place = .running) (hpc : (s.coros i).pc.hand = [])
    (hq : s.waitQueue = h :: rest) (hqt : t.waitQueue = rest) (hcv : ∀ v, t.cvs v = s.cvs v)
    (hcoros : ∀ j, t.coros j = if j = i then ⟨.handing h g kind, .running⟩ else
      if j = h then { s.coros h with place := .heldBy i } else s.coros j)
    (htail : ∀ k, t.tails k = s.tails k) : Places t := by
  have hhand : (Pc.handing h g kind).hand = [h] := rfl
  obtain ⟨hmn, hm, hcn, hc, hhn, hh, ht, ha⟩ := I
  have hplace : (s.coros h).place = .mutexQueue := (hm h).mp (by simp [hq])
  have hne : h ≠ i := by
    rintro rfl
    simp [hr] at hplace
  have hrest := List.nodup_cons.mp (hq ▸ hmn)
  constructor <;> grind

theorem Places.tailHandOver {k : Nat} {τ : Tail} (I : Places s) (hk : s.tails k = some τ)
    (hst : τ.stage = .unlocking) (hq : s.waitQueue = h :: rest) :
    Places (({ s with waitQueue := rest }.setPlace h (.heldByTail k)).setTail k
      { τ with stage := .handing h }) := by
  have hτ : ∀ i, ¬ τ.holds i := by simp [Tail.holds, hst]
  have hτ' : ∀ i, Tail.holds { τ with stage := .handing h } i ↔ h = i := by simp [Tail.holds]
  obtain ⟨hmn, hm, hcn, hc, hhn, hh, ht, ha⟩ := I
  constructor <;> simp only [State.setPlace, State.setCoro, State.setTail, Function.update_apply]
  all_goals grind

theorem Places.wake {inline : Bool} (I : Places s) (hr : (s.coros i).place = .running)
    (hw : Wakes s i h pc) : Places ((s.wake h inline).setPc i pc) := by
  have hhand := hw.hand
  obtain ⟨hmn, hm, hcn, hc, hhn, hh, ht, ha⟩ := I
  have hplace : (s.coros h).place = .heldBy i := (hh i h).mp (by simp [hhand])
  have hne : h ≠ i := by
    rintro rfl
    simp [hr] at hplace
  have hrest := List.nodup_cons.mp (hhand ▸ hhn i)
  constructor <;>
    simp only [State.wake, State.setPc, State.setPlace, State.setCoro, Function.update_apply]
  all_goals cases inline <;> grind

theorem Places.tailWake {k : Nat} {τ : Tail} {inline : Bool} (I : Places s)
    (hk : s.tails k = some τ) (hst : τ.stage = .handing h) :
    Places ((s.wake h inline).setTail k { τ with stage := .write }) := by
  have hτ : ∀ i, τ.holds i ↔ h = i := by simp [Tail.holds, hst]
  have hτ' : ∀ i, ¬ Tail.holds { τ with stage := .write } i := by simp [Tail.holds]
  obtain ⟨hmn, hm, hcn, hc, hhn, hh, ht, ha⟩ := I
  have hplace : (s.coros h).place = .heldByTail k := (ht k h).mp ⟨τ, hk, (hτ h).mpr rfl⟩
  constructor <;>
    simp only [State.wake, State.setPlace, State.setCoro, State.setTail, Function.update_apply]
  all_goals cases inline <;> grind

theorem Places.notify {v : Nat} {hs : List Nat} (I : Places s)
    (hr : (s.coros i).place = .running) (hpc : (s.coros i).pc = .run) (hcv : s.cvs v = hs ++ rest) :
    Places (s.notify i v hs rest) := by
  have hhand : (Pc.waking hs).hand = hs := rfl
  have hhand' : (s.coros i).pc.hand = [] := by simp [hpc, Pc.hand]
  obtain ⟨hmn, hm, hcn, hc, hhn, hh, ht, ha⟩ := I
  obtain ⟨hsn, hrn, hdisj⟩ := List.nodup_append.mp (hcv ▸ hcn v)
  have hplace : ∀ j, j ∈ hs ∨ j ∈ rest ↔ (s.coros j).place = .cvQueue v := by
    intro j
    rw [← hc v j, hcv, List.mem_append]
  have hnone : ∀ j, (s.coros j).place ≠ .heldBy i := by
    intro j hj
    simpa [hhand'] using (hh i j).mpr hj
  have hi : i ∉ hs ∧ i ∉ rest := by grind
  clear hcv
  constructor <;> simp only [State.notify, State.setCoro, Function.update_apply]
  all_goals grind

theorem Places.resume (I : Places s) (hr : (s.coros i).place = .ready) :
    Places (s.setPlace i .running) := by
  obtain ⟨hmn, hm, hcn, hc, hhn, hh, ht, ha⟩ := I
  constructor <;> simp only [State.setPlace, State.setCoro, Function.update_apply]
  all_goals grind

end

theorem finishRelease_frame (g : Nat) (γ : Guard) (kind : Release) :
    (s.finishRelease g γ kind).waitQueue = s.waitQueue ∧
      (s.finishRelease g γ kind).cvs = s.cvs ∧ (s.finishRelease g γ kind).tails = s.tails := by
  cases kind with
  | unlock | drop => exact ⟨rfl, rfl, rfl⟩
  | assign src =>
    simp only [State.finishRelease]
    split <;> exact ⟨rfl, rfl, rfl⟩

theorem setPc_coros {i : Nat} {pc : Pc} (hr : (s.coros i).place = .running) (j : Nat) :
    (s.setPc i pc).coros j = if j = i then ⟨pc, .running⟩ else s.coros j := by
  simp only [State.setPc, State.setCoro, Function.update_apply, hr]

theorem Places.preserved (I : Places s) (hfresh : s.tails s.nextTail = none)
    (h : Transition s a t) : Places t := by
  cases h with
  | idle => exact I
  | lockFree hr hl =>
    obtain ⟨hs, hpc, -⟩ := hl.hand
    exact I.movePc hr hs hpc (fun j => Function.update_apply ..) rfl rfl rfl
  | lockBusy hr hl => exact I.lockBusy hr hl
  | lockResume hr hpc =>
    exact I.movePc hr (by simp [hpc, Pc.hand]) rfl (setPc_coros hr) rfl rfl rfl
  | @relockResume i g next γ inline hr hpc =>
    refine I.movePc hr (by simp [hpc, Pc.hand]) ?_ (setPc_coros hr) rfl rfl rfl
    cases next <;> rfl
  | move hr hpc =>
    exact I.frame rfl rfl (fun _ => rfl) (fun _ => rfl) (fun _ _ => rfl) fun _ _ => .rfl
  | cvPush hr hw => exact I.cvPush hr hw hfresh
  | movePc hr hm =>
    obtain ⟨hs, hpc⟩ := hm.hand
    exact I.movePc hr hs hpc (setPc_coros hr) rfl rfl rfl
  | @finish a i g γ kind hr hf =>
    obtain ⟨hq, hcv, htails⟩ := finishRelease_frame (s := s) g γ kind
    refine I.movePc hr hf.hand (show Pc.run.hand = [] from rfl) (fun j => ?_) hq hcv htails
    rw [setPc_coros (by rw [coros_finishRelease]; exact hr), coros_finishRelease]
  | @handOver i g kind γ h rest inline hr hpc hγ hq =>
    refine I.handOver g kind hr (by simp [hpc, Pc.hand]) hq rfl (fun _ => rfl) (fun j => ?_)
      fun _ => rfl
    have hne : i ≠ h := by
      rintro rfl
      have := (I.mutex i).mp (by simp [hq])
      simp [hr] at this
    simp only [State.setPc, State.setPlace, State.setCoro, State.setGuard, Function.update_apply,
      if_neg hne, hr]
  | free hr hpc =>
    exact I.movePc hr (by simp [hpc, Pc.hand]) rfl (setPc_coros hr) rfl rfl rfl
  | wake hr hw => exact I.wake hr hw
  | notify hr hpc hcv => exact I.notify hr hpc hcv
  | tailTest hk hst =>
    refine I.moveTail hk (by simp [Tail.holds, hst]) ?_ (fun _ => Function.update_apply ..) rfl rfl
      rfl
    intro h
    unfold Tail.holds
    split <;> simp
  | tailHandOver hk hst hq => exact I.tailHandOver hk hst hq
  | tailFree hk hst | tailWrite hk hst =>
    exact I.moveTail hk (by simp [Tail.holds, hst]) (by simp [Tail.holds])
      (fun _ => Function.update_apply ..) rfl rfl rfl
  | tailWake hk hst => exact I.tailWake hk hst
  | resume hr => exact I.resume hr

theorem pc_setCoro {i : Nat} {c : Coroutine} (j : Nat) :
    ((s.setCoro i c).coros j).pc = if j = i then c.pc else (s.coros j).pc := by
  simp only [State.setCoro, Function.update_apply]
  split <;> rfl

theorem pc_setPlace {i : Nat} {place : Place} (j : Nat) :
    ((s.setPlace i place).coros j).pc = (s.coros j).pc := by
  rw [State.setPlace, pc_setCoro]
  split
  · rename_i hj
    rw [hj]
  · rfl

theorem pc_notify {i v : Nat} {hs rest : List Nat} (j : Nat) :
    ((s.notify i v hs rest).coros j).pc = if j = i then .waking hs else (s.coros j).pc := by
  rw [State.notify, pc_setCoro]
  dsimp only
  split
  · rfl
  · split <;> rfl

end TinyCoroutine.Sync
