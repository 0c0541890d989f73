import TinyCoroutine.Sync.GuardRules

/-!
# Guards and the tails that still write to them

When no relock is completed before the tail of its `wait` is over (`TailsFirst`), a tail belongs
to a coroutine that has not got the mutex back, and every step keeps the invariant of the guards.
-/
namespace TinyCoroutine.Sync

variable {s t : State} {a : Action}

/-- A relock is not completed before the `await_suspend` that published its coroutine is
over. -/
def TailsFirst (s : State) : Action → Prop
  | .step i _ =>
    match (s.coros i).pc with
    | .relockResume g _ => ∀ k < s.nextTail, ∀ τ ∈ s.tails k, τ.guard = g → ¬ τ.pending
    | _ => True
  | _ => True

instance (s : State) (a : Action) : Decidable (TailsFirst s a) := by
  unfold TailsFirst
  split
  · split <;> infer_instance
  · infer_instance

theorem Guards.over_of_tailsFirst {i g : Nat} {next : After} {inline : Bool} (I : Guards s)
    (hc : TailsFirst s (.step i inline)) (hpc : (s.coros i).pc = .relockResume g next) :
    ∀ k τ, s.tails k = some τ → τ.guard = g → ¬ τ.pending := by
  intro k τ hk
  simp only [TailsFirst, hpc] at hc
  refine hc k ?_ τ hk
  by_contra hge
  simp [I.freshTail k (by omega)] at hk

/-- A coroutine may go from `pc` to `pc'` without a change of its guards. -/
structure Pc.Follows (s : State) (i : Nat) (pc pc' : Pc) : Prop where
  guardOk : pc'.GuardOk s i
  releasing : ∀ g, pc.releasing g = true → pc'.releasing g = true
  relocks : ∀ g, pc.relocks g = true → pc'.relocks g = true

section

variable {i : Nat} {pc : Pc}

theorem Guards.locks (I : Guards s) (hl : Locks s i a pc) : Pc.Follows s i (s.coros i).pc pc := by
  have hok := I.pcs i
  cases hl with
  | lock hpc => exact ⟨trivial, by simp [hpc, Pc.releasing], by simp [hpc, Pc.relocks]⟩
  | @relock g γ hpc hγ hatt howns =>
    obtain ⟨hγ, howner, halive⟩ := guardOf_eq_some.mp hγ
    have htrue : γ.owns = γ.inside := I.truthful hγ halive (by simp [howner, hpc, Pc.relocks])
      (by simp [howner, hpc, Pc.releasing])
    exact ⟨⟨γ, hγ, howner, halive, hatt, htrue ▸ howns⟩, by simp [hpc, Pc.releasing],
      by simp [hpc, Pc.relocks]⟩
  | wait hpc =>
    rw [hpc] at hok ⊢
    exact ⟨hok, by simp [Pc.releasing], by simp [Pc.relocks]⟩

theorem Guards.moves (I : Guards s) (hm : Moves s i a pc) : Pc.Follows s i (s.coros i).pc pc := by
  cases hm with
  | @waitFor v g γ hpc hγ hatt =>
    obtain ⟨hγ, howner, halive⟩ := guardOf_eq_some.mp hγ
    exact ⟨⟨γ, hγ, howner, halive, hatt⟩, by simp [hpc, Pc.releasing], by simp [hpc, Pc.relocks]⟩
  | @unlocking g γ kind hpc hγ hallowed hself howns =>
    obtain ⟨hγ, howner, halive⟩ := guardOf_eq_some.mp hγ
    rw [I.test_eq hγ] at howns
    have htrue : γ.owns = γ.inside := I.truthful hγ halive (by simp [howner, hpc, Pc.relocks])
      (by simp [howner, hpc, Pc.releasing])
    exact ⟨⟨⟨γ, hγ, howner, halive, htrue.symm.trans howns⟩,
      Release.source_of_allowed hallowed hself⟩,
      by simp [hpc, Pc.releasing], by simp [hpc, Pc.relocks]⟩
  | satisfied hpc => exact ⟨trivial, by simp [hpc, Pc.releasing], by simp [hpc, Pc.relocks]⟩
  | woken hpc => exact ⟨trivial, by simp [hpc, Pc.releasing], by simp [hpc, Pc.relocks]⟩

theorem Guards.wakes {h : Nat} (I : Guards s) (hw : Wakes s i h pc) :
    Pc.Follows s i (s.coros i).pc pc := by
  have hok := I.pcs i
  cases hw with
  | handing hpc =>
    rw [hpc] at hok ⊢
    exact ⟨hok, by simp [Pc.releasing], by simp [Pc.relocks]⟩
  | waking hpc => exact ⟨trivial, by simp [hpc, Pc.releasing], by simp [hpc, Pc.relocks]⟩

/-- A step that changes no guard and no tail, and the place in the code of `i` only. -/
theorem Guards.follow (I : Guards s) (hf : Pc.Follows s i (s.coros i).pc pc)
    (hcoros : ∀ j, (t.coros j).pc = if j = i then pc else (s.coros j).pc)
    (hguards : t.guards = s.guards) (htails : t.tails = s.tails) (hnext : t.nextTail = s.nextTail)
    (hnextGuard : t.nextGuard = s.nextGuard) : Guards t := by
  have hi : (t.coros i).pc = pc := by rw [hcoros, if_pos rfl]
  refine I.movePc (i := i) (fun j hj => by rw [hcoros, if_neg hj]) ?_ hguards htails hnext
    hnextGuard ?_ ?_
  · rw [hi]
    exact hf.guardOk
  · rw [hi]
    exact hf.releasing
  · rw [hi]
    exact hf.relocks

end

theorem Guards.preserved (I : Guards s) (hc : TailsFirst s a) (h : Transition s a t) :
    Guards t := by
  cases h with
  | idle => exact I
  | lockFree hr hl | lockBusy hr hl => exact I.follow (I.locks hl) pc_setCoro rfl rfl rfl rfl
  | lockResume _ hpc => exact I.lockResume hpc
  | relockResume _ hpc hγ => exact I.relockResume hpc hγ (I.over_of_tailsFirst hc hpc)
  | @move i g γ _ hpc hγ => exact I.transfer γ.owner hpc hγ
  | cvPush _ hw => exact I.cvPush hw
  | movePc hr hm => exact I.follow (I.moves hm) pc_setCoro rfl rfl rfl rfl
  | finish _ hf => exact I.finish hf
  | @handOver i g kind γ h rest inline _ hpc hγ =>
    refine I.unlock (.handing h g kind) hpc hγ rfl rfl rfl rfl (fun j => ?_)
      (fun u => And.intro) (by simp [Pc.releasing])
    rw [State.setPc, pc_setCoro, pc_setPlace]
    rfl
  | @free i g kind γ inline _ hpc hγ =>
    refine I.unlock (.finishing g kind) hpc hγ rfl rfl rfl rfl (fun j => ?_)
      (fun u => And.intro) (by simp [Pc.releasing])
    rw [State.setPc, pc_setCoro]
    rfl
  | wake hr hw =>
    refine I.follow (I.wakes hw) (fun j => ?_) rfl rfl rfl rfl
    rw [State.setPc, pc_setCoro, State.wake, pc_setPlace]
  | @notify i v o hs rest hr hpc =>
    have hf : Pc.Follows s i (s.coros i).pc (.waking hs) :=
      ⟨trivial, by simp [hpc, Pc.releasing], by simp [hpc, Pc.relocks]⟩
    exact I.follow hf pc_notify rfl rfl rfl rfl
  | @tailTest k τ γ inline hk hst hγ =>
    have hp : τ.pending := by simp [Tail.pending, hst]
    refine I.advanceTail _ hk hp (fun _ => Function.update_apply ..) rfl (fun _ => rfl) rfl rfl ?_
    intro hdone γ' hγ'
    obtain ⟨γ'', hγ'', hin, -⟩ := I.tails k τ hk hp
    obtain rfl := Option.some.inj (hγ.symm.trans hγ')
    obtain rfl := Option.some.inj (hγ.symm.trans hγ'')
    rw [I.test_eq hγ] at hdone
    cases howns : γ.owns <;> simp_all
  | @tailHandOver k τ h rest inline hk hst =>
    exact I.advanceTail (.handing h) hk (by simp [Tail.pending, hst])
      (fun _ => Function.update_apply ..) rfl pc_setPlace rfl rfl (by simp)
  | tailFree hk hst =>
    exact I.advanceTail .write hk (by simp [Tail.pending, hst])
      (fun _ => Function.update_apply ..) rfl (fun _ => rfl) rfl rfl (by simp)
  | tailWake hk hst =>
    exact I.advanceTail .write hk (by simp [Tail.pending, hst])
      (fun _ => Function.update_apply ..) rfl pc_setPlace rfl rfl (by simp)
  | @tailWrite k τ γ inline hk hst hγ =>
    have hp : τ.pending := by simp [Tail.pending, hst]
    obtain ⟨γ', hγ', hin, -⟩ := I.tails k τ hk hp
    obtain rfl := Option.some.inj (hγ.symm.trans hγ')
    exact I.moveTail .done false hk hp hγ (fun _ => Function.update_apply ..)
      (fun _ => Function.update_apply ..) (fun _ => rfl) rfl rfl (by simp) fun _ => hin.symm
  | @resume i hr =>
    have hok := I.pcs i
    have hf : Pc.Follows s i (s.coros i).pc (s.coros i).pc := ⟨hok, fun _ => id, fun _ => id⟩
    exact I.follow hf pc_setCoro rfl rfl rfl rfl

end TinyCoroutine.Sync
