import TinyCoroutine.Channel.Calls

/-!
# The call stacks and the mutex

The innermost call of a thread is the only one that can be inside its critical section: below
it stand calls that have resumed a coroutine, which they do after they have released the
mutex. The thread that holds the mutex is the one whose innermost call is inside.
-/
namespace TinyCoroutine.Channel.Calls

open Foundation

variable {T : Type*} {s s' : State T}

structure Frames (s : State T) : Prop where
  shape : ∀ t, ∀ c ∈ s.calls t, Shape c.number c.code ∧ c.number < s.next ∧
    (c.resuming = true → ∃ wakes : List (Wake T), c.code = wakes.map .reschedule)
  below : ∀ t, ∀ c ∈ (s.calls t).tail, c.resuming = true
  numbers : ∀ t, ((s.calls t).map Call.number).Nodup
  threads : ∀ t u, ∀ c ∈ s.calls t, ∀ d ∈ s.calls u, c.number = d.number → t = u
  mutex : ∀ t, s.owner = some t ↔ ∃ c ∈ (s.calls t).head?, holds c.code = true

theorem frames_start (c : Channel T) : Frames (start c) := by
  constructor <;> simp [start]

/-- Two calls with one number are one call. -/
theorem Frames.eq_of_number (h : Frames s) {t u : Nat} {c d : Call T} (hc : c ∈ s.calls t)
    (hd : d ∈ s.calls u) (hn : c.number = d.number) : t = u ∧ c = d := by
  obtain rfl := h.threads t u c hc d hd hn
  exact ⟨rfl, List.inj_on_of_nodup_map (h.numbers t) hc hd hn⟩

theorem Frames.number_ne (h : Frames s) {t : Nat} {c d : Call T} {rest : List (Call T)}
    (at_ : s.calls t = c :: rest) (hd : d ∈ rest) : d.number ≠ c.number := by
  have hnodup := h.numbers t
  rw [at_, List.map_cons, List.nodup_cons] at hnodup
  intro heq
  exact hnodup.1 (heq ▸ List.mem_map_of_mem hd)

theorem Frames.not_holds_of_resuming (h : Frames s) {t : Nat} {c : Call T} (hc : c ∈ s.calls t)
    (hres : c.resuming = true) : holds c.code = false := by
  obtain ⟨wakes, hw⟩ := (h.shape t c hc).2.2 hres
  rw [hw, holds_wakes]

/-- A thread that runs other code does not hold the mutex. -/
theorem Frames.not_owner_of_outside (h : Frames s) {t : Nat} (hout : s.outside t) :
    s.owner ≠ some t := by
  intro howner
  obtain ⟨c, hc, hholds⟩ := (h.mutex t).mp howner
  have hres := h.not_holds_of_resuming (List.mem_of_mem_head? hc) (hout c hc)
  rw [hres] at hholds
  cases hholds

/-- One thread gets the stack `cs`; its calls were there before or are new. -/
theorem Frames.update (h : Frames s) {t : Nat} {cs : List (Call T)}
    (hcalls : s'.calls = Function.update s.calls t cs) (hnext : s.next ≤ s'.next)
    (hshape : ∀ c ∈ cs, Shape c.number c.code ∧ c.number < s'.next ∧
      (c.resuming = true → ∃ wakes : List (Wake T), c.code = wakes.map .reschedule))
    (hbelow : ∀ c ∈ cs.tail, c.resuming = true) (hnumbers : (cs.map Call.number).Nodup)
    (hold : ∀ c ∈ cs, (∃ d ∈ s.calls t, d.number = c.number) ∨ s.next ≤ c.number)
    (howner : ∀ u, s'.owner = some u ↔
      if u = t then ∃ c ∈ cs.head?, holds c.code = true else s.owner = some u) : Frames s' := by
  have hsame : s'.calls t = cs := by rw [hcalls, Function.update_self]
  have hother : ∀ u, u ≠ t → s'.calls u = s.calls u := by
    intro u hu
    rw [hcalls, Function.update_of_ne hu]
  -- a call of another thread has another number
  have hdistinct : ∀ u, u ≠ t → ∀ c ∈ cs, ∀ d ∈ s.calls u, c.number ≠ d.number := by
    intro u hu c hc d hd heq
    rcases hold c hc with ⟨e, he, hen⟩ | hnew
    · exact hu (h.threads u t d hd e he (heq.symm.trans hen.symm))
    · have := (h.shape u d hd).2.1
      omega
  constructor
  · intro u c hc
    by_cases hu : u = t
    · subst hu
      exact hshape c (hsame ▸ hc)
    · obtain ⟨h1, h2, h3⟩ := h.shape u c (hother u hu ▸ hc)
      exact ⟨h1, by omega, h3⟩
  · intro u c hc
    by_cases hu : u = t
    · subst hu
      exact hbelow c (hsame ▸ hc)
    · exact h.below u c (hother u hu ▸ hc)
  · intro u
    by_cases hu : u = t
    · subst hu
      rw [hsame]
      exact hnumbers
    · rw [hother u hu]
      exact h.numbers u
  · intro u v c hc d hd heq
    by_cases hu : u = t <;> by_cases hv : v = t
    · rw [hu, hv]
    · subst hu
      exact absurd heq (hdistinct v hv c (hsame ▸ hc) d (hother v hv ▸ hd))
    · subst hv
      exact absurd heq.symm (hdistinct u hu d (hsame ▸ hd) c (hother u hu ▸ hc))
    · exact h.threads u v c (hother u hu ▸ hc) d (hother v hv ▸ hd) heq
  · intro u
    rw [howner]
    split_ifs with hu
    · rw [hu, hsame]
    · rw [hother u hu]
      exact h.mutex u

/-- The innermost call of one thread goes on. -/
theorem Frames.replace (h : Frames s) {t n : Nat} {is js : List (Instr T)} {b d : Bool}
    {rest : List (Call T)} (at_ : s.calls t = ⟨n, is, b⟩ :: rest)
    (hcalls : s'.calls = Function.update s.calls t (⟨n, js, d⟩ :: rest)) (hnext : s'.next = s.next)
    (hshape : Shape n js) (hres : d = true → ∃ wakes : List (Wake T), js = wakes.map .reschedule)
    (howner : ∀ u, s'.owner = some u ↔ if u = t then holds js = true else s.owner = some u) :
    Frames s' := by
  have hmem : ∀ c ∈ rest, c ∈ s.calls t := by
    intro c hc
    rw [at_]
    exact List.mem_cons_of_mem _ hc
  have hn : n < s.next := (h.shape t ⟨n, is, b⟩ (by simp [at_])).2.1
  have hbelow := h.below t
  have hnumbers := h.numbers t
  rw [at_] at hbelow hnumbers
  refine h.update hcalls hnext.ge ?_ hbelow hnumbers ?_ ?_
  · intro c hc
    rcases List.mem_cons.mp hc with rfl | hc
    · exact ⟨hshape, by rw [hnext]; exact hn, hres⟩
    · rw [hnext]
      exact h.shape t c (hmem c hc)
  · intro c hc
    left
    rcases List.mem_cons.mp hc with rfl | hc
    · exact ⟨⟨n, is, b⟩, by simp [at_], rfl⟩
    · exact ⟨c, hmem c hc, rfl⟩
  · simpa using howner

theorem Frames.push (h : Frames s) {t : Nat} {is : List (Instr T)} (hout : s.outside t)
    (hcalls : s'.calls = Function.update s.calls t (⟨s.next, is, false⟩ :: s.calls t))
    (hnext : s'.next = s.next + 1) (hshape : Shape s.next is) (hfree : holds is = false)
    (howner : s'.owner = s.owner) : Frames s' := by
  have hlt : ∀ c ∈ s.calls t, c.number < s.next := fun c hc => (h.shape t c hc).2.1
  refine h.update hcalls (by omega) ?_ ?_ ?_ ?_ ?_
  · intro c hc
    rcases List.mem_cons.mp hc with rfl | hc
    · exact ⟨hshape, by simp [hnext], by simp⟩
    · obtain ⟨h1, h2, h3⟩ := h.shape t c hc
      exact ⟨h1, by omega, h3⟩
  · intro c hc
    cases hcs : s.calls t with
    | nil => simp [hcs] at hc
    | cons e rest =>
      simp only [List.tail_cons, hcs, List.mem_cons] at hc
      rcases hc with rfl | hc
      · exact hout c (by simp [hcs])
      · exact h.below t c (by simp [hcs, hc])
  · rw [List.map_cons, List.nodup_cons]
    refine ⟨?_, h.numbers t⟩
    intro hmem
    obtain ⟨c, hc, heq⟩ := List.mem_map.mp hmem
    exact Nat.ne_of_lt (hlt c hc) heq
  · intro c hc
    rcases List.mem_cons.mp hc with rfl | hc
    · exact .inr (Nat.le_refl _)
    · exact .inl ⟨c, hc, rfl⟩
  · intro u
    rw [howner]
    split_ifs with hu
    · subst hu
      simpa [hfree] using h.not_owner_of_outside hout
    · rfl

theorem Frames.pop (h : Frames s) {t : Nat} {c : Call T} {rest : List (Call T)}
    (at_ : s.calls t = c :: rest) (hfree : holds c.code = false)
    (hcalls : s'.calls = Function.update s.calls t rest) (hnext : s'.next = s.next)
    (howner : s'.owner = s.owner) : Frames s' := by
  have hmem : ∀ d ∈ rest, d ∈ s.calls t := by
    intro d hd
    rw [at_]
    exact List.mem_cons_of_mem _ hd
  have hbelow := h.below t
  have hnumbers := h.numbers t
  rw [at_] at hbelow hnumbers
  refine h.update hcalls hnext.ge ?_ ?_ (List.nodup_cons.mp hnumbers).2 ?_ ?_
  · intro d hd
    rw [hnext]
    exact h.shape t d (hmem d hd)
  · exact fun d hd => hbelow d (List.mem_of_mem_tail hd)
  · exact fun d hd => .inl ⟨d, hmem d hd, rfl⟩
  · intro u
    rw [howner]
    split_ifs with hu
    · subst hu
      have hnot : s.owner ≠ some u := by
        intro ho
        obtain ⟨d, hd, hholds⟩ := (h.mutex u).mp ho
        rw [at_, List.head?_cons, Option.mem_some_iff] at hd
        rw [← hd, hfree] at hholds
        cases hholds
      have hnone : ¬∃ d ∈ rest.head?, holds d.code = true := by
        rintro ⟨d, hd, hholds⟩
        have hd' := List.mem_of_mem_head? hd
        rw [h.not_holds_of_resuming (hmem d hd') (hbelow d hd')] at hholds
        cases hholds
      exact iff_of_false hnot hnone
    · rfl

/-- The thread whose innermost call is at `is` holds the mutex or not, as `is` says. -/
theorem Frames.owner_iff (h : Frames s) {t n : Nat} {is : List (Instr T)} {b : Bool}
    {rest : List (Call T)} (at_ : s.calls t = ⟨n, is, b⟩ :: rest) :
    s.owner = some t ↔ holds is = true := by
  rw [h.mutex t, at_]
  simp

/-- A step that neither takes nor releases the mutex. -/
theorem owner_of_same {o o' : Option Nat} {t : Nat} {b : Bool} (hsame : o' = o)
    (hb : o = some t ↔ b = true) (u : Nat) :
    o' = some u ↔ if u = t then b = true else o = some u := by
  subst hsame
  split_ifs with hu
  · rw [hu]
    exact hb
  · rfl

theorem Frames.preserved {hasContext : Nat → Bool} (h : Frames s)
    (step : Transition hasContext s s') : Frames s' := by
  cases step with
  | call t op out own => exact h.push out rfl rfl (shape_code own) (holds_code op) rfl
  | ret at_ => exact h.pop at_ rfl rfl rfl rfl
  | @lock t n is rest at_ free =>
    obtain ⟨op, own, rfl⟩ := (h.shape t _ (at_ ▸ List.mem_cons_self)).1.of_lock
    refine h.replace at_ rfl rfl (.inside op own) (by simp) ?_
    intro u
    split_ifs with hu
    · simp [hu, holds]
    · simpa [free] using fun heq : t = u => hu heq.symm
  | @critical t n op is rest r at_ run =>
    obtain ⟨-, rfl⟩ := (h.shape t _ (at_ ▸ List.mem_cons_self)).1.of_critical
    exact h.replace at_ rfl rfl (.leaving _) (by simp)
      (owner_of_same (b := true) rfl (h.owner_iff at_))
  | @unlock t n is rest at_ =>
    obtain ⟨wakes, rfl⟩ := (h.shape t _ (at_ ▸ List.mem_cons_self)).1.of_unlock
    have howner : s.owner = some t := (h.owner_iff at_).mpr rfl
    refine h.replace at_ rfl rfl (.waking wakes) (by simp) ?_
    intro u
    split_ifs with hu
    · simp
    · simpa [howner] using fun heq : t = u => hu heq.symm
  | @reschedule t n w is rest at_ =>
    obtain ⟨wakes, rfl⟩ := (h.shape t _ (at_ ▸ List.mem_cons_self)).1.of_reschedule
    have hnot : s.owner ≠ some t := fun ho => by cases (h.owner_iff at_).mp ho
    refine h.replace at_ rfl rfl (.waking wakes) (fun _ => ⟨wakes, rfl⟩) (owner_of_same rfl ?_)
    simpa using hnot
  | @back t n is rest at_ =>
    have hshape := (h.shape t _ (at_ ▸ List.mem_cons_self)).1
    exact h.replace at_ rfl rfl hshape (by simp) (owner_of_same rfl (h.owner_iff at_))

end TinyCoroutine.Channel.Calls
