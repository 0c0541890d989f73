import TinyCoroutine.Task.ChainLog

/-!
# The chain implements call and return

The frames that `caller_` connects stand for the activations of direct evaluation: `Rep`
relates a machine of frames with a configuration of the machine of activations, and the two run
in lockstep. Resuming the root, and then the innermost coroutine whenever control comes
back, therefore performs the effects of direct evaluation, and ends with its result.
-/
namespace TinyCoroutine.Task.Chain

open Foundation Structured

variable {σ V X Ev Re P : Type}

/-! ### Frames and activations -/

/-- The promise holds no result yet. -/
structure Frame.Open (f : Frame σ V X Ev Re P) : Prop where
  exception : f.exception = none
  value : f.value = none

/-- The coroutines that wait for `h`, whose `caller_` is given, and where they continue. -/
inductive Callers (frames : Handle → Option (Frame σ V X Ev Re P)) :
    Handle → Option Handle → List Handle → List (Caller σ V X Ev Re P) → Prop where
  | root : Callers frames Machine.root none [] []
  | call {h p f c hs cs} : p < h → frames p = some f → f.Open → f.status = .awaiting →
      f.task = some h → f.point = .awaiting c.bind c.rest c.locals →
      Callers frames p f.caller hs cs → Callers frames h (some p) (p :: hs) (c :: cs)

/-- The coroutine `h` is innermost. -/
structure Active (m : Machine σ V X Ev Re P) (h : Handle) (f : Frame σ V X Ev Re P)
    (hs : List Handle) (cs : List (Caller σ V X Ev Re P)) : Prop where
  frame : m.frames h = some f
  lt : h < m.next
  isOpen : f.Open
  callers : Callers m.frames h f.caller hs cs
  nested : Nested m.next m.log (h :: hs) none

/-- Machines of frames and configurations of activations. -/
inductive Rep (m : Machine σ V X Ev Re P) : Config σ V X Ev Re P → Prop where
  | run {h f hs k l cs} : Active m h f hs cs → m.control = some h → f.status = .running →
      f.point = .run k l → Rep m (.run k l cs m.trace)
  | paused {h f hs k l cs} : Active m h f hs cs → m.control = none →
      f.status = .initial ∨ f.status = .suspended → f.point = .run k l →
      Rep m (.paused k l cs m.trace)
  | raise {h f hs x k l cs} : Active m h f hs cs → m.control = some h → f.status = .running →
      f.point = .raise x k l → Rep m (.raise x k l cs m.trace)
  /-- The callee `g` has finished and the coroutine that awaits it has control. -/
  | callee {p g f e c hs cs} : m.control = some p → m.frames p = some f → f.Open →
      f.status = .running → f.task = some g → f.point = .awaiting c.bind c.rest c.locals →
      Callers m.frames p f.caller hs cs → p < g → g < m.next → m.frames g = some e →
      Nested m.next m.log (p :: hs) (some g) → Rep m (.finished e.result (c :: cs) m.trace)
  | root {f} : m.control = none → m.frames Machine.root = some f → f.status = .final →
      Nested m.next m.log [] (some Machine.root) → Rep m (.finished f.result [] m.trace)

variable {prog : Program σ V X Ev Re P} {m : Machine σ V X Ev Re P} {h p g : Handle}
  {f : Frame σ V X Ev Re P} {hs : List Handle} {cs : List (Caller σ V X Ev Re P)}
  {k : List (Todo σ V X Ev Re P)} {l : σ}

/-! ### The callers of a frame -/

/-- Only frames older than `h` matter. -/
theorem Callers.congr {frames frames' : Handle → Option (Frame σ V X Ev Re P)}
    {caller : Option Handle} (hC : Callers frames h caller hs cs)
    (hframes : ∀ p < h, frames' p = frames p) : Callers frames' h caller hs cs := by
  induction hC with
  | root => exact .root
  | call hlt hf hopen hst htask hpoint _ ih =>
    refine .call hlt (by rw [hframes _ hlt, hf]) hopen hst htask hpoint (ih fun q hq => ?_)
    exact hframes q (hq.trans hlt)

theorem Callers.length_le {frames : Handle → Option (Frame σ V X Ev Re P)}
    {caller : Option Handle} (hC : Callers frames h caller hs cs) : hs.length ≤ h := by
  induction hC with
  | root => exact Nat.le_refl _
  | call hlt _ _ _ _ _ _ ih => exact Nat.succ_le_of_lt (Nat.lt_of_le_of_lt ih hlt)

/-- The chain from the root leads to `h`. -/
theorem Callers.innermost {caller : Option Handle} (hC : Callers m.frames h caller hs cs)
    (n : Nat) : m.innermost (hs.length + n) Machine.root = m.innermost n h := by
  induction hC generalizing n with
  | root => rw [List.length_nil, Nat.zero_add]
  | @call h p f c hs cs _ hf _ hst htask _ _ ih =>
    have hp := ih (n + 1)
    rw [List.length_cons, Nat.add_right_comm, Nat.add_assoc, hp]
    simp [Machine.innermost, hf, hst, htask]

/-! ### The frame at the end of the chain -/

theorem Active.innermost (A : Active m h f hs cs) (hst : f.status ≠ .awaiting) :
    m.innermost m.next Machine.root = h := by
  have hle : hs.length ≤ m.next := A.callers.length_le.trans (Nat.le_of_lt A.lt)
  obtain ⟨n, hn⟩ := Nat.exists_eq_add_of_le hle
  rw [hn, A.callers.innermost]
  cases n with
  | zero => rfl
  | succ n =>
    simp only [Machine.innermost, A.frame]
    split
    · rename_i hawaiting _
      exact absurd hawaiting hst
    · rfl

/-- A step that changes the innermost frame only. -/
theorem Active.setFrame (A : Active m h f hs cs) (e : Frame σ V X Ev Re P)
    (hcaller : e.caller = f.caller) (hopen : e.Open) : Active (m.setFrame h e) h e hs cs where
  frame := Function.update_self ..
  lt := A.lt
  isOpen := hopen
  callers := by
    rw [hcaller]
    exact A.callers.congr fun p hp => Function.update_of_ne (Nat.ne_of_lt hp) ..
  nested := A.nested

theorem Rep.trace {c : Config σ V X Ev Re P} (h : Rep m c) : c.trace = m.trace := by
  cases h <;> rfl

theorem rep_start (p : P) : Rep (start prog p) (Structured.start prog p) := by
  have A : Active (start prog p) Machine.root (create prog p) [] [] :=
    ⟨by simp [start], Nat.one_pos, ⟨rfl, rfl⟩, .root, .start⟩
  exact .paused A rfl (.inl rfl) rfl

/-! ### The steps of the machine of frames -/

theorem Active.with_trace (A : Active m h f hs cs) (trace : List Ev) :
    Active { m with trace } h f hs cs :=
  ⟨A.frame, A.lt, A.isOpen, A.callers, A.nested⟩

/-- The innermost coroutine goes to another point of its code. -/
theorem Active.goto_run (A : Active m h f hs cs) (hcontrol : m.control = some h)
    (hst : f.status = .running) (k : List (Todo σ V X Ev Re P)) (l : σ) :
    Rep (m.setFrame h { f with point := .run k l }) (.run k l cs m.trace) :=
  .run (A.setFrame _ rfl ⟨A.isOpen.exception, A.isOpen.value⟩) hcontrol hst rfl

theorem Active.goto_raise (A : Active m h f hs cs) (hcontrol : m.control = some h)
    (hst : f.status = .running) (x : X) (k : List (Todo σ V X Ev Re P)) (l : σ) :
    Rep (m.setFrame h { f with point := .raise x k l }) (.raise x k l cs m.trace) :=
  .raise (A.setFrame _ rfl ⟨A.isOpen.exception, A.isOpen.value⟩) hcontrol hst rfl

theorem Active.finalSuspend (A : Active m h f hs cs) (e : Frame σ V X Ev Re P)
    (hcaller : e.caller = f.caller) :
    Rep (m.finalSuspend h e) (.finished e.result cs m.trace) := by
  have hC := A.callers
  have hN := A.nested.finish
  unfold Machine.finalSuspend
  split
  · rename_i p hp
    rw [← hcaller, hp] at hC
    cases hC with
    | @call _ _ fp c hs cs hlt hf hopen hst htask hpoint hC =>
      have hne : p ≠ h := Nat.ne_of_lt hlt
      refine .callee (f := { fp with status := .running }) (e := { e with status := .final })
        rfl ?_ ⟨hopen.exception, hopen.value⟩ rfl htask hpoint ?_ hlt A.lt ?_ hN
      · simp [Machine.resume, Machine.setFrame, Function.update_of_ne hne, hf]
      · refine hC.congr fun q hq => ?_
        have hqp : q ≠ p := Nat.ne_of_lt hq
        have hqh : q ≠ h := Nat.ne_of_lt (hq.trans hlt)
        simp [Machine.resume, Machine.setFrame, hqp, hqh]
      · simp [Machine.resume, Machine.setFrame, hne.symm]
  · rename_i hp
    rw [← hcaller, hp] at hC
    cases hC
    refine .root (f := { e with status := .final }) rfl ?_ rfl hN
    simp [Machine.setFrame]

theorem Active.await (A : Active m h f hs cs) (p : P) (bind : σ → Option V → σ)
    (k : List (Todo σ V X Ev Re P)) (l : σ) :
    Rep (({ m.setFrame m.next (create prog p) with next := m.next + 1 }).awaitSuspend h m.next
        { f with point := .awaiting bind k l } (create prog p))
      (.run [.stmt (prog.body p)] (prog.locals p) (⟨bind, k, l⟩ :: cs) m.trace) := by
  have hne : h ≠ m.next := Nat.ne_of_lt A.lt
  let caller := { f with status := .awaiting, task := some m.next, point := .awaiting bind k l }
  let callee := { create prog p with caller := some h, status := .running }
  have hC : Callers (({ m.setFrame m.next (create prog p) with next := m.next + 1 }).awaitSuspend h
      m.next { f with point := .awaiting bind k l } (create prog p)).frames m.next (some h)
      (h :: hs) (⟨bind, k, l⟩ :: cs) := by
    refine .call (f := caller) A.lt ?_ ⟨A.isOpen.exception, A.isOpen.value⟩ rfl rfl rfl ?_
    · simp [Machine.awaitSuspend, Machine.resume, Machine.setFrame, hne, caller]
    · refine A.callers.congr fun q hq => ?_
      have hqh : q ≠ h := Nat.ne_of_lt hq
      have hqn : q ≠ m.next := Nat.ne_of_lt (hq.trans A.lt)
      simp [Machine.awaitSuspend, Machine.resume, Machine.setFrame, hqh, hqn]
  refine .run (h := m.next) (f := callee) ⟨?_, Nat.lt_succ_self _, ⟨rfl, rfl⟩, hC, ?_⟩ rfl rfl rfl
  · simp [Machine.awaitSuspend, Machine.resume, Machine.setFrame, callee]
  · exact A.nested.await (Nat.lt_of_le_of_lt (Nat.zero_le h) A.lt)

/-- The step of a running coroutine. -/
theorem Active.begin (A : Active m h f hs cs) (hcontrol : m.control = some h)
    (hst : f.status = .running) (k : List (Todo σ V X Ev Re P)) (l : σ)
    (s : Stmt σ V X Ev Re P) :
    Rep (m.begin prog h f k l s) (Structured.begin prog k l cs m.trace s) := by
  cases s with
  | skip | seq | ite | tryCatch => exact A.goto_run hcontrol hst _ _
  | throw x => exact A.goto_raise hcontrol hst _ _ _
  | effect e u =>
    have A' := A.setFrame { f with point := .run k (u l (prog.respond m.trace (e l))) } rfl
      ⟨A.isOpen.exception, A.isOpen.value⟩
    exact .run (A'.with_trace (m.trace ++ [e l])) hcontrol hst rfl
  | ret v =>
    have hfin := A.finalSuspend { f with value := v l } rfl
    have hres : Frame.result { f with value := v l } = .ok (v l) := by
      simp [Frame.result, A.isOpen.exception]
    rw [hres] at hfin
    exact hfin
  | await p bind =>
    have hdone : (create prog (p l)).done = false := rfl
    simp only [Machine.begin, hdone]
    exact A.await (p l) bind k l
  | suspend =>
    have A' := A.setFrame { f with status := .suspended, point := .run k l } rfl
      ⟨A.isOpen.exception, A.isOpen.value⟩
    exact .paused ⟨A'.frame, A'.lt, A'.isOpen, A'.callers, A'.nested⟩ rfl (.inr rfl) rfl
  | loop b s =>
    simp only [Machine.begin, Structured.begin]
    split
    · exact A.goto_run hcontrol hst _ _
    · exact A.goto_run hcontrol hst _ _

/-- The driver or a transfer gives control to the innermost coroutine. -/
theorem Active.resume (A : Active m h f hs cs) (hpoint : f.point = .run k l) :
    Rep (m.resume h) (.run k l cs m.trace) := by
  have hresume : m.resume h = { m.setFrame h { f with status := .running } with
      control := some h } := by
    simp [Machine.resume, Machine.setFrame, A.frame]
  have A' := A.setFrame { f with status := .running } rfl ⟨A.isOpen.exception, A.isOpen.value⟩
  rw [hresume]
  exact .run ⟨A'.frame, A'.lt, A'.isOpen, A'.callers, A'.nested⟩ rfl rfl hpoint

/-- The coroutine `p` takes the result of its callee `g`, whose frame is destroyed. -/
theorem rep_awaitResume {e : Frame σ V X Ev Re P} {c : Caller σ V X Ev Re P}
    (hcontrol : m.control = some p) (hopen : f.Open) (hst : f.status = .running)
    (hC : Callers m.frames p f.caller hs cs) (hlt : p < g) (hg : g < m.next)
    (hN : Nested m.next m.log (p :: hs) (some g)) :
    Option.Rel Rep (some (m.awaitResume p g f e c.bind c.rest c.locals))
      (advance prog (.finished e.result (c :: cs) m.trace)) := by
  have hA : ∀ point, Active { m.setFrame p { f with task := none, point } with
      frames := Function.update (m.setFrame p { f with task := none, point }).frames g none
      log := m.log ++ [.resume p g] } p { f with task := none, point } hs cs := by
    intro point
    refine ⟨?_, hlt.trans hg, ⟨hopen.exception, hopen.value⟩, ?_, hN.resume⟩
    · simp [Machine.setFrame, Nat.ne_of_lt hlt]
    · refine hC.congr fun q hq => ?_
      have hqp : q ≠ p := Nat.ne_of_lt hq
      have hqg : q ≠ g := Nat.ne_of_lt (hq.trans hlt)
      simp [Machine.setFrame, hqp, hqg]
  simp only [Machine.awaitResume]
  cases e.result with
  | ok v => exact .some (.run (hA _) hcontrol hst rfl)
  | error x => exact .some (.raise (hA _) hcontrol hst rfl)

theorem rep_lockstep (prog : Program σ V X Ev Re P) :
    Lockstep Rep (Machine.step prog) (advance prog) := by
  intro m c hR
  cases hR with
  | @run h f hs k l cs A hcontrol hst hpoint =>
    have hstep : m.step prog = m.exec prog h f := by
      simp [Machine.step, hcontrol, A.frame]
    rw [hstep]
    cases k with
    | nil =>
      have hres : f.result = .ok none := by
        simp [Frame.result, A.isOpen.exception, A.isOpen.value]
      have hfin := A.finalSuspend f rfl
      rw [hres] at hfin
      simp only [Machine.exec, hpoint, advance]
      exact .some hfin
    | cons i k =>
      cases i with
      | stmt s =>
        simp only [Machine.exec, hpoint, advance]
        exact .some (A.begin hcontrol hst k l s)
      | handler c t =>
        simp only [Machine.exec, hpoint, advance]
        exact .some (A.goto_run hcontrol hst k l)
  | @raise h f hs x k l cs A hcontrol hst hpoint =>
    have hstep : m.step prog = m.exec prog h f := by
      simp [Machine.step, hcontrol, A.frame]
    rw [hstep]
    cases k with
    | nil =>
      simp only [Machine.exec, hpoint, advance]
      exact .some (A.finalSuspend _ rfl)
    | cons i k =>
      cases i with
      | stmt s =>
        simp only [Machine.exec, hpoint, advance]
        exact .some (A.goto_raise hcontrol hst x k l)
      | handler c t =>
        simp only [Machine.exec, hpoint, advance]
        cases c l x with
        | some l' => exact .some (A.goto_run hcontrol hst _ _)
        | none => exact .some (A.goto_raise hcontrol hst x k l)
  | @paused h f hs k l cs A hcontrol hst hpoint =>
    have hinner : m.innermost m.next Machine.root = h := by
      refine A.innermost ?_
      rcases hst with hst | hst <;> simp [hst]
    have hstep : m.step prog = some (m.resume h) := by
      rcases hst with hst | hst <;> simp [Machine.step, hcontrol, hinner, A.frame, hst]
    rw [hstep]
    exact .some (A.resume hpoint)
  | @callee p g f e c hs cs hcontrol hf hopen hst htask hpoint hC hlt hg he hN =>
    have hstep : m.step prog = some (m.awaitResume p g f e c.bind c.rest c.locals) := by
      simp [Machine.step, hcontrol, hf, Machine.exec, hpoint, htask, he]
    rw [hstep]
    exact rep_awaitResume hcontrol hopen hst hC hlt hg hN
  | @root f hcontrol hf hst hN =>
    have hinner : ∀ n, m.innermost n Machine.root = Machine.root := by
      intro n
      cases n <;> simp [Machine.innermost, hf, hst]
    have hstep : m.step prog = none := by
      simp [Machine.step, hcontrol, hinner, hf, hst]
    rw [hstep]
    exact .none

/-! ### Call and return -/

/-- Every coroutine that awaits is resumed at most once, after its callee has finished. -/
structure ResumedOnce (log : List Link) : Prop where
  order : ∀ before h g after, log = before ++ .resume h g :: after → Answers h g before
  once : ∀ h g, log.count (.resume h g) ≤ 1

/-- What the machine of frames does, started with a call of `p`, against direct evaluation. -/
structure ImplementsCalls (prog : Program σ V X Ev Re P) (p : P) : Prop where
  /-- The effects of the machine are effects of direct evaluation. -/
  sound : ∀ n m, after (Machine.step prog) n (start prog p) = some m →
    ∃ fuel, m.trace <+: (call prog fuel p).trace
  /-- The effects of direct evaluation are effects of the machine. -/
  complete : ∀ fuel, ∃ n m, after (Machine.step prog) n (start prog p) = some m ∧
    (call prog fuel p).trace <+: m.trace
  /-- When direct evaluation ends, the root is at its final suspend, with the same result. -/
  result : ∀ fuel o l trace, call prog fuel p = .done o l trace →
    ∃ n m f, after (Machine.step prog) n (start prog p) = some m ∧ m.step prog = none ∧
      m.frames Machine.root = some f ∧ f.done = true ∧ f.result = o.result ∧ m.trace = trace ∧
      ∀ h g, .await h g ∈ m.log → m.log.count (.resume h g) = 1
  resumed : ∀ n m, after (Machine.step prog) n (start prog p) = some m → ResumedOnce m.log
  /-- A coroutine whose callee has finished is resumed in the next step. -/
  next : ∀ n m, after (Machine.step prog) n (start prog p) = some m → ∀ h g, .await h g ∈ m.log →
    .finish g ∈ m.log → .resume h g ∉ m.log → ∃ m', m.step prog = some m' ∧ .resume h g ∈ m'.log

theorem Nested.resumedOnce {n : Nat} {log : List Link} {last : Option Handle}
    (N : Nested n log hs last) : ResumedOnce log where
  order := N.order
  once h g := by
    by_cases hmem : .resume h g ∈ log
    · obtain ⟨before, after, rfl⟩ := List.append_of_mem hmem
      have hbefore := (N.order before h g after rfl).once
      have hafter : .resume h g ∉ after := by
        intro hmem
        obtain ⟨before', after', rfl⟩ := List.append_of_mem hmem
        refine (N.order (before ++ .resume h g :: before') h g after' (by simp)).once ?_
        simp
      simp [List.count_eq_zero_of_not_mem hbefore, List.count_eq_zero_of_not_mem hafter]
    · rw [List.count_eq_zero_of_not_mem hmem]
      exact Nat.zero_le _

theorem Rep.nested {c : Config σ V X Ev Re P} (hR : Rep m c) :
    ∃ hs last, Nested m.next m.log hs last := by
  cases hR with
  | run A | paused A | raise A => exact ⟨_, _, A.nested⟩
  | callee _ _ _ _ _ _ _ _ _ _ hN => exact ⟨_, _, hN⟩
  | root _ _ _ hN => exact ⟨_, _, hN⟩

theorem Rep.finished_root {r : Except X (Option V)} {trace : List Ev}
    (hR : Rep m (.finished r [] trace)) :
    ∃ f, m.control = none ∧ m.frames Machine.root = some f ∧ f.status = .final ∧ f.result = r ∧
      m.trace = trace ∧ Nested m.next m.log [] (some Machine.root) := by
  cases hR with
  | root hcontrol hf hst hN => exact ⟨_, hcontrol, hf, hst, rfl, rfl, hN⟩

/-- A callee that has finished and whose caller waits is the last one. -/
theorem Nested.last_eq {n : Nat} {log : List Link} {last : Option Handle}
    (N : Nested n log hs last) (hawait : .await h g ∈ log) (hfinish : .finish g ∈ log)
    (hresume : .resume h g ∉ log) : last = some g := by
  rcases N.answered h g hawait with hmem | hmem
  · rcases List.mem_append.mp hmem with hmem | hmem
    · exact Option.mem_toList.mp hmem
    · exact absurd hfinish (N.active g hmem)
  · exact absurd hmem hresume

theorem Rep.next {c : Config σ V X Ev Re P} (hR : Rep m c) (hawait : .await h g ∈ m.log)
    (hfinish : .finish g ∈ m.log) (hresume : .resume h g ∉ m.log) :
    ∃ m', m.step prog = some m' ∧ .resume h g ∈ m'.log := by
  cases hR with
  | run A | paused A | raise A => cases A.nested.last_eq hawait hfinish hresume
  | @callee p g' f e c hs cs hcontrol hf hopen hst htask hpoint hC hlt hg he hN =>
    obtain rfl := Option.some.inj (hN.last_eq hawait hfinish hresume)
    have hcaller : .await p g' ∈ m.log := (List.isChain_cons_cons.mp hN.chain).1
    obtain rfl := hN.caller h p g' hawait hcaller
    refine ⟨m.awaitResume h g' f e c.bind c.rest c.locals, ?_, by simp [Machine.awaitResume]⟩
    simp [Machine.step, hcontrol, hf, Machine.exec, hpoint, htask, he]
  | root _ _ _ hN =>
    obtain rfl := Option.some.inj (hN.last_eq hawait hfinish hresume)
    exact absurd rfl (hN.awaits h _ hawait).1

/-- The chain of callers implements call and return, for all programs. -/
theorem chain_implements_calls (prog : Program σ V X Ev Re P) (p : P) :
    ImplementsCalls prog p := by
  have hL := rep_lockstep prog
  have hstart : Rep (start prog p) (Structured.start prog p) := rep_start p
  constructor
  case sound =>
    intro n m hm
    obtain ⟨c, hc, hR⟩ := hL.exists_right hstart hm
    rw [← hR.trace]
    exact machine_effects hc
  case complete =>
    intro fuel
    obtain ⟨n, c, hc, htrace⟩ := call_effects prog fuel p
    obtain ⟨m, hm, hR⟩ := hL.exists_left hstart hc
    exact ⟨n, m, hm, hR.trace ▸ htrace⟩
  case result =>
    intro fuel o l trace hcall
    obtain ⟨n, hc⟩ := call_finished hcall
    obtain ⟨m, hm, hR⟩ := hL.exists_left hstart hc
    obtain ⟨f, hcontrol, hf, hst, hres, htrace, hN⟩ := hR.finished_root
    refine ⟨n, m, f, hm, hL.stopped hR rfl, hf, by simp [Frame.done, hst], hres, htrace, ?_⟩
    intro h g hawait
    have hroot := (hN.awaits h g hawait).1
    have hmem : .resume h g ∈ m.log := by simpa [hroot] using hN.answered h g hawait
    have hpos := List.count_pos_iff.mpr hmem
    have honce := hN.resumedOnce.once h g
    omega
  case resumed =>
    intro n m hm
    obtain ⟨c, hc, hR⟩ := hL.exists_right hstart hm
    obtain ⟨hs, last, hN⟩ := hR.nested
    exact hN.resumedOnce
  case next =>
    intro n m hm h g
    obtain ⟨c, hc, hR⟩ := hL.exists_right hstart hm
    exact hR.next

/-- An outer task that multiplies what an inner one returns. -/
def chainedTasks : Program Nat Nat Unit Unit Unit Bool where
  body
    | true => .seq (.await (fun _ => false) fun _ v => v.getD 0) (.ret fun l => some (l * 6))
    | false => .seq .suspend (.ret fun _ => some 7)
  locals _ := 0
  respond _ _ := ()

example : ((after (Machine.step chainedTasks) 9 (start chainedTasks true)).bind fun m =>
    m.frames Machine.root).map Frame.result = some (.ok (some 42)) := rfl

end TinyCoroutine.Task.Chain
