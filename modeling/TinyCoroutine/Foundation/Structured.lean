import TinyCoroutine.Foundation.Steps

/-!
# Structured programs with calls and exceptions

Statements over the local variables of one activation: effects, `return`, `throw`, calls,
sequences, branches, loops and `try`. They are given a direct meaning and a machine.

`eval` evaluates a statement with some fuel. Calls are evaluated by `eval` itself, and where
the fuel runs out the effects so far are kept, so that programs that do not end have a meaning
too: their effects with more and more fuel.

The machine keeps what is left to do in the running activation as a list of items, and the
activations that wait for it as a list of callers. `eval_reached` says that it does what
`eval` does.

Effects get their answers from `respond`, which knows all effects before. A `suspend` does
nothing in `eval`; the machine pauses there.
-/
namespace TinyCoroutine.Foundation.Structured

inductive Stmt (σ V X Ev Re P : Type) where
  | skip
  | effect (e : σ → Ev) (f : σ → Re → σ)
  | ret (v : σ → Option V)
  | throw (x : σ → X)
  /-- Call `p` and go on with its value. -/
  | await (p : σ → P) (f : σ → Option V → σ)
  | suspend
  | seq (s t : Stmt σ V X Ev Re P)
  | ite (b : σ → Bool) (s t : Stmt σ V X Ev Re P)
  | loop (b : σ → Bool) (s : Stmt σ V X Ev Re P)
  /-- `h` says whether it handles an exception, and binds it. -/
  | tryCatch (s : Stmt σ V X Ev Re P) (h : σ → X → Option σ) (t : Stmt σ V X Ev Re P)

/-- The procedures with their arguments, and the answers to effects. -/
structure Program (σ V X Ev Re P : Type) where
  body : P → Stmt σ V X Ev Re P
  locals : P → σ
  respond : List Ev → Ev → Re

variable {σ V X Ev Re P : Type}

/-! ### Direct evaluation -/

inductive Outcome (V X : Type) where
  | normal
  | returned (v : Option V)
  | threw (x : X)
  deriving DecidableEq, Repr

/-- What a call gives when its body ends this way. -/
def Outcome.result : Outcome V X → Except X (Option V)
  | .normal => .ok none
  | .returned v => .ok v
  | .threw x => .error x

inductive Result (σ V X Ev : Type) where
  | timeout (trace : List Ev)
  | done (o : Outcome V X) (l : σ) (trace : List Ev)

def Result.trace : Result σ V X Ev → List Ev
  | .timeout trace => trace
  | .done _ _ trace => trace

/-- Go on after a statement that has ended normally. -/
def Result.andThen (f : σ → List Ev → Result σ V X Ev) : Result σ V X Ev → Result σ V X Ev
  | .done .normal l trace => f l trace
  | r => r

/-- Go on after a statement that has thrown what `h` handles. -/
def Result.orCatch (h : σ → X → Option σ) (f : σ → List Ev → Result σ V X Ev) :
    Result σ V X Ev → Result σ V X Ev
  | .done (.threw x) l trace =>
    match h l x with
    | some l => f l trace
    | none => .done (.threw x) l trace
  | r => r

/-- The result of a call in the activation that has made it. -/
def Result.toCaller (f : σ → Option V → σ) (l : σ) : Result σ V X Ev → Result σ V X Ev
  | .timeout trace => .timeout trace
  | .done o _ trace =>
    match o.result with
    | .ok v => .done .normal (f l v) trace
    | .error x => .done (.threw x) l trace

def eval (prog : Program σ V X Ev Re P) :
    Nat → Stmt σ V X Ev Re P → σ → List Ev → Result σ V X Ev
  | 0, _, _, trace => .timeout trace
  | _ + 1, .skip, l, trace => .done .normal l trace
  | _ + 1, .effect e f, l, trace =>
    .done .normal (f l (prog.respond trace (e l))) (trace ++ [e l])
  | _ + 1, .ret v, l, trace => .done (.returned (v l)) l trace
  | _ + 1, .throw x, l, trace => .done (.threw (x l)) l trace
  | n + 1, .await p f, l, trace =>
    (eval prog n (prog.body (p l)) (prog.locals (p l)) trace).toCaller f l
  | _ + 1, .suspend, l, trace => .done .normal l trace
  | n + 1, .seq s t, l, trace => (eval prog n s l trace).andThen (eval prog n t)
  | n + 1, .ite b s t, l, trace => eval prog n (if b l then s else t) l trace
  | n + 1, .loop b s, l, trace =>
    if b l then (eval prog n s l trace).andThen (eval prog n (.loop b s))
    else .done .normal l trace
  | n + 1, .tryCatch s h t, l, trace => (eval prog n s l trace).orCatch h (eval prog n t)

/-- A call from outside, before any effect. -/
def call (prog : Program σ V X Ev Re P) (n : Nat) (p : P) : Result σ V X Ev :=
  eval prog n (prog.body p) (prog.locals p) []

/-! ### The machine -/

/-- What is left to do in an activation. -/
inductive Todo (σ V X Ev Re P : Type) where
  | stmt (s : Stmt σ V X Ev Re P)
  /-- the end of a `try` block -/
  | handler (h : σ → X → Option σ) (t : Stmt σ V X Ev Re P)

/-- An activation that waits for the value of a call. -/
structure Caller (σ V X Ev Re P : Type) where
  bind : σ → Option V → σ
  rest : List (Todo σ V X Ev Re P)
  locals : σ

inductive Config (σ V X Ev Re P : Type) where
  | run (k : List (Todo σ V X Ev Re P)) (l : σ) (cs : List (Caller σ V X Ev Re P))
      (trace : List Ev)
  | paused (k : List (Todo σ V X Ev Re P)) (l : σ) (cs : List (Caller σ V X Ev Re P))
      (trace : List Ev)
  | raise (x : X) (k : List (Todo σ V X Ev Re P)) (l : σ) (cs : List (Caller σ V X Ev Re P))
      (trace : List Ev)
  /-- The activation has ended. -/
  | finished (r : Except X (Option V)) (cs : List (Caller σ V X Ev Re P)) (trace : List Ev)

def Config.trace : Config σ V X Ev Re P → List Ev
  | .run _ _ _ trace => trace
  | .paused _ _ _ trace => trace
  | .raise _ _ _ _ trace => trace
  | .finished _ _ trace => trace

variable (prog : Program σ V X Ev Re P)

def begin (k : List (Todo σ V X Ev Re P)) (l : σ) (cs : List (Caller σ V X Ev Re P))
    (trace : List Ev) : Stmt σ V X Ev Re P → Config σ V X Ev Re P
  | .skip => .run k l cs trace
  | .effect e f => .run k (f l (prog.respond trace (e l))) cs (trace ++ [e l])
  | .ret v => .finished (.ok (v l)) cs trace
  | .throw x => .raise (x l) k l cs trace
  | .await p f =>
    .run [.stmt (prog.body (p l))] (prog.locals (p l)) (⟨f, k, l⟩ :: cs) trace
  | .suspend => .paused k l cs trace
  | .seq s t => .run (.stmt s :: .stmt t :: k) l cs trace
  | .ite b s t => .run (.stmt (if b l then s else t) :: k) l cs trace
  | .loop b s =>
    if b l then .run (.stmt s :: .stmt (.loop b s) :: k) l cs trace else .run k l cs trace
  | .tryCatch s h t => .run (.stmt s :: .handler h t :: k) l cs trace

def advance : Config σ V X Ev Re P → Option (Config σ V X Ev Re P)
  | .run [] _ cs trace => some (.finished (.ok none) cs trace)
  | .run (.stmt s :: k) l cs trace => some (begin prog k l cs trace s)
  | .run (.handler _ _ :: k) l cs trace => some (.run k l cs trace)
  | .paused k l cs trace => some (.run k l cs trace)
  | .raise x [] _ cs trace => some (.finished (.error x) cs trace)
  | .raise x (.stmt _ :: k) l cs trace => some (.raise x k l cs trace)
  | .raise x (.handler h t :: k) l cs trace =>
    match h l x with
    | some l => some (.run (.stmt t :: k) l cs trace)
    | none => some (.raise x k l cs trace)
  | .finished _ [] _ => none
  | .finished (.ok v) (c :: cs) trace => some (.run c.rest (c.bind c.locals v) cs trace)
  | .finished (.error x) (c :: cs) trace => some (.raise x c.rest c.locals cs trace)

/-- A call that has not begun yet. -/
def start (p : P) : Config σ V X Ev Re P := .paused [.stmt (prog.body p)] (prog.locals p) [] []

/-! ### The machine evaluates -/

variable {prog} {c c' : Config σ V X Ev Re P} {n : Nat} {l : σ} {trace : List Ev}
  {k : List (Todo σ V X Ev Re P)} {cs : List (Caller σ V X Ev Re P)}

/-- Where the machine goes on when a statement in front of `k` has ended. -/
def Outcome.config (k : List (Todo σ V X Ev Re P)) (l : σ) (cs : List (Caller σ V X Ev Re P))
    (trace : List Ev) : Outcome V X → Config σ V X Ev Re P
  | .normal => .run k l cs trace
  | .returned v => .finished (.ok v) cs trace
  | .threw x => .raise x k l cs trace

/-- The machine, started at `c`, does what the evaluation of a statement with fuel `n` has
done. It takes at least `n` steps when the fuel has run out. -/
def Reached (prog : Program σ V X Ev Re P) (c : Config σ V X Ev Re P) (n : Nat)
    (k : List (Todo σ V X Ev Re P)) (cs : List (Caller σ V X Ev Re P)) :
    Result σ V X Ev → Prop
  | .timeout trace => ∃ m c', n ≤ m ∧ after (advance prog) m c = some c' ∧ c'.trace = trace
  | .done o l trace => ∃ m, after (advance prog) m c = some (o.config k l cs trace)

theorem Reached.head {r : Result σ V X Ev} (h : advance prog c = some c')
    (hr : Reached prog c' n k cs r) : Reached prog c (n + 1) k cs r := by
  cases r with
  | timeout trace =>
    obtain ⟨m, d, hle, hd, htrace⟩ := hr
    exact ⟨m + 1, d, by omega, after_head h hd, htrace⟩
  | done o l trace =>
    obtain ⟨m, hd⟩ := hr
    exact ⟨m + 1, after_head h hd⟩

theorem Reached.trans {r : Result σ V X Ev} {m : Nat}
    (h : after (advance prog) m c = some c') (hr : Reached prog c' n k cs r) :
    Reached prog c n k cs r := by
  cases r with
  | timeout trace =>
    obtain ⟨j, d, hle, hd, htrace⟩ := hr
    exact ⟨m + j, d, by omega, after_trans h hd, htrace⟩
  | done o l trace =>
    obtain ⟨j, hd⟩ := hr
    exact ⟨m + j, after_trans h hd⟩

/-- One more step after the end of a statement. -/
theorem Reached.done {o o' : Outcome V X} {l' : σ} {trace' : List Ev}
    {k' : List (Todo σ V X Ev Re P)} {cs' : List (Caller σ V X Ev Re P)}
    (h : Reached prog c n k cs (.done o l trace))
    (hstep : advance prog (o.config k l cs trace) = some (o'.config k' l' cs' trace')) :
    Reached prog c n k' cs' (.done o' l' trace') := by
  obtain ⟨m, hm⟩ := h
  exact ⟨m + 1, after_trans hm (after_one hstep)⟩

section

variable {r : Result σ V X Ev} {t : Stmt σ V X Ev Re P}

/-- A statement that is followed by another one. -/
theorem Reached.andThen {f : σ → List Ev → Result σ V X Ev}
    (hs : Reached prog c n (.stmt t :: k) cs r)
    (ht : ∀ l trace, Reached prog (.run (.stmt t :: k) l cs trace) n k cs (f l trace)) :
    Reached prog c n k cs (r.andThen f) := by
  cases r with
  | timeout trace => exact hs
  | done o l trace =>
    cases o with
    | normal =>
      obtain ⟨m, hm⟩ := hs
      exact .trans hm (ht l trace)
    | returned v => exact hs
    | threw x => exact hs.done rfl

theorem Reached.orCatch {f : σ → List Ev → Result σ V X Ev} {h : σ → X → Option σ}
    (hs : Reached prog c n (.handler h t :: k) cs r)
    (ht : ∀ l trace, Reached prog (.run (.stmt t :: k) l cs trace) n k cs (f l trace)) :
    Reached prog c n k cs (r.orCatch h f) := by
  cases r with
  | timeout trace => exact hs
  | done o l trace =>
    cases o with
    | normal => exact hs.done rfl
    | returned v => exact hs
    | threw x =>
      simp only [Result.orCatch]
      cases hx : h l x with
      | none => exact hs.done (by simp [Outcome.config, advance, hx])
      | some l' =>
        obtain ⟨m, hm⟩ := hs
        refine .trans (after_trans hm (after_one ?_)) (ht l' trace)
        simp [Outcome.config, advance, hx]

/-- The end of an activation. -/
theorem Reached.finished {o : Outcome V X} (h : Reached prog c n [] cs (.done o l trace)) :
    ∃ m, after (advance prog) m c = some (.finished o.result cs trace) := by
  obtain ⟨m, hm⟩ := h
  cases o with
  | normal => exact ⟨m + 1, after_trans hm (after_one rfl)⟩
  | returned v => exact ⟨m, hm⟩
  | threw x => exact ⟨m + 1, after_trans hm (after_one rfl)⟩

theorem Reached.toCaller {f : σ → Option V → σ} (h : Reached prog c n [] (⟨f, k, l⟩ :: cs) r) :
    Reached prog c n k cs (r.toCaller f l) := by
  cases r with
  | timeout trace => exact h
  | done o l' trace =>
    obtain ⟨m, hm⟩ := h.finished
    simp only [Result.toCaller]
    cases hres : o.result with
    | ok v =>
      rw [hres] at hm
      exact ⟨m + 1, after_trans hm (after_one rfl)⟩
    | error x =>
      rw [hres] at hm
      exact ⟨m + 1, after_trans hm (after_one rfl)⟩

end

theorem eval_reached (n : Nat) (s : Stmt σ V X Ev Re P) (l : σ) (trace : List Ev)
    (k : List (Todo σ V X Ev Re P)) (cs : List (Caller σ V X Ev Re P)) :
    Reached prog (.run (.stmt s :: k) l cs trace) n k cs (eval prog n s l trace) := by
  -- the items below the statement and the callers stay as they are, so both are arbitrary
  induction n generalizing s l trace k cs with
  | zero => exact ⟨0, _, Nat.le_refl _, rfl, rfl⟩
  | succ n ih =>
    cases s with
    | skip | effect | ret | throw => exact ⟨1, rfl⟩
    | suspend => exact ⟨2, rfl⟩
    | ite b s t => exact .head rfl (ih _ l trace k cs)
    | seq s t => exact .head rfl ((ih s l trace _ cs).andThen fun l trace => ih t l trace k cs)
    | loop b s =>
      simp only [eval]
      cases hb : b l with
      | false =>
        refine ⟨1, after_one ?_⟩
        simp [advance, begin, hb, Outcome.config]
      | true =>
        have hstep : advance prog (.run (.stmt (.loop b s) :: k) l cs trace) =
            some (.run (.stmt s :: .stmt (.loop b s) :: k) l cs trace) := by
          simp [advance, begin, hb]
        exact .head hstep ((ih s l trace _ cs).andThen fun l trace => ih _ l trace k cs)
    | tryCatch s h t =>
      exact .head rfl ((ih s l trace _ cs).orCatch fun l trace => ih t l trace k cs)
    | await p f => exact .head rfl (ih _ _ trace [] (⟨f, k, l⟩ :: cs)).toCaller

/-! ### Calls from outside -/

theorem call_reached (prog : Program σ V X Ev Re P) (n : Nat) (p : P) :
    Reached prog (start prog p) n [] [] (call prog n p) := by
  refine .trans (after_one rfl) ?_
  exact eval_reached n (prog.body p) (prog.locals p) [] [] []

/-- When direct evaluation ends, the machine stops with its result. -/
theorem call_finished {n : Nat} {p : P} {o : Outcome V X} (h : call prog n p = .done o l trace) :
    ∃ m, after (advance prog) m (start prog p) = some (.finished o.result [] trace) := by
  have hr := call_reached prog n p
  rw [h] at hr
  exact hr.finished

theorem advance_prefix (h : advance prog c = some c') : c.trace <+: c'.trace := by
  unfold advance at h
  split at h
  case h_2 s k l cs trace =>
    cases h
    unfold begin
    split <;> first | exact List.prefix_refl _ | exact List.prefix_append _ _ | skip
    split <;> exact List.prefix_refl _
  case h_7 =>
    split at h <;> cases h <;> exact List.prefix_refl _
  case h_8 => cases h
  all_goals
    cases h
    exact List.prefix_refl _

/-- The effects of direct evaluation, however far it gets, are effects of the machine. -/
theorem call_effects (prog : Program σ V X Ev Re P) (n : Nat) (p : P) : ∃ m c,
    after (advance prog) m (start prog p) = some c ∧ (call prog n p).trace <+: c.trace := by
  have hr := call_reached prog n p
  cases hc : call prog n p with
  | timeout trace =>
    rw [hc] at hr
    obtain ⟨m, c, -, hm, htrace⟩ := hr
    exact ⟨m, c, hm, htrace ▸ List.prefix_refl _⟩
  | done o l trace =>
    obtain ⟨m, hm⟩ := call_finished hc
    exact ⟨m, _, hm, List.prefix_refl _⟩

/-- The effects of the machine, however far it gets, are effects of direct evaluation. -/
theorem machine_effects {m : Nat} {p : P} (h : after (advance prog) m (start prog p) = some c) :
    ∃ n, c.trace <+: (call prog n p).trace := by
  refine ⟨m, ?_⟩
  have hr := call_reached prog m p
  cases hc : call prog m p with
  | timeout trace =>
    rw [hc] at hr
    obtain ⟨m', c', hle, hm', rfl⟩ := hr
    exact prefix_of_le (fun _ _ => advance_prefix) h hm' hle
  | done o l trace =>
    obtain ⟨m', hm'⟩ := call_finished hc
    exact prefix_of_le (fun _ _ => advance_prefix) h hm' (le_of_stopped h hm' rfl)

end TinyCoroutine.Foundation.Structured
