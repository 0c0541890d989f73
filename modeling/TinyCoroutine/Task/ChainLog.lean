import TinyCoroutine.Task.Chain

/-!
# Calls and returns are nested

In the log of a chain a coroutine awaits only a task it has just created, the innermost
coroutine is the one that finishes, and the coroutine below it is resumed then. `Nested` is what
this says about every await: it is answered at most once, by the coroutine that awaits and
after the callee has finished, and it is open only as long as the callee is active.
-/
namespace TinyCoroutine.Task.Chain

/-- The coroutine `h` may be resumed after this log: it awaits `g`, which has finished, and has
not been resumed for it yet. -/
structure Answers (h g : Handle) (log : List Link) : Prop where
  awaited : .await h g ∈ log
  finished : .finish g ∈ log
  once : .resume h g ∉ log

/-- The log of a chain: `n` frames have been created, `hs` are the active ones, innermost
first, and `last` has finished while the coroutine that awaits it is not resumed yet. -/
structure Nested (n : Nat) (log : List Link) (hs : List Handle) (last : Option Handle) : Prop where
  nodup : (last.toList ++ hs).Nodup
  active : ∀ g ∈ hs, .finish g ∉ log
  waiting : ∀ g ∈ last.toList ++ hs, g < n ∧ ∀ h, .resume h g ∉ log
  ended : ∀ g ∈ last, .finish g ∈ log
  chain : (last.toList ++ hs).IsChain fun g h => .await h g ∈ log
  /-- The root is not awaited. -/
  awaits : ∀ h g, .await h g ∈ log → g ≠ Machine.root ∧ g < n
  finishes : ∀ g, .finish g ∈ log → g < n
  resumes : ∀ h g, .resume h g ∈ log → g < n
  caller : ∀ h h' g, .await h g ∈ log → .await h' g ∈ log → h = h'
  answered : ∀ h g, .await h g ∈ log → g ∈ last.toList ++ hs ∨ .resume h g ∈ log
  order : ∀ before h g after, log = before ++ .resume h g :: after → Answers h g before

namespace Nested

variable {n : Nat} {log : List Link} {hs : List Handle} {g h : Handle}

theorem start : Nested 1 [] [Machine.root] none where
  nodup := by simp
  active := by simp
  waiting := by simp [Machine.root]
  ended := by simp
  chain := by simp
  awaits := by simp
  finishes := by simp
  resumes := by simp
  caller := by simp
  answered := by simp
  order before h g after hlog := by simp at hlog

/-- A link that resumes nobody keeps the order of the log. -/
theorem order_append {e : Link}
    (horder : ∀ before h g after, log = before ++ .resume h g :: after → Answers h g before)
    (hlast : ∀ h g, e = .resume h g → Answers h g log) :
    ∀ before h g after, log ++ [e] = before ++ .resume h g :: after → Answers h g before := by
  intro before h g after hlog
  rcases List.eq_nil_or_concat after with rfl | ⟨rest, e', rfl⟩
  · obtain ⟨rfl, he⟩ := List.append_inj' hlog rfl
    exact hlast h g (List.singleton_inj.mp he)
  · rw [List.concat_eq_append, ← List.cons_append, ← List.append_assoc] at hlog
    obtain ⟨hold, -⟩ := List.append_inj' hlog rfl
    exact horder before h g rest hold

theorem await (N : Nested n log (h :: hs) none) (hn : 0 < n) :
    Nested (n + 1) (log ++ [.await h n]) (n :: h :: hs) none where
  nodup := by
    refine List.nodup_cons.mpr ⟨fun hmem => ?_, N.nodup⟩
    exact Nat.lt_irrefl n (N.waiting n hmem).1
  active g hg := by
    rcases List.mem_cons.mp hg with rfl | hg
    · simpa using fun hfin => Nat.lt_irrefl g (N.finishes g hfin)
    · simpa using N.active g hg
  waiting g hg := by
    rcases List.mem_cons.mp hg with rfl | hg
    · exact ⟨Nat.lt_succ_self g, fun p => by
        simpa using fun hres => Nat.lt_irrefl g (N.resumes p g hres)⟩
    · obtain ⟨hlt, hres⟩ := N.waiting g hg
      exact ⟨Nat.lt_succ_of_lt hlt, by simpa using hres⟩
  ended := by simp
  chain := by
    refine List.isChain_cons_cons.mpr ⟨by simp, ?_⟩
    exact N.chain.imp fun g h hgh => List.mem_append_left _ hgh
  awaits p g hg := by
    rcases List.mem_append.mp hg with hg | hg
    · obtain ⟨hroot, hlt⟩ := N.awaits p g hg
      exact ⟨hroot, Nat.lt_succ_of_lt hlt⟩
    · obtain ⟨-, rfl⟩ : p = h ∧ g = n := by simpa using hg
      exact ⟨Nat.ne_of_gt hn, Nat.lt_succ_self _⟩
  finishes g hg := Nat.lt_succ_of_lt (N.finishes g (by simpa using hg))
  resumes p g hg := Nat.lt_succ_of_lt (N.resumes p g (by simpa using hg))
  caller p p' g hg hg' := by
    have hnew : ∀ q, .await q n ∉ log := fun q hq => Nat.lt_irrefl n (N.awaits q n hq).2
    by_cases hgn : g = n
    · subst hgn
      obtain rfl : p = h := by simpa [hnew p] using hg
      obtain rfl : p' = p := by simpa [hnew p'] using hg'
      rfl
    · exact N.caller p p' g (by simpa [hgn] using hg) (by simpa [hgn] using hg')
  answered p g hg := by
    rcases List.mem_append.mp hg with hg | hg
    · rcases N.answered p g hg with hg | hg
      · exact .inl (List.mem_cons_of_mem _ hg)
      · exact .inr (List.mem_append_left _ hg)
    · obtain ⟨-, rfl⟩ : p = h ∧ g = n := by simpa using hg
      exact .inl (List.mem_cons_self ..)
  order := order_append N.order (by simp)

theorem finish (N : Nested n log (g :: hs) none) : Nested n (log ++ [.finish g]) hs (some g) where
  nodup := N.nodup
  active p hp := by
    have hne : p ≠ g := by
      rintro rfl
      exact (List.nodup_cons.mp N.nodup).1 hp
    simpa [hne] using N.active p (List.mem_cons_of_mem _ hp)
  waiting p hp := by simpa using N.waiting p hp
  ended p hp := by
    obtain rfl := Option.mem_some_iff.mp hp
    simp
  chain := N.chain.imp fun g h hgh => List.mem_append_left _ hgh
  awaits p q hq := N.awaits p q (by simpa using hq)
  finishes p hp := by
    rcases List.mem_append.mp hp with hp | hp
    · exact N.finishes p hp
    · obtain rfl : p = g := by simpa using hp
      exact (N.waiting p (List.mem_cons_self ..)).1
  resumes p q hq := N.resumes p q (by simpa using hq)
  caller p p' q hq hq' := N.caller p p' q (by simpa using hq) (by simpa using hq')
  answered p q hq := by
    rcases N.answered p q (by simpa using hq) with hq | hq
    · exact .inl hq
    · exact .inr (List.mem_append_left _ hq)
  order := order_append N.order (by simp)

theorem resume (N : Nested n log (h :: hs) (some g)) :
    Nested n (log ++ [.resume h g]) (h :: hs) none := by
  have hnot : g ∉ h :: hs := (List.nodup_cons.mp N.nodup).1
  have hawait : .await h g ∈ log := (List.isChain_cons_cons.mp N.chain).1
  have hwaiting := N.waiting g (List.mem_cons_self ..)
  have hne : ∀ p ∈ h :: hs, p ≠ g := by
    rintro p hp rfl
    exact hnot hp
  constructor
  case nodup => exact (List.nodup_cons.mp N.nodup).2
  case active => exact fun p hp => by simpa using N.active p hp
  case waiting =>
    intro p hp
    obtain ⟨hlt, hres⟩ := N.waiting p (List.mem_cons_of_mem _ hp)
    exact ⟨hlt, fun q => by simpa [hne p hp] using hres q⟩
  case ended => simp
  case chain =>
    exact (List.isChain_cons_cons.mp N.chain).2.imp fun g h hgh => List.mem_append_left _ hgh
  case awaits => exact fun p q hq => N.awaits p q (by simpa using hq)
  case finishes => exact fun p hp => N.finishes p (by simpa using hp)
  case resumes =>
    intro p q hq
    rcases List.mem_append.mp hq with hq | hq
    · exact N.resumes p q hq
    · obtain ⟨-, rfl⟩ : p = h ∧ q = g := by simpa using hq
      exact hwaiting.1
  case caller =>
    exact fun p p' q hq hq' => N.caller p p' q (by simpa using hq) (by simpa using hq')
  case answered =>
    intro p q hpq
    have hold : .await p q ∈ log := by simpa using hpq
    rcases N.answered p q hold with hmem | hmem
    · rcases List.mem_cons.mp hmem with rfl | hmem
      · obtain rfl := N.caller p h q hold hawait
        exact .inr (by simp)
      · exact .inl hmem
    · exact .inr (List.mem_append_left _ hmem)
  case order =>
    refine order_append N.order fun p q hpq => ?_
    obtain ⟨rfl, rfl⟩ : h = p ∧ g = q := by simpa using hpq
    exact ⟨hawait, N.ended g rfl, hwaiting.2 h⟩

end Nested

end TinyCoroutine.Task.Chain
