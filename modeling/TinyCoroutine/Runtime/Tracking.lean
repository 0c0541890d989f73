import TinyCoroutine.Runtime.Ledger

/-!
# Tasks that have not been resumed yet

Two properties of every run of the ledger, whatever its workers do: an accepted task
that was never resumed is still on its way into a task queue or in one, and a coroutine
that was created is accepted, destroyed, or still being submitted.
-/
namespace TinyCoroutine.Runtime

variable {g : Handle}

namespace Ledger

variable {C : Ledger → Delicate → Prop} {L L' : Ledger} {out new M : Multiset Mark}

/-- A coroutine on its way into a task queue, or in one. -/
def Fresh (L : Ledger) (h : Handle) : Prop :=
  ∃ c, ⟨.waiting (.pushing c), h⟩ ∈ L.marks ∨ ⟨.waiting (.task c), h⟩ ∈ L.marks

/-- An accepted task that was never resumed is still on its way. -/
def Tracked (L : Ledger) : Prop :=
  ∀ h ∈ L.accepted, (L.frames h).resumedBy = none → L.Fresh h

/-- The ledger has seen the coroutine. -/
def Seen (L : Ledger) (h : Handle) : Prop :=
  (L.frames h).status ≠ .none ∨ ∃ m ∈ L.marks, m.handle = h

/-- A coroutine that was created is accepted, destroyed, or still being submitted. -/
def Known (L : Ledger) : Prop :=
  ∀ h, L.Seen h → h ∈ L.accepted ∨ h ∈ L.destroyed ∨ ⟨.submitting, h⟩ ∈ L.marks

theorem Fresh.of_exchange (hf : L.Fresh g) (hex : L.Exchange out new L'.marks)
    (hout : ∀ c, ⟨.waiting (.pushing c), g⟩ ∉ out ∧ ⟨.waiting (.task c), g⟩ ∉ out) :
    L'.Fresh g := by
  obtain ⟨c, hm | hm⟩ := hf
  · exact ⟨c, .inl (hex.mem_kept hm (hout c).1)⟩
  · exact ⟨c, .inr (hex.mem_kept hm (hout c).2)⟩

theorem Tracked.of_exchange (ht : L.Tracked) (hex : L.Exchange out new L'.marks)
    (ha : L'.accepted = L.accepted)
    (hframes : ∀ g, (L'.frames g).resumedBy = none → (L.frames g).resumedBy = none)
    (hout : ∀ g, (L'.frames g).resumedBy = none → ∀ c,
      ⟨.waiting (.pushing c), g⟩ ∉ out ∧ ⟨.waiting (.task c), g⟩ ∉ out) : L'.Tracked := by
  intro g hg hnone
  exact (ht g (ha ▸ hg) (hframes g hnone)).of_exchange hex (hout g hnone)

theorem Tracked.step (ht : L.Tracked) (h : Step C L L') : L'.Tracked := by
  cases h with
  | idle => exact ht
  | create _ _ hex | reject hex | suspend _ _ hex | finish hex | destroy hex =>
    exact ht.of_exchange hex rfl (fun g => by simp [resumedBy_setStatus]) (by simp)
  | @accept h c M hex =>
    intro g hg hnone
    rcases List.mem_append.mp hg with hg | hg
    · exact (ht g hg hnone).of_exchange hex (by simp)
    · obtain rfl := List.mem_singleton.mp hg
      exact ⟨c, .inl (hex.mem_of_new (by simp) (by simp))⟩
  | @spawn h c M _ _ hex =>
    intro g hg hnone
    rcases List.mem_append.mp hg with hg | hg
    · exact (ht g hg (by simpa [resumedBy_setStatus] using hnone)).of_exchange hex (by simp)
    · obtain rfl := List.mem_singleton.mp hg
      exact ⟨c, .inl (hex.mem_of_new (by simp) (by simp))⟩
  | @move p q M hs hmove hex =>
    intro g hg hnone
    obtain ⟨c, hm | hm⟩ := ht g hg hnone
    · by_cases hout : (⟨.waiting (.pushing c), g⟩ : Mark) ∈ hs.map (Mark.mk (.waiting p))
      · obtain ⟨h, hh, heq⟩ := Multiset.mem_map.mp hout
        obtain ⟨rfl, rfl⟩ : p = .pushing c ∧ h = g := by simpa using heq
        cases hmove
        refine ⟨c, .inr (hex.mem_of_new (Multiset.mem_map_of_mem _ hh) ?_)⟩
        simp
      · exact ⟨c, .inl (hex.mem_kept hm hout)⟩
    · refine ⟨c, .inr (hex.mem_kept hm ?_)⟩
      cases hmove <;> simp
  | @resume c h M _ _ hex =>
    have hne : ∀ g, (Function.update L.frames h ⟨.running, some c⟩ g).resumedBy = none → g ≠ h := by
      rintro g hnone rfl
      simp at hnone
    refine ht.of_exchange hex rfl (fun g hnone => ?_) fun g hnone d => ?_
    · simpa only [Function.update_of_ne (hne g hnone)] using hnone
    · simp [hne g hnone]
  | notDone _ hex | done _ hex => exact ht.of_exchange hex rfl (fun _ => id) (by simp)
  | complete hex => exact ht.of_exchange hex rfl (fun _ => id) (by simp)

theorem Known.of_exchange (hk : L.Known) (hex : L.Exchange out new L'.marks)
    (ha : L.accepted ⊆ L'.accepted) (hd : L.destroyed ⊆ L'.destroyed)
    (hout : ∀ g, ⟨.submitting, g⟩ ∈ out → g ∈ L'.accepted ∨ g ∈ L'.destroyed)
    (hseen : ∀ g, L'.Seen g → L.Seen g ∨ g ∈ L'.accepted ∨ ⟨.submitting, g⟩ ∈ L'.marks) :
    L'.Known := by
  intro g hg
  rcases hseen g hg with hg | hg | hg
  · rcases hk g hg with h | h | h
    · exact .inl (ha h)
    · exact .inr (.inl (hd h))
    · by_cases ho : (⟨.submitting, g⟩ : Mark) ∈ out
      · rcases hout g ho with h | h
        · exact .inl h
        · exact .inr (.inl h)
      · exact .inr (.inr (hex.mem_kept h ho))
  · exact .inl hg
  · exact .inr (.inr hg)

/-- A step on `h` shows no other coroutine. -/
theorem Seen.of_ne {h : Handle} (hex : L.Exchange out new L'.marks)
    (hnew : ∀ m ∈ new, m.handle = h) (hframes : ∀ g ≠ h, L'.frames g = L.frames g)
    (hgh : g ≠ h) (hg : L'.Seen g) : L.Seen g := by
  rcases hg with hg | ⟨m, hm, rfl⟩
  · exact .inl (hframes g hgh ▸ hg)
  · rcases hex.mem_new hm with hm | hm
    · exact .inr ⟨m, hm, rfl⟩
    · exact absurd (hnew m hm) hgh

/-- A step on a coroutine that has a mark already. -/
theorem Known.replace {h : Handle} {st : Stage} (hk : L.Known)
    (hex : L.Exchange {⟨st, h⟩} new L'.marks) (hn : ⟨st, h⟩ ∉ new)
    (hnew : ∀ m ∈ new, m.handle = h) (hframes : ∀ g ≠ h, L'.frames g = L.frames g)
    (ha : L.accepted ⊆ L'.accepted) (hd : L.destroyed ⊆ L'.destroyed)
    (hout : st = .submitting → h ∈ L'.accepted ∨ h ∈ L'.destroyed) : L'.Known := by
  refine hk.of_exchange hex ha hd (fun g hg => ?_) fun g hg => .inl ?_
  · obtain ⟨rfl, rfl⟩ : Stage.submitting = st ∧ g = h := by simpa using hg
    exact hout rfl
  · by_cases hgh : g = h
    · exact .inr ⟨⟨st, h⟩, hex.mem_out (by simp) hn, hgh.symm⟩
    · exact hg.of_ne hex hnew hframes hgh

theorem Known.step (hk : L.Known) (h : Step C L L') : L'.Known := by
  cases h with
  | idle => exact hk
  | @create h M _ _ hex =>
    refine Known.of_exchange hk hex (fun _ => id) (fun _ => id) (by simp) fun g hg => ?_
    by_cases hgh : g = h
    · exact .inr (.inr (hex.mem_of_new (by simp [hgh]) (by simp)))
    · exact .inl (hg.of_ne hex (by simp) (fun g hg => setStatus_of_ne _ hg) hgh)
  | @spawn h c M _ _ hex =>
    refine Known.of_exchange hk hex (by simp) (fun _ => id) (by simp) fun g hg => ?_
    by_cases hgh : g = h
    · exact .inr (.inl (by simp [hgh]))
    · exact .inl (hg.of_ne hex (by simp) (fun g hg => setStatus_of_ne _ hg) hgh)
  | reject hex =>
    exact hk.replace hex (by simp) (by simp) (fun g hg => setStatus_of_ne _ hg) (fun _ => id)
      (by simp) (by simp)
  | accept hex =>
    exact hk.replace hex (by simp) (by simp) (fun _ _ => rfl) (by simp) (fun _ => id) (by simp)
  | @move p q M hs hmove hex =>
    refine Known.of_exchange hk hex (fun _ => id) (fun _ => id) (by simp) fun g hg => .inl ?_
    rcases hg with hg | ⟨m, hm, rfl⟩
    · exact .inl hg
    · rcases hex.mem_new hm with hm | hm
      · exact .inr ⟨m, hm, rfl⟩
      · obtain ⟨h, hh, rfl⟩ := Multiset.mem_map.mp hm
        refine .inr ⟨⟨.waiting p, h⟩, hex.mem_out (Multiset.mem_map_of_mem _ hh) ?_, rfl⟩
        cases hmove <;> simp
  | resume _ _ hex =>
    exact hk.replace hex (by simp) (by simp) (fun g hg => Function.update_of_ne hg ..)
      (fun _ => id) (fun _ => id) (by simp)
  | suspend _ _ hex | finish hex =>
    exact hk.replace hex (by simp) (by simp) (fun g hg => setStatus_of_ne _ hg) (fun _ => id)
      (fun _ => id) (by simp)
  | destroy hex =>
    exact hk.replace hex (by simp) (by simp) (fun g hg => setStatus_of_ne _ hg) (fun _ => id)
      (by simp) (by simp)
  | notDone _ hex | done _ hex | complete hex =>
    exact hk.replace hex (by simp) (by simp) (fun _ _ => rfl) (fun _ => id) (fun _ => id) (by simp)

end Ledger

end TinyCoroutine.Runtime
