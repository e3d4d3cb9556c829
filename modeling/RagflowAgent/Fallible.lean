import Mathlib.Data.Nat.Notation

/-!
# Computations that may fail

Inversion lemmas for `Except`: what a computation in steps, and a loop over a list, tell about
their parts when they return.
-/

namespace RagflowAgent

variable {ε α β : Type}

/-- A computation in steps returns when each step does. -/
theorem bind_eq_ok {x : Except ε α} {f : α → Except ε β} {b : β} :
    (x >>= f) = .ok b ↔ ∃ a, x = .ok a ∧ f a = .ok b := by
  cases x with
  | error e => exact ⟨nofun, nofun⟩
  | ok a => exact ⟨fun h => ⟨a, rfl, h⟩, fun ⟨_, ha, h⟩ => by cases ha; exact h⟩

/-- A computation that begins with a check returns when the check passes. -/
theorem check_eq_ok {c : Prop} [Decidable c] {e : ε} {rest : Unit → Except ε β} {b : β} :
    (if c then throw e >>= rest else rest ()) = .ok b ↔ ¬ c ∧ rest () = .ok b := by
  split
  · exact ⟨nofun, fun h => absurd ‹c› h.1⟩
  · exact ⟨fun h => ⟨‹¬ c›, h⟩, fun h => h.2⟩

/-- A computation without an error returns something. -/
theorem exists_eq_ok_of_isOk {x : Except ε α} (h : x.isOk = true) : ∃ a, x = .ok a := by
  cases x with
  | error e => cases h
  | ok a => exact ⟨a, rfl⟩

theorem map_eq_ok {x : Except ε α} {f : α → β} {b : β} :
    x.map f = .ok b ↔ ∃ a, x = .ok a ∧ f a = b := by
  cases x with
  | error e => exact ⟨nofun, nofun⟩
  | ok a => exact ⟨fun h => ⟨a, rfl, by cases h; rfl⟩, fun ⟨_, ha, h⟩ => by cases ha; cases h; rfl⟩

/-- What a loop returns was returned for some element of the list. -/
theorem mem_of_mapM_eq_ok {f : α → Except ε β} {l : List α} {r : List β} (h : l.mapM f = .ok r) :
    ∀ b ∈ r, ∃ a ∈ l, f a = .ok b := by
  induction l generalizing r with
  | nil =>
    cases h
    intro b hb
    exact absurd hb List.not_mem_nil
  | cons a l ih =>
    rw [List.mapM_cons] at h
    obtain ⟨b, hb, h⟩ := bind_eq_ok.1 h
    obtain ⟨bs, hbs, h⟩ := bind_eq_ok.1 h
    cases h
    intro b' hb'
    rcases List.mem_cons.1 hb' with rfl | hb'
    · exact ⟨a, List.mem_cons_self, hb⟩
    · obtain ⟨a', ha', h⟩ := ih hbs b' hb'
      exact ⟨a', List.mem_cons_of_mem a ha', h⟩

/-- A loop that returns has returned something for every element. -/
theorem exists_of_mapM_eq_ok {f : α → Except ε β} {l : List α} {r : List β}
    (h : l.mapM f = .ok r) : ∀ a ∈ l, ∃ b ∈ r, f a = .ok b := by
  induction l generalizing r with
  | nil => exact fun a ha => absurd ha List.not_mem_nil
  | cons a l ih =>
    rw [List.mapM_cons] at h
    obtain ⟨b, hb, h⟩ := bind_eq_ok.1 h
    obtain ⟨bs, hbs, h⟩ := bind_eq_ok.1 h
    cases h
    intro a' ha'
    rcases List.mem_cons.1 ha' with rfl | ha'
    · exact ⟨b, List.mem_cons_self, hb⟩
    · obtain ⟨b', hb', h⟩ := ih hbs a' ha'
      exact ⟨b', List.mem_cons_of_mem b hb', h⟩

/-- What is known of each element that a loop returns. -/
theorem map_of_mapM_eq_ok {γ : Type} {f : α → Except ε β} {g : β → γ} {k : α → γ} {l : List α}
    {r : List β} (hg : ∀ a ∈ l, ∀ b, f a = .ok b → g b = k a) (h : l.mapM f = .ok r) :
    r.map g = l.map k := by
  induction l generalizing r with
  | nil =>
    cases h
    rfl
  | cons a l ih =>
    rw [List.mapM_cons] at h
    obtain ⟨b, hb, h⟩ := bind_eq_ok.1 h
    obtain ⟨bs, hbs, h⟩ := bind_eq_ok.1 h
    cases h
    rw [List.map_cons, List.map_cons, hg a List.mem_cons_self b hb,
      ih (fun a' ha' => hg a' (List.mem_cons_of_mem a ha')) hbs]

/-- A loop returns when it returns something for every element. -/
theorem exists_mapM_eq_ok {f : α → Except ε β} {l : List α} (h : ∀ a ∈ l, ∃ b, f a = .ok b) :
    ∃ r, l.mapM f = .ok r := by
  induction l with
  | nil => exact ⟨[], rfl⟩
  | cons a l ih =>
    obtain ⟨b, hb⟩ := h a List.mem_cons_self
    obtain ⟨r, hr⟩ := ih fun a ha => h a (List.mem_cons_of_mem _ ha)
    exact ⟨b :: r, by rw [List.mapM_cons, hb, hr]; rfl⟩

/-- A loop that keeps every element keeps the list. -/
theorem mapM_eq_self {f : α → Except ε α} {l : List α} (h : ∀ a ∈ l, f a = .ok a) :
    l.mapM f = .ok l := by
  induction l with
  | nil => rfl
  | cons a l ih =>
    rw [List.mapM_cons, h a List.mem_cons_self, ih fun b hb => h b (List.mem_cons_of_mem _ hb)]
    rfl

theorem eq_of_mapM_eq_ok {f : α → Except ε α} {l r : List α}
    (hself : ∀ a ∈ l, ∀ b, f a = .ok b → b = a) (h : l.mapM f = .ok r) : r = l := by
  have hkeeps : ∀ a ∈ l, f a = .ok a := by
    intro a ha
    obtain ⟨b, -, hb⟩ := exists_of_mapM_eq_ok h a ha
    rw [hself a ha b hb] at hb
    exact hb
  rw [mapM_eq_self hkeeps] at h
  exact (Except.ok.inj h).symm

/-- A loop that ends has accepted every element of the list. -/
theorem forall_of_forM_eq_ok {f : α → Except ε Unit} {l : List α} (h : l.forM f = .ok ()) :
    ∀ a ∈ l, f a = .ok () := by
  induction l with
  | nil => exact fun a ha => absurd ha List.not_mem_nil
  | cons a l ih =>
    obtain ⟨⟨⟩, ha, hl⟩ := bind_eq_ok.1 h
    intro b hb
    rcases List.mem_cons.1 hb with rfl | hb
    · exact ha
    · exact ih hl b hb

end RagflowAgent
