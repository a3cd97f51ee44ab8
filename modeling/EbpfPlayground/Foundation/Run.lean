import Mathlib.Data.List.Induction
import Mathlib.Logic.Relation

/-!
# Finite runs of a partial step function

A system is given by a partial step function: `step s a = some s'` when action `a` is enabled in
state `s` and leads to `s'`.  A run takes a list of actions in order.  Two induction rules are
packaged here: one for an invariant over the history and the state together, and one for an
invariant that only steps meeting a side condition keep.  A third one is for systems whose steps are
given by a relation.
-/

namespace EbpfPlayground.Run

variable {State Action : Type*}

/-- Take the listed actions in order; `none` as soon as one of them is not enabled. -/
def run (step : State → Action → Option State) : State → List Action → Option State
  | s, [] => some s
  | s, a :: history => (step s a).bind fun s' ↦ run step s' history

/-- Every action of the run meets `condition` in the state it is taken in. -/
def Meets (step : State → Action → Option State) (condition : State → Action → Prop) :
    State → List Action → Prop
  | _, [] => True
  | s, a :: history =>
    condition s a ∧ ∀ s', step s a = some s' → Meets step condition s' history

variable {step : State → Action → Option State} {condition : State → Action → Prop}

@[simp]
theorem run_nil (s : State) : run step s [] = some s := rfl

@[simp]
theorem run_cons (s : State) (a : Action) (history : List Action) :
    run step s (a :: history) = (step s a).bind fun s' ↦ run step s' history := rfl

theorem run_append (s : State) (first second : List Action) :
    run step s (first ++ second) = (run step s first).bind fun s' ↦ run step s' second := by
  induction first generalizing s with
  | nil => rfl
  | cons a first ih =>
    simp only [List.cons_append, run_cons, Option.bind_assoc]
    exact congrArg _ (funext fun s' ↦ ih s')

theorem run_concat (s : State) (history : List Action) (a : Action) :
    run step s (history ++ [a]) = (run step s history).bind fun s' ↦ step s' a := by
  simp [run_append]

theorem run_concat_eq_some {s s' : State} {history : List Action} {a : Action} :
    run step s (history ++ [a]) = some s' ↔
      ∃ t, run step s history = some t ∧ step t a = some s' := by
  rw [run_concat, Option.bind_eq_some_iff]

/-- What holds of the empty history and is kept by each action holds of every run. -/
theorem invariant {I : List Action → State → Prop} {init s : State} {history : List Action}
    (hinit : I [] init)
    (hstep : ∀ history s a s', I history s → step s a = some s' → I (history ++ [a]) s')
    (hrun : run step init history = some s) : I history s := by
  induction history using List.reverseRecOn generalizing s with
  | nil =>
    obtain rfl : init = s := by simpa using hrun
    exact hinit
  | append_singleton history a ih =>
    obtain ⟨t, ht, ha⟩ := run_concat_eq_some.mp hrun
    exact hstep history t a s (ih ht) ha

@[simp]
theorem meets_cons (s : State) (a : Action) (history : List Action) :
    Meets step condition s (a :: history) ↔
      condition s a ∧ ∀ s', step s a = some s' → Meets step condition s' history := Iff.rfl

theorem meets_append {s t : State} {first second : List Action}
    (hrun : run step s first = some t) (h : Meets step condition s (first ++ second)) :
    Meets step condition s first ∧ Meets step condition t second := by
  induction first generalizing s with
  | nil =>
    obtain rfl : s = t := by simpa using hrun
    exact ⟨trivial, h⟩
  | cons a first ih =>
    obtain ⟨u, hu, hrest⟩ := Option.bind_eq_some_iff.mp hrun
    obtain ⟨ha, hnext⟩ := h
    refine ⟨⟨ha, fun s' hs' ↦ ?_⟩, (ih hrest (hnext u hu)).2⟩
    obtain rfl : u = s' := Option.some.inj (hu.symm.trans hs')
    exact (ih hrest (hnext u hu)).1

theorem meets_concat {s : State} {history : List Action} {a : Action} :
    Meets step condition s (history ++ [a]) ↔
      Meets step condition s history ∧ ∀ t, run step s history = some t → condition t a := by
  constructor
  · intro h
    refine ⟨?_, fun t ht ↦ (meets_append ht h).2.1⟩
    induction history generalizing s with
    | nil => trivial
    | cons b history ih => exact ⟨h.1, fun s' hs' ↦ ih (h.2 s' hs')⟩
  · rintro ⟨hhistory, hlast⟩
    induction history generalizing s with
    | nil => exact ⟨hlast s rfl, fun _ _ ↦ trivial⟩
    | cons b history ih =>
      refine ⟨hhistory.1, fun s' hs' ↦ ih (hhistory.2 s' hs') fun t ht ↦ hlast t ?_⟩
      rw [run_cons, hs', Option.bind_some, ht]

/-- The condition is met in the state before each action that the run gets to. -/
theorem meets_iff_forall {s : State} {history : List Action} :
    Meets step condition s history ↔ ∀ before a after t, history = before ++ a :: after →
      run step s before = some t → condition t a := by
  constructor
  · rintro h before a after t rfl hrun
    exact (meets_append hrun h).2.1
  · intro h
    induction history using List.reverseRecOn with
    | nil => trivial
    | append_singleton history a ih =>
      refine meets_concat.mpr ⟨ih fun before b after t hsplit ↦ ?_, fun t ↦ h history a [] t rfl⟩
      exact h before b (after ++ [a]) t (by rw [hsplit]; simp)

/-- An invariant that only the actions meeting `condition` keep holds after every run of such
actions. -/
theorem invariant_of_meets {I : State → Prop} {init s : State} {history : List Action}
    (hinit : I init)
    (hstep : ∀ s a s', I s → condition s a → step s a = some s' → I s')
    (hmeets : Meets step condition init history)
    (hrun : run step init history = some s) : I s := by
  induction history generalizing init with
  | nil =>
    obtain rfl : init = s := by simpa using hrun
    exact hinit
  | cons a history ih =>
    obtain ⟨t, ht, hrest⟩ := Option.bind_eq_some_iff.mp hrun
    exact ih (hstep init a t hinit hmeets.1 ht) (hmeets.2 t ht) hrest

/-- Where each action keeps the invariant exactly when it meets the condition, the invariant holds all
along exactly in the runs whose actions all meet it. -/
theorem invariant_throughout_iff {I : State → Prop} {init : State} (hinit : I init)
    (hsome : ∀ s a, (step s a).isSome)
    (hstep : ∀ s a s', I s → step s a = some s' → (I s' ↔ condition s a)) (history : List Action) :
    (∀ first s, first <+: history → run step init first = some s → I s) ↔
      Meets step condition init history := by
  constructor
  · intro h
    induction history using List.reverseRecOn with
    | nil => trivial
    | append_singleton history a ih =>
      have hmeets := ih fun first s hpre ↦ h first s (hpre.trans (List.prefix_append _ _))
      refine meets_concat.mpr ⟨hmeets, fun t ht ↦ ?_⟩
      obtain ⟨s', hs'⟩ := Option.isSome_iff_exists.mp (hsome t a)
      have hrun : run step init (history ++ [a]) = some s' := run_concat_eq_some.mpr ⟨t, ht, hs'⟩
      have hbefore := h history t (List.prefix_append _ _) ht
      exact (hstep t a s' hbefore hs').mp (h _ s' (List.prefix_refl _) hrun)
  · rintro hmeets first s ⟨rest, rfl⟩ hrun
    refine invariant_of_meets hinit ?_ (meets_append hrun hmeets).1 hrun
    exact fun s a s' hs ha hs' ↦ (hstep s a s' hs hs').mpr ha

/-- What each action meets, every run of them meets. -/
theorem meets_of_forall_mem {condition : Action → Prop} {history : List Action}
    (h : ∀ a ∈ history, condition a) (s : State) :
    Meets step (fun _ a ↦ condition a) s history := by
  induction history generalizing s with
  | nil => trivial
  | cons a history ih =>
    rw [List.forall_mem_cons] at h
    exact ⟨h.1, fun s' _ ↦ ih h.2 s'⟩

/-- A weaker condition is met by the same runs. -/
theorem Meets.imp {condition' : State → Action → Prop} (h : ∀ s a, condition s a → condition' s a)
    {s : State} {history : List Action} (hmeets : Meets step condition s history) :
    Meets step condition' s history := by
  induction history generalizing s with
  | nil => trivial
  | cons a history ih => exact ⟨h s a hmeets.1, fun s' hs' ↦ ih (hmeets.2 s' hs')⟩

/-- Two conditions that agree in every state with the invariant are met by the same runs. -/
theorem meets_congr {condition' : State → Action → Prop} {I : State → Prop} {init : State}
    (history : List Action) (hinit : I init)
    (hstep : ∀ s a s', I s → step s a = some s' → I s')
    (hiff : ∀ s a, I s → (condition s a ↔ condition' s a)) :
    Meets step condition init history ↔ Meets step condition' init history := by
  induction history generalizing init with
  | nil => exact Iff.rfl
  | cons a history ih =>
    rw [meets_cons, meets_cons]
    apply and_congr (hiff init a hinit)
    apply forall₂_congr
    intro s' hs'
    exact ih (hstep init a s' hinit hs')

/-- A run gets through exactly when no action of it stops the system. -/
theorem exists_run_iff {stops : State → Action → Prop}
    (hstops : ∀ s a, step s a = none ↔ stops s a) (s : State) (history : List Action) :
    (∃ s', run step s history = some s') ↔ Meets step (fun s a ↦ ¬ stops s a) s history := by
  induction history generalizing s with
  | nil => exact iff_of_true ⟨s, rfl⟩ trivial
  | cons a history ih =>
    rw [run_cons, meets_cons, ← hstops]
    cases hstep : step s a with
    | none => simp
    | some t =>
      rw [Option.bind_some, ih t]
      constructor
      · rintro hmeets
        refine ⟨Option.some_ne_none t, fun s' hs' ↦ ?_⟩
        rw [← Option.some.inj hs']
        exact hmeets
      · exact fun h ↦ h.2 t rfl

/-- What holds at first and is kept by every step of a relation holds of all that is reached. -/
theorem invariant_of_reaches {Step : State → State → Prop} {I : State → Prop} {init s : State}
    (hinit : I init) (hstep : ∀ before after, I before → Step before after → I after)
    (hreaches : Relation.ReflTransGen Step init s) : I s := by
  induction hreaches with
  | refl => exact hinit
  | tail _ hlast ih => exact hstep _ _ ih hlast

/-! ## What is undone later -/

/-- Every action of the first kind is followed, at some point, by one of the second. -/
def Undone (does undoes : Action → Prop) (history : List Action) : Prop :=
  ∀ first a rest, history = first ++ a :: rest → does a → ∃ later ∈ rest, undoes later

theorem undone_nil (does undoes : Action → Prop) : Undone does undoes [] := by
  intro first a rest hsplit
  simp at hsplit

/-- Where no action is of both kinds, only the last one that is of either kind matters. -/
theorem undone_concat {does undoes : Action → Prop} (hexclusive : ∀ a, does a → ¬ undoes a)
    (history : List Action) (last : Action) :
    Undone does undoes (history ++ [last]) ↔
      undoes last ∨ ¬ does last ∧ Undone does undoes history := by
  constructor
  · intro h
    by_cases hundoes : undoes last
    · exact .inl hundoes
    refine .inr ⟨fun hdoes ↦ ?_, fun first a rest hsplit hdoes ↦ ?_⟩
    · obtain ⟨later, hlater, -⟩ := h history last [] rfl hdoes
      cases hlater
    · obtain ⟨later, hlater, hlast⟩ := h first a (rest ++ [last]) (by rw [hsplit]; simp) hdoes
      rcases List.mem_append.mp hlater with hmem | hmem
      · exact ⟨later, hmem, hlast⟩
      · rw [List.mem_singleton.mp hmem] at hlast
        exact absurd hlast hundoes
  · intro h first a rest hsplit hdoes
    rcases List.eq_nil_or_concat rest with rfl | ⟨rest', last', rfl⟩
    · obtain ⟨-, hlast⟩ := List.append_inj' hsplit rfl
      obtain rfl : last = a := by simpa using hlast
      rcases h with hundoes | ⟨hnot, -⟩
      · exact absurd hundoes (hexclusive last hdoes)
      · exact absurd hdoes hnot
    · have hconcat : history ++ [last] = (first ++ a :: rest') ++ [last'] := by
        rw [hsplit]
        simp
      have hinj := List.append_inj' hconcat rfl
      obtain rfl : last = last' := by simpa using hinj.2
      rcases h with hundoes | ⟨-, hbefore⟩
      · exact ⟨last, by simp, hundoes⟩
      · obtain ⟨later, hlater, hlast⟩ := hbefore first a rest' hinj.1 hdoes
        exact ⟨later, by simp [hlater], hlast⟩

end EbpfPlayground.Run
