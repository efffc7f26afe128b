/-
  File:      BondTrading/Library/Runs.lean
  Subject:   RUNS OF A C++ PROGRAM THAT MAY STOP, observers, and `int` counters.

  Names nothing of the modelled program.

  * `Outcome`, `andThen`, `runAll` -- a step either leaves a state or stops the process (an
    `exit`, an uncaught exception, a read outside an object); a stopped run keeps the state it
    had reached;
  * `runAll_invariant`, `runAll_done_invariant`, `foldl_invariant` -- the induction rules: a fact
    about the prefix handled so far, kept by every step, holds of the whole run; `runAll_congr` -- a
    second machine that makes the same steps under such a fact;
  * `EveryStep`, `Until`, `everyStep_iff` -- what holds of every step a loop makes, and when that is
    a matter of the elements up to the one the loop ends at; `everyStep_iff_runAll` -- the same said
    of the prefixes that ran to their end;
  * `notify` -- the loop of an observable service over its registered listeners;
  * `int32`, `intLoop` -- a 32-bit counter, and the elements of a vector an `int` index reaches.
-/
import Mathlib.Data.List.Basic
import Mathlib.Data.List.Induction

namespace Cxx

universe u v w

/-! ## 1. Steps and runs -/

/-- Why a process ends before its last statement: `exit`, an exception of `stoi`/`stol` nobody
    catches, or undefined behaviour (an index past the end). -/
inductive Stop where
  | exit | invalidArgument | outOfRange | undefined
  deriving DecidableEq, Repr

/-- What a step leaves behind: the next state, or the state the process stopped in. -/
inductive Outcome (σ : Type u) where
  | done (s : σ)
  | stopped (why : Stop) (s : σ)
  deriving Repr

/-- Sequencing: nothing runs after a stop. -/
def Outcome.andThen {σ : Type u} : Outcome σ → (σ → Outcome σ) → Outcome σ
  | .done s, f => f s
  | .stopped why s, _ => .stopped why s

/-- The state a step leaves behind, whether it went on or stopped. -/
def Outcome.state {σ : Type u} : Outcome σ → σ
  | .done s => s
  | .stopped _ s => s

/-- Why it stopped, if it did. -/
def Outcome.ending {σ : Type u} : Outcome σ → Option Stop
  | .done _ => none
  | .stopped why _ => some why

@[simp] theorem Outcome.done_andThen {σ : Type u} (s : σ) (f : σ → Outcome σ) :
    (Outcome.done s).andThen f = f s := rfl

/-- A loop over `as`, one step each, in order. -/
def runAll {α : Type v} {σ : Type u} (step : α → σ → Outcome σ) : List α → σ → Outcome σ
  | [], s => .done s
  | a :: as, s => (step a s).andThen (runAll step as)

section RunAll

variable {α : Type v} {σ : Type u} {step : α → σ → Outcome σ}

@[simp] theorem runAll_cons (a : α) (as : List α) (s : σ) :
    runAll step (a :: as) s = (step a s).andThen (runAll step as) := rfl

/-- A loop of one step. -/
theorem runAll_singleton (a : α) (s : σ) : runAll step [a] s = step a s := by
  rw [runAll_cons]
  cases step a s with
  | done s' => rfl
  | stopped why s' => rfl

/-- A loop over two lists is one loop, then the other. -/
theorem runAll_append (as bs : List α) (s : σ) :
    runAll step (as ++ bs) s = (runAll step as s).andThen (runAll step bs) := by
  induction as generalizing s with
  | nil => rfl
  | cons a as ih =>
      show (step a s).andThen (runAll step (as ++ bs)) = _
      rw [runAll_cons]
      cases step a s with
      | done s' => exact ih s'
      | stopped why s' => rfl

/-- **The rule for loops that may stop**: a fact `I` about the prefix handled so far, whose
    every step succeeds and keeps it, holds of the whole list, and the loop ends normally. -/
theorem runAll_invariant {I : List α → σ → Prop} {s : σ} (as : List α) (h0 : I [] s)
    (hstep : ∀ pre a post s, as = pre ++ a :: post → I pre s →
      ∃ s', step a s = .done s' ∧ I (pre ++ [a]) s') :
    ∃ s', runAll step as s = .done s' ∧ I as s' := by
  suffices h : ∀ post pre s, as = pre ++ post → I pre s →
      ∃ s', runAll step post s = .done s' ∧ I as s' from h as [] s rfl h0
  intro post
  induction post with
  | nil =>
      intro pre s e hI
      rw [List.append_nil] at e
      exact ⟨s, rfl, e ▸ hI⟩
  | cons a post ih =>
      intro pre s e hI
      obtain ⟨s₁, hs₁, hI₁⟩ := hstep pre a post s e hI
      have e' : as = (pre ++ [a]) ++ post := by
        rw [e, List.append_assoc]
        rfl
      obtain ⟨s', hs', hI'⟩ := ih (pre ++ [a]) s₁ e' hI₁
      refine ⟨s', ?_, hI'⟩
      rw [runAll_cons, hs₁]
      exact hs'

/-- A loop that goes through makes a first step, and then the others. -/
theorem runAll_cons_done {a : α} {as : List α} {s s' : σ}
    (h : runAll step (a :: as) s = .done s') :
    ∃ s₁, step a s = .done s₁ ∧ runAll step as s₁ = .done s' := by
  rw [runAll_cons] at h
  cases hs : step a s with
  | done s₁ =>
      rw [hs] at h
      exact ⟨s₁, rfl, h⟩
  | stopped why s₁ =>
      rw [hs] at h
      cases h

/-- **The rule for loops that went through**: what every step that goes on keeps of the prefix handled
    so far holds of the whole list. -/
theorem runAll_done_invariant {I : List α → σ → Prop} {as : List α} {s s' : σ}
    (h : runAll step as s = .done s') (h0 : I [] s)
    (hstep : ∀ pre a s₁ s₂, runAll step pre s = .done s₁ → I pre s₁ → step a s₁ = .done s₂ →
      I (pre ++ [a]) s₂) : I as s' := by
  induction as using List.reverseRecOn generalizing s' with
  | nil => exact Outcome.done.inj h ▸ h0
  | append_singleton as a ih =>
      rw [runAll_append] at h
      cases hs : runAll step as s with
      | done s₁ =>
          rw [hs, Outcome.done_andThen, runAll_singleton] at h
          exact hstep as a s₁ s' hs (ih hs) h
      | stopped why s₁ =>
          rw [hs] at h
          cases h

/-- **Two machines that do the same**: `J` is what the one keeps of the prefix handled so far, and under
    it the other makes the same step. -/
theorem runAll_congr {step' : α → σ → Outcome σ} {J : List α → σ → Prop} {s : σ} (as : List α)
    (h0 : J [] s) (hsame : ∀ pre a post s, as = pre ++ a :: post → J pre s → step' a s = step a s)
    (hkept : ∀ pre a post s s', as = pre ++ a :: post → J pre s → step a s = .done s' →
      J (pre ++ [a]) s') :
    runAll step' as s = runAll step as s := by
  suffices h : ∀ post pre s, as = pre ++ post → J pre s →
      runAll step' post s = runAll step post s from h as [] s rfl h0
  intro post
  induction post with
  | nil => exact fun _ _ _ _ => rfl
  | cons a post ih =>
      intro pre s e hJ
      rw [runAll_cons, runAll_cons, hsame pre a post s e hJ]
      cases hs : step a s with
      | done s₁ =>
          refine ih (pre ++ [a]) s₁ ?_ (hkept pre a post s s₁ e hJ hs)
          rw [e, List.append_assoc]
          rfl
      | stopped why s₁ => rfl

/-- `P` holds of every step a loop makes: of the element, the state the step meets and what it leaves
    behind. -/
def EveryStep (step : α → σ → Outcome σ) (P : α → σ → Outcome σ → Prop) : List α → σ → Prop
  | [], _ => True
  | a :: as, s => P a s (step a s) ∧ ∀ s', step a s = .done s' → EveryStep step P as s'

/-- Every step a loop makes is the one behind a prefix that ran to its end. -/
theorem everyStep_iff_runAll {P : α → σ → Outcome σ → Prop} (as : List α) (s : σ) :
    EveryStep step P as s ↔ ∀ pre a post s', as = pre ++ a :: post →
      runAll step pre s = .done s' → P a s' (step a s') := by
  induction as generalizing s with
  | nil =>
      refine ⟨fun _ pre a post s' e _ => ?_, fun _ => trivial⟩
      exact absurd e.symm (List.append_ne_nil_of_right_ne_nil _ (List.cons_ne_nil _ _))
  | cons b as ih =>
      refine ⟨fun h pre a post s' e hrun => ?_, fun h => ?_⟩
      · cases pre with
        | nil =>
            injection e with hb _
            rw [← hb, ← Outcome.done.inj hrun]
            exact h.1
        | cons c pre =>
            injection e with hb e
            rw [runAll_cons, ← hb] at hrun
            cases hs : step b s with
            | done s₁ =>
                rw [hs] at hrun
                exact (ih s₁).mp (h.2 s₁ hs) pre a post s' e hrun
            | stopped why s₁ =>
                rw [hs] at hrun
                cases hrun
      · refine ⟨h [] b as s rfl rfl, fun s₁ hs => (ih s₁).mpr fun pre a post s' e hrun => ?_⟩
        refine h (b :: pre) a post s' (by rw [e]; rfl) ?_
        rw [runAll_cons, hs]
        exact hrun

/-- `Ok` holds of the elements up to the first one at which the loop ends, `pre` lying behind. -/
def Until (Ends : List α → α → Prop) (Ok : α → Prop) : List α → List α → Prop
  | _, [] => True
  | pre, a :: as => Ok a ∧ (Ends pre a ∨ Until Ends Ok (pre ++ [a]) as)

/-- **When every step of a loop does right**: `J` is what holds of the prefix handled so far; under
    it a step does right exactly for an `Ok` element, and such an element either ends the loop or
    keeps `J`. -/
theorem everyStep_iff {P : α → σ → Outcome σ → Prop} {J : List α → σ → Prop}
    {Ends : List α → α → Prop} {Ok : α → Prop}
    (as : List α) (hok : ∀ pre a s, a ∈ as → J pre s → (P a s (step a s) ↔ Ok a))
    (hgoes : ∀ pre a s, a ∈ as → J pre s → Ok a → (Ends pre a ∧ ∀ s', step a s ≠ .done s') ∨
      (¬ Ends pre a ∧ ∃ s', step a s = .done s' ∧ J (pre ++ [a]) s'))
    (pre : List α) {s : σ} (h : J pre s) : EveryStep step P as s ↔ Until Ends Ok pre as := by
  induction as generalizing pre s with
  | nil => exact Iff.rfl
  | cons a as ih =>
      show (P a s (step a s) ∧ _) ↔ (Ok a ∧ _)
      rw [hok pre a s List.mem_cons_self h]
      refine and_congr_right fun ha => ?_
      rcases hgoes pre a s List.mem_cons_self h ha with ⟨hends, hstop⟩ | ⟨hgo, s', hs', hJ⟩
      · exact ⟨fun _ => Or.inl hends, fun _ s' hs' => absurd hs' (hstop s')⟩
      · have hrest := ih (fun pre b s hb => hok pre b s (List.mem_cons_of_mem _ hb))
          (fun pre b s hb => hgoes pre b s (List.mem_cons_of_mem _ hb)) (pre ++ [a]) hJ
        refine ⟨fun hall => ?_, fun huntil s'' hs'' => ?_⟩
        · exact Or.inr (hrest.mp (hall s' hs'))
        · rw [← Outcome.done.inj (hs'.symm.trans hs'')]
          exact hrest.mpr (huntil.resolve_left hgo)

end RunAll

/-- **The rule for total loops**: what every step keeps of the prefix handled so far holds of
    the whole list. -/
theorem foldl_invariant {α : Type v} {σ : Type u} {step : σ → α → σ} {I : List α → σ → Prop}
    {s : σ} (h0 : I [] s) (hstep : ∀ pre a s, I pre s → I (pre ++ [a]) (step s a))
    (as : List α) : I as (as.foldl step s) := by
  induction as using List.reverseRecOn with
  | nil => exact h0
  | append_singleton as a ih =>
      rw [List.foldl_append]
      exact hstep as a _ ih

/-! ## 2. Observers -/

/-- The calls one loop `for (i …) listeners[i]->ProcessAdd(data)` makes, in order: who is called,
    and with what. -/
def notify {ι : Type u} {V : Type v} (listeners : List ι) (data : V) : List (ι × V) :=
  listeners.map fun l => (l, data)

@[simp] theorem notify_nil {ι : Type u} {V : Type v} (data : V) :
    notify ([] : List ι) data = [] := rfl

@[simp] theorem notify_cons {ι : Type u} {V : Type v} (l : ι) (ls : List ι) (data : V) :
    notify (l :: ls) data = (l, data) :: notify ls data := rfl

/-! ## 3. Machine integers -/

/-- The value of a 32-bit `int` after arithmetic (two's complement). -/
def int32 (x : Int) : Int := x.bmod 4294967296

theorem int32_eq {x : Int} (hlo : -2147483648 ≤ x) (hhi : x < 2147483648) : int32 x = x :=
  Int.bmod_eq_of_le (by omega) (by omega)

/-- Counters that differ by less than one full turn of the 32-bit circle stay apart. -/
theorem int32_ne_one {n : Nat} (h0 : 1 ≤ n) (h : n < 4294967296) : int32 ((n : Int) + 1) ≠ 1 := by
  intro e
  have h1 : ((n : Int) + 1 - 1).bmod 4294967296 = 0 :=
    Int.bmod_eq_bmod_iff_bmod_sub_eq_zero.mp (e.trans (int32_eq (by omega) (by omega)).symm)
  rw [Int.add_sub_cancel] at h1
  have h2 : ((4294967296 : Nat) : Int) ∣ (n : Int) := Int.dvd_of_bmod_eq_zero h1
  obtain ⟨k, hk⟩ := h2
  omega

/-- Adding in 32 bits, then once more, is adding both in 32 bits. -/
theorem int32_add (x y : Int) : int32 (int32 x + y) = int32 (x + y) :=
  Int.bmod_add_bmod

/-- The elements `for (int i = 0; i < v.size(); ++i)` visits: an `int` index ends at
    `2 ^ 31 - 1`, past it the comparison with the unsigned size fails. -/
def intLoop {α : Type u} (v : List α) : List α := v.take 2147483648

end Cxx
