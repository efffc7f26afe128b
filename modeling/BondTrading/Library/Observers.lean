/-
  File:      BondTrading/Library/Observers.lean
  Subject:   OBSERVABLE SERVICES: listeners register, data come in, listeners are called.

  Names nothing of the modelled program. A service is given by what a registration and a datum do
  to its state, and by the calls a datum sets off.

  * `heard` -- the calls of a run; `due` -- the calls the observer contract asks for: every datum
    is told once to every listener registered so far, in the order of registration;
  * `TellsAll` -- three laws of a service, each about one operation; `TellsAll.heard_eq`: under them
    every run keeps the contract;
  * `due_eq_nil_iff` -- when the contract asks for no call at all.
-/
import BondTrading.Library.Runs

namespace Cxx

universe u v w x

/-- What happens to an observable service: a listener registers, or a datum comes in. -/
inductive Event (ι : Type u) (δ : Type v) where
  | register (listener : ι)
  | datum (d : δ)
  deriving DecidableEq, Repr

section Observers

variable {ι : Type u} {δ : Type v} {V : Type w} {σ : Type x}

/-- The calls of a run, in order. -/
def heard (register : ι → σ → σ) (accept : δ → σ → σ × List (ι × V)) :
    List (Event ι δ) → σ → List (ι × V)
  | [], _ => []
  | .register l :: es, s => heard register accept es (register l s)
  | .datum d :: es, s => (accept d s).2 ++ heard register accept es (accept d s).1

/-- **The calls the contract asks for**, `ls` being registered already: `view d` is what a listener
    gets for the datum `d`. -/
def due (view : δ → V) : List (Event ι δ) → List ι → List (ι × V)
  | [], _ => []
  | .register l :: es, ls => due view es (ls ++ [l])
  | .datum d :: es, ls => notify ls (view d) ++ due view es ls

/-- **A service that tells everybody**: a registration adds to the end of the list, a datum leaves
    the list alone and is told to all of it. -/
structure TellsAll (listeners : σ → List ι) (register : ι → σ → σ)
    (accept : δ → σ → σ × List (ι × V)) (view : δ → V) : Prop where
  register : ∀ l s, listeners (register l s) = listeners s ++ [l]
  keeps : ∀ d s, listeners (accept d s).1 = listeners s
  tells : ∀ d s, (accept d s).2 = notify (listeners s) (view d)

/-- **The contract holds over every run** of such a service. -/
theorem TellsAll.heard_eq {listeners : σ → List ι} {register : ι → σ → σ}
    {accept : δ → σ → σ × List (ι × V)} {view : δ → V}
    (h : TellsAll listeners register accept view) (es : List (Event ι δ)) (s : σ) :
    heard register accept es s = due view es (listeners s) := by
  induction es generalizing s with
  | nil => rfl
  | cons e es ih =>
      cases e with
      | register l =>
          have hrest := ih (register l s)
          rw [h.register] at hrest
          exact hrest
      | datum d =>
          have hrest := ih (accept d s).1
          rw [h.keeps] at hrest
          show (accept d s).2 ++ _ = notify _ _ ++ _
          rw [h.tells, hrest]

/-- No call is due exactly when every datum comes in before anybody has registered. -/
theorem due_eq_nil_iff (view : δ → V) (es : List (Event ι δ)) (ls : List ι) :
    due view es ls = [] ↔
      ∀ pre d post, es = pre ++ .datum d :: post → ls = [] ∧ ∀ l, .register l ∉ pre := by
  induction es generalizing ls with
  | nil =>
      refine ⟨fun _ pre d post e => ?_, fun _ => rfl⟩
      exact absurd e.symm (List.append_ne_nil_of_right_ne_nil _ (List.cons_ne_nil _ _))
  | cons e es ih =>
      cases e with
      | register l =>
          show due view es (ls ++ [l]) = [] ↔ _
          rw [ih]
          refine ⟨fun h pre d post he => ?_, fun h pre d post he => ?_⟩
          · cases pre with
            | nil => cases he
            | cons e' pre =>
                injection he with _ he
                exact absurd (h pre d post he).1 (by simp)
          · have hmem := (h (.register l :: pre) d post (by rw [he]; rfl)).2 l
            exact absurd List.mem_cons_self hmem
      | datum d =>
          show notify ls (view d) ++ due view es ls = [] ↔ _
          rw [List.append_eq_nil_iff, ih]
          refine ⟨fun h pre d' post he => ?_, fun h => ?_⟩
          · have hls : ls = [] := List.map_eq_nil_iff.mp h.1
            refine ⟨hls, fun l hl => ?_⟩
            cases pre with
            | nil => cases hl
            | cons e' pre =>
                injection he with he' he
                rcases List.mem_cons.mp hl with hl | hl
                · rw [← he'] at hl
                  cases hl
                · exact (h.2 pre d' post he).2 l hl
          · have hls : ls = [] := (h [] d es rfl).1
            refine ⟨List.map_eq_nil_iff.mpr hls, fun pre d' post he => ?_⟩
            obtain ⟨hnil, hnone⟩ := h (.datum d :: pre) d' post (by rw [he]; rfl)
            exact ⟨hnil, fun l hl => hnone l (List.mem_cons_of_mem _ hl)⟩

end Observers

end Cxx
