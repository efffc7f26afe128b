/-
  File:      BondTrading/Library/Parts.lean
  Subject:   ONE MACHINE OF SEVERAL PARTS, whose messages come interleaved.

  Names nothing of the modelled program. `owner` says which part a message is for, and `view k` is
  what of the state belongs to the part `k`.

  * `ownOf` -- the messages of one part, in their order;
  * `Parted` -- what a single message may do: it changes its own part alone, and its effect there
    depends on that part alone;
  * `Parted.purge` -- a part ends up as if the messages of the others had not been;
  * `Parted.run_iff`, `Parted.reorder` -- the whole goes through exactly when every part does, and
    only the order within each part matters;
  * `outputs`, `Parted.outputs_purge` -- the same of what the messages put out;
  * `along`, `outputs_eq_along` -- outputs that are a function of the messages.
-/
import BondTrading.Library.Runs
import Mathlib.Logic.Function.Basic

namespace Cxx

universe u v w

/-! ## 1. The messages of one part -/

section Own

variable {κ : Type u} {μ : Type v} [DecidableEq κ] (owner : μ → κ)

/-- The messages of one part, in their order. -/
def ownOf (k : κ) (ms : List μ) : List μ := ms.filter fun m => owner m = k

variable {owner}

theorem ownOf_cons_self {m : μ} {k : κ} (h : owner m = k) (ms : List μ) :
    ownOf owner k (m :: ms) = m :: ownOf owner k ms := by
  rw [ownOf, List.filter_cons, if_pos (decide_eq_true h)]
  rfl

theorem ownOf_cons_other {m : μ} {k : κ} (h : owner m ≠ k) (ms : List μ) :
    ownOf owner k (m :: ms) = ownOf owner k ms := by
  rw [ownOf, List.filter_cons, if_neg (by simpa using h)]
  rfl

end Own

/-! ## 2. Runs -/

/-- **A machine of parts**: while `I` holds, a message changes its own part alone; what it makes of
    that part, and whether the machine goes on, depends on that part alone. -/
structure Parted {κ : Type u} {μ : Type v} {σ : Type w} {V : Type*} (step : μ → σ → Outcome σ)
    (owner : μ → κ) (view : κ → σ → V) (I : σ → Prop) : Prop where
  keeps : ∀ {m s s'}, I s → step m s = .done s' → I s'
  frame : ∀ {m s s' k}, I s → step m s = .done s' → owner m ≠ k → view k s' = view k s
  own : ∀ {m s t s'}, I s → I t → view (owner m) s = view (owner m) t → step m s = .done s' →
    ∃ t', step m t = .done t' ∧ view (owner m) s' = view (owner m) t'

section Runs

variable {κ : Type u} {μ : Type v} {σ : Type w} {V : Type*}
  {step : μ → σ → Outcome σ} {owner : μ → κ} {view : κ → σ → V} {I : σ → Prop}

theorem Parted.keeps_run (hp : Parted step owner view I) {ms : List μ} {s s' : σ} (hI : I s)
    (h : runAll step ms s = .done s') : I s' := by
  induction ms generalizing s with
  | nil => exact Outcome.done.inj h ▸ hI
  | cons m ms ih =>
      obtain ⟨s₁, hm, hms⟩ := runAll_cons_done h
      exact ih (hp.keeps hI hm) hms

variable [DecidableEq κ]

/-- **A part ends up as if the messages of the others had not been**: the run of its own messages,
    from any state that is alike there, goes through and leaves it the same. -/
theorem Parted.purge (hp : Parted step owner view I) {ms : List μ} {s s' t : σ} (k : κ) (hs : I s)
    (ht : I t) (hview : view k s = view k t) (h : runAll step ms s = .done s') :
    ∃ t', runAll step (ownOf owner k ms) t = .done t' ∧ view k s' = view k t' := by
  induction ms generalizing s t with
  | nil => exact ⟨t, rfl, Outcome.done.inj h ▸ hview⟩
  | cons m ms ih =>
      obtain ⟨s₁, hm, hms⟩ := runAll_cons_done h
      have hs₁ := hp.keeps hs hm
      by_cases hk : owner m = k
      · subst hk
        obtain ⟨t₁, hmt, hview₁⟩ := hp.own hs ht hview hm
        obtain ⟨t', hrun, hview'⟩ := ih hs₁ (hp.keeps ht hmt) hview₁ hms
        refine ⟨t', ?_, hview'⟩
        rw [ownOf_cons_self rfl, runAll_cons, hmt]
        exact hrun
      · rw [ownOf_cons_other hk]
        exact ih hs₁ ht ((hp.frame hs hm hk).trans hview) hms

/-- If every part goes through on its own, so does the whole: `t k` is a state that is alike in the
    part `k`. -/
theorem Parted.done_of_parts (hp : Parted step owner view I) {ms : List μ} {s : σ} {t : κ → σ}
    (hs : I s) (ht : ∀ k, I (t k)) (hview : ∀ k, view k s = view k (t k))
    (h : ∀ k, ∃ t', runAll step (ownOf owner k ms) (t k) = .done t') :
    ∃ s', runAll step ms s = .done s' := by
  induction ms generalizing s t with
  | nil => exact ⟨s, rfl⟩
  | cons m ms ih =>
      obtain ⟨t', hm⟩ := h (owner m)
      rw [ownOf_cons_self rfl] at hm
      obtain ⟨t₁, hmt, hrest⟩ := runAll_cons_done hm
      obtain ⟨s₁, hms, hview₁⟩ := hp.own (ht _) hs (hview (owner m)).symm hmt
      -- the part of the message goes on from `t₁`, the others from where they are
      have hgoes : ∀ k, I (Function.update t (owner m) t₁ k) ∧
          view k s₁ = view k (Function.update t (owner m) t₁ k) ∧
          ∃ t', runAll step (ownOf owner k ms) (Function.update t (owner m) t₁ k) = .done t' := by
        intro k
        by_cases hk : k = owner m
        · subst hk
          rw [Function.update_self]
          exact ⟨hp.keeps (ht _) hmt, hview₁.symm, t', hrest⟩
        · obtain ⟨t'', ht''⟩ := h k
          rw [ownOf_cons_other (Ne.symm hk)] at ht''
          rw [Function.update_of_ne hk]
          exact ⟨ht k, (hp.frame hs hms (Ne.symm hk)).trans (hview k), t'', ht''⟩
      obtain ⟨s', hs'⟩ := ih (hp.keeps hs hms) (fun k => (hgoes k).1) (fun k => (hgoes k).2.1)
        fun k => (hgoes k).2.2
      refine ⟨s', ?_⟩
      rw [runAll_cons, hms]
      exact hs'

/-- **The whole goes through exactly when every part does on its own.** -/
theorem Parted.run_iff (hp : Parted step owner view I) {s : σ} (hs : I s) (ms : List μ) :
    (∃ s', runAll step ms s = .done s') ↔
      ∀ k, ∃ t, runAll step (ownOf owner k ms) s = .done t := by
  constructor
  · intro h k
    obtain ⟨s', h⟩ := h
    obtain ⟨t, ht, -⟩ := hp.purge k hs hs rfl h
    exact ⟨t, ht⟩
  · exact fun h => hp.done_of_parts (t := fun _ => s) hs (fun _ => hs) (fun _ => rfl) h

/-- **Only the order within each part matters.** -/
theorem Parted.reorder (hp : Parted step owner view I) {s s' : σ} (hs : I s) {ms ms' : List μ}
    (hms : ∀ k, ownOf owner k ms = ownOf owner k ms') (h : runAll step ms s = .done s') :
    ∃ t, runAll step ms' s = .done t ∧ ∀ k, view k s' = view k t := by
  obtain ⟨t, ht⟩ := (hp.run_iff hs ms').mpr fun k =>
    hms k ▸ (hp.run_iff hs ms).mp ⟨s', h⟩ k
  refine ⟨t, ht, fun k => ?_⟩
  obtain ⟨a, ha, hview⟩ := hp.purge k hs hs rfl h
  obtain ⟨b, hb, hview'⟩ := hp.purge k hs hs rfl ht
  rw [hms k] at ha
  rw [hview, hview', Outcome.done.inj (ha.symm.trans hb)]

/-! ## 3. What the messages put out -/

variable {ω : Type*} {out : μ → σ → List ω} {tag : ω → κ}

/-- What the messages of a run put out, one after the other. -/
def outputs (step : μ → σ → Outcome σ) (out : μ → σ → List ω) : List μ → σ → List ω
  | [], _ => []
  | m :: ms, s => out m s ++
      match step m s with
      | .done s' => outputs step out ms s'
      | .stopped _ _ => []

theorem outputs_cons_done {m : μ} {s s' : σ} (h : step m s = .done s') (ms : List μ) :
    outputs step out (m :: ms) s = out m s ++ outputs step out ms s' := by
  rw [outputs, h]

theorem outputs_concat {ms : List μ} {s s' : σ} (h : runAll step ms s = .done s') (m : μ) :
    outputs step out (ms ++ [m]) s = outputs step out ms s ++ out m s' := by
  induction ms generalizing s with
  | nil =>
      rw [List.nil_append, ← Outcome.done.inj h]
      show out m s ++ _ = out m s
      cases step m s <;> exact List.append_nil _
  | cons m' ms ih =>
      obtain ⟨s₁, hm, hms⟩ := runAll_cons_done h
      rw [List.cons_append, outputs_cons_done hm, outputs_cons_done hm, ih hms, List.append_assoc]

/-- What a function of a message and of those before it gives along a list of messages. -/
def along (f : List μ → μ → List ω) : List μ → List μ → List ω
  | _, [] => []
  | pre, m :: ms => f pre m ++ along f (pre ++ [m]) ms

theorem along_append (f : List μ → μ → List ω) (pre ms ms' : List μ) :
    along f pre (ms ++ ms') = along f pre ms ++ along f (pre ++ ms) ms' := by
  induction ms generalizing pre with
  | nil => simp [along]
  | cons m ms ih => simp [along, ih]

theorem along_concat (f : List μ → μ → List ω) (pre ms : List μ) (m : μ) :
    along f pre (ms ++ [m]) = along f pre ms ++ f (pre ++ ms) m := by
  rw [along_append]
  simp [along]

theorem map_along {ω' : Type w} (g : ω → ω') (f : List μ → μ → List ω) (pre ms : List μ) :
    (along f pre ms).map g = along (fun pre m => (f pre m).map g) pre ms := by
  induction ms generalizing pre with
  | nil => rfl
  | cons m ms ih => rw [along, along, List.map_append, ih]

/-- If of those before it only their number matters. -/
theorem along_zipIdx (f : Nat → μ → ω) (ms : List μ) :
    along (fun pre m => [f pre.length m]) [] ms = ms.zipIdx.map fun entry => f entry.2 entry.1 := by
  induction ms using List.reverseRecOn with
  | nil => rfl
  | append_singleton ms m ih => simp [along_concat, ih, List.zipIdx_append]

theorem along_mono (f : List μ → μ → List ω) (pre : List μ) {ms ms' : List μ} (h : ms <+: ms') :
    along f pre ms <+: along f pre ms' := by
  obtain ⟨rest, rfl⟩ := h
  rw [along_append]
  exact List.prefix_append _ _

theorem forall_along_nil {P : List μ → μ → Prop} (pre : List μ) (x : μ) (h : pre ++ [x] <+: []) :
    P pre x :=
  absurd (List.prefix_nil.mp h) (List.append_ne_nil_of_right_ne_nil pre (List.cons_ne_nil x []))

/-- Every message of a longer list, with those before it. -/
theorem forall_along_concat {P : List μ → μ → Prop} (ms : List μ) (m : μ) :
    (∀ pre x, pre ++ [x] <+: ms ++ [m] → P pre x) ↔
      (∀ pre x, pre ++ [x] <+: ms → P pre x) ∧ P ms m := by
  constructor
  · intro h
    exact ⟨fun pre x hpre => h pre x (hpre.trans (List.prefix_append _ _)),
      h ms m List.prefix_rfl⟩
  · rintro ⟨h, hlast⟩ pre x hpre
    rcases List.prefix_concat_iff.mp hpre with heq | hpre
    · obtain ⟨rfl, hx⟩ := List.append_inj' heq rfl
      exact List.singleton_inj.mp hx ▸ hlast
    · exact h pre x hpre

/-- By their numbers. -/
theorem forall_along_iff {P : List μ → μ → Prop} (ms : List μ) :
    (∀ pre x, pre ++ [x] <+: ms → P pre x) ↔ ∀ n (h : n < ms.length), P (ms.take n) ms[n] := by
  constructor
  · intro h n hn
    refine h _ _ ?_
    rw [List.take_append_getElem hn]
    exact List.take_prefix _ _
  · rintro h pre x ⟨post, rfl⟩
    have hn := h pre.length (by simp)
    simpa using hn

theorem along_congr {f g : List μ → μ → List ω} {ms : List μ}
    (h : ∀ pre x, pre ++ [x] <+: ms → f pre x = g pre x) : along f [] ms = along g [] ms := by
  induction ms using List.reverseRecOn with
  | nil => rfl
  | append_singleton ms m ih =>
      obtain ⟨hpre, hlast⟩ := (forall_along_concat ms m).mp h
      rw [along_concat, along_concat, ih hpre, List.nil_append, hlast]

theorem length_along (f : List μ → μ → ω) (pre ms : List μ) :
    (along (fun pre m => [f pre m]) pre ms).length = ms.length := by
  induction ms generalizing pre with
  | nil => rfl
  | cons m ms ih => rw [along, List.length_append, ih, List.length_singleton, List.length_cons,
      Nat.add_comm]

/-- **Outputs as a function of the messages**: if the state after some messages (`J` says how it hangs
    together with them) puts out what the function says, so does the run. -/
theorem outputs_eq_along {J : List μ → σ → Prop} {f : List μ → μ → List ω} {ms : List μ} {s s' : σ}
    (h0 : J [] s) (hrun : runAll step ms s = .done s')
    (hstep : ∀ pre m s₁ s₂, m ∈ ms → J pre s₁ → step m s₁ = .done s₂ →
      J (pre ++ [m]) s₂ ∧ out m s₁ = f pre m) :
    outputs step out ms s = along f [] ms ∧ J ms s' := by
  suffices h : ∀ pre ms' s, (∀ m ∈ ms', m ∈ ms) → J pre s → runAll step ms' s = .done s' →
      outputs step out ms' s = along f pre ms' ∧ J (pre ++ ms') s' by
    exact h [] ms s (fun _ hm => hm) h0 hrun
  intro pre ms'
  induction ms' generalizing pre with
  | nil =>
      intro s _ hJ hrun
      rw [List.append_nil, ← Outcome.done.inj hrun]
      exact ⟨rfl, hJ⟩
  | cons m ms' ih =>
      intro s hmem hJ hrun
      obtain ⟨s₁, hm, hms⟩ := runAll_cons_done hrun
      obtain ⟨hJ₁, hout⟩ := hstep pre m s s₁ (hmem m List.mem_cons_self) hJ hm
      obtain ⟨hrest, hJ'⟩ := ih (pre ++ [m]) s₁
        (fun m' hm' => hmem m' (List.mem_cons_of_mem _ hm')) hJ₁ hms
      rw [outputs_cons_done hm, hout, hrest]
      exact ⟨rfl, by simpa using hJ'⟩

/-- **What a part puts out is what it puts out on its own**, if its outputs bear its name and depend on
    it alone. -/
theorem Parted.outputs_purge (hp : Parted step owner view I) (out : μ → σ → List ω) (tag : ω → κ)
    (hout : ∀ {m s t}, I s → I t → view (owner m) s = view (owner m) t → out m s = out m t)
    (htag : ∀ m s, ∀ o ∈ out m s, tag o = owner m) {ms : List μ} {s s' t : σ} (k : κ) (hs : I s)
    (ht : I t) (hview : view k s = view k t) (h : runAll step ms s = .done s') :
    (outputs step out ms s).filter (fun o => tag o = k) =
      outputs step out (ownOf owner k ms) t := by
  induction ms generalizing s t with
  | nil => rfl
  | cons m ms ih =>
      obtain ⟨s₁, hm, hms⟩ := runAll_cons_done h
      have hs₁ := hp.keeps hs hm
      rw [outputs_cons_done hm, List.filter_append]
      by_cases hk : owner m = k
      · subst hk
        obtain ⟨t₁, hmt, hview₁⟩ := hp.own hs ht hview hm
        rw [ownOf_cons_self rfl, outputs_cons_done hmt, ← hout hs ht hview,
          ← ih hs₁ (hp.keeps ht hmt) hview₁ hms,
          List.filter_eq_self.mpr fun o ho => decide_eq_true (htag m s o ho)]
      · have hnone : (out m s).filter (fun o => tag o = k) = [] :=
          List.filter_eq_nil_iff.mpr fun o ho => by simpa [htag m s o ho] using hk
        rw [ownOf_cons_other hk, hnone, List.nil_append]
        exact ih hs₁ ht ((hp.frame hs hm hk).trans hview) hms

end Runs

end Cxx
