/-
  File:      BondTrading/Library/Scripts.lean
  Subject:   READING APART FROM ACTING: a program that acts on what it reads while it reads on.

  Names nothing of the modelled program. What such a program reads does not depend on what it does, so
  a file stands for the data in front of the first line that does not decode, and for the way the
  reading ends there.

  * `Script`, `Script.run` -- messages, and how it ends when all of them are taken;
  * `Script.ofLines`, `readLines_eq_script` -- a reader of lines is the run of the script its lines are;
  * `Script.andThen`, `Script.run_andThen` -- one file behind the other;
  * `upTo`, `runAll_upTo` -- messages up to the first one the machine refuses, and the run of them.
-/
import BondTrading.Library.Text

namespace Cxx

universe u v w

/-! ## 1. Scripts -/

/-- What there is to take, and the stop behind it, if there is one. -/
structure Script (μ : Type u) where
  messages : List μ
  ending : Option Stop
  deriving DecidableEq, Repr

/-- The stop behind the last message. -/
def halt {σ : Type w} : Option Stop → σ → Outcome σ
  | none, s => .done s
  | some why, s => .stopped why s

@[simp] theorem state_halt {σ : Type w} (ending : Option Stop) (s : σ) :
    (halt ending s).state = s := by
  cases ending <;> rfl

@[simp] theorem ending_halt {σ : Type w} (ending : Option Stop) (s : σ) :
    (halt ending s).ending = ending := by
  cases ending <;> rfl

namespace Script

variable {μ : Type u} {δ : Type v} {σ : Type w}

/-- The script of a program that reads nothing. -/
def empty : Script μ := ⟨[], none⟩

/-- The script of a program that stops at once. -/
def stop (why : Stop) : Script μ := ⟨[], some why⟩

/-- Every message is taken, in order, and then the script ends as it does. -/
def run (act : μ → σ → Outcome σ) (p : Script μ) (s : σ) : Outcome σ :=
  (runAll act p.messages s).andThen (halt p.ending)

/-- What comes in front of everything a script has. -/
def push (m : μ) (p : Script μ) : Script μ := ⟨m :: p.messages, p.ending⟩

/-- One script behind the other. -/
def andThen (p q : Script μ) : Script μ :=
  match p.ending with
  | none => ⟨p.messages ++ q.messages, q.ending⟩
  | some why => ⟨p.messages, some why⟩

def map (f : δ → μ) (p : Script δ) : Script μ := ⟨p.messages.map f, p.ending⟩

@[simp] theorem ending_map (f : δ → μ) (p : Script δ) : (p.map f).ending = p.ending := rfl

section Run

variable {act : μ → σ → Outcome σ}

theorem run_stop (why : Stop) (s : σ) : (stop why : Script μ).run act s = .stopped why s := rfl

theorem run_push (m : μ) (p : Script μ) (s : σ) :
    (p.push m).run act s = (act m s).andThen (p.run act) := by
  show (runAll act (m :: p.messages) s).andThen _ = _
  rw [runAll_cons]
  cases act m s <;> rfl

/-- **Nothing of the second script is taken unless the first one ends normally.** -/
theorem run_andThen (p q : Script μ) :
    (p.andThen q).run act = fun s => (p.run act s).andThen (q.run act) := by
  funext s
  obtain ⟨messages, ending⟩ := p
  cases ending with
  | none =>
      show (runAll act (messages ++ q.messages) s).andThen _ =
        ((runAll act messages s).andThen _).andThen _
      rw [runAll_append]
      cases runAll act messages s <;> rfl
  | some why =>
      show (runAll act messages s).andThen _ = ((runAll act messages s).andThen _).andThen _
      cases runAll act messages s <;> rfl

theorem run_map (f : δ → μ) (p : Script δ) :
    (p.map f).run act = p.run fun d => act (f d) := by
  funext s
  obtain ⟨messages, ending⟩ := p
  induction messages generalizing s with
  | nil => rfl
  | cons d messages ih =>
      show (map f (push d ⟨messages, ending⟩)).run act s = (push d ⟨messages, ending⟩).run _ s
      rw [run_push, show map f (push d ⟨messages, ending⟩) =
        push (f d) (map f ⟨messages, ending⟩) from rfl, run_push]
      congr 1
      funext s'
      exact ih s'

end Run

theorem ending_andThen_eq_none (p q : Script μ) :
    (p.andThen q).ending = none ↔ p.ending = none ∧ q.ending = none := by
  unfold andThen
  cases p.ending <;> simp

theorem messages_andThen {p : Script μ} (h : p.ending = none) (q : Script μ) :
    (p.andThen q).messages = p.messages ++ q.messages := by
  rw [andThen, h]

/-- What is taken of two scripts. -/
theorem messages_andThen_sublist (p q : Script μ) :
    (p.andThen q).messages.Sublist (p.messages ++ q.messages) := by
  unfold andThen
  split
  · exact List.Sublist.refl _
  · exact List.sublist_append_left _ _

/-! ## 2. Files of lines -/

section Lines

variable (decode : List String → Except Stop δ)

/-- What the lines of a file are for a reader. -/
def ofLines : List (List Char) → Script δ
  | [] => empty
  | line :: lines =>
      match decode (fields line) with
      | .error why => stop why
      | .ok d => (ofLines lines).push d

/-- What a file is; `missing` is what a reader does without one. -/
def ofFile (missing : Script δ) : Option String → Script δ
  | none => missing
  | some content => ofLines decode (dataLines content)

/-- The data lines of a file, none if it is not there. -/
def linesOf : Option String → List (List Char)
  | none => []
  | some content => dataLines content

variable {decode}

theorem ofLines_cons_ok {line : List Char} {d : δ} (h : decode (fields line) = .ok d)
    (lines : List (List Char)) :
    ofLines decode (line :: lines) = (ofLines decode lines).push d := by
  rw [ofLines, h]

theorem ofLines_cons_error {line : List Char} {why : Stop} (h : decode (fields line) = .error why)
    (lines : List (List Char)) : ofLines decode (line :: lines) = stop why := by
  rw [ofLines, h]

/-- **A reader of lines is the run of the script its lines are.** -/
theorem readLines_eq_script (act : δ → σ → Outcome σ) (lines : List (List Char)) (s : σ) :
    readLines decode act [] lines s = (ofLines decode lines).run act s := by
  induction lines generalizing s with
  | nil => rfl
  | cons line lines ih =>
      rw [readLines, List.nil_append]
      cases hd : decode (fields line) with
      | error why => rw [ofLines_cons_error hd, run_stop]
      | ok d =>
          rw [ofLines_cons_ok hd, run_push, ← funext ih]

/-- The whole file is read exactly when every line decodes. -/
theorem ending_ofLines (lines : List (List Char)) :
    (ofLines decode lines).ending = none ↔ ∀ line ∈ lines, ∃ d, decode (fields line) = .ok d := by
  induction lines with
  | nil => simp [ofLines, empty]
  | cons line lines ih =>
      rw [List.forall_mem_cons]
      cases hd : decode (fields line) with
      | error why =>
          rw [ofLines_cons_error hd]
          simp [stop]
      | ok d =>
          rw [ofLines_cons_ok hd]
          show (ofLines decode lines).ending = none ↔ _
          rw [ih]
          exact ⟨fun h => ⟨⟨d, rfl⟩, h⟩, And.right⟩

/-- A file that has to be there is read to its end exactly when it is, and its lines decode. -/
theorem ending_ofFile_stop (why : Stop) (file : Option String) :
    (ofFile decode (stop why) file).ending = none ↔
      ∃ content, file = some content ∧
        ∀ line ∈ dataLines content, ∃ d, decode (fields line) = .ok d := by
  cases file with
  | none => simp [ofFile, stop]
  | some content => simpa [ofFile] using ending_ofLines (dataLines content)

/-- One that may be missing, when its lines decode if it is there. -/
theorem ending_ofFile_empty (file : Option String) :
    (ofFile decode empty file).ending = none ↔
      ∀ content, file = some content →
        ∀ line ∈ dataLines content, ∃ d, decode (fields line) = .ok d := by
  cases file with
  | none => simp [ofFile, empty]
  | some content => simpa [ofFile] using ending_ofLines (dataLines content)

/-- Every message is what some line decodes to. -/
theorem mem_ofLines {lines : List (List Char)} {d : δ} (h : d ∈ (ofLines decode lines).messages) :
    ∃ line ∈ lines, decode (fields line) = .ok d := by
  induction lines with
  | nil => cases h
  | cons line lines ih =>
      cases hd : decode (fields line) with
      | error why =>
          rw [ofLines_cons_error hd] at h
          cases h
      | ok d' =>
          rw [ofLines_cons_ok hd] at h
          rcases List.mem_cons.mp h with rfl | h
          · exact ⟨line, List.mem_cons_self, hd⟩
          · obtain ⟨line', hline', hd'⟩ := ih h
            exact ⟨line', List.mem_cons_of_mem _ hline', hd'⟩

/-- So is every message of a file, if there is none without a file. -/
theorem mem_ofFile {missing : Script δ} (hmissing : missing.messages = []) {file : Option String}
    {d : δ} (h : d ∈ (ofFile decode missing file).messages) :
    ∃ record, decode record = .ok d := by
  cases file with
  | none =>
      rw [ofFile, hmissing] at h
      cases h
  | some content =>
      obtain ⟨line, -, hd⟩ := mem_ofLines h
      exact ⟨fields line, hd⟩

/-- On lines that all decode, what is known of each line's message is known of the messages. -/
theorem map_ofLines {κ : Type*} {f : List Char → κ} {g : δ → κ} {lines : List (List Char)}
    (h : (ofLines decode lines).ending = none)
    (hfg : ∀ line d, decode (fields line) = .ok d → g d = f line) :
    (ofLines decode lines).messages.map g = lines.map f := by
  induction lines with
  | nil => rfl
  | cons line lines ih =>
      cases hd : decode (fields line) with
      | error why =>
          rw [ofLines_cons_error hd] at h
          cases h
      | ok d =>
          rw [ofLines_cons_ok hd] at h ⊢
          show g d :: (ofLines decode lines).messages.map g = _
          rw [ih h, hfg line d hd]
          rfl

/-- A longer file has the messages of the shorter one, and maybe more. -/
theorem ofLines_mono {lines lines' : List (List Char)} (h : lines <+: lines') :
    (ofLines decode lines).messages <+: (ofLines decode lines').messages := by
  induction lines generalizing lines' with
  | nil => exact List.nil_prefix
  | cons line lines ih =>
      obtain ⟨rest, rfl⟩ := h
      rw [List.cons_append]
      cases hd : decode (fields line) with
      | error why =>
          rw [ofLines_cons_error hd]
          exact List.nil_prefix
      | ok d =>
          rw [ofLines_cons_ok hd, ofLines_cons_ok hd]
          exact List.cons_prefix_cons.mpr ⟨rfl, ih (List.prefix_append _ _)⟩

/-- The same of files. -/
theorem ofFile_mono {missing : Script δ} (hmissing : missing.messages = [])
    {file file' : Option String} (h : linesOf file <+: linesOf file') :
    (ofFile decode missing file).messages <+: (ofFile decode missing file').messages := by
  have hfile : ∀ file, (ofFile decode missing file).messages =
      (ofLines decode (linesOf file)).messages := by
    intro file
    cases file with
    | none => exact hmissing
    | some content => rfl
  rw [hfile, hfile]
  exact ofLines_mono h

/-- A file that is read to its end has as many messages as data lines. -/
theorem messages_ofFile_ne_nil {missing : Script δ} {file : Option String}
    (hending : (ofFile decode missing file).ending = none) (h : linesOf file ≠ []) :
    (ofFile decode missing file).messages ≠ [] := by
  cases file with
  | none => exact absurd rfl h
  | some content =>
      intro hnil
      have hlines := map_ofLines (f := fun _ => ()) (g := fun _ => ()) hending fun _ _ _ => rfl
      rw [show (ofLines decode (dataLines content)).messages = [] from hnil] at hlines
      exact h (List.map_eq_nil_iff.mp hlines.symm)

end Lines

end Script

/-! ## 3. Up to the first refusal -/

section UpTo

variable {μ : Type u} {σ : Type w} {step : μ → σ → Outcome σ} (Refused : List μ → μ → Prop)
  [∀ pre m, Decidable (Refused pre m)]

/-- The messages in front of the first one that is refused, `pre` lying behind. -/
def upTo : List μ → List μ → List μ
  | _, [] => []
  | pre, m :: ms => if Refused pre m then [] else m :: upTo (pre ++ [m]) ms

variable {Refused}

theorem upTo_isPrefix (pre ms : List μ) : upTo Refused pre ms <+: ms := by
  induction ms generalizing pre with
  | nil => exact List.prefix_rfl
  | cons m ms ih =>
      rw [upTo]
      split_ifs with hm
      · exact List.nil_prefix
      · exact List.cons_prefix_cons.mpr ⟨rfl, ih _⟩

/-- What lies in front of messages that are all taken is taken before them. -/
theorem upTo_append {pre as : List μ} (h : upTo Refused pre as = as) (bs : List μ) :
    upTo Refused pre (as ++ bs) = as ++ upTo Refused (pre ++ as) bs := by
  induction as generalizing pre with
  | nil => rw [List.append_nil, List.nil_append, List.nil_append]
  | cons a as ih =>
      rw [upTo] at h
      split_ifs at h with ha
      rw [List.cons_append, upTo, if_neg ha, ih (List.cons.inj h).2, List.append_assoc]
      rfl

variable (Refused) in
/-- **A machine that stops exactly at what it refuses**: the messages up to there get through, and the
    whole run is theirs, but for what the refused one leaves behind (`R`). `J` says how the state hangs
    together with the messages taken. -/
theorem runAll_upTo {J : List μ → σ → Prop} {R : σ → Stop → σ → Prop} (ms : List μ) {s : σ}
    (h0 : J [] s)
    (hgoes : ∀ pre m s, m ∈ ms → J pre s → ¬ Refused pre m →
      ∃ s', step m s = .done s' ∧ J (pre ++ [m]) s')
    (hstops : ∀ pre m s, m ∈ ms → J pre s → Refused pre m →
      ∃ why s', step m s = .stopped why s' ∧ R s why s') :
    ∃ s₁, runAll step (upTo Refused [] ms) s = .done s₁ ∧ J (upTo Refused [] ms) s₁ ∧
      ((upTo Refused [] ms = ms ∧ runAll step ms s = .done s₁) ∨
        (upTo Refused [] ms ≠ ms ∧ ∃ why s', runAll step ms s = .stopped why s' ∧ R s₁ why s')) := by
  suffices h : ∀ ms' pre s, (∀ m ∈ ms', m ∈ ms) → J pre s →
      ∃ s₁, runAll step (upTo Refused pre ms') s = .done s₁ ∧ J (pre ++ upTo Refused pre ms') s₁ ∧
        ((upTo Refused pre ms' = ms' ∧ runAll step ms' s = .done s₁) ∨
          (upTo Refused pre ms' ≠ ms' ∧
            ∃ why s', runAll step ms' s = .stopped why s' ∧ R s₁ why s')) by
    exact h ms [] s (fun _ hm => hm) h0
  intro ms'
  induction ms' with
  | nil =>
      intro pre s _ hJ
      refine ⟨s, rfl, ?_, Or.inl ⟨rfl, rfl⟩⟩
      rw [upTo, List.append_nil]
      exact hJ
  | cons m ms' ih =>
      intro pre s hmem hJ
      have hm := hmem m List.mem_cons_self
      by_cases hrefused : Refused pre m
      · obtain ⟨why, s', hs', hR⟩ := hstops pre m s hm hJ hrefused
        rw [upTo, if_pos hrefused]
        refine ⟨s, rfl, ?_, Or.inr ⟨(List.cons_ne_nil m ms').symm, why, s', ?_, hR⟩⟩
        · rw [List.append_nil]
          exact hJ
        · rw [runAll_cons, hs']
          rfl
      · obtain ⟨s₁, hs₁, hJ₁⟩ := hgoes pre m s hm hJ hrefused
        obtain ⟨s₂, hs₂, hJ₂, hend⟩ := ih (pre ++ [m]) s₁
          (fun m' hm' => hmem m' (List.mem_cons_of_mem _ hm')) hJ₁
        have hrun : ∀ ms, runAll step (m :: ms) s = runAll step ms s₁ := fun ms => by
          rw [runAll_cons, hs₁]
          rfl
        rw [upTo, if_neg hrefused, hrun, hrun]
        refine ⟨s₂, hs₂, ?_, ?_⟩
        · rw [List.append_assoc] at hJ₂
          exact hJ₂
        · rcases hend with ⟨hall, hend⟩ | ⟨hnot, hend⟩
          · exact Or.inl ⟨congrArg (List.cons m) hall, hend⟩
          · exact Or.inr ⟨fun e => hnot (List.cons.inj e).2, hend⟩

end UpTo

end Cxx
