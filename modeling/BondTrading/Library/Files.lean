/-
  File:      BondTrading/Library/Files.lean
  Subject:   OUTPUT FILES WRITTEN THROUGH `std::ofstream`, and numbered logs.

  Names nothing of the modelled program. `φ` names files, `α` is what is written at one go.

  * `Output` -- a stream and the disk it writes to; `close`, `openFile`, `write`;
  * `persist` -- one record of a numbered log: the record with the number 1 points the stream at the
    log's own file and writes a header first;
  * `persist_first`, `persist_later` -- all a record can do;
  * `Logged` -- what a log that has its stream to itself looks like after any records;
  * `Shared` -- several logs over ONE stream; `SharedInv`: after any records the logs are all right
    or one has lost a record; `SharedInv.grouped_iff`: they are right exactly when the records of
    each come one after the other.

  The error flag of a stream is kept: closing a stream that is not open sets it, opening clears
  it. A file can always be opened.
-/
import BondTrading.Library.Parts

namespace Cxx

universe u v w

/-! ## 1. Streams -/

/-- A `std::ofstream`: the file it is open on, and whether an operation on it has failed. -/
structure Ofstream (φ : Type u) where
  target : Option φ
  failed : Bool
  deriving DecidableEq, Repr

/-- A stream and the disk: the content of every file that exists. -/
structure Output (φ : Type u) (α : Type v) where
  stream : Ofstream φ
  disk : φ → Option (List α)

/-- A stream that was declared and not opened. -/
def Ofstream.fresh {φ : Type u} : Ofstream φ := ⟨none, false⟩

namespace Output

variable {φ : Type u} {α : Type v}

def close (out : Output φ α) : Output φ α :=
  match out.stream.target with
  | some _ => { out with stream := ⟨none, out.stream.failed⟩ }
  | none => { out with stream := ⟨none, true⟩ }

variable [DecidableEq φ]

/-- `open(file)`: what the file held is gone. An open stream cannot be opened again. -/
def openFile (file : φ) (out : Output φ α) : Output φ α :=
  match out.stream.target with
  | some f => { out with stream := ⟨some f, true⟩ }
  | none => ⟨⟨some file, false⟩, Function.update out.disk file (some [])⟩

def write (items : List α) (out : Output φ α) : Output φ α :=
  match out.stream with
  | ⟨some f, false⟩ =>
      { out with
        disk := Function.update out.disk f ((out.disk f).map fun content => content ++ items) }
  | ⟨target, _⟩ => { out with stream := ⟨target, true⟩ }

/-- The stream is on the file, which has the content; the other files are as they were. -/
def wrote (file : φ) (content : Option (List α)) (out : Output φ α) : Output φ α :=
  ⟨⟨some file, false⟩, Function.update out.disk file content⟩

@[simp] theorem wrote_self (file : φ) (content : Option (List α)) (out : Output φ α) :
    (out.wrote file content).disk file = content := Function.update_self _ _ _

theorem wrote_other {file other : φ} (h : other ≠ file) (content : Option (List α))
    (out : Output φ α) : (out.wrote file content).disk other = out.disk other :=
  Function.update_of_ne h _ _

/-- A stream that was closed and opened again is on that file. -/
theorem openFile_close (file : φ) (out : Output φ α) :
    out.close.openFile file = ⟨⟨some file, false⟩, Function.update out.disk file (some [])⟩ := by
  unfold openFile close
  cases out.stream.target <;> rfl

theorem write_open (f : φ) (disk : φ → Option (List α)) (items : List α) :
    write items ⟨⟨some f, false⟩, disk⟩ = ⟨⟨some f, false⟩, Function.update disk f
      ((disk f).map fun content => content ++ items)⟩ := rfl

/-- Writing two things is writing them as one. -/
theorem write_write (items more : List α) (out : Output φ α) :
    (out.write items).write more = out.write (items ++ more) := by
  obtain ⟨⟨target, failed⟩, disk⟩ := out
  cases target with
  | none => rfl
  | some f =>
      cases failed with
      | true => rfl
      | false =>
          rw [write_open, write_open, write_open, Function.update_idem, Function.update_self,
            Option.map_map]
          simp [Function.comp_def]

end Output

/-! ## 2. A numbered log -/

section Persist

variable {φ : Type u} {α : Type v}

/-- The records of a log, with their numbers. -/
def numbered (rows : List (Int → List α)) : List α :=
  (rows.zipIdx 1).flatMap fun entry => entry.1 entry.2

theorem numbered_concat (rows : List (Int → List α)) (row : Int → List α) :
    numbered (rows ++ [row]) = numbered rows ++ row (rows.length + 1) := by
  unfold numbered
  rw [List.zipIdx_append, List.flatMap_append]
  simp [Int.add_comm]

/-- A longer log goes on where the shorter one ends. -/
theorem numbered_mono {rows rows' : List (Int → List α)} (h : rows <+: rows') :
    numbered rows <+: numbered rows' := by
  obtain ⟨rest, rfl⟩ := h
  unfold numbered
  rw [List.zipIdx_append, List.flatMap_append]
  exact List.prefix_append _ _

/-- **Two logs of a function of the messages are the same** exactly when all their records are, if these
    are of the same lengths. -/
theorem numbered_along_iff {μ : Type*} {f g : List μ → μ → Int → List α}
    (hlen : ∀ pre m k, (f pre m k).length = (g pre m k).length) (ms : List μ) :
    numbered (along (fun pre m => [f pre m]) [] ms) =
        numbered (along (fun pre m => [g pre m]) [] ms) ↔
      ∀ pre m, pre ++ [m] <+: ms → f pre m (pre.length + 1) = g pre m (pre.length + 1) := by
  have hlength : ∀ ms, (numbered (along (fun pre m => [f pre m]) [] ms)).length =
      (numbered (along (fun pre m => [g pre m]) [] ms)).length := by
    intro ms
    induction ms using List.reverseRecOn with
    | nil => rfl
    | append_singleton ms m ih =>
        rw [along_concat, along_concat, numbered_concat, numbered_concat, List.length_append,
          List.length_append, ih, length_along, length_along, hlen]
  induction ms using List.reverseRecOn with
  | nil => exact iff_of_true rfl forall_along_nil
  | append_singleton ms m ih =>
      rw [forall_along_concat, along_concat, along_concat, numbered_concat, numbered_concat,
        length_along, length_along, List.nil_append]
      refine Iff.trans ?_ (and_congr_left fun _ => ih)
      constructor
      · intro h
        exact List.append_inj h (hlength ms)
      · rintro ⟨h, hlast⟩
        rw [h, hlast]

/-- **A log after the given records**, the stream being its own. -/
structure Logged (file : φ) (header : List α) (rows : List (Int → List α)) (num : Int)
    (out : Output φ α) : Prop where
  counter : num = int32 (rows.length + 1)
  stream : rows ≠ [] → out.stream = ⟨some file, false⟩
  disk : rows ≠ [] → out.disk file = some (header ++ numbered rows)

variable [DecidableEq φ]

/-- One record of a log: the next number, and what is written. -/
def persist (file : φ) (header : List α) (row : Int → List α) (num : Int) (out : Output φ α) :
    Int × Output φ α :=
  (int32 (num + 1),
    (if num = 1 then (out.close.openFile file).write header else out).write (row num))

/-- **The first record** starts the log's own file. -/
theorem persist_first (file : φ) (header : List α) (row : Int → List α) (out : Output φ α) :
    persist file header row 1 out =
      (2, ⟨⟨some file, false⟩, Function.update out.disk file (some (header ++ row 1))⟩) := by
  unfold persist
  rw [if_pos rfl, Output.openFile_close, Output.write_open, Output.write_open,
    Function.update_idem, Function.update_idem, Function.update_self, Function.update_self]
  rfl

/-- **A later record** goes wherever the stream is. -/
theorem persist_later (file : φ) (header : List α) (row : Int → List α) {num : Int} (h : num ≠ 1)
    (f : φ) (disk : φ → Option (List α)) :
    persist file header row num ⟨⟨some f, false⟩, disk⟩ =
      (int32 (num + 1), ⟨⟨some f, false⟩, Function.update disk f
        ((disk f).map fun content => content ++ row num)⟩) := by
  unfold persist
  rw [if_neg h, Output.write_open]

/-- A file that is neither the log's own nor the one the stream is on is left alone, and the stream
    does not get to it. -/
theorem persist_frame {file g : φ} (out : Output φ α) (hfile : file ≠ g)
    (hstream : out.stream.target ≠ some g) (header : List α) (row : Int → List α) (num : Int) :
    (persist file header row num out).2.stream.target ≠ some g ∧
      (persist file header row num out).2.disk g = out.disk g := by
  by_cases h : num = 1
  · subst h
    rw [persist_first]
    exact ⟨fun e => hfile (Option.some.inj e), Function.update_of_ne (Ne.symm hfile) _ _⟩
  · obtain ⟨⟨target, failed⟩, disk⟩ := out
    unfold persist
    rw [if_neg h]
    cases target with
    | none => exact ⟨hstream, rfl⟩
    | some f =>
        cases failed with
        | true => exact ⟨hstream, rfl⟩
        | false =>
            refine ⟨hstream, Function.update_of_ne (fun e => hstream ?_) _ _⟩
            rw [e]

/-- Behind a record the stream is on the log's file, or where it was. -/
theorem persist_target (file : φ) (header : List α) (row : Int → List α) (num : Int)
    (out : Output φ α) : (persist file header row num out).2.stream.target = some file ∨
      (persist file header row num out).2.stream.target = out.stream.target := by
  by_cases h : num = 1
  · subst h
    rw [persist_first]
    exact Or.inl rfl
  · obtain ⟨⟨target, failed⟩, disk⟩ := out
    unfold persist
    rw [if_neg h]
    cases target <;> cases failed <;> exact Or.inr rfl

/-- What a record does to the log's own file, and to a stream that keeps to it, does not depend on
    the other files. -/
theorem persist_own (file : φ) {out out' : Output φ α} (hstream : out.stream = out'.stream)
    (htarget : out.stream.target = none ∨ out.stream.target = some file)
    (hdisk : out.disk file = out'.disk file) (header : List α) (row : Int → List α) (num : Int) :
    (persist file header row num out).2.stream = (persist file header row num out').2.stream ∧
      (persist file header row num out).2.disk file =
        (persist file header row num out').2.disk file := by
  by_cases h : num = 1
  · subst h
    rw [persist_first, persist_first]
    refine ⟨rfl, ?_⟩
    show Function.update _ _ _ _ = Function.update _ _ _ _
    rw [Function.update_self, Function.update_self]
  · obtain ⟨⟨target, failed⟩, disk⟩ := out
    obtain ⟨stream', disk'⟩ := out'
    dsimp only at hstream htarget hdisk
    subst hstream
    unfold persist
    rw [if_neg h, if_neg h]
    rcases htarget with rfl | rfl
    · exact ⟨rfl, hdisk⟩
    · cases failed with
      | true => exact ⟨rfl, hdisk⟩
      | false =>
          refine ⟨rfl, ?_⟩
          show Function.update _ _ _ _ = Function.update _ _ _ _
          rw [Function.update_self, Function.update_self]
          exact congrArg (Option.map fun content => content ++ row num) hdisk

/-- A record for other files does not see what is in the file `g`. -/
theorem persist_update {file g : φ} (hfile : file ≠ g) (stream : Ofstream φ)
    (hstream : stream.target ≠ some g) (disk : φ → Option (List α)) (content : Option (List α))
    (header : List α) (row : Int → List α) (num : Int) :
    persist file header row num ⟨stream, Function.update disk g content⟩ =
      ((persist file header row num ⟨stream, disk⟩).1,
        ⟨(persist file header row num ⟨stream, disk⟩).2.stream,
          Function.update (persist file header row num ⟨stream, disk⟩).2.disk g content⟩) := by
  by_cases h : num = 1
  · subst h
    rw [persist_first, persist_first, Function.update_comm hfile]
  · obtain ⟨target, failed⟩ := stream
    unfold persist
    rw [if_neg h, if_neg h]
    cases target with
    | none => rfl
    | some f =>
        have hfg : f ≠ g := fun e => hstream (congrArg some e)
        cases failed with
        | true => rfl
        | false =>
            rw [Output.write_open, Output.write_open, Function.update_of_ne hfg,
              Function.update_comm hfg]

/-- **One record more**: it stands at the end of the log's file, and no other file is touched. -/
theorem logged_persist {file : φ} {header : List α} {rows : List (Int → List α)} {num : Int}
    {out : Output φ α} (h : Logged file header rows num out)
    (hlen : rows.length + 1 < 2147483648) (row : Int → List α) :
    Logged file header (rows ++ [row]) (persist file header row num out).1
        (persist file header row num out).2 ∧
      ∀ other, other ≠ file → (persist file header row num out).2.disk other = out.disk other := by
  have hnext : int32 (num + 1) = int32 ((rows ++ [row]).length + 1) := by
    rw [h.counter, int32_add, List.length_append]
    rfl
  by_cases hrows : rows = []
  · subst hrows
    obtain rfl : num = 1 := h.counter.trans (by rw [List.length_nil]; decide)
    rw [persist_first]
    refine ⟨⟨hnext, fun _ => rfl, fun _ => ?_⟩, fun other hne => Function.update_of_ne hne _ _⟩
    show Function.update _ _ _ _ = _
    rw [Function.update_self, numbered_concat]
    rfl
  · have hnum : num = (rows.length : Int) + 1 := h.counter.trans (int32_eq (by omega) (by omega))
    have hpos : 0 < rows.length := List.length_pos_iff.mpr hrows
    have hne : num ≠ 1 := by omega
    have hout : out = ⟨⟨some file, false⟩, out.disk⟩ := by rw [← h.stream hrows]
    rw [hout, persist_later _ _ _ hne]
    refine ⟨⟨hnext, fun _ => rfl, fun _ => ?_⟩, fun other hne => Function.update_of_ne hne _ _⟩
    show Function.update _ _ _ _ = _
    rw [Function.update_self, h.disk hrows, numbered_concat, Option.map_some, hnum,
      List.append_assoc]

end Persist

/-! ## 3. Several logs over one stream -/

/-- No tag comes back after another one. -/
def Grouped {τ : Type w} (tags : List τ) : Prop := ∀ t u, [t, u, t].Sublist tags → u = t

theorem grouped_nil {τ : Type w} : Grouped ([] : List τ) := fun _ _ h => by cases h

/-- One tag more: it is new, or it goes on with the last one. -/
theorem grouped_concat {τ : Type w} {tags : List τ} {t : τ} :
    Grouped (tags ++ [t]) ↔ Grouped tags ∧ (t ∈ tags → tags.getLast? = some t) := by
  constructor
  · intro h
    refine ⟨fun a b hab => h a b (hab.trans (List.sublist_append_left _ _)), fun ht => ?_⟩
    obtain ⟨u, hu⟩ := Option.ne_none_iff_exists'.mp
      (mt List.getLast?_eq_none_iff.mp (List.ne_nil_of_mem ht))
    obtain ⟨init, rfl⟩ := List.getLast?_eq_some_iff.mp hu
    rcases List.mem_append.mp ht with hinit | hlast
    · -- `t`, then `u`, then `t` again
      have hsub : ([t] ++ [u] ++ [t]).Sublist (init ++ [u] ++ [t]) :=
        ((List.singleton_sublist.mpr hinit).append_right [u]).append_right [t]
      rw [hu, h t u hsub]
    · rw [hu, List.mem_singleton.mp hlast]
  · intro h a b hab
    obtain ⟨hg, hlast⟩ := h
    obtain ⟨l₁, l₂, he, h₁, h₂⟩ := List.sublist_append_iff.mp hab
    rcases List.sublist_singleton.mp h₂ with rfl | rfl
    · rw [List.append_nil] at he
      exact hg a b (he ▸ h₁)
    · obtain ⟨rfl, rfl⟩ : l₁ = [a, b] ∧ t = a := by
        have h' : [a, b] ++ [a] = l₁ ++ [t] := he
        exact ⟨(List.append_inj_left' h' rfl).symm,
          (List.singleton_inj.mp (List.append_inj_right' h' rfl)).symm⟩
      obtain ⟨init, rfl⟩ := List.getLast?_eq_some_iff.mp
        (hlast (h₁.subset List.mem_cons_self))
      by_contra hne
      -- `b` is not the last tag, so the last one comes back after it
      obtain ⟨m₁, m₂, hm, hm₁, hm₂⟩ := List.sublist_append_iff.mp h₁
      rcases List.sublist_singleton.mp hm₂ with rfl | rfl
      · rw [List.append_nil] at hm
        exact hne (hg t b ((hm ▸ hm₁).append_right [t]))
      · have h' : [t] ++ [b] = m₁ ++ [t] := hm
        exact hne (List.singleton_inj.mp (List.append_inj_right' h' rfl))

/-- One tag alone is grouped. -/
theorem grouped_const {τ : Type w} {tags : List τ} {k : τ} (h : ∀ t ∈ tags, t = k) :
    Grouped tags := fun t u hsub =>
  (h u (hsub.subset (by simp))).trans (h t (hsub.subset (by simp))).symm

/-- Tags in order are grouped. -/
theorem grouped_of_pairwise {τ : Type w} {r : τ → τ → Prop} (hanti : ∀ a b, r a b → r b a → a = b)
    {tags : List τ} (h : tags.Pairwise r) : Grouped tags := by
  intro t u hsub
  obtain ⟨ht, hu, -⟩ : (∀ a ∈ [u, t], r t a) ∧ (∀ a ∈ [t], r u a) ∧ _ := by
    simpa only [List.pairwise_cons] using h.sublist hsub
  exact hanti u t (hu t List.mem_cons_self) (ht u List.mem_cons_self)

/-- Tags that are told apart are grouped under any names. -/
theorem grouped_map {τ τ' : Type*} {f : τ → τ'} (hf : Function.Injective f) {tags : List τ} :
    Grouped (tags.map f) ↔ Grouped tags := by
  constructor
  · exact fun h t u hsub => hf (h (f t) (f u) (hsub.map f))
  · intro h t u hsub
    obtain ⟨l, hl, he⟩ := List.sublist_map_iff.mp hsub
    obtain ⟨a, b, c, rfl⟩ : ∃ a b c, l = [a, b, c] := by
      rw [← List.length_eq_three, ← List.length_map f, ← he]
      rfl
    injection he with ha he
    injection he with hb he
    injection he with hc _
    obtain rfl : a = c := hf (ha.symm.trans hc)
    rw [ha, hb, h a b hl]

/-- The counter of every log, and the one stream. -/
structure Shared (τ : Type w) (φ : Type u) (α : Type v) where
  num : τ → Int
  out : Output φ α

section Shared

variable {τ : Type w} {φ : Type u} {α : Type v} {μ : Type*} [DecidableEq τ]
  (file : τ → φ) (header : τ → List α) (tag : μ → τ) (row : μ → Int → List α)

/-- The records of one log. -/
def recordsOf (t : τ) (ms : List μ) : List (Int → List α) := (ms.filter fun m => tag m = t).map row

/-- What the file of a log should hold. -/
def owed (t : τ) (ms : List μ) : List α := header t ++ numbered (recordsOf tag row t ms)

theorem recordsOf_concat (t : τ) (ms : List μ) (m : μ) :
    recordsOf tag row t (ms ++ [m]) =
      recordsOf tag row t ms ++ if tag m = t then [row m] else [] := by
  unfold recordsOf
  rw [List.filter_append, List.map_append]
  by_cases h : tag m = t <;> simp [h]

/-- The records of a log are those of its own messages. -/
theorem recordsOf_filter (t : τ) (ms : List μ) :
    recordsOf tag row t (ms.filter fun m => tag m = t) = recordsOf tag row t ms := by
  simp [recordsOf, List.filter_filter]

theorem recordsOf_eq_nil {t : τ} {ms : List μ} : recordsOf tag row t ms = [] ↔ t ∉ ms.map tag := by
  simp [recordsOf, List.filter_eq_nil_iff]

/-- What is owed grows by the record, at the log's next number. -/
theorem owed_concat_self (ms : List μ) (m : μ) :
    owed header tag row (tag m) (ms ++ [m]) =
      owed header tag row (tag m) ms ++ row m ((recordsOf tag row (tag m) ms).length + 1) := by
  unfold owed
  rw [recordsOf_concat, if_pos rfl, numbered_concat, List.append_assoc]

theorem owed_concat_other {t : τ} (ms : List μ) {m : μ} (h : tag m ≠ t) :
    owed header tag row t (ms ++ [m]) = owed header tag row t ms := by
  unfold owed
  rw [recordsOf_concat, if_neg h, List.append_nil]

/-- **The logs are right so far**: the tags are grouped, the stream is on the log of the last one,
    and every file holds what it should. -/
structure AllRight (ms : List μ) (out : Output φ α) : Prop where
  grouped : Grouped (ms.map tag)
  stream : ∀ t, (ms.map tag).getLast? = some t → out.stream = ⟨some (file t), false⟩
  disk : ∀ t ∈ ms.map tag, out.disk (file t) = some (owed header tag row t ms)

/-- **A record has gone astray**: some log has lost one, and the stream will not come back to its
    file. -/
structure OneShort (ms : List μ) (out : Output φ α) : Prop where
  mixed : ¬ Grouped (ms.map tag)
  short : ∃ t u content, t ∈ ms.map tag ∧ u ∈ ms.map tag ∧ u ≠ t ∧
    out.stream = ⟨some (file u), false⟩ ∧ out.disk (file t) = some content ∧
    content.length < (owed header tag row t ms).length

/-- **The invariant of several logs over one stream**, from a disk `disk₀`. -/
structure SharedInv (disk₀ : φ → Option (List α)) (ms : List μ) (s : Shared τ φ α) : Prop where
  counter : ∀ t, s.num t = int32 ((recordsOf tag row t ms).length + 1)
  untouched : ∀ f, (∀ t ∈ ms.map tag, file t ≠ f) → s.out.disk f = disk₀ f
  outcome : AllRight file header tag row ms s.out ∨ OneShort file header tag row ms s.out

variable {file header tag row}

/-- A log that has had a record has the stream on the file of some such log. -/
theorem SharedInv.stream {disk₀ : φ → Option (List α)} {ms : List μ} {s : Shared τ φ α}
    (h : SharedInv file header tag row disk₀ ms s) (hne : ms ≠ []) :
    ∃ u ∈ ms.map tag, s.out.stream = ⟨some (file u), false⟩ := by
  rcases h.outcome with hright | ⟨-, -, u, -, -, hu, -, hstream, -⟩
  · obtain ⟨u, hu⟩ := Option.ne_none_iff_exists'.mp
      (mt List.getLast?_eq_none_iff.mp (mt List.map_eq_nil_iff.mp hne))
    exact ⟨u, List.mem_of_getLast? hu, hright.stream u hu⟩
  · exact ⟨u, hu, hstream⟩

/-- The counter of a log that has had a record is past 1. -/
theorem SharedInv.counter_ne_one {disk₀ : φ → Option (List α)} {ms : List μ} {s : Shared τ φ α}
    (h : SharedInv file header tag row disk₀ ms s) (hlen : ms.length < 4294967296) {t : τ}
    (ht : t ∈ ms.map tag) : s.num t ≠ 1 := by
  have hpos : 0 < (recordsOf tag row t ms).length :=
    List.length_pos_iff.mpr fun he => (recordsOf_eq_nil tag row).mp he ht
  have hle : (recordsOf tag row t ms).length ≤ ms.length := by
    rw [recordsOf, List.length_map]
    exact List.length_filter_le _ _
  rw [h.counter t]
  exact int32_ne_one (by omega) (by omega)

/-- **The logs that have had records are all right exactly when the records are grouped.** -/
theorem SharedInv.grouped_iff {disk₀ : φ → Option (List α)} {ms : List μ}
    {s : Shared τ φ α} (h : SharedInv file header tag row disk₀ ms s) :
    (∀ t ∈ ms.map tag, s.out.disk (file t) = some (owed header tag row t ms)) ↔
      Grouped (ms.map tag) := by
  rcases h.outcome with hright | ⟨hmixed, t, u, content, ht, -, -, -, hcontent, hshort⟩
  · exact ⟨fun _ => hright.grouped, fun _ => hright.disk⟩
  · refine ⟨fun hall => ?_, fun hg => absurd hg hmixed⟩
    rw [hall t ht] at hcontent
    rw [Option.some.inj hcontent] at hshort
    omega

/-- Of some logs, among them those that have had records, all are right exactly when, besides, the
    file of every one without a record already held its header alone. -/
theorem SharedInv.all_iff {disk₀ : φ → Option (List α)} {ms : List μ} {s : Shared τ φ α}
    (h : SharedInv file header tag row disk₀ ms s) (hfile : Function.Injective file)
    {logs : List τ} (hlogs : ∀ t ∈ ms.map tag, t ∈ logs) :
    (∀ t ∈ logs, s.out.disk (file t) = some (owed header tag row t ms)) ↔
      Grouped (ms.map tag) ∧
        ∀ t ∈ logs, t ∉ ms.map tag → disk₀ (file t) = some (header t) := by
  have hnone : ∀ t, t ∉ ms.map tag → (s.out.disk (file t) = some (owed header tag row t ms) ↔
      disk₀ (file t) = some (header t)) := by
    intro t ht
    have howed : owed header tag row t ms = header t := by
      rw [owed, (recordsOf_eq_nil tag row).mpr ht]
      simp [numbered]
    rw [howed, h.untouched (file t) fun u hu e => ht (hfile e ▸ hu)]
  constructor
  · exact fun hall => ⟨h.grouped_iff.mp fun t ht => hall t (hlogs t ht),
      fun t hin ht => (hnone t ht).mp (hall t hin)⟩
  · intro hright t hin
    obtain ⟨hg, hheader⟩ := hright
    by_cases ht : t ∈ ms.map tag
    · exact h.grouped_iff.mpr hg t ht
    · exact (hnone t ht).mpr (hheader t hin ht)

variable [DecidableEq φ]

variable (file header tag row) in
/-- A record for the log its tag names. -/
def Shared.record (s : Shared τ φ α) (m : μ) : Shared τ φ α :=
  let result := persist (file (tag m)) (header (tag m)) (row m) (s.num (tag m)) s.out
  ⟨Function.update s.num (tag m) result.1, result.2⟩

/-- Nothing is taken off what is owed. -/
theorem length_owed_concat (t : τ) (ms : List μ) (m : μ) :
    (owed header tag row t ms).length ≤ (owed header tag row t (ms ++ [m])).length := by
  by_cases ht : tag m = t
  · subst ht
    rw [owed_concat_self, List.length_append]
    omega
  · exact Nat.le_of_eq (congrArg List.length (owed_concat_other header tag row ms ht).symm)

section Outcomes

variable {ms : List μ} {out : Output φ α} {m : μ} (hfile : Function.Injective file)

include hfile

/-- A record behind the last one of its own log, or the first one of its log, keeps the logs
    right. -/
theorem AllRight.concat (h : AllRight file header tag row ms out)
    (hlast : tag m ∈ ms.map tag → (ms.map tag).getLast? = some (tag m)) :
    AllRight file header tag row (ms ++ [m])
      (out.wrote (file (tag m)) (some (owed header tag row (tag m) (ms ++ [m])))) where
  grouped := by
    rw [List.map_append, List.map_singleton]
    exact grouped_concat.mpr ⟨h.grouped, hlast⟩
  stream t ht := by
    rw [List.map_append, List.map_singleton, List.getLast?_concat] at ht
    rw [← Option.some.inj ht]
    rfl
  disk t ht := by
    rw [List.map_append, List.map_singleton] at ht
    by_cases htm : t = tag m
    · rw [htm]
      exact Output.wrote_self _ _ _
    · rw [Output.wrote_other fun e => htm (hfile e), owed_concat_other _ _ _ _ (Ne.symm htm)]
      rcases List.mem_append.mp ht with ht | ht
      · exact h.disk t ht
      · exact absurd (List.mem_singleton.mp ht) htm

/-- A record that goes to the file of another log is missing in its own. -/
theorem AllRight.astray (h : AllRight file header tag row ms out) (hrow : ∀ m k, row m k ≠ [])
    (hold : tag m ∈ ms.map tag) {u : τ} (hu : u ∈ ms.map tag)
    (hstream : out.stream = ⟨some (file u), false⟩) (hum : u ≠ tag m)
    (content : Option (List α)) :
    OneShort file header tag row (ms ++ [m]) (out.wrote (file u) content) where
  mixed hg := by
    rw [List.map_append, List.map_singleton, grouped_concat] at hg
    have hsame := (h.stream _ (hg.2 hold)).symm.trans hstream
    exact hum (hfile (Option.some.inj (Ofstream.mk.inj hsame).1)).symm
  short := by
    refine ⟨tag m, u, owed header tag row (tag m) ms, ?_, ?_, hum, rfl, ?_, ?_⟩
    · rw [List.map_append]
      exact List.mem_append_left _ hold
    · rw [List.map_append]
      exact List.mem_append_left _ hu
    · rw [Output.wrote_other fun e => hum (hfile e).symm]
      exact h.disk _ hold
    · have hpos := List.length_pos_iff.mpr (hrow m ((recordsOf tag row (tag m) ms).length + 1))
      rw [owed_concat_self, List.length_append]
      omega

/-- A log that has lost a record stays short: the next one goes where the stream is, or to a file
    that is new. -/
theorem OneShort.concat (h : OneShort file header tag row ms out) {v : τ}
    (hv : v ∈ (ms ++ [m]).map tag)
    (hstream : v ∈ ms.map tag → out.stream = ⟨some (file v), false⟩)
    (content : Option (List α)) :
    OneShort file header tag row (ms ++ [m]) (out.wrote (file v) content) where
  mixed hg := by
    rw [List.map_append, List.map_singleton, grouped_concat] at hg
    exact h.mixed hg.1
  short := by
    obtain ⟨t, u, before, ht, -, hne, hon, hbefore, hlt⟩ := h.short
    have hvt : v ≠ t := by
      intro e
      have hsame := hon.symm.trans (hstream (e ▸ ht))
      have huv : u = v := hfile (Option.some.inj (Ofstream.mk.inj hsame).1)
      exact hne (huv.trans e)
    refine ⟨t, v, before, ?_, hv, hvt, rfl, ?_, ?_⟩
    · rw [List.map_append]
      exact List.mem_append_left _ ht
    · rw [Output.wrote_other fun e => hvt (hfile e).symm]
      exact hbefore
    · exact Nat.lt_of_lt_of_le hlt (length_owed_concat t ms m)

end Outcomes

section Step

variable {disk₀ : φ → Option (List α)} {ms : List μ} {s : Shared τ φ α}
  (h : SharedInv file header tag row disk₀ ms s) {m : μ}

include h

/-- A record of a new log opens its file. -/
theorem SharedInv.record_new (hnew : tag m ∉ ms.map tag) :
    (s.record file header tag row m).out =
      s.out.wrote (file (tag m)) (some (owed header tag row (tag m) (ms ++ [m]))) := by
  have hnil : recordsOf tag row (tag m) ms = [] := (recordsOf_eq_nil tag row).mpr hnew
  have hnum : s.num (tag m) = 1 := by
    rw [h.counter, hnil, List.length_nil]
    decide
  have howed : owed header tag row (tag m) (ms ++ [m]) = header (tag m) ++ row m 1 := by
    rw [owed_concat_self, owed, hnil]
    simp [numbered]
  rw [howed]
  show (persist _ _ _ (s.num (tag m)) _).2 = _
  rw [hnum, persist_first]
  rfl

/-- A record of a log that has had one goes where the stream is. -/
theorem SharedInv.record_old (hlen : ms.length + 1 < 2147483648) (hold : tag m ∈ ms.map tag) {u : τ}
    (hu : s.out.stream = ⟨some (file u), false⟩) :
    (s.record file header tag row m).out =
      s.out.wrote (file u) ((s.out.disk (file u)).map fun content =>
        content ++ row m ((recordsOf tag row (tag m) ms).length + 1)) := by
  have hle : (recordsOf tag row (tag m) ms).length ≤ ms.length := by
    rw [recordsOf, List.length_map]
    exact List.length_filter_le _ _
  have hnum : s.num (tag m) = ((recordsOf tag row (tag m) ms).length : Int) + 1 := by
    rw [h.counter, int32_eq (by omega) (by omega)]
  have hout : s.out = ⟨⟨some (file u), false⟩, s.out.disk⟩ := by rw [← hu]
  show (persist _ _ _ (s.num (tag m)) s.out).2 = _
  rw [hout, persist_later _ _ _ (h.counter_ne_one (by omega) hold), hnum]
  rfl

theorem SharedInv.counter_record (t : τ) :
    (s.record file header tag row m).num t =
      int32 ((recordsOf tag row t (ms ++ [m])).length + 1) := by
  show Function.update s.num (tag m) (int32 (s.num (tag m) + 1)) t = _
  rw [recordsOf_concat]
  by_cases ht : tag m = t
  · subst ht
    rw [Function.update_self, h.counter, int32_add, if_pos rfl, List.length_append]
    rfl
  · rw [Function.update_of_ne (Ne.symm ht), if_neg ht, List.append_nil, h.counter]

/-- A record written to the file of one of the logs leaves every file alone that is none of
    theirs. -/
theorem SharedInv.untouched_record {v : τ} {content : Option (List α)}
    (hv : v ∈ (ms ++ [m]).map tag)
    (hout : (s.record file header tag row m).out = s.out.wrote (file v) content) (f : φ)
    (hf : ∀ t ∈ (ms ++ [m]).map tag, file t ≠ f) :
    (s.record file header tag row m).out.disk f = disk₀ f := by
  rw [hout, Output.wrote_other (Ne.symm (hf v hv))]
  refine h.untouched f fun t ht => hf t ?_
  rw [List.map_append]
  exact List.mem_append_left _ ht

/-- **One record keeps the invariant**: it either goes where it should, or its log has lost it. -/
theorem SharedInv.record (hfile : Function.Injective file) (hrow : ∀ m k, row m k ≠ [])
    (hlen : ms.length + 1 < 2147483648) :
    SharedInv file header tag row disk₀ (ms ++ [m]) (s.record file header tag row m) := by
  by_cases hold : tag m ∈ ms.map tag
  · obtain ⟨u, hu, hstream⟩ := h.stream (fun e => by rw [e] at hold; cases hold)
    have hout := h.record_old hlen hold hstream
    have hu' : u ∈ (ms ++ [m]).map tag := by
      rw [List.map_append]
      exact List.mem_append_left _ hu
    refine ⟨h.counter_record, h.untouched_record hu' hout, ?_⟩
    rw [hout]
    rcases h.outcome with hright | hshort
    · by_cases hum : u = tag m
      · subst hum
        have hlast : (ms.map tag).getLast? = some (tag m) := by
          obtain ⟨v, hv⟩ := Option.ne_none_iff_exists'.mp
            (mt List.getLast?_eq_none_iff.mp (List.ne_nil_of_mem hold))
          have hsame := (hright.stream v hv).symm.trans hstream
          rw [hv, hfile (Option.some.inj (Ofstream.mk.inj hsame).1)]
        rw [hright.disk _ hold, Option.map_some, ← owed_concat_self]
        exact Or.inl (hright.concat hfile fun _ => hlast)
      · exact Or.inr (hright.astray hfile hrow hold hu hstream hum _)
    · exact Or.inr (hshort.concat hfile hu' (fun _ => hstream) _)
  · have hout := h.record_new hold
    have hm : tag m ∈ (ms ++ [m]).map tag := List.mem_map_of_mem (by simp)
    refine ⟨h.counter_record, h.untouched_record hm hout, ?_⟩
    rw [hout]
    rcases h.outcome with hright | hshort
    · exact Or.inl (hright.concat hfile fun hmem => absurd hmem hold)
    · exact Or.inr (hshort.concat hfile hm (fun hmem => absurd hmem hold) _)

end Step

section Run

variable {disk₀ : φ → Option (List α)} {ms : List μ}

/-- All counters at 1, the stream not yet opened. -/
def Shared.start (disk₀ : φ → Option (List α)) : Shared τ φ α := ⟨fun _ => 1, ⟨.fresh, disk₀⟩⟩

/-- **The invariant holds after any records.** -/
theorem sharedInv_run (hfile : Function.Injective file) (hrow : ∀ m k, row m k ≠ [])
    (hlen : ms.length < 2147483648) :
    SharedInv file header tag row disk₀ ms
      (ms.foldl (Shared.record file header tag row) (Shared.start disk₀)) := by
  refine foldl_invariant (I := fun pre s =>
    pre.length < 2147483648 → SharedInv file header tag row disk₀ pre s) (fun _ => ?_) ?_ ms hlen
  · exact ⟨fun t => by rw [recordsOf, List.filter_nil, List.map_nil, List.length_nil]; rfl,
      fun f _ => rfl, Or.inl ⟨grouped_nil, fun t ht => by simp at ht, fun t ht => by simp at ht⟩⟩
  · intro pre m s ih hlen
    rw [List.length_append, List.length_singleton] at hlen
    exact (ih (by omega)).record hfile hrow hlen

end Run

end Shared

end Cxx
