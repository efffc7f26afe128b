/-
  File:      BondTrading/InquiryRuns.lean
  Subject:   INQUIRIES OVER WHOLE RUNS: any messages to the service, in any order.

  * `onMessage_cases` -- the three things a message does: it is entered, it completes an entry, or
    nothing happens; everything below is derived from it;
  * `StoreInv` -- what holds of the store after any messages;
  * `lifecycle_iff` -- the messages under which a done inquiry stays as it is, a quote changes nothing
    that was asked for, and nobody is told twice.

  Whole inquiry files are the matter of `BondTrading.InquiryFiles`.
-/
import BondTrading.Inquiry
import BondTrading.Library.Tables

namespace BondTrading

open Cxx

namespace BondInquiryService

variable {ι : Type}

/-! ## 1. One message -/

/-- The entry a message completes: the first one with its id, if it is a quote. -/
def completes (inquiry : Inquiry) (s : BondInquiryService ι) : Option Nat :=
  if inquiry.state = .quoted then
    s.bondInquiry.findIdx? fun entry => entry.inquiryId = inquiry.inquiryId
  else none

/-- **What a message does**: a received inquiry is entered, a quote completes the entry it finds, and
    anything else changes nothing. -/
theorem onMessage_cases (m : Inquiry) (s : BondInquiryService ι) :
    (m.state = .received ∧ s.completes m = none ∧
      s.onMessage m = ({ s with bondInquiry := s.bondInquiry ++ [{ m with price := 100 }] }, [])) ∨
    (∃ i e, m.state = .quoted ∧ s.completes m = some i ∧ s.bondInquiry[i]? = some e ∧
      e.inquiryId = m.inquiryId ∧
      s.onMessage m = ({ s with bondInquiry := s.bondInquiry.set i { m with state := .done } },
        notify s.listenerList { m with state := .done })) ∨
    (m.state ≠ .received ∧ s.completes m = none ∧ s.onMessage m = (s, [])) := by
  unfold completes
  by_cases hr : m.state = .received
  · exact Or.inl ⟨hr, if_neg (by rw [hr]; decide), onMessage_received hr s⟩
  · by_cases hq : m.state = .quoted
    · rw [if_pos hq]
      cases hidx : s.bondInquiry.findIdx? fun entry => entry.inquiryId = m.inquiryId with
      | none =>
          refine Or.inr (Or.inr ⟨hr, rfl, ?_⟩)
          simp [onMessage, hq, hidx]
      | some i =>
          obtain ⟨hi, hid, -⟩ := List.findIdx?_eq_some_iff_getElem.mp hidx
          refine Or.inr (Or.inl ⟨i, _, hq, rfl, List.getElem?_eq_getElem hi,
            of_decide_eq_true hid, ?_⟩)
          simp [onMessage, hq, hidx]
    · refine Or.inr (Or.inr ⟨hr, if_neg hq, ?_⟩)
      unfold onMessage
      split
      · rename_i hm
        exact absurd hm hr
      · rename_i hm
        exact absurd hm hq
      · rfl
      · rfl
      · rfl

/-- The entry the listeners are told about, if a message makes them be told. -/
def toldAbout (m : Inquiry) (s : BondInquiryService ι) : Option Nat :=
  match (s.onMessage m).2 with
  | [] => none
  | _ :: _ => s.completes m

theorem toldAbout_nil {m : Inquiry} {s : BondInquiryService ι} (h : (s.onMessage m).2 = []) :
    s.toldAbout m = none := by
  rw [toldAbout, h]

theorem toldAbout_told {m : Inquiry} {s : BondInquiryService ι} (h : (s.onMessage m).2 ≠ []) :
    s.toldAbout m = s.completes m := by
  obtain ⟨call, calls, hc⟩ := List.exists_cons_of_ne_nil h
  rw [toldAbout, hc]

/-- If somebody listens, they are told of the entry a quote completes. -/
theorem toldAbout_quote {m e : Inquiry} {s s' : BondInquiryService ι}
    (he : s.onMessage m = (s', notify s.listenerList e)) (hne : s.listenerList ≠ []) :
    s.toldAbout m = s.completes m := by
  refine toldAbout_told ?_
  rw [he]
  exact mt List.map_eq_nil_iff.mp hne

/-! ## 2. Runs -/

/-- The service after some messages. -/
def run (listeners : List ι) (msgs : List Inquiry) : BondInquiryService ι :=
  msgs.foldl (fun s m => (s.onMessage m).1) ⟨[], listeners⟩

theorem run_concat (listeners : List ι) (msgs : List Inquiry) (m : Inquiry) :
    run listeners (msgs ++ [m]) = ((run listeners msgs).onMessage m).1 := by
  simp [run]

/-- The entries the listeners are told about, message by message. -/
def completions : List Inquiry → BondInquiryService ι → List Nat
  | [], _ => []
  | m :: msgs, s => (s.toldAbout m).toList ++ completions msgs (s.onMessage m).1

theorem completions_concat (msgs : List Inquiry) (m : Inquiry) (s : BondInquiryService ι) :
    completions (msgs ++ [m]) s = completions msgs s ++
      ((msgs.foldl (fun s m => (s.onMessage m).1) s).toldAbout m).toList := by
  induction msgs generalizing s with
  | nil => exact List.append_nil _
  | cons c msgs ih =>
      show (s.toldAbout c).toList ++ completions (msgs ++ [m]) (s.onMessage c).1 = _
      rw [ih, ← List.append_assoc]
      rfl

/-- A longer run tells at least what a shorter one told. -/
theorem completions_sublist (pre post : List Inquiry) (s : BondInquiryService ι) :
    (completions pre s).Sublist (completions (pre ++ post) s) := by
  induction pre generalizing s with
  | nil => exact List.nil_sublist _
  | cons m pre ih => exact (ih (s.onMessage m).1).append_left _

/-- The ids of the received inquiries. -/
def receivedIds (msgs : List Inquiry) : List String :=
  (msgs.filter fun m => m.state = .received).map Inquiry.inquiryId

/-- **What holds after any messages**: an entry is received or done; it was entered by a received
    message, under whose id it stands; and somebody who listens has been told of the done ones. -/
structure StoreInv (listeners : List ι) (msgs : List Inquiry) (s : BondInquiryService ι) :
    Prop where
  listening : s.listenerList = listeners
  ids : s.bondInquiry.map Inquiry.inquiryId = receivedIds msgs
  states : ∀ e ∈ s.bondInquiry, e.state = .received ∨ e.state = .done
  origin : ∀ (i : Nat) e, s.bondInquiry[i]? = some e → ∃ pre m post, msgs = pre ++ m :: post ∧
    m.state = .received ∧ (run listeners pre).bondInquiry.length = i
  completed : listeners ≠ [] → ∀ i, i ∈ completions msgs ⟨[], listeners⟩ ↔
    ∃ e, s.bondInquiry[i]? = some e ∧ e.state = .done

theorem storeInv_nil (listeners : List ι) : StoreInv listeners [] (run listeners []) where
  listening := rfl
  ids := rfl
  states _ h := by cases h
  origin _ _ h := by cases h
  completed _ i := ⟨fun h => (by cases h), fun ⟨_, h, _⟩ => (by cases h)⟩

/-- Changing an entry's fields under its own id leaves the ids. -/
theorem ids_set {entries : List Inquiry} {i : Nat} {e e' : Inquiry} (he : entries[i]? = some e)
    (hid : e.inquiryId = e'.inquiryId) :
    (entries.set i e').map Inquiry.inquiryId = entries.map Inquiry.inquiryId := by
  have hi : (entries.map Inquiry.inquiryId)[i]? = some e'.inquiryId := by
    rw [List.getElem?_map, he, Option.map_some, hid]
  obtain ⟨hlt, hget⟩ := List.getElem?_eq_some_iff.mp hi
  rw [List.map_set, ← hget, List.set_getElem_self]

theorem receivedIds_concat (msgs : List Inquiry) (m : Inquiry) :
    receivedIds (msgs ++ [m]) =
      receivedIds msgs ++ if m.state = .received then [m.inquiryId] else [] := by
  unfold receivedIds
  rw [List.filter_append, List.map_append]
  by_cases h : m.state = .received
  · simp [h]
  · simp [h]

/-- An entry made before one more message was. -/
theorem origin_concat {listeners : List ι} {msgs : List Inquiry} (m : Inquiry) {i : Nat}
    (h : ∃ pre m' post, msgs = pre ++ m' :: post ∧ m'.state = .received ∧
      (run listeners pre).bondInquiry.length = i) :
    ∃ pre m' post, msgs ++ [m] = pre ++ m' :: post ∧ m'.state = .received ∧
      (run listeners pre).bondInquiry.length = i := by
  obtain ⟨pre, m', post, rfl, hm', hlen⟩ := h
  exact ⟨pre, m', post ++ [m], by simp, hm', hlen⟩

/-- A message that tells nobody leaves the completions. -/
theorem completions_untold {listeners : List ι} {msgs : List Inquiry} {m : Inquiry}
    (h : ((run listeners msgs).onMessage m).2 = []) :
    completions (msgs ++ [m]) ⟨[], listeners⟩ = completions msgs ⟨[], listeners⟩ := by
  rw [completions_concat]
  show _ ++ ((run listeners msgs).toldAbout m).toList = _
  rw [toldAbout_nil h, Option.toList_none, List.append_nil]

section Step

variable {listeners : List ι} {msgs : List Inquiry} {m : Inquiry}
  (h : StoreInv listeners msgs (run listeners msgs))

include h

/-- A received inquiry keeps it: one more entry, not done. -/
theorem storeInv_entered (hm : m.state = .received)
    (he : (run listeners msgs).onMessage m = ({ run listeners msgs with
      bondInquiry := (run listeners msgs).bondInquiry ++ [{ m with price := 100 }] }, [])) :
    StoreInv listeners (msgs ++ [m]) (run listeners (msgs ++ [m])) := by
  have htold := completions_untold (congrArg Prod.snd he)
  rw [run_concat, he]
  refine { listening := h.listening, ids := ?_, states := ?_, origin := ?_, completed := ?_ }
  · rw [receivedIds_concat, if_pos hm, ← h.ids, List.map_append]
    rfl
  · intro entry hentry
    rcases List.mem_append.mp hentry with hentry | hentry
    · exact h.states entry hentry
    · rw [List.mem_singleton.mp hentry]
      exact Or.inl hm
  · intro k entry hk
    rcases getElem?_concat hk with hk | ⟨hk, -⟩
    · exact origin_concat m (h.origin k entry hk)
    · exact ⟨msgs, m, [], rfl, hm, hk.symm⟩
  · intro hne k
    rw [htold, h.completed hne]
    refine ⟨fun hex => ?_, fun hex => ?_⟩
    · obtain ⟨entry, hk, hd⟩ := hex
      exact ⟨entry, (List.getElem?_append_left (List.getElem?_eq_some_iff.mp hk).1).trans hk, hd⟩
    · obtain ⟨entry, hk, hd⟩ := hex
      rcases getElem?_concat hk with hk | ⟨-, rfl⟩
      · exact ⟨entry, hk, hd⟩
      · have hr : m.state = .done := hd
        rw [hm] at hr
        cases hr

/-- A quote keeps it: its entry is done now, and whoever listens has been told. -/
theorem storeInv_completed {i : Nat} {e : Inquiry} (hm : m.state = .quoted)
    (hi : (run listeners msgs).completes m = some i)
    (hei : (run listeners msgs).bondInquiry[i]? = some e) (hid : e.inquiryId = m.inquiryId)
    (he : (run listeners msgs).onMessage m = ({ run listeners msgs with
      bondInquiry := (run listeners msgs).bondInquiry.set i { m with state := .done } },
      notify (run listeners msgs).listenerList { m with state := .done })) :
    StoreInv listeners (msgs ++ [m]) (run listeners (msgs ++ [m])) := by
  have hlt := (List.getElem?_eq_some_iff.mp hei).1
  have htold : listeners ≠ [] → completions (msgs ++ [m]) ⟨[], listeners⟩ =
      completions msgs ⟨[], listeners⟩ ++ [i] := by
    intro hne
    have hlisten : (run listeners msgs).listenerList ≠ [] := by
      rw [h.listening]
      exact hne
    rw [completions_concat]
    show _ ++ ((run listeners msgs).toldAbout m).toList = _
    rw [toldAbout_quote he hlisten, hi, Option.toList_some]
  rw [run_concat, he]
  refine { listening := h.listening, ids := ?_, states := ?_, origin := ?_, completed := ?_ }
  · rw [receivedIds_concat, if_neg (by rw [hm]; decide), List.append_nil, ← h.ids]
    have hids : ((run listeners msgs).bondInquiry.set i { m with state := .done }).map
        Inquiry.inquiryId = (run listeners msgs).bondInquiry.map Inquiry.inquiryId :=
      ids_set hei hid
    exact hids
  · intro entry hentry
    rcases List.mem_or_eq_of_mem_set hentry with hentry | rfl
    · exact h.states entry hentry
    · exact Or.inr rfl
  · intro k entry hk
    have hkl := (List.getElem?_eq_some_iff.mp hk).1
    rw [List.length_set] at hkl
    exact origin_concat m (h.origin k _ (List.getElem?_eq_getElem hkl))
  · intro hne k
    rw [htold hne, List.mem_append, h.completed hne, List.mem_singleton]
    by_cases hki : k = i
    · subst hki
      exact ⟨fun _ => ⟨_, List.getElem?_set_self hlt, rfl⟩, fun _ => Or.inr rfl⟩
    · rw [List.getElem?_set_ne (Ne.symm hki)]
      exact ⟨fun hex => hex.resolve_right hki, Or.inl⟩

/-- Any other message keeps it: the store stays as it is. -/
theorem storeInv_unchanged (hm : m.state ≠ .received)
    (he : (run listeners msgs).onMessage m = (run listeners msgs, [])) :
    StoreInv listeners (msgs ++ [m]) (run listeners (msgs ++ [m])) := by
  have htold := completions_untold (congrArg Prod.snd he)
  rw [run_concat, he]
  refine { listening := h.listening, ids := ?_, states := h.states, origin := ?_, completed := ?_ }
  · rw [receivedIds_concat, if_neg hm, List.append_nil, h.ids]
  · exact fun k entry hk => origin_concat m (h.origin k entry hk)
  · intro hne k
    rw [htold, h.completed hne]

/-- **One message keeps the invariant.** -/
theorem storeInv_step : StoreInv listeners (msgs ++ [m]) (run listeners (msgs ++ [m])) := by
  rcases onMessage_cases m (run listeners msgs) with
    ⟨hm, -, he⟩ | ⟨i, e, hm, hi, hei, hid, he⟩ | ⟨hm, -, he⟩
  · exact storeInv_entered h hm he
  · exact storeInv_completed h hm hi hei hid he
  · exact storeInv_unchanged h hm he

end Step

theorem storeInv_run (listeners : List ι) (msgs : List Inquiry) :
    StoreInv listeners msgs (run listeners msgs) := by
  induction msgs using List.reverseRecOn with
  | nil => exact storeInv_nil listeners
  | append_singleton msgs m ih => exact storeInv_step ih

/-! ## 3. The life of an inquiry -/

/-- Two inquiries ask for the same. -/
def SameRequest (e e' : Inquiry) : Prop :=
  e.product = e'.product ∧ e.side = e'.side ∧ e.quantity = e'.quantity

theorem SameRequest.symm {e e' : Inquiry} (h : SameRequest e e') : SameRequest e' e :=
  ⟨h.1.symm, h.2.1.symm, h.2.2.symm⟩

theorem SameRequest.trans {e e' e'' : Inquiry} (h : SameRequest e e') (h' : SameRequest e' e'') :
    SameRequest e e'' :=
  ⟨h.1.trans h'.1, h.2.1.trans h'.2.1, h.2.2.trans h'.2.2⟩

/-- **An inquiry only moves forward**: in every state reached, what is done stays as it is, what was
    asked for is what a received message asked for; and the listeners are told of the completion of
    an entry once. -/
structure Lifecycle (listeners : List ι) (msgs : List Inquiry) : Prop where
  done_kept : ∀ pre mid post (i : Nat) e, msgs = pre ++ mid ++ post →
    (run listeners pre).bondInquiry[i]? = some e → e.state = .done →
    (run listeners (pre ++ mid)).bondInquiry[i]? = some e
  asked_kept : ∀ pre m mid post, msgs = pre ++ m :: mid ++ post → m.state = .received →
    ∃ e, (run listeners (pre ++ m :: mid)).bondInquiry[(run listeners pre).bondInquiry.length]? =
      some e ∧ SameRequest e m
  told_once : (completions msgs ⟨[], listeners⟩).Nodup

/-- The message is no quote for an entry, or it asks for what the entry asks for and the entry is
    not done. (With nobody to tell, a quote may repeat a done entry in all its fields.) -/
def QuoteFits (m : Inquiry) (s : BondInquiryService ι) : Prop :=
  ∀ (i : Nat) e, s.completes m = some i → s.bondInquiry[i]? = some e →
    SameRequest e m ∧ (e.state = .received ∨ (s.listenerList = [] ∧ e.price = m.price))

/-- Every message of a run fits the state it meets. -/
def QuotesFit (listeners : List ι) (msgs : List Inquiry) : Prop :=
  ∀ pre m post, msgs = pre ++ m :: post → QuoteFits m (run listeners pre)

/-- A fitting message leaves the done entries. -/
theorem done_step {m : Inquiry} {s : BondInquiryService ι} (hfit : QuoteFits m s) {i : Nat}
    {e : Inquiry} (hi : s.bondInquiry[i]? = some e) (hd : e.state = .done) :
    (s.onMessage m).1.bondInquiry[i]? = some e := by
  have hlt := (List.getElem?_eq_some_iff.mp hi).1
  rcases onMessage_cases m s with ⟨-, -, he⟩ | ⟨j, e', -, hj, hej, hid, he⟩ | ⟨-, -, he⟩
  · rw [he]
    exact (List.getElem?_append_left hlt).trans hi
  · rw [he]
    by_cases hij : j = i
    · subst hij
      obtain rfl : e = e' := Option.some.inj (hi.symm.trans hej)
      obtain ⟨⟨hproduct, hside, hquantity⟩, hstate⟩ := hfit j e hj hi
      have hprice : e.price = m.price := by
        rcases hstate with hstate | hstate
        · rw [hstate] at hd
          cases hd
        · exact hstate.2
      have hsame : ({ m with state := .done } : Inquiry) = e := by
        rw [← hd, ← hid, ← hproduct, ← hside, ← hquantity, ← hprice]
      exact (List.getElem?_set_self hlt).trans (congrArg some hsame)
    · exact (List.getElem?_set_ne hij).trans hi
  · rw [he]
    exact hi

/-- A fitting message leaves what was asked for. -/
theorem asked_step {m : Inquiry} {s : BondInquiryService ι} (hfit : QuoteFits m s) {i : Nat}
    {e : Inquiry} (hi : s.bondInquiry[i]? = some e) :
    ∃ e', (s.onMessage m).1.bondInquiry[i]? = some e' ∧ SameRequest e' e := by
  have hlt := (List.getElem?_eq_some_iff.mp hi).1
  rcases onMessage_cases m s with ⟨-, -, he⟩ | ⟨j, e', -, hj, hej, hid, he⟩ | ⟨-, -, he⟩
  · rw [he]
    exact ⟨e, (List.getElem?_append_left hlt).trans hi, rfl, rfl, rfl⟩
  · rw [he]
    by_cases hij : j = i
    · subst hij
      exact ⟨_, List.getElem?_set_self hlt, (hfit j e hj hi).1.symm⟩
    · exact ⟨e, (List.getElem?_set_ne hij).trans hi, rfl, rfl, rfl⟩
  · rw [he]
    exact ⟨e, hi, rfl, rfl, rfl⟩

/-- A fitting message tells the listeners only of an entry that was not done. -/
theorem told_step {m : Inquiry} {s : BondInquiryService ι} (hfit : QuoteFits m s) {i : Nat}
    (htold : s.toldAbout m = some i) :
    s.listenerList ≠ [] ∧ ∃ e, s.bondInquiry[i]? = some e ∧ e.state = .received := by
  rcases onMessage_cases m s with ⟨-, -, he⟩ | ⟨j, e, -, hj, hej, -, he⟩ | ⟨-, -, he⟩
  · rw [toldAbout_nil (congrArg Prod.snd he)] at htold
    cases htold
  · have hne : s.listenerList ≠ [] := by
      intro hnil
      rw [hnil] at he
      rw [toldAbout_nil (congrArg Prod.snd he)] at htold
      cases htold
    rw [toldAbout_quote he hne, hj] at htold
    obtain rfl : j = i := Option.some.inj htold
    refine ⟨hne, e, hej, ?_⟩
    rcases (hfit j e hj hej).2 with hstate | hstate
    · exact hstate
    · exact absurd hstate.1 hne
  · rw [toldAbout_nil (congrArg Prod.snd he)] at htold
    cases htold

section Fitting

variable {listeners : List ι} {msgs : List Inquiry} (hfit : QuotesFit listeners msgs)

include hfit

theorem QuotesFit.done_run (pre mid post : List Inquiry) {i : Nat} {e : Inquiry}
    (hmsgs : msgs = pre ++ mid ++ post) (hi : (run listeners pre).bondInquiry[i]? = some e)
    (hd : e.state = .done) : (run listeners (pre ++ mid)).bondInquiry[i]? = some e := by
  induction mid using List.reverseRecOn generalizing post with
  | nil => rwa [List.append_nil]
  | append_singleton mid m ih =>
      have hsplit : msgs = (pre ++ mid) ++ m :: post := by
        rw [hmsgs]
        simp
      have hmid := ih (m :: post) hsplit
      rw [← List.append_assoc, run_concat]
      exact done_step (hfit _ _ _ hsplit) hmid hd

theorem QuotesFit.asked_run (pre : List Inquiry) (m : Inquiry) (mid post : List Inquiry)
    (hmsgs : msgs = pre ++ m :: mid ++ post) (hm : m.state = .received) :
    ∃ e, (run listeners (pre ++ m :: mid)).bondInquiry[(run listeners pre).bondInquiry.length]? =
      some e ∧ SameRequest e m := by
  induction mid using List.reverseRecOn generalizing post with
  | nil =>
      refine ⟨{ m with price := 100 }, ?_, rfl, rfl, rfl⟩
      rw [run_concat, onMessage_received hm]
      exact List.getElem?_concat_length
  | append_singleton mid m' ih =>
      have hsplit : msgs = (pre ++ m :: mid) ++ m' :: post := by
        rw [hmsgs]
        simp
      obtain ⟨e, he, hsame⟩ := ih (m' :: post) hsplit
      obtain ⟨e', he', hsame'⟩ := asked_step (hfit _ _ _ hsplit) he
      have hrun : run listeners (pre ++ m :: (mid ++ [m'])) =
          ((run listeners (pre ++ m :: mid)).onMessage m').1 := by
        rw [← run_concat, List.append_assoc]
        rfl
      rw [hrun]
      exact ⟨e', he', hsame'.trans hsame⟩

theorem QuotesFit.told_run (pre post : List Inquiry) (hmsgs : msgs = pre ++ post) :
    (completions pre ⟨[], listeners⟩).Nodup := by
  induction pre using List.reverseRecOn generalizing post with
  | nil => exact List.nodup_nil
  | append_singleton pre m ih =>
      have hsplit : msgs = pre ++ m :: post := by
        rw [hmsgs]
        simp
      have hpre := ih (m :: post) hsplit
      have hinv := storeInv_run listeners pre
      rw [completions_concat]
      show (_ ++ ((run listeners pre).toldAbout m).toList).Nodup
      cases htold : (run listeners pre).toldAbout m with
      | none => rwa [Option.toList_none, List.append_nil]
      | some i =>
          obtain ⟨hne, e, he, hr⟩ := told_step (hfit _ _ _ hsplit) htold
          rw [hinv.listening] at hne
          have hnew : i ∉ completions pre ⟨[], listeners⟩ := by
            rw [hinv.completed hne]
            intro hex
            obtain ⟨e', he', hd⟩ := hex
            rw [← Option.some.inj (he.symm.trans he'), hr] at hd
            cases hd
          rw [Option.toList_some]
          exact hpre.append (List.nodup_singleton i) (List.disjoint_singleton.mpr hnew)

end Fitting

section Moving

variable {listeners : List ι} {msgs : List Inquiry} (h : Lifecycle listeners msgs)
  {pre post : List Inquiry} {m : Inquiry} (hmsgs : msgs = pre ++ m :: post)

include h hmsgs

/-- In such a run a message leaves what an entry asks for: before and behind it, that is what the
    message asked for that entered the entry. -/
theorem Lifecycle.same_request {i : Nat} {e e' : Inquiry}
    (he : (run listeners pre).bondInquiry[i]? = some e)
    (he' : (run listeners (pre ++ [m])).bondInquiry[i]? = some e') : SameRequest e e' := by
  obtain ⟨pre₀, m₀, mid₀, hpre, hm₀, hlen⟩ := (storeInv_run listeners pre).origin i e he
  obtain ⟨e₁, he₁, hsame₁⟩ := h.asked_kept pre₀ m₀ mid₀ (m :: post) (by rw [hmsgs, hpre]) hm₀
  obtain ⟨e₂, he₂, hsame₂⟩ := h.asked_kept pre₀ m₀ (mid₀ ++ [m]) post
    (by rw [hmsgs, hpre]; simp) hm₀
  have hassoc : pre₀ ++ m₀ :: (mid₀ ++ [m]) = pre ++ [m] := by rw [hpre]; simp
  rw [← hpre, hlen, he] at he₁
  rw [hassoc, hlen, he'] at he₂
  rw [← Option.some.inj he₁] at hsame₁
  rw [← Option.some.inj he₂] at hsame₂
  exact hsame₁.trans hsame₂.symm

/-- In such a run nobody is told of an entry of which they have been told. -/
theorem Lifecycle.told_new {i : Nat} (htold : (run listeners pre).toldAbout m = some i) :
    i ∉ completions pre ⟨[], listeners⟩ := by
  have hsplit : msgs = (pre ++ [m]) ++ post := by
    rw [hmsgs]
    simp
  have honce := h.told_once
  rw [hsplit] at honce
  have hprefix := honce.sublist (completions_sublist (pre ++ [m]) post _)
  rw [completions_concat, List.nodup_append] at hprefix
  refine fun hmem => hprefix.2.2 i hmem i ?_ rfl
  show i ∈ ((run listeners pre).toldAbout m).toList
  rw [htold]
  exact List.mem_singleton_self i

end Moving

/-- In a run that keeps to the life of an inquiry, every message fits. -/
theorem Lifecycle.quotesFit {listeners : List ι} {msgs : List Inquiry}
    (h : Lifecycle listeners msgs) : QuotesFit listeners msgs := by
  intro pre m post hmsgs i e hi he
  have hinv := storeInv_run listeners pre
  rcases onMessage_cases m (run listeners pre) with
    ⟨-, hnone, -⟩ | ⟨j, e', -, hj, -, -, hstep⟩ | ⟨-, hnone, -⟩
  · rw [hnone] at hi
    cases hi
  · obtain rfl : j = i := Option.some.inj (hj.symm.trans hi)
    have hlt := (List.getElem?_eq_some_iff.mp he).1
    have hafter : (run listeners (pre ++ [m])).bondInquiry[j]? =
        some { m with state := .done } := by
      rw [run_concat, hstep]
      exact List.getElem?_set_self hlt
    have hrequest : SameRequest e { m with state := .done } := h.same_request hmsgs he hafter
    refine ⟨hrequest, ?_⟩
    rcases hinv.states e (List.mem_of_getElem? he) with hr | hd
    · exact Or.inl hr
    · have hkept := h.done_kept pre [m] post j e (by rw [hmsgs]; simp) he hd
      have hsame : e = { m with state := .done } := Option.some.inj (hkept.symm.trans hafter)
      refine Or.inr ⟨?_, by rw [hsame]⟩
      by_contra hne
      -- told when the entry became done, and told again
      have htold := (toldAbout_quote hstep hne).trans hj
      rw [hinv.listening] at hne
      exact h.told_new hmsgs htold ((hinv.completed hne j).mpr ⟨e, he, hd⟩)
  · rw [hnone] at hi
    cases hi

/-- **When the life of every inquiry only moves forward**: exactly when every quote fits the entry
    it finds. -/
theorem lifecycle_iff (listeners : List ι) (msgs : List Inquiry) :
    Lifecycle listeners msgs ↔ QuotesFit listeners msgs := by
  constructor
  · exact fun h => h.quotesFit
  · intro hfit
    exact { done_kept := fun pre mid post i e hmsgs hi hd => hfit.done_run pre mid post hmsgs hi hd
            asked_kept := fun pre m mid post hmsgs hm => hfit.asked_run pre m mid post hmsgs hm
            told_once := hfit.told_run msgs [] (List.append_nil msgs).symm }

/-- A purchase of 1000 is asked for and quoted; then its id is quoted again, for the sale of five of
    another bond. -/
def requoted : List Inquiry :=
  [⟨"I1", Bond.ofCusip "912828M72", .buy, 1000, 0, .received⟩,
    ⟨"I1", Bond.ofCusip "912828M72", .buy, 1000, 100, .quoted⟩,
    ⟨"I1", Bond.ofCusip "912828N22", .sell, 5, 99, .quoted⟩]

/-- The done inquiry is overwritten and the listener told a second time. -/
theorem requoted_overwritten :
    (run ["client"] (requoted.take 2)).bondInquiry =
        [⟨"I1", Bond.ofCusip "912828M72", .buy, 1000, 100, .done⟩] ∧
      (run ["client"] requoted).bondInquiry =
        [⟨"I1", Bond.ofCusip "912828N22", .sell, 5, 99, .done⟩] ∧
      completions requoted (⟨[], ["client"]⟩ : BondInquiryService String) = [0, 0] ∧
      ¬ Lifecycle ["client"] requoted := by
  have htold : completions requoted (⟨[], ["client"]⟩ : BondInquiryService String) = [0, 0] := by
    decide
  refine ⟨by decide +kernel, by decide +kernel, htold, fun h => ?_⟩
  have honce := h.told_once
  rw [htold] at honce
  exact absurd honce (by decide)

end BondInquiryService

end BondTrading
