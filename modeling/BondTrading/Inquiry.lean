/-
  File:      BondTrading/Inquiry.lean
  Subject:   CUSTOMER INQUIRIES (inquiryservice.hpp).

  * `BondInquiryService.onMessage` -- a received inquiry is entered at the price 100, a quoted one
    replaces the first entry with its id and is done; other states do nothing;
  * `BondInquiryConnector.accept` -- what the reader does with one inquiry: enter it, look it up,
    send it back quoted;
  * `accept_fresh` -- an inquiry with a new id is done at 100 when its line is finished, and the
    listeners are told once; `accept_known` -- one with an id that is done already ends the process.

  `SendQuote` and `RejectInquiry` are empty in the code and left out.
-/
import BondTrading.TradeBooking

namespace BondTrading

open Cxx

/-! ## 1. The service -/

inductive InquiryState where
  | received | quoted | done | rejected | customerRejected
  deriving DecidableEq, Repr

structure Inquiry where
  inquiryId : String
  product : Bond
  side : Side
  quantity : ℤ
  price : ℚ
  state : InquiryState
  deriving DecidableEq, Repr

structure BondInquiryService (ι : Type) where
  bondInquiry : List Inquiry
  listenerList : List ι

namespace BondInquiryService

variable {ι : Type}

def empty : BondInquiryService ι := ⟨[], []⟩

/-- `GetData`, whose index is a `long`; `none` is one of its `exit(-1)`. -/
def getData (inquiryId : String) (s : BondInquiryService ι) : Option Inquiry :=
  s.bondInquiry.find? fun inquiry => inquiry.inquiryId = inquiryId

/-- `OnMessage`. -/
def onMessage (inquiry : Inquiry) (s : BondInquiryService ι) :
    BondInquiryService ι × List (ι × Inquiry) :=
  match inquiry.state with
  | .received =>
      let newInq : Inquiry := ⟨inquiry.inquiryId, inquiry.product, inquiry.side, inquiry.quantity,
        100, inquiry.state⟩
      ({ s with bondInquiry := s.bondInquiry ++ [newInq] }, [])
  | .quoted =>
      match s.bondInquiry.findIdx? fun entry => entry.inquiryId = inquiry.inquiryId with
      | some i =>
          let newInq : Inquiry := ⟨inquiry.inquiryId, inquiry.product, inquiry.side,
            inquiry.quantity, inquiry.price, .done⟩
          ({ s with bondInquiry := s.bondInquiry.set i newInq }, notify s.listenerList newInq)
      | none => (s, [])
  | .done | .rejected | .customerRejected => (s, [])

def addListener (listener : ι) (s : BondInquiryService ι) : BondInquiryService ι :=
  { s with listenerList := s.listenerList ++ [listener] }

/-- A received inquiry is entered. -/
theorem onMessage_received {inquiry : Inquiry} (h : inquiry.state = .received)
    (s : BondInquiryService ι) :
    s.onMessage inquiry =
      ({ s with bondInquiry := s.bondInquiry ++ [{ inquiry with price := 100 }] }, []) := by
  simp [onMessage, h]

section LastEntry

variable {entries : List Inquiry} (entry : Inquiry) (listeners : List ι)
  (hnew : ∀ e ∈ entries, e.inquiryId ≠ entry.inquiryId)

include hnew

/-- An id that came in last is looked up as the last entry. -/
theorem getData_lastEntry :
    getData entry.inquiryId ⟨entries ++ [entry], listeners⟩ = some entry := by
  rw [getData, List.find?_append, List.find?_eq_none.mpr fun e he => by simpa using hnew e he]
  simp

/-- The same id quoted: the last entry is replaced by a done one, which the listeners get. -/
theorem onMessage_lastEntry (quote : Inquiry) (hid : quote.inquiryId = entry.inquiryId)
    (hq : quote.state = .quoted) :
    onMessage quote ⟨entries ++ [entry], listeners⟩ =
      (⟨entries ++ [{ quote with state := .done }], listeners⟩,
        notify listeners { quote with state := .done }) := by
  have hidx : (entries ++ [entry]).findIdx? (fun e => e.inquiryId = quote.inquiryId) =
      some entries.length := by
    rw [List.findIdx?_append, List.findIdx?_eq_none_iff.mpr fun e he => by
      simpa [hid] using hnew e he]
    simp [List.findIdx?_cons, hid]
  simp [onMessage, hq, hidx]

end LastEntry

end BondInquiryService

/-! ## 2. The connector -/

namespace BondInquiryConnector

variable {ι : Type}

/-- `Publish`: the inquiry goes back to the service, quoted. -/
def publish (inquiry : Inquiry) (s : BondInquiryService ι) :
    BondInquiryService ι × List (ι × Inquiry) :=
  s.onMessage ⟨inquiry.inquiryId, inquiry.product, inquiry.side, inquiry.quantity, inquiry.price,
    .quoted⟩

/-- One line's record as an inquiry; any side text but one that starts with `B` is a sale, and the
    price is read as a `long`. -/
def decode (record : List String) : Except Stop Inquiry := do
  let inqId ← fieldAt record 0
  let bond := Bond.ofCusip (← fieldAt record 1)
  let side ← fieldAt record 2
  let quantity ← stol (← fieldAt record 3).toList
  let price ← stol (← fieldAt record 4).toList
  .ok ⟨inqId, bond, if side.toList.head? = some 'B' then .buy else .sell, quantity, price,
    .received⟩

/-- What the reader does with an inquiry: enter it, look it up under its id, and publish what it
    finds if that is still received. -/
def accept (newInq : Inquiry) (s : BondInquiryService ι) :
    Outcome (BondInquiryService ι × List (ι × Inquiry)) :=
  let (s, calls) := s.onMessage newInq
  match s.getData newInq.inquiryId with
  | none => .stopped .exit (s, calls)
  | some inquiry =>
      if inquiry.state = .received then
        let (s, more) := publish inquiry s
        .done (s, calls ++ more)
      else .stopped .exit (s, calls)

/-- `ReadFile`; `file = none`: it does not open. `accept` is handed in, lifted to the state of the
    whole program. -/
def readFile {σ : Type} (accept : Inquiry → σ → Outcome σ) (file : Option String) (s : σ) :
    Outcome σ :=
  match file with
  | none => .stopped .exit s
  | some content => readLines decode accept [] (dataLines content) s

/-- A record with five fields, the last two of which are read as numbers, is a received inquiry. -/
theorem decode_fields {record : List String} {inqId cusip side quantity price : String} {n p : ℤ}
    (hi : record[0]? = some inqId) (hc : record[1]? = some cusip) (hs : record[2]? = some side)
    (hq : record[3]? = some quantity) (hp : record[4]? = some price)
    (hn : stol quantity.toList = .ok n) (hpt : stol price.toList = .ok p) :
    decode record = .ok ⟨inqId, Bond.ofCusip cusip,
      if side.toList.head? = some 'B' then .buy else .sell, n, p, .received⟩ := by
  unfold decode
  rw [fieldAt_eq hi, fieldAt_eq hc, fieldAt_eq hs, fieldAt_eq hq, fieldAt_eq hp]
  simp only [hn, hpt, bind, Except.bind]

/-- A record with two texts that read as `long`s behind its side is a received inquiry for its bond,
    under its id. -/
theorem decode_ok {record : List String} {inqId cusip quantity price : String} {n p : ℤ}
    (hi : record[0]? = some inqId) (hc : record[1]? = some cusip)
    (hq : record[3]? = some quantity) (hp : record[4]? = some price)
    (hn : stol quantity.toList = .ok n) (hpt : stol price.toList = .ok p) :
    ∃ inquiry, decode record = .ok inquiry ∧ inquiry.inquiryId = inqId ∧
      inquiry.product = Bond.ofCusip cusip ∧ inquiry.state = .received := by
  have hlen := (List.getElem?_eq_some_iff.mp hp).1
  have hs : record[2]? = some record[2] := List.getElem?_eq_getElem (by omega)
  exact ⟨_, decode_fields hi hc hs hq hp hn hpt, rfl, rfl, rfl⟩

/-- An inquiry as the service leaves it when its line is finished. -/
def finished (inquiry : Inquiry) : Inquiry := { inquiry with price := 100, state := .done }

/-- **A received inquiry with a new id** is entered, quoted, and replaced by a done one at 100;
    every listener is told that one. -/
theorem accept_fresh {inquiry : Inquiry} {s : BondInquiryService ι}
    (hstate : inquiry.state = .received)
    (hnew : inquiry.inquiryId ∉ s.bondInquiry.map Inquiry.inquiryId) :
    accept inquiry s =
      .done ({ s with bondInquiry := s.bondInquiry ++ [finished inquiry] },
        notify s.listenerList (finished inquiry)) := by
  have hne : ∀ e ∈ s.bondInquiry, e.inquiryId ≠ inquiry.inquiryId := fun e he heq =>
    hnew (heq ▸ List.mem_map_of_mem he)
  have hget := BondInquiryService.getData_lastEntry { inquiry with price := 100 } s.listenerList hne
  have hquote := BondInquiryService.onMessage_lastEntry { inquiry with price := 100 }
    s.listenerList hne { inquiry with price := 100, state := .quoted } rfl rfl
  unfold accept publish
  rw [BondInquiryService.onMessage_received hstate]
  simp only [hget, hquote, if_pos hstate, List.nil_append]
  rfl

/-- **A received inquiry whose id is done already** is entered a second time; the lookup finds the
    done one, and the process exits. -/
theorem accept_known {inquiry : Inquiry} {s : BondInquiryService ι}
    (hstate : inquiry.state = .received) (hdone : ∀ e ∈ s.bondInquiry, e.state = .done)
    (hknown : inquiry.inquiryId ∈ s.bondInquiry.map Inquiry.inquiryId) :
    accept inquiry s =
      .stopped .exit
        ({ s with bondInquiry := s.bondInquiry ++ [{ inquiry with price := 100 }] }, []) := by
  obtain ⟨old, hold, hid⟩ := List.mem_map.mp hknown
  have hsome : (s.bondInquiry.find? fun e => e.inquiryId = inquiry.inquiryId).isSome :=
    List.find?_isSome.mpr ⟨old, hold, decide_eq_true hid⟩
  obtain ⟨e, he⟩ := Option.isSome_iff_exists.mp hsome
  have hget : BondInquiryService.getData inquiry.inquiryId
      { s with bondInquiry := s.bondInquiry ++ [{ inquiry with price := 100 }] } = some e := by
    rw [BondInquiryService.getData, List.find?_append, he]
    rfl
  have hne : ¬ e.state = .received := by
    rw [hdone e (List.mem_of_find?_eq_some he)]
    decide
  unfold accept
  rw [BondInquiryService.onMessage_received hstate]
  simp only [hget, if_neg hne]

end BondInquiryConnector

end BondTrading
