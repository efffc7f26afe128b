/-
  File:      BondTrading/Position.lean
  Subject:   POSITIONS PER BOOK AND PRODUCT (positionservice.hpp).

  * `Position`, `BondPositionService` -- the code: a map from book to quantity inside a map from
    CUSIP to position; `getData` inserts a default entry, as `operator[]` does;
  * `addTradeWith_eq`, `getAggregatePositionWith_ofTrade` -- the functions that add `long`s, over any
    arithmetic (`…With long`), against the same in whole numbers (`addTrade` and so on);
  * `held` -- the ledger the service stands for: a quantity for every product and book;
    `held_addTrade`, `held_getData` say what one call does to it;
  * `getPosition_run` -- after any calls the service holds the net traded quantity of every book;
  * `heldTotal` -- the same for a whole product, which is what the risk service is told about;
  * `OwnEntries`, `ownEntries_iff` -- when the entries of the map are about their own products: as long
    as nothing is looked up that was not traded.

  The local `result` of `GetAggregatePosition` is never initialised: its value is an argument.
-/
import BondTrading.TradeBooking
import BondTrading.Library.Tables
import BondTrading.Library.Numbers

namespace BondTrading

open Cxx

/-! ## 1. The position of one product -/

structure Position where
  product : Bond
  positions : Table String ℤ

namespace Position

/-- `Position()`. -/
def default : Position := ⟨Bond.default, ∅⟩

section Arithmetic

variable (long : ℤ → ℤ)

/-- `Position(const Trade<T> trade)`. -/
def ofTradeWith (trade : Trade) : Position :=
  ⟨trade.product, (∅ : Table String ℤ).insert trade.book
    (match trade.side with
      | .buy => trade.quantity
      | .sell => long (-trade.quantity))⟩

/-- `GetAggregatePosition`; `result` is what its uninitialised local happens to hold. -/
def getAggregatePositionWith (result : ℤ) (p : Position) : ℤ :=
  (inOrder p.positions).foldl (fun result iter => long (result + iter.2)) result

/-- `AddTrade`: an existing book is changed in place, a new one is entered. -/
def addTradeWith (trade : Trade) (p : Position) : Position :=
  match p.positions.lookup trade.book with
  | some held =>
      let quantity := match trade.side with
        | .buy => long (held + trade.quantity)
        | .sell => long (held - trade.quantity)
      { p with positions := p.positions.insert trade.book quantity }
  | none =>
      let quantity := match trade.side with
        | .buy => trade.quantity
        | .sell => long (-trade.quantity)
      { p with positions := p.positions.insert trade.book quantity }

end Arithmetic

/-! In whole numbers. -/

def ofTrade : Trade → Position := ofTradeWith id

def getAggregatePosition : ℤ → Position → ℤ := getAggregatePositionWith id

def addTrade : Trade → Position → Position := addTradeWith id

/-- `GetPosition`: the entry of the book, 0 without one. -/
def getPosition (book : String) (p : Position) : ℤ := (p.positions.lookup book).getD 0

theorem positions_ofTrade (trade : Trade) :
    (ofTrade trade).positions = (∅ : Table String ℤ).insert trade.book trade.signed := rfl

/-- Both branches of `AddTrade` add the signed quantity to what `GetPosition` answers. -/
theorem positions_addTrade (trade : Trade) (p : Position) :
    (p.addTrade trade).positions =
      p.positions.insert trade.book (p.getPosition trade.book + trade.signed) := by
  unfold addTrade addTradeWith getPosition Trade.signed
  cases h : p.positions.lookup trade.book with
  | none => cases trade.side <;> simp
  | some held => cases trade.side <;> simp [sub_eq_add_neg]

@[simp] theorem getPosition_default (book : String) : default.getPosition book = 0 := rfl

theorem getPosition_ofTrade (trade : Trade) (book : String) :
    (ofTrade trade).getPosition book = if trade.book = book then trade.signed else 0 := by
  unfold getPosition
  rw [positions_ofTrade]
  by_cases h : trade.book = book
  · rw [if_pos h, ← h, AList.lookup_insert]
    rfl
  · rw [if_neg h, AList.lookup_insert_ne (Ne.symm h)]
    rfl

theorem getPosition_addTrade (trade : Trade) (p : Position) (book : String) :
    (p.addTrade trade).getPosition book =
      p.getPosition book + if trade.book = book then trade.signed else 0 := by
  unfold getPosition
  rw [positions_addTrade]
  by_cases h : trade.book = book
  · rw [if_pos h, ← h, AList.lookup_insert]
    rfl
  · rw [if_neg h, AList.lookup_insert_ne (Ne.symm h), add_zero]

/-- **The aggregate is the sum over the books, plus what the local held.** -/
theorem getAggregatePosition_eq (result : ℤ) (p : Position) :
    p.getAggregatePosition result = total p.positions + result := by
  unfold getAggregatePosition getAggregatePositionWith total
  rw [← ((perm_inOrder p.positions).map fun e => e.2).sum_eq]
  induction inOrder p.positions generalizing result with
  | nil => simp
  | cons e es ih =>
      rw [List.foldl_cons, ih, List.map_cons, List.sum_cons, id_eq]
      ring

theorem total_ofTrade (trade : Trade) : total (ofTrade trade).positions = trade.signed := by
  rw [positions_ofTrade, total_insert_new _ (AList.lookup_empty _), total_empty, zero_add]

theorem total_addTrade (trade : Trade) (p : Position) :
    total (p.addTrade trade).positions = total p.positions + trade.signed := by
  rw [positions_addTrade, getPosition]
  cases h : p.positions.lookup trade.book with
  | none => rw [total_insert_new _ h, Option.getD_none, zero_add]
  | some held =>
      rw [total_insert_old _ h, Option.getD_some]
      ring

section Arithmetic

variable {long : ℤ → ℤ} (hlong : LongArithmetic long)

/-- The aggregate of one trade's position is one sum. -/
theorem getAggregatePositionWith_ofTrade (long : ℤ → ℤ) (result : ℤ) (trade : Trade) :
    (ofTrade trade).getAggregatePositionWith long result = long (result + trade.signed) := rfl

include hlong

/-- **In range the functions are those in whole numbers.** -/
theorem ofTradeWith_eq {trade : Trade} (h : IsLong trade.signed) :
    ofTradeWith long trade = ofTrade trade := by
  unfold Trade.signed at h
  unfold ofTrade ofTradeWith
  cases hside : trade.side with
  | buy => rfl
  | sell =>
      rw [hside] at h
      show (⟨_, (∅ : Table String ℤ).insert trade.book (long (-trade.quantity))⟩ : Position) = _
      rw [hlong.exact _ h]
      rfl

theorem addTradeWith_eq {trade : Trade} {p : Position}
    (h : IsLong (p.getPosition trade.book + trade.signed)) :
    p.addTradeWith long trade = p.addTrade trade := by
  unfold getPosition Trade.signed at h
  unfold addTrade addTradeWith
  cases hbook : p.positions.lookup trade.book with
  | none =>
      cases hside : trade.side with
      | buy => rfl
      | sell =>
          rw [hbook, hside, Option.getD_none, zero_add] at h
          simp only [hlong.exact _ h, id]
  | some held =>
      rw [hbook, Option.getD_some] at h
      cases hside : trade.side with
      | buy =>
          rw [hside] at h
          simp only [hlong.exact _ h, id]
      | sell =>
          rw [hside, ← sub_eq_add_neg] at h
          simp only [hlong.exact _ h, id]

/-- The aggregate is that in whole numbers if the local and the books fit a `long` together, whatever
    their signs. -/
theorem getAggregatePositionWith_eq {result : ℤ} {p : Position}
    (h : |result| + (p.positions.entries.map fun e => |e.2|).sum ≤ 9223372036854775807) :
    p.getAggregatePositionWith long result = p.getAggregatePosition result ∧
      IsLong (p.getAggregatePosition result) := by
  rw [← ((perm_inOrder p.positions).map fun e => |e.2|).sum_eq] at h
  unfold getAggregatePosition getAggregatePositionWith
  generalize inOrder p.positions = es at h
  induction es generalizing result with
  | nil =>
      rw [List.map_nil, List.sum_nil, add_zero] at h
      exact ⟨rfl, isLong_of_abs h⟩
  | cons e es ih =>
      rw [List.map_cons, List.sum_cons, ← add_assoc] at h
      have hnext : |result + e.2| + (es.map fun e => |e.2|).sum ≤ 9223372036854775807 :=
        (add_le_add_left (abs_add_le _ _) _).trans h
      have hrest : 0 ≤ (es.map fun e => |e.2|).sum := by
        refine List.sum_nonneg fun x hx => ?_
        obtain ⟨e, -, rfl⟩ := List.mem_map.mp hx
        exact abs_nonneg _
      rw [List.foldl_cons, List.foldl_cons, hlong.exact _ (isLong_of_abs (by omega))]
      exact ih hnext

/-- An aggregate is a `long`, if its local holds one. -/
theorem isLong_getAggregatePositionWith {result : ℤ} (h : IsLong result) (p : Position) :
    IsLong (p.getAggregatePositionWith long result) := by
  unfold getAggregatePositionWith
  induction inOrder p.positions generalizing result with
  | nil => exact h
  | cons e es ih => exact ih (hlong.isLong _)

end Arithmetic

end Position

/-! ## 2. The service -/

structure BondPositionService (ι : Type) where
  currentPosition : Table String Position
  listenerList : List ι

namespace BondPositionService

variable {ι : Type}

def empty : BondPositionService ι := ⟨∅, []⟩

/-- `GetData`: the entry under the CUSIP, a default one being inserted if there is none. -/
def getData (cusip : String) (s : BondPositionService ι) : Position × BondPositionService ι :=
  match s.currentPosition.lookup cusip with
  | some p => (p, s)
  | none =>
      (Position.default,
        { s with currentPosition := s.currentPosition.insert cusip Position.default })

/-- `OnMessage`: the listeners are told, nothing is stored. -/
def onMessage (position : Position) (s : BondPositionService ι) : List (ι × Position) :=
  notify s.listenerList position

def addListener (listener : ι) (s : BondPositionService ι) : BondPositionService ι :=
  { s with listenerList := s.listenerList ++ [listener] }

/-- `AddTrade`: the trade goes into the entry of its product, or makes one; the listeners get the
    position of the trade alone, in both branches. -/
def addTradeWith (long : ℤ → ℤ) (trade : Trade) (s : BondPositionService ι) :
    BondPositionService ι × List (ι × Position) :=
  match s.currentPosition.lookup trade.product.productId with
  | some p =>
      let s := { s with currentPosition :=
        s.currentPosition.insert trade.product.productId (p.addTradeWith long trade) }
      let temp := Position.ofTradeWith long trade
      (s, s.onMessage temp)
  | none =>
      let temp := Position.ofTradeWith long trade
      let s := { s with currentPosition :=
        s.currentPosition.insert trade.product.productId temp }
      (s, s.onMessage temp)

/-- `AddTrade` in whole numbers. -/
def addTrade : Trade → BondPositionService ι → BondPositionService ι × List (ι × Position) :=
  addTradeWith id

/-- Every listener gets the trade's own position. -/
theorem addTradeWith_calls (long : ℤ → ℤ) (trade : Trade) (s : BondPositionService ι) :
    (s.addTradeWith long trade).2 = notify s.listenerList (Position.ofTradeWith long trade) := by
  unfold addTradeWith
  cases s.currentPosition.lookup trade.product.productId <;> rfl

/-- What a trade leaves under its own CUSIP. -/
def entryAfter (trade : Trade) (s : BondPositionService ι) : Position :=
  match s.currentPosition.lookup trade.cusip with
  | some p => p.addTrade trade
  | none => Position.ofTrade trade

/-- **One trade**: its product's entry is rewritten, and every listener gets the trade's own
    position. -/
theorem addTrade_eq (trade : Trade) (s : BondPositionService ι) :
    s.addTrade trade =
      ({ s with currentPosition := s.currentPosition.insert trade.cusip (s.entryAfter trade) },
        notify s.listenerList (Position.ofTrade trade)) := by
  unfold addTrade addTradeWith entryAfter Trade.cusip
  cases s.currentPosition.lookup trade.product.productId <;> rfl

/-! ## 3. The ledger the service stands for -/

/-- The quantity held of a product in a book. -/
def held (s : BondPositionService ι) (cusip book : String) : ℤ :=
  ((s.currentPosition.lookup cusip).map (Position.getPosition book)).getD 0

/-- The quantity held of a product over all books. -/
def heldTotal (s : BondPositionService ι) (cusip : String) : ℤ :=
  ((s.currentPosition.lookup cusip).map fun p => total p.positions).getD 0

theorem held_insert (s : BondPositionService ι) (k : String) (p : Position) (cusip book : String) :
    held { s with currentPosition := s.currentPosition.insert k p } cusip book =
      if k = cusip then p.getPosition book else s.held cusip book := by
  unfold held
  by_cases h : k = cusip
  · rw [if_pos h, ← h, AList.lookup_insert]
    rfl
  · rw [if_neg h, AList.lookup_insert_ne (Ne.symm h)]

theorem heldTotal_insert (s : BondPositionService ι) (k : String) (p : Position) (cusip : String) :
    heldTotal { s with currentPosition := s.currentPosition.insert k p } cusip =
      if k = cusip then total p.positions else s.heldTotal cusip := by
  unfold heldTotal
  by_cases h : k = cusip
  · rw [if_pos h, ← h, AList.lookup_insert]
    rfl
  · rw [if_neg h, AList.lookup_insert_ne (Ne.symm h)]

/-- What `GetData` answers is the ledger's entry. -/
theorem getData_held (s : BondPositionService ι) (cusip book : String) :
    (s.getData cusip).1.getPosition book = s.held cusip book := by
  unfold getData held
  cases s.currentPosition.lookup cusip <;> rfl

theorem getData_heldTotal (s : BondPositionService ι) (cusip : String) :
    total (s.getData cusip).1.positions = s.heldTotal cusip := by
  unfold getData heldTotal
  cases s.currentPosition.lookup cusip <;> rfl

/-- A lookup leaves the ledger alone, also where it inserts an entry. -/
theorem held_getData (s : BondPositionService ι) (k cusip book : String) :
    (s.getData k).2.held cusip book = s.held cusip book := by
  unfold getData
  cases h : s.currentPosition.lookup k with
  | some p => rfl
  | none =>
      rw [held_insert]
      split_ifs with hk
      · subst hk
        simp [held, h]
      · rfl

/-- **A trade moves one entry of the ledger by its signed quantity.** -/
theorem held_addTrade (trade : Trade) (s : BondPositionService ι) (cusip book : String) :
    (s.addTrade trade).1.held cusip book =
      s.held cusip book +
        if trade.cusip = cusip ∧ trade.book = book then trade.signed else 0 := by
  rw [addTrade_eq, held_insert]
  by_cases hc : trade.cusip = cusip
  · subst hc
    simp only [if_true, true_and]
    unfold entryAfter held
    cases s.currentPosition.lookup trade.cusip with
    | some p => exact Position.getPosition_addTrade trade p book
    | none => rw [Position.getPosition_ofTrade]; simp
  · simp [hc]

theorem heldTotal_addTrade (trade : Trade) (s : BondPositionService ι) (cusip : String) :
    (s.addTrade trade).1.heldTotal cusip =
      s.heldTotal cusip + if trade.cusip = cusip then trade.signed else 0 := by
  rw [addTrade_eq, heldTotal_insert]
  by_cases hc : trade.cusip = cusip
  · subst hc
    simp only [if_true]
    unfold entryAfter heldTotal
    cases s.currentPosition.lookup trade.cusip with
    | some p => exact Position.total_addTrade trade p
    | none => rw [Position.total_ofTrade]; simp
  · simp [hc]

/-! ## 4. Runs -/

/-- A call on the service. -/
inductive Call where
  | addTrade (trade : Trade)
  | getData (cusip : String)
  deriving DecidableEq, Repr

/-- The state after one call. -/
def step (s : BondPositionService ι) : Call → BondPositionService ι
  | .addTrade trade => (s.addTrade trade).1
  | .getData cusip => (s.getData cusip).2

/-- The trades among the calls, in order. -/
def tradesOf (calls : List Call) : List Trade :=
  calls.filterMap fun
    | .addTrade trade => some trade
    | .getData _ => none

/-- **The ledger after any calls** on an empty service is the net traded quantity. -/
theorem held_run (listeners : List ι) (calls : List Call) :
    ∀ cusip book, (calls.foldl step ⟨∅, listeners⟩).held cusip book =
      netBook (tradesOf calls) cusip book := by
  refine foldl_invariant (I := fun pre (s : BondPositionService ι) =>
    ∀ cusip book, s.held cusip book = netBook (tradesOf pre) cusip book) (fun _ _ => rfl) ?_ calls
  intro pre call s ih cusip book
  unfold tradesOf at ih ⊢
  rw [List.filterMap_append]
  cases call with
  | addTrade trade =>
      show (s.addTrade trade).1.held cusip book = netBook (_ ++ [trade]) cusip book
      rw [held_addTrade, netBook_concat, ih]
  | getData k =>
      show (s.getData k).2.held cusip book = netBook (_ ++ []) cusip book
      rw [held_getData, List.append_nil, ih]

/-- **Per-book accounting**: whatever trades and lookups an empty service has seen, `GetData` and
    `GetPosition` answer bought minus sold in that product and book. -/
theorem getPosition_run (listeners : List ι) (calls : List Call) (cusip book : String) :
    ((calls.foldl step ⟨∅, listeners⟩).getData cusip).1.getPosition book =
      netBook (tradesOf calls) cusip book := by
  rw [getData_held, held_run]

/-! ## 5. Entries and lookups -/

theorem tradesOf_addTrade (pre : List Call) (trade : Trade) :
    tradesOf (pre ++ [.addTrade trade]) = tradesOf pre ++ [trade] := by
  simp [tradesOf]

theorem tradesOf_getData (pre : List Call) (cusip : String) :
    tradesOf (pre ++ [.getData cusip]) = tradesOf pre := by
  simp [tradesOf]

/-- **What a reader of the map relies on** after some calls: an entry is about the product it stands
    under, there is one for every product traded and no other, and the map is the one that the
    trades alone would have made. -/
structure OwnEntries (listeners : List ι) (pre : List Call) (s : BondPositionService ι) : Prop where
  product : ∀ cusip p, s.currentPosition.lookup cusip = some p → p.product.productId = cusip
  keys : ∀ cusip, cusip ∈ s.currentPosition ↔ cusip ∈ (tradesOf pre).map Trade.cusip
  unaltered : s = (tradesOf pre).foldl (fun s trade => (s.addTrade trade).1) ⟨∅, listeners⟩

theorem ownEntries_nil (listeners : List ι) : OwnEntries listeners [] ⟨∅, listeners⟩ where
  product _ _ h := by cases h
  keys cusip := ⟨fun h => absurd h (AList.notMem_empty cusip), fun h => by cases h⟩
  unaltered := rfl

section Step

variable {listeners : List ι} {pre : List Call} {s : BondPositionService ι}
  (h : OwnEntries listeners pre s)

include h

/-- What a trade leaves under its CUSIP is about the product of the trade. -/
theorem OwnEntries.product_entryAfter (trade : Trade) :
    (s.entryAfter trade).product.productId = trade.cusip := by
  unfold entryAfter
  cases hp : s.currentPosition.lookup trade.cusip with
  | none => rfl
  | some p =>
      have hproduct : (p.addTrade trade).product = p.product := by
        unfold Position.addTrade Position.addTradeWith
        split <;> rfl
      show (p.addTrade trade).product.productId = _
      rw [hproduct]
      exact h.product trade.cusip p hp

/-- A trade keeps it. -/
theorem ownEntries_addTrade (trade : Trade) :
    OwnEntries listeners (pre ++ [.addTrade trade]) (s.addTrade trade).1 where
  product cusip p hp := by
    rw [addTrade_eq] at hp
    by_cases hc : cusip = trade.cusip
    · rw [hc, AList.lookup_insert] at hp
      rw [hc, ← Option.some.inj hp]
      exact h.product_entryAfter trade
    · rw [AList.lookup_insert_ne hc] at hp
      exact h.product cusip p hp
  keys cusip := by
    rw [addTrade_eq, tradesOf_addTrade, List.map_append, List.mem_append, AList.mem_insert, h.keys,
      List.map_singleton, List.mem_singleton]
    exact or_comm
  unaltered := by
    rw [tradesOf_addTrade, List.foldl_append, ← h.unaltered]
    rfl

/-- So does a lookup of a product that was traded: it finds the entry. -/
theorem ownEntries_getData {cusip : String} (hc : cusip ∈ (tradesOf pre).map Trade.cusip) :
    OwnEntries listeners (pre ++ [.getData cusip]) (s.getData cusip).2 := by
  obtain ⟨p, hp⟩ := Option.isSome_iff_exists.mp (AList.lookup_isSome.mpr ((h.keys cusip).mpr hc))
  have hsame : (s.getData cusip).2 = s := by
    unfold getData
    rw [hp]
  rw [hsame]
  refine { product := h.product, keys := ?_, unaltered := ?_ }
  · rw [tradesOf_getData]
    exact h.keys
  · rw [tradesOf_getData]
    exact h.unaltered

end Step

/-- Whatever is looked up has an entry from then on. -/
theorem mem_getData (cusip : String) (s : BondPositionService ι) :
    cusip ∈ (s.getData cusip).2.currentPosition := by
  unfold getData
  cases hp : s.currentPosition.lookup cusip with
  | none => exact (AList.mem_insert _).mpr (Or.inl rfl)
  | some p =>
      refine AList.lookup_isSome.mp ?_
      rw [hp]
      rfl

/-- Every lookup is for a product that has been traded. -/
def LooksUpTraded (calls : List Call) : Prop :=
  ∀ pre cusip post, calls = pre ++ .getData cusip :: post →
    cusip ∈ (tradesOf pre).map Trade.cusip

/-- **When entries are about their own products and lookups change nothing**, in every state
    reached: exactly when nothing is looked up that was not traded before. -/
theorem ownEntries_iff (listeners : List ι) (calls : List Call) :
    (∀ pre, pre <+: calls → OwnEntries listeners pre (pre.foldl step ⟨∅, listeners⟩)) ↔
      LooksUpTraded calls := by
  refine ⟨fun h pre cusip post hcalls => ?_, fun h pre hpre => ?_⟩
  · have hprefix : pre ++ [.getData cusip] <+: calls := ⟨post, by rw [hcalls]; simp⟩
    have hkeys := (h _ hprefix).keys cusip
    rw [List.foldl_append, tradesOf_getData] at hkeys
    exact hkeys.mp (mem_getData cusip _)
  · induction pre using List.reverseRecOn with
    | nil => exact ownEntries_nil listeners
    | append_singleton pre call ih =>
        have hown := ih ((List.prefix_append pre [call]).trans hpre)
        obtain ⟨post, hcalls⟩ := hpre
        rw [List.foldl_append]
        cases call with
        | addTrade trade => exact ownEntries_addTrade hown trade
        | getData cusip =>
            exact ownEntries_getData hown (h pre cusip post (by rw [← hcalls]; simp))

/-- A CUSIP is looked up, and traded after that. -/
def lookedUpFirst : List Call :=
  [.getData "912828M72", .addTrade ⟨.ofCusip "912828M72", "T1", "TRSY1", 1000, .buy⟩]

/-- The lookup makes an entry for the product `0`, and the trade leaves it at that. -/
theorem lookedUpFirst_product :
    (((lookedUpFirst.take 1).foldl step (⟨∅, []⟩ : BondPositionService String)).currentPosition.keys =
        ["912828M72"] ∧ tradesOf (lookedUpFirst.take 1) = []) ∧
      ((lookedUpFirst.foldl step (⟨∅, []⟩ : BondPositionService String)).currentPosition.lookup
        "912828M72").map (fun p => p.product.productId) = some "0" ∧
      ¬ OwnEntries [] lookedUpFirst (lookedUpFirst.foldl step (⟨∅, []⟩ : BondPositionService String)) := by
  have hproduct : ((lookedUpFirst.foldl step
      (⟨∅, []⟩ : BondPositionService String)).currentPosition.lookup "912828M72").map
        (fun p => p.product.productId) = some "0" := by decide +kernel
  refine ⟨⟨by decide +kernel, by decide +kernel⟩, hproduct, fun h => ?_⟩
  obtain ⟨p, hp, hzero⟩ := Option.map_eq_some_iff.mp hproduct
  rw [h.product "912828M72" p hp] at hzero
  exact absurd hzero (by decide)

end BondPositionService

end BondTrading
