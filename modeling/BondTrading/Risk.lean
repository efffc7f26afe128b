/-
  File:      BondTrading/Risk.lean
  Subject:   RISK PER PRODUCT AND PER SECTOR (riskservice.hpp).

  * `PV01`, `bondPV01`, `BondRiskService` -- the code; `addPosition` searches the vector of
    positions, replaces the entry of its product in place or appends one, and hands the whole
    vector to the historical listeners;
  * `RiskStore` -- the store invariant: one entry per product, each with the PV01 of the table;
    `riskStore_updatedWith` and `riskStore_run` say that every call and every run keeps it;
  * `keys_run` -- the entries are the products met, in order of first appearance;
  * `riskState_iff` -- the store holds what the calls brought in, and each call hands exactly that to
    the historical listeners, as long as the sums of every product are in the range of a `long`;
  * `getBucketedRisk_eq` -- a sector's risk, in exact rationals, is the sum over the entries of its
    products.

  The value of an uninitialised `result` inside `GetAggregatePosition` comes with each call. What the
  arithmetic of `long`s makes of a sum is an argument of the functions `…With`; without it they are
  about whole numbers.
-/
import BondTrading.Position
import Mathlib.Data.List.Infix
import Mathlib.Tactic.NormNum

namespace BondTrading

open Cxx

/-! ## 1. The data -/

/-- A product with its PV01 and the quantity it is held in. -/
structure PV01 where
  product : Bond
  pv01 : ℚ
  quantity : ℤ
  deriving DecidableEq, Repr

def PV01.cusip (entry : PV01) : String := entry.product.productId

/-- The comparison every search of the service makes. -/
def PV01.isOf (cusip : String) (entry : PV01) : Bool := entry.cusip = cusip

theorem PV01.isOf_iff {cusip : String} {entry : PV01} :
    entry.isOf cusip = true ↔ entry.cusip = cusip := decide_eq_true_iff

/-- `BondPV01`. -/
def bondPV01 (cusip : String) : ℚ :=
  if cusip = "912828M72" then 0.01974732
  else if cusip = "912828N22" then 0.029349458
  else if cusip = "912828M98" then 0.047720509
  else if cusip = "912828M80" then 0.06495714
  else if cusip = "912828M56" then 0.089254107
  else if cusip = "912810RP5" then 0.198018642
  else 0

theorem bondPV01_nonneg (cusip : String) : 0 ≤ bondPV01 cusip := by
  unfold bondPV01
  split_ifs <;> norm_num

structure BucketedSector where
  products : List Bond
  name : String

/-! ## 2. The service -/

/-- `ι` listens to single entries (and is never told), `κ` to the whole vector. -/
structure BondRiskService (ι κ : Type) where
  listenerList : List ι
  historicalDataListenerList : List κ
  riskPosition : List PV01

namespace BondRiskService

variable {ι κ : Type}

def empty : BondRiskService ι κ := ⟨[], [], []⟩

/-- The vector after `AddPosition`; `aggregate` is what `GetAggregatePosition` returned. -/
def updatedWith (long : ℤ → ℤ) (position : Position) (aggregate : ℤ) (riskPosition : List PV01) :
    List PV01 :=
  upsert (PV01.isOf position.product.productId)
    (fun iter => ⟨iter.product, iter.pv01, long (aggregate + iter.quantity)⟩)
    ⟨position.product, bondPV01 position.product.productId, aggregate⟩ riskPosition

/-- `AddPosition`; `result` is the uninitialised local of its `GetAggregatePosition` call. -/
def addPositionWith (long : ℤ → ℤ) (result : ℤ) (position : Position) (s : BondRiskService ι κ) :
    BondRiskService ι κ × List (κ × List PV01) :=
  let riskPosition :=
    updatedWith long position (position.getAggregatePositionWith long result) s.riskPosition
  ({ s with riskPosition := riskPosition },
    notify s.historicalDataListenerList riskPosition)

/-- The same in whole numbers. -/
def updated : Position → ℤ → List PV01 → List PV01 := updatedWith id

def addPosition : ℤ → Position → BondRiskService ι κ →
    BondRiskService ι κ × List (κ × List PV01) := addPositionWith id

/-- `OnMessage`: empty in the code, which sends everything through `AddPosition`. -/
def onMessage (_data : PV01) (s : BondRiskService ι κ) : BondRiskService ι κ := s

/-- `GetBucketedRisk`, as it is computed: per product of the sector the first entry counts, at the
    PV01 of the table. -/
def bucketedRisk (sector : BucketedSector) (s : BondRiskService ι κ) : Formula :=
  sector.products.foldl
    (fun result product =>
      match s.riskPosition.find? (PV01.isOf product.productId) with
      | some entry =>
          .add result (.mul (.literal (bondPV01 product.productId)) (.long entry.quantity))
      | none => result) (.literal 0)

/-- `GetBucketedRisk` in exact rationals. -/
def getBucketedRisk (sector : BucketedSector) (s : BondRiskService ι κ) : ℚ :=
  (s.bucketedRisk sector).exact

/-- `GetData`; `none` is its `exit(-1)`. -/
def getData (cusip : String) (s : BondRiskService ι κ) : Option PV01 :=
  s.riskPosition.find? (PV01.isOf cusip)

def addListener (listener : ι) (s : BondRiskService ι κ) : BondRiskService ι κ :=
  { s with listenerList := s.listenerList ++ [listener] }

def addHistoricalDataListener (listener : κ) (s : BondRiskService ι κ) : BondRiskService ι κ :=
  { s with historicalDataListenerList := s.historicalDataListenerList ++ [listener] }

/-! ## 3. One call -/

section Update

variable (long : ℤ → ℤ) (position : Position) (aggregate : ℤ) (entries : List PV01)

theorem keys_updatedWith :
    (updatedWith long position aggregate entries).map PV01.cusip =
      if position.product.productId ∈ entries.map PV01.cusip then entries.map PV01.cusip
      else entries.map PV01.cusip ++ [position.product.productId] := by
  unfold updatedWith
  apply keys_upsert
  · exact fun _ => PV01.isOf_iff
  · exact fun _ _ => rfl
  · rfl

theorem keys_updated :
    (updated position aggregate entries).map PV01.cusip =
      if position.product.productId ∈ entries.map PV01.cusip then entries.map PV01.cusip
      else entries.map PV01.cusip ++ [position.product.productId] :=
  keys_updatedWith id position aggregate entries

/-- The quantity a store holds of a product. -/
def quantityIn (entries : List PV01) (cusip : String) : ℤ :=
  ((entries.find? (PV01.isOf cusip)).map PV01.quantity).getD 0

/-- **The product of the position gets the aggregate added**, if the arithmetic can do that; the others
    stay as they are. -/
theorem quantityIn_updatedWith
    (h : long (aggregate + quantityIn entries position.product.productId) =
      aggregate + quantityIn entries position.product.productId) (cusip : String) :
    quantityIn (updatedWith long position aggregate entries) cusip =
      quantityIn entries cusip +
        if position.product.productId = cusip then aggregate else 0 := by
  unfold quantityIn at h
  unfold quantityIn updatedWith
  by_cases hc : position.product.productId = cusip
  · subst hc
    rw [if_pos rfl, find?_upsert_self]
    · cases hfind : entries.find? (PV01.isOf position.product.productId) with
      | none => exact (zero_add aggregate).symm
      | some entry =>
          rw [hfind] at h
          exact h.trans (add_comm aggregate entry.quantity)
    · exact fun entry he => he
    · exact PV01.isOf_iff.mpr rfl
  · rw [if_neg hc, add_zero, find?_upsert_other]
    · intro entry he
      have hne : entry.cusip ≠ cusip := fun e => hc ((PV01.isOf_iff.mp he).symm.trans e)
      exact ⟨decide_eq_false hne, decide_eq_false hne⟩
    · exact decide_eq_false hc

theorem quantityIn_updated (cusip : String) :
    quantityIn (updated position aggregate entries) cusip =
      quantityIn entries cusip +
        if position.product.productId = cusip then aggregate else 0 :=
  quantityIn_updatedWith id position aggregate entries rfl cusip

end Update

/-- **The store invariant**: no product has two entries, and every entry carries the PV01 the
    table gives its product. -/
structure RiskStore (entries : List PV01) : Prop where
  distinct : (entries.map PV01.cusip).Nodup
  fromTable : ∀ entry ∈ entries, entry.pv01 = bondPV01 entry.cusip

theorem riskStore_nil : RiskStore [] := ⟨List.nodup_nil, fun _ h => by cases h⟩

/-- **Every update keeps the store invariant**: a replaced entry keeps its product and PV01. -/
theorem riskStore_updatedWith {entries : List PV01} (h : RiskStore entries) (long : ℤ → ℤ)
    (position : Position) (aggregate : ℤ) :
    RiskStore (updatedWith long position aggregate entries) where
  distinct := by
    rw [keys_updatedWith]
    split_ifs with hk
    · exact h.distinct
    · exact h.distinct.append (List.nodup_singleton _)
        (by rw [List.disjoint_singleton]; exact hk)
  fromTable entry hentry := by
    rcases mem_upsert hentry with hold | ⟨rfl, _⟩ | ⟨old, hold, _, rfl⟩
    · exact h.fromTable entry hold
    · rfl
    · exact h.fromTable old hold

/-! ## 4. Runs -/

/-- A run of `AddPosition` calls; each comes with the value of its uninitialised local. -/
def runWith (long : ℤ → ℤ) (calls : List (Position × ℤ)) (s : BondRiskService ι κ) :
    BondRiskService ι κ :=
  calls.foldl (fun s call => (s.addPositionWith long call.2 call.1).1) s

/-- The same in whole numbers. -/
def run : List (Position × ℤ) → BondRiskService ι κ → BondRiskService ι κ := runWith id

theorem runWith_concat (long : ℤ → ℤ) (calls : List (Position × ℤ)) (call : Position × ℤ)
    (s : BondRiskService ι κ) :
    runWith long (calls ++ [call]) s = ((runWith long calls s).addPositionWith long call.2 call.1).1 := by
  simp [runWith]

theorem run_concat (calls : List (Position × ℤ)) (call : Position × ℤ)
    (s : BondRiskService ι κ) :
    run (calls ++ [call]) s = ((run calls s).addPosition call.2 call.1).1 :=
  runWith_concat id calls call s

section Store

variable (long : ℤ → ℤ) (calls : List (Position × ℤ)) (ls : List ι) (hs : List κ)

/-- A run leaves the listeners as they are. -/
theorem historicalListeners_runWith :
    (runWith long calls ⟨ls, hs, []⟩).historicalDataListenerList = hs := by
  refine foldl_invariant (I := fun _ (s : BondRiskService ι κ) => s.historicalDataListenerList = hs)
    (s := ⟨ls, hs, []⟩) rfl ?_ calls
  exact fun _ _ _ ih => ih

theorem riskStore_runWith : RiskStore (runWith long calls ⟨ls, hs, []⟩).riskPosition :=
  foldl_invariant (I := fun _ (s : BondRiskService ι κ) => RiskStore s.riskPosition)
    (s := ⟨ls, hs, []⟩) riskStore_nil (fun _ _ _ ih => riskStore_updatedWith ih long _ _) calls

theorem riskStore_run : RiskStore (run calls ⟨ls, hs, []⟩).riskPosition :=
  riskStore_runWith id calls ls hs

/-- **The entries are the products met so far, in order of first appearance.** -/
theorem keys_run :
    (runWith long calls ⟨ls, hs, []⟩).riskPosition.map PV01.cusip =
      (calls.map fun call => call.1.product.productId).eraseDups := by
  refine foldl_invariant (I := fun pre (s : BondRiskService ι κ) =>
    s.riskPosition.map PV01.cusip = (pre.map fun call => call.1.product.productId).eraseDups)
    (s := ⟨ls, hs, []⟩) rfl ?_ calls
  intro pre call s ih
  rw [List.map_append, List.map_singleton, eraseDups_concat, ← ih]
  exact keys_updatedWith _ _ _ _

end Store

/-- In a store, the quantity of a product is that of its entry. -/
theorem RiskStore.quantityIn_eq {entries : List PV01} (h : RiskStore entries) {entry : PV01}
    (hentry : entry ∈ entries) : quantityIn entries entry.cusip = entry.quantity := by
  obtain ⟨k, hk⟩ := List.mem_iff_getElem?.mp hentry
  have hfind : entries.find? (PV01.isOf entry.cusip) = some entry :=
    find?_eq_getElem? h.distinct hk
  unfold quantityIn
  rw [hfind]
  rfl

/-- What the calls for a product brought in: the sum of the aggregates they returned. -/
def broughtIn (long : ℤ → ℤ) (cusip : String) (calls : List (Position × ℤ)) : ℤ :=
  ((calls.filter fun call => call.1.product.productId = cusip).map fun call =>
    call.1.getAggregatePositionWith long call.2).sum

theorem broughtIn_concat (long : ℤ → ℤ) (cusip : String) (calls : List (Position × ℤ))
    (call : Position × ℤ) :
    broughtIn long cusip (calls ++ [call]) =
      broughtIn long cusip calls +
        if call.1.product.productId = cusip then call.1.getAggregatePositionWith long call.2
        else 0 := by
  unfold broughtIn
  rw [List.filter_append, List.map_append, List.sum_append]
  by_cases h : call.1.product.productId = cusip
  · simp [h]
  · simp [h]

/-- **What the store is after some calls**: the products met, in order of first appearance, each
    with the PV01 of the table and with what its calls brought in. -/
structure RiskState (long : ℤ → ℤ) (calls : List (Position × ℤ)) (entries : List PV01) : Prop where
  keys : entries.map PV01.cusip = (calls.map fun call => call.1.product.productId).eraseDups
  distinct : (entries.map PV01.cusip).Nodup
  fromTable : ∀ entry ∈ entries, entry.pv01 = bondPV01 entry.cusip
  quantity : ∀ entry ∈ entries, entry.quantity = broughtIn long entry.cusip calls

/-- The calls the historical listeners get in a run, in order. -/
def told (long : ℤ → ℤ) : List (Position × ℤ) → BondRiskService ι κ → List (κ × List PV01)
  | [], _ => []
  | call :: calls, s =>
      (s.addPositionWith long call.2 call.1).2 ++ told long calls (s.addPositionWith long call.2 call.1).1

theorem told_concat (long : ℤ → ℤ) (calls : List (Position × ℤ)) (call : Position × ℤ)
    (s : BondRiskService ι κ) :
    told long (calls ++ [call]) s =
      told long calls s ++ ((runWith long calls s).addPositionWith long call.2 call.1).2 := by
  induction calls generalizing s with
  | nil => exact List.append_nil _
  | cons c calls ih =>
      show (s.addPositionWith long c.2 c.1).2 ++
        told long (calls ++ [call]) (s.addPositionWith long c.2 c.1).1 = _
      rw [ih, ← List.append_assoc]
      rfl

/-- **What is told of the store**: each call of a run tells every historical listener the store of the
    run up to and with it. -/
theorem told_eq (long : ℤ → ℤ) (ls : List ι) (hs : List κ) (calls : List (Position × ℤ)) :
    told long calls (⟨ls, hs, []⟩ : BondRiskService ι κ) =
      calls.inits.tail.flatMap fun pre =>
        notify hs (runWith long pre (⟨ls, hs, []⟩ : BondRiskService ι κ)).riskPosition := by
  induction calls using List.reverseRecOn with
  | nil => rfl
  | append_singleton calls call ih =>
      have hinits : (calls ++ [call]).inits.tail = calls.inits.tail ++ [calls ++ [call]] := by
        cases calls with
        | nil => rfl
        | cons c calls => simp [List.inits_append]
      rw [told_concat, ih, hinits, List.flatMap_append, List.flatMap_singleton, runWith_concat]
      congr 1
      show notify (runWith long calls _).historicalDataListenerList _ = _
      rw [historicalListeners_runWith]
      rfl

/-- What the calls brought in is a `long` all the time, product by product. -/
def SumsFit (long : ℤ → ℤ) (calls : List (Position × ℤ)) : Prop :=
  ∀ pre, pre <+: calls → ∀ cusip, IsLong (broughtIn long cusip pre)

theorem SumsFit.of_concat {long : ℤ → ℤ} {calls : List (Position × ℤ)} {call : Position × ℤ}
    (h : SumsFit long (calls ++ [call])) : SumsFit long calls := fun pre hpre =>
  h pre (hpre.trans (List.prefix_append _ _))

section Range

variable {long : ℤ → ℤ} (hlong : LongArithmetic long) (ls : List ι) (hs : List κ)
  {calls : List (Position × ℤ)} (hcalls : ∀ call ∈ calls, IsLong call.2)

include hlong

/-- As long as these fit, the store holds of every product what its calls brought in. -/
theorem quantityIn_runWith (hfit : SumsFit long calls) (cusip : String) :
    quantityIn (runWith long calls (⟨ls, hs, []⟩ : BondRiskService ι κ)).riskPosition cusip =
      broughtIn long cusip calls := by
  induction calls using List.reverseRecOn generalizing cusip with
  | nil => rfl
  | append_singleton calls call ih =>
      have hsum := hfit _ List.prefix_rfl call.1.product.productId
      rw [broughtIn_concat, if_pos rfl, ← ih hfit.of_concat, add_comm] at hsum
      rw [runWith_concat, broughtIn_concat, ← ih hfit.of_concat]
      exact quantityIn_updatedWith long _ _ _ (hlong.exact _ hsum) cusip

include hcalls

/-- Every entry is a `long`, whatever the sums are. -/
theorem isLong_quantity :
    ∀ entry ∈ (runWith long calls (⟨ls, hs, []⟩ : BondRiskService ι κ)).riskPosition,
      IsLong entry.quantity := by
  induction calls using List.reverseRecOn with
  | nil => exact fun _ h => by cases h
  | append_singleton calls call ih =>
      obtain ⟨hcalls, hcall⟩ := List.forall_mem_append.mp hcalls
      intro entry hentry
      rw [runWith_concat] at hentry
      rcases mem_upsert hentry with hold | ⟨rfl, -⟩ | ⟨old, -, -, rfl⟩
      · exact ih hcalls entry hold
      · exact Position.isLong_getAggregatePositionWith hlong (hcall call List.mem_cons_self) _
      · exact hlong.isLong _

/-- **When the risk store is right**: in every state of a run it is `RiskState`, and so is what each
    call hands to the historical listeners, exactly when the aggregates that the calls for a product
    brought in add up to a `long` all the time. -/
theorem riskState_iff :
    ((∀ pre, pre <+: calls →
        RiskState long pre (runWith long pre (⟨ls, hs, []⟩ : BondRiskService ι κ)).riskPosition) ∧
      told long calls (⟨ls, hs, []⟩ : BondRiskService ι κ) =
        calls.inits.tail.flatMap fun pre =>
          notify hs (runWith long pre (⟨ls, hs, []⟩ : BondRiskService ι κ)).riskPosition) ↔
      SumsFit long calls := by
  constructor
  · rintro ⟨hstates, -⟩ pre hpre cusip
    by_cases hcusip : cusip ∈ pre.map fun call => call.1.product.productId
    · -- its entry is a `long`, and it is the sum
      rw [← List.mem_eraseDups, ← (hstates pre hpre).keys] at hcusip
      obtain ⟨entry, hentry, rfl⟩ := List.mem_map.mp hcusip
      rw [← (hstates pre hpre).quantity entry hentry]
      exact isLong_quantity hlong ls hs (fun call h => hcalls call (hpre.subset h)) entry hentry
    · have hnone : broughtIn long cusip pre = 0 := by
        have hfilter : (pre.filter fun call => call.1.product.productId = cusip) = [] :=
          List.filter_eq_nil_iff.mpr fun call hcall heq =>
            hcusip (of_decide_eq_true heq ▸ List.mem_map_of_mem hcall)
        rw [broughtIn, hfilter]
        rfl
      rw [hnone]
      decide
  · intro hfit
    refine ⟨fun pre hpre => ?_, told_eq long ls hs calls⟩
    have hstore := riskStore_runWith long pre ls hs
    refine { keys := keys_run long pre ls hs, distinct := hstore.distinct,
             fromTable := hstore.fromTable, quantity := fun entry hentry => ?_ }
    rw [← hstore.quantityIn_eq hentry]
    exact quantityIn_runWith hlong ls hs (fun pre' h => hfit pre' (h.trans hpre)) entry.cusip

end Range

/-- Calls for two-year notes, in these quantities. -/
def twoYearCalls (quantities : List ℤ) : List (Position × ℤ) :=
  quantities.map fun quantity =>
    (Position.ofTrade ⟨.ofCusip "912828M72", "T1", "TRSY1", quantity, .buy⟩, 0)

/-- The theorem at two purchases. -/
theorem riskState_iff_twoYear :
    ((∀ pre, pre <+: twoYearCalls [1000, 2000] →
        RiskState wrapLong pre
          (runWith wrapLong pre (⟨[], ["risk log"], []⟩ : BondRiskService Empty String)).riskPosition) ∧
      told wrapLong (twoYearCalls [1000, 2000]) (⟨[], ["risk log"], []⟩ : BondRiskService Empty String) =
        (twoYearCalls [1000, 2000]).inits.tail.flatMap fun pre =>
          notify ["risk log"]
            (runWith wrapLong pre (⟨[], ["risk log"], []⟩ : BondRiskService Empty String)).riskPosition) ↔
      SumsFit wrapLong (twoYearCalls [1000, 2000]) :=
  riskState_iff wrapLong_arithmetic [] ["risk log"] (by decide)

/-- The largest `long` and one more: the entry is negative. -/
theorem riskPosition_overflows :
    ¬ RiskState wrapLong (twoYearCalls [9223372036854775807, 1])
        (runWith wrapLong (twoYearCalls [9223372036854775807, 1])
          (⟨[], [], []⟩ : BondRiskService Empty Empty)).riskPosition ∧
      (runWith wrapLong (twoYearCalls [9223372036854775807, 1])
        (⟨[], [], []⟩ : BondRiskService Empty Empty)).riskPosition.map PV01.quantity =
          [-9223372036854775808] ∧
      broughtIn wrapLong "912828M72" (twoYearCalls [9223372036854775807, 1]) =
        9223372036854775808 := by
  have hentries : (runWith wrapLong (twoYearCalls [9223372036854775807, 1])
      (⟨[], [], []⟩ : BondRiskService Empty Empty)).riskPosition =
        [⟨.ofCusip "912828M72", bondPV01 "912828M72", -9223372036854775808⟩] := by decide +kernel
  have hsum : broughtIn wrapLong "912828M72" (twoYearCalls [9223372036854775807, 1]) =
      9223372036854775808 := by decide +kernel
  refine ⟨fun h => ?_, by rw [hentries]; rfl, hsum⟩
  rw [hentries] at h
  have hquantity := h.quantity _ List.mem_cons_self
  rw [show PV01.cusip _ = "912828M72" from rfl, hsum] at hquantity
  exact absurd hquantity (by decide)

/-! ## 5. Sectors -/

/-- What the sector's loop accumulates, product by product; `measure` is whatever adds up with the
    sums. -/
theorem measure_bucketedRisk {measure : Formula → ℚ}
    (hadd : ∀ x y, measure (.add x y) = measure x + measure y) (hzero : measure (.literal 0) = 0)
    (sector : BucketedSector) (s : BondRiskService ι κ) :
    measure (s.bucketedRisk sector) =
      (sector.products.map fun product =>
        ((s.riskPosition.find? (PV01.isOf product.productId)).map fun entry =>
          measure (.mul (.literal (bondPV01 product.productId)) (.long entry.quantity))).getD 0).sum := by
  suffices h : ∀ (products : List Bond) (acc : Formula),
      measure (products.foldl (fun result product =>
        match s.riskPosition.find? (PV01.isOf product.productId) with
        | some entry =>
            .add result (.mul (.literal (bondPV01 product.productId)) (.long entry.quantity))
        | none => result) acc) =
      measure acc + (products.map fun product =>
        ((s.riskPosition.find? (PV01.isOf product.productId)).map fun entry =>
          measure (.mul (.literal (bondPV01 product.productId)) (.long entry.quantity))).getD 0).sum by
    rw [bucketedRisk, h, hzero, zero_add]
  intro products
  induction products with
  | nil => intro acc; simp
  | cons product products ih =>
      intro acc
      rw [List.foldl_cons, ih, List.map_cons, List.sum_cons]
      cases s.riskPosition.find? (PV01.isOf product.productId) with
      | none => simp
      | some entry => simp [hadd, add_assoc]

/-- In exact rationals. -/
theorem getBucketedRisk_sum (sector : BucketedSector) (s : BondRiskService ι κ) :
    s.getBucketedRisk sector =
      (sector.products.map fun product =>
        ((s.riskPosition.find? (PV01.isOf product.productId)).map
          fun entry => bondPV01 product.productId * entry.quantity).getD 0).sum :=
  measure_bucketedRisk (fun _ _ => rfl) rfl sector s

/-- Every product is one rounding more. -/
theorem steps_bucketedRisk_le (sector : BucketedSector) (s : BondRiskService ι κ) :
    (s.bucketedRisk sector).steps ≤ sector.products.length + 3 := by
  refine foldl_invariant (I := fun pre (f : Formula) => f.steps ≤ pre.length + 3)
    (s := .literal 0) (by decide) ?_ sector.products
  intro pre product f ih
  rw [List.length_append, List.length_singleton]
  cases s.riskPosition.find? (PV01.isOf product.productId) with
  | none => exact ih.trans (by omega)
  | some entry =>
      show max f.steps 3 + 1 ≤ _
      omega

/-- **A sector's risk is the risk of the entries of its products**, each counted once at the
    PV01 it stores. -/
theorem getBucketedRisk_eq {sector : BucketedSector} {s : BondRiskService ι κ}
    (hstore : RiskStore s.riskPosition)
    (hsector : (sector.products.map Bond.productId).Nodup) :
    s.getBucketedRisk sector =
      ((s.riskPosition.filter fun entry => entry.cusip ∈ sector.products.map Bond.productId).map
        fun entry => (entry.quantity : ℚ) * entry.pv01).sum := by
  rw [getBucketedRisk_sum, ← sum_find (fun entry : PV01 => (entry.quantity : ℚ) * entry.pv01) hsector
    hstore.distinct, List.map_map]
  congr 1
  refine List.map_congr_left fun product _ => ?_
  show Option.getD _ 0 = Option.getD _ 0
  have hsame : (s.riskPosition.find? fun entry => entry.cusip = product.productId) =
      s.riskPosition.find? (PV01.isOf product.productId) := rfl
  rw [hsame]
  cases hfind : s.riskPosition.find? (PV01.isOf product.productId) with
  | none => rfl
  | some entry =>
      have hcusip : entry.cusip = product.productId := PV01.isOf_iff.mp (List.find?_some hfind)
      have htable := hstore.fromTable entry (List.mem_of_find?_eq_some hfind)
      simp [htable, hcusip, mul_comm]

end BondRiskService

end BondTrading
