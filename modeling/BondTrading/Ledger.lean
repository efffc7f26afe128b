/-
  File:      BondTrading/Ledger.lean
  Subject:   POSITIONS AND RISK AS SUMS OVER THE TRADES.

  * `netTraded_eq_sum` -- what is bought minus what is sold, as one sum;
  * `sector_risk` -- the risk of a sector is the risk of the trades in it, up to rounding;
  * `reordered_trades` -- trades in another order leave the same positions and the same risk;
  * `figures_fit` -- no sum leaves the range of a `long` as long as all that is traded fits it, together
    with what the uninitialised locals hold.
-/
import BondTrading.Longs
import Mathlib.Algebra.Order.BigOperators.Group.List
import Mathlib.Algebra.BigOperators.Ring.List

namespace BondTrading

open Cxx

/-! ## 1. Sums -/

/-- Bought minus sold is the sum of what each trade adds. -/
theorem netTraded_eq_sum (p : Trade → Bool) (trades : List Trade) :
    netTraded p trades = ((trades.filter p).map Trade.signed).sum := by
  induction trades using List.reverseRecOn with
  | nil => rfl
  | append_singleton trades t ih =>
      rw [netTraded_concat, ih, List.filter_append, List.map_append, List.sum_append]
      cases h : p t <;> simp [h]

theorem netTraded_perm (p : Trade → Bool) {trades trades' : List Trade} (h : trades.Perm trades') :
    netTraded p trades = netTraded p trades' := by
  rw [netTraded_eq_sum, netTraded_eq_sum]
  exact ((h.filter p).map Trade.signed).sum_eq

/-- All that is traded, bought or sold. -/
def volume (trades : List Trade) : ℤ := (trades.map fun trade => |trade.quantity|).sum

theorem abs_signed (trade : Trade) : |trade.signed| = |trade.quantity| := by
  unfold Trade.signed
  cases trade.side with
  | buy => rfl
  | sell => exact abs_neg _

theorem volume_concat (trades : List Trade) (trade : Trade) :
    volume (trades ++ [trade]) = volume trades + |trade.quantity| := by
  simp [volume]

theorem volume_nonneg (trades : List Trade) : 0 ≤ volume trades := by
  refine List.sum_nonneg fun x hx => ?_
  obtain ⟨trade, -, rfl⟩ := List.mem_map.mp hx
  exact abs_nonneg _

theorem volume_mono {trades trades' : List Trade} (h : trades.Sublist trades') :
    volume trades ≤ volume trades' := by
  refine (h.map fun trade => |trade.quantity|).sum_le_sum fun x hx => ?_
  obtain ⟨trade, -, rfl⟩ := List.mem_map.mp hx
  exact abs_nonneg _

/-- A net quantity is at most what of it is traded. -/
theorem abs_netTraded_le (p : Trade → Bool) (trades : List Trade) :
    |netTraded p trades| ≤ volume (trades.filter p) := by
  induction trades using List.reverseRecOn with
  | nil => exact le_refl _
  | append_singleton trades t ih =>
      rw [netTraded_concat, List.filter_append]
      cases ht : p t with
      | false => simpa [ht] using ih
      | true =>
          rw [List.filter_cons_of_pos ht, List.filter_nil, volume_concat, if_pos rfl, ← abs_signed]
          exact (abs_add_le _ _).trans (add_le_add_left ih _)

/-! ## 2. What the risk entries are made of -/

/-- What each trade brings into the risk entry of its product: its quantity, and what the
    uninitialised local held. -/
def riskParts (uninit : Nat → ℤ) (trades : List Trade) : List (String × ℤ) :=
  trades.zipIdx.map fun entry =>
    (entry.1.cusip, entry.1.signed + uninit (Desk.readsPerTrade true * entry.2))

theorem riskParts_concat (uninit : Nat → ℤ) (trades : List Trade) (trade : Trade) :
    riskParts uninit (trades ++ [trade]) = riskParts uninit trades ++
      [(trade.cusip, trade.signed + uninit (Desk.readsPerTrade true * trades.length))] := by
  simp [riskParts, List.zipIdx_append]

/-- **The parts of a product make up its entry.** -/
theorem sum_riskParts (uninit : Nat → ℤ) (trades : List Trade) (cusip : String) :
    (((riskParts uninit trades).filter fun part => part.1 = cusip).map Prod.snd).sum =
      netProduct trades cusip + Desk.leftover uninit true trades cusip := by
  induction trades using List.reverseRecOn with
  | nil => rfl
  | append_singleton trades t ih =>
      rw [riskParts_concat, List.filter_append, List.map_append, List.sum_append, ih,
        netProduct_concat, Desk.leftover_concat]
      by_cases hc : t.cusip = cusip
      · simp [hc]
        ring
      · simp [hc]

namespace Desk

section Sectors

variable {uninit : Nat → ℤ} {d : Desk} {trades : List Trade}

/-- What a sector's loop accumulates, by the trades of each product. -/
theorem TradesHeld.measure_bucketedRisk (h : TradesHeld uninit trades d) {measure : Formula → ℚ}
    (hadd : ∀ x y, measure (.add x y) = measure x + measure y) (hzero : measure (.literal 0) = 0)
    (hnone : ∀ q, measure (.mul (.literal q) (.long 0)) = 0) (sector : BucketedSector) :
    measure (d.riskSrv.bucketedRisk sector) =
      ((sector.products.map Bond.productId).map fun cusip =>
        measure (.mul (.literal (bondPV01 cusip))
          (.long (netProduct trades cusip + leftover uninit true trades cusip)))).sum := by
  rw [BondRiskService.measure_bucketedRisk hadd hzero, List.map_map]
  congr 1
  refine List.map_congr_left fun product _ => ?_
  have hquantity := h.accounts.quantity product.productId
  unfold BondRiskService.quantityIn at hquantity
  rw [Function.comp_apply, ← hquantity]
  cases d.riskSrv.riskPosition.find? (PV01.isOf product.productId) with
  | none => exact (hnone _).symm
  | some entry => rfl

/-- A sector's figure in exact rationals, product by product. -/
theorem TradesHeld.bucketedRisk (h : TradesHeld uninit trades d) (sector : BucketedSector) :
    d.riskSrv.getBucketedRisk sector = ((sector.products.map Bond.productId).map fun cusip =>
      bondPV01 cusip *
        ((netProduct trades cusip + leftover uninit true trades cusip : ℤ) : ℚ)).sum :=
  h.measure_bucketedRisk (fun _ _ => rfl) rfl (fun q => by simp [Formula.exact]) sector

/-- What the trades of a sector bring in. -/
def sectorParts (uninit : Nat → ℤ) (trades : List Trade) (sector : BucketedSector) :
    List (String × ℤ) :=
  (riskParts uninit trades).filter fun part => part.1 ∈ sector.products.map Bond.productId

/-- The quantity of an entry in rationals. -/
theorem cast_sum_riskParts (uninit : Nat → ℤ) (trades : List Trade) (cusip : String) :
    ((netProduct trades cusip + leftover uninit true trades cusip : ℤ) : ℚ) =
      (((riskParts uninit trades).filter fun part => part.1 = cusip).map fun part =>
        (part.2 : ℚ)).sum := by
  have hcast : ∀ parts : List ℤ, ((parts.sum : ℤ) : ℚ) = (parts.map Int.cast).sum := fun parts =>
    map_list_sum (Int.castAddHom ℚ) parts
  rw [← sum_riskParts, hcast, List.map_map]
  rfl

section Sector

variable {sector : BucketedSector} (hsector : (sector.products.map Bond.productId).Nodup)

include hsector

/-- Part by part is product by product, whatever is made of a quantity. -/
theorem sum_sectorParts (f : ℤ → ℚ) :
    ((sectorParts uninit trades sector).map fun part => bondPV01 part.1 * f part.2).sum =
      ((sector.products.map Bond.productId).map fun cusip => bondPV01 cusip *
        (((riskParts uninit trades).filter fun part => part.1 = cusip).map fun part =>
          f part.2).sum).sum := by
  rw [sectorParts, ← sum_keys Prod.fst (fun part : String × ℤ => bondPV01 part.1 * f part.2) hsector]
  congr 1
  refine List.map_congr_left fun cusip _ => ?_
  rw [← List.sum_map_mul_left]
  congr 1
  refine List.map_congr_left fun part hpart => ?_
  rw [of_decide_eq_true (List.mem_filter.mp hpart).2]

/-- **The risk of a sector is the risk of the trades in it**, each at the PV01 of its product. -/
theorem TradesHeld.sectorRisk (h : TradesHeld uninit trades d) :
    d.riskSrv.getBucketedRisk sector =
      ((sectorParts uninit trades sector).map fun part => bondPV01 part.1 * (part.2 : ℚ)).sum := by
  rw [h.bucketedRisk, sum_sectorParts hsector fun q => (q : ℚ)]
  simp only [cast_sum_riskParts]

/-- Without regard to signs it is at most that of all of them. -/
theorem TradesHeld.sectorSize_le (h : TradesHeld uninit trades d) :
    (d.riskSrv.bucketedRisk sector).size ≤
      ((sectorParts uninit trades sector).map fun part => bondPV01 part.1 * |(part.2 : ℚ)|).sum := by
  have hproducts : (d.riskSrv.bucketedRisk sector).size =
      ((sector.products.map Bond.productId).map fun cusip =>
        (Formula.mul (.literal (bondPV01 cusip))
          (.long (netProduct trades cusip + leftover uninit true trades cusip))).size).sum :=
    h.measure_bucketedRisk (fun _ _ => rfl) abs_zero (fun q => by simp [Formula.size]) sector
  have habs : ∀ qs : List ℚ, |qs.sum| ≤ (qs.map abs).sum := fun qs => by
    simpa using Multiset.abs_sum_le_sum_abs (s := (qs : Multiset ℚ))
  rw [hproducts, sum_sectorParts hsector fun q => |(q : ℚ)|]
  refine List.sum_le_sum fun cusip _ => ?_
  show |bondPV01 cusip| * |((netProduct trades cusip + leftover uninit true trades cusip : ℤ) : ℚ)| ≤ _
  rw [abs_of_nonneg (bondPV01_nonneg cusip), cast_sum_riskParts]
  refine mul_le_mul_of_nonneg_left ((habs _).trans_eq ?_) (bondPV01_nonneg cusip)
  rw [List.map_map]
  rfl

end Sector

/-- Without what the locals held, the entries are a matter of the trades of each product. -/
theorem leftover_eq_zero (hzero : ∀ n, uninit n = 0) (trades : List Trade) (cusip : String) :
    leftover uninit true trades cusip = 0 := by
  refine List.sum_eq_zero fun x hx => ?_
  obtain ⟨entry, -, rfl⟩ := List.mem_map.mp hx
  exact hzero _

theorem riskEntries_perm (hzero : ∀ n, uninit n = 0) {trades' : List Trade}
    (h : trades.Perm trades') :
    (riskEntries uninit trades).Perm (riskEntries uninit trades') := by
  have hsame : (fun cusip => (⟨Bond.ofCusip cusip, bondPV01 cusip,
        netProduct trades cusip + leftover uninit true trades cusip⟩ : PV01)) =
      fun cusip => ⟨Bond.ofCusip cusip, bondPV01 cusip,
        netProduct trades' cusip + leftover uninit true trades' cusip⟩ := by
    funext cusip
    rw [leftover_eq_zero hzero, leftover_eq_zero hzero, netProduct, netProduct, netTraded_perm _ h]
  rw [riskEntries, riskEntries, hsame]
  exact (perm_eraseDups (h.map Trade.cusip)).map _

end Sectors

/-- **The risk of a sector** after messages in any order, without an overflow: what `GetBucketedRisk`
    returns is, up to rounding, the sum over the trades in products of the sector of their quantity,
    and what the local held then, at the PV01 of the product. -/
theorem sector_risk {long : ℤ → ℤ} (hlong : LongArithmetic long) (uninit : Nat → ℤ)
    (disk : String → Option (List Item)) (ms : List Message) (hread : ∀ m ∈ ms, m.AsRead)
    (hfit : LongsFit uninit (tradesIn ms)) (d : Desk)
    (hrun : runAll (deliverWith long uninit) ms (wired true disk) = .done d)
    (sector : BucketedSector) (hsector : (sector.products.map Bond.productId).Nodup) :
    |(d.riskSrv.bucketedRisk sector).value.value -
        ((sectorParts uninit (tradesIn ms) sector).map fun part =>
          bondPV01 part.1 * (part.2 : ℚ)).sum| ≤
      ((1 + roundoff) ^ (sector.products.length + 3) - 1) *
        ((sectorParts uninit (tradesIn ms) sector).map fun part =>
          bondPV01 part.1 * |(part.2 : ℚ)|).sum := by
  rw [runAll_deliverWith hlong hread hfit] at hrun
  have hheld := (held_run hread hrun).1.trades
  have hone : (1 : ℚ) ≤ 1 + roundoff := le_add_of_nonneg_right roundoff_pos.le
  rw [← hheld.sectorRisk hsector]
  calc |(d.riskSrv.bucketedRisk sector).value.value - (d.riskSrv.bucketedRisk sector).exact|
      ≤ ((1 + roundoff) ^ (d.riskSrv.bucketedRisk sector).steps - 1) *
          (d.riskSrv.bucketedRisk sector).size := Formula.abs_value_sub_exact_le _
    _ ≤ ((1 + roundoff) ^ (sector.products.length + 3) - 1) *
          (d.riskSrv.bucketedRisk sector).size := by
        have hsteps := pow_le_pow_right₀ hone (d.riskSrv.steps_bucketedRisk_le sector)
        refine mul_le_mul_of_nonneg_right (by linarith) ?_
        exact (abs_nonneg _).trans (Formula.abs_exact_le _)
    _ ≤ _ := mul_le_mul_of_nonneg_left (hheld.sectorSize_le hsector)
        (sub_nonneg.mpr (one_le_pow₀ hone))

/-- What the uninitialised locals of the first `n` aggregates hold, whatever its sign. -/
def noise (uninit : Nat → ℤ) (n : Nat) : ℤ := ((List.range n).map fun k => |uninit k|).sum

theorem noise_succ (uninit : Nat → ℤ) (n : Nat) :
    noise uninit (n + 1) = noise uninit n + |uninit n| := by
  simp [noise, List.range_succ]

theorem noise_mono (uninit : Nat → ℤ) {m n : Nat} (h : m ≤ n) : noise uninit m ≤ noise uninit n := by
  induction n, h using Nat.le_induction with
  | base => exact le_refl _
  | succ n _ ih =>
      rw [noise_succ]
      exact ih.trans (le_add_of_nonneg_right (abs_nonneg _))

theorem abs_uninit_le_noise (uninit : Nat → ℤ) {k n : Nat} (h : k < n) :
    |uninit k| ≤ noise uninit n := by
  have hsucc := noise_mono uninit (Nat.succ_le_of_lt h)
  rw [Nat.succ_eq_add_one, noise_succ] at hsucc
  exact (le_add_of_nonneg_left (noise_mono uninit (Nat.zero_le k))).trans hsucc

/-- What the locals left in a risk entry. -/
theorem abs_leftover_le (uninit : Nat → ℤ) (trades : List Trade) (cusip : String) :
    |leftover uninit true trades cusip| ≤ noise uninit (2 * trades.length) := by
  induction trades using List.reverseRecOn with
  | nil => exact le_refl _
  | append_singleton trades t ih =>
      rw [leftover_concat, List.length_append, List.length_singleton, Nat.mul_succ, noise_succ,
        noise_succ, add_assoc]
      refine (abs_add_le _ _).trans (add_le_add ih ?_)
      split_ifs
      · exact le_add_of_nonneg_right (abs_nonneg _)
      · rw [abs_zero]
        exact add_nonneg (abs_nonneg _) (abs_nonneg _)

section Range

variable {uninit : Nat → ℤ} {trades : List Trade}
  (hfits : volume trades + noise uninit (2 * trades.length) ≤ 9223372036854775807)

include hfits

/-- **Nothing overflows** if all that is traded fits a `long`, together with what the locals hold. -/
theorem longsFit_of_volume : LongsFit uninit trades := by
  refine longsFit_iff.mpr fun pre trade hpre => ?_
  have hlength := hpre.length_le
  rw [List.length_append, List.length_singleton] at hlength
  have hvolume := volume_mono hpre.sublist
  have hrest := volume_nonneg pre
  rw [volume_concat] at hvolume
  have hnoise := noise_mono uninit (Nat.zero_le (2 * trades.length))
  have hnet : ∀ p, |netTraded p (pre ++ [trade])| ≤ volume trades := fun p =>
    (abs_netTraded_le p _).trans (volume_mono (List.filter_sublist.trans hpre.sublist))
  have hread : ∀ k < 2 * trades.length, IsLong (uninit k + trade.signed) := by
    intro k hk
    have hlocal := abs_uninit_le_noise uninit hk
    refine isLong_of_abs ((abs_add_le _ _).trans ?_)
    rw [abs_signed]
    omega
  have hleft := (abs_leftover_le uninit (pre ++ [trade]) trade.cusip).trans
    (noise_mono uninit (n := 2 * trades.length) (by
      rw [List.length_append, List.length_singleton]
      omega))
  refine { signed := isLong_of_abs ?_, book := isLong_of_abs ((hnet _).trans ?_),
           riskAggregate := hread _ (by omega), positionAggregate := hread _ (by omega),
           entry := isLong_of_abs ((abs_add_le _ _).trans ((add_le_add (hnet _) hleft).trans hfits)) }
  · rw [abs_signed]
    have : noise uninit 0 = 0 := rfl
    omega
  · have : noise uninit 0 = 0 := rfl
    omega

variable {d : Desk} (h : TradesHeld uninit trades d)

omit hfits in
include h in
/-- The books of a product hold at most what is traded, whatever their signs. -/
theorem TradesHeld.sum_abs_le (cusip : String) :
    ((d.positionSrv.getData cusip).1.positions.entries.map fun e => |e.2|).sum ≤ volume trades := by
  have hentry : ∀ e ∈ (d.positionSrv.getData cusip).1.positions.entries,
      |e.2| = |netBook trades cusip e.1| := by
    intro e he
    have hlookup := AList.mem_lookup_iff.mpr he
    rw [← h.accounts.held, ← BondPositionService.getData_held, Position.getPosition,
      Option.mem_def.mp hlookup]
    rfl
  have hkeys := (d.positionSrv.getData cusip).1.positions.nodupKeys
  calc ((d.positionSrv.getData cusip).1.positions.entries.map fun e => |e.2|).sum
      = ((d.positionSrv.getData cusip).1.positions.keys.map fun book =>
          |netBook trades cusip book|).sum := by
        rw [List.map_congr_left hentry, AList.keys, List.keys, List.map_map]
        rfl
    _ ≤ ((d.positionSrv.getData cusip).1.positions.keys.map fun book =>
          (((trades.filter fun t => t.cusip = cusip).filter fun t => t.book = book).map
            fun t => |t.quantity|).sum).sum := by
        refine List.sum_le_sum fun book _ => (abs_netTraded_le _ _).trans_eq ?_
        rw [List.filter_filter, volume]
        congr 2
        refine List.filter_congr fun t _ => ?_
        exact Bool.and_comm _ _
    _ = volume ((trades.filter fun t => t.cusip = cusip).filter fun t =>
          t.book ∈ (d.positionSrv.getData cusip).1.positions.keys) :=
        sum_keys Trade.book (fun t => |t.quantity|) hkeys _
    _ ≤ volume trades := volume_mono (List.filter_sublist.trans List.filter_sublist)

end Range

/-- **The figures after some trades** are `long`s, and come about without an overflow: all the sums that
    the trades set off, the aggregates that the risk service and the position report ask for among
    them; what is in every book and every risk entry; and the aggregate of every position, also with
    what the locals hold. -/
structure FiguresFit (long : ℤ → ℤ) (uninit : Nat → ℤ) (trades : List Trade) (d : Desk) : Prop where
  sums : LongsFit uninit trades
  books : ∀ cusip book, IsLong ((d.positionSrv.getData cusip).1.getPosition book)
  entries : ∀ entry ∈ d.riskSrv.riskPosition, IsLong entry.quantity
  aggregates : ∀ cusip result, |result| ≤ noise uninit (2 * trades.length) →
    (d.positionSrv.getData cusip).1.getAggregatePositionWith long result =
        (d.positionSrv.getData cusip).1.getAggregatePosition result ∧
      IsLong ((d.positionSrv.getData cusip).1.getAggregatePosition result)

section Range

variable {long : ℤ → ℤ} (hlong : LongArithmetic long) {uninit : Nat → ℤ} {trades : List Trade}
  {d : Desk}

include hlong

theorem TradesHeld.figuresFit (h : TradesHeld uninit trades d)
    (hfits : volume trades + noise uninit (2 * trades.length) ≤ 9223372036854775807) :
    FiguresFit long uninit trades d where
  sums := longsFit_of_volume hfits
  books cusip book := by
    have hnoise := noise_mono uninit (Nat.zero_le (2 * trades.length))
    have hzero : noise uninit 0 = 0 := rfl
    rw [BondPositionService.getData_held, h.accounts.held]
    exact isLong_of_abs ((abs_netTraded_le _ _).trans
      ((volume_mono List.filter_sublist).trans (by omega)))
  entries entry hentry := by
    rw [← h.store.quantityIn_eq hentry, h.accounts.quantity]
    exact isLong_of_abs ((abs_add_le _ _).trans ((add_le_add
      ((abs_netTraded_le _ trades).trans (volume_mono List.filter_sublist))
      (abs_leftover_le uninit trades entry.cusip)).trans hfits))
  aggregates cusip result hresult := by
    have hsum := (add_le_add hresult (h.sum_abs_le cusip)).trans ((add_comm _ _).trans_le hfits)
    exact Position.getAggregatePositionWith_eq hlong hsum

end Range

/-- **No sum of `long`s ever overflows** as long as all that is traded fits a `long`, together with what
    the uninitialised locals hold: in every state that messages in any order go through, the program
    has done what it does in whole numbers, and its figures are in range. -/
theorem figures_fit {long : ℤ → ℤ} (hlong : LongArithmetic long) (uninit : Nat → ℤ)
    (disk : String → Option (List Item)) (ms : List Message) (hread : ∀ m ∈ ms, m.AsRead)
    (hfits : volume (tradesIn ms) + noise uninit (2 * (tradesIn ms).length) ≤ 9223372036854775807)
    (pre : List Message) (hpre : pre <+: ms) (d : Desk)
    (hrun : runAll (deliverWith long uninit) pre (wired true disk) = .done d) :
    runAll (deliver uninit) pre (wired true disk) = .done d ∧
      FiguresFit long uninit (tradesIn pre) d := by
  have htrades : tradesIn pre <+: tradesIn ms := hpre.filterMap _
  have hread' := fun m hm => hread m (hpre.subset hm)
  have hfits' : volume (tradesIn pre) + noise uninit (2 * (tradesIn pre).length) ≤
      9223372036854775807 :=
    (add_le_add (volume_mono htrades.sublist)
      (noise_mono uninit (Nat.mul_le_mul_left 2 htrades.length_le))).trans hfits
  rw [runAll_deliverWith hlong hread' (longsFit_of_volume hfits')] at hrun
  exact ⟨hrun, (held_run hread' hrun).1.trades.figuresFit hlong hfits'⟩

/-- A purchase and a sale, with a price in between, and the same two the other way round. -/
def buyThenSell : List Message :=
  [.trade purchase, .price ⟨.ofCusip "912828M72", 99, 1 / 128⟩,
    .trade ⟨.ofCusip "912828M72", "T2", "TRSY1", 400, .sell⟩]

def sellThenBuy : List Message :=
  [.trade ⟨.ofCusip "912828M72", "T2", "TRSY1", 400, .sell⟩, .trade purchase]

theorem asRead_buyThenSell :
    (∀ m ∈ buyThenSell, m.AsRead) ∧ ∀ m ∈ sellThenBuy, m.AsRead := by
  simp [buyThenSell, sellThenBuy, Message.AsRead, purchase, Trade.cusip, Bond.productId_ofCusip]

/-- The sector of one note. -/
def twoYearSector : BucketedSector := ⟨[Bond.ofCusip "912828M72"], "FrontEnd"⟩

/-- The theorems at these messages. -/
theorem sector_risk_buyThenSell :
    ∃ d, runAll (deliverWith wrapLong fun _ => 0) buyThenSell (wired true fun _ => none) = .done d ∧
      |(d.riskSrv.bucketedRisk twoYearSector).value.value -
          ((sectorParts (fun _ => 0) (tradesIn buyThenSell) twoYearSector).map fun part =>
            bondPV01 part.1 * (part.2 : ℚ)).sum| ≤
        ((1 + roundoff) ^ (twoYearSector.products.length + 3) - 1) *
          ((sectorParts (fun _ => 0) (tradesIn buyThenSell) twoYearSector).map fun part =>
            bondPV01 part.1 * |(part.2 : ℚ)|).sum :=
  ⟨_, rfl, sector_risk wrapLong_arithmetic (fun _ => 0) (fun _ => none) buyThenSell
    asRead_buyThenSell.1 (by decide) _ rfl twoYearSector (List.nodup_singleton _)⟩

theorem figures_fit_buyThenSell :
    ∃ d, runAll (deliverWith wrapLong fun _ => 0) [.trade purchase] (wired true fun _ => none) =
        .done d ∧
      runAll (deliver fun _ => 0) [.trade purchase] (wired true fun _ => none) = .done d ∧
      FiguresFit wrapLong (fun _ => 0) (tradesIn [.trade purchase]) d :=
  ⟨_, rfl, figures_fit wrapLong_arithmetic (fun _ => 0) (fun _ => none) buyThenSell
    asRead_buyThenSell.1 (by decide) [.trade purchase] ⟨_, rfl⟩ _ rfl⟩

end Desk

end BondTrading
