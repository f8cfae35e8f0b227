/-
# The prices of orders

A territory can be bought, expanded and renewed directly or by an order.  `UnitPrice` is the
price of a gib for a month: the direct calls divide it by 30 before they multiply with days,
and `calculate_price`, which prices the orders, multiplies the monthly price with days.

* `directCall` : the direct call that an order stands for;
* `World.charged`, `World.recorded` : the price that the direct call charged and the price that
  the order records;
* `order_price_eq_iff` : when the two are equal.
-/
import CessNode.Runtime

open Dispatch

namespace StorageHandler

variable {T : Config} {s s' s₁ s₂ : World T} {acc : T.AccountId} {name : TerrName}
  {gibCount days price : ℕ}

/-! ## The two ways of paying -/

/-- The direct call that an order of the given type stands for. -/
def directCall (T : Config) (acc : T.AccountId) (name : TerrName) (gibCount days : ℕ) :
    OrderType → PalletM T Unit
  | .buy => mintTerritory T acc gibCount name days
  | .expansion => expandingTerritory T acc name gibCount
  | .renewal => renewalTerritory T acc name days

/-- The field `spend` of an event. -/
def Event.spend : Event T.AccountId → Option ℕ
  | .mintTerritory _ _ _ spend => some spend
  | .expansionTerritory _ _ spend => some spend
  | .renewalTerritory _ _ spend => some spend
  | .reactivateTerritory _ _ spend => some spend
  | _ => none

/-- The price that the last call charged, as its event reports it. -/
def World.charged (s : World T) : Option ℕ := s.events.getLast?.bind Event.spend

/-- The price that the order under `orderId` records. -/
def World.recorded (s : World T) (orderId : OrderId) : Option ℕ :=
  (s.payOrder.lookup orderId).map OrderInfo.pay

/-! ## The price of an order -/

theorem orderPrice_buy (h : (orderPrice T acc name .buy gibCount days).run s = .ok price s') :
    ∃ unitPrice, s.unitPrice = some unitPrice ∧ price = gibCount * days * unitPrice := by
  simp only [orderPrice, run_ok, run_calculatePrice_ok, existsAndEq] at h
  obtain ⟨-, unitPrice, hunit, -, -, rfl, -⟩ := h
  exact ⟨unitPrice, hunit, rfl⟩

theorem orderPrice_expansion
    (h : (orderPrice T acc name .expansion gibCount days).run s = .ok price s') :
    ∃ t unitPrice, s.territory.lookup (acc, name) = some t ∧ s.unitPrice = some unitPrice ∧
      price = gibCount * daysOfBlocks T (t.deadline - s.now) * unitPrice := by
  simp only [orderPrice, run_ok, run_calculatePrice_ok, run_calculateRemainDay_ok, existsAndEq] at h
  obtain ⟨t, ht, -, -, -, unitPrice, hunit, -, -, rfl, -⟩ := h
  exact ⟨t, unitPrice, ht, hunit, rfl⟩

theorem orderPrice_renewal
    (h : (orderPrice T acc name .renewal gibCount days).run s = .ok price s') :
    ∃ t unitPrice, s.territory.lookup (acc, name) = some t ∧ s.unitPrice = some unitPrice ∧
      price = t.totalSpace / gByte % 2 ^ 32 * days * unitPrice := by
  simp only [orderPrice, run_ok, run_calculatePrice_ok, checkedDiv_eq_some, existsAndEq] at h
  obtain ⟨t, ht, -, unitPrice, hunit, -, -, rfl, -⟩ := h
  exact ⟨t, unitPrice, ht, hunit, rfl⟩

/-- The order just created records the price computed for it. -/
theorem createOrder_recorded {orderType : OrderType} {expired : ℕ} {u : Unit}
    (h : (createOrder T acc name orderType gibCount days expired).run s = .ok u s') :
    ∃ price, (orderPrice T acc name orderType gibCount days).run s = .ok price s ∧
      s'.recorded (orderKey T s.now) = some price := by
  cases Call.code_ran (.createOrder acc name orderType gibCount days expired) h with
  | createOrder hprice =>
    refine ⟨_, hprice, ?_⟩
    unfold World.recorded
    rw [AList.lookup_insert]
    rfl

theorem charged_of_events {events : List (Event T.AccountId)} {event : Event T.AccountId}
    (h : s.events = events ++ [event]) : s.charged = event.spend := by
  unfold World.charged
  rw [h, List.getLast?_concat]
  rfl

/-! ## Arithmetic -/

/-- A price is its thirtieth only if it is zero. -/
theorem mul_eq_thirtieth_iff (unitPrice k : ℕ) :
    k * unitPrice = unitPrice / 30 * k ↔ unitPrice = 0 ∨ k = 0 := by
  constructor
  · intro h
    by_cases hk : k = 0
    · exact .inr hk
    · rw [Nat.mul_comm] at h
      have heq : unitPrice = unitPrice / 30 := Nat.eq_of_mul_eq_mul_right (by omega) h
      omega
  · rintro (rfl | rfl) <;> simp

theorem daysOfBlocks_eq_zero_iff (blocks : ℕ) : daysOfBlocks T blocks = 0 ↔ blocks = 0 := by
  unfold daysOfBlocks
  constructor
  · intro h
    have hdiv := Nat.div_add_mod blocks T.oneDay
    split_ifs at h with hmod
    have hzero : blocks / T.oneDay = 0 := by omega
    rw [hzero] at hdiv
    omega
  · rintro rfl
    simp

/-- The price of a renewal, whose gibs an order reads modulo `2 ^ 32`. -/
theorem renewal_price_eq_iff (unitPrice gib days : ℕ) :
    gib % 2 ^ 32 * days * unitPrice = unitPrice / 30 * gib * days ↔
      unitPrice = 0 ∨ days = 0 ∨ gib = 0 ∨
        (2 ^ 32 ≤ gib ∧ gib % 2 ^ 32 * unitPrice = unitPrice / 30 * gib) := by
  have hcancel : gib % 2 ^ 32 * days * unitPrice = unitPrice / 30 * gib * days ↔
      days = 0 ∨ gib % 2 ^ 32 * unitPrice = unitPrice / 30 * gib := by
    rw [Nat.mul_right_comm]
    constructor
    · intro h
      by_cases hdays : days = 0
      · exact .inl hdays
      · exact .inr (Nat.eq_of_mul_eq_mul_right (by omega) h)
    · rintro (rfl | h)
      · simp
      · rw [h]
  rw [hcancel]
  by_cases hgib : gib < 2 ^ 32
  · rw [Nat.mod_eq_of_lt hgib, mul_eq_thirtieth_iff]
    constructor
    · rintro (h | h | h)
      · exact .inr (.inl h)
      · exact .inl h
      · exact .inr (.inr (.inl h))
    · rintro (h | h | h | ⟨h, -⟩)
      · exact .inr (.inl h)
      · exact .inl h
      · exact .inr (.inr h)
      · omega
  · constructor
    · rintro (h | h)
      · exact .inr (.inl h)
      · exact .inr (.inr (.inr ⟨by omega, h⟩))
    · rintro (rfl | h | h | ⟨-, h⟩)
      · simp
      · exact .inl h
      · omega
      · exact .inr h

/-! ## When the two agree -/

/-- The inputs on which an order costs what the direct call costs: something in the product is
zero, or the gibs of a renewal do not fit 32 bits and happen to make up for the factor. -/
def World.SamePrice (s : World T) (key : T.AccountId × TerrName) (gibCount days : ℕ) :
    OrderType → Prop
  | .buy => s.unitPrice = some 0 ∨ gibCount = 0
  | .expansion => s.unitPrice = some 0 ∨ gibCount = 0 ∨
      ∃ t, s.territory.lookup key = some t ∧ t.deadline = s.now
  | .renewal => s.unitPrice = some 0 ∨ days = 0 ∨
      ∃ t unitPrice, s.territory.lookup key = some t ∧ s.unitPrice = some unitPrice ∧
        (t.totalSpace / gByte = 0 ∨ (2 ^ 32 ≤ t.totalSpace / gByte ∧
          t.totalSpace / gByte % 2 ^ 32 * unitPrice = unitPrice / 30 * (t.totalSpace / gByte)))

/-- **The price of an order.**  Where a direct call and the creation of the order for it both
succeed in one state, the order records the price that the call charges exactly on the inputs
of `SamePrice`. -/
theorem order_price_eq_iff {orderType : OrderType} {expired : ℕ}
    (hdirect : (directCall T acc name gibCount days orderType).run s = .ok () s₁)
    (horder : (createOrder T acc name orderType gibCount days expired).run s = .ok () s₂) :
    s₂.recorded (orderKey T s.now) = s₁.charged ↔
      s.SamePrice (acc, name) gibCount days orderType := by
  obtain ⟨price, hprice, hrecorded⟩ := createOrder_recorded horder
  rw [hrecorded]
  cases orderType with
  | buy =>
    cases Call.code_ran (.mintTerritory acc gibCount name days) hdirect with
    | @mintTerritory _ _ _ unitPrice _ _ _ _ hdays _ hunit =>
      obtain ⟨unitPrice', hunit', rfl⟩ := orderPrice_buy hprice
      obtain rfl := Option.mem_unique hunit hunit'
      rw [charged_of_events rfl]
      show some _ = some _ ↔ s.unitPrice = some 0 ∨ gibCount = 0
      rw [Option.some_inj, Nat.mul_assoc (unitPrice / 30), mul_eq_thirtieth_iff, hunit,
        Option.some_inj, Nat.mul_eq_zero]
      omega
  | expansion =>
    cases Call.code_ran (.expandingTerritory acc name gibCount) hdirect with
    | @expandingTerritory _ _ unitPrice _ t _ ht _ hnow hunit =>
      obtain ⟨t', unitPrice', ht', hunit', rfl⟩ := orderPrice_expansion hprice
      obtain rfl := Option.mem_unique hunit hunit'
      obtain rfl := Option.mem_unique ht ht'
      rw [charged_of_events rfl]
      show some _ = some _ ↔ s.unitPrice = some 0 ∨ gibCount = 0 ∨
        ∃ t, s.territory.lookup (acc, name) = some t ∧ t.deadline = s.now
      rw [Option.some_inj, Nat.mul_assoc (unitPrice / 30), mul_eq_thirtieth_iff, hunit,
        Option.some_inj, Nat.mul_eq_zero, daysOfBlocks_eq_zero_iff]
      have hdeadline : (∃ t, s.territory.lookup (acc, name) = some t ∧ t.deadline = s.now) ↔
          t.deadline - s.now = 0 := by
        rw [ht]
        simp only [Option.some.injEq, exists_eq_left']
        omega
      rw [hdeadline]
  | renewal =>
    cases Call.code_ran (.renewalTerritory acc name days) hdirect with
    | @renewalTerritory _ _ unitPrice _ t _ ht _ _ hunit =>
      obtain ⟨t', unitPrice', ht', hunit', rfl⟩ := orderPrice_renewal hprice
      obtain rfl := Option.mem_unique hunit hunit'
      obtain rfl := Option.mem_unique ht ht'
      rw [charged_of_events rfl]
      show some _ = some _ ↔ s.unitPrice = some 0 ∨ days = 0 ∨ ∃ t unitPrice,
        s.territory.lookup (acc, name) = some t ∧ s.unitPrice = some unitPrice ∧ _
      rw [Option.some_inj, renewal_price_eq_iff, hunit, ht]
      simp only [Option.some.injEq, exists_and_left, exists_eq_left']

/-- The theorem for a purchase in the first block. -/
theorem order_price_eq_iff_buy : ∃ s s₁ s₂ : World runtime,
    (directCall runtime alice nameA 1 30 .buy).run s = .ok () s₁ ∧
      (createOrder runtime alice nameA .buy 1 30 10).run s = .ok () s₂ ∧
      (s₂.recorded (orderKey runtime s.now) = s₁.charged ↔
        s.SamePrice (alice, nameA) 1 30 .buy) := by
  have hrun : (Runs.exec Node.step (start (10 ^ 20)) firstBlock).any (fun n =>
      succeeds (directCall runtime alice nameA 1 30 .buy) n.world &&
        succeeds (createOrder runtime alice nameA .buy 1 30 10) n.world) = true := by
    decide +kernel
  obtain ⟨n, -, hcheck⟩ := (Option.any_eq_true _ _).mp hrun
  rw [Bool.and_eq_true] at hcheck
  obtain ⟨s₁, hdirect⟩ := exists_of_succeeds hcheck.1
  obtain ⟨s₂, horder⟩ := exists_of_succeeds hcheck.2
  exact ⟨n.world, s₁, s₂, hdirect, horder, order_price_eq_iff hdirect horder⟩

/-- One gib for 30 days at the default unit price of 30 costs 30 when it is minted and 900 by
an order created in the same state. -/
theorem order_costs_thirty_times : ∃ n : Node runtime, Reached OwnSteps n ∧ ∃ s₁ s₂,
    (directCall runtime alice nameA 1 30 .buy).run n.world = .ok () s₁ ∧ s₁.charged = some 30 ∧
      (createOrder runtime alice nameA .buy 1 30 10).run n.world = .ok () s₂ ∧
      s₂.recorded (orderKey runtime n.world.now) = some 900 := by
  have hrun : ((start (10 ^ 20)).runs Action.own (firstBlock.map .act)).any (fun n =>
      (succeeds (directCall runtime alice nameA 1 30 .buy) n.world &&
        decide ((after (directCall runtime alice nameA 1 30 .buy) n.world).charged = some 30)) &&
      (succeeds (createOrder runtime alice nameA .buy 1 30 10) n.world &&
        decide ((after (createOrder runtime alice nameA .buy 1 30 10) n.world).recorded
          (orderKey runtime n.world.now) = some 900))) = true := by
    decide +kernel
  obtain ⟨n, hn, hcheck⟩ := Reached.exists_of_own (start_reached _) hrun
  simp only [Bool.and_eq_true, decide_eq_true_eq] at hcheck
  obtain ⟨⟨hdirect, hcharged⟩, horder, hrecorded⟩ := hcheck
  obtain ⟨s₁, hdirect⟩ := exists_of_succeeds hdirect
  obtain ⟨s₂, horder⟩ := exists_of_succeeds horder
  rw [after_of_ok hdirect] at hcharged
  rw [after_of_ok horder] at hrecorded
  exact ⟨n, hn, s₁, s₂, hdirect, hcharged, horder, hrecorded⟩

end StorageHandler
