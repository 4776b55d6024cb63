import DreamFly.Shop.Db

/-!
# Products

What may be bought in which quantity, and the stock: taken at checkout
(`reserveStockTx`) and given back at a refund (`restoreForOrderTx`), both in the
order in which the rows were locked.
-/

namespace DreamFly

open Txn Prog

def ProductType.asStr : ProductType → String
  | .ticket => "ticket"
  | .coursePackage => "course_package"
  | .membership => "membership"
  | .merchandise => "merchandise"

def parseProductType (s : String) : Except AppError ProductType :=
  match [ProductType.ticket, .coursePackage, .membership, .merchandise].find? (·.asStr = s) with
  | some t => .ok t
  | none => .error (.validation s!"invalid product_type: {s}")

/-! ## Line rules -/

def maxLineQuantity : ℤ := 999

def quantityRangeMsg : String := "quantity must be between 1 and 999"

def ensureQuantityInRange (quantity : ℤ) : Except AppError Unit :=
  if 1 ≤ quantity ∧ quantity ≤ maxLineQuantity then .ok () else
    .error (.badRequest quantityRangeMsg)

namespace Product

def isTimeBasedEntitlement (p : Product) : Bool :=
  (p.productType = .membership ∨ p.productType = .ticket) ∧ p.sessionCount.isNone ∧
  p.validDays.isSome

def ensureLineQuantity (p : Product) (quantity : ℤ) : Except AppError Unit := do
  ensureQuantityInRange quantity
  if p.isTimeBasedEntitlement ∧ quantity ≠ 1 then
    throw (.validation "time-based subscription quantity must be 1")

def ensurePurchasable (p : Product) (quantity : ℤ) : Except AppError Unit := do
  if !p.isActive then throw (.badRequest "product is not available")
  p.ensureLineQuantity quantity
  match p.stock with
  | none => return ()
  | some stock =>
    if quantity > stock then throw (.conflict s!"insufficient stock: only {stock} available")

end Product

/-! ## Locks -/

/-- The locked product rows, ascending by id. -/
abbrev ProductLocks := List (Uuid × Product)

/-- The locked row of a product. -/
def ProductLocks.row (locks : ProductLocks) (id : Uuid) : Option (Uuid × Product) :=
  locks.find? fun row => row.1 = id

/-- Each item with its locked row, ascending by product; an item without one is
an internal error. -/
def ProductLocks.rowsInLockOrder {α : Type} (locks : ProductLocks) (items : List α)
    (id : α → Uuid) :
    Except AppError (List ((Uuid × Product) × α)) := do
  let pairs ← items.mapM fun item =>
    match locks.row (id item) with
    | some row => .ok (row, item)
    | none => .error (.internal s!"product {id item} is not covered by ProductLocks")
  return pairs.insertionSort fun a b => a.1.1 ≤ b.1.1

def ProductLocks.inLockOrder {α : Type} (locks : ProductLocks) (items : List α) (id : α → Uuid) :
    Except AppError (List α) :=
  (locks.rowsInLockOrder items id).map fun pairs => pairs.map Prod.snd

/-- SELECT * FROM products WHERE id = ANY(ids) ORDER BY id FOR NO KEY UPDATE. -/
def lockProductsTx (ids : List Uuid) : Tx ProductLocks :=
  selectAllFor (S := Shop) .products (fun id _ => ids.contains id)
    (fun a b => a.1 ≤ b.1) .noKeyUpdate

/-! ## Taking stock -/

/-- UPDATE products SET stock = stock - q WHERE id AND (stock IS NULL OR stock >= q) RETURNING *. -/
def tryDecrementStockTx (id : Uuid) (quantity : ℤ) : Tx (Option Product) :=
  updateRow (S := Shop) .products id (fun p => p.stock.all (quantity ≤ ·))
    fun p => { p with stock := p.stock.map (· - quantity) }

/-- A line to reserve: product, quantity, name. -/
abbrev ReserveLine := Uuid × ℤ × String

/-- Take the lines' stock one by one. -/
def decrementLine (line : ReserveLine) : Tx (Uuid × Product) := do
  let product ← tryDecrementStockTx line.1 line.2.1
  let product ← orFail product (.conflict s!"insufficient stock for product {line.2.2}")
  return (line.1, product)

/-- The rows after the decrements. -/
abbrev Reserved := List (Uuid × Product)

/-- The row last reserved for a product. -/
def Reserved.find (m : Reserved) (id : Uuid) : Option Product :=
  (m.reverse.find? fun e => e.1 = id).map Prod.snd

def reserveStockTx (locks : ProductLocks) (lines : List ReserveLine) : Tx Reserved := do
  let ordered ← checked (locks.rowsInLockOrder lines fun line => line.1)
  -- every quantity is judged before the first decrement
  checked (ordered.forM fun e => e.1.2.ensureLineQuantity e.2.2.1)
  each decrementLine (ordered.map Prod.snd)

/-! ## Giving stock back -/

/-- What an order line says about the stock it took. -/
structure OrderStockTrace where
  target : LineTarget
  quantity : ℤ
  stockDecremented : Bool
deriving DecidableEq, Repr

def LineTarget.isProduct : LineTarget → Bool
  | .product _ => true
  | .course _ => false

def OrderItem.trace (item : OrderItem) : OrderStockTrace :=
  ⟨item.target, item.quantity, item.stockDecremented⟩

/-- SELECT … FROM order_items WHERE order_id AND item_type = 'product' ORDER BY created_at. -/
def findStockTracesByOrder (orderId : Uuid) (d : Db) : List OrderStockTrace :=
  ((d.sel .orderItems fun _ item => item.orderId = orderId ∧ item.target.isProduct).insertionSort
    fun a b => a.2.createdAt ≤ b.2.createdAt).map fun e => e.2.trace

/-- The line to restock for a trace, if it took stock. -/
def restockLine (trace : OrderStockTrace) : Option (Uuid × ℤ) :=
  match trace.target with
  | .product id => if trace.stockDecremented then some (id, trace.quantity) else none
  | .course _ => none

def restockLines (traces : List OrderStockTrace) : List (Uuid × ℤ) := traces.filterMap restockLine

/-- The locked products and the lines to give back. -/
structure RestockLocks where
  locks : ProductLocks
  lines : List (Uuid × ℤ)

def lockRestockForOrderTx (orderId : Uuid) : Tx RestockLocks := do
  let traces ← read (S := Shop) (findStockTracesByOrder orderId)
  let lines := restockLines traces
  let locks ← lockProductsTx (lines.map Prod.fst)
  return ⟨locks, lines⟩

/-- UPDATE products SET stock = stock + q WHERE id RETURNING *; the sum has to fit
an `int`. -/
def restoreStockTx (id : Uuid) (quantity : ℤ) : Tx (Option Product) := do
  match ← selectFor (S := Shop) .products id (fun _ => true) .noKeyUpdate with
  | none => return none
  | some p =>
    ensure (p.stock.all fun stock => fitsI32 (stock + quantity)) (.database .outOfRange)
    put (S := Shop) (.mod .products id fun p => { p with stock := p.stock.map (· + quantity) })
    return some { p with stock := p.stock.map (· + quantity) }

def restoreLine (line : Uuid × ℤ) : Tx Unit := do
  let p ← restoreStockTx line.1 line.2
  let _ ← orFail p (.internal s!"restore_stock_tx: product {line.1} not found")

def restoreForOrderTx (restock : RestockLocks) : Tx Unit := do
  let lines ← checked (restock.locks.inLockOrder restock.lines fun line => line.1)
  let _ ← each restoreLine lines

/-! ## Admin edits -/

/-- The fields of `PATCH /products/{id}` the model has columns for. -/
structure UpdateProductRequest where
  name : Option String
  productType : Option String
  priceCents : Option ℤ
  stock : Option (Option ℤ)
  validDays : Option (Option ℤ)
  sessionCount : Option (Option ℤ)
  isActive : Option Bool
deriving DecidableEq, Repr

/-- The row after the edit. -/
def UpdateProductRequest.apply (req : UpdateProductRequest) (productType : Option ProductType)
    (p : Product) : Product where
  name := req.name.getD p.name
  productType := productType.getD p.productType
  priceCents := req.priceCents.getD p.priceCents
  stock := req.stock.getD p.stock
  validDays := req.validDays.getD p.validDays
  sessionCount := req.sessionCount.getD p.sessionCount
  isActive := req.isActive.getD p.isActive

/-- The CHECK constraints of the table. -/
def Product.checks (p : Product) : Bool :=
  0 ≤ p.priceCents ∧ p.stock.all (0 ≤ ·) ∧ p.validDays.all (0 < ·) ∧ p.sessionCount.all (0 < ·)

def updateProduct (id : Uuid) (req : UpdateProductRequest) : Tx Product := do
  let productType ← checked (req.productType.mapM parseProductType)
  atomically do
    match ← selectFor (S := Shop) .products id (fun _ => true) .noKeyUpdate with
    | none => throw (.notFound "product not found")
    | some p =>
      ensure (req.apply productType p).checks (.database (.check "products"))
      put (S := Shop) (.mod .products id (req.apply productType))
      return req.apply productType p

end DreamFly
