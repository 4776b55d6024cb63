import DreamFly.Shop.Products
import DreamFly.Shop.Seats

/-!
# The cart

The buyer's own cart calls, and the three statements with which a checkout reads
and empties the cart.
-/

namespace DreamFly

open Txn Prog

def checkedLineSubtotal (priceCents quantity : ℤ) : Option ℤ := checkedMul priceCents quantity

/-! ## Reading the cart -/

/-- A cart line with its product or course. -/
structure CartItemJoined where
  id : Uuid
  target : LineTarget
  quantity : ℤ
  name : String
  priceCents : ℤ
  isActive : Bool
deriving DecidableEq, Repr

/-- Name, price and active flag of a line's target. -/
def LineTarget.offer (d : Db) : LineTarget → Option (String × ℤ × Bool)
  | .product id => (d.get .products id).map fun p => (p.name, p.priceCents, p.isActive)
  | .course id => (d.get .courses id).map fun c => (c.name, c.priceCents, c.isActive)

/-- A cart row joined with its target, as the target is in `d`. -/
def joinLine (d : Db) (e : (Uuid × Uuid) × CartItem) : Option CartItemJoined :=
  (e.2.target.offer d).map fun (name, priceCents, isActive) =>
    ⟨e.1.2, e.2.target, e.2.quantity, name, priceCents, isActive⟩

/-- The rows of a user's cart that satisfy `p`, by creation time. -/
def cartRows (userId : Uuid) (p : LineTarget → Bool) (d : Db) : List ((Uuid × Uuid) × CartItem) :=
  (d.sel .cartItems fun k row => k.1 = userId ∧ p row.target).insertionSort
    fun a b => a.2.createdAt ≤ b.2.createdAt

structure CartResponse where
  items : List CartItemJoined
  totalCents : ℤ
deriving DecidableEq, Repr

/-- The running total over the lines. -/
def cartTotal : ℤ → List CartItemJoined → Except AppError ℤ
  | total, [] => .ok total
  | total, item :: items =>
    match checkedLineSubtotal item.priceCents item.quantity with
    | none => .error (.validation "cart subtotal overflow")
    | some subtotal =>
      match checkedAdd total subtotal with
      | none => .error (.validation "cart total overflow")
      | some total => cartTotal total items

def getCart (userId : Uuid) : Tx CartResponse := do
  let items ← read (S := Shop) fun d => (cartRows userId (fun _ => true) d).filterMap (joinLine d)
  let total ← checked (cartTotal 0 items)
  return ⟨items, total⟩

/-! ## The buyer's calls -/

/-- The CHECK constraints of `cart_items`. -/
def CartItem.checks (row : CartItem) : Bool :=
  0 < row.quantity ∧ (row.target.isProduct ∨ row.quantity = 1)

/-- The row of a target in a cart. -/
def cartLineOf (userId : Uuid) (target : LineTarget) (d : Db) : Option (Uuid × Uuid) :=
  ((d.sel .cartItems fun k row => k.1 = userId ∧ row.target = target).map Prod.fst).head?

/-- The foreign key from a cart row to its target. -/
def targetRef : LineTarget → Tx Unit
  | .product id => references (S := Shop) .products id (.database (.foreignKey "products"))
  | .course id => references (S := Shop) .courses id (.database (.foreignKey "courses"))

/-- INSERT of a cart row. -/
def insertCartItem (userId : Uuid) (target : LineTarget) (quantity : ℤ) : Tx CartItem := do
  let now ← choose
  let row : CartItem := ⟨target, quantity, now⟩
  ensure row.checks (.database (.check "cart_items"))
  references (S := Shop) .users userId (.database (.foreignKey "users"))
  targetRef target
  let _ ← insert (S := Shop) .cartItems (fun id => (userId, id)) fun _ => row
  return row

/-- SET quantity = LEAST(quantity + q, 2147483647). -/
def CartItem.merge (quantity : ℤ) (row : CartItem) : CartItem :=
  { row with quantity := min (row.quantity + quantity) i32Max }

/-- INSERT … ON CONFLICT (user_id, product_id) DO UPDATE SET …. -/
def addProductItemTx (userId productId : Uuid) (quantity : ℤ) : Tx CartItem := do
  lockRes (S := Shop) (.uniq (.cartLine userId (.product productId))) .update
  let existing ← read (S := Shop) (cartLineOf userId (.product productId))
  let row ← (match existing with
    | none => pure none
    | some k => updateRow (S := Shop) .cartItems k (fun _ => true) (CartItem.merge quantity))
  match row with
  | some row => return row
  | none => insertCartItem userId (.product productId) quantity

def addProductItem (userId productId : Uuid) (quantity : ℤ) : Tx CartResponse := do
  checked (ensureQuantityInRange quantity)
  let product ← read (S := Shop) (·.get .products productId)
  let product ← orFail product (.notFound "product not found")
  -- merge first, then judge the merged line: a rejection rolls the merge back
  let _ ← atomically do
    let merged ← addProductItemTx userId productId quantity
    checked (product.ensurePurchasable merged.quantity)
  getCart userId

/-- INSERT … ON CONFLICT (user_id, course_id) DO NOTHING RETURNING *. -/
def addCourseItemTx (userId courseId : Uuid) : Tx (Option CartItem) := do
  if ← claim (S := Shop) (.uniq (.cartLine userId (.course courseId)))
      (fun d => (cartLineOf userId (.course courseId) d).isSome) then
    return none
  let row ← insertCartItem userId (.course courseId) 1
  return some row

def addCourseItem (userId courseId : Uuid) (quantity : ℤ) : Tx CartResponse := do
  checked (Course.ensureLineQuantity quantity)
  let course ← read (S := Shop) (·.get .courses courseId)
  let course ← orFail course (.notFound "course not found")
  checked course.ensurePurchasable
  let inserted ← atomically (addCourseItemTx userId courseId)
  let _ ← orFail inserted (.conflict "course already in cart")
  getCart userId

def addItem (userId : Uuid) (itemType : String) (itemId : Uuid) (quantity : ℤ) : Tx CartResponse :=
  if itemType = "product" then addProductItem userId itemId quantity
  else if itemType = "course" then addCourseItem userId itemId quantity
  else throw (.validation s!"invalid item_type: {itemType}")

/-- UPDATE cart_items SET quantity WHERE id AND user_id RETURNING *. -/
def updateQuantityTx (userId itemId : Uuid) (quantity : ℤ) : Tx (Option CartItem) := do
  match ← selectFor (S := Shop) .cartItems (userId, itemId) (fun _ => true) .noKeyUpdate with
  | none => return none
  | some row =>
    let row := { row with quantity := quantity }
    ensure row.checks (.database (.check "cart_items"))
    put (S := Shop) (.mod .cartItems (userId, itemId) fun row => { row with quantity := quantity })
    return some row

/-- The line rule for the new quantity, by target. -/
def judgeQuantity (target : LineTarget) (quantity : ℤ) : Tx Unit :=
  match target with
  | .course _ => checked (Course.ensureLineQuantity quantity)
  | .product productId => do
    let product ← read (S := Shop) (·.get .products productId)
    let product ← orFail product (.notFound "product not found")
    checked (product.ensurePurchasable quantity)

def updateQuantity (userId itemId : Uuid) (quantity : ℤ) : Tx CartResponse := do
  checked (ensureQuantityInRange quantity)
  let item ← read (S := Shop) (·.get .cartItems (userId, itemId))
  let item ← orFail item (.notFound "cart item not found")
  judgeQuantity item.target quantity
  let updated ← atomically (updateQuantityTx userId itemId quantity)
  let _ ← orFail updated (.notFound "cart item not found")
  getCart userId

/-- DELETE FROM cart_items WHERE id AND user_id. -/
def removeItemTx (userId itemId : Uuid) : Tx Bool := do
  match ← selectFor (S := Shop) .cartItems (userId, itemId) (fun _ => true) .update with
  | none => return false
  | some _ =>
    put (S := Shop) (.del .cartItems (userId, itemId))
    return true

def removeItem (userId itemId : Uuid) : Tx CartResponse := do
  let removed ← atomically (removeItemTx userId itemId)
  ensure removed (.notFound "cart item not found")
  getCart userId

/-- DELETE FROM cart_items WHERE user_id. -/
def clearCartTx (userId : Uuid) : Tx Unit := do
  let _ ← deleteAll (S := Shop) .cartItems fun k _ => k.1 = userId

def clear (userId : Uuid) : Tx Unit := atomically (clearCartTx userId)

/-! ## What a checkout reads -/

/-- The product and course ids in a cart. -/
structure CheckoutTargets where
  productIds : List Uuid
  courseIds : List Uuid
deriving DecidableEq, Repr

def LineTarget.productId : LineTarget → Option Uuid
  | .product id => some id
  | .course _ => none

def LineTarget.courseId : LineTarget → Option Uuid
  | .product _ => none
  | .course id => some id

/-- One statement without a lock. -/
def checkoutTargets (userId : Uuid) (d : Db) : CheckoutTargets :=
  let targets := (d.sel .cartItems fun k _ => k.1 = userId).map fun e => e.2.target
  ⟨targets.filterMap LineTarget.productId, targets.filterMap LineTarget.courseId⟩

structure CheckoutLine where
  target : LineTarget
  quantity : ℤ
  priceCents : ℤ
  name : String
  isActive : Bool
deriving DecidableEq, Repr

/-- A cart row as a checkout line, its target as it is in `d`. -/
def checkoutLine (d : Db) (e : (Uuid × Uuid) × CartItem) : Option CheckoutLine :=
  (e.2.target.offer d).map fun (name, priceCents, isActive) =>
    ⟨e.2.target, e.2.quantity, priceCents, name, isActive⟩

/-- SELECT … FROM cart_items ci JOIN … WHERE user_id AND p ORDER BY created_at FOR UPDATE OF ci:
the cart rows are looked at again once they are locked, the joined rows are those
of the statement's snapshot. -/
def findLinesTx (userId : Uuid) (p : LineTarget → Bool) : Tx (List CheckoutLine) := do
  let (hits, d) ← read (S := Shop) fun d =>
    ((cartRows userId p d).filter fun e => (checkoutLine d e).isSome, d)
  let rows ← lockEach (S := Shop) .cartItems (fun k row => k.1 = userId ∧ p row.target) .update
    (hits.map Prod.fst)
  return rows.filterMap (checkoutLine d)

def LineTarget.isCourse (target : LineTarget) : Bool := !target.isProduct

def findCartItemsForCheckoutTx (userId : Uuid) : Tx (List CheckoutLine) := do
  let lines ← findLinesTx userId LineTarget.isProduct
  let courseLines ← findLinesTx userId LineTarget.isCourse
  return lines ++ courseLines

end DreamFly
