import DreamFly.Shop.Products

/-!
# The product catalogue

What `POST /products` and `PATCH /products/{id}` let through: the DTO validations, then the
CHECK constraints of the table. The PATCH has no range on `stock`, `valid_days` and
`session_count`.
-/

namespace DreamFly

open Txn

def inRange (lo hi n : ℤ) : Bool := lo ≤ n ∧ n ≤ hi

/-- The fields of `POST /products` the model has columns for. -/
structure CreateProductRequest where
  name : String
  productType : String
  priceCents : ℤ
  stock : Option ℤ
  validDays : Option ℤ
  sessionCount : Option ℤ
deriving DecidableEq, Repr

/-- The ranges of the DTO. -/
def CreateProductRequest.validate (req : CreateProductRequest) : Bool :=
  inRange 1 200 req.name.length ∧ inRange 1 32 req.productType.length ∧
  inRange 0 100000000 req.priceCents ∧
    req.stock.all (inRange 0 1000000) ∧ req.validDays.all (inRange 1 3650) ∧
    req.sessionCount.all (inRange 1 1000)

/-- The ranges of the DTO, and `i32` where it has none. -/
def UpdateProductRequest.validate (req : UpdateProductRequest) : Bool :=
  req.name.all (inRange 1 200 ·.length) ∧ req.productType.all (inRange 1 32 ·.length) ∧
    req.priceCents.all (inRange 0 100000000) ∧
    req.stock.all (·.all fitsI32) ∧ req.validDays.all (·.all fitsI32) ∧
    req.sessionCount.all (·.all fitsI32)

/-- A row under the CHECK constraints. -/
def Product.stored (p : Product) : Except AppError Product :=
  if p.checks then .ok p else .error (.database (.check "products"))

/-- The row that `POST /products` inserts. -/
def createProduct (req : CreateProductRequest) : Except AppError Product := do
  let productType ← parseProductType req.productType
  Product.stored ⟨req.name, productType, req.priceCents, req.stock, req.validDays,
    req.sessionCount, true⟩

/-- The row that `PATCH /products/{id}` leaves of `p`. -/
def updatedProduct (req : UpdateProductRequest) (p : Product) : Except AppError Product := do
  let productType ← req.productType.mapM parseProductType
  (req.apply productType p).stored

/-- A row that the two endpoints admit; sales and refunds move its stock between their
calls. -/
inductive Product.Admitted : Product → Prop
  | created {req : CreateProductRequest} {p : Product} (hv : req.validate = true)
  (h : createProduct req = .ok p) : Admitted p
  | updated {req : UpdateProductRequest} {p p' : Product} (hp : Admitted p)
  (hv : req.validate = true)
      (h : updatedProduct req p = .ok p') : Admitted p'
  | stocked {p : Product} (hp : Admitted p) (stock : Option ℤ) (h : stock.all fun n =>
    0 ≤ n ∧ n ≤ i32Max) :
      Admitted { p with stock := stock }

end DreamFly
