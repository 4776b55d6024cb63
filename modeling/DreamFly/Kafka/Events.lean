import DreamFly.Base

/-!
# Events

The contract of each domain event (its topic, type and the resource it is about), and JSON
values as the services read and write them.
-/

namespace DreamFly.Kafka

/-! ## Event specs -/

structure EventSpec where
  topic : String
  eventType : String
  resource : String
  idField : String
deriving DecidableEq, Repr

def orderCreatedSpec : EventSpec := ⟨"dreamfly.orders.created", "order_created", "order",
    "order_id"⟩

def orderStatusChangedSpec : EventSpec := ⟨"dreamfly.orders.status_changed", "order_status_changed",
    "order", "order_id"⟩

def bookingCreatedSpec : EventSpec := ⟨"dreamfly.bookings.created", "booking_created", "booking",
    "booking_id"⟩

def bookingCancelledSpec : EventSpec := ⟨"dreamfly.bookings.cancelled", "booking_cancelled",
    "booking", "booking_id"⟩

def userRegisteredSpec : EventSpec := ⟨"dreamfly.users.registered", "user_registered", "user",
    "user_id"⟩

def allSpecs : List EventSpec :=
  [orderCreatedSpec, orderStatusChangedSpec, bookingCreatedSpec, bookingCancelledSpec,
    userRegisteredSpec]

def specForEventType (eventType : String) : Option EventSpec := allSpecs.find? fun s =>
    s.eventType = eventType

/-! ## JSON -/

inductive Json
  | null
  | bool (b : Bool)
  | num (literal : String)
  | str (s : String)
  | arr (vs : List Json)
  | obj (fields : List (String × Json))

namespace Json

def get : Json → String → Option Json
  | .obj fields, field => fields.lookup field
  | _, _ => none

def asStr : Json → Option String
  | .str s => some s
  | _ => none

end Json

end DreamFly.Kafka
