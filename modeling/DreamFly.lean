import DreamFly.Txn.Sound
import DreamFly.Txn.Yields
import DreamFly.Shop.Points
import DreamFly.Shop.Products
import DreamFly.Shop.Cart
import DreamFly.Shop.Leave
import DreamFly.Shop.Orders
import DreamFly.Shop.Rewards
import DreamFly.Shop.Requests
import DreamFly.Proof.Rules
import DreamFly.Proof.Points
import DreamFly.Proof.Stock
import DreamFly.Proof.Seats
import DreamFly.Proof.CartLines
import DreamFly.Proof.Checkout
import DreamFly.Proof.Refund
import DreamFly.Proof.Edits
import DreamFly.Proof.Leaves
import DreamFly.Proof.Contract
import DreamFly.Run.Points
import DreamFly.Run.Refunds
import DreamFly.Run.Stock
import DreamFly.Run.Receipts
import DreamFly.Run.Carts
import DreamFly.Run.Seats
import DreamFly.Run.Leaves
import DreamFly.Run.Attendance
import DreamFly.Run.Rooms
import DreamFly.Txn.Solo
import DreamFly.Txn.Stages
import DreamFly.Auth.Session
import DreamFly.Txn.Plain
import DreamFly.Proof.Pages
import DreamFly.Run.Urls
import DreamFly.Rental.Bookings
import DreamFly.Proof.Rental
import DreamFly.Run.Rental
import DreamFly.Conc.Machine
import DreamFly.Conc.Ephemeral
import DreamFly.Conc.Lts
import DreamFly.Conc.Protocol
import DreamFly.Auth.Otp
import DreamFly.Proof.Otp
import DreamFly.Run.Otp
import DreamFly.Run.Phones
import DreamFly.Auth.ResetTokens
import DreamFly.Run.ResetTokens
import DreamFly.Auth.Credentials
import DreamFly.Run.Lockout
import DreamFly.Auth.Access
import DreamFly.Proof.Access
import DreamFly.Run.Access
import DreamFly.Run.Answers
import DreamFly.Txn.Careful
import DreamFly.Txn.Books
import DreamFly.Proof.CartCalls
import DreamFly.Run.CartCalls
import DreamFly.Shop.Desk
import DreamFly.Proof.Desk
import DreamFly.Run.Sessions
import DreamFly.Proof.Pricing
import DreamFly.Proof.Ledger
import DreamFly.Proof.Calendar
import DreamFly.Run.Messages
import DreamFly.Run.Revenue
import DreamFly.Run.Restock
import DreamFly.Run.Marks
import DreamFly.Run.Rewards
import DreamFly.Run.Audit
import DreamFly.Kafka.Outbox
import DreamFly.Run.Outbox
import DreamFly.Lists.Search
import DreamFly.Txn.Settles
import DreamFly.Proof.Reservation
import DreamFly.Shop.Clock
import DreamFly.Proof.Clock
import DreamFly.Content.Lookup
import DreamFly.Courses.Calendar
import DreamFly.Courses.Service
import DreamFly.Proof.Courses
import DreamFly.Txn.Answer
import DreamFly.Names.Directory
import DreamFly.Run.Addresses
import DreamFly.Txn.Journal
import DreamFly.Proof.Tokens
import DreamFly.Run.Tokens
import DreamFly.Proof.Replay
import DreamFly.Run.Replay
import DreamFly.Coaches.Schedules
import DreamFly.Txn.Firm
import DreamFly.Proof.Schedules
import DreamFly.Run.Schedules
import DreamFly.Txn.Confined
import DreamFly.Proof.Grants
import DreamFly.Run.Orders
import DreamFly.Lists.Stretches
import DreamFly.Proof.Listings
import DreamFly.Proof.Slots
import DreamFly.Run.Slots
import DreamFly.Auth.Linking
import DreamFly.Proof.Linking
import DreamFly.Proof.Reconcile
import DreamFly.Proof.Timetable
import DreamFly.Run.Timetable
import DreamFly.Txn.Begun
import DreamFly.Run.Linking
import DreamFly.Courses.Waitlist
import DreamFly.Proof.Waitlist
import DreamFly.Run.Waitlist
