import DreamFly.Auth.Otp
import DreamFly.Conc.Protocol

/-!
# What the phone calls do, in order

The protocol of each request of `phones`, and that its code keeps to it.
-/

namespace DreamFly.Otp

open Conc Code
open Content (UpdateProfileRequest)

/-- How far a call has come: `send_otp` up to `sms`, `verify_otp` from `count` on, the
edits of a profile. -/
inductive Phase
  | rate
  | draw
  | set (code : String)
  | reset (code : String)
  | sms (code : String)
  | count
  | tooMany
  | load
  | write
  | clearCode
  | clearAttempts
  | edit
  | done
deriving DecidableEq

/-- The statement of an edit. -/
def Req.edits : Req → UserCmd → Prop
  | .updateMe u req _, c => c = .updateProfile u req
  | .adminUpdateUser u req, c =>
    (∃ b, c = .setActiveTx u b) ∨ c = .adminUpdateTx u req.name req.phone ∨ c = .commit u ∨
    c = .rollback u
  | _, _ => False

def afterSet (code : String) : Except StoreError Unit → Phase
  | .ok _ => .reset code
  | .error _ => .done

def afterCount : Except StoreError ℤ → Phase
  | .ok a => if a > otpMaxAttempts then .tooMany else .load
  | .error _ => .done

def afterLoad (req : OtpVerifyRequest) : Except StoreError (Option (Val Payload)) → Phase
  | .ok stored => if judge req stored = .ok () then .write else .done
  | .error _ => .done

theorem afterCount_cases (r : Except StoreError ℤ) : afterCount r = .done ∨
    afterCount r = .tooMany ∨ afterCount r = .load := by
  cases r with
  | error x => exact .inl rfl
  | ok a =>
    by_cases hmax : a > otpMaxAttempts
    · exact .inr (.inl (if_pos hmax))
    · exact .inr (.inr (if_neg hmax))

theorem afterLoad_cases (req : OtpVerifyRequest) (r : Except StoreError (Option (Val Payload))) :
    afterLoad req r = .done ∨ afterLoad req r = .write ∧ ∃ stored, r = .ok stored ∧
      judge req stored = .ok () := by
  cases r with
  | error x => exact .inl rfl
  | ok stored =>
    by_cases hj : judge req stored = .ok ()
    · exact .inr ⟨if_pos hj, stored, rfl, hj⟩
    · exact .inl (if_neg hj)

/-- The command of each phase, and the phase after it. -/
inductive Gives : Req → Phase → (c : backend.Cmd) → (backend.Reply c → Phase) → Prop
  | rate (u : Uuid) (phone : String) :
    Gives (.sendOtp u phone) .rate (.store (.incrWithTtl (.otpRate u) otpRateLimitTtl))
    fun _ => .draw
  | draw (u : Uuid) (phone : String) : Gives (.sendOtp u phone) .draw (.other .drawCode) fun n =>
    .set (toString n)
  | set (u : Uuid) (phone code : String) :
    Gives (.sendOtp u phone) (.set code) (.store (.setEx (.otp u) ⟨phone, code⟩ otpTtlSeconds))
    (afterSet code)
  | reset (u : Uuid) (phone code : String) :
    Gives (.sendOtp u phone) (.reset code) (.store (.del (.otpAttempts u))) fun _ => .sms code
  | sms (u : Uuid) (phone code : String) : Gives (.sendOtp u phone) (.sms code)
  (.other (.sendSms phone code)) fun _ => .done
  | count (u : Uuid) (req : OtpVerifyRequest) :
    Gives (.verifyOtp u req) .count (.store (.incrWithTtl (.otpAttempts u) otpTtlSeconds))
    afterCount
  | tooMany (u : Uuid) (req : OtpVerifyRequest) : Gives (.verifyOtp u req) .tooMany
    (.store (.del (.otp u))) fun _ => .done
  | load (u : Uuid) (req : OtpVerifyRequest) :
    Gives (.verifyOtp u req) .load (.store (.get (.otp u))) (afterLoad req)
  | write (u : Uuid) (req : OtpVerifyRequest) :
    Gives (.verifyOtp u req) .write (.other (.updatePhoneVerified u req.phone)) fun _ => .clearCode
  | clearCode (u : Uuid) (req : OtpVerifyRequest) :
    Gives (.verifyOtp u req) .clearCode (.store (.del (.otp u))) fun _ => .clearAttempts
  | clearAttempts (u : Uuid) (req : OtpVerifyRequest) :
    Gives (.verifyOtp u req) .clearAttempts (.store (.del (.otpAttempts u))) fun _ => .done
  | edit {q : Req} {c : UserCmd} (h : q.edits c) : Gives q .edit (.other c) fun _ => .edit

/-- Whose call it is. -/
def Req.user : Req → Uuid
  | .sendOtp u _ | .verifyOtp u _ | .updateMe u _ _ | .adminUpdateUser u _ => u

def Key.user : Key → Uuid
  | .otpRate u | .otp u | .otpAttempts u => u

/-- A call touches its own user's keys. -/
theorem Gives.key {q : Req} {σ : Phase} {c : StoreCmd Key Payload}
    {f : backend.Reply (.store c) → Phase}
    (h : Gives q σ (.store c) f) : c.key.user = q.user := by
  cases h <;> rfl

/-- With a code in the store a `send_otp` goes on to reset the counter. -/
def Phase.ends : Phase → Prop
  | .reset _ => False
  | _ => True

@[reducible] def protocol (q : Req) : Protocol backend AppError Reply where
  Phase := Phase
  gives := Gives q
  ends _ := Phase.ends

/-- The phase a request starts in. -/
def Req.first : Req → Phase
  | .sendOtp _ _ => .rate
  | .verifyOtp _ _ => .count
  | .updateMe _ _ _ => .edit
  | .adminUpdateUser _ _ => .edit

abbrev Io.Follows {α : Type} (q : Req) (p : Io α) (σ : Phase) (post : Phase → Prop) : Prop :=
  Code.Follows (protocol q) (fun _ => post) σ p

section follows
variable {u : Uuid} {phone : String} {req : OtpVerifyRequest}

theorem issueCode_follows : (issueCode u phone).Follows (.sendOtp u phone) .draw Phase.ends := by
  unfold issueCode
  refine Follows.other (.draw u phone) fun n => ?_
  refine Follows.store (.set u phone (toString n)) (fun _ => trivial) fun _ => ?_
  refine Follows.store (.reset u phone (toString n)) (fun _ => trivial) fun _ => ?_
  refine Follows.other (.sms u phone (toString n)) fun _ => ?_
  exact Follows.ensure (fun _ => trivial) fun _ => trivial

theorem sendOtp_follows : (sendOtp u phone).Follows (.sendOtp u phone) .rate Phase.ends := by
  unfold sendOtp
  refine Follows.store (.rate u phone) (fun _ => trivial) fun _ => ?_
  exact Follows.ensure (fun _ => trivial) fun _ => issueCode_follows

/-- Whoever gets past `check` has presented the stored code. -/
theorem check_follows : (Otp.check u req).Follows (.verifyOtp u req) .count fun σ =>
    σ = .write := by
  unfold Otp.check
  refine Follows.store (.count u req) (fun _ => trivial) fun a => ?_
  by_cases hmax : a > otpMaxAttempts
  · have hover : afterCount (.ok a) = .tooMany := if_pos hmax
    rw [if_pos hmax, hover]
    exact Follows.store (.tooMany u req) (fun _ => trivial) fun _ => trivial
  · have hload : afterCount (.ok a) = .load := if_neg hmax
    rw [if_neg hmax, hload]
    refine Follows.store (.load u req) (fun _ => trivial) fun stored => ?_
    cases hj : judge req stored with
    | ok x => exact (if_pos hj : afterLoad req (.ok stored) = .write)
    | error e =>
      have hne : judge req stored ≠ .ok () := by
        rw [hj]
        exact nofun
      have hdone : afterLoad req (.ok stored) = .done := if_neg hne
      rw [hdone]
      trivial

theorem consume_follows : (consume u).Follows (.verifyOtp u req) .clearCode Phase.ends := by
  unfold consume
  refine Follows.store (.clearCode u req) (fun _ => trivial) fun _ => ?_
  exact Follows.lastStore (.clearAttempts u req) (fun _ => trivial) fun _ => trivial

theorem verifyOtp_follows : (verifyOtp u req).Follows (.verifyOtp u req) .count Phase.ends := by
  unfold verifyOtp
  refine Follows.bind check_follows ?_
  rintro _ σ rfl
  refine Follows.other (.write u req) fun r => ?_
  refine Follows.check (fun _ _ => trivial) fun _ _ => ?_
  exact Follows.bind consume_follows fun _ _ h => h

end follows

section edits
variable {u : Uuid}

theorem updateMe_follows {req : UpdateProfileRequest} {today : ℤ} :
    (updateMe u req today).Follows (.updateMe u req today) .edit Phase.ends := by
  have hwrite : Io.Follows (.updateMe u req today) (do
      let updated ← other (M := users) (.updateProfile u req)
      Code.check (updated.mapError AppError.database)) .edit Phase.ends := by
    refine Follows.other (.edit rfl) fun r => ?_
    cases r with
    | ok v => trivial
    | error e => trivial
  unfold updateMe
  split
  · split
    · trivial
    · exact hwrite
  · exact hwrite

theorem setActiveTx_follows {req : UpdateUserRequest} (b : Option Bool) :
    (setActiveTx u b).Follows (.adminUpdateUser u req) .edit fun σ => σ = .edit := by
  cases b with
  | none => exact (rfl : Phase.edit = Phase.edit)
  | some b => exact Follows.lastOther (.edit (.inl ⟨b, rfl⟩)) fun _ => rfl

theorem adminUpdateTx_follows {req : UpdateUserRequest} :
    (adminUpdateTx u req).Follows (.adminUpdateUser u req) .edit Phase.ends := by
  unfold adminUpdateTx
  refine Follows.other (.edit (.inr (.inl rfl))) fun r => ?_
  cases r with
  | none => exact Follows.other (.edit (.inr (.inr (.inr rfl)))) fun _ => trivial
  | some user => exact Follows.other (.edit (.inr (.inr (.inl rfl)))) fun _ => trivial

theorem adminUpdateUser_follows {req : UpdateUserRequest} :
    (adminUpdateUser u req).Follows (.adminUpdateUser u req) .edit Phase.ends := by
  unfold adminUpdateUser
  refine Follows.ensure (fun _ => trivial) fun _ => ?_
  refine Follows.bind (setActiveTx_follows req.isActive) ?_
  rintro _ σ rfl
  exact adminUpdateTx_follows

end edits

/-- **Every call keeps to its protocol.** -/
theorem phones_keeps (q : Req) : (phones.prog q).Keeps (protocol q) q.first := by
  cases q with
  | sendOtp u phone => exact Follows.bind sendOtp_follows fun _ _ h => h
  | verifyOtp u req => exact Follows.bind verifyOtp_follows fun _ _ h => h
  | updateMe u req today => exact Follows.bind updateMe_follows fun _ _ h => h
  | adminUpdateUser u req => exact Follows.bind adminUpdateUser_follows fun _ _ h => h

end DreamFly.Otp
