import DreamFly.Auth.Access

/-!
# What the access calls do, in order

The protocol of `resolve` and of a change, and that the encoding of a set of roles can be
read back.
-/

namespace DreamFly.Access

open Conc Code

/-! ## The encoding -/

/-- A name the encoding can hold. -/
def ValidRole (name : String) : Prop := name ≠ "" ∧ '\n' ∉ name.toList ∧ name ≠ emptyRolesSentinel

theorem decodeActive_encode (b : Bool) : decodeActive (some (encodeActive b)) = some b := by
  cases b <;> rfl

theorem split_join {roles : List String} (h : ∀ name ∈ roles, ValidRole name) (hne : roles ≠ []) :
    ((String.intercalate (String.singleton '\n') roles).split '\n').toList.map (fun s => s.copy) =
    roles := by
  rw [String.toList_split_intercalate fun name hn => (h name hn).2.1, if_neg hne]

/-- The one name in a text without a newline. -/
theorem split_plain {s : String} (h : '\n' ∉ s.toList) :
    (s.split '\n').toList.map (fun s => s.copy) = [s] := by
  rw [String.toList_split_char, List.splitOn_eq_singleton h, List.map_singleton,
    String.ofList_toList]

/-- **A cached list of roles is read back as it was written.** -/
theorem decodeRoles_encode {roles : List String} (h : ∀ name ∈ roles, ValidRole name) :
    decodeRoles (some (encodeRoles roles)) = some roles := by
  cases roles with
  | nil => rfl
  | cons r rs =>
    have hsplit := split_join h (List.cons_ne_nil r rs)
    have hjoin : encodeRoles (r :: rs) = String.intercalate (String.singleton '\n') (r :: rs) := rfl
    have hname : ∀ s, '\n' ∉ s.toList → encodeRoles (r :: rs) = s → r = s := by
      intro s hs heq
      rw [← hjoin, heq, split_plain hs] at hsplit
      cases hsplit
      rfl
    have hr := h r List.mem_cons_self
    have h1 : encodeRoles (r :: rs) ≠ emptyRolesSentinel :=
      fun heq => hr.2.2 (hname _ (by decide) heq)
    have h2 : encodeRoles (r :: rs) ≠ "" := fun heq => hr.1 (hname _ (by decide) heq)
    unfold decodeRoles
    dsimp only
    rw [if_neg h1, if_pos h2, hjoin, hsplit]

/-! ## The protocol -/

inductive Phase
  | getActive
  | readActive
  | putActive (active : Bool)
  | getRoles
  | readRoles
  | putRoles (roles : List String)
  | answer (a : Option (List String))
  | write
  | commit
  | flush
  | changed
  | failed

/-- Only an active user's roles are looked up. -/
def afterActive (active : Bool) : Phase := if active then .getRoles else .answer none

def afterGetActive (r : Except Unit (Option String)) : Phase :=
  match decodeActive (hit r) with
  | some active => afterActive active
  | none => .readActive

def afterReadActive : Except DbError (Option Bool) → Phase
  | .ok row => .putActive (row.getD false)
  | .error _ => .failed

def afterGetRoles (r : Except Unit (Option String)) : Phase :=
  match decodeRoles (hit r) with
  | some roles => .answer (some roles)
  | none => .readRoles

def afterReadRoles : Except DbError (List String) → Phase
  | .ok roles => .putRoles roles
  | .error _ => .failed

def unlessFailed (σ : Phase) : Except DbError Unit → Phase
  | .ok _ => σ
  | .error _ => .failed

inductive Gives : Req → Phase → (c : access.Cmd) → (access.Reply c → Phase) → Prop
  | getActive (u : Uuid) : Gives (.resolve u) .getActive (.get (.active u)) afterGetActive
  | readActive (u : Uuid) : Gives (.resolve u) .readActive (.findActive u) afterReadActive
  | putActive (u : Uuid) (b : Bool) :
    Gives (.resolve u) (.putActive b) (.setEx (.active u) (encodeActive b) activeCacheTtlSeconds)
    fun _ => afterActive b
  | getRoles (u : Uuid) : Gives (.resolve u) .getRoles (.get (.roles u)) afterGetRoles
  | readRoles (u : Uuid) : Gives (.resolve u) .readRoles (.findRoleNamesByUser u) afterReadRoles
  | putRoles (u : Uuid) (l : List String) :
    Gives (.resolve u) (.putRoles l) (.setEx (.roles u) (encodeRoles l) roleCacheTtlSeconds)
    fun _ => .answer (some l)
  | write (c : Change) : Gives (.change c) .write (.write c) (unlessFailed .commit)
  | commit (c : Change) : Gives (.change c) .commit .commit (unlessFailed .flush)
  | flush (c : Change) : Gives (.change c) .flush (.del [.roles c.user, .active c.user]) fun _ =>
    .changed

/-- The result a call ends with. -/
def Phase.ends (r : Except AppError Reply) : Phase → Prop
  | .answer a => r = .ok (.access a)
  | .changed => r = .ok .changed
  | .failed => ∃ e, r = .error (.database e)
  | _ => False

@[reducible] def protocol (q : Req) : Protocol access AppError Reply where
  Phase := Phase
  gives := Gives q
  ends := Phase.ends

section follows
variable {u : Uuid}

theorem refillActive_follows :
    (refillActive u).Follows (protocol (.resolve u))
    (fun b σ => σ = afterActive b) .readActive := by
  unfold refillActive
  refine Follows.exec (.readActive u) fun row => ?_
  cases row with
  | error e => exact ⟨e, rfl⟩
  | ok row => exact Follows.exec (.putActive u _) fun _ => rfl

theorem isActive_follows :
    (isActive u).Follows (protocol (.resolve u)) (fun b σ => σ = afterActive b) .getActive := by
  unfold isActive
  refine Follows.exec (.getActive u) fun cached => ?_
  unfold afterGetActive
  cases decodeActive (hit cached) with
  | some b => exact (rfl : afterActive b = afterActive b)
  | none => exact refillActive_follows

theorem refillRoles_follows :
    (refillRoles u).Follows (protocol (.resolve u))
    (fun l σ => σ = .answer (some l)) .readRoles := by
  unfold refillRoles
  refine Follows.exec (.readRoles u) fun roles => ?_
  cases roles with
  | error e => exact ⟨e, rfl⟩
  | ok roles => exact Follows.exec (.putRoles u _) fun _ => rfl

theorem roleNames_follows :
    (roleNames u).Follows (protocol (.resolve u)) (fun l σ => σ = .answer (some l)) .getRoles := by
  unfold roleNames
  refine Follows.exec (.getRoles u) fun cached => ?_
  unfold afterGetRoles
  cases decodeRoles (hit cached) with
  | some l => exact (rfl : Phase.answer (some l) = .answer (some l))
  | none => exact refillRoles_follows

theorem resolve_follows :
    (resolve u).Follows (protocol (.resolve u)) (fun a σ => σ = .answer a) .getActive := by
  unfold resolve
  refine Follows.bind isActive_follows ?_
  rintro b σ rfl
  cases b with
  | false => exact (rfl : Phase.answer none = .answer none)
  | true => exact Follows.bind roleNames_follows fun _ _ h => h

theorem change_follows (c : Change) :
    (change c).Follows (protocol (.change c)) (fun _ σ => σ = .changed) .write := by
  unfold change
  refine Follows.exec (.write c) fun r => ?_
  cases r with
  | error e => exact ⟨e, rfl⟩
  | ok _ =>
    refine Follows.exec (.commit c) fun r => ?_
    cases r with
    | error e => exact ⟨e, rfl⟩
    | ok _ => exact Follows.exec (.flush c) fun _ => rfl

end follows

/-- The phase a request starts in. -/
def Req.first : Req → Phase
  | .resolve _ => .getActive
  | .change _ => .write

theorem accounts_keeps (q : Req) : (accounts.prog q).Keeps (protocol q) q.first := by
  cases q with
  | resolve u =>
    refine Follows.bind resolve_follows ?_
    rintro a σ rfl
    exact (rfl : (Except.ok (Reply.access a) : Except AppError Reply) = _)
  | change c =>
    refine Follows.bind (change_follows c) ?_
    rintro _ σ rfl
    exact (rfl : (Except.ok Reply.changed : Except AppError Reply) = _)

end DreamFly.Access
