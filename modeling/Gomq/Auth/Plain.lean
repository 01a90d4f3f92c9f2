import Gomq.Lib.Utf8
import Gomq.Auth.Handshake

/-!
# PLAIN and AMQPLAIN

The two mechanisms take a response apart with two functions called `splitNull`, one over the
characters of a string and one over bytes, and look the user up in two tables with two conditions.
The functions differ in what their loops visit, but only a zero does anything, and both loops visit
the same zeros. Over one table the mechanisms accept the same responses for the same users
(`plain_eq_ok_iff_amqplain`).
-/

namespace Gomq.Auth

open List

/-! ## The two splits -/

/-- The body of the loops: the parts so far, and where the next one starts. -/
def cutAt (b : Bytes) (acc : List Bytes × ℕ) (visit : ℕ × ℕ) : List Bytes × ℕ :=
  if visit.2 = 0 then (acc.1 ++ [(b.take visit.1).drop acc.2], visit.1 + 1) else acc

/-- The parts of `b` between the zeros that a loop visits. -/
def cut (visits : List (ℕ × ℕ)) (b : Bytes) : List Bytes :=
  let acc := visits.foldl (cutAt b) ([], 0)
  acc.1 ++ [b.drop acc.2]

def Plain.splitNull (s : GoString) : List GoString := cut (rangeRunes s) s

def Amqplain.splitNull (b : Bytes) : List Bytes := cut (rangeBytes b) b

theorem cut_zeros (visits : List (ℕ × ℕ)) (b : Bytes) : cut (zeros visits) b = cut visits b := by
  have hbody : (fun acc (v : ℕ × ℕ) => if decide (v.2 = 0) = true then cutAt b acc v else acc) =
      cutAt b := by
    funext acc v
    unfold cutAt
    by_cases hv : v.2 = 0 <;> simp [hv]
  unfold cut zeros
  rw [foldl_filter, hbody]

theorem splitNull_plain_eq (s : GoString) : Plain.splitNull s = Amqplain.splitNull s := by
  unfold Plain.splitNull Amqplain.splitNull
  rw [← cut_zeros, zeros_rangeRunes, cut_zeros]

theorem splitNull_ne_nil : ∀ b : Bytes, splitNull b ≠ []
  | [] => by simp [splitNull]
  | b :: bs => by
    unfold splitNull
    split
    · simp
    · split <;> simp

theorem take_succ_drop {b bs : Bytes} {c : UInt8} {start i : ℕ} (hbs : b.drop i = c :: bs)
    (hle : start ≤ i) : (b.take (i + 1)).drop start = (b.take i).drop start ++ [c] := by
  have hi : i < b.length := by
    by_contra hlen
    rw [drop_eq_nil_of_le (not_lt.mp hlen)] at hbs
    cases hbs
  have hc : b[i] = c := by
    have h := drop_eq_getElem_cons hi
    rw [hbs] at h
    injection h with h _
    exact h.symm
  have htake : b.take (i + 1) = b.take i ++ [c] := by
    rw [take_succ_eq_append_getElem hi, hc]
  rw [htake, drop_append_of_le_length]
  rw [length_take, min_eq_left hi.le]
  exact hle

theorem cut_loop (b : Bytes) : ∀ (bs : Bytes) (i start : ℕ) (parts : List Bytes),
    b.drop i = bs → start ≤ i →
    (let acc := (rangeBytesFrom i bs).foldl (cutAt b) (parts, start)
     acc.1 ++ [b.drop acc.2]) =
      parts ++ (splitNull bs).modifyHead ((b.take i).drop start ++ ·) := by
  intro bs
  induction bs with
  | nil =>
    intro i start parts hbs _
    have htake : b.take i = b := take_of_length_le (drop_eq_nil_iff.mp hbs)
    simp [rangeBytesFrom, splitNull, htake]
  | cons c bs ih =>
    intro i start parts hbs hle
    have hnext : b.drop (i + 1) = bs := by
      rw [← drop_drop, hbs]
      rfl
    rw [rangeBytesFrom, foldl_cons, splitNull]
    by_cases hc : c = 0
    · -- a zero ends the part, and the next one starts empty
      have hempty : (b.take (i + 1)).drop (i + 1) = [] :=
        drop_eq_nil_of_le (length_take_le _ _)
      have hcut : cutAt b (parts, start) (i, c.toNat) =
          (parts ++ [(b.take i).drop start], i + 1) := by
        rw [hc]
        rfl
      rw [hcut, ih (i + 1) (i + 1) _ hnext le_rfl, hempty, if_pos hc]
      cases splitNull bs with
      | nil => simp
      | cons p ps => simp
    · have hcut : cutAt b (parts, start) (i, c.toNat) = (parts, start) :=
        if_neg fun h0 => hc (UInt8.toNat_inj.mp h0)
      rw [hcut, ih (i + 1) start parts hnext (by omega), take_succ_drop hbs hle, if_neg hc]
      cases hparts : splitNull bs with
      | nil => exact absurd hparts (splitNull_ne_nil bs)
      | cons p ps => simp

theorem splitNull_amqplain_eq (b : Bytes) : Amqplain.splitNull b = splitNull b := by
  have h := cut_loop b b 0 0 [] rfl le_rfl
  unfold Amqplain.splitNull cut rangeBytes
  rw [h]
  cases splitNull b with
  | nil => rfl
  | cons p ps => rfl

/-! ## The two mechanisms -/

def memoryAuthenticate (users : Users) (username password : GoString) : Except StepError Unit :=
  match users.get username with
  | some expect => if expect = password then .ok () else .error .authFailed
  | none => .error .authFailed

/-- The branch of `readStartOk` for PLAIN, over the users of a `MemoryAuthenticator`: the user name
that the connection gets. -/
def plain (users : Users) (response : GoString) : Except StepError GoString :=
  if response.length < 3 then .error .authFailed
  else
    match Plain.splitNull response with
    | _ :: user :: password :: _ =>
      match memoryAuthenticate users user password with
      | .error e => .error e
      | .ok () => .ok user
    | _ => .error .authFailed

inductive AmqplainError where
  /-- `invalid response length` -/
  | length
  /-- `invalid response format` -/
  | format
  /-- `authentication failed` -/
  | failed
  deriving DecidableEq

def Amqplain.response (users : Users) (response : Bytes) : Except AmqplainError GoString :=
  if response.length < 3 then .error .length
  else
    match Amqplain.splitNull response with
    | _ :: user :: password :: _ =>
      match users.get user with
      | none => .error .failed
      | some expect => if expect ≠ password then .error .failed else .ok user
    | _ => .error .format

def accepted (users : Users) (response : GoString) : Option GoString :=
  match credentials response with
  | none => none
  | some (user, password) => if users.get user = some password then some user else none

theorem toOption_eq_some_iff {ε α : Type*} (out : Except ε α) (a : α) :
    out.toOption = some a ↔ out = .ok a := by
  cases out <;> simp [Except.toOption]

theorem parts_toOption {ε : Type} (response : GoString) (short format : ε)
    (check : GoString → GoString → Except ε GoString) :
    (if response.length < 3 then .error short
      else
        match splitNull response with
        | _ :: user :: password :: _ => check user password
        | _ => .error format : Except ε GoString).toOption =
      match credentials response with
      | none => none
      | some (user, password) => (check user password).toOption := by
  unfold credentials
  by_cases hlen : response.length < 3
  · simp only [hlen, if_true]
    rfl
  · simp only [hlen, if_false]
    rcases splitNull response with _ | ⟨first, _ | ⟨user, _ | ⟨password, rest⟩⟩⟩
    · rfl
    · rfl
    · rfl
    · rfl

theorem plain_toOption (users : Users) (response : GoString) :
    (plain users response).toOption = accepted users response := by
  unfold plain accepted
  rw [splitNull_plain_eq, splitNull_amqplain_eq]
  refine (parts_toOption response StepError.authFailed .authFailed fun user password =>
    match memoryAuthenticate users user password with
    | .error e => .error e
    | .ok () => .ok user).trans ?_
  rcases credentials response with _ | ⟨user, password⟩
  · rfl
  · dsimp only
    unfold memoryAuthenticate
    cases users.get user with
    | none => simp [Except.toOption]
    | some expect => by_cases hp : expect = password <;> simp [hp, Except.toOption]

theorem amqplain_toOption (users : Users) (response : Bytes) :
    (Amqplain.response users response).toOption = accepted users response := by
  unfold Amqplain.response accepted
  rw [splitNull_amqplain_eq]
  refine (parts_toOption response AmqplainError.length .format fun user password =>
    match users.get user with
    | none => .error .failed
    | some expect => if expect ≠ password then .error .failed else .ok user).trans ?_
  rcases credentials response with _ | ⟨user, password⟩
  · rfl
  · dsimp only
    cases users.get user with
    | none => simp [Except.toOption]
    | some expect => by_cases hp : expect = password <;> simp [hp, Except.toOption]

/-- Over one table of users, the handshake's PLAIN and AMQPLAIN accept the same responses, for the
same user. -/
theorem plain_eq_ok_iff_amqplain (users : Users) (response user : GoString) :
    plain users response = .ok user ↔ Amqplain.response users response = .ok user := by
  rw [← toOption_eq_some_iff, ← toOption_eq_some_iff, plain_toOption, amqplain_toOption]

/-! ## In the handshake -/

theorem accepts_iff (users : Users) (user password : GoString) :
    users.accepts user password = true ↔ users.get user = some password :=
  beq_iff_eq

theorem authenticate_plain (users : Users) (certificate : Option GoString) (response : GoString) :
    (authenticate users.accepts certificate (str "PLAIN") response).toOption =
      (plain users response).toOption := by
  rw [plain_toOption]
  unfold authenticate accepted
  rw [if_pos rfl]
  rcases credentials response with _ | ⟨user, password⟩
  · rfl
  · by_cases hget : users.get user = some password
    · simp [hget, (accepts_iff users user password).mpr hget, Except.toOption]
    · simp [hget, accepts_iff users user password, Except.toOption]

theorem mechanism_response_amqplain (users : Users) (certificate : Option GoString)
    (response : GoString) :
    (Mechanism.amqplain users).response certificate response =
      (Amqplain.response users response).toOption := by
  rw [amqplain_toOption]
  unfold Mechanism.response accepted
  rcases credentials response with _ | ⟨user, password⟩
  · rfl
  · simp only [accepts_iff]

end Gomq.Auth
