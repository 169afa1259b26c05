import Mathlib.Data.Int.Init
import OmnipaxosKv.Client.Shim

/-! # The Jepsen client (`jepsen/omnipaxos/client.clj`)

`invoke!` makes an HTTP request of an operation of the generators and types the operation
by the outcome of the request. Keys are letters and digits, so they pass through the URL
unchanged.
-/

namespace OmnipaxosKv

namespace Jepsen

open Client

/-! ## `Long/parseLong`

An optional sign and at least one digit; digits are those of `Character.digit`, so not only
the ASCII ones. -/

/-- The code points of the zeros of the decimal digits in the basic plane. -/
def digitZeros : List ℕ :=
  [0x30, 0x660, 0x6F0, 0x7C0, 0x966, 0x9E6, 0xA66, 0xAE6, 0xB66, 0xBE6, 0xC66, 0xCE6, 0xD66,
    0xDE6, 0xE50, 0xED0, 0xF20, 0x1040, 0x1090, 0x17E0, 0x1810, 0x1946, 0x19D0, 0x1A80, 0x1A90,
    0x1B50, 0x1BB0, 0x1C40, 0x1C50, 0xA620, 0xA8D0, 0xA900, 0xA9D0, 0xA9F0, 0xAA50, 0xABF0,
    0xFF10]

/-- `Character.digit(c, 10)`, which is -1 for a character that is no digit. -/
def characterDigit (c : Char) : Option ℕ :=
  (digitZeros.find? fun z => decide (z ≤ c.toNat ∧ c.toNat < z + 10)).map (c.toNat - ·)

def digitsValue (digits : List Char) (value : ℕ) : Option ℕ :=
  match digits with
  | [] => some value
  | c :: digits =>
      match characterDigit c with
      | none => none
      | some d => digitsValue digits (10 * value + d)

def inLongRange (v : ℤ) : Prop := -2 ^ 63 ≤ v ∧ v < 2 ^ 63

instance (v : ℤ) : Decidable (inLongRange v) := inferInstanceAs (Decidable (_ ∧ _))

def signed (negative : Bool) (n : ℕ) : ℤ := if negative then -n else n

def parseDigits (negative : Bool) (digits : List Char) : Option ℤ :=
  if digits = [] then none
  else
    match digitsValue digits 0 with
    | none => none
    | some n =>
        if inLongRange (signed negative n) then some (signed negative n) else none

/-- `none` is a `NumberFormatException`. -/
def parseLong (s : String) : Option ℤ :=
  match s.toList with
  | [] => none
  | c :: rest =>
      if c = '-' then parseDigits true rest
      else if c = '+' then parseDigits false rest
      else parseDigits false (c :: rest)

/-! ## `invoke!` -/

/-- The operations of the generators, `:f`. -/
inductive F where
  | read
  | write
deriving DecidableEq, Repr

/-- An operation: `value` is `none` for `nil`. -/
structure Op where
  f : F
  key : String
  value : Option ℤ
deriving DecidableEq, Repr

inductive OpType where
  | ok
  | info
  | fail
deriving DecidableEq, Repr

/-- What is put under `:error`: a status, a keyword or the message of an exception. -/
inductive OpError where
  | status (code : ℕ)
  | connectionRefused
  | timeout
  | message (text : Option String)
deriving DecidableEq, Repr

/-- The operation that `invoke!` returns. -/
structure Completion extends Op where
  type : OpType
  error : Option OpError
deriving DecidableEq, Repr

/-- The exceptions that the `catch` clauses tell apart. -/
inductive HttpException where
  | connect
  | socketTimeout
  | other (message : Option String)
deriving DecidableEq, Repr

/-- What `http/put` and `http/get` come to. -/
inductive HttpOutcome where
  | response (status : ℕ) (body : String)
  | exception (e : HttpException)
deriving DecidableEq, Repr

/-- `(str value)` -/
def str : Option ℤ → String
  | none => ""
  | some v => toString v

/-- The request of the operation: `PUT` of the value or `GET`, under `/kv/` and the key. -/
def Op.request (op : Op) : HttpOp :=
  match op.f with
  | .write => .put op.key (str op.value)
  | .read => .get op.key

/-- What `NumberFormatException` says of its input. -/
def numberFormatMessage (body : String) : String := "For input string: \"" ++ body ++ "\""

def Op.invoke (op : Op) (outcome : HttpOutcome) : Completion :=
  match outcome with
  | .exception .connect => { op with type := .fail, error := some .connectionRefused }
  | .exception .socketTimeout => { op with type := .info, error := some .timeout }
  | .exception (.other message) => { op with type := .info, error := some (.message message) }
  | .response status body =>
      match op.f with
      -- the value is not looked at: 204 is all that a success says
      | .write =>
          if status = 204 then { op with type := .ok, error := none }
          else { op with type := .info, error := some (.status status) }
      -- the value of the operation is replaced by what was read
      | .read =>
          if status = 200 then
            match parseLong body with
            | some v => { op with value := some v, type := .ok, error := none }
            | none =>
                { op with type := .info, error := some (.message (numberFormatMessage body)) }
          else if status = 404 then { op with value := none, type := .ok, error := none }
          else { op with type := .info, error := some (.status status) }

/-- Key `k<digits>`, and a value if it is a write. -/
def Op.Generated (op : Op) : Prop :=
  (∃ digits : List Char, digits ≠ [] ∧ (∀ c ∈ digits, c.isDigit = true) ∧
    op.key = String.ofList ('k' :: digits)) ∧
  (op.f = .write → op.value.isSome)

instance decidableGenerated (op : Op) : Decidable op.Generated :=
  decidable_of_iff ((op.key.toList.head? = some 'k' ∧ op.key.toList.tail ≠ [] ∧
    op.key.toList.tail.all (·.isDigit) = true) ∧ (op.f = .write → op.value.isSome)) (by
      refine and_congr_left' ?_
      rw [List.all_eq_true]
      constructor
      · intro h
        rcases h with ⟨hhead, hne, hall⟩
        refine ⟨_, hne, hall, ?_⟩
        rw [List.cons_head?_tail hhead, String.ofList_toList]
      · intro h
        rcases h with ⟨digits, hne, hall, hkey⟩
        rw [hkey, String.toList_ofList]
        exact ⟨rfl, hne, hall⟩)

/-- How a handler's status goes over the wire. -/
def response : Status → HttpOutcome
  | .noContent => .response 204 ""
  | .ok body => .response 200 body
  | .notFound => .response 404 ""
  | .internalServerError => .response 500 ""

/-! ## The type of an operation -/

/-- The outcomes that count as a success. -/
def Op.Succeeds (op : Op) : HttpOutcome → Prop
  | .response status body =>
      match op.f with
      | .write => status = 204
      | .read => (status = 200 ∧ (parseLong body).isSome) ∨ status = 404
  | .exception _ => False

/-- What `invoke!` makes of an outcome. -/
theorem Op.invoke_cases (op : Op) (outcome : HttpOutcome) :
    (op.Succeeds outcome ∧ outcome ≠ .exception .connect ∧ (op.invoke outcome).type = .ok) ∨
    (¬ op.Succeeds outcome ∧ outcome = .exception .connect ∧ (op.invoke outcome).type = .fail) ∨
    (¬ op.Succeeds outcome ∧ outcome ≠ .exception .connect ∧
      (op.invoke outcome).type = .info) := by
  unfold Op.invoke Op.Succeeds
  cases outcome with
  | exception e =>
      cases e with
      | connect => simp
      | socketTimeout => simp
      | other message => simp
  | response status body =>
      cases op.f with
      | write =>
          dsimp only
          split
          · next h => simp [h]
          · next h => simp [h]
      | read =>
          dsimp only
          split
          · next h =>
              -- a body that is no number is an exception of `parseLong`
              cases hparse : parseLong body with
              | some v => simp [h]
              | none => simp [h]
          · next h =>
              split
              · next h' => simp [h']
              · next h' => simp [h, h']

theorem Op.invoke_ok_iff {op : Op} {outcome : HttpOutcome} :
    (op.invoke outcome).type = .ok ↔ op.Succeeds outcome := by
  rcases op.invoke_cases outcome with ⟨hsucceeds, _, htype⟩ | ⟨hnot, _, htype⟩ | ⟨hnot, _, htype⟩
  · simp [hsucceeds, htype]
  · simp [hnot, htype]
  · simp [hnot, htype]

/-- Only a refused connection fails an operation. -/
theorem Op.invoke_fail_iff {op : Op} {outcome : HttpOutcome} :
    (op.invoke outcome).type = .fail ↔ outcome = .exception .connect := by
  rcases op.invoke_cases outcome with ⟨_, hne, htype⟩ | ⟨_, heq, htype⟩ | ⟨_, hne, htype⟩
  · simp [hne, htype]
  · exact iff_of_true htype heq
  · simp [hne, htype]

/-- Every other outcome leaves the operation open. -/
theorem Op.invoke_info_iff {op : Op} {outcome : HttpOutcome} :
    (op.invoke outcome).type = .info ↔ ¬ op.Succeeds outcome ∧ outcome ≠ .exception .connect := by
  rw [← Op.invoke_ok_iff, Ne, ← Op.invoke_fail_iff]
  cases (op.invoke outcome).type with
  | ok => simp
  | info => simp
  | fail => simp

/-- The value of a read that succeeds. -/
theorem Op.value_of_read {op : Op} {status : ℕ} {body : String} (hf : op.f = .read)
    (h : op.Succeeds (.response status body)) :
    (status = 200 ∧ ∃ v, parseLong body = some v ∧
      (op.invoke (.response status body)).value = some v) ∨
    (status = 404 ∧ (op.invoke (.response status body)).value = none) := by
  unfold Op.Succeeds at h
  unfold Op.invoke
  rw [hf] at h ⊢
  dsimp only at h ⊢
  rcases h with ⟨hstatus, hsome⟩ | hstatus
  · left
    rcases Option.isSome_iff_exists.mp hsome with ⟨v, hv⟩
    refine ⟨hstatus, v, hv, ?_⟩
    rw [if_pos hstatus, hv]
  · right
    refine ⟨hstatus, ?_⟩
    rw [if_neg (by omega), if_pos hstatus]

/-! ## The text of a number -/

/-- An ASCII digit is worth its distance from `0`. -/
theorem characterDigit_of_isDigit {c : Char} (h : c.isDigit = true) :
    characterDigit c = some (c.toNat - '0'.toNat) := by
  rcases Char.isDigit_iff_toNat.mp h with ⟨hlow, hhigh⟩
  have hrange : 48 ≤ c.toNat ∧ c.toNat < 48 + 10 := ⟨hlow, Nat.lt_succ_of_le hhigh⟩
  simp only [characterDigit, digitZeros]
  rw [List.find?_cons_of_pos (by exact decide_eq_true hrange)]
  rfl

/-- The value of ASCII digits. -/
theorem digitsValue_of_isDigit {digits : List Char} (h : ∀ c ∈ digits, c.isDigit = true) (n : ℕ) :
    digitsValue digits n = some (Nat.ofDigitChars 10 digits n) := by
  induction digits generalizing n with
  | nil => rw [digitsValue, Nat.ofDigitChars_nil]
  | cons c digits ih =>
      rw [List.forall_mem_cons] at h
      rw [digitsValue, characterDigit_of_isDigit h.1, Nat.ofDigitChars_cons]
      exact ih h.2 _

theorem isDigit_of_mem_toDigits {n : ℕ} {c : Char} (h : c ∈ Nat.toDigits 10 n) :
    c.isDigit = true :=
  Nat.isDigit_of_mem_toDigits (by decide) (by decide) h

theorem parseDigits_toDigits (negative : Bool) (n : ℕ) :
    parseDigits negative (Nat.toDigits 10 n) =
      if inLongRange (signed negative n) then some (signed negative n) else none := by
  rw [parseDigits, if_neg Nat.toDigits_ne_nil,
    digitsValue_of_isDigit (fun _ => isDigit_of_mem_toDigits), Nat.ofDigitChars_ten_toDigits]

/-- The text of a `long` is read back as this `long`. -/
theorem parseLong_toString (w : ℤ) :
    parseLong (toString w) = if inLongRange w then some w else none := by
  cases w with
  -- the first character is a digit, so it is no sign
  | ofNat n =>
      have htext : (toString (Int.ofNat n)).toList = Nat.toDigits 10 n := Nat.toList_repr
      have hparse := parseDigits_toDigits false n
      rw [parseLong, htext]
      cases hdigits : Nat.toDigits 10 n with
      | nil => exact absurd hdigits Nat.toDigits_ne_nil
      | cons c rest =>
          have hdigit : c.isDigit = true :=
            isDigit_of_mem_toDigits (n := n) (hdigits ▸ List.mem_cons_self)
          have hminus : c ≠ '-' := by
            intro heq
            rw [heq] at hdigit
            exact absurd hdigit (by decide)
          have hplus : c ≠ '+' := by
            intro heq
            rw [heq] at hdigit
            exact absurd hdigit (by decide)
          dsimp only
          rw [if_neg hminus, if_neg hplus, ← hdigits]
          exact hparse
  -- the minus sign is taken off
  | negSucc n =>
      have htext : (toString (Int.negSucc n)).toList = '-' :: Nat.toDigits 10 (n + 1) := by
        change ("-" ++ (n + 1).repr).toList = _
        rw [String.toList_append, Nat.toList_repr]
        rfl
      rw [parseLong, htext]
      exact parseDigits_toDigits true (n + 1)

/-- Of the texts of integers a number that is read back is the one that was written. -/
theorem eq_of_parseLong_toString {v w : ℤ} (h : parseLong (toString w) = some v) : v = w := by
  rw [parseLong_toString] at h
  split at h
  · exact (Option.some.inj h).symm
  · cases h

end Jepsen

end OmnipaxosKv
