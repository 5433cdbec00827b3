import Finverse.Auth.Types
import Mathlib.Algebra.GroupWithZero.Nat
import Mathlib.Data.List.Infix
import Mathlib.Data.List.Sort

/-! The pure decisions of the identity domain: refresh rotation, lockout, one-time codes and
password rules. -/

namespace Finverse.Auth

/-- Code outside the repository that the identity service calls: password hashing, digests,
authenticated encryption, HMAC codes and the Unicode tables of the runtime. -/
structure Primitives where
  toLowerCase : String → String
  toUpperCase : String → String
  toISOString : Date → String
  encodeURIComponent : String → String
  hash : String → Nat → String
  verify : String → String → Bool
  needsRehash : String → Bool
  hashToken : Nat → Nat
  hashText : String → String
  totpSecret : Nat → String
  totpForStep : String → Int → String
  hexDigits : Nat → String
  cipherAvailable : Bool
  encrypt : String → Nat → String
  decrypt : String → Option String

/-! ### Refresh rotation -/

inductive RefreshOutcome
  | ok (session : Session)
  | notFound
  | expired
  | revoked
  | reuseDetected (familyId userId : Nat)
  deriving DecidableEq, Repr

def evaluateRefresh (session : Option Session) (now : Date) : RefreshOutcome :=
  match session with
  | none => .notFound
  | some session =>
    if session.revokedAt.isSome then
      -- Only a token revoked by rotation is the attack signature.
      if session.revokedReason = some .rotated then
        .reuseDetected session.familyId session.userId
      else .revoked
    else if session.expiresAt ≤ now then .expired
    else .ok session

def isSessionActive (session : Session) (now : Date) : Bool :=
  session.revokedAt.isNone && decide (session.expiresAt > now)

theorem isSessionActive_iff {session : Session} {now : Date} :
    isSessionActive session now = true ↔ session.revokedAt = none ∧ now < session.expiresAt := by
  simp [isSessionActive]

theorem evaluateRefresh_ok {found : Option Session} {now : Date} {session : Session} :
    evaluateRefresh found now = .ok session ↔
      found = some session ∧ isSessionActive session now = true := by
  cases found with
  | none => simp [evaluateRefresh]
  | some s =>
    cases hr : s.revokedAt with
    | none =>
      by_cases he : s.expiresAt ≤ now
      · simp only [evaluateRefresh, hr, Option.isSome_none, he, if_true, Bool.false_eq_true,
          if_false, reduceCtorEq, Option.some.injEq, false_iff, not_and]
        rintro rfl
        simp [isSessionActive, Int.not_lt.mpr he]
      · simp only [evaluateRefresh, hr, Option.isSome_none, he, Bool.false_eq_true, if_false,
          RefreshOutcome.ok.injEq, Option.some.injEq]
        refine ⟨?_, fun h => h.1⟩
        rintro rfl
        simpa [isSessionActive, hr] using he
    | some at_ =>
      simp only [evaluateRefresh, hr, Option.isSome_some, if_true, Option.some.injEq]
      constructor
      · intro h
        split at h <;> simp at h
      · rintro ⟨rfl, h⟩
        simp [isSessionActive, hr] at h

theorem evaluateRefresh_reuseDetected {found : Option Session} {now : Date} {familyId userId : Nat} :
    evaluateRefresh found now = .reuseDetected familyId userId ↔
      ∃ session, found = some session ∧ session.revokedAt.isSome ∧
        session.revokedReason = some .rotated ∧ session.familyId = familyId ∧
        session.userId = userId := by
  cases found with
  | none => simp [evaluateRefresh]
  | some s =>
    simp only [evaluateRefresh]
    split
    · split
      · simp_all
      · simp_all
    · split
      · simp_all
      · simp_all

/-! ### Lockout -/

def MAX_FAILED_ATTEMPTS : Nat := 8

def FAILURE_WINDOW_MS : Int := 15 * 60 * 1000

def LOCKOUT_MS : Int := 15 * 60 * 1000

structure LockoutState where
  locked : Bool
  recentFailures : Nat
  attemptsRemaining : Nat
  unlocksAt : Option Date
  retryAfterSeconds : Int
  deriving DecidableEq, Repr

def ceilDiv (a b : Int) : Int := -(-a / b)

def evaluateLockout (failureTimestamps : List Date) (now : Date) : LockoutState :=
  let cutoff := now - FAILURE_WINDOW_MS
  let recent := (failureTimestamps.filter fun t => decide (cutoff ≤ t)).insertionSort (· ≥ ·)
  if recent.length < MAX_FAILED_ATTEMPTS then
    ⟨false, recent.length, MAX_FAILED_ATTEMPTS - recent.length, none, 0⟩
  else
    -- The lock runs from the attempt that tripped it, not from the newest one.
    let trippingAttempt := recent.getD (MAX_FAILED_ATTEMPTS - 1) 0
    let unlocksAt := trippingAttempt + LOCKOUT_MS
    if unlocksAt ≤ now then ⟨false, recent.length, 1, none, 0⟩
    else ⟨true, recent.length, 0, some unlocksAt, ceilDiv (unlocksAt - now) 1000⟩

/-! ### Text -/

/-- The length of a string in UTF-16 code units. -/
def jsLength (s : String) : Nat :=
  (s.toList.map fun c => if c.val ≥ 0x10000 then 2 else 1).sum

/-- The longest part of a text that fits `n` code units. -/
def takeUnits : Nat → List Char → List Char
  | _, [] => []
  | n, c :: cs =>
    let units := jsLength (String.singleton c)
    if units ≤ n then c :: takeUnits (n - units) cs else []

/-- `slice(0, n)`; half of a surrogate pair is dropped. -/
def slice (n : Nat) (s : String) : String := String.ofList (takeUnits n s.toList)

def isJsSpace (c : Char) : Bool :=
  let n := c.val.toNat
  n ∈ [0x09, 0x0a, 0x0b, 0x0c, 0x0d, 0x20, 0xa0, 0x1680, 0x2028, 0x2029, 0x202f, 0x205f,
    0x3000, 0xfeff] || (0x2000 ≤ n && n ≤ 0x200a)

def trim (s : String) : String :=
  String.ofList ((s.toList.dropWhile isJsSpace).reverse.dropWhile isJsSpace).reverse

def includes (s part : String) : Bool := decide (part.toList <:+: s.toList)

def isSixDigits (s : String) : Bool := s.toList.length == 6 && s.toList.all Char.isDigit

/-! ### One-time codes -/

def TOTP_PERIOD_SECONDS : Int := 30

/-- The time step whose code is `candidate`, among the current one and its two neighbours. -/
def verifyTotp (P : Primitives) (secret candidate : String) (now : Date) : Option Int :=
  if isSixDigits candidate then
    let current := now / 1000 / TOTP_PERIOD_SECONDS
    [current - 1, current, current + 1].find? fun step => P.totpForStep secret step == candidate
  else none

def otpauthUri (P : Primitives) (secret email : String) : String :=
  let label := P.encodeURIComponent ("FINVERSE:" ++ email)
  let issuer := P.encodeURIComponent "FINVERSE"
  "otpauth://totp/" ++ label ++ "?secret=" ++ secret ++ "&issuer=" ++ issuer ++
    "&algorithm=SHA1&digits=6&period=30"

/-! ### Password rules -/

def MIN_PASSWORD_LENGTH : Nat := 12

def MAX_PASSWORD_LENGTH : Nat := 128

def COMMON_PASSWORDS : List String :=
  ["password1234", "passw0rd1234", "qwertyuiop12", "administrator", "letmein12345",
    "123456789012", "iloveyou1234", "welcome12345", "monkey123456", "football1234",
    "trustno1trustno1", "passwordpassword", "qwertyqwerty", "abc123abc123", "111111111111",
    "aaaaaaaaaaaa"]

/-- Every failure, so that they can be shown at once. -/
def checkPassword (P : Primitives) (password : String) (email : Option String) : List String :=
  let normalized := P.toLowerCase password
  (if jsLength password < MIN_PASSWORD_LENGTH then
    [s!"Use at least {MIN_PASSWORD_LENGTH} characters."] else []) ++
  (if jsLength password > MAX_PASSWORD_LENGTH then
    [s!"Use at most {MAX_PASSWORD_LENGTH} characters."] else []) ++
  (if normalized ∈ COMMON_PASSWORDS then
    ["This password is too common. Choose something less predictable."] else []) ++
  (if 0 < jsLength password ∧ password.toList.eraseDups.length ≤ 2 then
    ["Use more than a couple of distinct characters."] else []) ++
  match email with
  | none => []
  | some email =>
    let localPart := P.toLowerCase (String.ofList (email.toList.takeWhile (· ≠ '@')))
    if email ≠ "" ∧ 4 ≤ jsLength localPart ∧ includes normalized localPart then
      ["Do not include your email address in your password."] else []

def normalizeEmail (P : Primitives) (email : String) : String := P.toLowerCase (trim email)

/-- One `@` between two parts without blanks, and a dot inside the second part. -/
def matchesEmailPattern (s : String) : Bool :=
  let plain := fun c => !isJsSpace c && c != '@'
  let localPart := s.toList.takeWhile plain
  match s.toList.drop localPart.length with
  | '@' :: rest =>
    let label := rest.takeWhile fun c => plain c && c != '.'
    match rest.drop label.length with
    | '.' :: tail => localPart ≠ [] && label ≠ [] && tail ≠ [] && tail.all plain
    | _ => false
  | _ => false

def isValidEmail (P : Primitives) (email : String) : Bool :=
  let normalized := normalizeEmail P email
  decide (jsLength normalized ≤ 254) && matchesEmailPattern normalized

/-- Letters and digits only, in upper case. -/
def hashRecoveryCode (P : Primitives) (value : String) : String :=
  P.hashText (P.toUpperCase (String.ofList (value.toList.filter fun c =>
    c.isDigit || c.isUpper || c.isLower)))

def chunksOf4 : List Char → List (List Char)
  | a :: b :: c :: d :: rest => [a, b, c, d] :: chunksOf4 rest
  | [] => []
  | rest => [rest]

def generateRecoveryCode (P : Primitives) (draw : Nat) : String :=
  "-".intercalate ((chunksOf4 (P.toUpperCase (P.hexDigits draw)).toList).map String.ofList)

end Finverse.Auth
