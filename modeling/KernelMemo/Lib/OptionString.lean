import Mathlib.Data.Nat.Notation

/-! # Option strings

The kernel's functions on mount option strings, over lists of characters.

* **Numbers.**  `_parse_integer` reads digits into an `unsigned long long` and notes an overflow.
  The `simple_strto*` functions take the number that wraps around; the `kstrto*` functions refuse
  an overflow, and anything behind the number but one newline.
* **Tokens.**  A pattern is a list of directives.  `match_token` takes the first pattern of a
  table that matches, with the text of each number. -/

namespace KernelMemo.OptionString

def enomem : Int := 12
def einval : Int := 22
def erange : Int := 34

/-! ### Splitting -/

/-- `strsep`: the text before the first separator, and the text behind it, if there is one. -/
def strsep (c : Char) : List Char → List Char × Option (List Char)
  | [] => ([], none)
  | x :: s =>
      if x = c then ([], some s)
      else
        let (p, rest) := strsep c s
        (x :: p, rest)

/-- The successive results of `strsep`, until it leaves nothing behind. -/
def pieces (c : Char) (s : List Char) : List (List Char) := s.splitOn c

theorem pieces_eq (c : Char) (s : List Char) :
    pieces c s = (strsep c s).1 :: (strsep c s).2.elim [] (pieces c) := by
  induction s with
  | nil => rfl
  | cons x s ih =>
      by_cases hx : x = c
      · simp [pieces, strsep, List.splitOn_cons_eq_if_modifyHead, hx]
      · simp only [pieces] at ih
        simp [pieces, strsep, List.splitOn_cons_eq_if_modifyHead, hx, ih]

/-! ### Numbers -/

/-- The value of a digit, up to base 16. -/
def digit (c : Char) : Option ℕ :=
  let lc := c.toNat ||| 0x20
  if '0' ≤ c ∧ c ≤ '9' then some (c.toNat - '0'.toNat)
  else if 'a'.toNat ≤ lc ∧ lc ≤ 'f'.toNat then some (lc - 'a'.toNat + 10)
  else none

/-- `_tolower(c) == 'x'` -/
def isX (c : Char) : Bool := c = 'x' || c = 'X'

/-- `_parse_integer_fixup_radix` -/
def parseIntegerFixupRadix (base : ℕ) (s : List Char) : ℕ × List Char :=
  let base :=
    if base = 0 then
      match s with
      | '0' :: x :: d :: _ => if isX x && (digit d).isSome then 16 else 8
      | '0' :: _ => 8
      | _ => 10
    else base
  match s with
  | '0' :: x :: rest => if base = 16 && isX x then (base, rest) else (base, s)
  | _ => (base, s)

/-- What `_parse_integer` finds: the number, how many digits it has, whether it overflowed, and
the text behind it. -/
structure Parsed where
  val : UInt64
  digits : ℕ
  overflow : Bool
  rest : List Char

/-- The loop of `_parse_integer`. -/
def parseDigits (base : ℕ) (res : UInt64) (rv : ℕ) (overflow : Bool) : List Char → Parsed
  | [] => ⟨res, rv, overflow, []⟩
  | c :: s =>
      match digit c with
      | none => ⟨res, rv, overflow, c :: s⟩
      | some v =>
          if base ≤ v then ⟨res, rv, overflow, c :: s⟩
          else
            -- the overflow is only looked for from 2^60 on
            let carry := 2 ^ 60 ≤ res.toNat && (2 ^ 64 - 1 - v) / base < res.toNat
            parseDigits base (res * UInt64.ofNat base + UInt64.ofNat v) (rv + 1)
              (overflow || carry) s

/-- `_parse_integer` -/
def parseInteger (base : ℕ) (s : List Char) : Parsed := parseDigits base 0 0 false s

/-- `simple_strtoull`, which `simple_strtoul` is on 64 bits: the number and the text behind. -/
def simpleStrtoul (base : ℕ) (s : List Char) : UInt64 × List Char :=
  let (base, s) := parseIntegerFixupRadix base s
  let p := parseInteger base s
  (p.val, p.rest)

/-- `simple_strtol` -/
def simpleStrtol (base : ℕ) : List Char → Int64 × List Char
  | '-' :: s =>
      let (v, rest) := simpleStrtoul base s
      ((-v).toInt64, rest)
  | s =>
      let (v, rest) := simpleStrtoul base s
      (v.toInt64, rest)

/-- `_kstrtoull` -/
def kstrtoullAux (base : ℕ) (s : List Char) : Except Int UInt64 :=
  let (base, s) := parseIntegerFixupRadix base s
  let p := parseInteger base s
  if p.overflow then .error (-erange)
  else if p.digits = 0 then .error (-einval)
  else if p.rest = [] ∨ p.rest = ['\n'] then .ok p.val
  else .error (-einval)

/-- `kstrtoull` -/
def kstrtoull (base : ℕ) : List Char → Except Int UInt64
  | '+' :: s => kstrtoullAux base s
  | s => kstrtoullAux base s

/-- `kstrtouint` -/
def kstrtouint (base : ℕ) (s : List Char) : Except Int UInt32 :=
  match kstrtoull base s with
  | .error e => .error e
  | .ok v => if v = v.toUInt32.toUInt64 then .ok v.toUInt32 else .error (-erange)

/-! ### Tokens -/

/-- A directive of a pattern: a character, or a number with a sign or without, in a base or, with
base 0, in the base that its prefix says. -/
inductive Directive where
  | lit (c : Char)
  | num (signed : Bool) (base : ℕ)

/-- `%u` -/
def Directive.u : Directive := .num false 0

/-- `MAX_OPT_ARGS` -/
def maxOptArgs : ℕ := 3

/-- The text behind the number that a directive reads. -/
def numEnd (signed : Bool) (base : ℕ) (s : List Char) : List Char :=
  if signed then (simpleStrtol base s).2 else (simpleStrtoul base s).2

/-- `match_one`, on the rest of the pattern, with `argc` arguments found: the texts of the
numbers to come. -/
def matchOne (argc : ℕ) : List Directive → List Char → Option (List (List Char))
  | [], s => if s = [] then some [] else none
  | .lit c :: p, s =>
      match s with
      | x :: s => if x = c then matchOne argc p s else none
      | [] => none
  | .num signed base :: p, s =>
      let rest := numEnd signed base s
      if maxOptArgs ≤ argc then none
      else if rest.length = s.length then none
      else (matchOne (argc + 1) p rest).map (s.take (s.length - rest.length) :: ·)

/-- `match_token`: the token of the first pattern that matches, and the texts of its numbers; the
pattern `NULL` matches everything. -/
def matchToken {T : Type} (s : List Char) : List (T × List Directive) → T → T × List (List Char)
  | [], last => (last, [])
  | (t, p) :: table, last =>
      match matchOne 0 p s with
      | some args => (t, args)
      | none => matchToken s table last

/-- `INT_MIN` -/
def intMin : Int := -2147483648

/-- `INT_MAX` -/
def intMax : Int := 2147483647

/-- `match_int`, given whether its `kmalloc` succeeds. -/
def matchInt (kmalloc : Bool) (s : List Char) : Except Int Int :=
  if !kmalloc then .error (-enomem)
  else
    let (v, rest) := simpleStrtol 0 s
    if rest.length = s.length then .error (-einval)
    else if v.toInt < intMin ∨ intMax < v.toInt then .error (-erange)
    else .ok v.toInt

end KernelMemo.OptionString
