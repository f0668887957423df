import Mathlib.Data.BitVec
import Mathlib.Data.List.Basic
import Mathlib.Tactic.SplitIfs

/-!
# Texts of a C program

Strings of a C program as lists of their characters without the `'\0'`, and numbers in them: as `printf`
writes them, and as `strtol` and `strtoul` read them.
-/

namespace OFM.Lib

abbrev Chars := List (BitVec 8)

/-- A string literal. -/
def chars (s : String) : Chars := s.toList.map fun c => BitVec.ofNat 8 c.toNat

/-- Literals of ASCII characters are told apart. -/
theorem chars_inj {s t : String} (hs : s.toList.all fun c => c.toNat < 256)
    (ht : t.toList.all fun c => c.toNat < 256) : chars s = chars t ↔ s = t := by
  refine ⟨fun h => ?_, congrArg chars⟩
  have hinj : ∀ l l' : List Char, (l.all fun c => c.toNat < 256) → (l'.all fun c => c.toNat < 256) →
      (l.map fun c => BitVec.ofNat 8 c.toNat) = (l'.map fun c => BitVec.ofNat 8 c.toNat) → l = l' := by
    intro l
    induction l with
    | nil =>
        intro l' _ _ h
        exact (List.map_eq_nil_iff.mp h.symm).symm
    | cons c l ih =>
        intro l' hl hl' h
        cases l' with
        | nil => cases h
        | cons d l' =>
            simp only [List.all_cons, Bool.and_eq_true, decide_eq_true_eq] at hl hl'
            obtain ⟨hcd, h⟩ := List.cons.inj h
            have hnat := congrArg BitVec.toNat hcd
            rw [BitVec.toNat_ofNat, BitVec.toNat_ofNat, Nat.mod_eq_of_lt hl.1, Nat.mod_eq_of_lt hl'.1] at hnat
            rw [Char.toNat_inj.mp hnat, ih l' hl.2 hl'.2 h]
  exact String.toList_injective (hinj _ _ hs ht h)

namespace Ascii

abbrev tab : BitVec 8 := 0x09
abbrev newline : BitVec 8 := 0x0a
abbrev space : BitVec 8 := 0x20
abbrev quote : BitVec 8 := 0x22
abbrev hash : BitVec 8 := 0x23
abbrev apostrophe : BitVec 8 := 0x27
abbrev star : BitVec 8 := 0x2a
abbrev plus : BitVec 8 := 0x2b
abbrev comma : BitVec 8 := 0x2c
abbrev minus : BitVec 8 := 0x2d
abbrev dot : BitVec 8 := 0x2e
abbrev slash : BitVec 8 := 0x2f
abbrev semicolon : BitVec 8 := 0x3b
abbrev bracketOpen : BitVec 8 := 0x5b
abbrev backslash : BitVec 8 := 0x5c
abbrev bracketClose : BitVec 8 := 0x5d
abbrev letterN : BitVec 8 := 0x6e
abbrev letterX : BitVec 8 := 0x78
abbrev braceOpen : BitVec 8 := 0x7b
abbrev braceClose : BitVec 8 := 0x7d

/-- `isprint` in the C locale -/
def isPrint (c : BitVec 8) : Bool := 0x20 ≤ c && c < 0x7f

/-- `isspace` in the C locale -/
def isSpace (c : BitVec 8) : Bool := c = 0x20 || (0x09 ≤ c && c ≤ 0x0d)

def isDigit (c : BitVec 8) : Bool := 0x30 ≤ c && c ≤ 0x39

def toLower (c : BitVec 8) : BitVec 8 := if 0x41 ≤ c && c ≤ 0x5a then c + 0x20 else c

end Ascii

open Ascii

/-- Whether `strcasecmp` finds no difference. -/
def sameCase (s t : Chars) : Bool := s.map toLower = t.map toLower

/-! ## Numbers -/

namespace Numeral

def ofChar (c : Char) : BitVec 8 := BitVec.ofNat 8 c.toNat

/-- `%u` -/
def digits (n : Nat) : Chars := (Nat.toDigits 10 n).map ofChar

/-- `%d` -/
def decimal (z : Int) : Chars := if z < 0 then minus :: digits z.natAbs else digits z.natAbs

def hexDigit (d : Nat) : BitVec 8 := BitVec.ofNat 8 (if d < 10 then 0x30 + d else 0x37 + d)

/-- `%02X` of an `unsigned int` -/
def hex (v : BitVec 32) : Chars :=
  let nibbles := [28, 24, 20, 16, 12, 8, 4, 0].map fun i => v.toNat >>> i % 16
  ((nibbles.dropWhile (· = 0)).map hexDigit).leftpad 2 0x30

def value (s : Chars) : Nat := s.foldl (fun sofar c => 10 * sofar + (c.toNat - 0x30)) 0

/-- A sign, and what stands behind it. -/
def sign : Chars → Bool × Chars
  | [] => (false, [])
  | c :: s => if c = minus then (true, s) else if c = plus then (false, s) else (false, c :: s)

/-- The number at the start of a string, with its sign, and what stands behind it. -/
def scan (s : Chars) : Option (Bool × Nat × Chars) :=
  let (neg, t) := sign (s.dropWhile isSpace)
  if t.takeWhile isDigit = [] then none
  else some (neg, value (t.takeWhile isDigit), t.dropWhile isDigit)

def longMax : Int := 0x7fffffffffffffff

def ulongMax : Nat := 0xffffffffffffffff

/-- The number, and the string from the `endptr` on: all of it where no number stands at the start. -/
def strtol (s : Chars) : Int × Chars :=
  match scan s with
  | none => (0, s)
  | some (neg, n, rest) => (if neg then max (-longMax - 1) (-(n : Int)) else min longMax n, rest)

/-- A number with a sign is taken from 2^64. -/
def strtoul (s : Chars) : Nat × Chars :=
  match scan s with
  | none => (0, s)
  | some (neg, n, rest) =>
      (if ulongMax < n then ulongMax else if neg then (ulongMax + 1 - n) % (ulongMax + 1) else n, rest)

/-! ## Numbers that are read again -/

variable {n : Nat} {z : Int} {r : Chars} {c : BitVec 8}

theorem isDigit_of_mem (hc : c ∈ digits n) : isDigit c = true := by
  obtain ⟨d, hd, rfl⟩ := List.mem_map.mp hc
  have hdigit := Nat.isDigit_of_mem_toDigits (by decide) (by decide) hd
  rw [Char.isDigit, Bool.and_eq_true, decide_eq_true_eq, decide_eq_true_eq] at hdigit
  have hlow : 48 ≤ d.toNat := hdigit.1
  have hhigh : d.toNat ≤ 57 := hdigit.2
  simp [isDigit, ofChar, BitVec.le_def, Nat.mod_eq_of_lt (show d.toNat < 256 by omega), hlow, hhigh]

theorem digits_ne_nil : digits n ≠ [] := by
  simp [digits, Nat.toDigits_ne_nil]

theorem value_digits : value (digits n) = n := by
  have hfold : ∀ (l : List Char) (m : Nat), (∀ d ∈ l, d.toNat < 256) →
      (l.map ofChar).foldl (fun sofar c => 10 * sofar + (c.toNat - 0x30)) m = Nat.ofDigitChars 10 l m := by
    intro l
    induction l with
    | nil => intros; rfl
    | cons d l ih =>
        intro m hl
        obtain ⟨hd, hl⟩ := List.forall_mem_cons.mp hl
        rw [List.map_cons, List.foldl_cons, ih _ hl, Nat.ofDigitChars_cons, ofChar, BitVec.toNat_ofNat,
          Nat.mod_eq_of_lt hd]
        rfl
  rw [value, digits, hfold _ _ fun d hd => ?_, Nat.ofDigitChars_ten_toDigits]
  have hdigit := Nat.isDigit_of_mem_toDigits (by decide) (by decide) hd
  rw [Char.isDigit, Bool.and_eq_true, decide_eq_true_eq, decide_eq_true_eq] at hdigit
  have hhigh : d.toNat ≤ 57 := hdigit.2
  omega

theorem takeWhile_digits (hr : ∀ c ∈ r.head?, isDigit c = false) :
    (digits n ++ r).takeWhile isDigit = digits n ∧ (digits n ++ r).dropWhile isDigit = r := by
  have hall : ∀ c ∈ digits n, isDigit c = true := fun _ => isDigit_of_mem
  rw [List.takeWhile_append_of_pos hall, List.dropWhile_append_of_pos hall]
  cases r with
  | nil => simp
  | cons c r =>
      have hc := hr c rfl
      simp [hc]

theorem isSpace_of_isDigit (hc : isDigit c = true) : isSpace c = false ∧ c ≠ minus ∧ c ≠ plus := by
  revert c
  decide

/-- A number stands in front of what is no digit. -/
theorem scan_digits (hr : ∀ c ∈ r.head?, isDigit c = false) :
    scan (digits n ++ r) = some (false, n, r) := by
  obtain ⟨c, l, hcl⟩ := List.exists_cons_of_ne_nil (digits_ne_nil (n := n))
  have hdigit : isDigit c = true := isDigit_of_mem (hcl ▸ List.mem_cons_self)
  obtain ⟨hspace, hminus, hplus⟩ := isSpace_of_isDigit hdigit
  have hsign : sign ((digits n ++ r).dropWhile isSpace) = (false, digits n ++ r) := by
    rw [hcl, List.cons_append, List.dropWhile_cons_of_neg (by simp [hspace]), sign, if_neg hminus, if_neg hplus]
  obtain ⟨htake, hdrop⟩ := takeWhile_digits (n := n) hr
  simp only [scan, hsign, htake, hdrop, if_neg digits_ne_nil, value_digits]

theorem scan_minus (hr : ∀ c ∈ r.head?, isDigit c = false) :
    scan (minus :: digits n ++ r) = some (true, n, r) := by
  have hsign : sign ((minus :: digits n ++ r).dropWhile isSpace) = (true, digits n ++ r) := rfl
  obtain ⟨htake, hdrop⟩ := takeWhile_digits (n := n) hr
  simp only [scan, hsign, htake, hdrop, if_neg digits_ne_nil, value_digits]

theorem strtol_decimal (hlow : -longMax - 1 ≤ z) (hhigh : z ≤ longMax)
    (hr : ∀ c ∈ r.head?, isDigit c = false) : strtol (decimal z ++ r) = (z, r) := by
  rw [decimal]
  split_ifs with hz
  · simp only [strtol, scan_minus hr, if_true]
    rw [show -(z.natAbs : Int) = z by omega, max_eq_right hlow]
  · simp only [strtol, scan_digits hr, Bool.false_eq_true, if_false]
    rw [show (z.natAbs : Int) = z by omega, min_eq_right hhigh]

/-- What has been written with a sign is read as the same number modulo 2^64. -/
theorem strtoul_decimal (hlow : -longMax - 1 ≤ z) (hhigh : z ≤ longMax)
    (hr : ∀ c ∈ r.head?, isDigit c = false) :
    strtoul (decimal z ++ r) = ((z % (ulongMax + 1 : Nat)).toNat, r) := by
  simp only [longMax] at hlow hhigh
  rw [decimal]
  split_ifs with hz
  · simp only [strtoul, scan_minus hr, if_true, ulongMax]
    rw [if_neg (by omega)]
    congr 1
    omega
  · simp only [strtoul, scan_digits hr, Bool.false_eq_true, if_false, ulongMax]
    rw [if_neg (by omega)]
    congr 1
    omega

theorem decimal_ne_nil : decimal z ≠ [] := by
  rw [decimal]
  split_ifs
  · exact List.cons_ne_nil _ _
  · exact digits_ne_nil

/-- A number is written with digits and a minus. -/
theorem mem_decimal (hc : c ∈ decimal z) : isDigit c = true ∨ c = minus := by
  rw [decimal] at hc
  split_ifs at hc
  · rcases List.mem_cons.mp hc with rfl | hc
    · exact Or.inr rfl
    · exact Or.inl (isDigit_of_mem hc)
  · exact Or.inl (isDigit_of_mem hc)

theorem digits_eq_decimal : digits n = decimal n := by
  rw [decimal, if_neg (by omega), Int.natAbs_natCast]

end Numeral

end OFM.Lib
